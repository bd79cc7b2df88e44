import Portugol.Machine.Stmt
import Portugol.Proofs.Syntax

/-!
# Translations of steps

Evaluating an expression and running a statement put simple steps together. What is to be
said of them all, for whatever program, is said once here: a relation between steps which
holds between each simple step and the same one with other names for the variables, and
which the ways of putting steps together preserve, is a *translation*. The steps of a
program and those of the program with other names, perhaps under another setting, are
related by every translation.

A `LocalTranslation` says nothing of calls, and only some of the steps that write have to
respect it. So it is good for statements that write nothing else.

* `LocalTranslation.rel_eval` and `LocalTranslation.rel_execBody`: expressions and
  statements respect a translation, provided that calls do, that loops do if there are
  any, and that what the statements write does.
* `Translation.calls_invoker`: calls respect a translation, however deeply they may still
  nest.
-/

namespace Portugol.Exec

/-- A relation between the steps of a program and of the program with other names. It
    holds between each simple step and the one with other names, and it is preserved when
    steps are put in order. Of the steps that write, only those are asked for that write
    something in `W`. -/
structure LocalTranslation (ρ : String → String) (W : Write → Prop) where
  rel : {α : Type} → Exec α → Exec α → Prop
  pure {α : Type} (a : α) : rel (pure a) (pure a)
  bind {α β : Type} {x y : Exec α} {f g : α → Exec β} :
    rel x y → (∀ a, rel (f a) (g a)) → rel (x >>= f) (y >>= g)
  fault {α : Type} (fault : Fault) : rel (throw (.fault fault) : Exec α) (throw (.fault fault))
  located {α : Type} {x y : Exec α} (line : Nat) : rel x y → rel (located line x) (located line y)
  print (text : String) : rel (print text) (print text)
  nextInput (target : Target) :
    rel (nextInput target.describe) (nextInput (target.rename ρ).describe)
  lookup (name : String) : rel (lookup name) (lookup (ρ name))
  lookupElement (name : String) (key : ArrayKey) :
    rel (lookupElement name key) (lookupElement (ρ name) key)
  assign (name : String) (value : Value) : W (.var name) →
    rel (assign name value) (assign (ρ name) value)
  assignElement (name : String) (key : ArrayKey) (value : Value) : W (.var name) →
    rel (assignElement name key value) (assignElement (ρ name) key value)
  leaveResult (value : Value) : W .result → rel (leaveResult value) (leaveResult value)

/-- A relation between the steps of a program and of the program with other names. It
    holds between each simple step and the one with other names, and it is preserved when
    steps are put together. -/
structure Translation (ρ : String → String) extends LocalTranslation ρ fun _ => True where
  checkDepth (maxDepth : Nat) : rel (checkDepth maxDepth) (checkDepth maxDepth)
  activation {x y : Exec Flow} (params : List String) (values : List Value) :
    rel x y → rel (activation params values x) (activation (params.map ρ) values y)

namespace LocalTranslation

variable {ρ : String → String} {W : Write → Prop} (T : LocalTranslation ρ W) {s s' : Setting}
  {invoke invoke' : Invoker}

theorem rel_ofExcept {α : Type} (result : Except Fault α) :
    T.rel (ofExcept result) (ofExcept result) := by
  cases result with
  | ok a => exact T.pure a
  | error fault => exact T.fault fault

theorem rel_fail {α : Type} (cause : Cause) : T.rel (fail cause : Exec α) (fail cause) :=
  T.fault _

theorem rel_functionValue (name : String) (kind : CallableKind) (result : Option Value) :
    T.rel (functionValue name kind result) (functionValue name kind result) := by
  cases kind with
  | procedure => exact T.rel_fail _
  | function =>
    cases result with
    | some value => exact T.pure value
    | none => exact T.rel_fail _

variable {T}

theorem rel_logical {x y : Exec Value} (op : BinaryOp) (left : Value) (h : T.rel x y) :
    T.rel (logical op left x) (logical op left y) := by
  refine T.bind (T.rel_ofExcept _) fun b => ?_
  cases decided? op b with
  | some b => exact T.pure _
  | none => exact T.bind h fun _ => T.bind (T.rel_ofExcept _) fun _ => T.pure _

theorem rel_binary {x y : Exec Value} (op : BinaryOp) (left : Value) (h : T.rel x y) :
    T.rel (binary op left x) (binary op left y) := by
  cases op with
  | and | or => exact rel_logical _ left h
  | _ => exact T.bind h fun _ => T.rel_ofExcept _

/-! ## Expressions -/

variable (T s s' invoke invoke') in
/-- Calls respect the translation: calls of the same callable are related if the
    evaluation of their arguments is. -/
def Calls : Prop :=
  ∀ (name : String) (given : Nat) ⦃x y : Exec (List Value)⦄, T.rel x y →
    T.rel (call s invoke name given x) (call s' invoke' name given y)

mutual

/-- The evaluation of an expression respects a translation. -/
theorem rel_eval (h : T.Calls s s' invoke invoke') :
    ∀ e : Expr, T.rel (eval s invoke e) (eval s' invoke' (e.rename ρ))
  | .number _ | .text _ | .logical _ => T.pure _
  | .var name => T.lookup name
  | .element name index =>
    T.bind (rel_eval h index) fun _ => T.bind (T.rel_ofExcept _) fun _ => T.lookupElement name _
  | .binary op left right =>
    T.bind (rel_eval h left) fun _ => rel_binary op _ (rel_eval h right)
  | .unary _ operand => T.bind (rel_eval h operand) fun _ => T.rel_ofExcept _
  | .call name args => by
    rw [Expr.rename, eval, eval, length_renameAll]
    exact T.bind (h name _ (rel_evalAll h args)) fun (kind, result) =>
      T.rel_functionValue name kind result

theorem rel_evalAll (h : T.Calls s s' invoke invoke') :
    ∀ es : List Expr, T.rel (evalAll s invoke es) (evalAll s' invoke' (renameAll ρ es))
  | [] => T.pure _
  | first :: rest =>
    T.bind (rel_eval h first) fun _ => T.bind (rel_evalAll h rest) fun _ => T.pure _

end

theorem rel_evalCondition (h : T.Calls s s' invoke invoke') (context : String) (cond : Expr) :
    T.rel (evalCondition s invoke context cond)
      (evalCondition s' invoke' context (cond.rename ρ)) := by
  refine T.bind (rel_eval h cond) fun value => ?_
  cases value with
  | logical b => exact T.pure b
  | number _ | text _ | array _ => exact T.rel_fail _

theorem rel_evalNumber (h : T.Calls s s' invoke invoke') (context : String) (number : Expr) :
    T.rel (evalNumber s invoke context number)
      (evalNumber s' invoke' context (number.rename ρ)) := by
  refine T.bind (rel_eval h number) fun value => ?_
  cases value with
  | number n => exact T.pure n
  | logical _ | text _ | array _ => exact T.rel_fail _

/-! ## Statements -/

theorem rel_andThen {x y more more' : Exec Flow} (h : T.rel x y) (hm : T.rel more more') :
    T.rel (andThen x more) (andThen y more') := by
  refine T.bind h fun flow => ?_
  cases flow with
  | next => exact hm
  | returned => exact T.pure _

theorem rel_whenever {x y : Exec Flow} (comes : Bool) (h : T.rel x y) :
    T.rel (whenever comes x) (whenever comes y) := by
  cases comes with
  | true => exact h
  | false => exact T.pure _

theorem rel_readTargets (h : T.Calls s s' invoke invoke') (targets : List Target)
    (hw : ∀ target ∈ targets, W (.var target.name)) :
    T.rel (readTargets s invoke targets)
      (readTargets s' invoke' (targets.map (Target.rename ρ))) := by
  induction targets with
  | nil => exact T.pure ()
  | cons target rest ih =>
    have hrest := ih fun target ht => hw target (List.mem_cons_of_mem _ ht)
    have htarget := hw target List.mem_cons_self
    refine T.bind (T.nextInput target) fun text => ?_
    cases target with
    | var name => exact T.bind (T.assign name _ htarget) fun _ => hrest
    | element name index =>
      exact T.bind (rel_eval h index) fun _ => T.bind (T.rel_ofExcept _) fun _ =>
        T.bind (T.assignElement name _ _ htarget) fun _ => hrest

theorem rel_execSimple (h : T.Calls s s' invoke invoke') (action : Simple)
    (hw : ∀ w ∈ action.writes, W w) :
    T.rel (execSimple s invoke action) (execSimple s' invoke' (action.rename ρ)) := by
  cases action with
  | print args | printLine args =>
    exact T.bind (rel_evalAll h args) fun _ => T.bind (T.print _) fun _ => T.pure _
  | read targets =>
    have htargets : ∀ target ∈ targets, W (.var target.name) := fun target ht =>
      hw _ (List.mem_map_of_mem ht)
    exact T.bind (rel_readTargets h targets htargets) fun _ => T.pure _
  | assign name value =>
    have hname := hw _ List.mem_cons_self
    exact T.bind (rel_eval h value) fun _ => T.bind (T.assign name _ hname) fun _ => T.pure _
  | assignElement name index value =>
    have hname := hw _ List.mem_cons_self
    exact T.bind (rel_eval h index) fun _ => T.bind (T.rel_ofExcept _) fun _ =>
      T.bind (rel_eval h value) fun _ => T.bind (T.assignElement name _ _ hname) fun _ => T.pure _
  | call name args =>
    rw [Simple.rename, execSimple, execSimple, length_renameAll]
    exact T.bind (h name _ (rel_evalAll h args)) fun _ => T.pure _
  | ret value =>
    cases value with
    | none => exact T.pure _
    | some value =>
      have hresult := hw _ List.mem_cons_self
      exact T.bind (rel_eval h value) fun _ => T.bind (T.leaveResult _ hresult) fun _ => T.pure _

variable (T s s') in
/-- Loops respect the translation: two loops with the same positions are related if
    their rounds are. -/
def Loops : Prop :=
  ∀ ⦃σ : Type⦄ ⦃loop loop' : Loop σ⦄ ⦃body body' : Exec Flow⦄ (first : σ),
    loop.comes = loop'.comes → loop.next = loop'.next →
    (∀ position, T.rel (loop.enter position) (loop'.enter position)) → T.rel body body' →
    T.rel (loop.run s body first) (loop'.run s' body' first)

mutual

/-- Running a statement respects a translation, if what it writes does. -/
theorem rel_execStmt (h : T.Calls s s' invoke invoke') :
    ∀ stmt : Stmt, (stmt.hasLoop = true → T.Loops s s') → (∀ w ∈ stmt.writes, W w) →
      T.rel (execStmt s invoke stmt) (execStmt s' invoke' (stmt.rename ρ))
  | .simple _ action, _, hw => rel_execSimple h action hw
  | .ifThen _ cond body, hl, hw => by
    refine T.bind (rel_evalCondition h _ cond) fun b => ?_
    cases b with
    | true => exact rel_execBody h body hl hw
    | false => exact T.pure _
  | .ifElse _ cond body alternate, hl, hw => by
    obtain ⟨hbody, halternate⟩ := List.forall_mem_append.1 hw
    refine T.bind (rel_evalCondition h _ cond) fun b => ?_
    cases b with
    | true =>
      exact rel_execBody h body (fun hb => hl (by rw [Stmt.hasLoop, hb, Bool.true_or])) hbody
    | false =>
      exact rel_execBody h alternate (fun hb => hl (by rw [Stmt.hasLoop, hb, Bool.or_true]))
        halternate
  | .count _ var first last body, hl, hw => by
    obtain ⟨hvar, hbody⟩ := List.forall_mem_cons.1 hw
    exact T.bind (rel_evalNumber h _ first) fun _ => T.bind (rel_evalNumber h _ last) fun _ =>
      hl rfl _ rfl rfl (fun _ => T.bind (T.assign var _ hvar) fun _ => T.pure _)
        (rel_execBody h body (fun _ => hl rfl) hbody)
  | .whileDo _ cond body, hl, hw =>
    hl rfl _ rfl rfl (fun _ => rel_evalCondition h _ cond)
      (rel_execBody h body (fun _ => hl rfl) hw)
  | .times _ number body, hl, hw =>
    T.bind (rel_evalNumber h _ number) fun _ =>
      hl rfl _ rfl rfl (fun _ => T.pure _) (rel_execBody h body (fun _ => hl rfl) hw)
  | .define .., _, _ => T.pure _

/-- Running statements respects a translation, if what they write does. -/
theorem rel_execBody (h : T.Calls s s' invoke invoke') :
    ∀ body : List Stmt, (bodyHasLoop body = true → T.Loops s s') → (∀ w ∈ bodyWrites body, W w) →
      T.rel (execBody s invoke body) (execBody s' invoke' (bodyRename ρ body))
  | [], _, _ => T.pure _
  | stmt :: rest, hl, hw => by
    obtain ⟨hstmt, hrest⟩ := List.forall_mem_append.1 hw
    rw [bodyRename, execBody, execBody, stmt.line_rename]
    exact rel_andThen
      (T.located stmt.line (rel_execStmt h stmt
        (fun hb => hl (by rw [bodyHasLoop, hb, Bool.true_or])) hstmt))
      (rel_execBody h rest (fun hb => hl (by rw [bodyHasLoop, hb, Bool.or_true])) hrest)

end

/-- Loops respect a translation if looking at the clock does. The second ones may have
    more rounds, if the end of the rounds is related to anything. -/
theorem loops_of_le (hs : T.rel (startLoop s) (startLoop s'))
    (hc : ∀ started, T.rel (checkLoop s started) (checkLoop s' started))
    (hn : s.rounds ≤ s'.rounds)
    (ho : T.rel (throw .outOfRounds : Exec Flow) (throw .outOfRounds))
    (hlt : s.rounds < s'.rounds → ∀ y : Exec Flow, T.rel (throw .outOfRounds) y) :
    T.Loops s s' := by
  intro σ loop loop' body body' first hcomes hnext henter hbody
  have hround : ∀ started position (rest rest' : Exec Flow), T.rel rest rest' →
      T.rel (loop.round s started position rest) (loop'.round s' started position rest') := by
    intro started position rest rest' hrest
    rw [Loop.round, Loop.round, hcomes]
    exact rel_whenever _ (T.bind (hc started) fun _ =>
      T.bind (henter position) fun b => rel_whenever b hrest)
  have hrounds : ∀ left left' started position, left ≤ left' →
      (left < left' → ∀ y : Exec Flow, T.rel (throw .outOfRounds) y) →
      T.rel (loop.rounds s started body left position)
        (loop'.rounds s' started body' left' position) := by
    intro left
    induction left with
    | zero =>
      intro left' started position _ hlt
      cases left' with
      | zero => exact hround started position _ _ ho
      | succ left' => exact hround started position _ _ (hlt (Nat.succ_pos left') _)
    | succ left ih =>
      intro left' started position hle hlt
      obtain ⟨left', rfl⟩ : ∃ n, left' = n + 1 := ⟨left' - 1, by omega⟩
      refine hround started position _ _ (rel_andThen hbody ?_)
      rw [hnext]
      exact ih left' started _ (by omega) fun h => hlt (by omega)
  exact T.bind hs fun started => hrounds _ _ started first hn hlt

/-! ## Calls -/

/-- The callables of the second setting are those of the first one with other names for
    their variables. -/
def Registered (ρ : String → String) (s s' : Setting) : Prop :=
  ∀ name, Dict.get? s'.registry name = (Dict.get? s.registry name).map (Callable.rename ρ)

/-- A call respects a translation if looking at the depth of calls does, and running the
    callable. -/
theorem calls_of_checkDepth (hr : Registered ρ s s')
    (hd : T.rel (Exec.checkDepth s.maxDepth) (Exec.checkDepth s'.maxDepth))
    (hi : ∀ name callable values, Dict.get? s.registry name = some callable →
      T.rel (invoke callable values) (invoke' (callable.rename ρ) values)) :
    T.Calls s s' invoke invoke' := by
  intro name given x y hxy
  rw [call, call, hr]
  cases hc : Dict.get? s.registry name with
  | none => exact T.rel_fail _
  | some callable =>
    dsimp only [Option.map_some, Callable.rename]
    rw [List.length_map]
    split
    · exact T.rel_fail _
    · exact T.bind hd fun _ => T.bind hxy fun values =>
        T.bind (hi name callable values hc) fun _ => T.pure _

end LocalTranslation

namespace Translation

open LocalTranslation

variable {ρ : String → String} {T : Translation ρ} {s s' : Setting}

/-- Calls respect a translation, however deeply they may nest. -/
theorem calls_invoker (hr : Registered ρ s s') (hd : s.maxDepth = s'.maxDepth)
    (hl : ∀ name callable, Dict.get? s.registry name = some callable →
      bodyHasLoop callable.body = true → T.Loops s s') (room : Nat) :
    T.Calls s s' (invoker s room) (invoker s' room) := by
  have hdepth : T.rel (Exec.checkDepth s.maxDepth) (Exec.checkDepth s'.maxDepth) :=
    hd ▸ T.checkDepth _
  induction room with
  | zero =>
    refine calls_of_checkDepth hr hdepth fun name callable values _ => ?_
    rw [invoker, invoker, ← hd]
    exact T.rel_fail _
  | succ room ih =>
    exact calls_of_checkDepth hr hdepth fun name callable values hc =>
      T.activation _ values (rel_execBody ih callable.body (hl name callable hc)
        fun _ _ => trivial)

end Translation

end Portugol.Exec
