import Mathlib.Tactic.Choose
import Portugol.Proofs.Faults
import Portugol.Proofs.Supply

/-!
# Statements that fail

An expression without calls only looks at the variables, and a statement that stands on one
line prints or writes nothing before all its expressions have values. So it does all or nothing:
if it fails, the machine is as it was before. `LEIA` does so for each of its targets, one after
the other: if it fails at one of them, those before it have been assigned, as if each of them had
been assigned what was read for it by a statement of its own.

* `Exec.views_eval`: the value of an expression without calls, or its fault, is seen from the
  variables.
* `Exec.Spares`: steps that leave the machine as it is if they fail.
* `Exec.readTargets_singleton_cases`: reading a target takes an input and does the assignment.
* `Exec.execStmt_leaves_no_trace`: what a statement without calls leaves if it fails.
-/

namespace Portugol

open Fault

/-! ## Calls in statements -/

/-- Whether there is a call in an expression. -/
def Expr.hasCall : Expr → Bool
  | .number _ | .text _ | .logical _ | .var _ => false
  | .element _ index => index.hasCall
  | .binary _ left right => left.hasCall || right.hasCall
  | .unary _ operand => operand.hasCall
  | .call .. => true

/-- Whether there is a call in the index of a target. -/
def Target.hasCall : Target → Bool
  | .var _ => false
  | .element _ index => index.hasCall

/-- Whether a statement that stands on one line is a call or has one in it. -/
def Simple.hasCall : Simple → Bool
  | .print args | .printLine args => args.any Expr.hasCall
  | .read targets => targets.any Target.hasCall
  | .assign _ value => value.hasCall
  | .assignElement _ index value => index.hasCall || value.hasCall
  | .call .. => true
  | .ret value => value.any Expr.hasCall

def Simple.isRead : Simple → Bool
  | .read _ => true
  | _ => false

theorem Environment.amongOfValues_writeElement (env : Environment) (name : String)
    (key : ArrayKey) (value : Value) : Among OfValues (env.writeElement name key value) := by
  rw [writeElement]
  split
  · exact .ok _
  · exact .error ⟨⟨by rintro ⟨⟩, rfl⟩, by rintro ⟨⟩⟩
  · exact .ok _

namespace Exec

variable {α β : Type} {s : Setting} {invoke : Invoker} {m m' : Machine}

/-! ## Steps that only look -/

/-- What follows a step that gives a value or fails, and leaves the machine as it is. -/
theorem bind_of_ofExcept {x : Exec α} {f : α → Exec β} {result : Except Fault α} :
    x m = ofExcept result m → (x >>= f) m = match result with
      | .ok a => f a m
      | .error fault => .error (.fault fault) m := by
  cases result with
  | ok a => exact bind_of_ok
  | error fault => exact bind_of_error

/-- A step that only looks at the variables: its value, or its fault, is seen from them, and the
    machine stays as it is. -/
def Views (x : Exec α) : Prop :=
  ∃ view : Environment → Except Fault α, (∀ env, Among OfValues (view env)) ∧
    ∀ m, x m = ofExcept (view m.env) m

namespace Views

theorem ofExcept {result : Except Fault α} (h : Among OfValues result) :
    Views (ofExcept result) :=
  ⟨fun _ => result, fun _ => h, fun _ => rfl⟩

theorem pure (a : α) : Views (pure a) := ofExcept (.ok a)

theorem fail {cause : Cause} (h : OfValues { cause }) : Views (fail cause : Exec α) := by
  have hresult : Among OfValues (.error { cause } : Except Fault α) := .error h
  exact ofExcept hresult

theorem bind {x : Exec α} {f : α → Exec β} (hx : Views x) (hf : ∀ a, Views (f a)) :
    Views (x >>= f) := by
  obtain ⟨view, hview, hx⟩ := hx
  choose next hnext hf using hf
  refine ⟨fun env => view env >>= (next · env), fun env => (hview env).bind fun a _ => hnext a env,
    fun m => ?_⟩
  rw [bind_of_ofExcept (hx m)]
  dsimp only
  cases view m.env with
  | ok a => exact hf a m
  | error fault => rfl

theorem lookup (name : String) : Views (lookup name) :=
  ⟨fun env => env.lookup name, fun env => env.amongOfValues_lookup name, lookup_apply name⟩

theorem lookupElement (name : String) (key : ArrayKey) : Views (lookupElement name key) := by
  refine (lookup name).bind fun value => ?_
  cases value with
  | array elements =>
    dsimp only
    cases Dict.get? elements key with
    | some value => exact pure value
    | none => exact fail ⟨⟨nofun, rfl⟩, nofun⟩
  | number _ | text _ | logical _ => exact fail ⟨⟨nofun, rfl⟩, nofun⟩

theorem logical (op : BinaryOp) (left : Value) {right : Exec Value} (h : Views right) :
    Views (logical op left right) := by
  refine (ofExcept (left.amongOfValues_logicalOperand op)).bind fun b => ?_
  cases decided? op b with
  | some b => exact pure _
  | none =>
    exact h.bind fun value =>
      (ofExcept (value.amongOfValues_logicalOperand op)).bind fun _ => pure _

theorem binary (op : BinaryOp) (left : Value) {right : Exec Value} (h : Views right) :
    Views (binary op left right) := by
  cases op with
  | and | or => exact logical _ left h
  | _ => exact h.bind fun value => ofExcept (Value.amongOfValues_binary _ left value)

end Views

/-- The value of an expression without calls is seen from the variables. -/
theorem views_eval (s : Setting) (invoke : Invoker) {e : Expr} (h : e.hasCall = false) :
    Views (eval s invoke e) := by
  match e with
  | .number _ | .text _ | .logical _ => exact .pure _
  | .var name => exact .lookup name
  | .element name index =>
    exact (views_eval s invoke (e := index) h).bind fun value =>
      (Views.ofExcept value.amongOfValues_toKey).bind fun key => .lookupElement name key
  | .binary op left right =>
    obtain ⟨hleft, hright⟩ := Bool.or_eq_false_iff.1 h
    exact (views_eval s invoke hleft).bind fun value =>
      .binary op value (views_eval s invoke hright)
  | .unary op operand =>
    exact (views_eval s invoke (e := operand) h).bind fun value =>
      .ofExcept (value.amongOfValues_unary op)

theorem views_evalAll (s : Setting) (invoke : Invoker) {es : List Expr}
    (h : es.any Expr.hasCall = false) : Views (evalAll s invoke es) := by
  induction es with
  | nil => exact .pure _
  | cons first rest ih =>
    obtain ⟨hfirst, hrest⟩ := Bool.or_eq_false_iff.1 (List.any_cons.symm.trans h)
    exact (views_eval s invoke hfirst).bind fun value => (ih hrest).bind fun _ => .pure _

/-! ## Steps that write variables -/

/-- A step that gives `a` and changes nothing but the variables, in a way that is seen from them,
    or fails and changes nothing. -/
def Updates (x : Exec α) (a : α) : Prop :=
  ∃ update : Environment → Except Fault Environment, (∀ env, Among OfValues (update env)) ∧
    ∀ m, x m = match update m.env with
      | .ok env => .ok a { m with env }
      | .error fault => .error (.fault fault) m

namespace Updates

theorem assign (name : String) (value : Value) : Updates (assign name value) () :=
  ⟨fun env => .ok (env.write name value), fun _ => .ok _, assign_apply name value⟩

theorem assignElement (name : String) (key : ArrayKey) (value : Value) :
    Updates (assignElement name key value) () :=
  ⟨fun env => env.writeElement name key value,
    fun env => env.amongOfValues_writeElement name key value, assignElement_apply name key value⟩

/-- To look at the variables first makes no difference. -/
theorem of_views {x : Exec α} {f : α → Exec β} {b : β} (hx : Views x)
    (hf : ∀ a, Updates (f a) b) : Updates (x >>= f) b := by
  obtain ⟨view, hview, hx⟩ := hx
  choose next hnext hf using hf
  refine ⟨fun env => view env >>= (next · env), fun env => (hview env).bind fun a _ => hnext a env,
    fun m => ?_⟩
  rw [bind_of_ofExcept (hx m)]
  dsimp only
  cases view m.env with
  | ok a => exact hf a m
  | error fault => rfl

theorem bind_pure {x : Exec α} {a : α} (hx : Updates x a) (b : β) :
    Updates (x >>= fun _ => pure b) b := by
  obtain ⟨update, hamong, hx⟩ := hx
  refine ⟨update, hamong, fun m => ?_⟩
  have hm := hx m
  cases hu : update m.env with
  | ok env => exact bind_of_ok (hm.trans (by rw [hu]))
  | error fault => exact bind_of_error (hm.trans (by rw [hu]))

/-- How such a step ends. -/
theorem cases {x : Exec α} {a : α} (h : Updates x a) (m : Machine) :
    (∃ env, ∀ n, n.env = m.env → x n = .ok a { n with env }) ∨
      ∃ fault, fault.OfValues ∧ ∀ n, n.env = m.env → x n = .error (.fault fault) n := by
  obtain ⟨update, hamong, hx⟩ := h
  cases hu : update m.env with
  | ok env =>
    refine .inl ⟨env, fun n hn => ?_⟩
    rw [hx, hn, hu]
  | error fault =>
    refine .inr ⟨fault, hamong m.env fault hu, fun n hn => ?_⟩
    rw [hx, hn, hu]

end Updates

/-! ## All or nothing -/

/-- A step that leaves the machine as it is if it fails. -/
def Spares (x : Exec α) : Prop := ∀ m stop m', x m = .error stop m' → m' = m

/-- A step that never fails. -/
theorem Spares.of_ok {x : Exec α} (h : ∀ m, ∃ a m', x m = .ok a m') : Spares x := by
  intro m stop m' herror
  obtain ⟨a, m₁, hok⟩ := h m
  cases hok.symm.trans herror

/-- To look at the variables first makes no difference. -/
theorem Views.bind_spares {x : Exec α} {f : α → Exec β} (hx : Views x) (hf : ∀ a, Spares (f a)) :
    Spares (x >>= f) := by
  obtain ⟨view, -, hx⟩ := hx
  intro m stop m' herror
  rw [bind_of_ofExcept (hx m)] at herror
  cases hv : view m.env with
  | ok a =>
    rw [hv] at herror
    exact hf a m stop m' herror
  | error fault =>
    rw [hv] at herror
    cases herror
    rfl

theorem Updates.spares {x : Exec α} {a : α} (hx : Updates x a) : Spares x := by
  intro m stop m' herror
  rcases hx.cases m with ⟨env, hok⟩ | ⟨fault, -, hm⟩
  · cases (hok m rfl).symm.trans herror
  · cases (hm m rfl).symm.trans herror
    rfl

/-- A statement without calls other than `LEIA` does all or nothing. -/
theorem spares_execSimple (s : Setting) (invoke : Invoker) {action : Simple}
    (h : action.hasCall = false) (hread : action.isRead = false) :
    Spares (execSimple s invoke action) := by
  cases action with
  | print args | printLine args =>
    exact (views_evalAll s invoke h).bind_spares fun values => .of_ok fun m => ⟨_, _, rfl⟩
  | read => cases hread
  | assign name value =>
    exact (views_eval s invoke h).bind_spares fun v => ((Updates.assign name v).bind_pure _).spares
  | assignElement name index value =>
    obtain ⟨hindex, hvalue⟩ := Bool.or_eq_false_iff.1 h
    exact (views_eval s invoke hindex).bind_spares fun i =>
      (Views.ofExcept i.amongOfValues_toKey).bind_spares fun key =>
        (views_eval s invoke hvalue).bind_spares fun v =>
          ((Updates.assignElement name key v).bind_pure _).spares
  | call => cases h
  | ret value =>
    cases value with
    | none => exact .of_ok fun m => ⟨_, _, rfl⟩
    | some value =>
      exact (views_eval s invoke h).bind_spares fun v => .of_ok fun m => ⟨_, _, rfl⟩

/-! ## Assignments to targets -/

/-- Assigns a value to a target. -/
def assignTarget (s : Setting) (invoke : Invoker) (target : Target) (value : Value) : Exec Unit :=
  match target with
  | .var name => assign name value
  | .element name index => do
    let key ← ofExcept (← eval s invoke index).toKey
    assignElement name key value

theorem updates_assignTarget (s : Setting) (invoke : Invoker) {target : Target}
    (h : target.hasCall = false) (value : Value) :
    Updates (assignTarget s invoke target value) () := by
  cases target with
  | var name => exact .assign name value
  | element name index =>
    exact .of_views (views_eval s invoke h) fun v =>
      .of_views (.ofExcept v.amongOfValues_toKey) fun key => .assignElement name key value

end Exec

/-- The literal for what a text is read as. -/
def inputLiteral (text : String) : Expr :=
  match readNumber? (trim text.toList) with
  | some n => .number n
  | none => .text text

/-- The statement that assigns the value of an expression to a target. -/
def Target.assignment (target : Target) (value : Expr) : Simple :=
  match target with
  | .var name => .assign name value
  | .element name index => .assignElement name index value

/-- The statements that assign to each target what a text is read as. -/
def assignments (line : Nat) (targets : List Target) (texts : List String) : List Stmt :=
  (targets.zip texts).map fun (target, text) =>
    .simple line (target.assignment (inputLiteral text))

namespace Exec

theorem eval_inputLiteral (s : Setting) (invoke : Invoker) (text : String) :
    eval s invoke (inputLiteral text) = pure (Value.ofInput text) := by
  rw [inputLiteral, Value.ofInput]
  cases readNumber? (trim text.toList) <;> rfl

theorem execStmt_assignment (s : Setting) (invoke : Invoker) (line : Nat) (target : Target)
    (text : String) :
    execStmt s invoke (.simple line (target.assignment (inputLiteral text))) =
      assignTarget s invoke target (.ofInput text) >>= fun _ => pure .next := by
  cases target <;>
    simp [Target.assignment, execStmt, execSimple, eval_inputLiteral, assignTarget]

theorem updates_assignment (s : Setting) (invoke : Invoker) (line : Nat) {target : Target}
    (h : target.hasCall = false) (text : String) :
    Updates (execStmt s invoke (.simple line (target.assignment (inputLiteral text)))) .next := by
  rw [execStmt_assignment]
  exact (updates_assignTarget s invoke h (.ofInput text)).bind_pure Flow.next

/-- To read a target is to take an input and to assign it. -/
theorem readTargets_singleton (s : Setting) (invoke : Invoker) (target : Target) :
    readTargets s invoke [target] = nextInput target.describe >>= fun text =>
      assignTarget s invoke target (.ofInput text) := by
  cases target <;> simp [readTargets, assignTarget]

/-! ## Reading targets -/

/-- Reading the targets fails at number `k`, counted from one: those before it are read. -/
structure FailsAt (s : Setting) (invoke : Invoker) (targets : List Target) (m : Machine) (k : Nat)
    (fault : Fault) (m' : Machine) : Prop where
  pos : 0 < k
  le_length : k ≤ targets.length
  before : ∃ m₁, readTargets s invoke (targets.take (k - 1)) m = .ok () m₁
  fails : readTargets s invoke (targets.take k) m = .error (.fault fault) m'

/-- What reading one target does. -/
theorem readTargets_singleton_cases (s : Setting) (invoke : Invoker) (line : Nat) {target : Target}
    (h : target.hasCall = false) (m : Machine) :
    (∃ text rest env, m.inputs.queue = text :: rest ∧
      readTargets s invoke [target] m =
        .ok () { m with env, inputs := { m.inputs with queue := rest } } ∧
      ∀ n, n.env = m.env →
        execStmt s invoke (.simple line (target.assignment (inputLiteral text))) n =
          .ok .next { n with env }) ∨
    (∃ fault, m.inputs.queue = [] ∧ fault.kind = .input ∧
      readTargets s invoke [target] m = .error (.fault fault) m) ∨
    ∃ fault text rest, m.inputs.queue = text :: rest ∧ fault.kind ≠ .input ∧
      readTargets s invoke [target] m =
        .error (.fault fault) { m with inputs := { m.inputs with queue := rest } } := by
  rw [readTargets_singleton]
  rcases nextInput_cases target.describe m with ⟨text, inputs, hnext, hm⟩ | ⟨fault, hnext, hm⟩
  · obtain ⟨rest, hqueue, rfl⟩ := Inputs.next_eq_ok hnext
    rw [bind_of_ok hm]
    rcases (updates_assignTarget s invoke h (.ofInput text)).cases m with
      ⟨env, hok⟩ | ⟨fault, hfault, herror⟩
    · refine .inl ⟨text, rest, env, hqueue, hok _ rfl, fun n hn => ?_⟩
      rw [execStmt_assignment, bind_of_ok (hok n hn)]
      rfl
    · exact .inr (.inr ⟨fault, text, rest, hqueue, hfault.input, herror _ rfl⟩)
  · refine .inr (.inl ⟨fault, ?_, Inputs.kind_of_next_eq_error hnext, bind_of_error hm⟩)
    rw [Inputs.next] at hnext
    split at hnext
    · cases hnext
    · assumption

/-- Assignments end alike in machines with the same variables. -/
theorem Completes.assignments_congr {line : Nat} {targets : List Target} {texts : List String}
    (hcalls : targets.any Target.hasCall = false)
    (h : Completes s invoke (assignments line targets texts) m m') {n : Machine}
    (hn : n.env = m.env) :
    Completes s invoke (assignments line targets texts) n { n with env := m'.env } := by
  induction targets generalizing texts m n with
  | nil =>
    cases h
    exact hn ▸ .nil n
  | cons target rest ih =>
    obtain ⟨htarget, hrest⟩ := Bool.or_eq_false_iff.1 (List.any_cons.symm.trans hcalls)
    cases texts with
    | nil =>
      cases h
      exact hn ▸ .nil n
    | cons text texts =>
      cases h with
      | cons hfirst hothers =>
        rcases (updates_assignment s invoke line htarget text).cases m with
          ⟨env, hok⟩ | ⟨fault, -, herror⟩
        · cases (hok m rfl).symm.trans hfirst
          exact .cons (hok n hn) (ih hrest hothers rfl)
        · cases (herror m rfl).symm.trans hfirst

namespace FailsAt

variable {target : Target} {rest targets : List Target} {k : Nat} {fault : Fault}

/-- Reading fails at the first target, or the first one is read and reading fails at another
    one. -/
theorem cons_cases (h : FailsAt s invoke (target :: rest) m k fault m') :
    (k = 1 ∧ readTargets s invoke [target] m = .error (.fault fault) m') ∨
      ∃ j m₁, k = j + 1 ∧ readTargets s invoke [target] m = .ok () m₁ ∧
        FailsAt s invoke rest m₁ j fault m' := by
  obtain ⟨hpos, hle, ⟨m₂, hbefore⟩, hfails⟩ := h
  match k, hpos with
  | 1, _ => exact .inl ⟨rfl, hfails⟩
  | j + 2, _ =>
    simp only [Nat.add_one_sub_one, List.take_succ_cons] at hbefore hfails
    rw [readTargets_cons] at hbefore hfails
    cases hfirst : readTargets s invoke [target] m with
    | error stop m₁ =>
      rw [bind_of_error hfirst] at hbefore
      cases hbefore
    | ok _ m₁ =>
      rw [bind_of_ok hfirst] at hbefore hfails
      exact .inr ⟨j + 1, m₁, rfl, rfl, Nat.succ_pos j, Nat.le_of_succ_le_succ hle, ⟨m₂, hbefore⟩,
        hfails⟩

/-- The first target is read, and reading fails at another one. -/
theorem cons {m₁ : Machine} (hfirst : readTargets s invoke [target] m = .ok () m₁)
    (h : FailsAt s invoke rest m₁ k fault m') :
    FailsAt s invoke (target :: rest) m (k + 1) fault m' := by
  obtain ⟨hpos, hle, ⟨m₂, hbefore⟩, hfails⟩ := h
  obtain ⟨j, rfl⟩ := Nat.exists_eq_succ_of_ne_zero (Nat.ne_of_gt hpos)
  refine ⟨Nat.succ_pos _, Nat.succ_le_succ hle, ⟨m₂, ?_⟩, ?_⟩
  · simp only [Nat.add_one_sub_one, List.take_succ_cons] at hbefore ⊢
    rw [readTargets_cons, bind_of_ok hfirst, hbefore]
  · rw [List.take_succ_cons, readTargets_cons, bind_of_ok hfirst, hfails]

end FailsAt

/-- Reading targets without calls fails exactly if it fails at one of them. -/
theorem readTargets_eq_error_iff {targets : List Target}
    (hcalls : targets.any Target.hasCall = false) {stop : Stop} :
    readTargets s invoke targets m = .error stop m' ↔
      ∃ k fault, stop = .fault fault ∧ FailsAt s invoke targets m k fault m' := by
  constructor
  · intro h
    induction targets generalizing m with
    | nil => cases h
    | cons target rest ih =>
      obtain ⟨htarget, hrest⟩ := Bool.or_eq_false_iff.1 (List.any_cons.symm.trans hcalls)
      rw [readTargets_cons] at h
      rcases readTargets_singleton_cases s invoke 0 htarget m with
        ⟨_, _, _, _, hok, _⟩ | ⟨fault, _, _, herror⟩ | ⟨fault, _, _, _, _, herror⟩
      · rw [bind_of_ok hok] at h
        obtain ⟨k, fault, hstop, hfails⟩ := ih hrest h
        exact ⟨k + 1, fault, hstop, hfails.cons hok⟩
      all_goals
        rw [bind_of_error herror] at h
        cases h
        exact ⟨1, fault, rfl, Nat.one_pos, Nat.succ_pos _, ⟨_, rfl⟩, herror⟩
  · rintro ⟨k, fault, rfl, hfails⟩
    rw [← List.take_append_drop k targets, readTargets_append, bind_of_error hfails.fails]

/-- How many inputs have been taken when reading fails at target `k`: one for each target up to
    it, unless there was none for the last one. -/
def inputsTaken (k : Nat) (fault : Fault) : Nat := if fault.kind = .input then k - 1 else k

/-- When reading fails at target `k`, the targets before it have been assigned what was read for
    them, and that many inputs have been taken. -/
theorem FailsAt.effect {targets : List Target} {k : Nat} {fault : Fault}
    (h : FailsAt s invoke targets m k fault m') (hcalls : targets.any Target.hasCall = false)
    (line : Nat) :
    ∃ env, Completes s invoke
        (assignments line (targets.take (k - 1)) (m.inputs.queue.take (k - 1))) m { m with env } ∧
      inputsTaken k fault ≤ m.inputs.queue.length ∧
      m' = { m with
        env
        inputs := { m.inputs with queue := m.inputs.queue.drop (inputsTaken k fault) } } := by
  -- By induction on the targets: the first one is assigned, and the others are read in the
  -- machine that this leaves.
  induction targets generalizing m k with
  | nil => exact absurd h.le_length (Nat.not_le_of_lt h.pos)
  | cons target rest ih =>
    obtain ⟨htarget, hrest⟩ := Bool.or_eq_false_iff.1 (List.any_cons.symm.trans hcalls)
    have hsingle := readTargets_singleton_cases s invoke line htarget m
    rcases h.cons_cases with ⟨rfl, hfails⟩ | ⟨j, m₁, rfl, hfirst, hfails⟩
    · refine ⟨m.env, .nil m, ?_⟩
      rcases hsingle with ⟨_, _, _, _, hok, _⟩ | ⟨raised, hqueue, hkind, herror⟩ |
        ⟨raised, text, others, hqueue, hkind, herror⟩
      · cases hok.symm.trans hfails
      · cases herror.symm.trans hfails
        simp [inputsTaken, hkind]
      · cases herror.symm.trans hfails
        simp [inputsTaken, hkind, hqueue]
    · rcases hsingle with ⟨text, others, env₁, hqueue, hok, hassign⟩ | ⟨_, _, _, herror⟩ |
        ⟨_, _, _, _, _, herror⟩
      · cases hok.symm.trans hfirst
        obtain ⟨i, rfl⟩ := Nat.exists_eq_succ_of_ne_zero (Nat.ne_of_gt hfails.pos)
        obtain ⟨env, hcompletes, hle, rfl⟩ := ih hfails hrest
        have htake : (rest.take i).any Target.hasCall = false :=
          List.any_eq_false.2 fun target htarget =>
            List.any_eq_false.1 hrest target (List.mem_of_mem_take htarget)
        have htaken : inputsTaken (i + 1 + 1) fault = inputsTaken (i + 1) fault + 1 := by
          simp only [inputsTaken]
          split <;> rfl
        refine ⟨env, ?_, ?_, ?_⟩
        · rw [hqueue]
          exact .cons (hassign m rfl) (hcompletes.assignments_congr htake rfl)
        · rw [htaken, hqueue]
          exact Nat.succ_le_succ hle
        · rw [htaken, hqueue]
          rfl
      all_goals cases herror.symm.trans hfirst

/-- A statement without calls that stands on one line and fails leaves no trace: the machine is as
    it was. `LEIA` fails at one of its targets, and then the targets before it have been assigned
    what was read for them, as by statements of their own, and the inputs up to there have been
    taken. -/
theorem execStmt_leaves_no_trace (s : Setting) (invoke : Invoker) (line : Nat) (m m' : Machine) :
    (∀ (action : Simple) (stop : Stop), action.hasCall = false → action.isRead = false →
      execStmt s invoke (.simple line action) m = .error stop m' → m' = m) ∧
    ∀ targets : List Target, targets.any Target.hasCall = false →
      (∀ stop, execStmt s invoke (.simple line (.read targets)) m = .error stop m' ↔
        ∃ k fault, stop = .fault fault ∧ FailsAt s invoke targets m k fault m') ∧
      ∀ k fault, FailsAt s invoke targets m k fault m' → ∃ env,
        execBody s invoke
          (assignments line (targets.take (k - 1)) (m.inputs.queue.take (k - 1))) m =
            .ok .next { m with env } ∧
        inputsTaken k fault ≤ m.inputs.queue.length ∧
        m' = { m with
          env
          inputs := { m.inputs with queue := m.inputs.queue.drop (inputsTaken k fault) } } := by
  refine ⟨fun action stop hcalls hread h => spares_execSimple s invoke hcalls hread m stop m' h,
    fun targets hcalls => ⟨fun stop => ?_, fun k fault h => ?_⟩⟩
  · rw [← readTargets_eq_error_iff hcalls, execStmt, execSimple]
    cases hread : readTargets s invoke targets m with
    | ok _ m₁ =>
      rw [bind_of_ok hread]
      constructor <;> rintro ⟨⟩
    | error stop₁ m₁ =>
      rw [bind_of_error hread]
      simp
  · obtain ⟨env, hcompletes, htaken⟩ := h.effect hcalls line
    exact ⟨env, execBody_eq_next_iff.2 hcompletes, htaken⟩

/-- A setting without callables, in which no loop has a round. -/
def bare : Setting where
  rounds := 0

/-- A machine in which `v` is an array and `w` is none, with three texts to read. -/
def threeTexts : Machine where
  env := { globals := [("v", .array [(.text "a", .logical true)]), ("w", .number 0)] }
  inputs := { queue := ["b", "c", "d"] }

/-- The targets `a`, `v[a]`, `w['x']` and `z`. -/
def fourTargets : List Target :=
  [.var "a", .element "v" (.var "a"), .element "w" (.text "x"), .var "z"]

/-- What is left when `w['x']` cannot be written: `v[a]` has been, at the index just read. -/
def thirdRefused : Machine where
  env := { globals := [("a", .text "b"),
    ("v", .array [(.text "a", .logical true), (.text "b", .text "c")]), ("w", .number 0)] }

theorem execStmt_leaves_no_trace_thirdRefused :
    (execStmt bare (invoker bare 0) (.simple 1 (.print [.text "a", .var "x"]))).after threeTexts =
      threeTexts ∧
    execStmt bare (invoker bare 0) (.simple 1 (.read fourTargets)) threeTexts =
      .error (.fault { cause := .notAnArray "w" "número" }) thirdRefused ∧
    ∃ env, execBody bare (invoker bare 0)
        (assignments 1 [.var "a", .element "v" (.var "a")] ["b", "c"]) threeTexts =
          .ok .next { threeTexts with env } ∧
      thirdRefused = { threeTexts with env, inputs := {} } := by
  have hfails : FailsAt bare (invoker bare 0) fourTargets threeTexts 3
      { cause := .notAnArray "w" "número" } thirdRefused :=
    ⟨by decide, by decide, ⟨_, rfl⟩, rfl⟩
  have hprint := (execStmt_leaves_no_trace bare (invoker bare 0) 1 threeTexts
    ((execStmt bare (invoker bare 0) (.simple 1 (.print [.text "a", .var "x"]))).after
      threeTexts)).1
  obtain ⟨-, hread⟩ := execStmt_leaves_no_trace bare (invoker bare 0) 1 threeTexts thirdRefused
  obtain ⟨hiff, heffect⟩ := hread fourTargets rfl
  obtain ⟨env, hassigned, -, hleft⟩ := heffect 3 _ hfails
  exact ⟨hprint (.print [.text "a", .var "x"]) _ rfl rfl rfl, (hiff _).2 ⟨3, _, rfl, hfails⟩, env,
    hassigned, hleft⟩

end Exec

end Portugol
