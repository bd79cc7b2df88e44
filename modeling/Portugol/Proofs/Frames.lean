import Mathlib.Logic.Relation
import Portugol.Proofs.Termination

/-!
# Frames of calls

A call adds a frame and takes it away again, however it ends. So nothing that is run
changes the number of frames, or a frame below the innermost one, for those who run
it (`Congruence.balanced`).

While a program is run, there are more frames. To say what holds then, a `Point` is
an expression or a statement together with the machine in which it is run, and
`Starts` says which points a point comes to directly: the operands, the bodies, and
the bodies of callables, each in the machine in which the run comes to it.

* `Starts.balanced_or_enters`: a step from point to point keeps the frames, or adds
  one if there may be one more.
* `Reaches.keepsDepth`: at every point of a run the calls are as many as the frames,
  and no more than there may be.
-/

namespace Portugol

/-! ## Frames -/

namespace Environment

/-- The frames are as many, and they are the same below the innermost one. -/
structure SameFrames (env env' : Environment) : Prop where
  length : env'.frames.length = env.frames.length
  below : env'.frames.tail = env.frames.tail

variable {env env' env'' : Environment}

theorem SameFrames.refl (env : Environment) : SameFrames env env := ⟨rfl, rfl⟩

theorem SameFrames.trans (h : SameFrames env env') (h' : SameFrames env' env'') :
    SameFrames env env'' :=
  ⟨h'.length.trans h.length, h'.below.trans h.below⟩

theorem sameFrames_modifyInnermost (env : Environment) (f : Scope → Scope) :
    SameFrames env (env.modifyInnermost f) := by
  rw [modifyInnermost]
  split
  · exact ⟨rfl, rfl⟩
  · rename_i frame rest h
    exact ⟨by rw [h]; rfl, by rw [h]; rfl⟩

theorem sameFrames_define (env : Environment) (name : String) (value : Value) :
    SameFrames env (env.define name value) :=
  env.sameFrames_modifyInnermost _

theorem sameFrames_assign (env : Environment) (name : String) (value : Value) :
    SameFrames env (env.assign name value) := by
  rw [assign]
  split
  · exact ⟨rfl, rfl⟩
  · exact env.sameFrames_define name value

theorem sameFrames_take (env : Environment) (name : String) :
    SameFrames env (env.take name).2 :=
  env.sameFrames_modifyInnermost (Dict.erase · name)

theorem sameFrames_foldl_define (bindings : List (String × Value)) (env : Environment) :
    SameFrames env (bindings.foldl (fun env (name, value) => env.define name value) env) := by
  induction bindings generalizing env with
  | nil => exact .refl env
  | cons binding rest ih => exact (env.sameFrames_define _ _).trans (ih _)

end Environment

namespace Exec

open Environment

variable {α : Type} {s : Setting} {room : Nat} {m m' m₁ : Machine}

/-- A machine with as many calls and frames as before, the same ones below the
    innermost. -/
structure Balanced (m m' : Machine) : Prop where
  depth : m'.depth = m.depth
  frames : SameFrames m.env m'.env

namespace Balanced

theorem refl (m : Machine) : Balanced m m := ⟨rfl, .refl m.env⟩

theorem trans (h : Balanced m m₁) (h' : Balanced m₁ m') : Balanced m m' :=
  ⟨h'.depth.trans h.depth, h.frames.trans h'.frames⟩

/-- A call that is entered and left again. -/
theorem of_entering {params : List String} {values : List Value}
    (h : Balanced (entering params values m) m') : Balanced m m'.leave := by
  have hpush : SameFrames m.env.push (entering params values m).env :=
    sameFrames_foldl_define _ _
  have hbelow : m'.env.frames.tail = m.env.frames := (hpush.trans h.frames).below
  refine ⟨?_, ?_, ?_⟩
  · change m'.depth - 1 = m.depth
    rw [h.depth]
    rfl
  · change m'.env.frames.tail.length = _
    rw [hbelow]
  · change m'.env.frames.tail.tail = _
    rw [hbelow]

end Balanced

/-- A step that keeps the calls and frames, however it ends. -/
def KeepsFrames (x : Exec α) : Prop := ∀ m, Balanced m (x.after m)

theorem KeepsFrames.of_ok {x : Exec α} (hx : KeepsFrames x) {a : α} (h : x m = .ok a m') :
    Balanced m m' :=
  after_of_ok h ▸ hx m

theorem keepsFrames_assign (name : String) (value : Value) : KeepsFrames (assign name value) := by
  intro m
  rcases assign_cases name value m with h | h <;> rw [after_of_ok h]
  · exact ⟨rfl, m.env.sameFrames_define name value⟩
  · exact ⟨rfl, m.env.sameFrames_assign name value⟩

theorem keepsFrames_startLoop (s : Setting) : KeepsFrames (startLoop s) :=
  fun m => ⟨rfl, .refl m.env⟩

theorem keepsFrames_checkLoop (s : Setting) (started : Nat) :
    KeepsFrames (checkLoop s started) := by
  intro m
  rcases checkLoop_cases s started m with ⟨_, timer, _, h⟩ | ⟨_, timer, _, h⟩
  · rw [after_of_ok h]
    exact ⟨rfl, .refl m.env⟩
  · rw [after_of_error h]
    exact ⟨rfl, .refl m.env⟩

namespace Congruence

open LocalCongruence

/-- Every step keeps the calls and frames. -/
def balanced : Congruence where
  rel x _ := KeepsFrames x
  pure _ m := .refl m
  bind {_ _ x _ f _} hx hf m := by
    rcases after_bind x f m with ⟨a, _, hb⟩ | hb
    · rw [hb]
      exact (hx m).trans (hf a _)
    · rw [hb]
      exact hx m
  fault _ m := .refl m
  located line hx m := by
    rw [after_located]
    exact hx m
  print _ m := ⟨rfl, .refl m.env⟩
  nextInput target m := by
    rcases nextInput_cases target m with ⟨_, _, _, h⟩ | ⟨_, _, h⟩
    · rw [after_of_ok h]
      exact ⟨rfl, .refl m.env⟩
    · rw [after_of_error h]
      exact .refl m
  lookup name m := by
    rw [after_lookup]
    exact .refl m
  assign name value _ := keepsFrames_assign name value
  assignElement name key value _ m := by
    rcases assignElement_cases name key value m with ⟨array, h⟩ | ⟨_, h⟩
    · rw [after, h]
      exact keepsFrames_assign name array m
    · rw [after_of_error h]
      exact .refl m
  leaveResult value _ m := ⟨rfl, m.env.sameFrames_define _ value⟩
  checkDepth maxDepth m := by
    rcases checkDepth_cases maxDepth m with ⟨_, h⟩ | ⟨_, h⟩
    · rw [after_of_ok h]
      exact .refl m
    · rw [after_of_error h]
      exact .refl m
  activation {x _} params values hx m := by
    have hbody := hx (entering params values m)
    have happ := activation_apply params values x m
    cases h : x (entering params values m) with
    | ok flow m' =>
      rw [after_of_ok h] at hbody
      rw [h] at happ
      rw [after_of_ok happ]
      have htaken : Balanced (entering params values m)
          { m' with env := (m'.env.take resultName).2 } :=
        hbody.trans ⟨rfl, m'.env.sameFrames_take resultName⟩
      exact htaken.of_entering
    | error stop m' =>
      rw [after_of_error h] at hbody
      rw [h] at happ
      rw [after_of_error happ]
      exact hbody.of_entering

theorem balanced_loops (s : Setting) : balanced.Loops s s :=
  loops_of_le (keepsFrames_startLoop s) (keepsFrames_checkLoop s) (Nat.le_refl _)
    (fun m => .refl m) fun h => absurd h (Nat.lt_irrefl _)

theorem balanced_calls (s : Setting) (room : Nat) :
    balanced.Calls s s (invoker s room) (invoker s room) :=
  calls_invoker rfl rfl (fun _ _ _ _ => balanced_loops s) room

end Congruence

open LocalCongruence Congruence

theorem keepsFrames_eval (s : Setting) (room : Nat) (e : Expr) :
    KeepsFrames (eval s (invoker s room) e) :=
  rel_eval (balanced_calls s room) e

theorem keepsFrames_evalAll (s : Setting) (room : Nat) (es : List Expr) :
    KeepsFrames (evalAll s (invoker s room) es) :=
  rel_evalAll (balanced_calls s room) es

theorem keepsFrames_evalCondition (s : Setting) (room : Nat) (context : String) (cond : Expr) :
    KeepsFrames (evalCondition s (invoker s room) context cond) :=
  rel_evalCondition (balanced_calls s room) context cond

theorem keepsFrames_evalNumber (s : Setting) (room : Nat) (context : String) (number : Expr) :
    KeepsFrames (evalNumber s (invoker s room) context number) :=
  rel_evalNumber (balanced_calls s room) context number

theorem keepsFrames_execBody (s : Setting) (room : Nat) (body : List Stmt) :
    KeepsFrames (execBody s (invoker s room) body) :=
  rel_execBody (balanced_calls s room) body fun _ => balanced_loops s

/-! ## Loops -/

namespace Loop

variable {σ : Type} {loop : Loop σ} {started : Nat} {body : Exec Flow} {position position' : σ}

theorem StartsBody.balanced (he : KeepsFrames (loop.enter position))
    (h : loop.StartsBody s started position m m') : Balanced m m' := by
  obtain ⟨m₁, hcheck, hent⟩ := h.entered
  exact ((keepsFrames_checkLoop s started).of_ok hcheck).trans (he.of_ok hent)

theorem Turns.balanced (he : ∀ position, KeepsFrames (loop.enter position))
    (hb : KeepsFrames body) {k : Nat} (h : loop.Turns s started body position m k position' m') :
    Balanced m m' := by
  induction h with
  | refl _ m => exact .refl m
  | round hstart hbody _ ih => exact ((hstart.balanced (he _)).trans (hb.of_ok hbody)).trans ih

theorem StartsRound.balanced (he : ∀ position, KeepsFrames (loop.enter position))
    (hb : KeepsFrames body) {first : σ} {k : Nat} (h : loop.StartsRound s body first m k m') :
    Balanced m m' := by
  obtain ⟨started, m₀, position, m₁, hs, hturns, hstart⟩ := h
  exact (((keepsFrames_startLoop s).of_ok hs).trans (hturns.balanced he hb)).trans
    (hstart.balanced (he position))

end Loop

theorem StartsRound.balanced {stmt : Stmt} {k : Nat}
    (h : StartsRound s (invoker s room) stmt m k m') : Balanced m m' := by
  cases h with
  | @count _ var _ _ body _ _ _ _ _ _ _ hfirst hlast h =>
    have hbounds := ((keepsFrames_evalNumber s room _ _).of_ok hfirst).trans
      ((keepsFrames_evalNumber s room _ _).of_ok hlast)
    refine hbounds.trans (h.balanced (fun counter => ?_) (keepsFrames_execBody s room body))
    exact Congruence.balanced.bind (Congruence.balanced.assign var (.number counter) trivial) fun _ =>
      Congruence.balanced.pure true
  | @whileDo _ cond body _ _ _ h =>
    exact h.balanced (fun _ => keepsFrames_evalCondition s room _ cond)
      (keepsFrames_execBody s room body)
  | @times _ _ body _ _ _ _ _ hnumber h =>
    have hbounds := (keepsFrames_evalNumber s room _ _).of_ok hnumber
    refine hbounds.trans (h.balanced (fun _ => ?_) (keepsFrames_execBody s room body))
    exact Congruence.balanced.pure true

end Exec

/-! ## Points of a run -/

/-- The expressions that an expression evaluates, from left to right. The right
    operand of a logical operator is one of them, even if it is left out. -/
def Expr.operands : Expr → List Expr
  | .number _ | .text _ | .logical _ | .var _ => []
  | .element _ index => [index]
  | .binary _ left right => [left, right]
  | .unary _ operand => [operand]
  | .call _ args => args

/-- The expressions that a statement evaluates, from left to right, before it does
    anything else. -/
def Stmt.operands : Stmt → List Expr
  | .simple _ (.print args) | .simple _ (.printLine args) | .simple _ (.call _ args) => args
  | .simple _ (.assign _ value) | .simple _ (.ret (some value)) => [value]
  | .simple _ (.assignElement _ index value) => [index, value]
  | .simple _ (.read _) | .simple _ (.ret none) | .whileDo .. | .define .. => []
  | .ifThen _ cond _ | .ifElse _ cond _ _ => [cond]
  | .count _ _ first last _ => [first, last]
  | .times _ number _ => [number]

/-- The body of a loop. -/
def Stmt.loopBody : Stmt → List Stmt
  | .count _ _ _ _ body | .whileDo _ _ body | .times _ _ body => body
  | _ => []

/-- What is run: an expression, a statement, or statements in order. -/
inductive Task
  | expr (e : Expr)
  | stmt (stmt : Stmt)
  | body (stmts : List Stmt)

namespace Task

def operands : Task → List Expr
  | expr e => e.operands
  | stmt st => st.operands
  | body _ => []

/-- The name and the arguments of a call. -/
def call? : Task → Option (String × List Expr)
  | expr (.call name args) | stmt (.simple _ (.call name args)) => some (name, args)
  | _ => none

end Task

/-- A point of a run: what is run next, and in which machine, if calls can nest `room`
    levels deeper. -/
structure Point where
  room : Nat
  task : Task
  machine : Machine

namespace Exec

open Environment LocalCongruence Congruence

/-- A call that is made in the machine `m` comes to a callable with these values in the
    machine `m'`: whatever the callable does there, the call does. -/
def Invokes (s : Setting) (name : String) (given : Nat) (args : Exec (List Value)) (m : Machine)
    (callable : Callable) (values : List Value) (m' : Machine) : Prop :=
  ∀ invoke : Invoker, call s invoke name given args m =
    (do return (callable.kind, ← invoke callable values) :
      Exec (CallableKind × Option Value)) m'

/-- A call fails by itself, or its arguments do, or it comes to the callable that has the
    name: if there may be one more call, and with the values of the arguments. -/
theorem call_cases (s : Setting) (name : String) (given : Nat) (args : Exec (List Value))
    (m : Machine) :
    (∃ cause : Cause, cause.kind ≠ .parse ∧
      ∀ invoke, call s invoke name given args m = .error (.fault { cause }) m) ∨
    (∃ stop m', args m = .error stop m' ∧
      ∀ invoke, call s invoke name given args m = .error stop m') ∨
    ∃ callable values m', Dict.get? s.registry name = some callable ∧ m.depth < s.maxDepth ∧
      args m = .ok values m' ∧ Invokes s name given args m callable values m' := by
  cases hfound : Dict.get? s.registry name with
  | none =>
    refine .inl ⟨.undefinedCallable name, by rintro ⟨⟩, fun invoke => ?_⟩
    rw [call, hfound]
    rfl
  | some callable =>
    have hcall : ∀ invoke, call s invoke name given args =
        if given ≠ callable.params.length then
          fail (.wrongArgCount name callable.params.length given)
        else do
          checkDepth s.maxDepth
          return (callable.kind, ← invoke callable (← args)) := by
      intro invoke
      rw [call, hfound]
    by_cases hgiven : given = callable.params.length
    · simp only [if_neg (not_not_intro hgiven)] at hcall
      rcases Nat.lt_or_ge m.depth s.maxDepth with hdepth | hdepth
      · cases hargs : args m with
        | error stop m' =>
          refine .inr (.inl ⟨stop, m', rfl, fun invoke => ?_⟩)
          rw [hcall, bind_of_ok (checkDepth_of_lt hdepth), bind_of_error hargs]
        | ok values m' =>
          refine .inr (.inr ⟨callable, values, m', rfl, hdepth, rfl, fun invoke => ?_⟩)
          rw [hcall, bind_of_ok (checkDepth_of_lt hdepth), bind_of_ok hargs]
      · refine .inl ⟨.callDepthExceeded s.maxDepth, by rintro ⟨⟩, fun invoke => ?_⟩
        rw [hcall, bind_of_error (checkDepth_of_le hdepth)]
    · simp only [if_pos hgiven] at hcall
      refine .inl ⟨.wrongArgCount name callable.params.length given, by rintro ⟨⟩, ?_⟩
      intro invoke
      rw [hcall]
      rfl

/-- A call that comes to a callable has found it under the name, there may be one more, and
    it has evaluated its arguments. -/
theorem Invokes.found {name : String} {given : Nat} {args : Exec (List Value)}
    {m m' : Machine} {s : Setting} {callable : Callable} {values : List Value}
    (h : Invokes s name given args m callable values m') :
    Dict.get? s.registry name = some callable ∧ m.depth < s.maxDepth ∧
      args m = .ok values m' := by
  -- A callable that does nothing tells that the call comes to one, and one that fails unless
  -- it is this one on these values tells to which.
  have hidle := h fun _ _ => pure none
  rcases call_cases s name given args m with ⟨cause, _, hcall⟩ | ⟨stop, _, _, hcall⟩ |
    ⟨callable', values', m₁, hfound, hdepth, hargs, hinvokes⟩
  · cases (hcall _).symm.trans hidle
  · cases (hcall _).symm.trans hidle
  · classical
    obtain ⟨-, rfl⟩ := EStateM.Result.ok.inj ((hinvokes _).symm.trans hidle)
    have hpicky := (hinvokes _).symm.trans
      (h fun c vs => if c = callable ∧ vs = values then pure none else fail .cancelled)
    by_cases hsame : callable' = callable ∧ values' = values
    · obtain ⟨rfl, rfl⟩ := hsame
      exact ⟨hfound, hdepth, hargs⟩
    · simp only [if_neg hsame] at hpicky
      cases hpicky

/-- The points that a point comes to directly. -/
inductive Starts (s : Setting) : Point → Point → Prop
  /-- An operand, when those before it have been evaluated. -/
  | operand {room : Nat} {m m' : Machine} {task : Task} {before after : List Expr} {e : Expr}
    {values : List Value} :
    task.operands = before ++ e :: after →
    evalAll s (invoker s room) before m = .ok values m' →
    Starts s ⟨room, task, m⟩ ⟨room, .expr e, m'⟩
  /-- The index of a target, when an input has been taken for it. -/
  | index {room : Nat} {m m₁ m' : Machine} {line : Nat} {before after : List Target}
    {name text : String} {index : Expr} :
    readTargets s (invoker s room) before m = .ok () m₁ →
    nextInput (Target.element name index).describe m₁ = .ok text m' →
    Starts s ⟨room, .stmt (.simple line (.read (before ++ .element name index :: after))), m⟩
      ⟨room, .expr index, m'⟩
  /-- A statement, when those before it have been run. -/
  | stmt {room : Nat} {m m' : Machine} {before after : List Stmt} {stmt : Stmt} :
    execBody s (invoker s room) before m = .ok .next m' →
    Starts s ⟨room, .body (before ++ stmt :: after), m⟩ ⟨room, .stmt stmt, m'⟩
  | ifThen {room : Nat} {m m' : Machine} {line : Nat} {cond : Expr} {body : List Stmt} :
    evalCondition s (invoker s room) "a condição do SE" cond m = .ok true m' →
    Starts s ⟨room, .stmt (.ifThen line cond body), m⟩ ⟨room, .body body, m'⟩
  | ifElse {room : Nat} {m m' : Machine} {line : Nat} {cond : Expr} {body alternate : List Stmt}
    {b : Bool} :
    evalCondition s (invoker s room) "a condição do SE" cond m = .ok b m' →
    Starts s ⟨room, .stmt (.ifElse line cond body alternate), m⟩
      ⟨room, .body (if b then body else alternate), m'⟩
  /-- The condition of a loop, at the start of each round. -/
  | condition {room : Nat} {m m₀ m₁ m' : Machine} {line started k : Nat} {cond : Expr}
    {body : List Stmt} :
    startLoop s m = .ok started m₀ →
    (whileLoop (evalCondition s (invoker s room) "a condição do ENQUANTO" cond)).Turns s started
      (execBody s (invoker s room) body) () m₀ k () m₁ →
    checkLoop s started m₁ = .ok () m' →
    Starts s ⟨room, .stmt (.whileDo line cond body), m⟩ ⟨room, .expr cond, m'⟩
  /-- The body of a loop, in each round. -/
  | round {room : Nat} {m m' : Machine} {stmt : Stmt} {k : Nat} :
    StartsRound s (invoker s room) stmt m k m' →
    Starts s ⟨room, .stmt stmt, m⟩ ⟨room, .body stmt.loopBody, m'⟩
  /-- The body of a callable, when the call comes to it. -/
  | callee {room : Nat} {m m' : Machine} {task : Task} {name : String} {args : List Expr}
    {callable : Callable} {values : List Value} :
    task.call? = some (name, args) →
    Invokes s name args.length (evalAll s (invoker s (room + 1)) args) m callable values m' →
    Starts s ⟨room + 1, task, m⟩
      ⟨room, .body callable.body, entering callable.params values m'⟩

variable {s : Setting} {p p' : Point}

/-- A point has as many frames as the one that comes to it, or one more frame for one
    more call, if there may be one. -/
theorem Starts.balanced_or_enters (h : Starts s p p') :
    (Balanced p.machine p'.machine ∧ p'.room = p.room) ∨
      (p.machine.depth < s.maxDepth ∧ p'.machine.depth = p.machine.depth + 1 ∧
        p'.machine.env.frames.length = p.machine.env.frames.length + 1 ∧ p.room = p'.room + 1) := by
  cases h with
  | operand _ hbefore => exact .inl ⟨(keepsFrames_evalAll s _ _).of_ok hbefore, rfl⟩
  | @index room _ _ _ _ before _ _ _ _ hbefore hinput =>
    have htargets : KeepsFrames (readTargets s (invoker s room) before) :=
      rel_readTargets (balanced_calls s room) before fun _ _ => trivial
    exact .inl ⟨(htargets.of_ok hbefore).trans ((balanced.nextInput _).of_ok hinput), rfl⟩
  | stmt hbefore => exact .inl ⟨(keepsFrames_execBody s _ _).of_ok hbefore, rfl⟩
  | ifThen hcond => exact .inl ⟨(keepsFrames_evalCondition s _ _ _).of_ok hcond, rfl⟩
  | ifElse hcond => exact .inl ⟨(keepsFrames_evalCondition s _ _ _).of_ok hcond, rfl⟩
  | condition hstart hturns hcheck =>
    have hloop := hturns.balanced (fun _ => keepsFrames_evalCondition s _ _ _)
      (keepsFrames_execBody s _ _)
    exact .inl ⟨(((keepsFrames_startLoop s).of_ok hstart).trans hloop).trans
      ((keepsFrames_checkLoop s _).of_ok hcheck), rfl⟩
  | round h => exact .inl ⟨h.balanced, rfl⟩
  | @callee _ m m' _ _ _ callable values _ hinvokes =>
    -- There may be one more when the call starts, and the arguments change nothing.
    obtain ⟨_, hlt, hargs⟩ := hinvokes.found
    have hbalanced := (keepsFrames_evalAll s _ _).of_ok hargs
    have hentered : SameFrames m'.env.push (entering callable.params values m').env :=
      sameFrames_foldl_define _ _
    refine .inr ⟨hlt, congrArg (· + 1) hbalanced.depth, ?_, rfl⟩
    rw [hentered.length, ← hbalanced.frames.length]
    rfl

/-- The points that are reached from a point. -/
def Reaches (s : Setting) : Point → Point → Prop := Relation.ReflTransGen (Starts s)

/-- At a point there are as many calls as frames, no more than there may be, and room
    for those that there still may be. -/
structure KeepsDepth (s : Setting) (p : Point) : Prop where
  frames : p.machine.depth = p.machine.env.frames.length
  limit : p.machine.depth ≤ s.maxDepth
  room : p.room + p.machine.depth = s.maxDepth

theorem KeepsDepth.of_starts (hp : KeepsDepth s p) (h : Starts s p p') :
    KeepsDepth s p' := by
  obtain ⟨hframes, hlimit, hroom⟩ := hp
  rcases h.balanced_or_enters with ⟨⟨hdepth, hsame⟩, hsameRoom⟩ | ⟨hlt, hdepth, hlength, hless⟩
  · refine ⟨?_, by omega, by omega⟩
    rw [hdepth, hframes, hsame.length]
  · exact ⟨by omega, by omega, by omega⟩

theorem Reaches.keepsDepth (h : Reaches s p p') (hp : KeepsDepth s p) :
    KeepsDepth s p' := by
  induction h with
  | refl => exact hp
  | tail _ hstep ih => exact ih.of_starts hstep

/-- Whatever is run, in whatever machine, and however it ends: afterwards there are
    as many calls and frames as before, and the frames below the innermost one are
    the same. And if there are as many calls as frames and no more than there may be,
    then this is so at every point of the run. -/
theorem frames_balanced (s : Setting) (m : Machine) :
    (∀ main, Balanced m ((run s main).after m)) ∧
    (∀ e, Balanced m ((evaluate s e).after m)) ∧
    (∀ room stmts, Balanced m ((execBody s (invoker s room) stmts).after m)) ∧
    (∀ room e, Balanced m ((eval s (invoker s room) e).after m)) ∧
    (m.depth = m.env.frames.length → m.depth ≤ s.maxDepth → ∀ task p,
      Reaches s ⟨s.maxDepth - m.depth, task, m⟩ p →
      p.machine.depth = p.machine.env.frames.length ∧ p.machine.depth ≤ s.maxDepth) := by
  refine ⟨fun main => ?_, fun e => ?_, fun room stmts => keepsFrames_execBody s room stmts m,
    fun room e => keepsFrames_eval s room e m, fun hframes hlimit task p h => ?_⟩
  · have hbody : balanced.rel (execBody s (invoker s (s.maxDepth - m.depth)) main) _ :=
      rel_execBody (balanced_calls s _) main fun _ => balanced_loops s
    exact balanced.bind hbody (fun _ => balanced.pure ()) m
  · exact keepsFrames_eval s (s.maxDepth - m.depth) e m
  · obtain ⟨hp, hlimit, _⟩ := h.keepsDepth ⟨hframes, hlimit, Nat.sub_add_cancel hlimit⟩
    exact ⟨hp, hlimit⟩

/-- A procedure that calls itself. -/
def selfCaller : Callable := ⟨"p", [], [.simple 2 (.call "p" [])], .procedure, 1⟩

/-- A setting in which no call may nest in another one. -/
def oneCall : Setting where
  registry := [("p", selfCaller)]
  maxDepth := 1
  rounds := 0

theorem frames_balanced_oneCall :
    Reaches oneCall ⟨1, .stmt (.simple 4 (.call "p" [])), {}⟩
      ⟨0, .stmt (.simple 2 (.call "p" [])), Machine.enter {}⟩ ∧
    (Machine.enter {}).depth = (Machine.enter {}).env.frames.length ∧
    (Machine.enter {}).depth ≤ oneCall.maxDepth ∧
    Balanced {} ((run oneCall [.simple 4 (.call "p" [])]).after {}) := by
  have hbody : Starts oneCall ⟨1, .stmt (.simple 4 (.call "p" [])), {}⟩
      ⟨0, .body selfCaller.body, entering selfCaller.params [] {}⟩ :=
    @Starts.callee oneCall 0 {} {} _ "p" [] selfCaller [] rfl fun _ => rfl
  have hstmt : Starts oneCall ⟨0, .body selfCaller.body, Machine.enter {}⟩
      ⟨0, .stmt (.simple 2 (.call "p" [])), Machine.enter {}⟩ :=
    @Starts.stmt oneCall 0 _ _ [] [] (.simple 2 (.call "p" [])) rfl
  have hreaches := (Relation.ReflTransGen.single hbody).tail hstmt
  obtain ⟨hrun, -, -, -, hpoints⟩ := frames_balanced oneCall {}
  obtain ⟨hframes, hlimit⟩ := hpoints rfl (by decide) _ _ hreaches
  exact ⟨hreaches, hframes, hlimit, hrun _⟩

end Exec

end Portugol
