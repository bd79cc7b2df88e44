import Portugol.Proofs.WellFormed

/-!
# The faults of a run

A fault of a run comes up in one step and passes through all the steps that this one is part
of. Where it comes up it is *fresh*: it is no fault of the text, and no line is to blame yet.

`Exec.Raises` says which faults a step can end in, from a machine. It is closed under putting
steps in order, where what follows a step starts from what the step has left, so that the
points of a run can be followed (`Exec.Starts`).

* `Exec.raises_eval`, `Exec.raises_execStmt` and `Exec.raises_execBody`: the fault of an
  expression or of a statement comes up there, or at a point that it comes to directly. That
  of statements in order is blamed on the one at which it comes up, unless it is blamed
  already.
* `Exec.faults_cases`: what a fault at a point comes from.
-/

namespace Portugol

/-! ## Fresh faults -/

namespace Fault

/-- A fault that comes up in a run and is not blamed on a line yet. -/
structure Fresh (fault : Fault) : Prop where
  kind : fault.kind ≠ .parse
  line : fault.line = none

/-- A fault of values and variables, for which no input is wanting. -/
structure OfValues (fault : Fault) : Prop extends Fresh fault where
  input : fault.kind ≠ .input

end Fault

open Fault

namespace Value

theorem amongOfValues_toKey (value : Value) : Among OfValues value.toKey := by
  cases value with
  | array => exact .error ⟨⟨nofun, rfl⟩, nofun⟩
  | number | text | logical => exact .ok _

theorem amongOfValues_logicalOperand (op : BinaryOp) (value : Value) :
    Among OfValues (value.logicalOperand op) := by
  cases value with
  | logical => exact .ok _
  | number | text | array => exact .error ⟨⟨nofun, rfl⟩, nofun⟩

theorem amongOfValues_numbers (left : Value) (op : BinaryOp) (right : Value) :
    Among OfValues (numbers left op right) := by
  rw [numbers.eq_def]
  split
  · exact .ok _
  · exact .error ⟨⟨nofun, rfl⟩, nofun⟩

theorem amongOfValues_division (op : BinaryOp) {byZero : Cause} (h : byZero.kind ≠ .parse)
    (hinput : byZero.kind ≠ .input) (f : Number → Number → Number) (left right : Value) :
    Among OfValues (division op byZero f left right) := by
  refine (amongOfValues_numbers left op right).bind fun (a, b) _ => ?_
  dsimp only
  split
  · exact .error ⟨⟨h, rfl⟩, hinput⟩
  · exact .ok _

theorem amongOfValues_binary (op : BinaryOp) (left right : Value) :
    Among OfValues (binary op left right) := by
  cases op with
  | add =>
    rw [binary, add.eq_def]
    split
    case h_4 => exact .error ⟨⟨nofun, rfl⟩, nofun⟩
    all_goals exact .ok _
  | sub | mul | lt | ltEq | gt | gtEq =>
    exact (amongOfValues_numbers left _ right).bind fun _ _ => .ok _
  | div | mod | floorDiv =>
    rw [binary]
    refine amongOfValues_division _ ?_ ?_ _ left right <;> nofun
  | eq | notEq => exact .ok _
  | and | or =>
    exact (amongOfValues_logicalOperand _ left).bind fun _ _ =>
      (amongOfValues_logicalOperand _ right).bind fun _ _ => .ok _

theorem amongOfValues_unary (op : UnaryOp) (value : Value) : Among OfValues (unary op value) := by
  rw [unary.eq_def]
  split
  case h_4 => exact .error ⟨⟨nofun, rfl⟩, nofun⟩
  all_goals exact .ok _

end Value

theorem Environment.amongOfValues_lookup (env : Environment) (name : String) :
    Among OfValues (env.lookup name) := by
  rw [lookup]
  split
  · exact .ok _
  · exact .error ⟨⟨by rintro ⟨⟩, rfl⟩, by rintro ⟨⟩⟩

theorem Inputs.amongFresh_next (inputs : Inputs) (target : String) :
    Among Fresh (inputs.next target) := by
  rw [next]
  split
  · exact .ok _
  · split <;> exact .error ⟨nofun, rfl⟩

theorem Watchdog.amongFresh_check (w : Watchdog) (started : Nat) (timer : Timer) :
    Among Fresh (w.check started timer).1 := by
  rw [check]
  split
  · exact .error ⟨by rintro ⟨⟩, rfl⟩
  · dsimp only
    split
    · exact .error ⟨by rintro ⟨⟩, rfl⟩
    · exact .ok _

namespace Exec

/-! ## The faults of steps -/

variable {α β : Type} {P : Fault → Prop} {m : Machine}

/-- Whatever fault the step ends in, if it is taken in the machine `m`, is one of these. -/
def Raises (P : Fault → Prop) (x : Exec α) (m : Machine) : Prop :=
  ∀ fault m', x m = .error (.fault fault) m' → P fault

namespace Raises

theorem of_ok {x : Exec α} {a : α} {m' : Machine} (h : x m = .ok a m') : Raises P x m :=
  fun _ _ herror => by cases h.symm.trans herror

theorem pure (a : α) : Raises P (pure a) m := .of_ok rfl

theorem bind {x : Exec α} {f : α → Exec β} (hx : Raises P x m)
    (hf : ∀ a m', x m = .ok a m' → Raises P (f a) m') : Raises P (x >>= f) m := by
  intro fault m' h
  cases hm : x m with
  | ok a m₁ =>
    rw [bind_of_ok hm] at h
    exact hf a m₁ hm fault m' h
  | error stop m₁ =>
    rw [bind_of_error hm] at h
    cases h
    exact hx fault m' hm

/-- What a step gives need not matter for what follows. -/
theorem bind_of_forall {x : Exec α} {f : α → Exec β} (hx : Raises P x m)
    (hf : ∀ a m', Raises P (f a) m') : Raises P (x >>= f) m :=
  hx.bind fun a m' _ => hf a m'

theorem assign (name : String) (value : Value) : Raises P (assign name value) m := by
  rcases assign_cases name value m with h | h <;> exact .of_ok h

variable (hP : ∀ fault, fault.Fresh → P fault)

include hP

theorem ofExcept {result : Except Fault α} (h : Among Fresh result) :
    Raises P (ofExcept result) m := by
  cases result with
  | ok a => exact .of_ok rfl
  | error fault =>
    rintro _ _ ⟨⟩
    exact hP _ (h _ rfl)

theorem ofValues {result : Except Fault α} (h : Among OfValues result) :
    Raises P (Exec.ofExcept result) m :=
  ofExcept hP (h.mono fun _ => OfValues.toFresh)

theorem fail {cause : Cause} (h : cause.kind ≠ .parse) :
    Raises P (fail cause : Exec α) m := by
  have hfresh : Among Fresh (.error { cause } : Except Fault α) := .error ⟨h, rfl⟩
  exact ofExcept hP hfresh

theorem lookup (name : String) : Raises P (lookup name) m :=
  ofValues hP (m.env.amongOfValues_lookup name)

theorem nextInput (target : String) : Raises P (nextInput target) m := by
  intro fault m' h
  rcases nextInput_cases target m with ⟨_, _, _, hok⟩ | ⟨_, hnext, herror⟩
  · cases hok.symm.trans h
  · cases herror.symm.trans h
    exact hP _ (m.inputs.amongFresh_next target _ hnext)

theorem checkLoop (s : Setting) (started : Nat) : Raises P (checkLoop s started) m :=
  ofExcept (m := { m with timer := (s.watchdog.check started m.timer).2 }) hP
    (s.watchdog.amongFresh_check started m.timer)

theorem lookupElement (name : String) (key : ArrayKey) : Raises P (lookupElement name key) m := by
  refine (lookup hP name).bind_of_forall fun value m' => ?_
  cases value with
  | array elements =>
    dsimp only
    cases Dict.get? elements key with
    | some value => exact pure value
    | none => exact fail hP nofun
  | number _ | text _ | logical _ => exact fail hP nofun

theorem assignElement (name : String) (key : ArrayKey) (value : Value) :
    Raises P (assignElement name key value) m := by
  have hcurrent : Raises P (assigned? name) m := .of_ok rfl
  refine hcurrent.bind_of_forall fun current m' => ?_
  cases current with
  | none => exact assign name _
  | some current =>
    cases current with
    | array elements => exact assign name _
    | number _ | text _ | logical _ => exact fail hP nofun

theorem functionValue (name : String) (kind : CallableKind) (result : Option Value) :
    Raises P (functionValue name kind result) m := by
  cases kind with
  | procedure => exact fail hP nofun
  | function =>
    cases result with
    | some value => exact pure value
    | none => exact fail hP nofun

theorem logical (op : BinaryOp) (left : Value) {right : Exec Value} (h : Raises P right m) :
    Raises P (logical op left right) m := by
  refine (ofValues hP (left.amongOfValues_logicalOperand op)).bind fun b m' hm => ?_
  obtain rfl : m' = m := (after_of_ok hm).symm.trans (after_ofExcept _ m)
  cases decided? op b with
  | some b => exact pure _
  | none =>
    exact h.bind_of_forall fun value _ =>
      (ofValues hP (value.amongOfValues_logicalOperand op)).bind_of_forall fun _ _ => pure _

theorem binary (op : BinaryOp) (left : Value) {right : Exec Value} (h : Raises P right m) :
    Raises P (binary op left right) m := by
  cases op with
  | and | or => exact logical hP _ left h
  | _ => exact h.bind_of_forall fun value _ => ofValues hP (Value.amongOfValues_binary _ left value)

theorem evalCondition {s : Setting} {invoke : Invoker} {cond : Expr}
    (h : Raises P (eval s invoke cond) m) (context : String) :
    Raises P (evalCondition s invoke context cond) m := by
  refine h.bind_of_forall fun value m' => ?_
  cases value with
  | logical b => exact pure b
  | number _ | text _ | array _ => exact fail hP nofun

theorem evalNumber {s : Setting} {invoke : Invoker} {number : Expr}
    (h : Raises P (eval s invoke number) m) (context : String) :
    Raises P (evalNumber s invoke context number) m := by
  refine h.bind_of_forall fun value m' => ?_
  cases value with
  | number n => exact pure n
  | logical _ | text _ | array _ => exact fail hP nofun

end Raises

/-! ## Faults at points -/

end Exec

/-- What is run at a point ends in the fault. -/
def Point.Faults (s : Setting) (p : Point) (fault : Fault) : Prop :=
  match p.task with
  | .expr e => ∃ m', Exec.eval s (Exec.invoker s p.room) e p.machine = .error (.fault fault) m'
  | .stmt stmt =>
    ∃ m', Exec.execStmt s (Exec.invoker s p.room) stmt p.machine = .error (.fault fault) m'
  | .body stmts =>
    ∃ m', Exec.execBody s (Exec.invoker s p.room) stmts p.machine = .error (.fault fault) m'

theorem Task.operands_of_call? {task : Task} {name : String} {args : List Expr}
    (h : task.call? = some (name, args)) : task.operands = args := by
  rw [call?.eq_def] at h
  split at h
  · cases h
    rfl
  · cases h
    rfl
  · cases h

namespace Exec

/-- The fault comes up at the point, or at one that it comes to directly. -/
def Passed (s : Setting) (p : Point) (fault : Fault) : Prop :=
  fault.Fresh ∨ ∃ p', Starts s p p' ∧ p'.Faults s fault

theorem Passed.of_fresh {s : Setting} {p : Point} (fault : Fault) (h : fault.Fresh) :
    Passed s p fault := .inl h

/-- What is evaluated next is a point that this one comes to. -/
theorem raises_eval_of_starts {s : Setting} {p : Point} {room : Nat} {e : Expr} {m : Machine}
    (h : Starts s p ⟨room, .expr e, m⟩) : Raises (Passed s p) (eval s (invoker s room) e) m :=
  fun _ m' herror => .inr ⟨_, h, m', herror⟩

theorem raises_execBody_of_starts {s : Setting} {p : Point} {room : Nat} {stmts : List Stmt}
    {m : Machine} (h : Starts s p ⟨room, .body stmts, m⟩) :
    Raises (Passed s p) (execBody s (invoker s room) stmts) m :=
  fun _ m' herror => .inr ⟨_, h, m', herror⟩

section Operands

variable {s : Setting} {room : Nat} {task : Task} {m m' : Machine} {values : List Value}

theorem evalAll_append_singleton {invoke : Invoker} {before : List Expr} {e : Expr} {value : Value}
    {m₁ : Machine} (hbefore : evalAll s invoke before m = .ok values m₁)
    (h : eval s invoke e m₁ = .ok value m') :
    evalAll s invoke (before ++ [e]) m = .ok (values ++ [value]) m' := by
  induction before generalizing m values with
  | nil =>
    cases hbefore
    rw [List.nil_append, evalAll, bind_of_ok h]
    rfl
  | cons first rest ih =>
    rw [evalAll] at hbefore
    cases hfirst : eval s invoke first m with
    | error stop m₂ =>
      rw [bind_of_error hfirst] at hbefore
      cases hbefore
    | ok v m₂ =>
      rw [bind_of_ok hfirst] at hbefore
      cases hrest : evalAll s invoke rest m₂ with
      | error stop m₃ =>
        rw [bind_of_error hrest] at hbefore
        cases hbefore
      | ok vs m₃ =>
        rw [bind_of_ok hrest] at hbefore
        cases hbefore
        rw [List.cons_append, evalAll, bind_of_ok hfirst, bind_of_ok (ih hrest)]
        rfl

theorem raises_operand (before : List Expr) {e : Expr} {after : List Expr}
    (h : task.operands = before ++ e :: after)
    (hbefore : evalAll s (invoker s room) before m = .ok values m') :
    Raises (Passed s ⟨room, task, m⟩) (eval s (invoker s room) e) m' :=
  raises_eval_of_starts (.operand h hbefore)

theorem raises_first {e : Expr} {after : List Expr} (h : task.operands = e :: after) :
    Raises (Passed s ⟨room, task, m⟩) (eval s (invoker s room) e) m :=
  raises_operand [] h rfl

theorem raises_second {e e' : Expr} {after : List Expr} (h : task.operands = e :: e' :: after)
    {value : Value} (hvalue : eval s (invoker s room) e m = .ok value m') :
    Raises (Passed s ⟨room, task, m⟩) (eval s (invoker s room) e') m' := by
  have hbefore : evalAll s (invoker s room) [e] m = .ok [value] m' := by
    rw [evalAll, bind_of_ok hvalue]
    rfl
  exact raises_operand [e] h hbefore

theorem raises_operands (before : List Expr) {es : List Expr} (h : task.operands = before ++ es)
    (hbefore : evalAll s (invoker s room) before m = .ok values m') :
    Raises (Passed s ⟨room, task, m⟩) (evalAll s (invoker s room) es) m' := by
  -- By induction on the operands left: the first of them comes to be one of those before.
  induction es generalizing before values m' with
  | nil => exact .pure _
  | cons e rest ih =>
    refine (raises_operand before h hbefore).bind fun value m₁ hvalue => ?_
    have hrest := ih _ (h.trans (List.append_cons before e rest))
      (evalAll_append_singleton hbefore hvalue)
    exact hrest.bind_of_forall fun _ _ => .pure _

/-- The fault of a call is its own, or that of an argument or of the callable. -/
theorem raises_call {name : String} {args : List Expr} (h : task.call? = some (name, args)) :
    Raises (Passed s ⟨room, task, m⟩)
      (call s (invoker s room) name args.length (evalAll s (invoker s room) args)) m := by
  intro fault m' herror
  rcases call_cases s name args.length (evalAll s (invoker s room) args) m with
    ⟨cause, hkind, hcall⟩ | ⟨stop, m₁, hargs, hcall⟩ |
    ⟨callable, values, m₁, _, _, _, hinvokes⟩
  · cases (hcall _).symm.trans herror
    exact .inl ⟨hkind, rfl⟩
  · cases (hcall _).symm.trans herror
    exact raises_operands [] (Task.operands_of_call? h) rfl fault m' hargs
  · rw [hinvokes] at herror
    cases room with
    | zero =>
      -- The callable is not run if there is no room left for it.
      cases herror
      exact .inl ⟨nofun, rfl⟩
    | succ room =>
      have happ : invoker s (room + 1) callable values m₁ = _ :=
        activation_apply callable.params values (execBody s (invoker s room) callable.body) m₁
      cases hbody : execBody s (invoker s room) callable.body
          (entering callable.params values m₁) with
      | ok flow m₂ =>
        rw [hbody] at happ
        rw [bind_of_ok happ] at herror
        cases herror
      | error stop m₂ =>
        rw [hbody] at happ
        rw [bind_of_error happ] at herror
        cases herror
        exact .inr ⟨_, .callee h hinvokes, m₂, hbody⟩

end Operands

/-- The fault of an expression is its own, or that of an operand or of a callable. -/
theorem raises_eval (s : Setting) (room : Nat) (e : Expr) (m : Machine) :
    Raises (Passed s ⟨room, .expr e, m⟩) (eval s (invoker s room) e) m := by
  cases e with
  | number | text | logical => exact .pure _
  | var name => exact .lookup Passed.of_fresh name
  | element name index =>
    exact (raises_first rfl).bind_of_forall fun value _ =>
      (Raises.ofValues Passed.of_fresh value.amongOfValues_toKey).bind_of_forall fun key _ =>
        .lookupElement Passed.of_fresh name key
  | binary op left right =>
    refine (raises_first rfl).bind fun value m₁ hvalue => ?_
    exact .binary Passed.of_fresh op value (raises_second rfl hvalue)
  | unary op operand =>
    exact (raises_first rfl).bind_of_forall fun value _ =>
      .ofValues Passed.of_fresh (value.amongOfValues_unary op)
  | call name args =>
    exact (raises_call rfl).bind_of_forall fun outcome _ =>
      .functionValue Passed.of_fresh name outcome.1 outcome.2

/-! ## Faults of statements -/

namespace Loop

variable {σ : Type} {loop : Loop σ} {s : Setting} {started : Nat} {body : Exec Flow} {first : σ}

/-- One more round behind some others. -/
theorem Turns.snoc {position position' : σ} {m₀ m₁ m₂ : Machine} {k : Nat}
    (h : loop.Turns s started body position m₀ k position' m)
    (hstart : loop.StartsBody s started position' m m₁) (hbody : body m₁ = .ok .next m₂) :
    loop.Turns s started body position m₀ (k + 1) (loop.next position') m₂ := by
  induction h with
  | refl => exact .round hstart hbody (.refl _ _)
  | round hstart' hbody' _ ih => exact .round hstart' hbody' (ih hstart)

/-- The fault of a loop is that of a look at the clock, of the start of a round or of the
    body in one. -/
theorem raises_run (hP : ∀ fault, fault.Fresh → P fault)
    (henter : ∀ started m₀ k position m₁ m', startLoop s m = .ok started m₀ →
      loop.Turns s started body first m₀ k position m₁ → checkLoop s started m₁ = .ok () m' →
      Raises P (loop.enter position) m')
    (hbody : ∀ k m', loop.StartsRound s body first m k m' → Raises P body m') :
    Raises P (loop.run s body first) m := by
  have hclock : Raises P (startLoop s) m := .of_ok rfl
  refine hclock.bind fun started m₀ hstarted => ?_
  -- One round behind some others, whatever its body is followed by.
  have hround : ∀ k position m₁, loop.Turns s started body first m₀ k position m₁ →
      ∀ rest, (∀ m', loop.StartsBody s started position m₁ m' → Raises P rest m') →
      Raises P (loop.round s started position rest) m₁ := by
    intro k position m₁ hturns rest hrest
    rw [round]
    cases hcomes : loop.comes position with
    | false => exact .pure _
    | true =>
      refine (Raises.checkLoop hP s started).bind fun _ m₂ hcheck => ?_
      have hentering := henter started m₀ k position m₁ m₂ hstarted hturns hcheck
      refine hentering.bind fun b m₃ hentered => ?_
      cases b with
      | false => exact .pure _
      | true => exact hrest m₃ ⟨hcomes, m₂, hcheck, hentered⟩
  -- The turns so far are kept along with the rounds left, as they tell where the next one starts.
  have hrounds : ∀ left k position m₁, loop.Turns s started body first m₀ k position m₁ →
      Raises P (loop.rounds s started body left position) m₁ := by
    intro left
    induction left with
    | zero =>
      intro k position m₁ hturns
      exact hround k position m₁ hturns _ fun _ _ _ _ h => by cases h
    | succ left ih =>
      intro k position m₁ hturns
      refine hround k position m₁ hturns _ fun m₂ hstart => ?_
      have hraises := hbody k m₂ ⟨started, m₀, position, m₁, hstarted, hturns, hstart⟩
      refine hraises.bind fun flow m₃ hflow => ?_
      cases flow with
      | returned => exact .pure _
      | next => exact ih (k + 1) _ m₃ (hturns.snoc hstart hflow)
  exact hrounds s.rounds 0 first m₀ (.refl _ _)

end Loop

variable {s : Setting} {room : Nat} {m m' : Machine}

theorem readTargets_cons (s : Setting) (invoke : Invoker) (target : Target) (rest : List Target) :
    readTargets s invoke (target :: rest) =
      readTargets s invoke [target] >>= fun _ => readTargets s invoke rest := by
  cases target <;> simp [readTargets]

theorem readTargets_append (s : Setting) (invoke : Invoker) (before rest : List Target) :
    readTargets s invoke (before ++ rest) =
      readTargets s invoke before >>= fun _ => readTargets s invoke rest := by
  induction before with
  | nil => rfl
  | cons target others ih =>
    rw [List.cons_append, readTargets_cons, readTargets_cons s invoke target others, ih, bind_assoc]

theorem raises_readTargets {line : Nat} (before : List Target) {targets : List Target}
    (hbefore : readTargets s (invoker s room) before m = .ok () m') :
    Raises (Passed s ⟨room, .stmt (.simple line (.read (before ++ targets))), m⟩)
      (readTargets s (invoker s room) targets) m' := by
  induction targets generalizing before m' with
  | nil => exact .pure _
  | cons target rest ih =>
    rw [readTargets_cons]
    refine Raises.bind ?_ fun _ m₁ htarget => ?_
    · refine (Raises.nextInput Passed.of_fresh _).bind fun text m₁ htext => ?_
      cases target with
      | var name => exact (Raises.assign name _).bind_of_forall fun _ _ => .pure _
      | element name index =>
        exact (raises_eval_of_starts (.index hbefore htext)).bind_of_forall fun value _ =>
          (Raises.ofValues Passed.of_fresh value.amongOfValues_toKey).bind_of_forall fun key _ =>
            (Raises.assignElement Passed.of_fresh name key _).bind_of_forall fun _ _ => .pure _
    · rw [List.append_cons]
      refine ih _ ?_
      rw [readTargets_append, bind_of_ok hbefore, htarget]

theorem raises_execSimple (line : Nat) (action : Simple) :
    Raises (Passed s ⟨room, .stmt (.simple line action), m⟩)
      (execSimple s (invoker s room) action) m := by
  cases action with
  | print args | printLine args =>
    exact (raises_operands [] rfl rfl).bind_of_forall fun _ _ =>
      (Raises.of_ok rfl).bind_of_forall fun _ _ => .pure _
  | read targets => exact (raises_readTargets [] rfl).bind_of_forall fun _ _ => .pure _
  | assign name value =>
    exact (raises_first rfl).bind_of_forall fun _ _ =>
      (Raises.assign name _).bind_of_forall fun _ _ => .pure _
  | assignElement name index value =>
    refine (raises_first rfl).bind fun v m₁ hv => ?_
    refine (Raises.ofValues Passed.of_fresh v.amongOfValues_toKey).bind fun key m₂ hkey => ?_
    -- A key changes nothing, so the second operand starts where the first one ended.
    obtain rfl : m₂ = m₁ := (after_of_ok hkey).symm.trans (after_ofExcept _ m₁)
    exact (raises_second rfl hv).bind_of_forall fun _ _ =>
      (Raises.assignElement Passed.of_fresh name key _).bind_of_forall fun _ _ => .pure _
  | call name args => exact (raises_call rfl).bind_of_forall fun _ _ => .pure _
  | ret value =>
    cases value with
    | none => exact .pure _
    | some value =>
      exact (raises_first rfl).bind_of_forall fun _ _ =>
        (Raises.of_ok rfl).bind_of_forall fun _ _ => .pure _

theorem exists_eval_of_evalNumber {invoke : Invoker} {context : String} {number : Expr}
    {n : Number} (h : evalNumber s invoke context number m = .ok n m') :
    ∃ value, eval s invoke number m = .ok value m' := by
  rw [evalNumber] at h
  cases hvalue : eval s invoke number m with
  | error stop m₁ =>
    rw [bind_of_error hvalue] at h
    cases h
  | ok value m₁ =>
    rw [bind_of_ok hvalue] at h
    cases value with
    | number n =>
      cases h
      exact ⟨_, rfl⟩
    | text _ | logical _ | array _ => cases h

/-- The fault of a statement is its own, or that of an expression, of a body or of a
    callable. -/
theorem raises_execStmt (s : Setting) (room : Nat) (stmt : Stmt) (m : Machine) :
    Raises (Passed s ⟨room, .stmt stmt, m⟩) (execStmt s (invoker s room) stmt) m := by
  cases stmt with
  | simple line action => exact raises_execSimple line action
  | ifThen line cond body =>
    refine (Raises.evalCondition Passed.of_fresh (raises_first rfl) _).bind fun b m₁ hcond => ?_
    cases b with
    | true => exact raises_execBody_of_starts (.ifThen hcond)
    | false => exact .pure _
  | ifElse line cond body alternate =>
    refine (Raises.evalCondition Passed.of_fresh (raises_first rfl) _).bind fun b m₁ hcond => ?_
    cases b with
    | true => exact raises_execBody_of_starts (.ifElse hcond)
    | false => exact raises_execBody_of_starts (.ifElse hcond)
  | count line var first last body =>
    refine (Raises.evalNumber Passed.of_fresh (raises_first rfl) _).bind fun a m₁ ha => ?_
    obtain ⟨v, hv⟩ := exists_eval_of_evalNumber ha
    refine (Raises.evalNumber Passed.of_fresh (raises_second rfl hv) _).bind fun b m₂ hb => ?_
    exact Loop.raises_run Passed.of_fresh
      (fun _ _ _ _ _ _ _ _ _ => (Raises.assign var _).bind_of_forall fun _ _ => .pure _)
      fun k m₃ hround => raises_execBody_of_starts (.round (.count ha hb hround))
  | whileDo line cond body =>
    refine Loop.raises_run Passed.of_fresh
      (fun started m₀ k position m₁ m₂ hstart hturns hcheck => ?_)
      fun k m₁ hround => raises_execBody_of_starts (.round (.whileDo hround))
    exact .evalCondition Passed.of_fresh
      (raises_eval_of_starts (.condition hstart hturns hcheck)) _
  | times line number body =>
    refine (Raises.evalNumber Passed.of_fresh (raises_first rfl) _).bind fun n m₁ hn => ?_
    refine Loop.raises_run Passed.of_fresh (fun _ _ _ _ _ _ _ _ _ => .pure _)
      fun k m₂ hround => raises_execBody_of_starts (.round (.times hn hround))
  | define => exact .pure _

theorem exists_fault_of_located {α : Type} {line : Nat} {x : Exec α} {fault : Fault}
    (h : located line x m = .error (.fault fault) m') :
    ∃ raised, x m = .error (.fault raised) m' ∧ fault = raised.orLine line := by
  rw [located] at h
  split at h
  · rename_i raised m₁ hx
    cases h
    exact ⟨raised, hx, rfl⟩
  · rename_i hx
    exact absurd h (hx fault m')

/-- The fault comes up at a statement that the point comes to, and is blamed on it unless it
    is blamed on another one already. -/
def Blamed (s : Setting) (p : Point) (fault : Fault) : Prop :=
  ∃ p' stmt raised, Starts s p p' ∧ p'.task = .stmt stmt ∧ p'.Faults s raised ∧
    fault = raised.orLine stmt.line

theorem raises_execBody (before : List Stmt) {stmts : List Stmt}
    (hbefore : execBody s (invoker s room) before m = .ok .next m') :
    Raises (Blamed s ⟨room, .body (before ++ stmts), m⟩) (execBody s (invoker s room) stmts)
      m' := by
  induction stmts generalizing before m' with
  | nil => exact .pure _
  | cons stmt rest ih =>
    rw [execBody, andThen]
    refine Raises.bind (fun fault m₁ hfault => ?_) fun flow m₁ hflow => ?_
    · obtain ⟨raised, hraised, rfl⟩ := exists_fault_of_located hfault
      exact ⟨_, stmt, raised, .stmt hbefore, rfl, ⟨m₁, hraised⟩, rfl⟩
    · cases flow with
      | returned => exact .pure _
      | next =>
        have hstmt : Completes s (invoker s room) [stmt] m' m₁ :=
          .cons (located_eq_ok_iff.1 hflow) (.nil m₁)
        rw [List.append_cons]
        exact ih _ (execBody_eq_next_iff.2 ((execBody_eq_next_iff.1 hbefore).append hstmt))

/-! ## Where a fault comes from -/

variable {p p' : Point} {fault : Fault}

/-- What a fault at a point comes from: it comes up there, or at a point that it comes to
    directly, where it is the same fault or where it was not blamed on a line before. -/
theorem faults_cases (h : p.Faults s fault) :
    (fault.Fresh ∧ ∀ stmts, p.task ≠ .body stmts) ∨
    (∃ p', Starts s p p' ∧ p'.Faults s fault) ∨
    ∃ p' stmt, Starts s p p' ∧ p'.task = .stmt stmt ∧ p'.Faults s { fault with line := none } ∧
      fault.line = some stmt.line := by
  obtain ⟨room, task, m⟩ := p
  cases task with
  | expr e =>
    obtain ⟨m', h⟩ := h
    exact (raises_eval s room e m fault m' h).imp (⟨·, nofun⟩) .inl
  | stmt stmt =>
    obtain ⟨m', h⟩ := h
    exact (raises_execStmt s room stmt m fault m' h).imp (⟨·, nofun⟩) .inl
  | body stmts =>
    obtain ⟨m', h⟩ := h
    obtain ⟨p', stmt, raised, hstarts, htask, hraised, rfl⟩ := raises_execBody [] rfl fault m' h
    -- It is the same fault here only if it has been blamed before.
    refine .inr ?_
    obtain ⟨cause, line⟩ := raised
    cases line with
    | none => exact .inr ⟨p', stmt, hstarts, htask, hraised, rfl⟩
    | some line => exact .inl ⟨p', hstarts, hraised⟩

end Exec

end Portugol
