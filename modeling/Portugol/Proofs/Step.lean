import Portugol.Proofs.Translation

/-!
# Congruences of steps

A relation between steps which the simple steps respect, and which the ways of putting
steps together preserve, is a *congruence*. It is a translation (`Exec.LocalTranslation`)
in which the names of variables stay: the steps of one program under two settings are
related by every congruence.

A `LocalCongruence` says nothing of calls, and only some of the steps that write
have to respect it. So it is good for statements that write nothing else.

* `LocalCongruence.rel_eval` and `LocalCongruence.rel_execBody_of_writes`: expressions
  and statements respect a congruence, provided that calls do, that loops do if there
  are any, and that what the statements write does.
* `Congruence.calls_invoker`: calls respect a congruence, however deeply they may
  still nest.

A property of single steps is a congruence that does not look at the second one.
-/

namespace Portugol

namespace Exec

/-! ## What a step leaves behind -/

variable {α β : Type}

/-- The machine that a step leaves behind, however it ends. -/
def after (x : Exec α) (m : Machine) : Machine :=
  match x m with
  | .ok _ m' | .error _ m' => m'

theorem after_of_ok {x : Exec α} {m m' : Machine} {a : α} (h : x m = .ok a m') :
    x.after m = m' := by
  rw [after, h]

theorem after_of_error {x : Exec α} {m m' : Machine} {stop : Stop} (h : x m = .error stop m') :
    x.after m = m' := by
  rw [after, h]

theorem bind_of_ok {x : Exec α} {f : α → Exec β} {m m' : Machine} {a : α} (h : x m = .ok a m') :
    (x >>= f) m = f a m' := by
  simp only [bind, EStateM.bind, h]

theorem bind_of_error {x : Exec α} {f : α → Exec β} {m m' : Machine} {stop : Stop}
    (h : x m = .error stop m') : (x >>= f) m = .error stop m' := by
  simp only [bind, EStateM.bind, h]

/-- A step that is followed by another one leaves what the other one leaves, if
    it comes to that. -/
theorem after_bind (x : Exec α) (f : α → Exec β) (m : Machine) :
    (∃ a, x m = .ok a (x.after m) ∧ (x >>= f).after m = (f a).after (x.after m)) ∨
      (x >>= f).after m = x.after m := by
  cases h : x m with
  | ok a m' =>
    rw [after_of_ok h]
    exact .inl ⟨a, rfl, by rw [after, bind_of_ok h, after]⟩
  | error stop m' =>
    rw [after_of_error h]
    exact .inr (after_of_error (bind_of_error h))

@[simp] theorem after_located (line : Nat) (x : Exec α) (m : Machine) :
    (located line x).after m = x.after m := by
  rw [after, located, after]
  cases x m with
  | ok => rfl
  | error stop => cases stop <;> rfl

/-! ## Simple steps

What each of them does to a machine. -/

theorem nextInput_cases (target : String) (m : Machine) :
    (∃ text inputs, m.inputs.next target = .ok (text, inputs) ∧
      nextInput target m = .ok text { m with inputs }) ∨
    ∃ fault, m.inputs.next target = .error fault ∧
      nextInput target m = .error (.fault fault) m := by
  have happ : nextInput target m = (ofExcept (m.inputs.next target) >>= fun taken => do
      set { m with inputs := taken.2 }
      return taken.1) m := rfl
  rw [happ]
  cases m.inputs.next target with
  | ok pair => exact .inl ⟨pair.1, pair.2, rfl, rfl⟩
  | error fault => exact .inr ⟨fault, rfl, rfl⟩

theorem lookup_apply (name : String) (m : Machine) :
    lookup name m = ofExcept (m.env.lookup name) m := rfl

@[simp] theorem after_ofExcept (result : Except Fault α) (m : Machine) :
    (ofExcept result).after m = m := by
  cases result <;> rfl

@[simp] theorem after_lookup (name : String) (m : Machine) : (lookup name).after m = m := by
  rw [after, lookup_apply]
  exact after_ofExcept _ m

/-- An assignment gives the variable its value in the innermost scope or where it
    is visible. -/
theorem assign_cases (name : String) (value : Value) (m : Machine) :
    assign name value m = .ok () { m with env := m.env.define name value } ∨
      assign name value m = .ok () { m with env := m.env.assign name value } := by
  have happ : assign name value m =
      (if name == resultName && m.env.inCall then
        (modify fun m => { m with env := m.env.define name value } : Exec Unit)
      else modify fun m => { m with env := m.env.assign name value }) m := rfl
  rw [happ]
  split
  · exact .inl rfl
  · exact .inr rfl

/-- The assignment of an element is an assignment of the whole array, unless it
    fails. -/
theorem assignElement_cases (name : String) (key : ArrayKey) (value : Value) (m : Machine) :
    (∃ array, assignElement name key value m = assign name array m) ∨
      ∃ fault, assignElement name key value m = .error (.fault fault) m := by
  have hcurrent : assigned? name m = .ok (if name == resultName && m.env.inCall then
      m.env.getLocal? name else m.env.get? name) m := rfl
  rw [assignElement, bind_of_ok hcurrent]
  cases (if name == resultName && m.env.inCall then m.env.getLocal? name else m.env.get? name) with
  | none => exact .inl ⟨_, rfl⟩
  | some value =>
    cases value with
    | array elements => exact .inl ⟨_, rfl⟩
    | number _ | text _ | logical _ => exact .inr ⟨_, rfl⟩

/-- The machine in which the body of a callable starts: with a new frame, in which
    the parameters have their values. -/
def entering (params : List String) (values : List Value) (m : Machine) : Machine :=
  { m.enter with
    env := (params.zip values).foldl (fun env (name, value) => env.define name value) m.env.push }

/-- A call does the body, and then takes its result and leaves the frame. -/
theorem activation_apply (params : List String) (values : List Value) (x : Exec Flow)
    (m : Machine) :
    activation params values x m =
      match x (entering params values m) with
      | .ok _ m' =>
        .ok (m'.env.take resultName).1 { m'.leave with env := (m'.env.take resultName).2.pop }
      | .error stop m' => .error stop m'.leave := by
  have hb : bindParams params values m.enter =
      .ok () (entering params values m) := rfl
  rw [activation, inFrame, bind_of_ok hb]
  cases h : x (entering params values m) with
  | ok flow m' => rw [bind_of_ok h]; rfl
  | error stop m' => rw [bind_of_error h]

theorem checkDepth_of_lt {maxDepth : Nat} {m : Machine} (h : m.depth < maxDepth) :
    checkDepth maxDepth m = .ok () m := by
  have happ : checkDepth maxDepth m = (if maxDepth ≤ m.depth then
      (fail (.callDepthExceeded maxDepth) : Exec Unit) else pure ()) m := rfl
  rw [happ, if_neg (Nat.not_le_of_lt h)]
  rfl

theorem checkDepth_of_le {maxDepth : Nat} {m : Machine} (h : maxDepth ≤ m.depth) :
    checkDepth maxDepth m = .error (.fault { cause := .callDepthExceeded maxDepth }) m := by
  have happ : checkDepth maxDepth m = (if maxDepth ≤ m.depth then
      (fail (.callDepthExceeded maxDepth) : Exec Unit) else pure ()) m := rfl
  rw [happ, if_pos h]
  rfl

/-- Whether another call may start is seen from the machine, which stays as it is. -/
theorem checkDepth_cases (maxDepth : Nat) (m : Machine) :
    (m.depth < maxDepth ∧ checkDepth maxDepth m = .ok () m) ∨
      ∃ fault, checkDepth maxDepth m = .error (.fault fault) m := by
  rcases Nat.lt_or_ge m.depth maxDepth with h | h
  · exact .inl ⟨h, checkDepth_of_lt h⟩
  · exact .inr ⟨_, checkDepth_of_le h⟩

/-- A look at the clock gives a fault, or the time that has passed is no more than
    the ceiling. Nothing but the timer changes. -/
theorem checkLoop_cases (s : Setting) (started : Nat) (m : Machine) :
    (s.watchdog.clock m.timer.reads - started ≤ s.watchdog.ceiling ∧
      ∃ timer, timer.reads = m.timer.reads + 1 ∧
        checkLoop s started m = .ok () { m with timer }) ∨
    ∃ fault timer, m.timer.reads ≤ timer.reads ∧
      checkLoop s started m = .error (.fault fault) { m with timer } := by
  have happ : checkLoop s started m = ofExcept (s.watchdog.check started m.timer).1
      { m with timer := (s.watchdog.check started m.timer).2 } := rfl
  rw [happ, Watchdog.check]
  by_cases hcancelled : m.timer.cancelled = true
  · rw [if_pos hcancelled]
    exact .inr ⟨_, m.timer, Nat.le_refl _, rfl⟩
  · rw [if_neg hcancelled]
    dsimp only [Watchdog.read]
    by_cases hlate : s.watchdog.ceiling < s.watchdog.clock m.timer.reads - started
    · rw [if_pos hlate]
      exact .inr ⟨_, _, Nat.le_succ _, rfl⟩
    · rw [if_neg hlate]
      exact .inl ⟨Nat.not_lt.1 hlate, _, rfl, rfl⟩

/-! ## Congruences -/

/-- A relation between steps that holds between each simple step and itself, and
    that is preserved when steps are put in order. Of the steps that write, only
    those are asked for that write something in `W`. -/
structure LocalCongruence (W : Write → Prop) where
  rel : {α : Type} → Exec α → Exec α → Prop
  pure {α : Type} (a : α) : rel (pure a) (pure a)
  bind {α β : Type} {x y : Exec α} {f g : α → Exec β} :
    rel x y → (∀ a, rel (f a) (g a)) → rel (x >>= f) (y >>= g)
  fault {α : Type} (fault : Fault) : rel (throw (.fault fault) : Exec α) (throw (.fault fault))
  located {α : Type} {x y : Exec α} (line : Nat) : rel x y → rel (located line x) (located line y)
  print (text : String) : rel (print text) (print text)
  nextInput (target : String) : rel (nextInput target) (nextInput target)
  lookup (name : String) : rel (lookup name) (lookup name)
  assign (name : String) (value : Value) : W (.var name) → rel (assign name value) (assign name value)
  assignElement (name : String) (key : ArrayKey) (value : Value) : W (.var name) →
    rel (assignElement name key value) (assignElement name key value)
  leaveResult (value : Value) : W .result → rel (leaveResult value) (leaveResult value)
  checkDepth (maxDepth : Nat) : rel (checkDepth maxDepth) (checkDepth maxDepth)

/-- A relation between steps that holds between each simple step and itself, and
    that is preserved when steps are put together. -/
structure Congruence extends LocalCongruence fun _ => True where
  activation {x y : Exec Flow} (params : List String) (values : List Value) :
    rel x y → rel (activation params values x) (activation params values y)

namespace Congruence

/-- Two congruences at once. -/
def inter (R Q : Congruence) : Congruence where
  rel x y := R.rel x y ∧ Q.rel x y
  pure a := ⟨R.pure a, Q.pure a⟩
  bind h hf := ⟨R.bind h.1 fun a => (hf a).1, Q.bind h.2 fun a => (hf a).2⟩
  fault fault := ⟨R.fault fault, Q.fault fault⟩
  located line h := ⟨R.located line h.1, Q.located line h.2⟩
  print text := ⟨R.print text, Q.print text⟩
  nextInput target := ⟨R.nextInput target, Q.nextInput target⟩
  lookup name := ⟨R.lookup name, Q.lookup name⟩
  assign name value h := ⟨R.assign name value h, Q.assign name value h⟩
  assignElement name key value h :=
    ⟨R.assignElement name key value h, Q.assignElement name key value h⟩
  leaveResult value h := ⟨R.leaveResult value h, Q.leaveResult value h⟩
  checkDepth maxDepth := ⟨R.checkDepth maxDepth, Q.checkDepth maxDepth⟩
  activation params values h := ⟨R.activation params values h.1, Q.activation params values h.2⟩

end Congruence

namespace LocalCongruence

variable {W : Write → Prop} (R : LocalCongruence W) {s s' : Setting} {invoke invoke' : Invoker}

theorem rel_fail {α : Type} (cause : Cause) : R.rel (fail cause : Exec α) (fail cause) :=
  R.fault _

theorem rel_lookupElement (name : String) (key : ArrayKey) :
    R.rel (lookupElement name key) (lookupElement name key) := by
  refine R.bind (R.lookup name) fun value => ?_
  cases value with
  | array elements =>
    dsimp only
    cases Dict.get? elements key with
    | some value => exact R.pure value
    | none => exact R.rel_fail _
  | number _ | text _ | logical _ => exact R.rel_fail _

/-- A congruence is a translation in which the names stay. -/
def translation : LocalTranslation id W where
  rel := R.rel
  pure := R.pure
  bind := R.bind
  fault := R.fault
  located := R.located
  print := R.print
  nextInput target := by
    rw [target.rename_id]
    exact R.nextInput _
  lookup := R.lookup
  lookupElement := R.rel_lookupElement
  assign := R.assign
  assignElement := R.assignElement
  leaveResult := R.leaveResult

variable {R}

/-! ## Expressions -/

variable (R s s' invoke invoke') in
/-- Calls respect the congruence: a call is related to itself if the evaluation of
    its arguments is. -/
def Calls : Prop :=
  ∀ (name : String) (given : Nat) ⦃x y : Exec (List Value)⦄, R.rel x y →
    R.rel (call s invoke name given x) (call s' invoke' name given y)

/-- The evaluation of an expression respects a congruence. -/
theorem rel_eval (h : R.Calls s s' invoke invoke') (e : Expr) :
    R.rel (eval s invoke e) (eval s' invoke' e) := by
  have hrel : R.rel (eval s invoke e) (eval s' invoke' (e.rename id)) :=
    R.translation.rel_eval h e
  rwa [e.rename_id] at hrel

theorem rel_evalAll (h : R.Calls s s' invoke invoke') (es : List Expr) :
    R.rel (evalAll s invoke es) (evalAll s' invoke' es) := by
  have hrel : R.rel (evalAll s invoke es) (evalAll s' invoke' (renameAll id es)) :=
    R.translation.rel_evalAll h es
  rwa [renameAll_id] at hrel

theorem rel_evalCondition (h : R.Calls s s' invoke invoke') (context : String) (cond : Expr) :
    R.rel (evalCondition s invoke context cond) (evalCondition s' invoke' context cond) := by
  have hrel : R.rel (evalCondition s invoke context cond)
      (evalCondition s' invoke' context (cond.rename id)) :=
    R.translation.rel_evalCondition h context cond
  rwa [cond.rename_id] at hrel

theorem rel_evalNumber (h : R.Calls s s' invoke invoke') (context : String) (number : Expr) :
    R.rel (evalNumber s invoke context number) (evalNumber s' invoke' context number) := by
  have hrel : R.rel (evalNumber s invoke context number)
      (evalNumber s' invoke' context (number.rename id)) :=
    R.translation.rel_evalNumber h context number
  rwa [number.rename_id] at hrel

/-! ## Statements -/

theorem rel_andThen {x y more more' : Exec Flow} (h : R.rel x y) (hm : R.rel more more') :
    R.rel (andThen x more) (andThen y more') :=
  R.translation.rel_andThen h hm

theorem rel_readTargets (h : R.Calls s s' invoke invoke') (targets : List Target)
    (hw : ∀ target ∈ targets, W (.var target.name)) :
    R.rel (readTargets s invoke targets) (readTargets s' invoke' targets) := by
  have hrel : R.rel (readTargets s invoke targets)
      (readTargets s' invoke' (targets.map (Target.rename id))) :=
    R.translation.rel_readTargets h targets hw
  rwa [targets_rename_id] at hrel

theorem rel_execSimple (h : R.Calls s s' invoke invoke') (action : Simple)
    (hw : ∀ w ∈ action.writes, W w) :
    R.rel (execSimple s invoke action) (execSimple s' invoke' action) := by
  have hrel : R.rel (execSimple s invoke action) (execSimple s' invoke' (action.rename id)) :=
    R.translation.rel_execSimple h action hw
  rwa [action.rename_id] at hrel

variable (R s s') in
/-- Loops respect the congruence: two loops with the same positions are related if
    their rounds are. -/
def Loops : Prop :=
  ∀ ⦃σ : Type⦄ ⦃loop loop' : Loop σ⦄ ⦃body body' : Exec Flow⦄ (first : σ),
    loop.comes = loop'.comes → loop.next = loop'.next →
    (∀ position, R.rel (loop.enter position) (loop'.enter position)) → R.rel body body' →
    R.rel (loop.run s body first) (loop'.run s' body' first)

/-- Running statements respects a congruence, if what they write does. -/
theorem rel_execBody_of_writes (h : R.Calls s s' invoke invoke') (body : List Stmt)
    (hl : bodyHasLoop body = true → R.Loops s s') (hw : ∀ w ∈ bodyWrites body, W w) :
    R.rel (execBody s invoke body) (execBody s' invoke' body) := by
  have hrel : R.rel (execBody s invoke body) (execBody s' invoke' (bodyRename id body)) :=
    R.translation.rel_execBody h body hl hw
  rwa [bodyRename_id] at hrel

/-- Loops respect a congruence if looking at the clock does. The second ones may
    have more rounds, if the end of the rounds is related to anything. -/
theorem loops_of_le (hs : R.rel (startLoop s) (startLoop s'))
    (hc : ∀ started, R.rel (checkLoop s started) (checkLoop s' started))
    (hn : s.rounds ≤ s'.rounds)
    (ho : R.rel (throw .outOfRounds : Exec Flow) (throw .outOfRounds))
    (hlt : s.rounds < s'.rounds → ∀ y : Exec Flow, R.rel (throw .outOfRounds) y) :
    R.Loops s s' :=
  R.translation.loops_of_le hs hc hn ho hlt

/-! ## Calls -/

theorem registered_of_eq (hr : s.registry = s'.registry) : LocalTranslation.Registered id s s' := by
  intro name
  have hid : Callable.rename id = id := funext Callable.rename_id
  rw [hid, Option.map_id_fun, id, hr]

/-- A call respects a congruence if looking at the depth of calls does, and running the
    callable. -/
theorem calls_of_checkDepth (hr : s.registry = s'.registry)
    (hd : R.rel (Exec.checkDepth s.maxDepth) (Exec.checkDepth s'.maxDepth))
    (hi : ∀ name callable values, Dict.get? s.registry name = some callable →
      R.rel (invoke callable values) (invoke' callable values)) :
    R.Calls s s' invoke invoke' :=
  R.translation.calls_of_checkDepth (registered_of_eq hr) hd fun name callable values hc => by
    rw [callable.rename_id]
    exact hi name callable values hc

/-- A call respects a congruence if running the callable does. -/
theorem calls_of_invoke (hr : s.registry = s'.registry) (hd : s.maxDepth = s'.maxDepth)
    (hi : ∀ name callable values, Dict.get? s.registry name = some callable →
      R.rel (invoke callable values) (invoke' callable values)) :
    R.Calls s s' invoke invoke' :=
  calls_of_checkDepth hr (hd ▸ R.checkDepth _) hi

end LocalCongruence

namespace Congruence

open LocalCongruence

variable {R : Congruence} {s s' : Setting} {invoke invoke' : Invoker}

variable (R) in
/-- A congruence is a translation in which the names stay. -/
def toTranslation : Translation id where
  toLocalTranslation := R.toLocalCongruence.translation
  checkDepth := R.checkDepth
  activation {x y} params values hxy := by
    rw [List.map_id]
    exact R.activation params values hxy

/-- Running statements respects a congruence. -/
theorem rel_execBody (h : R.Calls s s' invoke invoke') (body : List Stmt)
    (hl : bodyHasLoop body = true → R.Loops s s') :
    R.rel (execBody s invoke body) (execBody s' invoke' body) :=
  rel_execBody_of_writes h body hl fun _ _ => trivial

/-- Calls respect a congruence, however deeply they may nest. -/
theorem calls_invoker (hr : s.registry = s'.registry) (hd : s.maxDepth = s'.maxDepth)
    (hl : ∀ name callable, Dict.get? s.registry name = some callable →
      bodyHasLoop callable.body = true → R.Loops s s') (room : Nat) :
    R.Calls s s' (invoker s room) (invoker s' room) :=
  Translation.calls_invoker (T := R.toTranslation) (registered_of_eq hr) hd hl room

end Congruence

end Exec

end Portugol
