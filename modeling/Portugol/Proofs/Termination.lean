import Portugol.Proofs.Loop
import Portugol.Run

/-!
# Termination

A run may fail to end for three reasons: the program is a tree without end, its
calls nest without end, or some loop has no last round. The first is ruled out by
the data, the second by the limit on calls, and both are settled by the recursion
that runs a program. What is left is that no loop is out of rounds.

* `Setting.EnoughRounds`: the clock goes on by `step` at each look, and loops may
  start `ceiling / step` rounds.
* `Congruence.timely_finishing_loops`: then a loop ends before it is out of rounds,
  provided that what is in it ends.
* `Congruence.more`: with more rounds, what has ended ends in the same way; so a
  run that ends has one ending, whatever the number of rounds.
* `Program.run_terminates`: every run ends if the clock goes on at each look, and
  a run without loops ends whatever the clock shows.
-/

namespace Portugol

theorem Dict.exists_mem_of_get? {κ α : Type} [Ord κ] {d : Dict κ α} {key : κ} {value : α}
    (h : get? d key = some value) : ∃ k, (k, value) ∈ d := by
  induction d with
  | nil => cases h
  | cons entry rest ih =>
    rw [get?] at h
    cases hc : compare key entry.1 with
    | lt =>
      rw [hc] at h
      cases h
    | eq =>
      rw [hc] at h
      cases h
      exact ⟨entry.1, List.mem_cons_self⟩
    | gt =>
      rw [hc] at h
      obtain ⟨k, hk⟩ := ih h
      exact ⟨k, List.mem_cons_of_mem _ hk⟩

/-- Whether there is a loop in a program: in its statements or in a callable. -/
def Program.hasLoop (program : Program) : Bool :=
  bodyHasLoop program.main || program.registry.any fun entry => bodyHasLoop entry.2.body

theorem Program.callable_hasLoop {program : Program} (h : program.hasLoop = false) {name : String}
    {callable : Callable} (hc : Dict.get? program.registry name = some callable) :
    bodyHasLoop callable.body = false := by
  obtain ⟨k, hk⟩ := Dict.exists_mem_of_get? hc
  exact Bool.eq_false_iff.2 fun hb =>
    Bool.eq_false_iff.1 (Bool.or_eq_false_iff.1 h).2 (List.any_eq_true.2 ⟨_, hk, hb⟩)

/-- The clock goes on by some step at each look, and no loop has the time for more
    rounds than it may have. -/
def Setting.EnoughRounds (s : Setting) : Prop :=
  ∃ clock : Clock, s.watchdog.clock = clock.reading ∧ 1 ≤ clock.step ∧
    s.watchdog.ceiling / clock.step ≤ s.rounds

namespace Exec

variable {α : Type} {s s' : Setting}

theorem finishes_of_ok {x : Exec α} (h : ∀ m, ∃ a m', x m = .ok a m') : Finishes x := by
  intro m m' hm
  obtain ⟨a, m₁, ha⟩ := h m
  rw [ha] at hm
  cases hm

namespace Congruence

open LocalCongruence

/-! ## Every loop ends in time -/

/-- No step is out of rounds. -/
def finishing : Congruence where
  rel x _ := Finishes x
  pure _ _ _ h := by cases h
  bind {_ _ x _ f _} hx hf m m' h := by
    cases hm : x m with
    | ok a m₁ =>
      rw [bind_of_ok hm] at h
      exact hf a m₁ m' h
    | error stop m₁ =>
      rw [bind_of_error hm] at h
      cases h
      exact hx m m' hm
  fault _ _ _ h := by cases h
  located {_ x _} line hx m m' h := by
    rw [Exec.located] at h
    cases hm : x m with
    | ok a m₁ =>
      rw [hm] at h
      cases h
    | error stop m₁ =>
      rw [hm] at h
      cases stop with
      | fault => cases h
      | outOfRounds => exact hx m m₁ hm
  print _ _ _ h := by cases h
  nextInput target m m' h := by
    rcases nextInput_cases target m with ⟨_, _, _, hm⟩ | ⟨_, _, hm⟩ <;> rw [hm] at h <;> cases h
  lookup name m m' h := by
    rw [lookup_apply] at h
    cases hl : m.env.lookup name <;> rw [hl] at h <;> cases h
  assign name value _ := finishes_of_ok fun m =>
    (assign_cases name value m).elim (fun h => ⟨_, _, h⟩) fun h => ⟨_, _, h⟩
  assignElement name key value _ m m' h := by
    rcases assignElement_cases name key value m with ⟨array, hm⟩ | ⟨fault, hm⟩ <;> rw [hm] at h
    · rcases assign_cases name array m with ha | ha <;> rw [ha] at h <;> cases h
    · cases h
  leaveResult _ _ _ _ h := by cases h
  checkDepth maxDepth m m' h := by
    rcases checkDepth_cases maxDepth m with ⟨_, hm⟩ | ⟨_, hm⟩ <;> rw [hm] at h <;> cases h
  activation {x _} params values hx m m' h := by
    rw [activation_apply] at h
    cases hm : x (entering params values m) with
    | ok flow m₁ =>
      rw [hm] at h
      cases h
    | error stop m₁ =>
      rw [hm] at h
      cases h
      exact hx _ m₁ hm

/-- A loop with enough rounds ends in time, if what is in the loop ends. -/
theorem timely_finishing_loops (h : s.EnoughRounds) : (timely.inter finishing).Loops s s := by
  obtain ⟨clock, hclock, hstep, hr⟩ := h
  intro σ loop loop' body body' first hcomes hnext henter hbody
  refine ⟨timely_loops s first hcomes hnext (fun p => (henter p).1) hbody.1, fun m m' h => ?_⟩
  -- A loop that is out of rounds would start round number `s.rounds`, for which
  -- there is no time.
  have hs : startLoop s m = .ok (s.watchdog.clock m.timer.reads)
      { m with timer := (s.watchdog.read m.timer).2 } := rfl
  rw [Loop.run, bind_of_ok hs] at h
  obtain ⟨position, m₁, m₂, hturns, hstart⟩ :=
    (Loop.rounds_eq_outOfRounds_iff (fun p => (henter p).2) hbody.2).1 ⟨m', h⟩
  have hlt := Loop.StartsRound.lt_ceiling_div hclock hstep (fun p => (henter p).1) hbody.1
    ⟨_, _, position, m₁, hs, hturns, hstart⟩
  omega

theorem timely_finishing_calls (h : s.EnoughRounds) (room : Nat) :
    (timely.inter finishing).Calls s s (invoker s room) (invoker s room) :=
  calls_invoker rfl rfl (fun _ _ _ _ => timely_finishing_loops h) room

/-! ## More rounds -/

/-- The second step does what the first one does, unless that is out of rounds. -/
def more : Congruence where
  rel x y := ∀ m, x m = y m ∨ ∃ m', x m = .error .outOfRounds m'
  pure _ _ := .inl rfl
  bind {_ _ x y f g} hx hf m := by
    cases hm : x m with
    | ok a m₁ =>
      rcases hx m with hxy | ⟨m', hout⟩
      · rw [bind_of_ok hm, bind_of_ok (hxy ▸ hm)]
        exact hf a m₁
      · rw [hm] at hout
        cases hout
    | error stop m₁ =>
      rcases hx m with hxy | ⟨m', hout⟩
      · rw [bind_of_error hm, bind_of_error (hxy ▸ hm)]
        exact .inl rfl
      · exact .inr ⟨m', bind_of_error hout⟩
  fault _ _ := .inl rfl
  located {_ x y} line hx m := by
    rcases hx m with hxy | ⟨m', hout⟩
    · exact .inl (by rw [Exec.located, Exec.located, hxy])
    · exact .inr ⟨m', by rw [Exec.located, hout]⟩
  print _ _ := .inl rfl
  nextInput _ _ := .inl rfl
  lookup _ _ := .inl rfl
  assign _ _ _ _ := .inl rfl
  assignElement _ _ _ _ _ := .inl rfl
  leaveResult _ _ _ := .inl rfl
  checkDepth _ _ := .inl rfl
  activation {x y} params values hx m := by
    rw [activation_apply, activation_apply]
    rcases hx (entering params values m) with hxy | ⟨m', hout⟩
    · exact .inl (by rw [hxy])
    · exact .inr ⟨m'.leave, by rw [hout]⟩

theorem more_loops (hw : s.watchdog = s'.watchdog) (hn : s.rounds ≤ s'.rounds) :
    more.Loops s s' := by
  have hs : startLoop s = startLoop s' := by rw [startLoop, startLoop, hw]
  have hc : ∀ started, checkLoop s started = checkLoop s' started := fun started => by
    rw [checkLoop, checkLoop, hw]
  exact loops_of_le (fun m => .inl (by rw [hs])) (fun started m => .inl (by rw [hc])) hn
    (fun _ => .inl rfl) fun _ _ m => .inr ⟨m, rfl⟩

/-- Steps that are equal. -/
def equal : Congruence where
  rel x y := x = y
  pure _ := rfl
  bind hx hf := by rw [hx, funext hf]
  fault _ := rfl
  located _ hx := by rw [hx]
  print _ := rfl
  nextInput _ := rfl
  lookup _ := rfl
  assign _ _ _ := rfl
  assignElement _ _ _ _ := rfl
  leaveResult _ _ := rfl
  checkDepth _ := rfl
  activation _ _ hx := by rw [hx]

end Congruence

/-! ## The rounds of a statement -/

/-- The loop statement that is run in the machine `m` starts its body for the
    `k`-th time, counted from zero, in the machine `m'`. -/
inductive StartsRound (s : Setting) (invoke : Invoker) :
    Stmt → Machine → Nat → Machine → Prop
  | count {line : Nat} {var : String} {first last : Expr} {body : List Stmt} {a b : Number}
    {m m₁ m₂ m' : Machine} {k : Nat} :
    evalNumber s invoke "o início do PARA" first m = .ok a m₁ →
    evalNumber s invoke "o fim do PARA" last m₁ = .ok b m₂ →
    (countLoop var (.between a b) b).StartsRound s (execBody s invoke body) a m₂ k m' →
    StartsRound s invoke (.count line var first last body) m k m'
  | whileDo {line : Nat} {cond : Expr} {body : List Stmt} {m m' : Machine} {k : Nat} :
    (whileLoop (evalCondition s invoke "a condição do ENQUANTO" cond)).StartsRound s
      (execBody s invoke body) () m k m' →
    StartsRound s invoke (.whileDo line cond body) m k m'
  | times {line : Nat} {number : Expr} {body : List Stmt} {n : Number} {m m₁ m' : Machine}
    {k : Nat} :
    evalNumber s invoke "a quantidade do REPITA" number m = .ok n m₁ →
    timesLoop.StartsRound s (execBody s invoke body) n.trunc m₁ k m' →
    StartsRound s invoke (.times line number body) m k m'

open LocalCongruence Congruence in
/-- A loop statement starts its body at most `ceiling / step` times. -/
theorem StartsRound.lt_ceiling_div {clock : Clock} (hclock : s.watchdog.clock = clock.reading)
    (hstep : 1 ≤ clock.step) {room : Nat} {stmt : Stmt} {m m' : Machine} {k : Nat}
    (h : StartsRound s (invoker s room) stmt m k m') : k < s.watchdog.ceiling / clock.step := by
  have hcalls := timely_calls s room
  have hbody : ∀ body, KeepsTime (execBody s (invoker s room) body) := fun body =>
    rel_execBody hcalls body fun _ => timely_loops s
  cases h with
  | @count _ var _ _ body _ _ _ _ _ _ _ _ _ h =>
    refine Loop.StartsRound.lt_ceiling_div hclock hstep (fun counter => ?_) (hbody body) h
    exact timely.bind (timely.assign var (.number counter) trivial) fun _ => timely.pure true
  | @whileDo _ cond body _ _ _ h =>
    refine Loop.StartsRound.lt_ceiling_div hclock hstep (fun _ => ?_) (hbody body) h
    exact rel_evalCondition hcalls _ cond
  | @times _ _ body _ _ _ _ _ _ h =>
    refine Loop.StartsRound.lt_ceiling_div hclock hstep (fun _ => ?_) (hbody body) h
    exact timely.pure true

/-! ## Runs -/

/-- Running statements from here is running them with the calls that may still
    nest. -/
theorem run_apply (s : Setting) (main : List Stmt) (m : Machine) :
    run s main m =
      (execBody s (invoker s (s.maxDepth - m.depth)) main >>= fun _ => pure ()) m := rfl

open Congruence in
/-- Every run ends in time, if there are enough rounds. -/
theorem finishes_run (h : s.EnoughRounds) (main : List Stmt) : Finishes (run s main) := by
  intro m m'
  have hbody := rel_execBody (timely_finishing_calls h (s.maxDepth - m.depth))
    main fun _ => timely_finishing_loops h
  exact finishing.bind hbody.2 (fun _ => finishing.pure ()) m m'

open Congruence in
/-- A run that has ended ends in the same way with more rounds. -/
theorem run_of_le (s s' : Setting) (hr : s.registry = s'.registry)
    (hw : s.watchdog = s'.watchdog) (hd : s.maxDepth = s'.maxDepth) (hn : s.rounds ≤ s'.rounds)
    (main : List Stmt) (m : Machine) :
    run s main m = run s' main m ∨ ∃ m', run s main m = .error .outOfRounds m' := by
  rw [run_apply, run_apply, hd]
  have hloops := more_loops hw hn
  have hcalls := calls_invoker hr hd (fun _ _ _ _ => hloops) (s'.maxDepth - m.depth)
  exact more.bind (rel_execBody hcalls main fun _ => hloops) (fun _ => more.pure ()) m

open Congruence in
/-- A run without loops ends, in a way that has nothing to do with rounds. -/
theorem run_of_loopFree (s s' : Setting) (hr : s.registry = s'.registry)
    (hd : s.maxDepth = s'.maxDepth) {main : List Stmt} (hmain : bodyHasLoop main = false)
    (hcallables : ∀ name callable, Dict.get? s.registry name = some callable →
      bodyHasLoop callable.body = false) (m : Machine) :
    run s main m = run s' main m ∧ ∀ m', run s main m ≠ .error .outOfRounds m' := by
  rw [run_apply, run_apply, hd]
  have hcalls := fun (R : Congruence) => calls_invoker (R := R) hr hd
    (fun name callable hc hl => absurd hl (Bool.eq_false_iff.1 (hcallables name callable hc)))
    (s'.maxDepth - m.depth)
  have hbody := fun (R : Congruence) =>
    rel_execBody (hcalls R) main fun hl => absurd hl (Bool.eq_false_iff.1 hmain)
  exact ⟨congrFun (equal.bind (hbody equal) fun _ => rfl) m,
    finishing.bind (hbody finishing) (fun _ => finishing.pure ()) m⟩

end Exec

namespace Program

open Exec

/-- A run that is not out of rounds has an ending. -/
theorem exists_ending {program : Program} {options : RunOptions}
    (h : ∀ m', Exec.run (options.setting program.registry) program.main options.machine ≠
      .error .outOfRounds m') : ∃ ending, program.run options = some ending := by
  rw [run]
  cases hm : Exec.run (options.setting program.registry) program.main options.machine with
  | ok _ m' => exact ⟨_, rfl⟩
  | error stop m' =>
    cases stop with
    | fault fault => exact ⟨_, rfl⟩
    | outOfRounds => exact absurd hm (h m')

/-- The ending of a run shows the machine that it leaves behind. -/
theorem exists_fault_of_run {program : Program} {options : RunOptions} {ending : Ending}
    (h : program.run options = some ending) :
    ∃ fault, ending = .ofMachine
      ((Exec.run (options.setting program.registry) program.main).after options.machine) fault := by
  rw [run] at h
  split at h
  · rename_i m hm
    rw [after_of_ok hm]
    exact ⟨none, (Option.some.inj h).symm⟩
  · rename_i fault m hm
    rw [after_of_error hm]
    exact ⟨some fault, (Option.some.inj h).symm⟩
  · cases h

/-- Runs that leave the same behind have the same ending. -/
theorem run_congr {program : Program} {options options' : RunOptions}
    (h : Exec.run (options.setting program.registry) program.main options.machine =
      Exec.run (options'.setting program.registry) program.main options'.machine) :
    program.run options = program.run options' := by
  rw [run, run, h]

/-- Every run of a program ends, with one and the same ending from `ceiling / step`
    rounds on, if the clock goes on by `step` at each look; and each loop of it
    starts its body at most `ceiling / step` times. A run without loops ends,
    whatever function the clock is. -/
theorem run_terminates (program : Program) (options : RunOptions) :
    (∀ clock : Clock, options.watchdog.clock = clock.reading → 1 ≤ clock.step →
      (∃ ending, ∀ rounds, options.watchdog.ceiling / clock.step ≤ rounds →
        program.run { options with rounds } = some ending) ∧
      ∀ (rounds room : Nat) (stmt : Stmt) (m m' : Machine) (k : Nat),
        StartsRound ({ options with rounds }.setting program.registry)
          (invoker ({ options with rounds }.setting program.registry) room) stmt m k m' →
        k < options.watchdog.ceiling / clock.step) ∧
    (program.hasLoop = false →
      ∃ ending, ∀ rounds, program.run { options with rounds } = some ending) := by
  refine ⟨fun clock hclock hstep =>
    ⟨?_, fun rounds room stmt m m' k h => h.lt_ceiling_div hclock hstep⟩, fun hfree => ?_⟩
  · let least : RunOptions :=
      { options with rounds := options.watchdog.ceiling / clock.step }
    have hends : Finishes (Exec.run (least.setting program.registry) program.main) :=
      finishes_run ⟨clock, hclock, hstep, Nat.le_refl _⟩ program.main
    obtain ⟨ending, hending⟩ := exists_ending fun m' => hends least.machine m'
    refine ⟨ending, fun rounds hr => ?_⟩
    rw [← hending]
    let other : RunOptions := { options with rounds }
    rcases run_of_le (least.setting program.registry) (other.setting program.registry) rfl rfl rfl
      hr program.main options.machine with h | ⟨m', h⟩
    · exact (run_congr h).symm
    · exact absurd h (hends _ m')
  · have hmain := (Bool.or_eq_false_iff.1 hfree).1
    let given (rounds : Nat) : RunOptions := { options with rounds }
    have hruns := fun rounds => run_of_loopFree ((given 0).setting program.registry)
      ((given rounds).setting program.registry) rfl rfl hmain
      (fun _ _ hc => callable_hasLoop hfree hc) options.machine
    obtain ⟨ending, hending⟩ := exists_ending (hruns 0).2
    exact ⟨ending, fun rounds => (run_congr (hruns rounds).1).symm.trans hending⟩

/-- `ENQUANTO VERDADEIRO FAÇA`, with nothing to do in it. -/
def endlessLoop : Program where
  main := [.whileDo 1 (.logical true) []]
  registry := []

/-- A procedure that calls itself. -/
def endlessCall : Program where
  main := [.simple 4 (.call "p" [])]
  registry := [("p", ⟨"p", [], [.simple 2 (.call "p" [])], .procedure, 1⟩)]

/-- A clock that goes on by two at each look. -/
def byTwos : Clock where
  start := 5
  step := 2

/-- There are seven to pass by twos: three rounds. -/
def sevenByTwos : RunOptions where
  watchdog := { ceiling := 7, clock := byTwos }
  rounds := 0

/-- There is no time to pass, and the clock goes to and fro. -/
def toAndFro : RunOptions where
  watchdog := { ceiling := 0, clock := fun reads => reads % 2 }
  rounds := 0

theorem run_terminates_endless :
    ((sevenByTwos.watchdog.clock = byTwos.reading ∧ 1 ≤ byTwos.step) ∧
      ∃ ending, ∀ rounds, 3 ≤ rounds →
        endlessLoop.run { sevenByTwos with rounds } = some ending) ∧
    (∃ m', StartsRound (sevenByTwos.setting []) (invoker (sevenByTwos.setting []) 0)
      (.whileDo 1 (.logical true) []) {} 2 m') ∧
    2 < 7 / 2 ∧
    endlessCall.hasLoop = false ∧
    ∃ ending, ∀ rounds, endlessCall.run { toAndFro with rounds } = some ending := by
  have hstart : StartsRound (sevenByTwos.setting []) (invoker (sevenByTwos.setting []) 0)
      (.whileDo 1 (.logical true) []) {} 2 { timer := { reads := 4 } } :=
    .whileDo ⟨5, _, (), _, rfl, .round ⟨rfl, _, rfl, rfl⟩ rfl
      (.round ⟨rfl, _, rfl, rfl⟩ rfl (.refl _ _)), rfl, _, rfl, rfl⟩
  have hstep : 1 ≤ byTwos.step := by decide
  have hloop := (run_terminates endlessLoop sevenByTwos).1 byTwos rfl hstep
  exact ⟨⟨⟨rfl, hstep⟩, hloop.1⟩, ⟨_, hstart⟩, hloop.2 0 0 _ _ _ 2 hstart, rfl,
    (run_terminates endlessCall toAndFro).2 rfl⟩

end Program

end Portugol
