import Portugol.Proofs.Supply

/-!
# Looser limits

Two things cut a run short: a loop that runs for too long, and calls that nest too deeply.
With looser limits the run does the same up to there, and goes on.

* `Setting.Within`: settings that differ in their limits alone, the second ones being no
  tighter.
* `Exec.limited_calls`: calls follow each other under both, although the second ones have
  more room. A call without room comes to a fault of the limit.
* `Program.run_loosen_cases`: with looser limits a run ends as without them, or it would
  have been cut short.
-/

namespace Portugol

/-- Whether a limit is to blame: a loop has run for too long, or calls nest too deeply. -/
def Fault.OfLimit (fault : Fault) : Prop :=
  fault.kind = .timeout ∨ ∃ limit, fault.cause = .callDepthExceeded limit

/-- The two settings differ in their limits alone, and those of the second one are no
    tighter. -/
structure Setting.Within (s s' : Setting) : Prop where
  registry : s.registry = s'.registry
  clock : s.watchdog.clock = s'.watchdog.clock
  cancelAt : s.watchdog.cancelAt = s'.watchdog.cancelAt
  rounds : s.rounds = s'.rounds
  ceiling : s.watchdog.ceiling ≤ s'.watchdog.ceiling
  maxDepth : s.maxDepth ≤ s'.maxDepth

/-- The clock is read in the same way, whatever the ceiling. -/
theorem Setting.Within.read_eq {s s' : Setting} (h : s.Within s') (timer : Timer) :
    s.watchdog.read timer = s'.watchdog.read timer := by
  rw [Watchdog.read, Watchdog.read, h.clock, h.cancelAt]

namespace Exec

/-- The second run has looser limits, and so it need not stop where the first one is cut
    short. -/
def limited : Simulation where
  env e e' := e' = e
  inputs i j := j = i
  excused := Fault.OfLimit
  orLine _ h := h
  next {_ i} target h := by
    subst h
    cases hnext : i.next target with
    | ok taken => exact .inl ⟨_, _, _, rfl, rfl, rfl⟩
    | error fault => exact .inr ⟨fault, rfl, .inr rfl⟩
  lookup name h := .inl (h ▸ rfl)
  written? name h := h ▸ rfl
  write name value h := h ▸ rfl
  define name value h := h ▸ rfl
  result h := h ▸ rfl
  enter frame h := h ▸ rfl
  leave _ h _ _ := h ▸ rfl

theorem limited_alike_iff {m n : Machine} : limited.Alike m n ↔ m = n := by
  constructor
  · intro h
    obtain ⟨env, depth, output, inputs, timer⟩ := m
    obtain ⟨henv, hdepth, houtput, hinputs, htimer⟩ := h
    cases henv
    cases hdepth
    cases houtput
    cases hinputs
    cases htimer
    rfl
  · rintro rfl
    exact ⟨rfl, rfl, rfl, rfl, rfl⟩

variable {α : Type} {s s' : Setting} {m : Machine}

/-- A step that a limit cuts short is followed by whatever only goes forward. -/
theorem limited_simulates_fail {y : Exec α} (hy : forward.Keeps y) {cause : Cause}
    (hcause : Fault.OfLimit { cause }) : limited.Simulates (fail cause) y :=
  ⟨forward.keeps_throw _, hy, fun h => .of_excused hy h rfl hcause⟩

/-! ## Where the limits are looked at -/

theorem limited_simulates_checkDepth (h : s.Within s') :
    limited.Simulates (checkDepth s.maxDepth) (checkDepth s'.maxDepth) := by
  have hkeeps := forward.localCongruence.checkDepth
  refine ⟨hkeeps s.maxDepth, hkeeps s'.maxDepth, fun {m n} halike => ?_⟩
  rcases Nat.lt_or_ge m.depth s.maxDepth with hdepth | hdepth
  · have hdepth' : n.depth < s'.maxDepth := halike.depth ▸ Nat.lt_of_lt_of_le hdepth h.maxDepth
    exact .ok (checkDepth_of_lt hdepth) (checkDepth_of_lt hdepth') halike
  · exact .of_excused (hkeeps s'.maxDepth) halike (checkDepth_of_le hdepth) (.inr ⟨_, rfl⟩)

theorem limited_simulates_startLoop (h : s.Within s') :
    limited.Simulates (startLoop s) (startLoop s') := by
  have heq : startLoop s = startLoop s' := by
    rw [startLoop, startLoop]
    simp only [h.read_eq]
  rw [← heq]
  exact .of_keeps (forward.keeps_startLoop s) fun halike => Simulation.follows_startLoop halike s

/-- A round for which there is time has it also with a higher ceiling. If there is no time
    for it, the clock has been read all the same. -/
theorem limited_simulates_checkLoop (h : s.Within s') (started : Nat) :
    limited.Simulates (checkLoop s started) (checkLoop s' started) := by
  refine ⟨forward.keeps_checkLoop s started, forward.keeps_checkLoop s' started, ?_⟩
  intro m n halike
  obtain rfl := limited_alike_iff.1 halike
  have happ : ∀ s : Setting, checkLoop s started m = ofExcept (s.watchdog.check started m.timer).1
      { m with timer := (s.watchdog.check started m.timer).2 } := fun _ => rfl
  have hm := happ s
  have hn := happ s'
  rw [Watchdog.check] at hm hn
  by_cases hcancelled : m.timer.cancelled = true
  · rw [if_pos hcancelled] at hm hn
    exact .error hm hn halike
  · rw [if_neg hcancelled] at hm hn
    rw [← h.read_eq] at hn
    dsimp only [Watchdog.read] at hm hn
    by_cases hlate : s.watchdog.ceiling < s.watchdog.clock m.timer.reads - started
    · rw [if_pos hlate] at hm
      exact .excused hm (.inl rfl) ((forward.keeps_checkLoop s' started m).2.output)
    · have hlate' : ¬s'.watchdog.ceiling < s.watchdog.clock m.timer.reads - started :=
        fun h' => hlate (Nat.lt_of_le_of_lt h.ceiling h')
      rw [if_neg hlate] at hm
      rw [if_neg hlate'] at hn
      exact .ok hm hn (limited_alike_iff.2 rfl)

/-! ## Runs -/

open LocalCongruence Congruence

theorem limited_loops (h : s.Within s') : limited.congruence.Loops s s' := by
  have hout : limited.Simulates (throw .outOfRounds : Exec Flow) (throw .outOfRounds) :=
    .of_keeps (forward.keeps_throw _) fun halike => .error rfl rfl halike
  exact loops_of_le (limited_simulates_startLoop h) (limited_simulates_checkLoop h)
    (Nat.le_of_eq h.rounds) hout fun hlt => absurd h.rounds (Nat.ne_of_lt hlt)

theorem forward_keeps_invoker (s : Setting) (room : Nat) (callable : Callable)
    (values : List Value) : forward.Keeps (invoker s room callable values) := by
  cases room with
  | zero => exact forward.keeps_throw _
  | succ room => exact forward.keeps_activation (forward.keeps_execBody s room _) _ values

/-- Calls follow each other, if the second ones have no less room. -/
theorem limited_calls (h : s.Within s') {room room' : Nat} (hroom : room ≤ room') :
    limited.congruence.Calls s s' (invoker s room) (invoker s' room') := by
  -- By induction on the room of the first ones: where it ends, a limit is to blame.
  induction room generalizing room' with
  | zero =>
    refine calls_of_checkDepth h.registry (limited_simulates_checkDepth h)
      fun _ callable values _ => ?_
    exact limited_simulates_fail (forward_keeps_invoker s' room' callable values) (.inr ⟨_, rfl⟩)
  | succ room ih =>
    obtain ⟨room', rfl⟩ : ∃ n, room' = n + 1 := ⟨room' - 1, by omega⟩
    refine calls_of_checkDepth h.registry (limited_simulates_checkDepth h)
      fun _ callable values _ => ?_
    exact limited.congruence.activation _ values
      (rel_execBody (ih (Nat.le_of_succ_le_succ hroom)) callable.body fun _ => limited_loops h)

/-- A run follows the run under tighter limits. -/
theorem limited_follows_run (h : s.Within s') (main : List Stmt) (m : Machine) :
    limited.Follows (run s main) m (run s' main) m := by
  have hbody : limited.Simulates (execBody s (invoker s (s.maxDepth - m.depth)) main)
      (execBody s' (invoker s' (s'.maxDepth - m.depth)) main) :=
    rel_execBody (limited_calls h (Nat.sub_le_sub_right h.maxDepth _)) main fun _ => limited_loops h
  have hrest := hbody.bind fun _ => limited.congruence.pure ()
  exact (hrest.follows (limited_alike_iff.2 rfl)).congr (run_apply s main m) (run_apply s' main m)

end Exec

/-- The same run under these limits. -/
def RunOptions.limit (options : RunOptions) (ceiling maxDepth : Nat) : RunOptions :=
  { options with watchdog := { options.watchdog with ceiling }, maxDepth }

namespace Program

open Exec

variable {program : Program} {options : RunOptions} {ceiling ceiling' maxDepth maxDepth' : Nat}
  {ending : Ending}

/-- Under looser limits a run ends as before, or it was cut short before. -/
theorem run_loosen_cases (options : RunOptions) (hceiling : ceiling ≤ ceiling')
    (hdepth : maxDepth ≤ maxDepth')
    (h : program.run (options.limit ceiling maxDepth) = some ending) :
    program.run (options.limit ceiling' maxDepth') = some ending ∨
    (∃ fault, ending.fault = some fault ∧ fault.OfLimit) ∧
      ending.output.toList <+:
        (program.final (options.limit ceiling' maxDepth')).output.toList := by
  have hwithin : ((options.limit ceiling maxDepth).setting program.registry).Within
      ((options.limit ceiling' maxDepth').setting program.registry) :=
    ⟨rfl, rfl, rfl, rfl, hceiling, hdepth⟩
  cases limited_follows_run hwithin program.main options.machine with
  | ok hm hn halike =>
    obtain rfl := limited_alike_iff.1 halike
    exact .inl ((run_congr (hm.trans hn.symm)).symm.trans h)
  | error hm hn halike =>
    obtain rfl := limited_alike_iff.1 halike
    exact .inl ((run_congr (hm.trans hn.symm)).symm.trans h)
  | excused hm hlimit houtput =>
    cases h.symm.trans (run_of_fault (options.limit ceiling maxDepth) hm)
    exact .inr ⟨⟨_, rfl, hlimit⟩, houtput⟩

/-- Limits only cut runs short. A run that ends in any other way than by a limit ends in
    the same way under looser limits: with the same output, fault and variables. If a limit
    cuts a run short, what it has printed is what every run under looser limits that ends
    prints first. -/
theorem run_loosen (hceiling : ceiling ≤ ceiling') (hdepth : maxDepth ≤ maxDepth')
    (h : program.run (options.limit ceiling maxDepth) = some ending) :
    ((∀ fault, ending.fault = some fault → ¬fault.OfLimit) →
      ∀ rounds, options.rounds ≤ rounds →
        program.run { options.limit ceiling' maxDepth' with rounds } = some ending) ∧
    ((∃ fault, ending.fault = some fault ∧ fault.OfLimit) →
      ∀ rounds ending',
        program.run { options.limit ceiling' maxDepth' with rounds } = some ending' →
        ending.output.toList <+: ending'.output.toList ∧
        ending.report.output.toList <+: ending'.report.output.toList) := by
  constructor
  · intro hfault rounds hr
    obtain ⟨hrun, _⟩ := run_rounds_of_le h hr
    rcases run_loosen_cases { options with rounds } hceiling hdepth hrun with
      hsame | ⟨⟨fault, hending, hlimit⟩, _⟩
    · exact hsame
    · exact absurd hlimit (hfault fault hending)
  · intro _ rounds ending' h'
    -- Neither run needs more rounds than the larger of both numbers.
    obtain ⟨hrun, _⟩ := run_rounds_of_le h (Nat.le_max_left options.rounds rounds)
    obtain ⟨hrun', _⟩ := run_rounds_of_le h' (Nat.le_max_right options.rounds rounds)
    have houtput : ending.output.toList <+: ending'.output.toList := by
      rcases run_loosen_cases { options with rounds := max options.rounds rounds } hceiling hdepth
        hrun with hsame | ⟨_, houtput⟩
      · cases hsame.symm.trans hrun'
        exact List.prefix_rfl
      · rw [output_of_run hrun']
        exact houtput
    rw [Ending.output_report, Ending.output_report]
    exact ⟨houtput, trimBreaks_prefix houtput⟩

/-- Calls a procedure that prints, again and again. -/
def chant : Program where
  main := [.whileDo 1 (.logical true) [.simple 2 (.call "p" [])]]
  registry := [("p", ⟨"p", [], [.simple 5 (.print [.text "a"])], .procedure, 4⟩)]

/-- The clock goes on by one at each look, and at the fifth one the run is cancelled. -/
def cancelledAtFive : RunOptions where
  watchdog := { clock := ({ step := 1 } : Clock), cancelAt := some 5 }
  rounds := 4

theorem run_loosen_chant :
    (chant.run (cancelledAtFive.limit 9 1) =
        some { output := "aaaa", fault := some { cause := .cancelled, line := some 1 } } ∧
      chant.run (cancelledAtFive.limit 10 3) =
        some { output := "aaaa", fault := some { cause := .cancelled, line := some 1 } }) ∧
    chant.run (cancelledAtFive.limit 2 1) =
        some { output := "aa", fault := some { cause := .loopTimeout 2, line := some 1 } } ∧
      ∀ rounds ending, chant.run { cancelledAtFive.limit 9 1 with rounds } = some ending →
        "aa".toList <+: ending.output.toList := by
  have hcancelled : chant.run (cancelledAtFive.limit 9 1) =
      some { output := "aaaa", fault := some { cause := .cancelled, line := some 1 } } := by
    decide +kernel
  have hcut : chant.run (cancelledAtFive.limit 2 1) =
      some { output := "aa", fault := some { cause := .loopTimeout 2, line := some 1 } } := by
    decide +kernel
  have hloosened := (run_loosen (show 9 ≤ 10 by decide) (show 1 ≤ 3 by decide) hcancelled).1
    (by rintro _ ⟨⟩ (h | ⟨_, h⟩) <;> cases h) 4 (Nat.le_refl _)
  refine ⟨⟨hcancelled, hloosened⟩, hcut, fun rounds ending hending => ?_⟩
  exact ((run_loosen (by decide) (Nat.le_refl _) hcut).2 ⟨_, rfl, .inl rfl⟩ rounds ending hending).1

end Program

end Portugol
