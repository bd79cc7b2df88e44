import Portugol.Proofs.Step

/-!
# The rounds of a loop

A loop goes from position to position, a round at each. This is followed here
without any bound on the rounds: `Loop.Turns` says where a loop is after so many
whole rounds, and `Loop.StartsRound` in which machine it starts its body for the
so-manieth time.

* `Loop.rounds_eq_outOfRounds_iff`: a loop runs out of rounds exactly if it would
  start its body once more than it may.
* `Loop.StartsRound.lt_ceiling_div`: as each round looks at the clock, no loop
  starts more than `ceiling / step` rounds if the clock goes on by `step` at each
  look.
-/

namespace Portugol.Exec

/-! ## Time -/

variable {α : Type}

/-- A step that leaves the timer alone. -/
def KeepsTimer (x : Exec α) : Prop := ∀ m, (x.after m).timer = m.timer

/-- A step that never takes back a look at the clock. -/
def KeepsTime (x : Exec α) : Prop := ∀ m, m.timer.reads ≤ (x.after m).timer.reads

/-- A step that is never out of rounds: it ends, with a value or with a fault. -/
def Finishes (x : Exec α) : Prop := ∀ m m', x m ≠ .error .outOfRounds m'

theorem KeepsTimer.keepsTime {x : Exec α} (h : KeepsTimer x) : KeepsTime x :=
  fun m => Nat.le_of_eq (by rw [h m])

/-- Only loops look at the clock. -/
def untimed : LocalCongruence fun _ => True where
  rel x _ := KeepsTimer x
  pure _ _ := rfl
  bind {_ _ x _ f _} hx hf m := by
    rcases after_bind x f m with ⟨a, _, hb⟩ | hb
    · rw [hb, hf a _, hx m]
    · rw [hb, hx m]
  fault _ _ := rfl
  located line hx m := by
    rw [after_located]
    exact hx m
  print _ _ := rfl
  nextInput target m := by
    rcases nextInput_cases target m with ⟨_, _, _, h⟩ | ⟨_, _, h⟩
    · rw [after_of_ok h]
    · rw [after_of_error h]
  lookup name m := by rw [after_lookup]
  assign name value _ m := by
    rcases assign_cases name value m with h | h <;> rw [after_of_ok h]
  assignElement name key value _ m := by
    rcases assignElement_cases name key value m with ⟨array, h⟩ | ⟨_, h⟩
    · rcases assign_cases name array m with ha | ha <;> rw [after_of_ok (h.trans ha)]
    · rw [after_of_error h]
  leaveResult _ _ _ := rfl
  checkDepth maxDepth m := by
    rcases checkDepth_cases maxDepth m with ⟨_, h⟩ | ⟨_, h⟩
    · rw [after_of_ok h]
    · rw [after_of_error h]

namespace Congruence

open LocalCongruence

/-- No step takes back a look at the clock. -/
def timely : Congruence where
  rel x _ := KeepsTime x
  pure a := (untimed.pure a).keepsTime
  bind {_ _ x _ f _} hx hf m := by
    rcases after_bind x f m with ⟨a, _, hb⟩ | hb
    · rw [hb]
      exact Nat.le_trans (hx m) (hf a _)
    · rw [hb]
      exact hx m
  fault fault := (untimed.fault fault).keepsTime
  located line hx m := by
    rw [after_located]
    exact hx m
  print text := (untimed.print text).keepsTime
  nextInput target := (untimed.nextInput target).keepsTime
  lookup name := (untimed.lookup name).keepsTime
  assign name value h := (untimed.assign name value h).keepsTime
  assignElement name key value h := (untimed.assignElement name key value h).keepsTime
  leaveResult value h := (untimed.leaveResult value h).keepsTime
  checkDepth maxDepth := (untimed.checkDepth maxDepth).keepsTime
  activation {x _} params values hx m := by
    have hbody := hx (entering params values m)
    have happ := activation_apply params values x m
    cases h : x (entering params values m) with
    | ok flow m' =>
      rw [after_of_ok h] at hbody
      rw [h] at happ
      rw [after_of_ok happ]
      exact hbody
    | error stop m' =>
      rw [after_of_error h] at hbody
      rw [h] at happ
      rw [after_of_error happ]
      exact hbody

theorem keepsTime_checkLoop (s : Setting) (started : Nat) : KeepsTime (checkLoop s started) := by
  intro m
  rcases checkLoop_cases s started m with ⟨_, timer, ht, h⟩ | ⟨_, timer, ht, h⟩
  · rw [after_of_ok h, ht]
    exact Nat.le_succ _
  · rw [after_of_error h]
    exact ht

theorem timely_loops (s : Setting) : timely.Loops s s :=
  loops_of_le (fun _ => Nat.le_succ _) (keepsTime_checkLoop s) (Nat.le_refl _)
    (fun _ => Nat.le_refl _) fun h => absurd h (Nat.lt_irrefl _)

theorem timely_calls (s : Setting) (room : Nat) :
    timely.Calls s s (invoker s room) (invoker s room) :=
  calls_invoker rfl rfl (fun _ _ _ _ => timely_loops s) room

end Congruence

/-! ## Rounds -/

namespace Loop

variable {σ : Type} {loop : Loop σ} {s : Setting} {started : Nat} {body : Exec Flow}
  {position position' : σ} {m m' : Machine}

variable (loop s started) in
/-- At a position in the machine `m`, the loop starts its body in the machine
    `m'`: a round comes, there is time for it, and it is entered. -/
structure StartsBody (position : σ) (m m' : Machine) : Prop where
  comes : loop.comes position = true
  entered : ∃ m₁, checkLoop s started m = .ok () m₁ ∧ loop.enter position m₁ = .ok true m'

variable (loop s started body) in
/-- From a position in a machine, the loop comes to another position in another
    machine by so many whole rounds. -/
inductive Turns : σ → Machine → Nat → σ → Machine → Prop
  | refl (position : σ) (m : Machine) : Turns position m 0 position m
  | round {position position' : σ} {m m₁ m₂ m' : Machine} {k : Nat} :
    loop.StartsBody s started position m m₁ → body m₁ = .ok .next m₂ →
    Turns (loop.next position) m₂ k position' m' → Turns position m (k + 1) position' m'

variable (loop s body) in
/-- The loop that is run in the machine `m` starts its body for the `k`-th time,
    counted from zero, in the machine `m'`. -/
def StartsRound (first : σ) (m : Machine) (k : Nat) (m' : Machine) : Prop :=
  ∃ started m₀ position m₁, startLoop s m = .ok started m₀ ∧
    loop.Turns s started body first m₀ k position m₁ ∧ loop.StartsBody s started position m₁ m'

/-- A round either starts its body, or ends the loop whatever would follow. -/
theorem round_cases (he : ∀ position, Finishes (loop.enter position)) (s : Setting)
    (started : Nat) (position : σ) (m : Machine) :
    (∃ m', loop.StartsBody s started position m m' ∧
      ∀ rest, loop.round s started position rest m = rest m') ∨
    ∃ result, (∀ rest, loop.round s started position rest m = result) ∧
      ∀ m', result ≠ .error .outOfRounds m' := by
  cases hcomes : loop.comes position with
  | false =>
    refine .inr ⟨.ok .next m, fun rest => ?_, fun _ h => by cases h⟩
    rw [round, hcomes]
    rfl
  | true =>
    have hround : ∀ rest, loop.round s started position rest m =
        (checkLoop s started >>= fun _ => loop.enter position >>= (whenever · rest)) m := by
      intro rest
      rw [round, hcomes]
      rfl
    rcases checkLoop_cases s started m with ⟨_, timer, _, hc⟩ | ⟨fault, timer, _, hc⟩
    · cases hent : loop.enter position { m with timer } with
      | ok b m' =>
        cases b with
        | true =>
          refine .inl ⟨m', ⟨hcomes, _, hc, hent⟩, fun rest => ?_⟩
          rw [hround, bind_of_ok hc, bind_of_ok hent]
          rfl
        | false =>
          refine .inr ⟨.ok .next m', fun rest => ?_, fun _ h => by cases h⟩
          rw [hround, bind_of_ok hc, bind_of_ok hent]
          rfl
      | error stop m' =>
        refine .inr ⟨.error stop m', fun rest => ?_, fun m₁ h => ?_⟩
        · rw [hround, bind_of_ok hc, bind_of_error hent]
        · cases h
          exact he position _ _ hent
    · refine .inr ⟨.error (.fault fault) { m with timer }, fun rest => ?_, fun m₁ h => ?_⟩
      · rw [hround, bind_of_error hc]
      · cases h

/-- A round that starts its body goes on with it. -/
theorem StartsBody.round_eq (h : loop.StartsBody s started position m m') (rest : Exec Flow) :
    loop.round s started position rest m = rest m' := by
  obtain ⟨m₁, hc, hent⟩ := h.entered
  rw [round, h.comes]
  have : (checkLoop s started >>= fun _ => loop.enter position >>= (whenever · rest)) m =
      rest m' := by
    rw [bind_of_ok hc, bind_of_ok hent]
    rfl
  exact this

/-- A loop is out of rounds exactly if it starts its body once more than it may:
    nothing else in it is ever out of rounds. -/
theorem rounds_eq_outOfRounds_iff (he : ∀ position, Finishes (loop.enter position))
    (hb : Finishes body) {left : Nat} :
    (∃ m', loop.rounds s started body left position m = .error .outOfRounds m') ↔
      ∃ position' m₁ m₂, loop.Turns s started body position m left position' m₁ ∧
        loop.StartsBody s started position' m₁ m₂ := by
  -- By induction on the rounds that are left: the first round starts its body, as
  -- one that does not is never out of rounds, and the rest of it goes on to the next.
  induction left generalizing position m with
  | zero =>
    constructor
    · rintro ⟨m', h⟩
      rw [rounds] at h
      rcases round_cases he s started position m with ⟨m₁, hstart, _⟩ | ⟨result, hresult, hne⟩
      · exact ⟨position, m, m₁, .refl _ _, hstart⟩
      · exact absurd (hresult _ ▸ h) (hne m')
    · rintro ⟨_, _, m₂, ⟨⟩, hstart⟩
      exact ⟨m₂, by rw [rounds, hstart.round_eq]; rfl⟩
  | succ left ih =>
    constructor
    · rintro ⟨m', h⟩
      rw [rounds] at h
      rcases round_cases he s started position m with ⟨m₁, hstart, hrest⟩ | ⟨result, hresult, hne⟩
      · rw [hrest, andThen] at h
        cases hbody : body m₁ with
        | error stop m₂ =>
          rw [bind_of_error hbody] at h
          exact absurd (hbody.trans h) (hb m₁ m')
        | ok flow m₂ =>
          rw [bind_of_ok hbody] at h
          cases flow with
          | returned => cases h
          | next =>
            obtain ⟨position', m₃, m₄, hturns, hend⟩ := ih.1 ⟨m', h⟩
            exact ⟨position', m₃, m₄, .round hstart hbody hturns, hend⟩
      · exact absurd (hresult _ ▸ h) (hne m')
    · rintro ⟨position', m₁, m₂, hturns, hend⟩
      cases hturns with
      | round hstart hbody hturns =>
        obtain ⟨m', h⟩ := ih.2 ⟨position', m₁, m₂, hturns, hend⟩
        exact ⟨m', by rw [rounds, hstart.round_eq, andThen, bind_of_ok hbody]; exact h⟩

/-! ## How many rounds there are -/

/-- A round that starts its body has looked at the clock, and there was time. -/
theorem StartsBody.time (he : KeepsTime (loop.enter position))
    (h : loop.StartsBody s started position m m') :
    s.watchdog.clock m.timer.reads - started ≤ s.watchdog.ceiling ∧
      m.timer.reads + 1 ≤ m'.timer.reads := by
  obtain ⟨m₁, hc, hent⟩ := h.entered
  rcases checkLoop_cases s started m with ⟨htime, timer, hreads, hok⟩ | ⟨fault, timer, _, herr⟩
  · obtain rfl : { m with timer } = m₁ := by
      rw [hok] at hc
      exact (EStateM.Result.ok.inj hc).2
    refine ⟨htime, ?_⟩
    have hkeeps := he { m with timer }
    rw [after_of_ok hent, hreads] at hkeeps
    exact hkeeps
  · rw [herr] at hc
    cases hc

/-- Each round looks at the clock. -/
theorem Turns.reads_le (he : ∀ position, KeepsTime (loop.enter position)) (hb : KeepsTime body)
    {k : Nat} (h : loop.Turns s started body position m k position' m') :
    m.timer.reads + k ≤ m'.timer.reads := by
  induction h with
  | refl => exact Nat.le_refl _
  | @round position position' m m₁ m₂ m' k hstart hbody _ ih =>
    have hround := (hstart.time (he position)).2
    have hkeeps := hb m₁
    rw [after_of_ok hbody] at hkeeps
    omega

/-- A loop starts at most `ceiling / step` rounds, if the clock goes on by `step`
    at each look. -/
theorem StartsRound.lt_ceiling_div {clock : Clock} (hclock : s.watchdog.clock = clock.reading)
    (hstep : 1 ≤ clock.step) (he : ∀ position, KeepsTime (loop.enter position))
    (hb : KeepsTime body) {first : σ} {k : Nat} (h : loop.StartsRound s body first m k m') :
    k < s.watchdog.ceiling / clock.step := by
  obtain ⟨started, m₀, position, m₁, hs, hturns, hstart⟩ := h
  -- The loop starts at the look number `r`, and the look before this round has at
  -- least the number `r + 1 + k`.
  obtain ⟨rfl, rfl⟩ := EStateM.Result.ok.inj hs
  have hreads : m.timer.reads + 1 + k ≤ m₁.timer.reads := hturns.reads_le he hb
  have htime := (hstart.time (he position)).1
  have hmul : (m.timer.reads + (k + 1)) * clock.step ≤ m₁.timer.reads * clock.step :=
    Nat.mul_le_mul_right _ (by omega)
  rw [Nat.add_mul] at hmul
  have hpassed : (k + 1) * clock.step ≤ s.watchdog.ceiling := by
    change s.watchdog.clock m₁.timer.reads - s.watchdog.clock m.timer.reads ≤ _ at htime
    rw [hclock, Clock.reading, Clock.reading] at htime
    omega
  exact (Nat.le_div_iff_mul_le hstep).2 hpassed

end Loop

end Portugol.Exec
