import Mathlib.Data.List.Forall2
import Portugol.Proofs.Effect
import Portugol.Proofs.Integers
import Portugol.Proofs.Loop

/-!
# Counting loops

What the rounds of a `PARA` or a `REPITA` are is settled when it starts. Its positions are
numbers that the body never sees: they go from one to the next until the loop is over
(`Loop.Visits`), and as they are integers that are small enough, nothing is lost on the way
(`exists_visits_of_is`). So the rounds are known beforehand, and they are done one after the
other (`InTurn`), unless the watchdog or the body ends the loop.

* `Loop.inTurn_rounds`: a loop does the rounds at the positions that it visits in turn.
* `exists_visits_countLoop`, `exists_visits_timesLoop`: which positions these are.
* `execStmt_counts`: so a `PARA` gives its variable the integers from the first bound to the
  last one, and a `REPITA` has as many rounds as the integer part of its number says.
-/

namespace Portugol.Exec

/-! ## Rounds in turn -/

variable {s : Setting} {started : Nat} {body : Exec Flow} {ready : Exec Unit}
  {rounds rest : List (Exec Unit)} {m m' m₁ m₂ : Machine}

variable (s started) in
/-- In the machine `m`, a round starts its body in the machine `m'`: there is time for it, and
    then it is made ready. -/
def RoundStarts (ready : Exec Unit) (m m' : Machine) : Prop :=
  ∃ m₁, checkLoop s started m = .ok () m₁ ∧ ready m₁ = .ok () m'

variable (s started body) in
/-- The rounds are done one after the other, each to the end of its body. -/
inductive Done : List (Exec Unit) → Machine → Machine → Prop
  | nil (m : Machine) : Done [] m m
  | cons {ready : Exec Unit} {rest : List (Exec Unit)} {m m₁ m₂ m' : Machine} :
    RoundStarts s started ready m m₁ → body m₁ = .ok .next m₂ → Done rest m₂ m' →
    Done (ready :: rest) m m'

variable (s started body) in
/-- How a loop ends when these rounds are left: there are none, or there is no time for the
    first of them, or its body leaves the callable or stops. -/
inductive Ends : List (Exec Unit) → Machine → EStateM.Result Stop Machine Flow → Prop
  | all (m : Machine) : Ends [] m (.ok .next m)
  | late {ready : Exec Unit} {rest : List (Exec Unit)} {m m' : Machine} {fault : Fault} :
    checkLoop s started m = .error (.fault fault) m' →
    Ends (ready :: rest) m (.error (.fault fault) m')
  | returned {ready : Exec Unit} {rest : List (Exec Unit)} {m m₁ m' : Machine} :
    RoundStarts s started ready m m₁ → body m₁ = .ok .returned m' →
    Ends (ready :: rest) m (.ok .returned m')
  | stopped {ready : Exec Unit} {rest : List (Exec Unit)} {m m₁ m' : Machine} {stop : Stop} :
    RoundStarts s started ready m m₁ → body m₁ = .error stop m' →
    Ends (ready :: rest) m (.error stop m')

variable (s started body) in
/-- The rounds are done in turn, and this is the result: the first ones of them to the end of
    the body, and then the loop ends. -/
def InTurn (rounds : List (Exec Unit)) (m : Machine)
    (result : EStateM.Result Stop Machine Flow) : Prop :=
  ∃ first rest m', rounds = first ++ rest ∧ Done s started body first m m' ∧
    Ends s started body rest m' result

namespace InTurn

variable {result : EStateM.Result Stop Machine Flow}

theorem of_ends (h : Ends s started body rounds m result) :
    InTurn s started body rounds m result :=
  ⟨[], rounds, m, rfl, .nil m, h⟩

theorem cons (hstart : RoundStarts s started ready m m₁) (hbody : body m₁ = .ok .next m₂)
    (h : InTurn s started body rest m₂ result) :
    InTurn s started body (ready :: rest) m result := by
  obtain ⟨first, left, m', rfl, hdone, hends⟩ := h
  exact ⟨ready :: first, left, m', rfl, .cons hstart hbody hdone, hends⟩

/-- A loop that ends normally has done all its rounds. -/
theorem done (h : InTurn s started body rounds m (.ok .next m')) :
    Done s started body rounds m m' := by
  obtain ⟨first, rest, m₁, rfl, hdone, hends⟩ := h
  cases hends
  rwa [List.append_nil]

end InTurn

/-- The last one of some rounds that are done. -/
theorem Done.last (h : Done s started body (rounds ++ [ready]) m m') :
    ∃ m₁ m₂, Done s started body rounds m m₁ ∧ RoundStarts s started ready m₁ m₂ ∧
      body m₂ = .ok .next m' := by
  induction rounds generalizing m with
  | nil =>
    cases h with
    | cons hstart hbody hrest =>
      cases hrest
      exact ⟨m, _, .nil m, hstart, hbody⟩
  | cons first rest ih =>
    cases h with
    | cons hstart hbody hrest =>
      obtain ⟨m₁, m₂, hdone, hlast⟩ := ih hrest
      exact ⟨m₁, m₂, .cons hstart hbody hdone, hlast⟩

/-! ## The positions of a loop -/

namespace Loop

variable {σ : Type} {loop : Loop σ} {position : σ} {positions : List σ}

variable (loop) in
/-- From a position on, the loop has rounds at these positions, and at no other one. -/
inductive Visits : σ → List σ → Prop
  | nil {position : σ} : loop.comes position = false → Visits position []
  | cons {position : σ} {positions : List σ} : loop.comes position = true →
    Visits (loop.next position) positions → Visits position (position :: positions)

theorem round_of_not_comes (h : loop.comes position = false) (rest : Exec Flow) (m : Machine) :
    loop.round s started position rest m = .ok .next m := by
  rw [round, h]
  rfl

theorem round_of_late (hcomes : loop.comes position = true) {stop : Stop}
    (h : checkLoop s started m = .error stop m') (rest : Exec Flow) :
    loop.round s started position rest m = .error stop m' := by
  rw [round, hcomes]
  exact bind_of_error h

/-- A loop that only makes its rounds ready does them in turn, as long as it may have so
    many. -/
theorem inTurn_rounds {ready : σ → Exec Unit}
    (henter : ∀ position m, ∃ m', ready position m = .ok () m' ∧
      loop.enter position m = .ok true m')
    (h : loop.Visits position positions) {left : Nat} (hleft : positions.length ≤ left)
    (m : Machine) :
    InTurn s started body (positions.map ready) m
      (loop.rounds s started body left position m) := by
  induction h generalizing left m with
  | @nil position hcomes =>
    have hround : loop.rounds s started body left position m = .ok .next m := by
      cases left <;> exact round_of_not_comes hcomes _ m
    rw [hround]
    exact .of_ends (.all m)
  | @cons position positions hcomes _ ih =>
    obtain ⟨left, rfl⟩ : ∃ n, left = n + 1 := ⟨left - 1, by rw [List.length_cons] at hleft; omega⟩
    rw [rounds]
    rcases checkLoop_cases s started m with ⟨_, timer, _, hcheck⟩ | ⟨fault, timer, _, hcheck⟩
    · obtain ⟨m₁, hready, hentered⟩ := henter position { m with timer }
      have hstart : loop.StartsBody s started position m m₁ := ⟨hcomes, _, hcheck, hentered⟩
      rw [hstart.round_eq, andThen]
      cases hbody : body m₁ with
      | ok flow m₂ =>
        rw [bind_of_ok hbody]
        cases flow with
        | next => exact .cons ⟨_, hcheck, hready⟩ hbody (ih (Nat.le_of_succ_le_succ hleft) m₂)
        | returned => exact .of_ends (.returned ⟨_, hcheck, hready⟩ hbody)
      | error stop m₂ =>
        rw [bind_of_error hbody]
        exact .of_ends (.stopped ⟨_, hcheck, hready⟩ hbody)
    · rw [round_of_late hcomes hcheck]
      exact .of_ends (.late hcheck)

end Loop

/-! ## Series of integers -/

/-- So many integers, from `a` on, with `step` between them. -/
def series (a step : Int) (n : Nat) : List Int := (List.range n).map fun i : Nat => a + step * i

/-- The integers from `a` to `b`, in this order: up if `b` is not below `a`, and else down. -/
def countTo (a b : Int) : List Int :=
  if a ≤ b then series a 1 (b - a + 1).toNat else series a (-1) (a - b + 1).toNat

theorem series_succ (a step : Int) (n : Nat) :
    series a step (n + 1) = a :: series (a + step) step n := by
  rw [series, List.range_succ_eq_map, List.map_cons, List.map_map, series]
  refine congrArg₂ _ (by simp) (List.map_congr_left fun i _ => ?_)
  simp only [Function.comp, Nat.succ_eq_add_one, Int.natCast_add, Int.mul_add]
  omega

theorem series_succ_last (a step : Int) (n : Nat) :
    series a step (n + 1) = series a step n ++ [a + step * n] := by
  rw [series, List.range_succ, List.map_append, List.map_singleton, ← series]

theorem countTo_eq_concat (a b : Int) : ∃ earlier, countTo a b = earlier ++ [b] := by
  rw [countTo]
  split
  · refine ⟨series a 1 (b - a).toNat, ?_⟩
    have hlast : a + 1 * (b - a).toNat = b := by omega
    rw [show (b - a + 1).toNat = (b - a).toNat + 1 by omega, series_succ_last, hlast]
  · refine ⟨series a (-1) (a - b).toNat, ?_⟩
    have hlast : a + -1 * (a - b).toNat = b := by omega
    rw [show (a - b + 1).toNat = (a - b).toNat + 1 by omega, series_succ_last, hlast]

section Integers

open Number

variable {x y : Number} {a b : Int}

/-- A loop whose positions are integers, one step apart and small enough to be exact, visits
    the series of them that is within its bound. -/
theorem exists_visits_of_is {loop : Loop Number} {step : Int} {within : Int → Bool}
    (hcomes : ∀ {x : Number} {n : Int}, x.Is n → loop.comes x = within n)
    (hnext : ∀ {x : Number} {n : Int}, x.Is n → n.natAbs < 2 ^ 53 → (loop.next x).Is (n + step))
    {n : Nat} (hx : x.Is a)
    (hin : ∀ i < n, within (a + step * i) = true ∧ (a + step * i).natAbs < 2 ^ 53)
    (hout : within (a + step * n) = false) :
    ∃ positions, loop.Visits x positions ∧ List.Forall₂ Number.Is positions (series a step n) := by
  induction n generalizing x a with
  | zero =>
    refine ⟨[], .nil ?_, .nil⟩
    rw [hcomes hx]
    simpa using hout
  | succ n ih =>
    have hshift : ∀ i : Nat, a + step * (i + 1 : Nat) = a + step + step * i := fun i => by
      rw [Int.natCast_add, Int.mul_add]
      omega
    have hfirst : within a = true ∧ a.natAbs < 2 ^ 53 := by
      simpa using hin 0 (Nat.succ_pos n)
    obtain ⟨positions, hvisits, hseries⟩ := ih (hnext hx hfirst.2)
      (fun i hi => hshift i ▸ hin (i + 1) (Nat.succ_lt_succ hi)) (hshift n ▸ hout)
    rw [series_succ]
    exact ⟨x :: positions, .cons ((hcomes hx).trans hfirst.1) hvisits, .cons hx hseries⟩

/-- The positions of a `PARA` are the integers between its bounds. -/
theorem exists_visits_countLoop (var : String) (hx : x.Is a) (hy : y.Is b)
    (ha : a.natAbs < 2 ^ 53) (hb : b.natAbs < 2 ^ 53) :
    ∃ positions, (countLoop var (.between x y) y).Visits x positions ∧
      List.Forall₂ Number.Is positions (countTo a b) := by
  rw [countTo, Direction.between, le_eq hx hy]
  by_cases hle : a ≤ b
  · rw [if_pos hle, decide_eq_true hle, if_pos rfl]
    refine exists_visits_of_is (fun hn => le_eq hn hy) (fun hn hlt => ?_) hx (fun i hi => ?_) ?_
    · exact hn.add is_one hlt (by decide) (by omega)
    · rw [decide_eq_true_iff]
      omega
    · rw [decide_eq_false_iff_not]
      omega
  · rw [if_neg hle, decide_eq_false hle, if_neg Bool.false_ne_true]
    refine exists_visits_of_is (fun hn => le_eq hy hn) (fun hn hlt => ?_) hx (fun i hi => ?_) ?_
    · exact hn.add is_one.neg hlt (by decide) (by omega)
    · rw [decide_eq_true_iff]
      omega
    · rw [decide_eq_false_iff_not]
      omega

/-- A `REPITA` has as many positions as its number says, and none if this is negative. -/
theorem exists_visits_timesLoop (hx : x.Is a) (ha : a.natAbs < 2 ^ 53) :
    ∃ positions, timesLoop.Visits x positions ∧ positions.length = a.toNat := by
  obtain ⟨positions, hvisits, hseries⟩ : ∃ positions, timesLoop.Visits x positions ∧
      List.Forall₂ Number.Is positions (series a (-1) a.toNat) := by
    refine exists_visits_of_is (fun hn => le_eq is_one hn) (fun hn hlt => ?_) hx
      (fun i hi => ?_) ?_
    · exact hn.sub is_one hlt (by decide) (by omega)
    · rw [decide_eq_true_iff]
      omega
    · rw [decide_eq_false_iff_not]
      omega
  refine ⟨positions, hvisits, ?_⟩
  rw [hseries.length_eq, series, List.length_map, List.length_range]

end Integers

/-! ## Statements that count -/

variable {invoke : Invoker} {x y : Number} {a b : Int}

/-- The variable is given this number. -/
def setCounter (var : String) (counter : Number) : Exec Unit := assign var (.number counter)

variable (s) in
/-- What a `PARA` does that starts in the machine `m`, with this result: a round for each
    integer from `a` to `b`, for which the variable is given the integer just before the body.
    If all rounds are done and the last one leaves the variable as it was, its value is `b`. -/
def Counts (body : Exec Flow) (var : String) (a b : Int) (m : Machine)
    (result : EStateM.Result Stop Machine Flow) : Prop :=
  ∃ (started : Nat) (m₀ : Machine) (earlier : List Number) (last : Number),
    startLoop s m = .ok started m₀ ∧
    List.Forall₂ Number.Is (earlier ++ [last]) (countTo a b) ∧
    InTurn s started body ((earlier ++ [last]).map (setCounter var)) m₀ result ∧
    ∀ m', result = .ok .next m' → ∃ m₁ m₂,
      Done s started body (earlier.map (setCounter var)) m₀ m₁ ∧
      RoundStarts s started (setCounter var last) m₁ m₂ ∧ body m₂ = .ok .next m' ∧
      (m'.env.get? var = m₂.env.get? var →
        m'.env.get? var = some (.number last) ∧ last.Is b)

variable (s) in
/-- What a `REPITA` does that starts in the machine `m`, with this result: so many rounds. -/
def Repeats (body : Exec Flow) (n : Nat) (m : Machine)
    (result : EStateM.Result Stop Machine Flow) : Prop :=
  ∃ (started : Nat) (m₀ : Machine), startLoop s m = .ok started m₀ ∧
    InTurn s started body (List.replicate n (pure ())) m₀ result

theorem evalNumber_of_eval {number : Expr} (context : String)
    (h : eval s invoke number m = .ok (.number x) m') :
    evalNumber s invoke context number m = .ok x m' := by
  rw [evalNumber, bind_of_ok h]
  rfl

theorem get?_of_roundStarts {var : String} {counter : Number}
    (h : RoundStarts s started (setCounter var counter) m m') :
    m'.env.get? var = some (.number counter) := by
  obtain ⟨m₁, _, hset⟩ := h
  rw [setCounter, assign_apply] at hset
  cases hset
  exact Environment.get?_write_self _ _ _

theorem Loop.run_of_startLoop {σ : Type} (loop : Loop σ) (body : Exec Flow) (first : σ)
    (h : startLoop s m = .ok started m') :
    loop.run s body first m = loop.rounds s started body s.rounds first m' := by
  rw [Loop.run, bind_of_ok h]

/-- The numbers from `a` to `b` end with `b`. -/
theorem exists_last_of_countTo {counters : List Number}
    (h : List.Forall₂ Number.Is counters (countTo a b)) :
    ∃ earlier last, counters = earlier ++ [last] ∧ last.Is b := by
  obtain ⟨integers, hcount⟩ := countTo_eq_concat a b
  rw [hcount] at h
  have hreverse := List.rel_reverse h
  rw [List.reverse_concat] at hreverse
  cases hr : counters.reverse with
  | nil =>
    rw [hr] at hreverse
    cases hreverse
  | cons last rest =>
    rw [hr] at hreverse
    cases hreverse with
    | cons hlast _ =>
      refine ⟨rest.reverse, last, ?_, hlast⟩
      rw [← List.reverse_cons, ← hr, List.reverse_reverse]

theorem counts_run (body : Exec Flow) (var : String) (hx : x.Is a) (hy : y.Is b)
    (ha : a.natAbs < 2 ^ 53) (hb : b.natAbs < 2 ^ 53) (hrounds : (countTo a b).length ≤ s.rounds)
    (m : Machine) :
    Counts s body var a b m ((countLoop var (.between x y) y).run s body x m) := by
  obtain ⟨counters, hvisits, hcounters⟩ := exists_visits_countLoop var hx hy ha hb
  obtain ⟨started, m₀, hstarted⟩ : ∃ started m₀, startLoop s m = .ok started m₀ := ⟨_, _, rfl⟩
  have henter : ∀ counter m, ∃ m', setCounter var counter m = .ok () m' ∧
      (countLoop var (.between x y) y).enter counter m = .ok true m' := fun counter m =>
    ⟨_, assign_apply var _ m, bind_of_ok (assign_apply var _ m)⟩
  have hturn : InTurn s started body (counters.map (setCounter var)) m₀
      ((countLoop var (.between x y) y).rounds s started body s.rounds x m₀) :=
    Loop.inTurn_rounds henter hvisits (hcounters.length_eq ▸ hrounds) m₀
  obtain ⟨earlier, last, rfl, hlast⟩ := exists_last_of_countTo hcounters
  rw [Loop.run_of_startLoop _ _ _ hstarted]
  refine ⟨started, m₀, earlier, last, hstarted, hcounters, hturn, fun m' hend => ?_⟩
  rw [hend, List.map_append] at hturn
  obtain ⟨m₁, m₂, hdone, hstart, hbody⟩ := hturn.done.last
  exact ⟨m₁, m₂, hdone, hstart, hbody, fun hsame =>
    ⟨hsame.trans (get?_of_roundStarts hstart), hlast⟩⟩

theorem repeats_run (body : Exec Flow) (hx : x.Is a) (ha : a.natAbs < 2 ^ 53)
    (hrounds : a.toNat ≤ s.rounds) (m : Machine) :
    Repeats s body a.toNat m (timesLoop.run s body x m) := by
  obtain ⟨positions, hvisits, hlength⟩ := exists_visits_timesLoop hx ha
  obtain ⟨started, m₀, hstarted⟩ : ∃ started m₀, startLoop s m = .ok started m₀ := ⟨_, _, rfl⟩
  have hturn : InTurn s started body (positions.map fun _ => pure ()) m₀
      (timesLoop.rounds s started body s.rounds x m₀) :=
    Loop.inTurn_rounds (fun _ m => ⟨m, rfl, rfl⟩) hvisits (hlength ▸ hrounds) m₀
  rw [List.map_const', hlength] at hturn
  rw [Loop.run_of_startLoop _ _ _ hstarted]
  exact ⟨started, m₀, hstarted, hturn⟩

/-- A `PARA` whose bounds are integers below `2 ^ 53` has a round for each integer from the
    first one to the last one, and a `REPITA` as many as the integer part of its number says,
    if this is below `2 ^ 53`, provided that loops may have so many rounds. They are done in
    turn, whatever the body does, and only the watchdog or the body itself can end the loop
    before. -/
theorem execStmt_counts (s : Setting) (invoke : Invoker) (line : Nat) (body : List Stmt)
    (m : Machine) :
    (∀ (var : String) (first last : Expr) (x y : Number) (a b : Int) (m₁ m₂ : Machine),
      eval s invoke first m = .ok (.number x) m₁ → eval s invoke last m₁ = .ok (.number y) m₂ →
      x.Is a → y.Is b → a.natAbs < 2 ^ 53 → b.natAbs < 2 ^ 53 →
      (countTo a b).length ≤ s.rounds →
      Counts s (execBody s invoke body) var a b m₂
        (execStmt s invoke (.count line var first last body) m)) ∧
    ∀ (number : Expr) (x : Number) (k : Int) (m₁ : Machine),
      eval s invoke number m = .ok (.number x) m₁ →
      x.isFinite = true → k = x.units.tdiv Number.oneUnits → k.natAbs < 2 ^ 53 →
      k.toNat ≤ s.rounds →
      Repeats s (execBody s invoke body) k.toNat m₁
        (execStmt s invoke (.times line number body) m) := by
  constructor
  · intro var first last x y a b m₁ m₂ hfirst hlast hx hy ha hb hrounds
    rw [execStmt, bind_of_ok (evalNumber_of_eval _ hfirst), bind_of_ok (evalNumber_of_eval _ hlast)]
    exact counts_run _ var hx hy ha hb hrounds m₂
  · intro number x k m₁ hnumber hfinite hk hsmall hrounds
    subst hk
    rw [execStmt, bind_of_ok (evalNumber_of_eval _ hnumber)]
    exact repeats_run _ (Number.is_trunc hfinite) hsmall hrounds m₁

/-- A body that writes the value of `i` behind the digits of `t`, and then another value to
    `i` and to `n`. -/
def restless : List Stmt :=
  [.simple 2 (.assign "t" (.binary .add (.binary .mul (.var "t") (.number 10)) (.var "i"))),
    .simple 3 (.assign "i" (.number 9)), .simple 4 (.assign "n" (.number 9))]

/-- A setting with three rounds for each loop. -/
def threeRounds : Setting where
  rounds := 3

/-- A machine in which `n` is three. -/
def fromThree : Machine where
  env := { globals := [("i", .number 0), ("n", .number 3), ("t", .number 0)] }

/-- From `n` to one, with a body that writes `n` and the variable of the loop; and two and a
    half times. -/
theorem execStmt_counts_restless :
    countTo 3 1 = [3, 2, 1] ∧
    Counts threeRounds (execBody threeRounds (invoker threeRounds 0) restless) "i" 3 1 fromThree
      (execStmt threeRounds (invoker threeRounds 0)
        (.count 1 "i" (.var "n") (.number 1) restless) fromThree) ∧
    ((execStmt threeRounds (invoker threeRounds 0)
      (.count 1 "i" (.var "n") (.number 1) restless)).after fromThree).env.get? "t" =
        some (.number 321) ∧
    Repeats threeRounds (execBody threeRounds (invoker threeRounds 0) restless) 2 fromThree
      (execStmt threeRounds (invoker threeRounds 0)
        (.times 1 (.number (.ofRatio false 5 2)) restless) fromThree) := by
  obtain ⟨hcounts, hrepeats⟩ :=
    execStmt_counts threeRounds (invoker threeRounds 0) 1 restless fromThree
  refine ⟨by decide, ?_, rfl, ?_⟩
  · exact hcounts "i" (.var "n") (.number 1) 3 1 3 1 _ _ rfl rfl
      (Number.is_ofNat false (by decide)) Number.is_one (by decide) (by decide) (by decide)
  · exact hrepeats (.number (.ofRatio false 5 2)) _ 2 _ rfl (by decide +kernel)
      (by decide +kernel) (by decide) (by decide)

end Portugol.Exec
