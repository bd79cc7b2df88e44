import Portugol.Proofs.Dictionary
import Portugol.Proofs.Termination

/-!
# Cancelled runs

A loop asks before each round whether the run is cancelled, and before it does anything
else in the round. So once a run is cancelled no body of a loop is run any more. What
stands there makes no difference, nor does the clock, and every run ends.

* `Loop.run_eq_of_cancelled`: a loop ends at once, without a round, whatever is in it.
* `halting_calls`: so do calls, however deeply they nest, if only the bodies of their
  loops differ.
* `run_of_cancelled`: programs that are the same but for the bodies of their loops
  (`Stmt.emptied`) run alike once they are cancelled.
-/

namespace Portugol

/-! ## What is left of a program without the bodies of its loops -/

mutual

/-- The statement with nothing in its loops. -/
def Stmt.emptied : Stmt → Stmt
  | .simple line action => .simple line action
  | .ifThen line cond body => .ifThen line cond (bodyEmptied body)
  | .ifElse line cond body alternate =>
    .ifElse line cond (bodyEmptied body) (bodyEmptied alternate)
  | .count line var first last _ => .count line var first last []
  | .whileDo line cond _ => .whileDo line cond []
  | .times line number _ => .times line number []
  | .define line kind name params body => .define line kind name params (bodyEmptied body)

/-- Statements with nothing in their loops. -/
def bodyEmptied : List Stmt → List Stmt
  | [] => []
  | stmt :: rest => stmt.emptied :: bodyEmptied rest

end

@[simp] theorem Stmt.line_emptied (stmt : Stmt) : stmt.emptied.line = stmt.line := by
  cases stmt <;> rfl

/-- The callable with nothing in its loops. -/
def Callable.emptied (callable : Callable) : Callable :=
  { callable with body := bodyEmptied callable.body }

/-- The callables with nothing in their loops. -/
def Registry.emptied (registry : Registry) : Registry :=
  registry.map fun entry => (entry.1, entry.2.emptied)

theorem Registry.get?_emptied (registry : Registry) (name : String) :
    Dict.get? registry.emptied name = (Dict.get? registry name).map Callable.emptied :=
  Dict.get?_map Callable.emptied registry name

namespace Exec

variable {α β : Type} {s s' : Setting} {invoke invoke' : Invoker} {m : Machine}

/-! ## Loops -/

/-- The machine after the clock has been read in a cancelled run. -/
def afterReading (m : Machine) : Machine :=
  { m with timer := { reads := m.timer.reads + 1, cancelled := true } }

theorem startLoop_of_cancelled (s : Setting) (h : m.timer.cancelled = true) :
    startLoop s m = .ok (s.watchdog.clock m.timer.reads) (afterReading m) := by
  have hstart : startLoop s m = .ok (s.watchdog.clock m.timer.reads)
      { m with timer := (s.watchdog.read m.timer).2 } := rfl
  rw [hstart, Watchdog.read, h, Bool.true_or]
  rfl

theorem checkLoop_of_cancelled (s : Setting) (started : Nat) (h : m.timer.cancelled = true) :
    checkLoop s started m = .error (.fault { cause := .cancelled }) m := by
  have hcheck : checkLoop s started m = ofExcept (s.watchdog.check started m.timer).1
      { m with timer := (s.watchdog.check started m.timer).2 } := rfl
  rw [hcheck, Watchdog.check, if_pos h]
  rfl

/-- A loop that is cancelled ends before its first round, with a fault if there would be
    one. -/
theorem Loop.run_eq_of_cancelled {σ : Type} (loop : Loop σ) (s : Setting) (body : Exec Flow)
    (first : σ) (h : m.timer.cancelled = true) : loop.run s body first m =
      if loop.comes first then .error (.fault { cause := .cancelled }) (afterReading m)
      else .ok .next (afterReading m) := by
  have hround : ∀ started rest, loop.round s started first rest (afterReading m) =
      if loop.comes first then .error (.fault { cause := .cancelled }) (afterReading m)
      else .ok .next (afterReading m) := by
    intro started rest
    rw [round, whenever]
    split
    · exact bind_of_error (checkLoop_of_cancelled s started rfl)
    · rfl
  rw [run, bind_of_ok (startLoop_of_cancelled s h)]
  cases s.rounds <;> exact hround _ _

/-! ## Everything else -/

/-- Once the run is cancelled both steps do the same. The run stays cancelled, and it is not
    out of rounds. -/
structure AlikeCancelled (x y : Exec α) : Prop where
  same {m : Machine} : m.timer.cancelled = true → x m = y m
  stays {m : Machine} : m.timer.cancelled = true → (x.after m).timer.cancelled = true
  finishes {m : Machine} : m.timer.cancelled = true → ∀ m', x m ≠ .error .outOfRounds m'

theorem AlikeCancelled.of_keepsTimer {x : Exec α} (htimer : KeepsTimer x) (hends : Finishes x) :
    AlikeCancelled x x where
  same _ := rfl
  stays {m} h := by rw [htimer m, h]
  finishes {m} _ := hends m

theorem AlikeCancelled.bind {x y : Exec α} {f g : α → Exec β} (hx : AlikeCancelled x y)
    (hf : ∀ a, AlikeCancelled (f a) (g a)) : AlikeCancelled (x >>= f) (y >>= g) where
  same {m} h := by
    have hleft := hx.stays h
    have hsame := hx.same h
    cases hm : x m with
    | ok a m₁ =>
      rw [after_of_ok hm] at hleft
      rw [hm] at hsame
      rw [bind_of_ok hm, bind_of_ok hsame.symm]
      exact (hf a).same hleft
    | error stop m₁ =>
      rw [hm] at hsame
      rw [bind_of_error hm, bind_of_error hsame.symm]
  stays {m} h := by
    rcases after_bind x f m with ⟨a, _, hafter⟩ | hafter
    · rw [hafter]
      exact (hf a).stays (hx.stays h)
    · rw [hafter]
      exact hx.stays h
  finishes {m} h m' hout := by
    have hleft := hx.stays h
    cases hm : x m with
    | ok a m₁ =>
      rw [after_of_ok hm] at hleft
      rw [bind_of_ok hm] at hout
      exact (hf a).finishes hleft m' hout
    | error stop m₁ =>
      rw [bind_of_error hm] at hout
      cases hout
      exact hx.finishes h _ hm

theorem AlikeCancelled.activation {x y : Exec Flow} (hx : AlikeCancelled x y)
    (params : List String) (values : List Value) :
    AlikeCancelled (activation params values x) (activation params values y) := by
  have hbody : ∀ {m : Machine}, m.timer.cancelled = true →
      (entering params values m).timer.cancelled = true := fun h => h
  refine ⟨fun {m} h => ?_, fun {m} h => ?_, fun {m} h m' hout => ?_⟩
  · rw [activation_apply, activation_apply, hx.same (hbody h)]
  · have hleft := hx.stays (hbody h)
    have happ := activation_apply params values x m
    cases hm : x (entering params values m) with
    | ok flow m₁ =>
      rw [hm] at happ
      rw [after_of_ok hm] at hleft
      rw [after_of_ok happ]
      exact hleft
    | error stop m₁ =>
      rw [hm] at happ
      rw [after_of_error hm] at hleft
      rw [after_of_error happ]
      exact hleft
  · rw [activation_apply] at hout
    cases hm : x (entering params values m) with
    | ok flow m₁ =>
      rw [hm] at hout
      cases hout
    | error stop m₁ =>
      rw [hm] at hout
      cases hout
      exact hx.finishes (hbody h) m₁ hm

theorem AlikeCancelled.located {x y : Exec α} (hx : AlikeCancelled x y) (line : Nat) :
    AlikeCancelled (located line x) (located line y) where
  same {m} h := by rw [Exec.located, Exec.located, hx.same h]
  stays {m} h := by
    rw [after_located]
    exact hx.stays h
  finishes {m} h m' hout := by
    rw [Exec.located] at hout
    split at hout
    · cases hout
    · rename_i hne
      exact hx.finishes h m' hout

namespace Congruence

/-- Once the run is cancelled every step does the same as itself. -/
def halting : Congruence where
  rel := AlikeCancelled
  pure a := .of_keepsTimer (untimed.pure a) (finishing.pure a)
  bind := AlikeCancelled.bind
  fault fault := .of_keepsTimer (untimed.fault fault) (finishing.fault fault)
  located line hx := hx.located line
  print text := .of_keepsTimer (untimed.print text) (finishing.print text)
  nextInput target := .of_keepsTimer (untimed.nextInput target) (finishing.nextInput target)
  lookup name := .of_keepsTimer (untimed.lookup name) (finishing.lookup name)
  assign name value h :=
    .of_keepsTimer (untimed.assign name value h) (finishing.assign name value h)
  assignElement name key value h :=
    .of_keepsTimer (untimed.assignElement name key value h)
      (finishing.assignElement name key value h)
  leaveResult value h :=
    .of_keepsTimer (untimed.leaveResult value h) (finishing.leaveResult value h)
  checkDepth maxDepth :=
    .of_keepsTimer (untimed.checkDepth maxDepth) (finishing.checkDepth maxDepth)
  activation params values hx := hx.activation params values

end Congruence

open LocalCongruence Congruence

/-- Loops that agree on whether there is a first round are alike, whatever is in them. -/
theorem alikeCancelled_loop {σ : Type} {loop loop' : Loop σ} (first : σ)
    (hcomes : loop.comes first = loop'.comes first) (body body' : Exec Flow) :
    AlikeCancelled (loop.run s body first) (loop'.run s' body' first) := by
  refine ⟨fun {m} h => ?_, fun {m} h => ?_, fun {m} h m' hout => ?_⟩
  · rw [Loop.run_eq_of_cancelled loop s body first h,
      Loop.run_eq_of_cancelled loop' s' body' first h, hcomes]
  · rw [after, Loop.run_eq_of_cancelled loop s body first h]
    split <;> rename_i heq <;> split at heq <;> cases heq <;> rfl
  · rw [Loop.run_eq_of_cancelled loop s body first h] at hout
    split at hout <;> cases hout

mutual

/-- A statement is alike with nothing in its loops. -/
theorem alikeCancelled_execStmt (h : halting.Calls s s' invoke invoke') :
    ∀ stmt : Stmt, AlikeCancelled (execStmt s invoke stmt) (execStmt s' invoke' stmt.emptied)
  | .simple _ action => rel_execSimple h action fun _ _ => trivial
  | .ifThen _ cond body =>
    halting.bind (rel_evalCondition h _ cond) fun
      | true => alikeCancelled_execBody h body
      | false => halting.pure _
  | .ifElse _ cond body alternate =>
    halting.bind (rel_evalCondition h _ cond) fun
      | true => alikeCancelled_execBody h body
      | false => alikeCancelled_execBody h alternate
  | .count _ _ first last _ =>
    halting.bind (rel_evalNumber h _ first) fun _ =>
      halting.bind (rel_evalNumber h _ last) fun _ => alikeCancelled_loop _ rfl _ _
  | .whileDo .. => alikeCancelled_loop () (by rfl) _ _
  | .times _ number _ =>
    halting.bind (rel_evalNumber h _ number) fun _ => alikeCancelled_loop _ rfl _ _
  | .define .. => halting.pure _

/-- Statements are alike with nothing in their loops. -/
theorem alikeCancelled_execBody (h : halting.Calls s s' invoke invoke') :
    ∀ body : List Stmt,
      AlikeCancelled (execBody s invoke body) (execBody s' invoke' (bodyEmptied body))
  | [] => halting.pure _
  | stmt :: rest => by
    rw [bodyEmptied, execBody, execBody, stmt.line_emptied]
    exact rel_andThen (halting.located stmt.line (alikeCancelled_execStmt h stmt))
      (alikeCancelled_execBody h rest)

end

/-- Calls are alike with nothing in the loops of callables, however deeply they may nest. -/
theorem halting_calls (hregistry : s'.registry = s.registry.emptied)
    (hdepth : s'.maxDepth = s.maxDepth) (room : Nat) :
    halting.Calls s s' (invoker s room) (invoker s' room) := by
  -- What is said of a call once it is said of the body of the callable.
  have hcall : ∀ {invoke invoke' : Invoker}, (∀ callable values,
      AlikeCancelled (invoke callable values) (invoke' callable.emptied values)) →
      halting.Calls s s' invoke invoke' := by
    intro invoke invoke' hinvoke name given x y hxy
    rw [call, call, hregistry, Registry.get?_emptied, hdepth]
    cases Dict.get? s.registry name with
    | none => exact halting.rel_fail _
    | some callable =>
      dsimp only [Option.map_some, Callable.emptied]
      split
      · exact halting.rel_fail _
      · exact halting.bind (halting.checkDepth _) fun _ => halting.bind hxy fun values =>
          halting.bind (hinvoke callable values) fun _ => halting.pure _
  induction room with
  | zero =>
    refine hcall fun callable values => ?_
    rw [invoker, invoker, hdepth]
    exact halting.rel_fail _
  | succ room ih =>
    exact hcall fun callable values =>
      halting.activation callable.params values (alikeCancelled_execBody ih callable.body)

variable (s s') in
/-- A run is alike with nothing in its loops. -/
theorem alikeCancelled_run (hregistry : s'.registry = s.registry.emptied)
    (hdepth : s'.maxDepth = s.maxDepth) (main : List Stmt) :
    AlikeCancelled (run s main) (run s' (bodyEmptied main)) := by
  have hbody := fun m : Machine =>
    (alikeCancelled_execBody (halting_calls hregistry hdepth (s.maxDepth - m.depth)) main).bind
      fun _ => halting.pure ()
  refine ⟨fun {m} h => ?_, fun {m} => (hbody m).stays, fun {m} => (hbody m).finishes⟩
  rw [run_apply, run_apply, hdepth]
  exact (hbody m).same h

/-- Once a run is cancelled, what stands in loops makes no difference: programs that are the
    same with nothing in their loops end in the same way and leave the same machine. Neither
    the ceiling matters nor what the clock shows, and no run is out of rounds. -/
theorem run_of_cancelled {main main' : List Stmt}
    (hmain : bodyEmptied main = bodyEmptied main')
    (hregistry : s.registry.emptied = s'.registry.emptied) (hdepth : s.maxDepth = s'.maxDepth)
    (h : m.timer.cancelled = true) :
    run s main m = run s' main' m ∧ (∀ m', run s main m ≠ .error .outOfRounds m') ∧
      ∀ m', run s' main' m ≠ .error .outOfRounds m' := by
  let emptied : Setting := { s with registry := s.registry.emptied }
  have hfirst : AlikeCancelled (run s main) (run emptied (bodyEmptied main)) :=
    alikeCancelled_run s emptied rfl rfl main
  have hsecond : AlikeCancelled (run s' main') (run emptied (bodyEmptied main')) :=
    alikeCancelled_run s' emptied hregistry hdepth main'
  refine ⟨?_, hfirst.finishes h, hsecond.finishes h⟩
  rw [hfirst.same h, hsecond.same h, hmain]

/-- A function that prints, and then does something again and again. -/
def insisting (body : List Stmt) : Callable where
  name := "f"
  params := []
  body := [.simple 2 (.print [.text "a"]), .whileDo 3 (.logical true) body]
  kind := .function
  line := 1

/-- The function can be called, and there are no rounds. -/
def withInsisting (body : List Stmt) (clock : Nat → Nat) : Setting where
  registry := [("f", insisting body)]
  watchdog := { clock }
  rounds := 0

/-- A clock that stands still. -/
def frozen (_ : Nat) : Nat := 0

/-- A clock that goes back from nine. -/
def backwards (reads : Nat) : Nat := 9 - reads

theorem run_of_cancelled_insisting :
    run (withInsisting [.simple 4 (.print [.text "b"])] frozen) [.simple 6 (.print [.call "f" []])]
        { timer := { cancelled := true } } =
      .error (.fault { cause := .cancelled, line := some 3 })
        { output := "a", timer := { reads := 1, cancelled := true } } ∧
    run (withInsisting [.simple 4 (.print [.text "b"])] frozen) [.simple 6 (.print [.call "f" []])]
        { timer := { cancelled := true } } =
      run (withInsisting [] backwards) [.simple 6 (.print [.call "f" []])]
        { timer := { cancelled := true } } := by
  have hregistry : (withInsisting [.simple 4 (.print [.text "b"])] frozen).registry.emptied =
      (withInsisting [] backwards).registry.emptied := rfl
  exact ⟨rfl, (run_of_cancelled rfl hregistry rfl rfl).1⟩

end Exec

end Portugol
