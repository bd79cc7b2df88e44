import Portugol.Proofs.Effect

/-!
# Simulations

Two runs of the same program, in machines that are not the same. A `Simulation` says in
which way their environments and inputs may differ, and it says of looking up and
writing variables and of taking inputs that they do not show the difference. Then
nothing that is run shows it.

The first run may stop with a fault that is *excused*, while the second one goes on.
Then all that is known is that the second one has printed no less.

* `Simulation.simulates_execBody`, `Simulation.Alike.follows_run`: what is run in
  machines that are alike ends in the same way and leaves machines that are alike, unless
  the first run stops with an excused fault.
-/

namespace Portugol.Exec

open Environment

/-- How the environments and inputs of two runs may differ, and which faults of the
    first run the second one need not have. -/
structure Simulation where
  env : Environment → Environment → Prop
  inputs : Inputs → Inputs → Prop
  excused : Fault → Prop
  orLine {fault : Fault} (line : Nat) : excused fault → excused (fault.orLine line)
  next {i j : Inputs} (target : String) : inputs i j →
    (∃ text i' j', i.next target = .ok (text, i') ∧ j.next target = .ok (text, j') ∧
      inputs i' j') ∨
    ∃ fault, i.next target = .error fault ∧ (excused fault ∨ j.next target = .error fault)
  lookup {e e' : Environment} (name : String) : env e e' →
    e.lookup name = e'.lookup name ∨ ∃ fault, e.lookup name = .error fault ∧ excused fault
  written? {e e' : Environment} (name : String) : env e e' → e.written? name = e'.written? name
  write {e e' : Environment} (name : String) (value : Value) : env e e' →
    env (e.write name value) (e'.write name value)
  define {e e' : Environment} (name : String) (value : Value) : env e e' →
    env (e.define name value) (e'.define name value)
  result {e e' : Environment} : env e e' → e.getLocal? resultName = e'.getLocal? resultName
  enter {e e' : Environment} (frame : Scope) : env e e' →
    env { e with frames := frame :: e.frames } { e' with frames := frame :: e'.frames }
  /-- When a call ends, the frames are again those from before the call. -/
  leave {e e' e₁ e₁' : Environment} : env e e' → env e₁ e₁' → e₁.pop.frames = e.frames →
    e₁'.pop.frames = e'.frames → env e₁.pop e₁'.pop

namespace Simulation

variable (S : Simulation) {α β : Type}

/-- Machines of the two runs that differ in no other way. -/
structure Alike (m n : Machine) : Prop where
  env : S.env m.env n.env
  depth : m.depth = n.depth
  output : m.output = n.output
  inputs : S.inputs m.inputs n.inputs
  timer : m.timer = n.timer

/-- The second step ends in its machine like the first one, unless that has an excuse. -/
inductive Follows (x : Exec α) (m : Machine) (y : Exec α) (n : Machine) : Prop
  | ok {a : α} {m' n' : Machine} : x m = .ok a m' → y n = .ok a n' → S.Alike m' n' → Follows x m y n
  | error {stop : Stop} {m' n' : Machine} : x m = .error stop m' → y n = .error stop n' →
    S.Alike m' n' → Follows x m y n
  | excused {fault : Fault} {m' : Machine} : x m = .error (.fault fault) m' → S.excused fault →
    m'.output.toList <+: (y.after n).output.toList → Follows x m y n

/-- Two steps that only go forward, the second of which follows the first. -/
structure Simulates (x y : Exec α) : Prop where
  first : forward.Keeps x
  second : forward.Keeps y
  follows {m n : Machine} : S.Alike m n → S.Follows x m y n

variable {S} {m n : Machine}

theorem Simulates.of_keeps {x : Exec α} (hx : forward.Keeps x)
    (h : ∀ {m n}, S.Alike m n → S.Follows x m x n) : S.Simulates x x :=
  ⟨hx, hx, h⟩

/-- Whether a step follows another one is seen from what they do in the two machines. -/
theorem Follows.congr {x x' y y' : Exec α} (h : S.Follows x m y n) (hx : x' m = x m)
    (hy : y' n = y n) : S.Follows x' m y' n := by
  cases h with
  | ok hm hn hleft => exact .ok (hx.trans hm) (hy.trans hn) hleft
  | error hm hn hleft => exact .error (hx.trans hm) (hy.trans hn) hleft
  | excused hm hexcused houtput =>
    refine .excused (hx.trans hm) hexcused ?_
    rw [after, hy]
    exact houtput

/-! ## Simple steps -/

theorem Follows.of_excused {x y : Exec α} {fault : Fault} (hy : forward.Keeps y)
    (h : S.Alike m n) (hx : x m = .error (.fault fault) m) (hexcused : S.excused fault) :
    S.Follows x m y n :=
  .excused hx hexcused (h.output ▸ (hy n).2.output)

theorem Alike.entering (h : S.Alike m n) (params : List String) (values : List Value) :
    S.Alike (entering params values m) (entering params values n) where
  env := by
    rw [env_entering, env_entering]
    exact S.enter _ h.env
  depth := congrArg (· + 1) h.depth
  output := h.output
  inputs := h.inputs
  timer := h.timer

/-- The assignment of an element fails in both environments, or in neither of them. -/
theorem writeElement_cases {e e' : Environment} (h : S.env e e') (name : String)
    (key : ArrayKey) (value : Value) :
    (∃ e₁ e₁', e.writeElement name key value = .ok e₁ ∧ e'.writeElement name key value = .ok e₁' ∧
      S.env e₁ e₁') ∨
    ∃ fault, e.writeElement name key value = .error fault ∧
      e'.writeElement name key value = .error fault := by
  rw [writeElement, writeElement, ← S.written? name h]
  split
  · exact .inl ⟨_, _, rfl, rfl, S.write _ _ h⟩
  · exact .inr ⟨_, rfl, rfl⟩
  · exact .inl ⟨_, _, rfl, rfl, S.write _ _ h⟩

theorem follows_nextInput (h : S.Alike m n) (target : String) :
    S.Follows (nextInput target) m (nextInput target) n := by
  rcases S.next target h.inputs with ⟨text, i, j, hi, hj, hij⟩ | ⟨fault, hi, hexcused | hj⟩
  · exact .ok (nextInput_of_ok hi) (nextInput_of_ok hj) { h with inputs := hij }
  · exact .of_excused (forward.localCongruence.nextInput target) h (nextInput_of_error hi) hexcused
  · exact .error (nextInput_of_error hi) (nextInput_of_error hj) h

theorem follows_lookup (h : S.Alike m n) (name : String) :
    S.Follows (Exec.lookup name) m (Exec.lookup name) n := by
  rcases S.lookup name h.env with heq | ⟨fault, hfault, hexcused⟩
  · have hn := lookup_apply name n
    rw [← heq] at hn
    cases hm : m.env.lookup name with
    | ok value => exact .ok (by rw [lookup_apply, hm]; rfl) (by rw [hn, hm]; rfl) h
    | error fault => exact .error (by rw [lookup_apply, hm]; rfl) (by rw [hn, hm]; rfl) h
  · refine .of_excused (forward.localCongruence.lookup name) h ?_ hexcused
    rw [lookup_apply, hfault]
    rfl

theorem follows_assignElement (h : S.Alike m n) (name : String) (key : ArrayKey) (value : Value) :
    S.Follows (assignElement name key value) m (assignElement name key value) n := by
  have hm := assignElement_apply name key value m
  have hn := assignElement_apply name key value n
  rcases writeElement_cases h.env name key value with ⟨e, e', he, he', henv⟩ | ⟨fault, he, he'⟩
  · rw [he] at hm
    rw [he'] at hn
    exact .ok hm hn { h with env := henv }
  · rw [he] at hm
    rw [he'] at hn
    exact .error hm hn h

theorem follows_checkDepth (h : S.Alike m n) (maxDepth : Nat) :
    S.Follows (checkDepth maxDepth) m (checkDepth maxDepth) n := by
  rcases Nat.lt_or_ge m.depth maxDepth with hdepth | hdepth
  · exact .ok (checkDepth_of_lt hdepth) (checkDepth_of_lt (h.depth ▸ hdepth)) h
  · exact .error (checkDepth_of_le hdepth) (checkDepth_of_le (h.depth ▸ hdepth)) h

theorem follows_startLoop (h : S.Alike m n) (s : Setting) :
    S.Follows (startLoop s) m (startLoop s) n := by
  have hn : startLoop s n = .ok (s.watchdog.clock m.timer.reads)
      { n with timer := (s.watchdog.read m.timer).2 } := by
    rw [h.timer]
    rfl
  exact .ok rfl hn { h with timer := rfl }

theorem follows_checkLoop (h : S.Alike m n) (s : Setting) (started : Nat) :
    S.Follows (checkLoop s started) m (checkLoop s started) n := by
  have happ : ∀ m : Machine, checkLoop s started m =
      ofExcept (s.watchdog.check started m.timer).1
        { m with timer := (s.watchdog.check started m.timer).2 } := fun _ => rfl
  have hm := happ m
  have hn := happ n
  rw [← h.timer] at hn
  cases hverdict : (s.watchdog.check started m.timer).1 with
  | ok u =>
    rw [hverdict] at hm hn
    exact .ok hm hn { h with timer := rfl }
  | error fault =>
    rw [hverdict] at hm hn
    exact .error hm hn { h with timer := rfl }

/-! ## Steps that are put together -/

theorem Simulates.bind {x y : Exec α} {f g : α → Exec β} (hx : S.Simulates x y)
    (hf : ∀ a, S.Simulates (f a) (g a)) : S.Simulates (x >>= f) (y >>= g) := by
  refine ⟨hx.first.bind fun a => (hf a).first, hx.second.bind fun a => (hf a).second, ?_⟩
  intro m n h
  cases hx.follows h with
  | @ok a m' n' hm hn hleft =>
    have hbind : ∀ {r : EStateM.Result Stop Machine β}, f a m' = r → (x >>= f) m = r :=
      fun hr => (bind_of_ok hm).trans hr
    have hbind' : ∀ {r : EStateM.Result Stop Machine β}, g a n' = r → (y >>= g) n = r :=
      fun hr => (bind_of_ok hn).trans hr
    cases (hf a).follows hleft with
    | ok hm' hn' hleft' => exact .ok (hbind hm') (hbind' hn') hleft'
    | error hm' hn' hleft' => exact .error (hbind hm') (hbind' hn') hleft'
    | excused hm' hexcused houtput =>
      refine .excused (hbind hm') hexcused ?_
      rw [after, hbind' rfl]
      exact houtput
  | error hm hn hleft => exact .error (bind_of_error hm) (bind_of_error hn) hleft
  | excused hm hexcused houtput =>
    refine .excused (bind_of_error hm) hexcused (houtput.trans ?_)
    -- What the second run does besides only adds to the output.
    rcases after_bind y g n with ⟨a, _, hafter⟩ | hafter
    · rw [hafter]
      exact ((hf a).second _).2.output
    · exact hafter ▸ List.prefix_rfl

theorem Simulates.located {x y : Exec α} (hx : S.Simulates x y) (line : Nat) :
    S.Simulates (located line x) (located line y) := by
  refine ⟨hx.first.located line, hx.second.located line, ?_⟩
  intro m n h
  cases hx.follows h with
  | ok hm hn hleft => exact .ok (by rw [Exec.located, hm]) (by rw [Exec.located, hn]) hleft
  | @error stop _ _ hm hn hleft =>
    cases stop with
    | fault fault =>
      exact .error (by rw [Exec.located, hm]) (by rw [Exec.located, hn]) hleft
    | outOfRounds => exact .error (by rw [Exec.located, hm]) (by rw [Exec.located, hn]) hleft
  | excused hm hexcused houtput =>
    refine .excused (by rw [Exec.located, hm]) (S.orLine line hexcused) ?_
    rw [after_located]
    exact houtput

/-- A call that is left again. -/
theorem Alike.leave {params : List String} {values : List Value} {m' n' : Machine}
    (h : S.Alike m n) (hm : Balanced (Exec.entering params values m) m')
    (hn : Balanced (Exec.entering params values n) n') (hleft : S.Alike m' n') :
    S.Alike m'.leave n'.leave where
  env := S.leave h.env hleft.env hm.frames_leave hn.frames_leave
  depth := congrArg (· - 1) hleft.depth
  output := hleft.output
  inputs := hleft.inputs
  timer := hleft.timer

theorem Simulates.activation {x y : Exec Flow} (hx : S.Simulates x y) (params : List String)
    (values : List Value) : S.Simulates (activation params values x) (activation params values y) := by
  refine ⟨forward.keeps_activation hx.first params values,
    forward.keeps_activation hx.second params values, ?_⟩
  intro m n h
  have hm := activation_of_keepsFrames hx.first.frames params values m
  have hn := activation_of_keepsFrames hx.second.frames params values n
  cases hx.follows (h.entering params values) with
  | ok hm' hn' hleft =>
    rw [hm'] at hm
    rw [hn'] at hn
    dsimp only at hm hn
    rw [← S.result hleft.env] at hn
    exact .ok hm hn (h.leave (hx.first.frames.of_ok hm') (hx.second.frames.of_ok hn') hleft)
  | error hm' hn' hleft =>
    rw [hm'] at hm
    rw [hn'] at hn
    exact .error hm hn
      (h.leave (hx.first.frames.of_error hm') (hx.second.frames.of_error hn') hleft)
  | excused hm' hexcused houtput =>
    rw [hm'] at hm
    refine .excused hm hexcused ?_
    rw [after_activation hx.second.frames]
    exact houtput

variable (S)

/-- What is run in machines that are alike follows itself. -/
def congruence : Congruence where
  rel := S.Simulates
  pure a := .of_keeps (forward.keeps_pure a) fun h => .ok rfl rfl h
  bind := Simulates.bind
  fault _ := .of_keeps (forward.keeps_throw _) fun h => .error rfl rfl h
  located line hx := hx.located line
  print text := by
    refine .of_keeps (forward.localCongruence.print text) fun {m n} h => .ok rfl rfl ?_
    exact { h with output := congrArg (· ++ text) h.output }
  nextInput target :=
    .of_keeps (forward.localCongruence.nextInput target) fun h => follows_nextInput h target
  lookup name := .of_keeps (forward.localCongruence.lookup name) fun h => follows_lookup h name
  assign name value hw := by
    refine .of_keeps (forward.localCongruence.assign name value hw) fun {m n} h => ?_
    exact .ok (assign_apply name value m) (assign_apply name value n)
      { h with env := S.write name value h.env }
  assignElement name key value hw :=
    .of_keeps (forward.localCongruence.assignElement name key value hw) fun h =>
      follows_assignElement h name key value
  leaveResult value hw := by
    refine .of_keeps (forward.localCongruence.leaveResult value hw) fun h => .ok rfl rfl ?_
    exact { h with env := S.define resultName value h.env }
  checkDepth maxDepth :=
    .of_keeps (forward.localCongruence.checkDepth maxDepth) fun h => follows_checkDepth h maxDepth
  activation params values hx := hx.activation params values

/-! ## Runs -/

open LocalCongruence Congruence

theorem loops (s : Setting) : S.congruence.Loops s s := by
  have hstart : S.Simulates (startLoop s) (startLoop s) :=
    .of_keeps (forward.keeps_startLoop s) fun h => follows_startLoop h s
  have hcheck : ∀ started, S.Simulates (checkLoop s started) (checkLoop s started) := fun started =>
    .of_keeps (forward.keeps_checkLoop s started) fun h => follows_checkLoop h s started
  have hout : S.Simulates (throw .outOfRounds : Exec Flow) (throw .outOfRounds) :=
    .of_keeps (forward.keeps_throw _) fun h => .error rfl rfl h
  exact loops_of_le hstart hcheck (Nat.le_refl _) hout fun h => absurd h (Nat.lt_irrefl _)

theorem simulates_execBody (s : Setting) (room : Nat) (body : List Stmt) :
    S.Simulates (execBody s (invoker s room) body) (execBody s (invoker s room) body) :=
  rel_execBody (calls_invoker rfl rfl (fun _ _ _ _ => S.loops s) room) body fun _ => S.loops s

variable {S}

/-- Statements that are run in machines that are alike end in the same way. -/
theorem Alike.follows_run (h : S.Alike m n) (s : Setting) (main : List Stmt) :
    S.Follows (run s main) m (run s main) n := by
  have hbody := S.simulates_execBody s (s.maxDepth - m.depth) main
  have hrest := hbody.bind fun _ => S.congruence.pure ()
  have hn := run_apply s main n
  rw [← h.depth] at hn
  exact (hrest.follows h).congr (run_apply s main m) hn

end Simulation

end Portugol.Exec
