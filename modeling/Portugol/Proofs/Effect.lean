import Portugol.Proofs.Frames
import Portugol.Proofs.Scope

/-!
# Effects

An *effect* relates the machine before a step to the machine after it, however the
step ends. It is said of the simple changes to a machine (`Effect`) and of calls
(`CallEffect`), and then it is known of everything that can be run.

* `Effect.keeps_execBody`: statements have an effect if calls have it and what the
  statements write has it.
* `CallEffect.keeps_execBody`, `CallEffect.keeps_eval`: statements and expressions
  have the effects that calls have.
* `forward`: what has been printed stays, and inputs are taken from the front.
-/

namespace Portugol

theorem Inputs.next_eq_ok {inputs inputs' : Inputs} {target text : String}
    (h : inputs.next target = .ok (text, inputs')) :
    ∃ rest, inputs.queue = text :: rest ∧ inputs' = { inputs with queue := rest } := by
  rw [next] at h
  split at h
  · rename_i first rest hqueue
    cases h
    exact ⟨rest, hqueue, rfl⟩
  · split at h <;> cases h

theorem Environment.pop_modifyInnermost {env : Environment} (h : env.inCall = true)
    (f : Scope → Scope) : (env.modifyInnermost f).pop = env.pop := by
  rw [modifyInnermost]
  split
  · rename_i hframes
    exact absurd hframes (inCall_iff.1 h)
  · rename_i frame rest hframes
    rw [pop, pop, hframes]
    rfl

namespace Exec

open Environment

variable {α β : Type} {W : Write → Prop} {s : Setting} {m m' : Machine} {params : List String}
  {values : List Value}

/-! ## Steps that write, and calls -/

theorem assign_apply (name : String) (value : Value) (m : Machine) :
    assign name value m = .ok () { m with env := m.env.write name value } := by
  have happ : assign name value m =
      (if name == resultName && m.env.inCall then
        (modify fun m => { m with env := m.env.define name value } : Exec Unit)
      else modify fun m => { m with env := m.env.assign name value }) m := rfl
  rw [happ, write]
  split <;> rfl

theorem assignElement_apply (name : String) (key : ArrayKey) (value : Value) (m : Machine) :
    assignElement name key value m =
      match m.env.writeElement name key value with
      | .ok env => .ok () { m with env }
      | .error fault => .error (.fault fault) m := by
  have hwritten : assigned? name m = .ok (m.env.written? name) m := rfl
  rw [assignElement, bind_of_ok hwritten, writeElement]
  cases m.env.written? name with
  | none => exact assign_apply name _ m
  | some current =>
    cases current with
    | array elements => exact assign_apply name _ m
    | number _ | text _ | logical _ => rfl

theorem nextInput_of_ok {target text : String} {inputs : Inputs}
    (h : m.inputs.next target = .ok (text, inputs)) :
    nextInput target m = .ok text { m with inputs } := by
  rcases nextInput_cases target m with ⟨_, _, hnext, hm⟩ | ⟨_, hnext, _⟩
  · cases h.symm.trans hnext
    exact hm
  · cases h.symm.trans hnext

theorem nextInput_of_error {target : String} {fault : Fault}
    (h : m.inputs.next target = .error fault) :
    nextInput target m = .error (.fault fault) m := by
  rcases nextInput_cases target m with ⟨_, _, hnext, _⟩ | ⟨_, hnext, hm⟩
  · cases h.symm.trans hnext
  · cases h.symm.trans hnext
    exact hm

theorem KeepsFrames.of_error {x : Exec α} (hx : KeepsFrames x) {stop : Stop}
    (h : x m = .error stop m') : Balanced m m' :=
  after_of_error h ▸ hx m

namespace Balanced

theorem inCall_iff (h : Balanced m m') : m'.env.inCall = true ↔ m.env.inCall = true := by
  rw [Environment.inCall_iff, Environment.inCall_iff, ← List.length_pos_iff,
    ← List.length_pos_iff, h.frames.length]

theorem inCall_of_entering (h : Balanced (entering params values m) m') :
    m'.env.inCall = true := by
  have hpush : SameFrames m.env.push (entering params values m).env := sameFrames_foldl_define _ _
  rw [Environment.inCall_iff, ← List.length_pos_iff, h.frames.length, hpush.length]
  exact Nat.succ_pos _

/-- When a call is left, the frames are those that there were before it. -/
theorem frames_leave (h : Balanced (entering params values m) m') :
    m'.leave.env.frames = m.env.frames := by
  have hpush : SameFrames m.env.push (entering params values m).env := sameFrames_foldl_define _ _
  exact (hpush.trans h.frames).below

end Balanced

/-- A call whose body keeps the frames gives what is the result when the body is done,
    and leaves the frame. -/
theorem activation_of_keepsFrames {x : Exec Flow} (hx : KeepsFrames x) (params : List String)
    (values : List Value) (m : Machine) :
    activation params values x m =
      match x (entering params values m) with
      | .ok _ m' => .ok (m'.env.getLocal? resultName) m'.leave
      | .error stop m' => .error stop m'.leave := by
  rw [activation_apply]
  cases h : x (entering params values m) with
  | error stop m' => rfl
  | ok flow m' =>
    have hcall : m'.env.inCall = true := (hx.of_ok h).inCall_of_entering
    have hpop : (m'.env.take resultName).2.pop = m'.env.pop := pop_modifyInnermost hcall _
    dsimp only
    rw [hpop]
    rfl

theorem after_activation {x : Exec Flow} (hx : KeepsFrames x) (params : List String)
    (values : List Value) (m : Machine) :
    (activation params values x).after m = (x.after (entering params values m)).leave := by
  rw [after, activation_of_keepsFrames hx, after]
  cases x (entering params values m) <;> rfl

theorem env_entering (params : List String) (values : List Value) (m : Machine) :
    (entering params values m).env = m.env.enter params values :=
  foldl_define_push m.env params values

theorem exists_timer_after_checkLoop (s : Setting) (started : Nat) (m : Machine) :
    ∃ timer, (checkLoop s started).after m = { m with timer } := by
  rcases checkLoop_cases s started m with ⟨_, timer, _, h⟩ | ⟨_, timer, _, h⟩
  · exact ⟨timer, after_of_ok h⟩
  · exact ⟨timer, after_of_error h⟩

/-! ## Effects -/

/-- What every step does to a machine that writes nothing else than what is in `W`,
    calls left aside. -/
structure Effect (W : Write → Prop) where
  holds : Machine → Machine → Prop
  refl (m : Machine) : holds m m
  trans {m m₁ m' : Machine} : Balanced m m₁ → holds m m₁ → holds m₁ m' → holds m m'
  print (m : Machine) (text : String) : holds m { m with output := m.output ++ text }
  input {m : Machine} {text : String} {rest : List String} : m.inputs.queue = text :: rest →
    holds m { m with inputs := { m.inputs with queue := rest } }
  timer (m : Machine) (timer : Timer) : holds m { m with timer }
  write (m : Machine) {name : String} (value : Value) : W (.var name) →
    holds m { m with env := m.env.write name value }
  result (m : Machine) (value : Value) : W .result →
    holds m { m with env := m.env.define resultName value }

/-- An effect that a call has if its body has it. -/
structure CallEffect extends Effect fun _ => True where
  call {params : List String} {values : List Value} {m m' : Machine} :
    Balanced (entering params values m) m' → holds (entering params values m) m' →
    holds m m'.leave

namespace Effect

/-- A step that has the effect, and keeps the frames. -/
def Keeps (E : Effect W) (x : Exec α) : Prop :=
  ∀ m, Balanced m (x.after m) ∧ E.holds m (x.after m)

theorem Keeps.frames {E : Effect W} {x : Exec α} (h : E.Keeps x) : KeepsFrames x :=
  fun m => (h m).1

/-- Every step has the effect. -/
def localCongruence (E : Effect W) : LocalCongruence W where
  rel x _ := E.Keeps x
  pure _ m := ⟨.refl m, E.refl m⟩
  bind {_ _ x _ f _} hx hf m := by
    rcases after_bind x f m with ⟨a, _, hb⟩ | hb
    · obtain ⟨hbalanced, hholds⟩ := hx m
      obtain ⟨hbalanced', hholds'⟩ := hf a (x.after m)
      rw [hb]
      exact ⟨hbalanced.trans hbalanced', E.trans hbalanced hholds hholds'⟩
    · rw [hb]
      exact hx m
  fault _ m := ⟨.refl m, E.refl m⟩
  located line hx m := by
    rw [after_located]
    exact hx m
  print text m := ⟨Congruence.balanced.print text m, E.print m text⟩
  nextInput target m := by
    refine ⟨Congruence.balanced.nextInput target m, ?_⟩
    rcases nextInput_cases target m with ⟨text, inputs, hnext, h⟩ | ⟨_, _, h⟩
    · obtain ⟨rest, hqueue, rfl⟩ := Inputs.next_eq_ok hnext
      rw [after_of_ok h]
      exact E.input hqueue
    · rw [after_of_error h]
      exact E.refl m
  lookup name m := by
    rw [after_lookup]
    exact ⟨.refl m, E.refl m⟩
  assign name value hw m := by
    refine ⟨keepsFrames_assign name value m, ?_⟩
    rw [after_of_ok (assign_apply name value m)]
    exact E.write m value hw
  assignElement name key value hw m := by
    refine ⟨Congruence.balanced.assignElement name key value trivial m, ?_⟩
    have happ := assignElement_apply name key value m
    cases helement : m.env.writeElement name key value with
    | ok env =>
      rw [helement] at happ
      obtain ⟨array, rfl⟩ := exists_write_of_writeElement helement
      rw [after_of_ok happ]
      exact E.write m array hw
    | error fault =>
      rw [helement] at happ
      rw [after_of_error happ]
      exact E.refl m
  leaveResult value hw m :=
    ⟨Congruence.balanced.leaveResult value trivial m, E.result m value hw⟩
  checkDepth maxDepth m := by
    rcases checkDepth_cases maxDepth m with ⟨_, h⟩ | ⟨_, h⟩
    · rw [after_of_ok h]
      exact ⟨.refl m, E.refl m⟩
    · rw [after_of_error h]
      exact ⟨.refl m, E.refl m⟩

theorem Keeps.bind {E : Effect W} {x : Exec α} {f : α → Exec β} (hx : E.Keeps x)
    (hf : ∀ a, E.Keeps (f a)) : E.Keeps (x >>= f) :=
  E.localCongruence.bind (y := x) (g := f) hx hf

theorem Keeps.located {E : Effect W} {x : Exec α} (hx : E.Keeps x) (line : Nat) :
    E.Keeps (located line x) :=
  E.localCongruence.located (y := x) line hx

theorem keeps_pure (E : Effect W) (a : α) : E.Keeps (pure a) := E.localCongruence.pure a

theorem keeps_throw (E : Effect W) (stop : Stop) : E.Keeps (throw stop : Exec α) :=
  fun m => ⟨.refl m, E.refl m⟩

theorem keeps_startLoop (E : Effect W) (s : Setting) : E.Keeps (startLoop s) :=
  fun m => ⟨keepsFrames_startLoop s m, E.timer m _⟩

theorem keeps_checkLoop (E : Effect W) (s : Setting) (started : Nat) :
    E.Keeps (checkLoop s started) := by
  intro m
  refine ⟨keepsFrames_checkLoop s started m, ?_⟩
  obtain ⟨timer, h⟩ := exists_timer_after_checkLoop s started m
  rw [h]
  exact E.timer m timer

open LocalCongruence

theorem loops (E : Effect W) (s : Setting) : E.localCongruence.Loops s s :=
  loops_of_le (E.keeps_startLoop s) (E.keeps_checkLoop s) (Nat.le_refl _) (E.keeps_throw _)
    fun h => absurd h (Nat.lt_irrefl _)

/-- Statements have an effect, if callables have it and what the statements write has
    it. -/
theorem keeps_execBody (E : Effect W) {invoke : Invoker}
    (hi : ∀ callable values, E.Keeps (invoke callable values)) {body : List Stmt}
    (hw : ∀ w ∈ bodyWrites body, W w) : E.Keeps (execBody s invoke body) := by
  have hcalls : E.localCongruence.Calls s s invoke invoke :=
    calls_of_invoke rfl rfl fun _ callable values _ => hi callable values
  exact rel_execBody_of_writes hcalls body (fun _ => E.loops s) hw

theorem keeps_run (E : Effect W)
    (hi : ∀ room callable values, E.Keeps (invoker s room callable values)) {main : List Stmt}
    (hw : ∀ w ∈ bodyWrites main, W w) : E.Keeps (run s main) :=
  fun m => (E.keeps_execBody (hi (s.maxDepth - m.depth)) hw).bind (fun _ => E.keeps_pure ()) m

end Effect

namespace CallEffect

open LocalCongruence Congruence

/-- Every step has the effect, calls included. -/
def congruence (E : CallEffect) : Congruence where
  toLocalCongruence := E.localCongruence
  activation {x _} params values hx m := by
    obtain ⟨hbalanced, hholds⟩ := hx (entering params values m)
    rw [after_activation (Effect.Keeps.frames hx)]
    exact ⟨hbalanced.of_entering, E.call hbalanced hholds⟩

theorem keeps_activation (E : CallEffect) {x : Exec Flow} (hx : E.Keeps x) (params : List String)
    (values : List Value) : E.Keeps (activation params values x) :=
  E.congruence.activation (y := x) params values hx

theorem calls (E : CallEffect) (s : Setting) (room : Nat) :
    E.congruence.Calls s s (invoker s room) (invoker s room) :=
  calls_invoker rfl rfl (fun _ _ _ _ => E.loops s) room

theorem keeps_execBody (E : CallEffect) (s : Setting) (room : Nat) (body : List Stmt) :
    E.Keeps (execBody s (invoker s room) body) :=
  rel_execBody (E.calls s room) body fun _ => E.loops s

theorem keeps_eval (E : CallEffect) (s : Setting) (room : Nat) (e : Expr) :
    E.Keeps (eval s (invoker s room) e) :=
  rel_eval (E.calls s room) e

theorem keeps_run (E : CallEffect) (s : Setting) (main : List Stmt) : E.Keeps (run s main) :=
  fun m => (E.keeps_execBody s (s.maxDepth - m.depth) main).bind (fun _ => E.keeps_pure ()) m

theorem keeps_evaluate (E : CallEffect) (s : Setting) (e : Expr) : E.Keeps (evaluate s e) :=
  fun m => E.keeps_eval s (s.maxDepth - m.depth) e m

end CallEffect

/-! ## Output and inputs -/

/-- What has been printed stays, and what has not been read is at the end of what
    there was to read. -/
structure Forward (m m' : Machine) : Prop where
  output : m.output.toList <+: m'.output.toList
  inputs : m'.inputs.queue <:+ m.inputs.queue

/-- Every step only adds to the output and only takes from the inputs. -/
def forward : CallEffect where
  holds := Forward
  refl _ := ⟨List.prefix_rfl, List.suffix_rfl⟩
  trans _ h h' := ⟨h.output.trans h'.output, h'.inputs.trans h.inputs⟩
  print m text := by
    refine ⟨?_, List.suffix_rfl⟩
    rw [String.toList_append]
    exact List.prefix_append _ _
  input hqueue := by
    refine ⟨List.prefix_rfl, ?_⟩
    rw [hqueue]
    exact List.suffix_cons _ _
  timer _ _ := ⟨List.prefix_rfl, List.suffix_rfl⟩
  write _ _ _ _ := ⟨List.prefix_rfl, List.suffix_rfl⟩
  result _ _ _ := ⟨List.prefix_rfl, List.suffix_rfl⟩
  call _ h := ⟨h.output, h.inputs⟩

end Exec

end Portugol
