import Portugol.Proofs.Simulation

/-!
# What a callable sees

A callable that runs sees the frame of its call and the globals. The frames of its
callers are there, but what they hold makes no difference.

Its result is in the frame, too, from when it is written. Before that, its name means
the global variable with this name, if there is one. So a call depends on this global
only if it reads the result too early, and whether it does is seen where there is no
such global: there it fails.

* `callOn_cases`: a call fails at once, or it comes to the body of a callable.
* `View.callOn_cases_of_agree`: a call ends alike in machines whose globals look the same
  from a call, unless it reads a result that is lacking.
-/

namespace Portugol.Exec

open Environment

variable {α : Type} {m n : Machine}

/-! ## Calls -/

/-- How a step ends, without the machine that it leaves behind. -/
def outcome (x : Exec α) (m : Machine) : Except Stop α :=
  match x m with
  | .ok a _ => .ok a
  | .error stop _ => .error stop

theorem outcome_of_ok {x : Exec α} {m m' : Machine} {a : α} (h : x m = .ok a m') :
    x.outcome m = .ok a := by
  rw [outcome, h]

theorem outcome_of_error {x : Exec α} {m m' : Machine} {stop : Stop} (h : x m = .error stop m') :
    x.outcome m = .error stop := by
  rw [outcome, h]

/-- Calls the callable with this name on these values, from here. Gives the kind of the
    callable and the result that it has left. -/
def callOn (s : Setting) (name : String) (values : List Value) :
    Exec (CallableKind × Option Value) := do
  call s (← invokerHere s) name values.length (pure values)

/-- What a call comes to, if it does not fail at once: the body of the callable in a
    frame of its own. -/
def callBody (s : Setting) (callable : Callable) (values : List Value) (room : Nat) :
    Exec (CallableKind × Option Value) := fun m =>
  match execBody s (invoker s room) callable.body (entering callable.params values m) with
  | .ok _ m' => .ok (callable.kind, m'.env.getLocal? resultName) m'.leave
  | .error stop m' => .error stop m'.leave

theorem callBody_eq (s : Setting) (callable : Callable) (values : List Value) (room : Nat) :
    callBody s callable values room =
      (do return (callable.kind, ← invoker s (room + 1) callable values)) := by
  funext m
  have hinvoke : invoker s (room + 1) callable values m =
      match execBody s (invoker s room) callable.body (entering callable.params values m) with
      | .ok _ m' => .ok (m'.env.getLocal? resultName) m'.leave
      | .error stop m' => .error stop m'.leave :=
    activation_of_keepsFrames (keepsFrames_execBody s room callable.body) callable.params values m
  rw [callBody]
  cases h : execBody s (invoker s room) callable.body (entering callable.params values m) with
  | ok flow m' =>
    rw [h] at hinvoke
    rw [bind_of_ok hinvoke]
    rfl
  | error stop m' =>
    rw [h] at hinvoke
    rw [bind_of_error hinvoke]

/-- A call fails at once, or it comes to the body of a callable; which of them depends
    on how many calls are going on, and on nothing else of the machine. -/
theorem callOn_cases (s : Setting) (name : String) (values : List Value) (depth : Nat) :
    (∃ fault, ∀ m : Machine, m.depth = depth →
      callOn s name values m = .error (.fault fault) m) ∨
    ∃ callable room, ∀ m : Machine, m.depth = depth →
      callOn s name values m = callBody s callable values room m := by
  have happ : ∀ m : Machine, callOn s name values m =
      call s (invoker s (s.maxDepth - m.depth)) name values.length (pure values) m := fun _ => rfl
  cases hfound : Dict.get? s.registry name with
  | none =>
    refine .inl ⟨{ cause := .undefinedCallable name }, fun m _ => ?_⟩
    rw [happ, call, hfound]
    rfl
  | some callable =>
    by_cases hgiven : values.length = callable.params.length
    · have hcall : ∀ m : Machine, callOn s name values m =
          (checkDepth s.maxDepth >>= fun _ => do
            return (callable.kind, ← invoker s (s.maxDepth - m.depth) callable values)) m := by
        intro m
        rw [happ, call, hfound]
        dsimp only
        rw [if_neg (not_not_intro hgiven)]
        rfl
      rcases Nat.lt_or_ge depth s.maxDepth with hdepth | hdepth
      · refine .inr ⟨callable, s.maxDepth - depth - 1, fun m hm => ?_⟩
        have hroom : s.maxDepth - m.depth = s.maxDepth - depth - 1 + 1 := by omega
        rw [hcall, bind_of_ok (checkDepth_of_lt (hm ▸ hdepth)), hroom, callBody_eq]
      · refine .inl ⟨{ cause := .callDepthExceeded s.maxDepth }, fun m hm => ?_⟩
        rw [hcall, bind_of_error (checkDepth_of_le (hm ▸ hdepth))]
    · refine .inl ⟨{ cause := .wrongArgCount name callable.params.length values.length },
        fun m _ => ?_⟩
      rw [happ, call, hfound]
      dsimp only
      rw [if_pos hgiven]
      rfl

/-- A call leaves the frames as they were. -/
theorem frames_after_callOn (s : Setting) (name : String) (values : List Value) (m : Machine) :
    ((callOn s name values).after m).env.frames = m.env.frames := by
  rcases callOn_cases s name values m.depth with ⟨fault, hfault⟩ | ⟨callable, room, hbody⟩
  · rw [after_of_error (hfault m rfl)]
  · have hkeeps := keepsFrames_execBody s room callable.body
    rw [after, hbody m rfl, callBody]
    cases h : execBody s (invoker s room) callable.body (entering callable.params values m) with
    | ok flow m' => exact (hkeeps.of_ok h).frames_leave
    | error stop m' => exact (hkeeps.of_error h).frames_leave

/-! ## What a callable sees -/

/-- A way in which the globals of two runs may differ. From a call they look the same,
    except perhaps that the first ones lack a result that the second ones have. -/
structure View where
  same : Scope → Scope → Prop
  /-- Whether the first globals may lack the result. -/
  mayLack : Prop
  get? {g g' : Scope} (name : String) : same g g' → Dict.get? g name = Dict.get? g' name ∨
    mayLack ∧ name = resultName ∧ Dict.get? g name = none
  insert {g g' : Scope} {name : String} (value : Value) : name ≠ resultName → same g g' →
    same (Dict.insert g name value) (Dict.insert g' name value)

namespace View

variable (V : View)

theorem get?_of_ne {g g' : Scope} {name : String} (h : V.same g g') (hname : name ≠ resultName) :
    Dict.get? g name = Dict.get? g' name :=
  (V.get? name h).resolve_right fun hlack => hname hlack.2.1

/-- Environments in a call that differ in the frames of the callers, and in the globals
    as the view allows it. -/
inductive Env : Environment → Environment → Prop
  | intro {g g' : Scope} (frame : Scope) (rest rest' : List Scope) : V.same g g' →
    Env ⟨g, frame :: rest⟩ ⟨g', frame :: rest'⟩

variable {V} {e e' : Environment}

theorem Env.globals (h : V.Env e e') : V.same e.globals e'.globals := by
  obtain ⟨frame, rest, rest', hsame⟩ := h
  exact hsame

theorem Env.inCall (h : V.Env e e') : e.inCall = true ∧ e'.inCall = true := by
  obtain ⟨frame, rest, rest', _⟩ := h
  exact ⟨rfl, rfl⟩

theorem Env.getLocal? (h : V.Env e e') (name : String) :
    e.getLocal? name = e'.getLocal? name := by
  obtain ⟨frame, rest, rest', _⟩ := h
  rfl

theorem Env.get? (h : V.Env e e') (name : String) :
    e.get? name = e'.get? name ∨ V.mayLack ∧ name = resultName ∧ e.get? name = none := by
  obtain @⟨g, g', frame, rest, rest', hsame⟩ := h
  have hget : ∀ (g : Scope) (rest : List Scope), Environment.get? ⟨g, frame :: rest⟩ name =
      (Dict.get? frame name <|> Dict.get? g name) := fun _ _ => rfl
  rw [hget, hget]
  cases hframe : Dict.get? frame name with
  | some value => exact .inl rfl
  | none => exact V.get? name hsame

theorem Env.get?_of_ne (h : V.Env e e') {name : String} (hname : name ≠ resultName) :
    e.get? name = e'.get? name :=
  (h.get? name).resolve_right fun hlack => hname hlack.2.1

theorem Env.define (h : V.Env e e') (name : String) (value : Value) :
    V.Env (e.define name value) (e'.define name value) := by
  obtain ⟨frame, rest, rest', hsame⟩ := h
  exact .intro (Dict.insert frame name value) rest rest' hsame

theorem Env.assign (h : V.Env e e') {name : String} (hname : name ≠ resultName) (value : Value) :
    V.Env (e.assign name value) (e'.assign name value) := by
  have hdefine := h.define name value
  have hlocal := h.getLocal? name
  obtain @⟨g, g', frame, rest, rest', hsame⟩ := h
  have hcontains : Dict.contains g name = Dict.contains g' name :=
    congrArg Option.isSome (V.get?_of_ne hsame hname)
  rw [Environment.assign, Environment.assign, ← hcontains, ← hlocal]
  split
  · exact .intro frame rest rest' (V.insert value hname hsame)
  · exact hdefine

variable (V)

/-- A callable that reads the result when it is lacking has an excuse. -/
def simulation : Simulation where
  env := V.Env
  inputs := Eq
  excused fault := V.mayLack ∧ fault.cause = .undefinedVariable resultName
  orLine _ h := h
  next {i _} target h := by
    subst h
    cases hnext : i.next target with
    | ok taken => exact .inl ⟨_, _, _, rfl, rfl, rfl⟩
    | error fault => exact .inr ⟨fault, rfl, .inr rfl⟩
  lookup name h := by
    rw [Environment.lookup, Environment.lookup]
    rcases h.get? name with hget | ⟨hlack, rfl, hnone⟩
    · exact .inl (by rw [hget])
    · exact .inr ⟨{ cause := .undefinedVariable resultName }, by rw [hnone], hlack, rfl⟩
  written? name h := by
    rw [Environment.written?, Environment.written?, h.inCall.1, h.inCall.2, Bool.and_true,
      h.getLocal? name]
    split
    · rfl
    · rename_i hname
      exact h.get?_of_ne fun hn => hname (beq_iff_eq.2 hn)
  write name value h := by
    rw [Environment.write, Environment.write, h.inCall.1, h.inCall.2, Bool.and_true]
    split
    · exact h.define name value
    · rename_i hname
      exact h.assign (fun hn => hname (beq_iff_eq.2 hn)) value
  define name value h := h.define name value
  result h := h.getLocal? resultName
  enter frame h := by
    obtain ⟨frame', rest, rest', hsame⟩ := h
    exact .intro frame _ _ hsame
  leave h h₁ hframes hframes' := by
    obtain ⟨frame, rest, rest', _⟩ := h
    obtain ⟨frame₁, rest₁, rest₁', hsame⟩ := h₁
    cases hframes
    cases hframes'
    exact .intro frame rest rest' hsame

end View

/-- Machines that are the same except for the frames of calls that are going on, and
    with globals for which `same` holds. -/
structure Agree (same : Scope → Scope → Prop) (m n : Machine) : Prop where
  globals : same m.env.globals n.env.globals
  depth : m.depth = n.depth
  output : m.output = n.output
  inputs : m.inputs = n.inputs
  timer : m.timer = n.timer

namespace View

variable {V : View}

theorem alike_entering (h : Agree V.same m n) (params : List String) (values : List Value) :
    V.simulation.Alike (entering params values m) (entering params values n) where
  env := by
    rw [env_entering, env_entering]
    exact .intro _ _ _ h.globals
  depth := congrArg (· + 1) h.depth
  output := h.output
  inputs := h.inputs
  timer := h.timer

theorem agree_leave (h : V.simulation.Alike m n) : Agree V.same m.leave n.leave where
  globals := h.env.globals
  depth := congrArg (· - 1) h.depth
  output := h.output
  inputs := h.inputs
  timer := h.timer

/-- A call ends alike in machines that agree in view of the callable, unless it reads the
    result where that is lacking. -/
theorem callOn_cases_of_agree (h : Agree V.same m n) (s : Setting) (name : String)
    (values : List Value) :
    ((callOn s name values).outcome m = (callOn s name values).outcome n ∧
      Agree V.same ((callOn s name values).after m) ((callOn s name values).after n)) ∨
    ∃ fault, (callOn s name values).outcome m = .error (.fault fault) ∧ V.mayLack ∧
      fault.cause = .undefinedVariable resultName := by
  rcases callOn_cases s name values m.depth with ⟨fault, hfault⟩ | ⟨callable, room, hbody⟩
  · have hm := hfault m rfl
    have hn := hfault n h.depth.symm
    rw [outcome_of_error hm, outcome_of_error hn, after_of_error hm, after_of_error hn]
    exact .inl ⟨rfl, h⟩
  · have hm := hbody m rfl
    have hn := hbody n h.depth.symm
    rw [callBody] at hm hn
    -- Where the call starts from, the machines need not be alike: there may be no frame,
    -- and then the result is a global like any other. They are alike in the call.
    cases (V.simulation.simulates_execBody s room callable.body).follows
      (alike_entering h callable.params values) with
    | ok hm' hn' hleft =>
      rw [hm'] at hm
      rw [hn'] at hn
      dsimp only at hm hn
      rw [← V.simulation.result hleft.env] at hn
      rw [outcome_of_ok hm, outcome_of_ok hn, after_of_ok hm, after_of_ok hn]
      exact .inl ⟨rfl, agree_leave hleft⟩
    | error hm' hn' hleft =>
      rw [hm'] at hm
      rw [hn'] at hn
      rw [outcome_of_error hm, outcome_of_error hn, after_of_error hm, after_of_error hn]
      exact .inl ⟨rfl, agree_leave hleft⟩
    | excused hm' hexcused _ =>
      rw [hm'] at hm
      exact .inr ⟨_, outcome_of_error hm, hexcused⟩

end View

/-! ## The frames of the callers -/

/-- The globals are the same. -/
def sameGlobals : View where
  same := Eq
  mayLack := False
  get? name h := .inl (by rw [h])
  insert value _ h := by rw [h]

/-- What the frames of the callers hold makes no difference to a call: it ends in the
    same way, with the same globals, output, inputs and time, and it leaves the frames of
    each run as they were. -/
theorem callOn_ignores_callers_frames (s : Setting) (name : String) (values : List Value)
    (h : Agree Eq m n) :
    (callOn s name values).outcome m = (callOn s name values).outcome n ∧
      Agree Eq ((callOn s name values).after m) ((callOn s name values).after n) ∧
      ((callOn s name values).after m).env.frames = m.env.frames ∧
      ((callOn s name values).after n).env.frames = n.env.frames := by
  rcases sameGlobals.callOn_cases_of_agree h s name values with ⟨hends, hagree⟩ | ⟨_, _, hlack, _⟩
  · exact ⟨hends, hagree, frames_after_callOn s name values m, frames_after_callOn s name values n⟩
  · exact hlack.elim

/-- A procedure that prints its parameter, changes a global, and then reads a variable
    that is neither its own nor global. -/
def spy : Callable where
  name := "espia"
  params := ["x"]
  body := [.simple 2 (.print [.var "x"]), .simple 3 (.assign "total" (.var "x")),
    .simple 4 (.print [.var "segredo"])]
  kind := .procedure
  line := 1

/-- A machine in two calls, the inner one of which has a secret. -/
def keeping (secret : String) : Machine where
  env := { globals := [("total", .text "t")], frames := [[("segredo", .text secret)], []] }
  depth := 2

theorem callOn_ignores_callers_frames_spy :
    (callOn { registry := [("espia", spy)], rounds := 0 } "espia" [.text "x"]).outcome
        (keeping "a") =
      .error (.fault { cause := .undefinedVariable "segredo", line := some 4 }) ∧
    Agree Eq (keeping "a") (keeping "b") ∧
    (callOn { registry := [("espia", spy)], rounds := 0 } "espia" [.text "x"]).outcome
        (keeping "a") =
      (callOn { registry := [("espia", spy)], rounds := 0 } "espia" [.text "x"]).outcome
        (keeping "b") := by
  have hagree : Agree Eq (keeping "a") (keeping "b") := ⟨rfl, rfl, rfl, rfl, rfl⟩
  exact ⟨rfl, hagree, (callOn_ignores_callers_frames _ _ _ hagree).1⟩

/-! ## The global with the name of the result -/

/-- The globals are the same, except for the one that has the name of the result. -/
def SameButResult (g g' : Scope) : Prop :=
  ∀ name ≠ resultName, Dict.get? g name = Dict.get? g' name

/-- The globals are the same, except that the first ones lack one with the name of the
    result. -/
def withoutResult : View where
  same g g' := Dict.get? g resultName = none ∧ SameButResult g g'
  mayLack := True
  get? name h := by
    by_cases hname : name = resultName
    · exact .inr ⟨trivial, hname, hname ▸ h.1⟩
    · exact .inl (h.2 name hname)
  insert {g g' name} value hname h := by
    refine ⟨(Dict.get?_insert_of_ne g value hname.symm).trans h.1, fun other hother => ?_⟩
    by_cases heq : other = name
    · rw [heq, Dict.get?_insert_self, Dict.get?_insert_self]
    · rw [Dict.get?_insert_of_ne g value heq, Dict.get?_insert_of_ne g' value heq, h.2 other hother]

/-- The global with the name of the result makes no difference to a call that never
    reads its result before it has one. Whether it does is seen from a machine `m₀` that
    has no such global: there it fails. -/
theorem callOn_ignores_global_result (s : Setting) (name : String) (values : List Value)
    {m₀ : Machine} (hm : Agree SameButResult m₀ m) (hn : Agree SameButResult m₀ n)
    (hlacks : Dict.get? m₀.env.globals resultName = none)
    (hends : ∀ fault, (callOn s name values).outcome m₀ = .error (.fault fault) →
      fault.cause ≠ .undefinedVariable resultName) :
    (callOn s name values).outcome m = (callOn s name values).outcome n ∧
      Agree SameButResult ((callOn s name values).after m) ((callOn s name values).after n) := by
  have hcall : ∀ {m}, Agree SameButResult m₀ m →
      (callOn s name values).outcome m₀ = (callOn s name values).outcome m ∧
        Agree withoutResult.same ((callOn s name values).after m₀)
          ((callOn s name values).after m) := by
    intro m h
    have hagree : Agree withoutResult.same m₀ m := { h with globals := ⟨hlacks, h.globals⟩ }
    rcases withoutResult.callOn_cases_of_agree hagree s name values with
      hsame | ⟨fault, hfault, _, hcause⟩
    · exact hsame
    · exact absurd hcause (hends fault hfault)
  obtain ⟨hm', hm''⟩ := hcall hm
  obtain ⟨hn', hn''⟩ := hcall hn
  refine ⟨hm'.symm.trans hn', ?_, hm''.depth.symm.trans hn''.depth,
    hm''.output.symm.trans hn''.output, hm''.inputs.symm.trans hn''.inputs,
    hm''.timer.symm.trans hn''.timer⟩
  exact fun other hother => (hm''.globals.2 other hother).symm.trans (hn''.globals.2 other hother)

/-- A machine outside all calls with a global that has the name of the result. -/
def holding (result : Value) : Machine where
  env := { globals := [(resultName, result)] }

theorem agree_holding (result : Value) : Agree SameButResult {} (holding result) where
  globals _ hname := (Dict.get?_insert_of_ne [] result hname).symm
  depth := rfl
  output := rfl
  inputs := rfl
  timer := rfl

/-- A function that gives its parameter, by way of the result. -/
def echo : Callable where
  name := "eco"
  params := ["x"]
  body := [.simple 2 (.assign resultName (.var "x")), .simple 3 (.ret (some (.var resultName)))]
  kind := .function
  line := 1

theorem callOn_ignores_global_result_echo :
    (callOn { registry := [("eco", echo)], rounds := 0 } "eco" [.text "x"]).outcome {} =
      .ok (.function, some (.text "x")) ∧
    (callOn { registry := [("eco", echo)], rounds := 0 } "eco" [.text "x"]).outcome
        (holding (.text "a")) =
      (callOn { registry := [("eco", echo)], rounds := 0 } "eco" [.text "x"]).outcome
        (holding (.text "b")) := by
  have hecho : (callOn { registry := [("eco", echo)], rounds := 0 } "eco" [.text "x"]).outcome {} =
      .ok (.function, some (.text "x")) := rfl
  refine ⟨hecho, (callOn_ignores_global_result _ _ _ (agree_holding _) (agree_holding _) rfl ?_).1⟩
  intro fault hfault
  cases hecho.symm.trans hfault

/-- A function that makes its result what this is already. -/
def early : Callable where
  name := "cedo"
  params := []
  body := [.simple 2 (.assign resultName (.var resultName))]
  kind := .function
  line := 1

/-- A call that reads its result too early fails, or it gives the global that has the name
    of the result. -/
theorem callOn_gives_global_result :
    Agree SameButResult {} (holding (.text "a")) ∧ (holding (.text "a")).env.frames = [] ∧
    (callOn { registry := [("cedo", early)], rounds := 0 } "cedo" []).outcome {} =
      .error (.fault { cause := .undefinedVariable resultName, line := some 2 }) ∧
    (callOn { registry := [("cedo", early)], rounds := 0 } "cedo" []).outcome
        (holding (.text "a")) =
      .ok (.function, some (.text "a")) :=
  ⟨agree_holding _, rfl, rfl, rfl⟩

end Portugol.Exec
