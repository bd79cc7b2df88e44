import Mathlib.Data.List.Forall2
import Mathlib.Logic.Equiv.Basic
import Portugol.Proofs.Dictionary
import Portugol.Proofs.Effect

/-!
# Other names for variables

A program with other names for its variables runs like the program itself. No name but
that of the result is looked at by any step, and variables and callables do not share
their names. A fault may quote the name of a variable; so what a run says when it fails
is the same up to that.

* `Environment.Renamed`: the same variables under other names. Looking up and writing
  them preserves it.
* `newNames`: this is a translation of steps, and so everything that is run respects it.
* `Program.run_rename`: the run of a program with other names prints the same, ends in the
  same way, and leaves the same variables under their other names.
-/

namespace Portugol

variable {ρ : String → String}

/-- The callables with other names for their variables and parameters. -/
def Registry.rename (ρ : String → String) (registry : Registry) : Registry :=
  registry.map fun entry => (entry.1, entry.2.rename ρ)

/-- The program with other names for its variables and parameters. -/
def Program.rename (ρ : String → String) (program : Program) : Program where
  main := bodyRename ρ program.main
  registry := program.registry.rename ρ

/-! ## Faults -/

/-- Faults of one kind that are blamed on the same line. -/
structure Fault.Alike (fault fault' : Fault) : Prop where
  kind : fault.kind = fault'.kind
  line : fault.line = fault'.line

theorem Fault.Alike.refl (fault : Fault) : fault.Alike fault := ⟨rfl, rfl⟩

theorem Fault.Alike.orLine {fault fault' : Fault} (h : fault.Alike fault') (line : Nat) :
    (fault.orLine line).Alike (fault'.orLine line) where
  kind := h.kind
  line := congrArg (· <|> some line) h.line

/-- The same end of a run, up to what a fault says. -/
inductive Stop.Alike : Stop → Stop → Prop
  | fault {fault fault' : Fault} : fault.Alike fault' → Alike (.fault fault) (.fault fault')
  | outOfRounds : Alike .outOfRounds .outOfRounds

/-! ## Environments -/

/-- The second environment has the same variables as the first one, under other names. -/
structure Environment.Renamed (ρ : String → String) (env env' : Environment) : Prop where
  globals : Dict.Renamed ρ env.globals env'.globals
  frames : List.Forall₂ (Dict.Renamed ρ) env.frames env'.frames

namespace Environment.Renamed

variable {env env' : Environment}

theorem inCall (h : env.Renamed ρ env') : env'.inCall = env.inCall := by
  obtain ⟨globals, frames⟩ := env
  obtain ⟨globals', frames'⟩ := env'
  cases h.frames <;> rfl

theorem innermost (h : env.Renamed ρ env') : Dict.Renamed ρ env.innermost env'.innermost := by
  obtain ⟨globals, frames⟩ := env
  obtain ⟨globals', frames'⟩ := env'
  cases h.frames with
  | nil => exact h.globals
  | cons hframe _ => exact hframe

theorem getLocal? (h : env.Renamed ρ env') (name : String) :
    env'.getLocal? (ρ name) = env.getLocal? name :=
  h.innermost.get? name

theorem get? (h : env.Renamed ρ env') (name : String) : env'.get? (ρ name) = env.get? name := by
  rw [Environment.get?, Environment.get?, h.getLocal?, h.globals.get?]

theorem modifyInnermost {f f' : Scope → Scope} (h : env.Renamed ρ env')
    (hf : ∀ {scope scope'}, Dict.Renamed ρ scope scope' → Dict.Renamed ρ (f scope) (f' scope')) :
    (env.modifyInnermost f).Renamed ρ (env'.modifyInnermost f') := by
  obtain ⟨globals, frames⟩ := env
  obtain ⟨globals', frames'⟩ := env'
  cases h.frames with
  | nil => exact ⟨hf h.globals, .nil⟩
  | cons hframe hrest => exact ⟨h.globals, .cons (hf hframe) hrest⟩

theorem pop (h : env.Renamed ρ env') : env.pop.Renamed ρ env'.pop := by
  obtain ⟨globals, frames⟩ := env
  obtain ⟨globals', frames'⟩ := env'
  cases h.frames with
  | nil => exact h
  | cons _ hrest => exact ⟨h.globals, hrest⟩

variable (hρ : Function.Injective ρ)
include hρ

theorem define (h : env.Renamed ρ env') (name : String) (value : Value) :
    (env.define name value).Renamed ρ (env'.define (ρ name) value) :=
  h.modifyInnermost fun hscope => hscope.insert hρ name value

theorem take (h : env.Renamed ρ env') (name : String) :
    (env.take name).2.Renamed ρ (env'.take (ρ name)).2 :=
  h.modifyInnermost fun hscope => hscope.erase hρ name

theorem assign (h : env.Renamed ρ env') (name : String) (value : Value) :
    (env.assign name value).Renamed ρ (env'.assign (ρ name) value) := by
  rw [Environment.assign, Environment.assign, h.getLocal?, Dict.contains, Dict.contains,
    h.globals.get?]
  split
  · exact ⟨h.globals.insert hρ name value, h.frames⟩
  · exact h.define hρ name value

theorem enter (h : env.Renamed ρ env') (params : List String) (values : List Value) :
    (env.enter params values).Renamed ρ (env'.enter (params.map ρ) values) := by
  refine ⟨h.globals, .cons ?_ h.frames⟩
  rw [List.zip_map_left]
  exact .ofList hρ (params.zip values)

variable (hresult : ρ resultName = resultName)
include hresult

theorem beq_resultName (name : String) : (ρ name == resultName) = (name == resultName) := by
  rw [Bool.eq_iff_iff, beq_iff_eq, beq_iff_eq]
  constructor
  · exact fun h => hρ (h.trans hresult.symm)
  · rintro rfl
    exact hresult

/-- Only the name of the result is looked at, and it stays. -/
theorem write (h : env.Renamed ρ env') (name : String) (value : Value) :
    (env.write name value).Renamed ρ (env'.write (ρ name) value) := by
  rw [Environment.write, Environment.write, beq_resultName hρ hresult, h.inCall]
  split
  · exact h.define hρ name value
  · exact h.assign hρ name value

theorem written? (h : env.Renamed ρ env') (name : String) :
    env'.written? (ρ name) = env.written? name := by
  rw [Environment.written?, Environment.written?, beq_resultName hρ hresult, h.inCall,
    h.getLocal?, h.get?]

end Environment.Renamed

/-! ## Steps -/

/-- The second machine is the first one with other names for the variables. -/
structure Machine.Renamed (ρ : String → String) (m n : Machine) : Prop where
  env : m.env.Renamed ρ n.env
  depth : m.depth = n.depth
  output : m.output = n.output
  inputs : m.inputs = n.inputs
  timer : m.timer = n.timer

namespace Exec

variable {α β : Type} {m n : Machine}

/-- The same end of a step, up to the names of variables. -/
inductive EndsAlike (ρ : String → String) :
    EStateM.Result Stop Machine α → EStateM.Result Stop Machine α → Prop
  | ok {a : α} {m n : Machine} : m.Renamed ρ n → EndsAlike ρ (.ok a m) (.ok a n)
  | error {stop stop' : Stop} {m n : Machine} : stop.Alike stop' → m.Renamed ρ n →
    EndsAlike ρ (.error stop m) (.error stop' n)

/-- In a machine with other names, the second step does what the first one does. -/
def RunsAlike (ρ : String → String) (x y : Exec α) : Prop :=
  ∀ ⦃m n : Machine⦄, m.Renamed ρ n → EndsAlike ρ (x m) (y n)

namespace RunsAlike

theorem pure (a : α) : RunsAlike ρ (pure a) (pure a) := fun _ _ h => .ok h

theorem throw {stop stop' : Stop} (h : stop.Alike stop') :
    RunsAlike ρ (throw stop : Exec α) (throw stop') :=
  fun _ _ hm => .error h hm

/-- Causes of one kind may differ in the names that they quote. -/
theorem fail {cause cause' : Cause} (h : cause.kind = cause'.kind) :
    RunsAlike ρ (fail cause : Exec α) (fail cause') :=
  throw (.fault ⟨h, rfl⟩)

theorem bind {x y : Exec α} {f g : α → Exec β} (hx : RunsAlike ρ x y)
    (hf : ∀ a, RunsAlike ρ (f a) (g a)) : RunsAlike ρ (x >>= f) (y >>= g) := by
  intro m n h
  have hend := hx h
  cases hm : x m with
  | ok a m' =>
    rw [hm] at hend
    cases hn : y n with
    | error stop n' =>
      rw [hn] at hend
      cases hend
    | ok b n' =>
      rw [hn] at hend
      rw [bind_of_ok hm, bind_of_ok hn]
      cases hend with
      | ok hleft => exact hf a hleft
  | error stop m' =>
    rw [hm] at hend
    cases hn : y n with
    | ok b n' =>
      rw [hn] at hend
      cases hend
    | error stop' n' =>
      rw [hn] at hend
      rw [bind_of_error hm, bind_of_error hn]
      cases hend with
      | error hstop hleft => exact .error hstop hleft

theorem located {x y : Exec α} (hx : RunsAlike ρ x y) (line : Nat) :
    RunsAlike ρ (located line x) (located line y) := by
  intro m n h
  have hend := hx h
  rw [Exec.located, Exec.located]
  generalize x m = result at hend
  generalize y n = result' at hend
  cases hend with
  | ok hleft => exact .ok hleft
  | error hstop hleft =>
    cases hstop with
    | fault hfault => exact .error (.fault (hfault.orLine line)) hleft
    | outOfRounds => exact .error .outOfRounds hleft

theorem print (text : String) : RunsAlike ρ (print text) (print text) := fun _ _ h =>
  .ok { h with output := congrArg (· ++ text) h.output }

theorem lookup (name : String) : RunsAlike ρ (lookup name) (lookup (ρ name)) := by
  intro m n h
  rw [lookup_apply, lookup_apply, Environment.lookup, Environment.lookup, h.env.get?]
  split
  · exact .ok h
  · exact .error (.fault ⟨rfl, rfl⟩) h

theorem lookupElement (name : String) (key : ArrayKey) :
    RunsAlike ρ (lookupElement name key) (lookupElement (ρ name) key) := by
  refine (lookup name).bind fun value => ?_
  cases value with
  | array elements =>
    dsimp only
    cases Dict.get? elements key with
    | some value => exact pure value
    | none => exact fail rfl
  | number _ | text _ | logical _ => exact fail rfl

/-- What is taken has nothing to do with the name of the target. -/
theorem nextInput (target target' : String) :
    RunsAlike ρ (nextInput target) (nextInput target') := by
  intro m n h
  cases hqueue : m.inputs.queue with
  | cons text rest =>
    have hm : m.inputs.next target = .ok (text, { m.inputs with queue := rest }) := by
      rw [Inputs.next, hqueue]
    have hn : n.inputs.next target' = .ok (text, { m.inputs with queue := rest }) := by
      rw [← h.inputs, Inputs.next, hqueue]
    rw [nextInput_of_ok hm, nextInput_of_ok hn]
    exact .ok { h with inputs := rfl }
  | nil =>
    have hm : ∃ fault fault', m.inputs.next target = .error fault ∧
        n.inputs.next target' = .error fault' ∧ fault.Alike fault' := by
      rw [← h.inputs, Inputs.next, Inputs.next, hqueue]
      dsimp only
      split
      · exact ⟨_, _, rfl, rfl, .refl _⟩
      · exact ⟨_, _, rfl, rfl, rfl, rfl⟩
    obtain ⟨fault, fault', hm, hn, hfault⟩ := hm
    rw [nextInput_of_error hm, nextInput_of_error hn]
    exact .error (.fault hfault) h

theorem checkDepth (maxDepth : Nat) :
    RunsAlike ρ (checkDepth maxDepth) (checkDepth maxDepth) := by
  intro m n h
  rcases Nat.lt_or_ge m.depth maxDepth with hdepth | hdepth
  · rw [checkDepth_of_lt hdepth, checkDepth_of_lt (h.depth ▸ hdepth)]
    exact .ok h
  · rw [checkDepth_of_le hdepth, checkDepth_of_le (h.depth ▸ hdepth)]
    exact .error (.fault (.refl _)) h

theorem startLoop {s s' : Setting} (hw : s.watchdog = s'.watchdog) :
    RunsAlike ρ (startLoop s) (startLoop s') := by
  intro m n h
  have happ : ∀ (s : Setting) (m : Machine), Exec.startLoop s m =
      .ok (s.watchdog.read m.timer).1 { m with timer := (s.watchdog.read m.timer).2 } :=
    fun _ _ => rfl
  rw [happ, happ, ← hw, ← h.timer]
  exact .ok { h with timer := rfl }

theorem checkLoop {s s' : Setting} (hw : s.watchdog = s'.watchdog) (started : Nat) :
    RunsAlike ρ (checkLoop s started) (checkLoop s' started) := by
  intro m n h
  have happ : ∀ (s : Setting) (m : Machine), Exec.checkLoop s started m =
      ofExcept (s.watchdog.check started m.timer).1
        { m with timer := (s.watchdog.check started m.timer).2 } := fun _ _ => rfl
  rw [happ, happ, ← hw, ← h.timer]
  cases (s.watchdog.check started m.timer).1 with
  | ok => exact .ok { h with timer := rfl }
  | error fault => exact .error (.fault (.refl _)) { h with timer := rfl }

variable (hρ : Function.Injective ρ) (hresult : ρ resultName = resultName)
include hρ hresult

theorem assign (name : String) (value : Value) :
    RunsAlike ρ (assign name value) (assign (ρ name) value) := by
  intro m n h
  rw [assign_apply, assign_apply]
  exact .ok { h with env := h.env.write hρ hresult name value }

theorem assignElement (name : String) (key : ArrayKey) (value : Value) :
    RunsAlike ρ (assignElement name key value) (assignElement (ρ name) key value) := by
  intro m n h
  rw [assignElement_apply, assignElement_apply, Environment.writeElement,
    Environment.writeElement, h.env.written? hρ hresult]
  cases m.env.written? name with
  | none => exact .ok { h with env := h.env.write hρ hresult name _ }
  | some current =>
    cases current with
    | array elements => exact .ok { h with env := h.env.write hρ hresult name _ }
    | number _ | text _ | logical _ => exact .error (.fault ⟨rfl, rfl⟩) h

theorem leaveResult (value : Value) : RunsAlike ρ (leaveResult value) (leaveResult value) := by
  intro m n h
  have henv := h.env.define hρ resultName value
  rw [hresult] at henv
  exact .ok { h with env := henv }

theorem activation {x y : Exec Flow} (hx : RunsAlike ρ x y) (params : List String)
    (values : List Value) :
    RunsAlike ρ (activation params values x) (activation (params.map ρ) values y) := by
  intro m n h
  have hentering : (entering params values m).Renamed ρ (entering (params.map ρ) values n) := by
    refine { h with env := ?_, depth := congrArg (· + 1) h.depth }
    rw [env_entering, env_entering]
    exact h.env.enter hρ params values
  have hend := hx hentering
  rw [activation_apply, activation_apply]
  generalize x (entering params values m) = result at hend
  generalize y (entering (params.map ρ) values n) = result' at hend
  cases hend with
  | @ok flow m' n' hleft =>
    have htake := hleft.env.take hρ resultName
    have hvalue := hleft.env.getLocal? resultName
    rw [hresult] at htake hvalue
    have hsame : (n'.env.take resultName).1 = (m'.env.take resultName).1 := hvalue
    dsimp only
    rw [hsame]
    exact .ok { hleft with env := htake.pop, depth := congrArg (· - 1) hleft.depth }
  | error hstop hleft =>
    exact .error hstop { hleft with env := hleft.env.pop, depth := congrArg (· - 1) hleft.depth }

end RunsAlike

variable (hρ : Function.Injective ρ) (hresult : ρ resultName = resultName)

/-- Other names for variables are a translation of steps. -/
def newNames : Translation ρ where
  rel := RunsAlike ρ
  pure := .pure
  bind := .bind
  fault _ := .throw (.fault (.refl _))
  located line hx := hx.located line
  print := .print
  nextInput _ := .nextInput _ _
  lookup := .lookup
  lookupElement := .lookupElement
  assign name value _ := .assign hρ hresult name value
  assignElement name key value _ := .assignElement hρ hresult name key value
  leaveResult value _ := .leaveResult hρ hresult value
  checkDepth := .checkDepth
  activation params values hx := hx.activation hρ hresult params values

include hρ hresult

/-! ## Runs -/

/-- What is run from machines with the same variables under other names ends alike. -/
theorem runsAlike_run (s s' : Setting) (hregistry : s'.registry = s.registry.rename ρ)
    (hw : s.watchdog = s'.watchdog) (hdepth : s.maxDepth = s'.maxDepth)
    (hrounds : s.rounds = s'.rounds) (main : List Stmt) :
    RunsAlike ρ (run s main) (run s' (bodyRename ρ main)) := by
  have hloops : (newNames hρ hresult).Loops s s' :=
    LocalTranslation.loops_of_le (.startLoop hw) (.checkLoop hw) (Nat.le_of_eq hrounds)
      (.throw .outOfRounds) fun hlt => absurd hlt (hrounds ▸ Nat.lt_irrefl _)
  have hregistered : LocalTranslation.Registered ρ s s' := by
    intro name
    rw [hregistry]
    exact Dict.get?_map (Callable.rename ρ) s.registry name
  intro m n h
  have hcalls := (newNames hρ hresult).calls_invoker hregistered hdepth (fun _ _ _ _ => hloops)
    (s.maxDepth - m.depth)
  have hbody := LocalTranslation.rel_execBody hcalls main (fun _ => hloops) fun _ _ => trivial
  rw [run_apply, run_apply, ← hdepth, ← h.depth]
  exact RunsAlike.bind hbody (fun _ => .pure ()) h

end Exec

/-- The second run has printed the same as the first one and has ended in the same way, and
    its globals are those of the first one under other names. -/
structure Ending.Renamed (ρ : String → String) (ending ending' : Ending) : Prop where
  output : ending'.output = ending.output
  fault : Option.Rel Fault.Alike ending.fault ending'.fault
  globals : ending'.globals = Dict.mapKeys ρ ending.globals

theorem Machine.Renamed.ending (hρ : Function.Injective ρ) {m n : Machine} (h : m.Renamed ρ n)
    {fault fault' : Option Fault} (hfault : Option.Rel Fault.Alike fault fault') :
    (Ending.ofMachine m fault).Renamed ρ (.ofMachine n fault') where
  output := h.output.symm
  fault := hfault
  globals := (h.env.globals.map Value.display).eq_mapKeys hρ

/-- Consistent new names for the variables of a program do not change its run: it prints
    the same, it ends with a fault of the same kind that is blamed on the same line or
    without one, and its variables are the same under their new names. -/
theorem Program.run_rename (hρ : Function.Injective ρ) (hresult : ρ resultName = resultName)
    (program : Program) (options : RunOptions) :
    Option.Rel (Ending.Renamed ρ) (program.run options) ((program.rename ρ).run options) := by
  have hinitial : options.machine.Renamed ρ options.machine :=
    ⟨⟨.nil ρ, .nil⟩, rfl, rfl, rfl, rfl⟩
  have hend : Exec.EndsAlike ρ
      (Exec.run (options.setting program.registry) program.main options.machine)
      (Exec.run (options.setting (program.rename ρ).registry) (program.rename ρ).main
        options.machine) :=
    Exec.runsAlike_run hρ hresult (options.setting program.registry)
      (options.setting (program.rename ρ).registry) rfl rfl rfl rfl program.main hinitial
  rw [run, run]
  generalize Exec.run (options.setting program.registry) _ _ = result at hend
  generalize Exec.run (options.setting (program.rename ρ).registry) _ _ = result' at hend
  cases hend with
  | ok hleft => exact .some (hleft.ending hρ .none)
  | error hstop hleft =>
    cases hstop with
    | fault hfault => exact .some (hleft.ending hρ (.some hfault))
    | outOfRounds => exact .none

/-- A function of a parameter `x` beside a global `x`, and a variable that there is not. -/
def echoing : Program where
  main :=
    [.simple 4 (.read [.var "x"]), .simple 5 (.assign "y" (.call "f" [.var "x"])),
      .simple 6 (.print [.var "y", .var "z"])]
  registry :=
    [("f", ⟨"f", ["x"], [.simple 2 (.assign resultName (.var "x"))], .function, 1⟩)]

/-- One text to read. -/
def oneText : RunOptions where
  inputs := { queue := ["a"] }
  rounds := 0

theorem Program.run_rename_echoing :
    echoing.run oneText = some
      { fault := some { cause := .undefinedVariable "z", line := some 6 }
        globals := [("x", "a"), ("y", "a")] } ∧
    Option.Rel (Ending.Renamed (Equiv.swap "x" "z")) (echoing.run oneText)
      ((echoing.rename (Equiv.swap "x" "z")).run oneText) := by
  have hresult : Equiv.swap "x" "z" resultName = resultName :=
    Equiv.swap_apply_of_ne_of_ne (by decide) (by decide)
  exact ⟨by decide +kernel, run_rename (Equiv.swap "x" "z").injective hresult echoing oneText⟩

end Portugol
