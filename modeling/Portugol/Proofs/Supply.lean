import Portugol.Proofs.Simulation

/-!
# More inputs

A run that is given more inputs behind those that it has does not notice, as long as it
finds one whenever it reads. Where it finds none it stops, and with more inputs it goes
on from there.

* `Exec.supplied`: the simulation of a run by the run with more inputs.
* `Program.run_supply_cases`: with more inputs a run ends as without them and leaves what
  is more unread, or it would have stopped for want of an input.
* `trimBreaks_prefix`: a report shows no less of what has been printed if more is printed.
-/

namespace Portugol

theorem Inputs.kind_of_next_eq_error {inputs : Inputs} {target : String} {fault : Fault}
    (h : inputs.next target = .error fault) : fault.kind = .input := by
  rw [next] at h
  split at h
  · cases h
  · split at h <;> cases h <;> rfl

/-- These inputs, and then the texts `more`. -/
def Inputs.supply (inputs : Inputs) (more : List String) : Inputs :=
  { inputs with queue := inputs.queue ++ more }

theorem Inputs.next_supply {inputs inputs' : Inputs} {target text : String}
    (h : inputs.next target = .ok (text, inputs')) (more : List String) :
    (inputs.supply more).next target = .ok (text, inputs'.supply more) := by
  obtain ⟨rest, hqueue, rfl⟩ := next_eq_ok h
  rw [next, supply, hqueue]
  rfl

namespace Exec

/-- The second run has more inputs, and so it need not stop when the first one finds
    none. -/
def supplied (more : List String) : Simulation where
  env := Eq
  inputs i j := j = i.supply more
  excused fault := fault.kind = .input
  orLine _ h := h
  next {i _} target h := by
    subst h
    cases hnext : i.next target with
    | ok taken => exact .inl ⟨_, _, _, rfl, Inputs.next_supply hnext more, rfl⟩
    | error fault => exact .inr ⟨fault, rfl, .inl (Inputs.kind_of_next_eq_error hnext)⟩
  lookup name h := .inl (h ▸ rfl)
  written? name h := h ▸ rfl
  write name value h := h ▸ rfl
  define name value h := h ▸ rfl
  result h := h ▸ rfl
  enter frame h := h ▸ rfl
  leave _ h _ _ := h ▸ rfl

theorem ofMachine_of_alike {more : List String} {m n : Machine} (h : (supplied more).Alike m n)
    (fault : Option Fault) : Ending.ofMachine m fault = .ofMachine n fault := by
  have henv : m.env = n.env := h.env
  rw [Ending.ofMachine, Ending.ofMachine, h.output, henv]

end Exec

/-! ## Printed texts -/

/-- A text that another one starts with starts it also without the line ends behind
    both. -/
theorem trimBreaks_prefix {text text' : List Char} (h : text <+: text') :
    trimBreaks text <+: trimBreaks text' := by
  obtain ⟨added, rfl⟩ := h
  rw [trimBreaks, trimBreaks, List.reverse_prefix, List.reverse_append, List.dropWhile_append]
  split
  · exact List.suffix_rfl
  · exact (List.dropWhile_suffix _).trans (List.suffix_append _ _)

theorem Ending.output_report (ending : Ending) :
    ending.report.output.toList = trimBreaks ending.output.toList :=
  String.toList_ofList

/-! ## Runs -/

/-- The same run with more inputs. -/
def RunOptions.supply (options : RunOptions) (more : List String) : RunOptions :=
  { options with inputs := options.inputs.supply more }

namespace Program

open Exec

variable {program : Program} {options : RunOptions} {ending : Ending}

/-- The machine that a run of the program leaves behind. -/
def final (program : Program) (options : RunOptions) : Machine :=
  (Exec.run (options.setting program.registry) program.main).after options.machine

theorem final_congr {options' : RunOptions}
    (h : Exec.run (options.setting program.registry) program.main options.machine =
      Exec.run (options'.setting program.registry) program.main options'.machine) :
    program.final options = program.final options' := by
  rw [final, final, after, after, h]

/-- A run that has ended is the same with more rounds. -/
theorem run_rounds_of_le (h : program.run options = some ending) {rounds : Nat}
    (hr : options.rounds ≤ rounds) :
    program.run { options with rounds } = some ending ∧
      program.final { options with rounds } = program.final options := by
  let longer : RunOptions := { options with rounds }
  rcases run_of_le (options.setting program.registry) (longer.setting program.registry) rfl rfl rfl
    hr program.main options.machine with heq | ⟨m', hm'⟩
  · exact ⟨(run_congr heq).symm.trans h, (final_congr heq).symm⟩
  · rw [run, hm'] at h
    cases h

theorem run_of_ok (options : RunOptions) {m : Machine}
    (h : Exec.run (options.setting program.registry) program.main options.machine = .ok () m) :
    program.run options = some (.ofMachine m none) := by
  rw [run, h]

theorem run_of_fault (options : RunOptions) {m : Machine} {fault : Fault}
    (h : Exec.run (options.setting program.registry) program.main options.machine =
      .error (.fault fault) m) :
    program.run options = some (.ofMachine m (some fault)) := by
  rw [run, h]

theorem output_of_run (h : program.run options = some ending) :
    ending.output = (program.final options).output := by
  obtain ⟨fault, rfl⟩ := exists_fault_of_run h
  rfl

/-- With more inputs a run ends as without them and leaves what is more unread, or it
    would have stopped without them. -/
theorem run_supply_cases (h : program.run options = some ending) (more : List String) :
    (program.run (options.supply more) = some ending ∧
      (program.final (options.supply more)).inputs = (program.final options).inputs.supply more) ∨
    (∃ fault, ending.fault = some fault ∧ fault.kind = .input) ∧
      ending.output.toList <+: (program.final (options.supply more)).output.toList := by
  have hstart : (supplied more).Alike options.machine (options.supply more).machine :=
    ⟨rfl, rfl, rfl, rfl, rfl⟩
  cases hstart.follows_run (options.setting program.registry) program.main with
  | ok hm hn hleft =>
    refine .inl ⟨?_, ?_⟩
    · rw [run_of_ok (options.supply more) hn, ← h, run_of_ok options hm,
        ofMachine_of_alike hleft]
    · rw [final, final, after_of_ok hm]
      exact (congrArg Machine.inputs (after_of_ok hn)).trans hleft.inputs
  | @error stop m' n' hm hn hleft =>
    cases stop with
    | fault fault =>
      refine .inl ⟨?_, ?_⟩
      · rw [run_of_fault (options.supply more) hn, ← h, run_of_fault options hm,
          ofMachine_of_alike hleft]
      · rw [final, final, after_of_error hm]
        exact (congrArg Machine.inputs (after_of_error hn)).trans hleft.inputs
    | outOfRounds =>
      rw [run, hm] at h
      cases h
  | @excused fault m' hm hkind houtput =>
    cases h.symm.trans (run_of_fault options hm)
    exact .inr ⟨⟨fault, rfl, hkind⟩, houtput⟩

/-- Inputs that are given besides do not change what has happened. A run that ends in any
    other way than for want of an input ends in the same way with more inputs `more`, and
    it leaves what it has not read of its inputs, and then `more`. If a run ends for want
    of an input, what it has printed is what every run with more inputs prints first. -/
theorem run_supply (more : List String) (h : program.run options = some ending) :
    ((∀ fault, ending.fault = some fault → fault.kind ≠ .input) →
      ∀ rounds, options.rounds ≤ rounds →
        program.run { options.supply more with rounds } = some ending ∧
        ∃ read rest, options.inputs.queue = read ++ rest ∧
          (program.final options).inputs.queue = rest ∧
          (program.final { options.supply more with rounds }).inputs.queue = rest ++ more) ∧
    ((∃ fault, ending.fault = some fault ∧ fault.kind = .input) →
      ∀ rounds ending', program.run { options.supply more with rounds } = some ending' →
        ending.output.toList <+: ending'.output.toList ∧
        ending.report.output.toList <+: ending'.report.output.toList) := by
  constructor
  · intro hfault rounds hr
    obtain ⟨hrun, hfinal⟩ := run_rounds_of_le h hr
    rcases run_supply_cases hrun more with ⟨hsame, hinputs⟩ | ⟨⟨fault, hending, hkind⟩, _⟩
    · -- What is left is at the end of what there was, as inputs are taken from the front.
      obtain ⟨read, hread⟩ := (forward.keeps_run (options.setting program.registry) program.main
        options.machine).2.inputs
      refine ⟨hsame, read, _, hread.symm, rfl, ?_⟩
      rw [hfinal] at hinputs
      exact congrArg Inputs.queue hinputs
    · exact absurd hkind (hfault fault hending)
  · intro _ rounds ending' h'
    -- Neither run needs more rounds than the larger of both numbers.
    obtain ⟨hrun, _⟩ := run_rounds_of_le h (Nat.le_max_left options.rounds rounds)
    obtain ⟨hrun', _⟩ := run_rounds_of_le h' (Nat.le_max_right options.rounds rounds)
    have houtput : ending.output.toList <+: ending'.output.toList := by
      rcases run_supply_cases hrun more with ⟨hsame, _⟩ | ⟨_, houtput⟩
      · cases hsame.symm.trans hrun'
        exact List.prefix_rfl
      · rw [output_of_run hrun']
        exact houtput
    rw [Ending.output_report, Ending.output_report]
    exact ⟨houtput, trimBreaks_prefix houtput⟩

/-- Reads two texts, and prints each of them once it has been read. -/
def repeatTwo : Program where
  main := [.simple 1 (.read [.var "x"]), .simple 2 (.printLine [.var "x"]),
    .simple 3 (.read [.var "y"]), .simple 4 (.print [.var "y"])]
  registry := []

/-- A run with these inputs. -/
def reading (queue : List String) : RunOptions where
  inputs := { queue }
  rounds := 0

theorem run_supply_repeatTwo :
    (repeatTwo.run (reading ["a", "b", "c"]) =
        some { output := "a\nb", globals := [("x", "a"), ("y", "b")] } ∧
      repeatTwo.run (reading ["a", "b", "c", "d"]) =
        some { output := "a\nb", globals := [("x", "a"), ("y", "b")] } ∧
      (repeatTwo.final (reading ["a", "b", "c", "d"])).inputs.queue = ["c", "d"]) ∧
    repeatTwo.run (reading ["a"]) =
        some { output := "a\n", fault := some { cause := .inputExhausted "y", line := some 3 },
               globals := [("x", "a")] } ∧
      ∀ rounds ending, repeatTwo.run { reading ["a", "b"] with rounds } = some ending →
        "a\n".toList <+: ending.output.toList := by
  have hboth : repeatTwo.run (reading ["a", "b", "c"]) =
      some { output := "a\nb", globals := [("x", "a"), ("y", "b")] } := rfl
  have hone : repeatTwo.run (reading ["a"]) =
      some { output := "a\n", fault := some { cause := .inputExhausted "y", line := some 3 },
             globals := [("x", "a")] } := rfl
  obtain ⟨hmore, read, rest, _, hrest, hleft⟩ :=
    (run_supply ["d"] hboth).1 nofun 0 (Nat.le_refl _)
  refine ⟨⟨hboth, hmore, hleft.trans (hrest ▸ rfl)⟩, hone, fun rounds ending hending => ?_⟩
  exact ((run_supply ["b"] hone).2 ⟨_, rfl, rfl⟩ rounds ending hending).1

end Program

end Portugol
