import Portugol.Proofs.Effect
import Portugol.Proofs.Parts

/-!
# The names of the globals

A call has variables of its own, which are gone when it ends. So what is run in a
call neither makes a global nor takes one away, and it does not touch the global that
has the name of a result (`enclosed`). What is run outside all calls makes globals of
the names that it writes, and of no others (`outside`).

A program that is read leaves no result outside its callables, as `RETORNE` does not
stand there (`Program.result_not_mem_writes`). So the variables that are reported at
the end of a run are among those that the main program writes.
-/

namespace Portugol

/-! ## Programs that are read -/

mutual

/-- Only `RETORNE` leaves a result. -/
theorem Stmt.exists_return_of_result_mem_writes : ∀ {stmt : Stmt}, Write.result ∈ stmt.writes →
    ∃ part ∈ stmt.parts, part.isReturn = true
  | .simple _ action, h => by
    refine ⟨_, Stmt.mem_parts_self _, ?_⟩
    cases action with
    | ret => rfl
    | print | printLine | call => cases h
    | read | assign | assignElement => simp [Stmt.writes, Simple.writes] at h
  | .define .., h => by cases h
  | .ifThen _ _ body, h | .whileDo _ _ body, h | .times _ _ body, h => by
    obtain ⟨part, hpart, hreturn⟩ := exists_return_of_result_mem_bodyWrites h
    exact ⟨part, List.mem_cons_of_mem _ hpart, hreturn⟩
  | .count _ _ _ _ body, h => by
    rcases List.mem_cons.1 h with h | h
    · cases h
    · obtain ⟨part, hpart, hreturn⟩ := exists_return_of_result_mem_bodyWrites h
      exact ⟨part, List.mem_cons_of_mem _ hpart, hreturn⟩
  | .ifElse _ _ body alternate, h => by
    rcases List.mem_append.1 h with h | h
    · obtain ⟨part, hpart, hreturn⟩ := exists_return_of_result_mem_bodyWrites h
      exact ⟨part, List.mem_cons_of_mem _ (List.mem_append_left _ hpart), hreturn⟩
    · obtain ⟨part, hpart, hreturn⟩ := exists_return_of_result_mem_bodyWrites h
      exact ⟨part, List.mem_cons_of_mem _ (List.mem_append_right _ hpart), hreturn⟩

theorem exists_return_of_result_mem_bodyWrites : ∀ {stmts : List Stmt},
    Write.result ∈ bodyWrites stmts → ∃ part ∈ bodyParts stmts, part.isReturn = true
  | stmt :: rest, h => by
    rcases List.mem_append.1 h with h | h
    · obtain ⟨part, hpart, hreturn⟩ := Stmt.exists_return_of_result_mem_writes h
      exact ⟨part, List.mem_append_left _ hpart, hreturn⟩
    · obtain ⟨part, hpart, hreturn⟩ := exists_return_of_result_mem_bodyWrites h
      exact ⟨part, List.mem_append_right _ hpart, hreturn⟩

end

/-- A program that is read leaves no result outside its callables. -/
theorem Program.result_not_mem_writes {source : String} {program : Program}
    (h : Program.parse source = .ok program) : Write.result ∉ bodyWrites program.main := by
  intro hresult
  obtain ⟨part, hpart, hreturn⟩ := exists_return_of_result_mem_bodyWrites hresult
  rw [((Program.wellFormed_of_parse h).main part hpart).2] at hreturn
  cases hreturn

/-! ## What is run in a call -/

namespace Environment

/-- The same names are those of globals, and the global with the name of a result is
    the same. -/
structure SameNames (env env' : Environment) : Prop where
  names : Dict.keys env'.globals = Dict.keys env.globals
  result : Dict.get? env'.globals resultName = Dict.get? env.globals resultName

variable {env env' env'' : Environment}

theorem SameNames.of_globals_eq (h : env'.globals = env.globals) : SameNames env env' :=
  ⟨by rw [h], by rw [h]⟩

theorem SameNames.trans (h : SameNames env env') (h' : SameNames env' env'') :
    SameNames env env'' :=
  ⟨h'.names.trans h.names, h'.result.trans h.result⟩

theorem sameNames_write (h : env.inCall = true) (name : String) (value : Value) :
    SameNames env (env.write name value) := by
  rcases globals_write_of_inCall h name value with hglobals | ⟨hname, hcontains, hglobals⟩
  · exact .of_globals_eq hglobals
  · refine ⟨?_, ?_⟩
    · rw [hglobals, Dict.keys_insert_of_contains value hcontains]
    · rw [hglobals, Dict.get?_insert_of_ne _ value hname.symm]

end Environment

namespace Exec

open Environment

/-- What is run in a call keeps the names of the globals. -/
def enclosed : CallEffect where
  holds m m' := m.env.inCall = true → SameNames m.env m'.env
  refl _ _ := .of_globals_eq rfl
  trans hbalanced h h' hcall := (h hcall).trans (h' (hbalanced.inCall_iff.2 hcall))
  print _ _ _ := .of_globals_eq rfl
  input _ _ := .of_globals_eq rfl
  timer _ _ _ := .of_globals_eq rfl
  write _ _ value _ hcall := sameNames_write hcall _ value
  result m value _ hcall := .of_globals_eq (globals_define hcall _ value)
  call {params values m m'} _ h _ := by
    have hstart : (entering params values m).env.inCall = true := by
      rw [env_entering]
      rfl
    have hentered : SameNames m.env (entering params values m).env :=
      .of_globals_eq (by rw [env_entering]; rfl)
    have hleft : SameNames m'.env m'.leave.env := .of_globals_eq rfl
    exact (hentered.trans (h hstart)).trans hleft

/-! ## What is run outside all calls -/

/-- The writes to variables with these names. -/
def Named (P : String → Prop) : Write → Prop
  | .var name => P name
  | .result => False

/-- What is run outside all calls makes globals of the names that it writes, and of no
    others. -/
def outside (P : String → Prop) : Effect (Named P) where
  holds m m' := m.env.frames = [] →
    ∀ name ∈ Dict.keys m'.env.globals, name ∈ Dict.keys m.env.globals ∨ P name
  refl _ _ _ h := .inl h
  trans hbalanced h h' hframes name hname := by
    have hframes' := List.length_eq_zero_iff.1
      (hbalanced.frames.length.trans (List.length_eq_zero_iff.2 hframes))
    rcases h' hframes' name hname with hmiddle | hwritten
    · exact h hframes name hmiddle
    · exact .inr hwritten
  print _ _ _ _ h := .inl h
  input _ _ _ h := .inl h
  timer _ _ _ _ h := .inl h
  write m name value hw hframes other hother := by
    dsimp only at hother
    rw [globals_write_of_frames_eq_nil hframes] at hother
    rcases Dict.mem_keys_insert hother with rfl | hold
    · exact .inr hw
    · exact .inl hold
  result _ _ hw := hw.elim

/-- A call makes no globals. -/
theorem outside_keeps_invoker (P : String → Prop) (s : Setting) (room : Nat) (callable : Callable)
    (values : List Value) : (outside P).Keeps (invoker s room callable values) := by
  cases room with
  | zero => exact (outside P).localCongruence.rel_fail _
  | succ room =>
    have hbody := enclosed.keeps_execBody s room callable.body
    intro m
    have hafter : (invoker s (room + 1) callable values).after m =
        ((execBody s (invoker s room) callable.body).after (entering callable.params values m)).leave :=
      after_activation (Effect.Keeps.frames hbody) _ _ _
    obtain ⟨hbalanced, hholds⟩ := hbody (entering callable.params values m)
    rw [hafter]
    refine ⟨hbalanced.of_entering, fun _ name hname => .inl ?_⟩
    have hstart : (entering callable.params values m).env.inCall = true := by
      rw [env_entering]
      rfl
    have hnames := (hholds hstart).names
    rw [env_entering] at hnames
    exact hnames ▸ hname

/-- Statements that are run outside all calls make globals of the names that they write,
    and of no others. -/
theorem mem_writes_of_mem_globals {s : Setting} {main : List Stmt} {m : Machine}
    (hresult : Write.result ∉ bodyWrites main) (hframes : m.env.frames = []) {name : String}
    (hname : name ∈ Dict.keys ((run s main).after m).env.globals) :
    name ∈ Dict.keys m.env.globals ∨ .var name ∈ bodyWrites main := by
  have hwrites : ∀ w ∈ bodyWrites main, Named (fun name => .var name ∈ bodyWrites main) w := by
    intro w hw
    cases w with
    | var name => exact hw
    | result => exact hresult hw
  exact ((outside _).keeps_run (outside_keeps_invoker _ s) hwrites m).2 hframes name hname

end Exec

/-! ## Reports -/

theorem Environment.keys_snapshot (env : Environment) :
    Dict.keys env.snapshot = Dict.keys env.globals := by
  rw [Dict.keys, snapshot, List.map_map]
  rfl

open Exec Environment

/-- Whatever is run in a call, and however it ends: the globals have the names that they
    had, and the global with the name of a result is as it was. So at the end of a run
    there are no variables but those that the main program writes by name. -/
theorem global_names_enclosed :
    (∀ (s : Setting) (m : Machine), m.env.frames ≠ [] →
      (∀ main, SameNames m.env ((run s main).after m).env) ∧
      (∀ e, SameNames m.env ((evaluate s e).after m).env) ∧
      (∀ room stmts, SameNames m.env ((execBody s (invoker s room) stmts).after m).env) ∧
      ∀ room e, SameNames m.env ((eval s (invoker s room) e).after m).env) ∧
    ∀ (options : RunOptions) (source : String) (report : Report),
      interpret options source = some report → ∀ name ∈ Dict.keys report.globals,
        ∃ program, Program.parse source = .ok program ∧ .var name ∈ bodyWrites program.main := by
  constructor
  · intro s m hframes
    have hcall := inCall_iff.2 hframes
    exact ⟨fun main => (enclosed.keeps_run s main m).2 hcall,
      fun e => (enclosed.keeps_evaluate s e m).2 hcall,
      fun room stmts => (enclosed.keeps_execBody s room stmts m).2 hcall,
      fun room e => (enclosed.keeps_eval s room e m).2 hcall⟩
  · intro options source report hreport name hname
    obtain ⟨ending, hending, rfl⟩ := Option.map_eq_some_iff.1 hreport
    rw [runSource] at hending
    split at hending
    · rename_i program hparse
      refine ⟨program, hparse, ?_⟩
      obtain ⟨fault, rfl⟩ := Program.exists_fault_of_run hending
      have hglobal : name ∈ Dict.keys ((run (options.setting program.registry)
          program.main).after options.machine).env.globals :=
        keys_snapshot _ ▸ hname
      -- A run starts without globals, so that each of them has been written.
      rcases mem_writes_of_mem_globals (Program.result_not_mem_writes hparse) rfl hglobal with h | h
      · cases h
      · exact h
    · cases hending
      cases hname

/-- A machine in a call, with two globals. -/
def amidCall : Machine where
  env := { globals := [("resultado", .text "r"), ("total", .text "t")], frames := [[]] }

/-- A global, a local variable and a result are written. -/
def threeWrites : List Stmt :=
  [.simple 1 (.assign "total" (.text "u")), .simple 2 (.assign "parcial" (.text "p")),
    .simple 3 (.ret (some (.text "s")))]

/-- An array and a variable are written. -/
def tally : String := "t['a'] <- 'b'\nu <- 'u'"

theorem global_names_enclosed_tally :
    amidCall.env.frames ≠ [] ∧
    SameNames amidCall.env ((run { rounds := 0 } threeWrites).after amidCall).env ∧
    interpret { rounds := 0 } tally =
      some { output := "", globals := [("t", "\x7b'a': b\x7d"), ("u", "u")] } ∧
    ∃ program, Program.parse tally = .ok program ∧ .var "t" ∈ bodyWrites program.main := by
  have hframes : amidCall.env.frames ≠ [] := List.cons_ne_nil _ _
  have hreport : interpret { rounds := 0 } tally =
      some { output := "", globals := [("t", "\x7b'a': b\x7d"), ("u", "u")] } := by decide +kernel
  exact ⟨hframes, (global_names_enclosed.1 _ _ hframes).1 _, hreport,
    global_names_enclosed.2 _ _ _ hreport "t" List.mem_cons_self⟩

end Portugol
