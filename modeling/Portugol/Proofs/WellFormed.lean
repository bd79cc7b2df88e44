import Portugol.Proofs.Frames
import Portugol.Proofs.Parts

/-!
# Well-formed programs at work

Statements are run wherever they stand. A definition that is run does nothing, and a
`RETORNE` in the main part would end the run there, without a word. In a program that is
read there is no place for either.

* `Exec.neverReturns_execBody`: statements without `RETORNE` in them end with the last of
  them, or not at all.
* `Exec.run_cases_of_isReturn`: so a run goes through them one by one, to the end of each
  (`Exec.Completes`), or up to one of them that stops (`Exec.Stops`).
* `Exec.Reaches.has`: whatever statement a run comes to, however deeply, is one of the
  program.
* `Program.parse_wellFormed`: a program that is read is well formed, a run of its main part
  completes it or fails, and no run comes to a definition.
-/

namespace Portugol

namespace Exec

variable {α : Type} {s : Setting} {invoke : Invoker} {m m' : Machine}

theorem located_eq_ok_iff {line : Nat} {x : Exec α} {a : α} :
    located line x m = .ok a m' ↔ x m = .ok a m' := by
  rw [located]
  split
  · rename_i fault m₁ hx
    rw [hx]
    exact ⟨fun h => (by cases h), fun h => (by cases h)⟩
  · exact Iff.rfl

/-! ## Returning -/

/-- A step that never leaves a callable. -/
def NeverReturns (x : Exec Flow) : Prop := ∀ m m', x m ≠ .ok .returned m'

namespace NeverReturns

theorem pure_next : NeverReturns (pure .next) := fun _ _ h => by cases h

theorem outOfRounds : NeverReturns (throw .outOfRounds) := fun _ _ h => by cases h

/-- What is done first does not matter. -/
theorem of_bind {x : Exec α} {f : α → Exec Flow} (hf : ∀ a, NeverReturns (f a)) :
    NeverReturns (x >>= f) := by
  intro m m' h
  cases hx : x m with
  | ok a m₁ =>
    rw [bind_of_ok hx] at h
    exact hf a m₁ m' h
  | error stop m₁ =>
    rw [bind_of_error hx] at h
    cases h

theorem located {x : Exec Flow} (hx : NeverReturns x) (line : Nat) :
    NeverReturns (located line x) := by
  intro m m' h
  exact hx m m' (located_eq_ok_iff.1 h)

theorem andThen {x more : Exec Flow} (hx : NeverReturns x) (hmore : NeverReturns more) :
    NeverReturns (andThen x more) := by
  intro m m' h
  rw [Exec.andThen] at h
  cases hm : x m with
  | error stop m₁ =>
    rw [bind_of_error hm] at h
    cases h
  | ok flow m₁ =>
    rw [bind_of_ok hm] at h
    cases flow with
    | next => exact hmore m₁ m' h
    | returned => exact hx m m₁ hm

theorem whenever {x : Exec Flow} (hx : NeverReturns x) (comes : Bool) :
    NeverReturns (whenever comes x) := by
  cases comes with
  | true => exact hx
  | false => exact pure_next

theorem run {σ : Type} (loop : Loop σ) (s : Setting) {body : Exec Flow} (hbody : NeverReturns body)
    (first : σ) : NeverReturns (loop.run s body first) := by
  -- A round goes on with `rest` or ends the loop, so only `rest` could return.
  have hround : ∀ started position rest, NeverReturns rest →
      NeverReturns (loop.round s started position rest) := fun started position rest hrest =>
    whenever (of_bind fun _ => of_bind fun b => hrest.whenever b) _
  have hrounds : ∀ left started position,
      NeverReturns (loop.rounds s started body left position) := by
    intro left
    induction left with
    | zero => exact fun started position => hround started position _ outOfRounds
    | succ left ih =>
      exact fun started position => hround started position _ (hbody.andThen (ih started _))
  exact of_bind fun started => hrounds _ started first

end NeverReturns

theorem neverReturns_execSimple (s : Setting) (invoke : Invoker) {action : Simple}
    (h : action.isReturn = false) : NeverReturns (execSimple s invoke action) := by
  cases action with
  | ret => cases h
  | print | printLine | assign => exact .of_bind fun _ => .of_bind fun _ => .pure_next
  | read | call => exact .of_bind fun _ => .pure_next
  | assignElement =>
    exact .of_bind fun _ => .of_bind fun _ => .of_bind fun _ => .of_bind fun _ => .pure_next

mutual

/-- A statement without `RETORNE` in it never leaves a callable. -/
theorem neverReturns_execStmt (s : Setting) (invoke : Invoker) : ∀ stmt : Stmt,
    (∀ part ∈ stmt.parts, part.isReturn = false) → NeverReturns (execStmt s invoke stmt)
  | .simple _ action, h => neverReturns_execSimple s invoke (h _ List.mem_cons_self)
  | .ifThen _ _ body, h => by
    refine .of_bind fun b => ?_
    cases b with
    | true => exact neverReturns_execBody s invoke body (List.forall_mem_cons.1 h).2
    | false => exact .pure_next
  | .ifElse _ _ body alternate, h => by
    obtain ⟨hbody, halternate⟩ := List.forall_mem_append.1 (List.forall_mem_cons.1 h).2
    refine .of_bind fun b => ?_
    cases b with
    | true => exact neverReturns_execBody s invoke body hbody
    | false => exact neverReturns_execBody s invoke alternate halternate
  | .count _ _ _ _ body, h =>
    have hbody := neverReturns_execBody s invoke body (List.forall_mem_cons.1 h).2
    .of_bind fun _ => .of_bind fun _ => .run _ s hbody _
  | .whileDo _ _ body, h =>
    .run _ s (neverReturns_execBody s invoke body (List.forall_mem_cons.1 h).2) _
  | .times _ _ body, h =>
    have hbody := neverReturns_execBody s invoke body (List.forall_mem_cons.1 h).2
    .of_bind fun _ => .run _ s hbody _
  | .define .., _ => .pure_next

theorem neverReturns_execBody (s : Setting) (invoke : Invoker) : ∀ stmts : List Stmt,
    (∀ part ∈ bodyParts stmts, part.isReturn = false) → NeverReturns (execBody s invoke stmts)
  | [], _ => .pure_next
  | stmt :: rest, h =>
    have ⟨hstmt, hrest⟩ := List.forall_mem_append.1 h
    .andThen (.located (neverReturns_execStmt s invoke stmt hstmt) stmt.line)
      (neverReturns_execBody s invoke rest hrest)

end

/-! ## Statements one by one -/

/-- The statements are run one by one, each of them to its end. -/
inductive Completes (s : Setting) (invoke : Invoker) : List Stmt → Machine → Machine → Prop
  | nil (m : Machine) : Completes s invoke [] m m
  | cons {stmt : Stmt} {rest : List Stmt} {m m₁ m' : Machine} :
    execStmt s invoke stmt m = .ok .next m₁ → Completes s invoke rest m₁ m' →
    Completes s invoke (stmt :: rest) m m'

theorem Completes.append {before rest : List Stmt} {m₁ : Machine}
    (hbefore : Completes s invoke before m m₁) (hrest : Completes s invoke rest m₁ m') :
    Completes s invoke (before ++ rest) m m' := by
  induction hbefore with
  | nil => exact hrest
  | cons hstmt _ ih => exact .cons hstmt (ih hrest)

/-- The last statement has been run exactly if all of them have. -/
theorem execBody_eq_next_iff {stmts : List Stmt} :
    execBody s invoke stmts m = .ok .next m' ↔ Completes s invoke stmts m m' := by
  induction stmts generalizing m with
  | nil =>
    constructor
    · rintro ⟨⟩
      exact .nil _
    · rintro ⟨⟩
      rfl
  | cons stmt rest ih =>
    rw [execBody, andThen]
    constructor
    · intro h
      cases hstmt : located stmt.line (execStmt s invoke stmt) m with
      | error stop m₁ =>
        rw [bind_of_error hstmt] at h
        cases h
      | ok flow m₁ =>
        rw [bind_of_ok hstmt] at h
        cases flow with
        | next => exact .cons (located_eq_ok_iff.1 hstmt) (ih.1 h)
        | returned => cases h
    · rintro (_ | ⟨hstmt, hrest⟩)
      rw [bind_of_ok (located_eq_ok_iff.2 hstmt)]
      exact ih.2 hrest

/-- The statements are run one by one, each of them to its end, up to one that stops. It is
    to blame, unless something in it is already. -/
inductive Stops (s : Setting) (invoke : Invoker) :
    List Stmt → Machine → Stop → Machine → Prop
  | here {stmt : Stmt} {rest : List Stmt} {m m' : Machine} {stop : Stop} :
    located stmt.line (execStmt s invoke stmt) m = .error stop m' →
    Stops s invoke (stmt :: rest) m stop m'
  | later {stmt : Stmt} {rest : List Stmt} {m m₁ m' : Machine} {stop : Stop} :
    execStmt s invoke stmt m = .ok .next m₁ → Stops s invoke rest m₁ stop m' →
    Stops s invoke (stmt :: rest) m stop m'

/-- Statements stop exactly if one of them does. -/
theorem execBody_eq_error_iff {stmts : List Stmt} {stop : Stop} :
    execBody s invoke stmts m = .error stop m' ↔ Stops s invoke stmts m stop m' := by
  induction stmts generalizing m with
  | nil => constructor <;> rintro ⟨⟩
  | cons stmt rest ih =>
    rw [execBody, andThen]
    constructor
    · intro h
      cases hstmt : located stmt.line (execStmt s invoke stmt) m with
      | error stop₁ m₁ =>
        rw [bind_of_error hstmt] at h
        cases h
        exact .here hstmt
      | ok flow m₁ =>
        rw [bind_of_ok hstmt] at h
        cases flow with
        | next => exact .later (located_eq_ok_iff.1 hstmt) (ih.1 h)
        | returned => cases h
    · rintro (hstmt | ⟨hstmt, hrest⟩)
      · exact bind_of_error hstmt
      · rw [bind_of_ok (located_eq_ok_iff.2 hstmt)]
        exact ih.2 hrest

/-- Statements without `RETORNE` in them are run one by one, to the end of the last of them
    or up to one that stops. -/
theorem run_cases_of_isReturn {stmts : List Stmt}
    (h : ∀ part ∈ bodyParts stmts, part.isReturn = false) (s : Setting) (m : Machine) :
    (∃ m', run s stmts m = .ok () m' ∧
      Completes s (invoker s (s.maxDepth - m.depth)) stmts m m') ∨
    ∃ stop m', run s stmts m = .error stop m' ∧
      Stops s (invoker s (s.maxDepth - m.depth)) stmts m stop m' := by
  rw [run_apply]
  cases hbody : execBody s (invoker s (s.maxDepth - m.depth)) stmts m with
  | error stop m' =>
    exact .inr ⟨stop, m', bind_of_error hbody, execBody_eq_error_iff.1 hbody⟩
  | ok flow m' =>
    cases flow with
    | next => exact .inl ⟨m', bind_of_ok hbody, execBody_eq_next_iff.1 hbody⟩
    | returned => exact absurd hbody (neverReturns_execBody s _ stmts h m m')

end Exec

/-! ## Where a run comes to -/

/-- The statements of what is run. -/
def Task.parts : Task → List Stmt
  | expr _ => []
  | stmt st => st.parts
  | body stmts => bodyParts stmts

namespace Exec

variable {s : Setting} {p p' : Point}

theorem StartsRound.loopBody_subset {invoke : Invoker} {stmt : Stmt} {m m' : Machine} {k : Nat}
    (h : StartsRound s invoke stmt m k m') : bodyParts stmt.loopBody ⊆ stmt.parts := by
  cases h <;> exact List.subset_cons_self _ _

/-- What a point comes to is in what is run there, or it is the body of a callable. -/
theorem Starts.parts_subset_or_callee (h : Starts s p p') :
    p'.task.parts ⊆ p.task.parts ∨
      ∃ entry ∈ s.registry, p'.task = .body entry.2.body := by
  cases h with
  | operand | index | condition => exact .inl (List.nil_subset _)
  | stmt =>
    refine .inl ?_
    rw [Task.parts, Task.parts, bodyParts_append, bodyParts]
    exact List.subset_append_of_subset_right _ (List.subset_append_left _ _)
  | ifThen => exact .inl (List.subset_cons_self _ _)
  | @ifElse _ _ _ _ _ body alternate b =>
    refine .inl (List.subset_cons_of_subset _ ?_)
    cases b with
    | true => exact List.subset_append_left (bodyParts body) (bodyParts alternate)
    | false => exact List.subset_append_right (bodyParts body) (bodyParts alternate)
  | round h => exact .inl h.loopBody_subset
  | callee _ hinvokes =>
    obtain ⟨key, hentry⟩ := Dict.exists_mem_of_get? hinvokes.found.1
    exact .inr ⟨_, hentry, rfl⟩

/-- Whatever a run comes to is of the program, if what it starts with is. -/
theorem Reaches.has {program : Program} (hs : s.registry = program.registry)
    (h : Reaches s p p') (hp : ∀ part ∈ p.task.parts, program.Has part) :
    ∀ part ∈ p'.task.parts, program.Has part := by
  induction h with
  | refl => exact hp
  | tail _ hstep ih =>
    intro part hpart
    rcases hstep.parts_subset_or_callee with hsubset | ⟨entry, hentry, htask⟩
    · exact ih part (hsubset hpart)
    · -- The body of a callable is of the program, wherever it is called from.
      rw [htask] at hpart
      exact .inr ⟨entry, hs ▸ hentry, hpart⟩

end Exec

namespace Program

open Exec

theorem WellFormed.isDefinition_of_has {program : Program} (h : program.WellFormed) {stmt : Stmt}
    (hstmt : program.Has stmt) : stmt.isDefinition = false := by
  rcases hstmt with hmain | ⟨entry, hentry, hbody⟩
  · exact (h.main stmt hmain).1
  · exact h.bodies entry hentry stmt hbody

/-- A program that is read is well formed: definitions are in none of its statements, and
    `RETORNE` is in none of the main part, and each callable is registered under its own
    name, with parameters that are all different. So running the main part never returns, in
    whatever machine. It goes through the statements one by one, to the end of the last of
    them, or up to one that ends in a fault. A run that does neither is out of rounds at one
    of them, and does not have enough rounds. No run comes to a definition. -/
theorem parse_wellFormed {source : String} {program : Program}
    (h : Program.parse source = .ok program) :
    program.WellFormed ∧
    (∀ s invoke m m', execBody s invoke program.main m ≠ .ok .returned m') ∧
    (∀ s m,
      (∃ m', Exec.run s program.main m = .ok () m' ∧
        Completes s (invoker s (s.maxDepth - m.depth)) program.main m m') ∨
      (∃ fault m', Exec.run s program.main m = .error (.fault fault) m' ∧
        Stops s (invoker s (s.maxDepth - m.depth)) program.main m (.fault fault) m') ∨
      ∃ m', Exec.run s program.main m = .error .outOfRounds m' ∧
        Stops s (invoker s (s.maxDepth - m.depth)) program.main m .outOfRounds m' ∧
        ¬s.EnoughRounds) ∧
    ∀ s m room stmt p, s.registry = program.registry →
      Reaches s ⟨room, .body program.main, m⟩ p → p.task = .stmt stmt →
      stmt.isDefinition = false := by
  have hformed := wellFormed_of_parse h
  have hreturn : ∀ part ∈ bodyParts program.main, part.isReturn = false := fun part hpart =>
    (hformed.main part hpart).2
  refine ⟨hformed, fun s invoke => neverReturns_execBody s invoke program.main hreturn,
    fun s m => ?_, fun s m room stmt p hs hreaches htask => ?_⟩
  · rcases run_cases_of_isReturn hreturn s m with hdone | ⟨stop, m', hrun, hstops⟩
    · exact .inl hdone
    · cases stop with
      | fault fault => exact .inr (.inl ⟨fault, m', hrun, hstops⟩)
      | outOfRounds =>
        exact .inr (.inr ⟨m', hrun, hstops, fun h => finishes_run h program.main m m' hrun⟩)
  · have hhas := hreaches.has hs fun part hpart => .inl hpart
    rw [htask] at hhas
    exact hformed.isDefinition_of_has (hhas stmt stmt.mem_parts_self)

/-- A function that returns, and an input to be read. -/
def firstOfTwo : String := "FUNCAO f(a, b)\nRETORNE a\nFIM FUNCAO\nLEIA x"

/-- There are these inputs, and no time for any round. -/
def hasty (queue : List String) : RunOptions where
  inputs := { queue }
  watchdog := { ceiling := 0, clock := ({ step := 1 } : Clock) }
  rounds := 0

theorem parse_wellFormed_firstOfTwo :
    ∃ program, Program.parse firstOfTwo = .ok program ∧ Dict.keys program.registry = ["f"] ∧
      program.WellFormed ∧
      (∀ s invoke m m', execBody s invoke program.main m ≠ .ok .returned m') ∧
      (∃ m', Exec.run ((hasty ["b"]).setting program.registry) program.main (hasty ["b"]).machine =
          .ok () m' ∧
        Completes ((hasty ["b"]).setting program.registry)
          (invoker ((hasty ["b"]).setting program.registry) 1000) program.main
          (hasty ["b"]).machine m') ∧
      ∃ fault m', Exec.run ((hasty []).setting program.registry) program.main (hasty []).machine =
          .error (.fault fault) m' ∧
        Stops ((hasty []).setting program.registry)
          (invoker ((hasty []).setting program.registry) 1000) program.main
          (hasty []).machine (.fault fault) m' := by
  have hends : (Program.parse firstOfTwo).toOption.map (fun program =>
      (Dict.keys program.registry, (program.run (hasty ["b"])).map Ending.fault,
        (program.run (hasty [])).map Ending.fault)) =
      some (["f"], some none, some (some { cause := .inputExhausted "x", line := some 4 })) := by
    decide +kernel
  cases hparse : Program.parse firstOfTwo with
  | error fault =>
    rw [hparse] at hends
    cases hends
  | ok program =>
    rw [hparse] at hends
    obtain ⟨hnames, hruns⟩ := Prod.mk.inj (Option.some.inj hends)
    obtain ⟨hgiven, hmissing⟩ := Prod.mk.inj hruns
    obtain ⟨hformed, hreturn, hcases, -⟩ := parse_wellFormed hparse
    refine ⟨program, rfl, hnames, hformed, hreturn, ?_, ?_⟩
    · rcases hcases ((hasty ["b"]).setting program.registry) (hasty ["b"]).machine with
        hdone | ⟨fault, m', hrun, _⟩ | ⟨m', hrun, _⟩
      · exact hdone
      all_goals
        rw [run, hrun] at hgiven
        cases hgiven
    · rcases hcases ((hasty []).setting program.registry) (hasty []).machine with
        ⟨m', hrun, _⟩ | hfails | ⟨m', hrun, _⟩
      · rw [run, hrun] at hmissing
        cases hmissing
      · exact hfails
      · rw [run, hrun] at hmissing
        cases hmissing

end Program

end Portugol
