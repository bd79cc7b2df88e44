import Portugol.Proofs.Dictionary
import Portugol.Proofs.Parts
import Portugol.Run

/-!
# Definitions wherever they stand

Statements make up a program: what is left of them without the definitions, and the
definitions in a registry (`Program.ofStmts`). For this no two definitions may have the same
name. Where the definitions stand does not matter otherwise.

* `Registry.Lists`: the registry of some callables has each of them under its name, and
  nothing else. It is settled by them (`Registry.Lists.unique`), whatever their order.
* `Registry.Lists.registerAll_cases`: callables are all registered, or the first of them that
  has the name of an earlier one is the fault.
* `Program.ofStmts_extracts`: so it is with the definitions in statements, at any depth.
-/

namespace Portugol

/-! ## Registering one callable after the other -/

/-- The fault of defining a callable whose name an earlier one has. -/
def Fault.repeated (callable earlier : Callable) : Fault where
  cause := .duplicateCallable callable.name earlier.line
  line := some callable.line

/-- Of callables that are defined in this order, the fault is the first that has the name of
    an earlier one. -/
def FirstRepeated (callables : List Callable) (fault : Fault) : Prop :=
  ∃ before callable after earlier, callables = before ++ callable :: after ∧
    (before.map Callable.name).Nodup ∧ earlier ∈ before ∧ earlier.name = callable.name ∧
    fault = .repeated callable earlier

theorem FirstRepeated.not_nodup {callables : List Callable} {fault : Fault}
    (h : FirstRepeated callables fault) : ¬(callables.map Callable.name).Nodup := by
  obtain ⟨before, callable, after, earlier, rfl, -, hearlier, hname, -⟩ := h
  intro hnodup
  rw [List.map_append, List.nodup_append] at hnodup
  exact hnodup.2.2 _ (List.mem_map_of_mem hearlier) _ List.mem_cons_self hname

theorem FirstRepeated.kind {callables : List Callable} {fault : Fault}
    (h : FirstRepeated callables fault) : fault.kind = .parse := by
  obtain ⟨_, _, _, _, _, _, _, _, rfl⟩ := h
  rfl

namespace Registry

/-- The registry has these callables under their names, and nothing else. -/
structure Lists (registry : Registry) (callables : List Callable) : Prop where
  sorted : Dict.Sorted registry
  get?_iff (name : String) (callable : Callable) :
    Dict.get? registry name = some callable ↔ callable ∈ callables ∧ callable.name = name

variable {registry registry' : Registry} {callables callables' before : List Callable}

theorem lists_nil : Lists [] [] :=
  ⟨.nil, fun _ _ => ⟨fun h => (by cases h), fun h => (by cases h.1)⟩⟩

/-- There is one registry of some callables. -/
theorem Lists.unique (h : registry.Lists callables) (h' : registry'.Lists callables) :
    registry = registry' := by
  refine h.sorted.ext h'.sorted fun name => Option.ext fun callable => ?_
  rw [h.get?_iff, h'.get?_iff]

/-- It does not matter in which order they are defined. -/
theorem Lists.of_perm (h : registry.Lists callables) (hsame : callables.Perm callables') :
    registry.Lists callables' :=
  ⟨h.sorted, fun name callable => by rw [h.get?_iff, hsame.mem_iff]⟩

/-- A callable with a new name is one more. -/
theorem Lists.register_of_not_mem (h : registry.Lists before) {callable : Callable}
    (hnew : callable.name ∉ before.map Callable.name) :
    ∃ registry', registry.register callable = .ok registry' ∧
      registry'.Lists (before ++ [callable]) := by
  have hfree : Dict.get? registry callable.name = none := by
    refine Option.eq_none_iff_forall_ne_some.2 fun earlier hfound => ?_
    obtain ⟨hmem, hname⟩ := (h.get?_iff _ _).1 hfound
    exact hnew (hname ▸ List.mem_map_of_mem hmem)
  refine ⟨Dict.insert registry callable.name callable, by rw [register, hfree],
    h.sorted.insert _ _, fun name other => ?_⟩
  rw [List.mem_append, List.mem_singleton]
  by_cases hname : name = callable.name
  · subst hname
    rw [Dict.get?_insert_self, Option.some.injEq]
    constructor
    · rintro rfl
      exact ⟨.inr rfl, rfl⟩
    · rintro ⟨hmem | rfl, hname⟩
      · exact absurd (hname ▸ List.mem_map_of_mem hmem) hnew
      · rfl
  · rw [Dict.get?_insert_of_ne _ _ hname, h.get?_iff]
    constructor
    · rintro ⟨hmem, hother⟩
      exact ⟨.inl hmem, hother⟩
    · rintro ⟨hmem | rfl, hother⟩
      · exact ⟨hmem, hother⟩
      · exact absurd hother.symm hname

/-- A callable with the name of an earlier one is a fault. -/
theorem Lists.register_of_mem (h : registry.Lists before) {callable : Callable}
    (hold : callable.name ∈ before.map Callable.name) :
    ∃ earlier ∈ before, earlier.name = callable.name ∧
      registry.register callable = .error (.repeated callable earlier) := by
  obtain ⟨earlier, hmem, hname⟩ := List.mem_map.1 hold
  have hfound : Dict.get? registry callable.name = some earlier := (h.get?_iff _ _).2 ⟨hmem, hname⟩
  exact ⟨earlier, hmem, hname, by rw [register, hfound]; rfl⟩

/-- Callables are all registered, and then their names are different, or the first of them
    that has the name of an earlier one is the fault. -/
theorem Lists.registerAll_cases (h : registry.Lists before)
    (hbefore : (before.map Callable.name).Nodup) (callables : List Callable) :
    (∃ registry', registry.registerAll callables = .ok registry' ∧
      registry'.Lists (before ++ callables) ∧
      ((before ++ callables).map Callable.name).Nodup) ∨
    ∃ fault, registry.registerAll callables = .error fault ∧
      FirstRepeated (before ++ callables) fault := by
  -- By induction on the callables that are left, with one more of them registered each time.
  induction callables generalizing registry before with
  | nil =>
    rw [List.append_nil]
    exact .inl ⟨registry, rfl, h, hbefore⟩
  | cons callable rest ih =>
    by_cases hname : callable.name ∈ before.map Callable.name
    · obtain ⟨earlier, hearlier, hsame, hfault⟩ := h.register_of_mem hname
      refine .inr ⟨_, ?_, before, callable, rest, earlier, rfl, hbefore, hearlier, hsame, rfl⟩
      rw [registerAll, List.foldlM_cons, hfault]
      rfl
    · obtain ⟨registry', hregister, hlists⟩ := h.register_of_not_mem hname
      have hnodup : ((before ++ [callable]).map Callable.name).Nodup := by
        rw [List.map_append, List.map_singleton]
        exact List.nodup_append.2 ⟨hbefore, List.pairwise_singleton _ _, fun a ha b hb heq =>
          hname (List.mem_singleton.1 hb ▸ heq ▸ ha)⟩
      have hall : registry.registerAll (callable :: rest) = registry'.registerAll rest := by
        rw [registerAll, List.foldlM_cons, hregister]
        rfl
      rw [hall, List.append_cons]
      exact ih hlists hnodup

end Registry

/-! ## Programs of statements -/

namespace Program

/-- The program that statements make up. -/
def ofStmts (stmts : List Stmt) : Except Fault Program := do
  let (main, registry) ← (hoist stmts).run []
  return { main, registry }

/-- A program is read by reading its lines as statements. -/
theorem ofLines_eq (lines : List Line) :
    ofLines lines = bodyIn maxBlocks .main lines >>= ofStmts := rfl

variable {stmts stmts' : List Stmt} {program : Program}

/-- The program has the definitions in these statements, and what is left of them. -/
structure Extracts (stmts : List Stmt) (program : Program) : Prop where
  main : program.main = withoutDefinitions stmts
  noDefinition : ∀ part ∈ bodyParts program.main, part.isDefinition = false
  registry : program.registry.Lists (definitions stmts)

theorem Extracts.unique {program' : Program} (h : Extracts stmts program)
    (h' : Extracts stmts program') : program = program' := by
  obtain ⟨main, registry⟩ := program
  obtain ⟨main', registry'⟩ := program'
  obtain rfl : main = main' := h.main.trans h'.main.symm
  obtain rfl : registry = registry' := h.registry.unique h'.registry
  rfl

/-- The same definitions may stand elsewhere. -/
theorem Extracts.moved (h : Extracts stmts program)
    (hleft : withoutDefinitions stmts = withoutDefinitions stmts')
    (hsame : (definitions stmts).Perm (definitions stmts')) : Extracts stmts' program :=
  ⟨h.main.trans hleft, h.noDefinition, h.registry.of_perm hsame⟩

/-- Statements make up a program if their definitions have different names, and else the
    first definition that has the name of an earlier one is the fault. -/
theorem ofStmts_cases (stmts : List Stmt) :
    (∃ program, ofStmts stmts = .ok program ∧ Extracts stmts program ∧
      ((definitions stmts).map Callable.name).Nodup) ∨
    ∃ fault, ofStmts stmts = .error fault ∧ FirstRepeated (definitions stmts) fault := by
  have hrun := run_hoist stmts []
  rcases Registry.lists_nil.registerAll_cases List.nodup_nil (definitions stmts) with
    ⟨registry, hall, hlists, hnodup⟩ | ⟨fault, hall, hrepeated⟩
  · rw [hall] at hrun
    refine .inl ⟨⟨withoutDefinitions stmts, registry⟩, ?_, ⟨rfl, fun part hpart => ?_, hlists⟩,
      hnodup⟩
    · rw [ofStmts, hrun]
      rfl
    · obtain ⟨_, _, _, _, hdefinition⟩ := exists_part_of_mem_main rfl hpart
      exact hdefinition
  · rw [hall] at hrun
    refine .inr ⟨fault, ?_, hrepeated⟩
    rw [ofStmts, hrun]
    rfl

theorem ofStmts_eq_ok_iff :
    ofStmts stmts = .ok program ↔
      ((definitions stmts).map Callable.name).Nodup ∧ Extracts stmts program := by
  rcases ofStmts_cases stmts with ⟨made, hok, hmade, hnodup⟩ | ⟨fault, herror, hrepeated⟩
  · rw [hok, Except.ok.injEq]
    constructor
    · rintro rfl
      exact ⟨hnodup, hmade⟩
    · exact fun h => hmade.unique h.2
  · rw [herror]
    exact ⟨fun h => (by cases h), fun h => absurd h.1 hrepeated.not_nodup⟩

/-- A program is read by taking the definitions out of its statements. This succeeds exactly
    if no two of them have the same name, at whatever depth they stand. Then the main part is
    the statements without them, and the registry has each of them under its name and nothing
    else. If it fails, the statements are no program, on the line of the first definition whose
    name an earlier one has, and the message has the line of that one. So the same definitions
    give the same program and the same runs wherever they stand. -/
theorem ofStmts_extracts (stmts : List Stmt) :
    (∀ lines, bodyIn maxBlocks .main lines = .ok stmts → ofLines lines = ofStmts stmts) ∧
    ((∃ program, ofStmts stmts = .ok program) ↔
      ((definitions stmts).map Callable.name).Nodup) ∧
    (∀ program, ofStmts stmts = .ok program → Extracts stmts program) ∧
    (∀ fault, ofStmts stmts = .error fault →
      fault.kind = .parse ∧ FirstRepeated (definitions stmts) fault) ∧
    ∀ stmts', withoutDefinitions stmts' = withoutDefinitions stmts →
      (definitions stmts').Perm (definitions stmts) →
      (∀ program, ofStmts stmts' = .ok program ↔ ofStmts stmts = .ok program) ∧
      ∀ options ending,
        (∃ program, ofStmts stmts' = .ok program ∧ program.run options = some ending) ↔
          ∃ program, ofStmts stmts = .ok program ∧ program.run options = some ending := by
  refine ⟨fun lines h => ?_, ⟨?_, fun hnodup => ?_⟩, fun program h => (ofStmts_eq_ok_iff.1 h).2,
    fun fault h => ?_, fun stmts' hleft hsame => ?_⟩
  · rw [ofLines_eq, h]
    rfl
  · rintro ⟨program, h⟩
    exact (ofStmts_eq_ok_iff.1 h).1
  · rcases ofStmts_cases stmts with ⟨program, hok, -⟩ | ⟨fault, -, hrepeated⟩
    · exact ⟨program, hok⟩
    · exact absurd hnodup hrepeated.not_nodup
  · rcases ofStmts_cases stmts with ⟨program, hok, -⟩ | ⟨fault', herror, hrepeated⟩
    · cases hok.symm.trans h
    · cases herror.symm.trans h
      exact ⟨hrepeated.kind, hrepeated⟩
  · have hprogram : ∀ program, ofStmts stmts' = .ok program ↔ ofStmts stmts = .ok program := by
      intro program
      rw [ofStmts_eq_ok_iff, ofStmts_eq_ok_iff, (hsame.map Callable.name).nodup_iff]
      exact and_congr_right fun _ =>
        ⟨fun h => h.moved hleft hsame, fun h => h.moved hleft.symm hsame.symm⟩
    exact ⟨hprogram, fun options ending => exists_congr fun program => by rw [hprogram]⟩

/-- A choice in which a function and, below a loop, a procedure are defined. -/
def scattered : List Stmt :=
  [.ifElse 1 (.logical false) [.define 2 .function "f" ["x"] []]
    [.times 4 (.logical true) [.simple 5 (.call "p" []), .define 6 .procedure "p" [] []]]]

/-- The same in front of the choice, the procedure first. -/
def gathered : List Stmt :=
  [.define 6 .procedure "p" [] [], .define 2 .function "f" ["x"] [],
    .ifElse 1 (.logical false) [] [.times 4 (.logical true) [.simple 5 (.call "p" [])]]]

theorem ofStmts_extracts_scattered :
    (definitions scattered).map Callable.name = ["f", "p"] ∧
    (definitions gathered).map Callable.name = ["p", "f"] ∧
    (∃ program, ofStmts scattered = .ok program ∧ ofStmts gathered = .ok program) ∧
    ofStmts (scattered ++ gathered) =
      .error { cause := .duplicateCallable "p" 6, line := some 6 } ∧
    FirstRepeated (definitions (scattered ++ gathered))
      { cause := .duplicateCallable "p" 6, line := some 6 } := by
  obtain ⟨-, hexists, -, -, hmoved⟩ := ofStmts_extracts scattered
  obtain ⟨program, hprogram⟩ := hexists.2 (by decide)
  have hsame := (hmoved gathered rfl (.swap _ _ _)).1
  have hfault : ofStmts (scattered ++ gathered) =
      .error { cause := .duplicateCallable "p" 6, line := some 6 } := rfl
  exact ⟨rfl, rfl, ⟨program, hprogram, (hsame program).2 hprogram⟩, hfault,
    ((ofStmts_extracts _).2.2.2.1 _ hfault).2⟩

end Program

end Portugol
