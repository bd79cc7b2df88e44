import Portugol.Proofs.BodyParser
import Portugol.Proofs.Scope

/-!
# The statements of a program

A program has statements in statements. `bodyParts` are all of them in the order of the
text, what is in definitions left aside, and `Program.Has` says that a statement is one of
a program: of its main part or of a callable.

A program is made of the statements that its lines are read as, in two ways: the main part
is what is left without the definitions (`withoutDefinitions`), and the callables are the
definitions.

* `run_hoist`: taking the definitions out registers them in the order of the text, and
  leaves the statements without them.
* `Reads.placed`: what the grammar of blocks says of each statement. It starts on one of
  the lines, `RETORNE` stands in callables only, and definitions outside of them.
* `Program.exists_reads_of_parse`: where the statements of a program that is read come from,
  so that it is well formed (`Program.wellFormed_of_parse`) and each of its statements starts
  on one of its lines (`Program.exists_line_of_has`).
-/

namespace Portugol

/-! ## Statements in statements -/

def Simple.isReturn : Simple → Bool
  | .ret _ => true
  | _ => false

namespace Stmt

def isReturn : Stmt → Bool
  | .simple _ action => action.isReturn
  | _ => false

/-- What a definition defines. -/
def callable? : Stmt → Option Callable
  | .define line kind name params body => some { name, params, body, kind, line }
  | _ => none

def isDefinition (stmt : Stmt) : Bool := stmt.callable?.isSome

end Stmt

mutual

/-- A statement and the statements in it, at any depth, in the order of the text. What a
    definition has in it does not count. -/
def Stmt.parts : Stmt → List Stmt
  | .simple line action => [.simple line action]
  | .ifThen line cond body => .ifThen line cond body :: bodyParts body
  | .ifElse line cond body alternate =>
    .ifElse line cond body alternate :: (bodyParts body ++ bodyParts alternate)
  | .count line var first last body => .count line var first last body :: bodyParts body
  | .whileDo line cond body => .whileDo line cond body :: bodyParts body
  | .times line number body => .times line number body :: bodyParts body
  | .define line kind name params body => [.define line kind name params body]

/-- Statements and the statements in them. -/
def bodyParts : List Stmt → List Stmt
  | [] => []
  | stmt :: rest => stmt.parts ++ bodyParts rest

end

theorem Stmt.mem_parts_self (stmt : Stmt) : stmt ∈ stmt.parts := by
  cases stmt <;> simp [parts]

theorem bodyParts_append (before after : List Stmt) :
    bodyParts (before ++ after) = bodyParts before ++ bodyParts after := by
  induction before with
  | nil => rfl
  | cons stmt rest ih => simp only [List.cons_append, bodyParts, ih, List.append_assoc]

/-! ## Definitions taken out -/

mutual

/-- A statement without the definitions in it, unless it is one. -/
def Stmt.withoutDefinitions : Stmt → List Stmt
  | .simple line action => [.simple line action]
  | .ifThen line cond body => [.ifThen line cond (Portugol.withoutDefinitions body)]
  | .ifElse line cond body alternate =>
    [.ifElse line cond (Portugol.withoutDefinitions body) (Portugol.withoutDefinitions alternate)]
  | .count line var first last body =>
    [.count line var first last (Portugol.withoutDefinitions body)]
  | .whileDo line cond body => [.whileDo line cond (Portugol.withoutDefinitions body)]
  | .times line number body => [.times line number (Portugol.withoutDefinitions body)]
  | .define .. => []

/-- Statements without the definitions among and in them. -/
def withoutDefinitions : List Stmt → List Stmt
  | [] => []
  | stmt :: rest => stmt.withoutDefinitions ++ withoutDefinitions rest

end

/-- The definitions among and in statements, in the order of the text. -/
def definitions (stmts : List Stmt) : List Callable := (bodyParts stmts).filterMap Stmt.callable?

/-- Registers callables one after the other. -/
def Registry.registerAll (registry : Registry) (callables : List Callable) :
    Except Fault Registry :=
  callables.foldlM Registry.register registry

namespace Registry

theorem registerAll_append (registry : Registry) (callables callables' : List Callable) :
    registry.registerAll (callables ++ callables') =
      registry.registerAll callables >>= (registerAll · callables') :=
  List.foldlM_append

theorem registerAll_singleton (registry : Registry) (callable : Callable) :
    registry.registerAll [callable] = registry.register callable := by
  rw [registerAll, List.foldlM_cons]
  cases registry.register callable <;> rfl

end Registry

namespace Registering

variable {α β : Type} {registry : Registry} {callables callables' : List Callable} {a : α} {b : β}

/-- Callables of one part of a program are registered, and then those of another one. -/
theorem run_bind_of_registerAll {x : Registering α} {f : α → Registering β}
    (hx : x.run registry = (registry.registerAll callables).map (a, ·))
    (hf : ∀ registry, (f a).run registry = (registry.registerAll callables').map (b, ·)) :
    (x >>= f).run registry = (registry.registerAll (callables ++ callables')).map (b, ·) := by
  rw [StateT.run_bind, hx, Registry.registerAll_append]
  cases registry.registerAll callables with
  | error fault => rfl
  | ok registry' => exact hf registry'

theorem run_bind_pure_of_registerAll {x : Registering α} (f : α → β)
    (hx : x.run registry = (registry.registerAll callables).map (a, ·)) :
    (x >>= fun a => pure (f a)).run registry = (registry.registerAll callables).map (f a, ·) := by
  rw [StateT.run_bind, hx]
  cases registry.registerAll callables <;> rfl

end Registering

theorem definitions_cons (stmt : Stmt) (rest : List Stmt) :
    definitions (stmt :: rest) = stmt.parts.filterMap Stmt.callable? ++ definitions rest :=
  List.filterMap_append

mutual

/-- Taking the definitions out registers them in the order of the text, and leaves the
    statements without them. -/
theorem run_hoist : ∀ (stmts : List Stmt) (registry : Registry),
    (hoist stmts).run registry =
      (registry.registerAll (definitions stmts)).map (withoutDefinitions stmts, ·)
  | [], _ => rfl
  | stmt :: rest, registry => by
    rw [definitions_cons]
    refine Registering.run_bind_of_registerAll (run_hoistStmt stmt registry) fun registry' => ?_
    have hrest := run_hoist rest registry'
    -- Nothing is left of a definition, and one statement of any other.
    cases stmt with
    | define => exact hrest
    | simple | ifThen | ifElse | count | whileDo | times =>
      exact Registering.run_bind_pure_of_registerAll (_ :: ·) hrest

theorem run_hoistStmt : ∀ (stmt : Stmt) (registry : Registry),
    (hoistStmt stmt).run registry =
      (registry.registerAll (stmt.parts.filterMap Stmt.callable?)).map
        (stmt.withoutDefinitions.head?, ·)
  | .define line kind name params body, registry => by
    have hrun : (hoistStmt (.define line kind name params body)).run registry =
        (registry.register { name, params, body, kind, line }).map ((none : Option Stmt), ·) := by
      cases h : registry.register { name, params, body, kind, line } <;>
        simp [hoistStmt, h] <;> rfl
    rw [hrun]
    exact congrArg _ (Registry.registerAll_singleton registry _).symm
  | .simple .., _ => rfl
  | .ifThen line cond body, registry =>
    Registering.run_bind_pure_of_registerAll (fun body => some (Stmt.ifThen line cond body))
      (run_hoist body registry)
  | .ifElse line cond body alternate, registry => by
    have hparts : (Stmt.ifElse line cond body alternate).parts.filterMap Stmt.callable? =
        definitions body ++ definitions alternate :=
      List.filterMap_append
    rw [hparts]
    refine Registering.run_bind_of_registerAll (run_hoist body registry) fun registry' => ?_
    exact Registering.run_bind_pure_of_registerAll
      (fun alternate => some (Stmt.ifElse line cond _ alternate)) (run_hoist alternate registry')
  | .count line var first last body, registry =>
    Registering.run_bind_pure_of_registerAll
      (fun body => some (Stmt.count line var first last body)) (run_hoist body registry)
  | .whileDo line cond body, registry =>
    Registering.run_bind_pure_of_registerAll (fun body => some (Stmt.whileDo line cond body))
      (run_hoist body registry)
  | .times line number body, registry =>
    Registering.run_bind_pure_of_registerAll (fun body => some (Stmt.times line number body))
      (run_hoist body registry)

end

mutual

/-- The parts of what is left without definitions are the parts themselves without
    definitions. -/
theorem bodyParts_withoutDefinitions : ∀ stmts : List Stmt,
    bodyParts (withoutDefinitions stmts) = (bodyParts stmts).flatMap Stmt.withoutDefinitions
  | [] => rfl
  | stmt :: rest => by
    rw [withoutDefinitions, bodyParts_append, bodyParts, List.flatMap_append,
      bodyParts_withoutDefinitions_stmt stmt, bodyParts_withoutDefinitions rest]

theorem bodyParts_withoutDefinitions_stmt : ∀ stmt : Stmt,
    bodyParts stmt.withoutDefinitions = stmt.parts.flatMap Stmt.withoutDefinitions
  | .simple .. | .define .. => rfl
  | .ifThen _ _ body | .count _ _ _ _ body | .whileDo _ _ body | .times _ _ body => by
    simp only [Stmt.withoutDefinitions, bodyParts, Stmt.parts, List.flatMap_cons, List.append_nil,
      bodyParts_withoutDefinitions body, List.singleton_append]
  | .ifElse _ _ body alternate => by
    simp only [Stmt.withoutDefinitions, bodyParts, Stmt.parts, List.flatMap_cons, List.append_nil,
      List.flatMap_append, bodyParts_withoutDefinitions body,
      bodyParts_withoutDefinitions alternate, List.singleton_append]

end

/-- A statement without the definitions in it starts on the same line and is as much of a
    `RETORNE`, and it is no definition. -/
theorem Stmt.of_mem_withoutDefinitions {stmt left : Stmt} (h : left ∈ stmt.withoutDefinitions) :
    left.line = stmt.line ∧ left.isReturn = stmt.isReturn ∧ left.isDefinition = false := by
  cases stmt with
  | define => cases h
  | simple | ifThen | ifElse | count | whileDo | times =>
    obtain rfl := List.mem_singleton.1 h
    exact ⟨rfl, rfl, rfl⟩

/-- What is registered was registered before, or it is one of the callables under its own
    name. -/
theorem Registry.mem_of_registerAll {registry registry' : Registry} {callables : List Callable}
    (h : registry.registerAll callables = .ok registry') {name : String} {callable : Callable}
    (hmem : (name, callable) ∈ registry') :
    (name, callable) ∈ registry ∨ callable ∈ callables ∧ callable.name = name := by
  induction callables generalizing registry with
  | nil =>
    cases h
    exact .inl hmem
  | cons first rest ih =>
    obtain ⟨middle, hfirst, hrest⟩ := Fault.bind_eq_ok_iff.1 h
    rcases ih hrest with hmiddle | ⟨hrest, hname⟩
    · rw [register] at hfirst
      split at hfirst
      · cases hfirst
      · cases hfirst
        rcases Dict.mem_of_mem_insert hmiddle with hnew | hold
        · cases hnew
          exact .inr ⟨List.mem_cons_self, rfl⟩
        · exact .inl hold
    · exact .inr ⟨List.mem_cons_of_mem _ hrest, hname⟩

/-! ## Reading statements -/

namespace LineParser

theorem yields_nameStatement (name text : String) :
    Yields (·.isReturn = false) (nameStatement name text) := by
  refine .of_bind fun cursor => ?_
  split
  · exact .of_bind fun _ => .of_bind fun _ => .of_bind fun _ => .pure rfl
  · exact .of_bind fun _ => .of_bind fun _ => .of_bind fun _ => .of_bind fun _ =>
      .of_bind fun _ => .of_bind fun _ => .pure rfl
  · exact .of_bind fun _ => .of_bind fun _ => .pure rfl
  · exact .fail _

/-- `RETORNE` does not stand in the main program. -/
theorem yields_simple (text : String) : Yields (·.isReturn = false) (simple .main text) := by
  have hdone : ∀ action : Simple, action.isReturn = false →
      Yields (·.isReturn = false) (expectEnd >>= fun _ => Pure.pure action) :=
    fun action h => .of_bind fun _ => .pure h
  simp only [simple, pure_bind]
  refine .of_bind fun kind => ?_
  split
  case h_1 | h_2 | h_3 =>
    exact .of_bind fun _ => .of_bind fun _ => .of_bind fun _ => hdone _ rfl
  case h_4 | h_5 | h_6 | h_8 => exact .fail_bind _ _
  case h_7 => exact .bind (yields_nameStatement _ _) hdone

/-- No two parameters have the same name. -/
theorem yields_params (callable : String) {before : List String} (h : before.Nodup)
    (tokens : Nat) : Yields List.Nodup (params callable before tokens) := by
  induction tokens generalizing before with
  | zero => exact .unexpected _
  | succ tokens ih =>
    refine .of_bind fun param => ?_
    dsimp only
    split
    · exact .fail_bind _ _
    · rename_i hparam
      have hnodup : (before ++ [param]).Nodup := List.nodup_append.2
        ⟨h, List.pairwise_singleton _ param, fun a ha b hb => by
          rintro rfl
          exact hparam (List.mem_singleton.1 hb ▸ ha)⟩
      refine .of_bind fun comma => ?_
      split
      · exact ih hnodup
      · exact .of_bind fun _ => .pure hnodup

theorem yields_callableHeader (kind : CallableKind) :
    Yields (·.2.Nodup) (callableHeader kind) := by
  have hdone : ∀ (name : String) (params : List String), params.Nodup →
      Yields (·.2.Nodup) (expectEnd >>= fun _ => Pure.pure (name, params)) :=
    fun _ _ h => .of_bind fun _ => .pure h
  have hlist : ∀ name, Yields (·.2.Nodup) (do
      let params ←
        if ← eat (.symbol .closeParen) then Pure.pure []
        else params name [] (← get).tokens.length
      expectEnd
      Pure.pure (name, params)) := by
    intro name
    refine .of_bind fun closed => ?_
    cases closed with
    | true => exact hdone name [] List.nodup_nil
    | false =>
      exact .of_bind fun cursor => .bind (yields_params name List.nodup_nil _) (hdone name)
  cases kind with
  | function => exact .of_bind fun _ => .of_bind fun name => .of_bind fun _ => hlist name
  | procedure =>
    refine .of_bind fun _ => .of_bind fun name => .of_bind fun parens => ?_
    cases parens with
    | true => exact hlist name
    | false => exact hdone name [] List.nodup_nil

end LineParser

/-- What the grammar of blocks says of a statement that is read from lines in a context. -/
structure Placed (context : Context) (lines : List Line) (stmt : Stmt) : Prop where
  line : ∃ line ∈ lines, line.number = stmt.line
  outside : context = .main → stmt.isReturn = false
  definition : ∀ callable, stmt.callable? = some callable → context = .main ∧
    callable.params.Nodup ∧ ∃ t : Layout, t.lines ⊆ lines ∧ Reads .callable t callable.body

theorem Placed.mono {context : Context} {lines lines' : List Line} {stmt : Stmt}
    (h : Placed context lines stmt) (hlines : lines ⊆ lines') : Placed context lines' stmt where
  line := h.line.imp fun _ => And.imp_left (hlines ·)
  outside := h.outside
  definition callable hcallable := by
    obtain ⟨hcontext, hparams, t, ht, hreads⟩ := h.definition callable hcallable
    exact ⟨hcontext, hparams, t, List.Subset.trans ht hlines, hreads⟩

namespace Opens

variable {kind : BlockKind} {context inner : Context} {header : Line} {wrap : List Stmt → Stmt}
  {inside : List Stmt}

/-- A block is in itself, and what is inside of it, unless it is a definition. -/
theorem of_mem_parts (h : Opens kind context header inner wrap) {part : Stmt}
    (hpart : part ∈ (wrap inside).parts) :
    part = wrap inside ∨ inner = context ∧ part ∈ bodyParts inside := by
  cases h with
  | function | procedure => exact .inl (List.mem_singleton.1 hpart)
  | ifThen | count | whileDo | times =>
    exact (List.mem_cons.1 hpart).imp_right fun h => ⟨rfl, h⟩

theorem placed (h : Opens kind context header inner wrap) {body : Layout}
    (hbody : Reads inner body inside) {lines : List Line} (hheader : header ∈ lines)
    (hlines : body.lines ⊆ lines) : Placed context lines (wrap inside) := by
  cases h with
  | function hparse | procedure hparse =>
    obtain ⟨c, hrun⟩ := LineParser.parse_eq_ok_iff.1 hparse
    refine ⟨⟨header, hheader, rfl⟩, fun _ => rfl, ?_⟩
    rintro _ ⟨⟩
    exact ⟨rfl, LineParser.yields_callableHeader _ hrun, body, hlines, hbody⟩
  | ifThen | count | whileDo | times =>
    exact ⟨⟨header, hheader, rfl⟩, fun _ => rfl, fun _ h => (by cases h)⟩

end Opens

/-- Each statement that is read starts on one of the lines. `RETORNE` is read in callables
    only, and definitions outside of them. -/
theorem Reads.placed {context : Context} {t : Layout} {stmts : List Stmt}
    (h : Reads context t stmts) : ∀ part ∈ bodyParts stmts, Placed context t.lines part := by
  induction h with
  | done => exact fun _ h => (by cases h)
  | @statement context line rest action stmts _ hsimple _ ih =>
    intro part hpart
    rcases List.mem_append.1 hpart with hpart | hpart
    · obtain rfl := List.mem_singleton.1 hpart
      refine ⟨⟨line, List.mem_cons_self, rfl⟩, ?_, fun _ h => (by cases h)⟩
      rintro rfl
      obtain ⟨c, hrun⟩ := LineParser.parse_eq_ok_iff.1 hsimple
      exact LineParser.yields_simple _ hrun
    · exact (ih part hpart).mono (List.subset_cons_self _ _)
  | @block context inner kind header stop body rest wrap inside stmts hopens hbody _ _ ihbody ih =>
    intro part hpart
    have hinside : body.lines ⊆ (Layout.block kind header body stop rest).lines :=
      List.subset_cons_of_subset _ (List.subset_append_left _ _)
    have hbehind : rest.lines ⊆ (Layout.block kind header body stop rest).lines :=
      List.subset_cons_of_subset _
        (List.subset_append_of_subset_right _ (List.subset_cons_self _ _))
    rcases List.mem_append.1 hpart with hpart | hpart
    · rcases hopens.of_mem_parts hpart with rfl | ⟨rfl, hpart⟩
      · exact hopens.placed hbody List.mem_cons_self hinside
      · exact (ihbody part hpart).mono hinside
    · exact (ih part hpart).mono hbehind
  | @branches context header marker stop body alternate rest cond inside otherwise stmts
      hheader hbody _ _ _ _ ihbody ihalternate ih =>
    intro part hpart
    have hlines : ∀ lines ∈ [body.lines, alternate.lines, rest.lines],
        lines ⊆ (Layout.branches header body marker alternate stop rest).lines := by
      intro lines hmem line hline
      simp only [List.mem_cons, List.not_mem_nil, or_false] at hmem
      simp only [Layout.lines, List.mem_cons, List.mem_append]
      rcases hmem with rfl | rfl | rfl <;> simp only [hline, true_or, or_true]
    rcases List.mem_append.1 hpart with hpart | hpart
    · rcases List.mem_cons.1 hpart with rfl | hpart
      · exact ⟨⟨header, List.mem_cons_self, rfl⟩, fun _ => rfl, fun _ h => (by cases h)⟩
      · rcases List.mem_append.1 hpart with hpart | hpart
        · exact (ihbody part hpart).mono (hlines _ (by simp))
        · exact (ihalternate part hpart).mono (hlines _ (by simp))
    · exact (ih part hpart).mono (hlines _ (by simp))

/-! ## The statements of a program -/

namespace Program

/-- A statement of a program: of its main part, or of the body of a callable. -/
def Has (program : Program) (stmt : Stmt) : Prop :=
  stmt ∈ bodyParts program.main ∨ ∃ entry ∈ program.registry, stmt ∈ bodyParts entry.2.body

variable {source : String} {program : Program}

/-- A program that is read is made of the statements that its lines stand for: the main
    part is what is left without the definitions, and they are registered. -/
theorem exists_reads_of_parse (h : Program.parse source = .ok program) :
    ∃ t stmts, Source.tokenize source = .ok t.lines ∧ t.depth ≤ maxBlocks ∧ Reads .main t stmts ∧
      program.main = withoutDefinitions stmts ∧
      Registry.registerAll [] (definitions stmts) = .ok program.registry := by
  rw [parse] at h
  split at h
  · cases h
  · rename_i lines hlines
    obtain ⟨stmts, hstmts, h⟩ := Fault.bind_eq_ok_iff.1 h
    obtain ⟨⟨main, registry⟩, hhoist, h⟩ := Fault.bind_eq_ok_iff.1 h
    cases h
    obtain ⟨t, rfl, hdepth, hreads⟩ := bodyIn_eq_ok_iff.1 hstmts
    rw [run_hoist] at hhoist
    cases hregistry : Registry.registerAll [] (definitions stmts) with
    | error fault =>
      rw [hregistry] at hhoist
      cases hhoist
    | ok registry' =>
      rw [hregistry] at hhoist
      cases hhoist
      exact ⟨t, stmts, hlines, hdepth, hreads, rfl, hregistry⟩

/-- What is in the main part is what is left of a statement that is read, and it is no
    definition. -/
theorem exists_part_of_mem_main {stmts : List Stmt} (h : program.main = withoutDefinitions stmts)
    {stmt : Stmt} (hstmt : stmt ∈ bodyParts program.main) :
    ∃ part ∈ bodyParts stmts, stmt.line = part.line ∧ stmt.isReturn = part.isReturn ∧
      stmt.isDefinition = false := by
  rw [h, bodyParts_withoutDefinitions] at hstmt
  obtain ⟨part, hpart, hleft⟩ := List.mem_flatMap.1 hstmt
  exact ⟨part, hpart, Stmt.of_mem_withoutDefinitions hleft⟩

/-- What is registered is defined by a statement that is read. -/
theorem exists_part_of_mem_registry {stmts : List Stmt}
    (h : Registry.registerAll [] (definitions stmts) = .ok program.registry)
    {name : String} {callable : Callable} (hentry : (name, callable) ∈ program.registry) :
    callable.name = name ∧ ∃ part ∈ bodyParts stmts, part.callable? = some callable := by
  rcases Registry.mem_of_registerAll h hentry with hnil | ⟨hcallable, hname⟩
  · cases hnil
  · exact ⟨hname, List.mem_filterMap.1 hcallable⟩

/-- Definitions are neither in the main part nor in callables, and `RETORNE` is not in the
    main part. Callables are registered under their own names, with parameters of different
    names. -/
structure WellFormed (program : Program) : Prop where
  main : ∀ stmt ∈ bodyParts program.main, stmt.isDefinition = false ∧ stmt.isReturn = false
  bodies : ∀ entry ∈ program.registry, ∀ stmt ∈ bodyParts entry.2.body, stmt.isDefinition = false
  names : ∀ entry ∈ program.registry, entry.2.name = entry.1
  params : ∀ entry ∈ program.registry, entry.2.params.Nodup

theorem wellFormed_of_parse (h : Program.parse source = .ok program) : program.WellFormed := by
  obtain ⟨t, stmts, _, _, hreads, hmain, hregistry⟩ := exists_reads_of_parse h
  constructor
  · intro stmt hstmt
    obtain ⟨part, hpart, _, hreturn, hdefinition⟩ := exists_part_of_mem_main hmain hstmt
    exact ⟨hdefinition, hreturn.trans ((hreads.placed part hpart).outside rfl)⟩
  · rintro ⟨name, callable⟩ hentry stmt hstmt
    obtain ⟨_, part, hpart, hcallable⟩ := exists_part_of_mem_registry hregistry hentry
    obtain ⟨_, _, _, _, hbody⟩ := (hreads.placed part hpart).definition callable hcallable
    cases hdefined : stmt.callable? with
    | none => rw [Stmt.isDefinition, hdefined, Option.isSome_none]
    | some inner =>
      -- A definition would be read in the main part.
      obtain ⟨hcontext, _⟩ := (hbody.placed stmt hstmt).definition inner hdefined
      cases hcontext
  · rintro ⟨name, callable⟩ hentry
    exact (exists_part_of_mem_registry hregistry hentry).1
  · rintro ⟨name, callable⟩ hentry
    obtain ⟨_, part, hpart, hcallable⟩ := exists_part_of_mem_registry hregistry hentry
    exact ((hreads.placed part hpart).definition callable hcallable).2.1

/-- Every statement of a program starts on one of its lines. -/
theorem exists_line_of_has (h : Program.parse source = .ok program) {stmt : Stmt}
    (hstmt : program.Has stmt) :
    ∃ lines, Source.tokenize source = .ok lines ∧ ∃ line ∈ lines, line.number = stmt.line := by
  obtain ⟨t, stmts, hlines, _, hreads, hmain, hregistry⟩ := exists_reads_of_parse h
  refine ⟨t.lines, hlines, ?_⟩
  rcases hstmt with hstmt | ⟨⟨name, callable⟩, hentry, hstmt⟩
  · obtain ⟨part, hpart, hline, _⟩ := exists_part_of_mem_main hmain hstmt
    rw [hline]
    exact (hreads.placed part hpart).line
  · obtain ⟨_, part, hpart, hcallable⟩ := exists_part_of_mem_registry hregistry hentry
    obtain ⟨_, _, inner, hinner, hbody⟩ := (hreads.placed part hpart).definition callable hcallable
    obtain ⟨line, hline, hnumber⟩ := (hbody.placed stmt hstmt).line
    exact ⟨line, hinner hline, hnumber⟩

end Program

end Portugol
