import Mathlib.Data.List.DropRight
import Mathlib.Data.List.Forall2
import Portugol.Proofs.ExprParser
import Portugol.Proofs.Literals
import Portugol.Proofs.Parts
import Portugol.Proofs.Step
import Portugol.Run

/-!
# Printing literals

A program whose lines only print literals prints what the literals say. It goes through every
step from the text to the report: a line of such a program stays as it is when it is normalized
and, if it is the only one, reflowed; its tokens are those of the literals, with commas between
them; it is read as a statement, and the statement adds to the output and to nothing else.

* `Row`: what can be put together to such a line.
* `Printing.tokenize_source`, `Printing.parse_source`: the tokens of the program, and the
  statements.
* `Exec.execBody_printing`: what the statements do.
* `interpret_printing`: the report.
-/

namespace Portugol

open Lexer

/-! ## Lines that print -/

/-- Blanks within a line. -/
abbrev Gap := {cs : List Char // ∀ c ∈ cs, c ∈ [' ', '\t']}

/-- A literal to print, with the blanks around it. -/
structure Argument where
  before : Gap
  literal : Literal
  after : Gap

def Argument.spelling (arg : Argument) : List Char :=
  arg.before.1 ++ (arg.literal.spelling ++ arg.after.1)

/-- A statement that prints literals: at least one, or any number of them and a line end. -/
inductive Printing
  | print (first : Argument) (more : List Argument)
  | printLine (args : List Argument)

namespace Printing

def keyword : Printing → Keyword
  | print _ _ => .imprima
  | printLine _ => .imprimaln

def args : Printing → List Argument
  | print first more => first :: more
  | printLine args => args

/-- What stands behind the keyword: the literals with commas between them. -/
def rest (p : Printing) : List Char :=
  if p.args.isEmpty then [] else ' ' :: [','].intercalate (p.args.map Argument.spelling)

/-- The line of the statement. -/
def spelling (p : Printing) : List Char := p.keyword.spelling.toList ++ p.rest

/-- What is printed behind the literals. -/
def lineEnd : Printing → String
  | print _ _ => ""
  | printLine _ => "\n"

/-- What the statement prints. -/
def output (p : Printing) : String := String.join (p.args.map (·.literal.display)) ++ p.lineEnd

/-- The program of these statements, each on a line of its own. The last line may be ended. -/
def source (statements : List Printing) (ended : Bool) : String :=
  String.ofList (Source.joined (statements.map spelling ++ if ended then [[]] else []))

/-- The phrases that the statement prints. -/
def phrases (p : Printing) : List Phrase := p.args.map (·.literal.phrase)

/-- The statement with these expressions to print. -/
def statement : Printing → List Expr → Simple
  | print _ _ => .print
  | printLine _ => .printLine

def action (p : Printing) : Simple := p.statement (p.phrases.map Phrase.value)

end Printing

/-! ## Rows -/

/-- The tokens of phrases with commas between them. -/
def Phrase.separated (phrases : List Phrase) : List TokenKind :=
  [TokenKind.symbol .comma].intercalate (phrases.map tokens)

/-- Lexemes with these tokens, none of them an operator, that stand on one line and stay as they
    are when it is normalized and reflowed. -/
structure Row (cs : List Char) (kinds : List TokenKind) : Prop where
  spells : Spells cs kinds
  operators : kinds.countP TokenKind.isOperator = 0
  untouched : Source.Untouched cs
  onLine : Source.OnLine cs

namespace Row

variable {cs : List Char} {kinds : List TokenKind}

theorem nil : Row [] [] := ⟨.nil, rfl, .nil, .nil⟩

theorem of_blank : ∀ c ∈ [' ', '\t'], isSpace c = true ∧ isWordChar c = false ∧ c ∉ quotes ∧
    c ∉ ['/', '←', ':'] ∧ Source.isBreak c = false :=
  forall_mem_of_all (by decide +kernel)

theorem blank (h : Row cs kinds) {c : Char} (hc : c ∈ [' ', '\t']) : Row (c :: cs) kinds := by
  obtain ⟨hspace, hword, hquote, hplain, hbreak⟩ := of_blank c hc
  exact ⟨.cons (.space hspace) h.spells, h.operators, .plain hword hquote hplain h.untouched,
    List.forall_mem_cons.2 ⟨hbreak, h.onLine⟩⟩

theorem gap (h : Row cs kinds) (gap : Gap) : Row (gap.1 ++ cs) kinds := by
  obtain ⟨gap, hgap⟩ := gap
  induction gap with
  | nil => exact h
  | cons c gap ih =>
    obtain ⟨hc, hgap⟩ := List.forall_mem_cons.1 hgap
    exact (ih hgap).blank hc

theorem comma (h : Row cs kinds) : Row (',' :: cs) (.symbol .comma :: kinds) := by
  have hlexes : Lexes [','] cs (some (.symbol .comma)) :=
    .symbol rfl fun hc => absurd hc (by decide)
  have hsign : IsSign ',' := .of_symbol (by decide)
  refine ⟨.cons hlexes h.spells, ?_, .plain hsign.notWord (by decide) (by decide) h.untouched,
    List.forall_mem_cons.2 ⟨by decide, h.onLine⟩⟩
  rw [List.countP_cons_of_neg (by decide), h.operators]

theorem literal (h : Row cs kinds) (hended : Literal.Ended cs) (literal : Literal) :
    Row (literal.spelling ++ cs) (literal.phrase.tokens ++ kinds) := by
  have hoperators : literal.phrase.tokens.countP TokenKind.isOperator = 0 := by
    cases literal with
    | logical b => cases b <;> rfl
    | number | text => rfl
  obtain ⟨kind, htokens, hlexes⟩ := literal.lexes hended
  rw [htokens] at hoperators ⊢
  refine ⟨.cons hlexes h.spells, ?_, literal.untouched hended h.untouched,
    literal.onLine.append h.onLine⟩
  rw [List.countP_append, hoperators, h.operators]

theorem ended_gap (hended : Literal.Ended cs) : ∀ gap : Gap, Literal.Ended (gap.1 ++ cs)
  | ⟨[], _⟩ => hended
  | ⟨c :: _, hgap⟩ => by
    rintro _ ⟨⟩
    exact List.mem_append_left [','] (hgap c List.mem_cons_self)

theorem argument (h : Row cs kinds) (hended : Literal.Ended cs) (arg : Argument) :
    Row (arg.spelling ++ cs) (arg.literal.phrase.tokens ++ kinds) := by
  rw [Argument.spelling, List.append_assoc, List.append_assoc]
  exact ((h.gap arg.after).literal (ended_gap hended arg.after) arg.literal).gap arg.before

/-- Arguments with commas between them, and nothing behind. -/
theorem arguments (args : List Argument) :
    Row ([','].intercalate (args.map Argument.spelling))
      (Phrase.separated (args.map (·.literal.phrase))) := by
  induction args with
  | nil => exact .nil
  | cons first rest ih =>
    cases rest with
    | nil =>
      have hrow := Row.nil.argument (fun _ hc => by cases hc) first
      rw [List.append_nil, List.append_nil] at hrow
      simpa [Phrase.separated] using hrow
    | cons next rest =>
      simp only [Phrase.separated, List.map_cons, List.intercalate_cons_cons, List.append_assoc,
        List.singleton_append] at ih ⊢
      refine ih.comma.argument (fun c hc => ?_) first
      cases hc
      decide

end Row

namespace Printing

/-- The tokens of the statement. -/
def kinds (p : Printing) : List TokenKind := .keyword p.keyword :: Phrase.separated p.phrases

theorem row_rest (p : Printing) : Row p.rest (Phrase.separated p.phrases) := by
  rw [rest, phrases]
  split
  · rename_i hargs
    rw [List.isEmpty_iff.1 hargs]
    exact .nil
  · exact (Row.arguments p.args).blank List.mem_cons_self

theorem ended_rest (p : Printing) : Literal.Ended p.rest := by
  intro c hc
  rw [rest] at hc
  split at hc
  · cases hc
  · cases hc
    exact List.mem_cons_self

theorem spells_spelling (p : Printing) : Spells p.spelling p.kinds :=
  .cons (p.keyword.lexes_spelling fun c hc => (Literal.Ended.of_mem c (p.ended_rest c hc)).1)
    p.row_rest.spells

theorem onLine_spelling (p : Printing) : Source.OnLine p.spelling :=
  (Source.OnLine.of_isWordChar fun _ => Keyword.isWordChar_of_mem_spelling).append p.row_rest.onLine

/-- The only line of a program stays as it is, and so does one among others. -/
theorem reflow_normalLine_spelling (p : Printing) :
    reflow (Source.normalLine p.spelling) = Source.normalLine p.spelling := by
  have hnormal : Source.normalLine p.spelling = p.spelling := by
    rw [spelling, Source.normalLine_keyword (fun _ => Keyword.isWordChar_of_mem_spelling)
      (Keyword.ofWord?_spelling _) p.ended_rest.isWordChar, p.row_rest.untouched.normalLine_eq]
  rw [hnormal]
  refine p.row_rest.untouched.reflow_eq ?_ ?_ p.ended_rest.isWordChar
  · cases p <;> rfl
  · cases p <;> nofun

end Printing

/-! ## Tokens -/

namespace Source

theorem exists_of_mem_numbered {first : Nat} {physical : List (List Char)}
    {entry : Nat × List Char} (h : entry ∈ numbered first physical) :
    ∃ line ∈ physical, entry.2 = normalLine line := by
  induction physical generalizing first with
  | nil => cases h
  | cons line rest ih =>
    rcases List.mem_cons.1 h with rfl | h
    · exact ⟨line, List.mem_cons_self, rfl⟩
    · obtain ⟨line', hline', heq⟩ := ih h
      exact ⟨line', List.mem_cons_of_mem line hline', heq⟩

/-- A text with lines that reflow leaves as they are is not reflowed, even if it has only one. -/
theorem normalize_of_reflow_eq {source : String}
    (h : ∀ line ∈ physicalLines source, reflow (normalLine line) = normalLine line) :
    normalize source = (numbered 1 (physicalLines source)).map fun (number, text) =>
      ⟨number, String.ofList text⟩ := by
  refine List.map_congr_left fun entry hentry => ?_
  obtain ⟨line, hline, htext⟩ := exists_of_mem_numbered hentry
  have hreflow : reflow entry.2 = entry.2 := htext ▸ h line hline
  simp only [hreflow, ite_self]

/-- Lines that are spelled by tokens have these tokens as they are written. -/
theorem exists_mapM_of_spells {texts : List (List Char)} {kinds : List (List TokenKind)}
    (h : List.Forall₂ Spells texts kinds) (first : Nat) :
    ∃ raw, (texts.zipIdx first).mapM (fun (text, number) =>
        Line.ofText number (String.ofList text)) = .ok raw ∧
      raw.map Line.reading = (kinds.zipIdx first).map Prod.swap := by
  induction h generalizing first with
  | nil => exact ⟨[], rfl, rfl⟩
  | cons htext _ ih =>
    obtain ⟨line, hline, hreading⟩ := (Line.exists_ofText_iff first).2 htext
    obtain ⟨raw, hraw, hreadings⟩ := ih (first + 1)
    refine ⟨line :: raw, ?_, ?_⟩
    · rw [List.zipIdx_cons]
      exact mapM_cons_eq_ok_iff.2 ⟨line, raw, hline, hraw, rfl⟩
    · rw [List.map_cons, hreading, hreadings]
      rfl

/-- A text with lines that reflow leaves as they are has the tokens that its lines spell. -/
theorem exists_tokenize_of_spells {source : String} {kinds : List (List TokenKind)}
    (h : List.Forall₂ Spells (physicalLines source) kinds)
    (hreflow : ∀ line ∈ physicalLines source, reflow (normalLine line) = normalLine line) :
    ∃ lines, tokenize source = .ok lines ∧ lines.map Line.reading =
      ((kinds.zipIdx 1).map Prod.swap).filter fun reading => !reading.2.isEmpty := by
  obtain ⟨raw, hraw, hreadings⟩ := exists_mapM_of_spells h 1
  obtain ⟨lines, hlines, hfilter⟩ := mapM_segments_numbered hraw
  have hempty : (fun line : Line => !line.tokens.isEmpty) =
      (fun reading => !reading.2.isEmpty) ∘ Line.reading := by
    funext line
    simp [Line.reading]
  refine ⟨lines, ?_, ?_⟩
  · rw [tokenize, normalize_of_reflow_eq hreflow]
    exact hlines
  · rw [hfilter, hempty, ← List.filter_map, hreadings]

end Source

namespace Printing

open Source

variable (first : Printing) (more : List Printing) (ended : Bool)

/-- A line that has been ended leaves an empty one behind it. -/
theorem physicalLines_source : physicalLines (source (first :: more) ended) =
    (first :: more).map spelling ++ if ended then [[]] else [] := by
  have honLine : ∀ text ∈ (first :: more).map spelling ++ if ended then [[]] else [],
      OnLine text := by
    refine List.forall_mem_append.2 ⟨List.forall_mem_map.2 fun p _ => p.onLine_spelling, ?_⟩
    cases ended with
    | true => exact List.forall_mem_singleton.2 .nil
    | false => exact List.forall_mem_nil _
  rw [physicalLines, source, String.toList_ofList]
  exact lines_unifyBreaks_joined honLine

/-- The program has the tokens of its statements, with the numbers of their lines. -/
theorem tokenize_source : ∃ lines, tokenize (source (first :: more) ended) = .ok lines ∧
    lines.map Line.reading = (((first :: more).map kinds).zipIdx 1).map Prod.swap := by
  have hreflow : ∀ line ∈ physicalLines (source (first :: more) ended),
      reflow (normalLine line) = normalLine line := by
    rw [physicalLines_source]
    refine List.forall_mem_append.2
      ⟨List.forall_mem_map.2 fun p _ => p.reflow_normalLine_spelling, ?_⟩
    cases ended with
    | true => exact List.forall_mem_singleton.2 (by rw [normalLine_nil, reflow, Piece.split]; rfl)
    | false => exact List.forall_mem_nil _
  have hspells : List.Forall₂ Spells (physicalLines (source (first :: more) ended))
      ((first :: more).map kinds ++ if ended then [[]] else []) := by
    rw [physicalLines_source]
    refine List.rel_append ?_ ?_
    · rw [List.forall₂_map_left_iff, List.forall₂_map_right_iff]
      exact List.forall₂_same.2 fun p _ => p.spells_spelling
    · cases ended with
      | true => exact .cons .nil .nil
      | false => exact .nil
  obtain ⟨lines, hlines, hreadings⟩ := exists_tokenize_of_spells hspells hreflow
  refine ⟨lines, hlines, ?_⟩
  -- Only the line behind the last one has no tokens.
  rw [hreadings, List.zipIdx_append, List.map_append, List.filter_append, List.filter_eq_self.2,
    List.filter_eq_nil_iff.2, List.append_nil]
  · cases ended <;> simp
  · rintro reading hreading
    obtain ⟨entry, hentry, rfl⟩ := List.mem_map.1 hreading
    obtain ⟨p, _, hkinds⟩ := List.mem_map.1 (List.fst_mem_of_mem_zipIdx hentry)
    simp [← hkinds, kinds]

end Printing

/-! ## Statements -/

namespace LineParser

open Phrase

variable {c c₁ c₂ c' : Cursor}

/-- An expression to print, and what it takes to read the ones behind it. -/
theorem run_printArgs_cons {room : Nat} {e : Expr} {comma : Bool} {es : List Expr}
    (hne : c.tokens ≠ []) (hexpr : expr.run c = .ok (e, c₁))
    (heat : (eat (.symbol .comma)).run c₁ = .ok (comma, c₂))
    (hrest : (printArgs room).run c₂ = .ok (es, c')) :
    (printArgs (room + 1)).run c = .ok (e :: es, c') := by
  obtain ⟨token, rest, htokens⟩ := List.exists_cons_of_ne_nil hne
  rw [printArgs, run_peek_bind, htokens]
  refine run_bind_eq_ok_iff.2 ⟨e, c₁, hexpr, run_bind_eq_ok_iff.2 ⟨comma, c₂, heat, ?_⟩⟩
  exact run_bind_eq_ok_iff.2 ⟨es, c', hrest, rfl⟩

/-- Phrases with commas between them are read as the expressions to print. -/
theorem run_printArgs_of_passes {phrases : List Phrase}
    (h : ∀ q ∈ phrases, q.Fits 0 ∧ q.nesting < maxNesting)
    (hpass : Passes c (separated phrases) c') (hoperators : c.operators ≤ maxOperators)
    (hend : c'.tokens = []) {room : Nat} (hroom : c.tokens.length ≤ room) :
    (printArgs room).run c = .ok (phrases.map Phrase.value, c') := by
  induction phrases generalizing c room with
  | nil =>
    rw [hpass.eq_of_nil] at hend ⊢
    cases room with
    | zero => rfl
    | succ room =>
      rw [printArgs, run_peek_bind, hend]
      rfl
  | cons q phrases ih =>
    obtain ⟨⟨hfits, hnesting⟩, hphrases⟩ := List.forall_mem_cons.1 h
    have hread := (complete_exprIn_operandIn maxNesting).1 q hfits hnesting
    cases phrases with
    | nil =>
      rw [separated, List.map_singleton, List.intercalate_singleton] at hpass
      have hlength := hpass.length_lt
      obtain ⟨room, rfl⟩ := Nat.exists_eq_add_one_of_ne_zero (by omega : room ≠ 0)
      have heat : (eat (.symbol .comma)).run c' = .ok (false, c') := by
        refine run_eat_of_ne ?_
        rw [hend]
        nofun
      refine run_printArgs_cons (List.ne_nil_of_length_pos (by omega))
        (hread hpass hoperators (hend ▸ .nil)) heat ?_
      exact ih hphrases (.refl c') (hpass.limit hoperators) (by omega)
    | cons next phrases =>
      rw [separated, List.map_cons, List.map_cons, List.intercalate_cons_cons, List.append_assoc,
        List.singleton_append] at hpass
      obtain ⟨c₁, hfirst, hrest, hlimit⟩ := hpass.split hoperators
      obtain ⟨span, tokens, htokens, hothers⟩ := hrest.uncons (by decide)
      have hlength := hfirst.length_lt
      obtain ⟨room, rfl⟩ := Nat.exists_eq_add_one_of_ne_zero (by omega : room ≠ 0)
      have heat : (eat (.symbol .comma)).run c₁ = .ok (true, { c₁ with tokens }) :=
        run_eat_eq_ok_iff.2 (.inl ⟨rfl, ⟨.symbol .comma, span⟩, tokens, htokens, rfl, rfl⟩)
      refine run_printArgs_cons (List.ne_nil_of_length_pos (by omega))
        (hread hfirst hoperators (.of_passes hrest (by decide) nofun nofun)) heat ?_
      refine ih hphrases hothers hlimit ?_
      rw [htokens, List.length_cons] at hlength
      dsimp only
      omega

end LineParser

namespace Printing

theorem fits_phrases (p : Printing) :
    ∀ q ∈ p.phrases, q.Fits 0 ∧ q.nesting < LineParser.maxNesting := by
  intro q hq
  obtain ⟨arg, _, rfl⟩ := List.mem_map.1 hq
  cases arg.literal <;> exact ⟨trivial, Nat.succ_pos _⟩

/-- A line with the tokens of the statement is read as the statement. -/
theorem parse_simple (p : Printing) {line : Line} (h : line.tokens.map Token.kind = p.kinds)
    (context : Context) (text : String) :
    (LineParser.simple context text).parse line = .ok p.action := by
  obtain ⟨⟨_, span⟩, tokens, htokens, rfl, hrest⟩ := List.map_eq_cons_iff.1 h
  have hrun : (LineParser.simple context text).run
      { line := line.number, tokens := ⟨.keyword p.keyword, span⟩ :: tokens } =
      (do
        let args ← LineParser.printArgs tokens.length
        LineParser.expectEnd
        return p.statement args : LineParser Simple).run { line := line.number, tokens } := by
    cases p <;> rfl
  have hpass : LineParser.Passes { line := line.number, tokens }
      (Phrase.separated p.phrases) { line := line.number, tokens := [] } := by
    refine ⟨rfl, ⟨tokens, (List.append_nil tokens).symm, hrest⟩, ?_, id⟩
    rw [p.row_rest.operators]
  have hargs := LineParser.run_printArgs_of_passes p.fits_phrases hpass (Nat.zero_le _) rfl le_rfl
  refine LineParser.parse_eq_ok_iff.2 ⟨{ line := line.number, tokens := [] }, ?_⟩
  rw [htokens, hrun]
  exact LineParser.run_bind_eq_ok_iff.2 ⟨_, _, hargs, LineParser.run_bind_eq_ok_iff.2
    ⟨(), _, LineParser.run_expectEnd_eq_ok_iff.2 ⟨rfl, rfl⟩, rfl⟩⟩

/-- The statements of a program, the first on the line with the number `number`. -/
def body (number : Nat) (statements : List Printing) : List Stmt :=
  (statements.zipIdx number).map fun (p, line) => .simple line p.action

theorem items_of_reading (inner : Option Program.BodyParser) (context : Context)
    {statements : List Printing} {lines : List Line} {number : Nat}
    (h : lines.map Line.reading = ((statements.map kinds).zipIdx number).map Prod.swap) :
    Program.items inner context lines = .ok (body number statements) := by
  induction statements generalizing lines number with
  | nil =>
    rw [List.map_eq_nil_iff.1 h]
    exact Program.items_nil inner
  | cons p statements ih =>
    obtain ⟨line, lines, rfl, hline, hlines⟩ := List.map_eq_cons_iff.1 h
    obtain ⟨hnumber, hkinds⟩ := Prod.mk.inj hline
    have hkind : BlockKind.ofLine? line = none := by
      obtain ⟨⟨_, span⟩, tokens, htokens, rfl, _⟩ := List.map_eq_cons_iff.1 hkinds
      rw [BlockKind.ofLine?, Line.leading, htokens]
      cases p <;> rfl
    refine (Program.items_statement_eq_ok_iff hkind).2
      ⟨p.action, body (number + 1) statements, p.parse_simple hkinds context line.text,
        ih hlines, ?_⟩
    rw [hnumber]
    rfl

/-- No statement of the program is a definition. -/
theorem run_hoist_body (number : Nat) (statements : List Printing) (registry : Registry) :
    (hoist (body number statements)).run registry =
      .ok (body number statements, registry) := by
  have hparts : definitions (body number statements) = [] ∧
      withoutDefinitions (body number statements) = body number statements := by
    induction statements generalizing number with
    | nil => exact ⟨rfl, rfl⟩
    | cons p statements ih =>
      obtain ⟨hdefinitions, hwithout⟩ := ih (number + 1)
      exact ⟨hdefinitions, congrArg (_ :: ·) hwithout⟩
  rw [run_hoist, hparts.1, hparts.2]
  rfl

theorem parse_source (first : Printing) (more : List Printing) (ended : Bool) :
    Program.parse (source (first :: more) ended) =
      .ok { main := body 1 (first :: more), registry := [] } := by
  obtain ⟨lines, hlines, hreadings⟩ := tokenize_source first more ended
  have hitems : Program.bodyIn Program.maxBlocks .main lines =
      .ok (body 1 (first :: more)) := items_of_reading _ .main hreadings
  have hprogram : Program.ofLines lines =
      .ok { main := body 1 (first :: more), registry := [] } := by
    refine Fault.bind_eq_ok_iff.2 ⟨_, hitems, ?_⟩
    exact Fault.bind_eq_ok_iff.2 ⟨_, run_hoist_body 1 (first :: more) [], rfl⟩
  rw [Program.parse, hlines]
  exact hprogram

end Printing

/-! ## Runs -/

namespace Exec

variable (s : Setting) (invoke : Invoker) (m : Machine)

theorem evalAll_arguments (args : List Argument) :
    evalAll s invoke ((args.map (·.literal.phrase)).map Phrase.value) m =
      .ok (args.map (·.literal.value)) m := by
  induction args with
  | nil => rfl
  | cons first rest ih =>
    have hfirst : eval s invoke first.literal.phrase.value m = .ok first.literal.value m := by
      cases first.literal <;> rfl
    rw [List.map_cons, List.map_cons, evalAll, bind_of_ok hfirst, bind_of_ok ih]
    rfl

/-- A statement that prints literals adds what it prints to the output, and does nothing else. -/
theorem execSimple_printing (p : Printing) : execSimple s invoke p.action m =
    .ok .next { m with output := m.output ++ p.output } := by
  have hvalues := evalAll_arguments s invoke m p.args
  have hdisplay : (p.args.map (·.literal.value)).map Value.display =
      p.args.map (·.literal.display) := by
    rw [List.map_map]
    refine List.map_congr_left fun arg _ => ?_
    simp only [Function.comp]
    cases arg.literal <;> simp [Literal.value, Literal.display, Value.display]
  cases p with
  | print first more =>
    rw [Printing.output, Printing.lineEnd, String.append_empty, ← hdisplay]
    exact bind_of_ok hvalues
  | printLine args =>
    rw [Printing.output, Printing.lineEnd, ← hdisplay]
    exact bind_of_ok hvalues

/-- And so do statements one after the other. -/
theorem execBody_printing (number : Nat) (statements : List Printing) :
    execBody s invoke (Printing.body number statements) m =
      .ok .next { m with output := m.output ++ String.join (statements.map Printing.output) } := by
  induction statements generalizing number m with
  | nil =>
    rw [List.map_nil, String.join_nil, String.append_empty]
    rfl
  | cons p statements ih =>
    have hfirst : located number (execSimple s invoke p.action) m =
        .ok .next { m with output := m.output ++ p.output } := by
      rw [located, execSimple_printing]
    rw [List.map_cons, String.join_cons, ← String.append_assoc]
    exact (bind_of_ok hfirst).trans (ih _ _)

end Exec

/-- What a report leaves out of a printed text are all the line ends behind it, and nothing
    else. -/
theorem exists_trimBreaks (text : List Char) : ∃ breaks, text = trimBreaks text ++ breaks ∧
    (∀ c ∈ breaks, c = '\n' ∨ c = '\r') ∧
    ∀ c, (trimBreaks text).getLast? = some c → c ≠ '\n' ∧ c ≠ '\r' := by
  have htrim : trimBreaks text = text.rdropWhile Source.isBreak := rfl
  rw [htrim]
  refine ⟨text.rtakeWhile Source.isBreak, List.rdropWhile_append_rtakeWhile.symm,
    fun c hc => ?_, fun c hc => ?_⟩
  · simpa [Source.isBreak] using List.mem_rtakeWhile_imp hc
  · obtain ⟨hne, rfl⟩ := List.mem_getLast?_eq_getLast hc
    exact Source.isBreak_eq_false_iff.1
      (Bool.eq_false_iff.2 (List.rdropWhile_last_not Source.isBreak text hne))

/-- A program whose lines only print literals prints what they say, each text as it is and each
    number as numbers are printed, with a line end behind each `IMPRIMALN`. The report leaves
    out the line ends behind all of it, and nothing else. The program does not fail, and it
    leaves no variables. -/
theorem interpret_printing (options : RunOptions) (first : Printing) (more : List Printing)
    (ended : Bool) :
    ∃ output breaks : List Char,
      (String.join ((first :: more).map Printing.output)).toList = output ++ breaks ∧
      (∀ c ∈ breaks, c = '\n' ∨ c = '\r') ∧
      (∀ c, output.getLast? = some c → c ≠ '\n' ∧ c ≠ '\r') ∧
      interpret options (Printing.source (first :: more) ended) =
        some { output := String.ofList output, failure := none, globals := [] } := by
  have hrun := Exec.execBody_printing (options.setting [])
    (Exec.invoker (options.setting []) options.maxDepth) options.machine 1 (first :: more)
  have hmain : Exec.run (options.setting []) (Printing.body 1 (first :: more))
      options.machine = .ok () { options.machine with
        output := String.join ((first :: more).map Printing.output) } := by
    rw [show options.machine.output = "" from rfl, String.empty_append] at hrun
    exact Exec.bind_of_ok hrun
  obtain ⟨breaks, hbreaks, hends, hlast⟩ :=
    exists_trimBreaks (String.join ((first :: more).map Printing.output)).toList
  refine ⟨_, breaks, hbreaks, hends, hlast, ?_⟩
  rw [interpret, runSource, Printing.parse_source]
  dsimp only [Program.run]
  rw [hmain]
  rfl

-- Quotes and a line end in a text are escaped, and what looks like code is not.
example :
    let p := Printing.printLine
      [⟨⟨[], nofun⟩, .text ⟨'"', by decide⟩ ⟨"SE \"a\" // b\n", by decide⟩, ⟨[], nofun⟩⟩,
        ⟨⟨[' '], forall_mem_of_all (by decide)⟩, .number ⟨['1', '.', '5', '0'], by decide⟩,
          ⟨[], nofun⟩⟩]
    Printing.source [p] false = "IMPRIMALN \"SE \\\"a\\\" // b\\n\", 1.50" ∧
      p.output = "SE \"a\" // b\n1.5\n" := by
  decide +kernel

end Portugol
