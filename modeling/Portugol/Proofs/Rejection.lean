import Portugol.Proofs.Parts

/-!
# Texts that are no programs

A text is rejected for a fault on one of its lines: of the tokens on it, of what is read
from them, of a block that starts there or of a callable that is defined there.

* `LineParser.Blames`: a parser of lines stays on its line and blames its faults on it.
* `Program.blamedOn_bodyIn`: the fault of some lines is blamed on one of them.
* `Source.number_mem_range`: the lines of tokens are numbered as the lines of the text.
* `Program.exists_line_of_parse_eq_error`: so what is wrong with a text that makes up no program
  is blamed on a line of the text.
-/

namespace Portugol

open Fault

/-! ## One line -/

namespace LineParser

variable {α β : Type}

/-- The parser stays on its line, and blames its faults on it. -/
structure Blames (parser : LineParser α) : Prop where
  stays : ∀ ⦃c a c'⦄, parser.run c = .ok (a, c') → c'.line = c.line
  blames : ∀ c, Among (fun fault => fault.kind = .parse ∧ fault.line = some c.line) (parser.run c)

namespace Blames

theorem pure (a : α) : Blames (pure a) := by
  refine ⟨fun c b c' h => ?_, fun c => .ok _⟩
  obtain ⟨_, rfl⟩ := run_pure_eq_ok_iff.1 h
  rfl

theorem bind {x : LineParser α} {f : α → LineParser β} (hx : Blames x) (hf : ∀ a, Blames (f a)) :
    Blames (x >>= f) := by
  constructor
  · intro c b c' h
    obtain ⟨a, c₁, hfirst, hrest⟩ := run_bind_eq_ok_iff.1 h
    exact ((hf a).stays hrest).trans (hx.stays hfirst)
  · intro c
    rw [StateT.run_bind]
    refine (hx.blames c).bind fun (a, c₁) hfirst => ?_
    rw [← hx.stays hfirst]
    exact (hf a).blames c₁

theorem fail {cause : Cause} (h : cause.kind = .parse) : Blames (fail cause : LineParser α) :=
  ⟨fun _ a _ hok => absurd hok (run_fail_ne_ok cause a), fun _ => .error ⟨h, rfl⟩⟩

theorem get : Blames (get : LineParser Cursor) :=
  ⟨fun _ _ _ h => (by cases h; rfl), fun _ => .ok _⟩

theorem advance : Blames advance := ⟨fun _ _ _ h => (by cases h; rfl), fun _ => .ok _⟩

theorem peek : Blames peek := get.bind fun _ => pure _

theorem unexpected (expected : String) : Blames (unexpected expected : LineParser α) := by
  refine get.bind fun cursor => ?_
  split
  · exact fail rfl
  · exact fail rfl

theorem eat (kind : TokenKind) : Blames (eat kind) := by
  refine peek.bind fun next => ?_
  split
  · exact advance.bind fun _ => pure _
  · exact pure _

theorem expect (kind : TokenKind) : Blames (expect kind) := by
  refine (eat kind).bind fun passed => ?_
  split
  · exact pure _
  · exact unexpected _

theorem expectName (expected : String) : Blames (expectName expected) := by
  refine peek.bind fun next => ?_
  split
  · exact advance.bind fun _ => pure _
  · exact unexpected _

theorem expectEnd : Blames expectEnd := by
  refine get.bind fun cursor => ?_
  split
  · exact pure _
  · exact fail rfl

theorem takeOperator : Blames takeOperator := by
  have hcount : Blames (modify fun cursor => { cursor with operators := cursor.operators + 1 } :
      LineParser Unit) :=
    ⟨fun _ _ _ h => (by cases h; rfl), fun _ => .ok _⟩
  refine advance.bind fun _ => hcount.bind fun _ => get.bind fun cursor => ?_
  split
  · exact fail rfl
  · exact pure _

/-! ### Expressions -/

theorem chain (op? : TokenKind → Option BinaryOp) {operand : LineParser Expr}
    (h : Blames operand) (more : Nat) (left : Expr) : Blames (chain op? operand more left) := by
  induction more generalizing left with
  | zero =>
    refine peek.bind fun next => ?_
    split
    · exact pure _
    · exact takeOperator.bind fun _ => fail rfl
  | succ more ih =>
    refine peek.bind fun next => ?_
    split
    · exact pure _
    · exact takeOperator.bind fun _ => h.bind fun right => ih _

theorem layered {operand : LineParser Expr} (h : Blames operand)
    (ops : List (TokenKind → Option BinaryOp)) : Blames (layered operand ops) := by
  induction ops with
  | nil => exact h
  | cons op? tighter ih => exact ih.bind fun left => chain op? ih _ left

theorem arguments {expr : LineParser Expr} (h : Blames expr) (tokens : Nat) :
    Blames (arguments expr tokens) := by
  induction tokens with
  | zero => exact h.bind fun _ => pure _
  | succ tokens ih =>
    refine h.bind fun first => (eat _).bind fun comma => ?_
    split
    · exact ih.bind fun _ => pure _
    · exact (expect _).bind fun _ => pure _

theorem callArgs {expr : LineParser Expr} (h : Blames expr) : Blames (callArgs expr) := by
  refine (expect _).bind fun _ => (eat _).bind fun closed => ?_
  split
  · exact pure _
  · exact get.bind fun cursor => arguments h _

theorem primary {expr : LineParser Expr} (h : Blames expr) : Blames (primary expr) := by
  have hsuffix : ∀ name, Blames (nameSuffix expr name) := by
    intro name
    refine peek.bind fun next => ?_
    split
    · exact (callArgs h).bind fun _ => pure _
    · exact advance.bind fun _ => h.bind fun _ => (expect _).bind fun _ => pure _
    · exact pure _
  refine peek.bind fun next => ?_
  split
  case h_1 | h_2 | h_3 | h_4 => exact advance.bind fun _ => pure _
  case h_5 => exact advance.bind fun _ => hsuffix _
  case h_6 => exact advance.bind fun _ => h.bind fun _ => (expect _).bind fun _ => pure _
  case h_7 => exact unexpected _

theorem operand {expr deeper : LineParser Expr} (h : Blames expr) (hdeeper : Blames deeper) :
    Blames (operand expr deeper) := by
  refine peek.bind fun next => ?_
  split
  · exact primary h
  · exact takeOperator.bind fun _ => hdeeper.bind fun _ => pure _

theorem exprIn_operandIn (room : Nat) : Blames (exprIn room) ∧ Blames (operandIn room) := by
  induction room with
  | zero => exact ⟨fail rfl, fail rfl⟩
  | succ room ih => exact ⟨layered (operand ih.1 ih.2) layers, operand ih.1 ih.2⟩

theorem expr : Blames expr := (exprIn_operandIn maxNesting).1

/-! ### Statements and headers -/

theorem printArgs (tokens : Nat) : Blames (printArgs tokens) := by
  induction tokens with
  | zero => exact pure _
  | succ tokens ih =>
    refine peek.bind fun next => ?_
    split
    · exact pure _
    · exact expr.bind fun _ => (eat _).bind fun _ => ih.bind fun _ => pure _

theorem targets (tokens : Nat) : Blames (targets tokens) := by
  have htarget : Blames target := by
    refine (expectName _).bind fun name => (eat _).bind fun bracket => ?_
    split
    · exact expr.bind fun _ => (expect _).bind fun _ => pure _
    · exact pure _
  induction tokens with
  | zero => exact unexpected _
  | succ tokens ih =>
    refine htarget.bind fun first => (eat _).bind fun comma => ?_
    split
    · exact ih.bind fun _ => pure _
    · exact pure _

theorem nameStatement (name text : String) : Blames (nameStatement name text) := by
  refine get.bind fun cursor => ?_
  split
  · exact advance.bind fun _ => advance.bind fun _ => expr.bind fun _ => pure _
  · exact advance.bind fun _ => advance.bind fun _ => expr.bind fun _ => (expect _).bind fun _ =>
      (expect _).bind fun _ => expr.bind fun _ => pure _
  · exact advance.bind fun _ => (callArgs expr).bind fun _ => pure _
  · exact fail rfl

theorem simple (context : Context) (text : String) : Blames (simple context text) := by
  have hdone : ∀ action : Simple, Blames (LineParser.expectEnd >>= fun _ => Pure.pure action) :=
    fun _ => expectEnd.bind fun _ => pure _
  simp only [LineParser.simple, pure_bind]
  refine peek.bind fun kind => ?_
  split
  case h_1 | h_2 =>
    exact advance.bind fun _ => get.bind fun _ => (printArgs _).bind fun _ => hdone _
  case h_3 => exact advance.bind fun _ => get.bind fun _ => (targets _).bind fun _ => hdone _
  case h_4 =>
    split
    · exact (fail rfl).bind hdone
    · refine advance.bind fun _ => peek.bind fun next => ?_
      split
      · exact hdone _
      · exact expr.bind fun _ => hdone _
  case h_5 | h_6 | h_8 => exact (fail rfl).bind hdone
  case h_7 => exact (nameStatement _ _).bind hdone

theorem conditionHeader (opener closer : Keyword) : Blames (do
    LineParser.expect (.keyword opener)
    let cond ← LineParser.expr
    LineParser.expect (.keyword closer)
    LineParser.expectEnd
    return cond) :=
  (expect _).bind fun _ => expr.bind fun _ => (expect _).bind fun _ => expectEnd.bind fun _ =>
    pure _

theorem alternateMarker : Blames alternateMarker := (expect _).bind fun _ => expectEnd

theorem countHeader : Blames countHeader :=
  (expect _).bind fun _ => (expectName _).bind fun _ => (expect _).bind fun _ =>
    expr.bind fun _ => (expect _).bind fun _ => expr.bind fun _ => (expect _).bind fun _ =>
      expectEnd.bind fun _ => pure _

theorem params (callable : String) (before : List String) (tokens : Nat) :
    Blames (params callable before tokens) := by
  induction tokens generalizing before with
  | zero => exact unexpected _
  | succ tokens ih =>
    refine (expectName _).bind fun param => ?_
    have hrest : Blames (do
        if ← LineParser.eat (.symbol .comma) then
          LineParser.params callable (before ++ [param]) tokens
        else
          LineParser.expect (.symbol .closeParen)
          return before ++ [param]) := by
      refine (eat _).bind fun comma => ?_
      split
      · exact ih _
      · exact (expect _).bind fun _ => pure _
    dsimp only
    split
    · exact (fail rfl).bind fun _ => hrest
    · exact hrest

theorem callableHeader (kind : CallableKind) : Blames (callableHeader kind) := by
  have hdone : ∀ (name : String) (params : List String),
      Blames (LineParser.expectEnd >>= fun _ => Pure.pure (name, params)) :=
    fun _ _ => expectEnd.bind fun _ => pure _
  have hlist : ∀ name, Blames (do
      let params ←
        if ← LineParser.eat (.symbol .closeParen) then Pure.pure []
        else LineParser.params name [] (← MonadState.get).tokens.length
      LineParser.expectEnd
      Pure.pure (name, params)) := by
    intro name
    refine (eat _).bind fun closed => ?_
    cases closed with
    | true => exact hdone name []
    | false => exact get.bind fun cursor => (params name [] _).bind (hdone name)
  cases kind with
  | function =>
    exact (expect _).bind fun _ => (expectName _).bind fun name => (expect _).bind fun _ =>
      hlist name
  | procedure =>
    refine (expect _).bind fun _ => (expectName _).bind fun name => (eat _).bind fun parens => ?_
    cases parens with
    | true => exact hlist name
    | false => exact hdone name []

end Blames

end LineParser

/-! ## Lines -/

/-- A fault of the text, which is blamed on one of these lines. -/
def BlamedOn (lines : List Line) (fault : Fault) : Prop :=
  fault.kind = .parse ∧ ∃ line ∈ lines, fault.line = some line.number

theorem BlamedOn.mono {lines lines' : List Line} (h : lines ⊆ lines') (fault : Fault)
    (hfault : BlamedOn lines fault) : BlamedOn lines' fault :=
  ⟨hfault.1, hfault.2.imp fun _ => And.imp_left (h ·)⟩

theorem LineParser.Blames.blamedOn {α : Type} {parser : LineParser α} (h : Blames parser)
    {line : Line} {lines : List Line} (hline : line ∈ lines) :
    Among (BlamedOn lines) (parser.parse line) := by
  intro fault hfault
  rw [parse] at hfault
  cases hrun : parser.run { line := line.number, tokens := line.tokens } with
  | ok pair =>
    rw [hrun] at hfault
    cases hfault
  | error fault' =>
    rw [hrun] at hfault
    cases hfault
    obtain ⟨hkind, hnumber⟩ := h.blames _ _ hrun
    exact ⟨hkind, line, hline, hnumber⟩

namespace Program

variable {inner : BodyParser} {context : Context} {kind : BlockKind} {header : Line}
  {lines : List Line}

theorem slice_subset (lines : List Line) (bounds : Nat × Nat) : slice lines bounds ⊆ lines :=
  fun _ h => List.mem_of_mem_take (List.mem_of_mem_drop h)

variable (hinner : ∀ context lines, Among (BlamedOn lines) (inner context lines))

include hinner

theorem blamedOn_inner (context : Context) {body : List Line} (h : body ⊆ lines) :
    Among (BlamedOn lines) (inner context body) :=
  (hinner context body).mono (BlamedOn.mono h)

theorem blamedOn_definition (callable : CallableKind) (hheader : header ∈ lines)
    {body : List Line} (hbody : body ⊆ lines) :
    Among (BlamedOn lines) (definition inner context callable header body) := by
  cases context with
  | callable => exact .error ⟨rfl, header, hheader, rfl⟩
  | main =>
    exact ((LineParser.Blames.callableHeader callable).blamedOn hheader).bind fun _ _ =>
      (blamedOn_inner hinner .callable hbody).bind fun _ _ => .ok _

theorem blamedOn_block (hheader : header ∈ lines) (extent : BlockExtent) :
    Among (BlamedOn lines) (block inner context kind header lines extent) := by
  have hbody := blamedOn_inner hinner context (slice_subset lines (extent.body 0))
  cases kind with
  | ifElse =>
    refine ((LineParser.Blames.conditionHeader .se .entao).blamedOn hheader).bind fun cond _ => ?_
    refine hbody.bind fun inside _ => ?_
    split
    · exact .ok _
    · rename_i alternate _
      have hrest := (blamedOn_inner hinner context
        (slice_subset lines (alternate + 1, extent.stop))).bind fun otherwise _ =>
          .ok (Stmt.ifElse header.number cond inside otherwise)
      split
      · rename_i marker hmarker
        have hmarked := LineParser.Blames.alternateMarker.blamedOn (List.mem_of_getElem? hmarker)
        exact hmarked.bind fun _ _ => hrest
      · exact hrest
  | count =>
    exact (LineParser.Blames.countHeader.blamedOn hheader).bind fun _ _ =>
      hbody.bind fun _ _ => .ok _
  | whileDo =>
    exact ((LineParser.Blames.conditionHeader .enquanto .faca).blamedOn hheader).bind fun _ _ =>
      hbody.bind fun _ _ => .ok _
  | times =>
    exact ((LineParser.Blames.conditionHeader .repita .vezes).blamedOn hheader).bind fun _ _ =>
      hbody.bind fun _ _ => .ok _
  | function => exact blamedOn_definition hinner .function hheader (slice_subset lines _)
  | procedure => exact blamedOn_definition hinner .procedure hheader (slice_subset lines _)

omit hinner

theorem blamedOn_findEnd (kind : BlockKind) (rest : List Line) :
    Among (BlamedOn (header :: rest)) (kind.findEnd (header :: rest) 0) := by
  rw [BlockKind.findEnd]
  split
  · exact .ok _
  · exact .error ⟨rfl, header, List.mem_cons_self, rfl⟩

/-- The fault of some lines is blamed on one of them, if those of blocks are. -/
theorem blamedOn_items (inner : Option BodyParser) (context : Context)
    (hinner : ∀ parser, inner = some parser → ∀ context lines,
      Among (BlamedOn lines) (parser context lines)) (lines : List Line) :
    Among (BlamedOn lines) (items inner context lines) := by
  -- By induction on the number of lines: behind a block there are fewer of them.
  induction hn : lines.length using Nat.strongRecOn generalizing lines with
  | ind n ih =>
    subst hn
    match lines with
    | [] =>
      rw [items_nil]
      exact .ok _
    | header :: rest =>
      have hrest : ∀ skipped,
          Among (BlamedOn (header :: rest)) (items inner context (rest.drop skipped)) := by
        intro skipped
        have hshorter : (rest.drop skipped).length < (header :: rest).length := by
          rw [List.length_drop, List.length_cons]
          omega
        exact (ih _ hshorter _ rfl).mono
          (BlamedOn.mono (List.subset_cons_of_subset header (List.drop_subset skipped rest)))
      rw [items]
      split
      · refine ((LineParser.Blames.simple context header.text).blamedOn
          List.mem_cons_self).bind fun _ _ => ?_
        exact (hrest 0).bind fun _ _ => .ok _
      · cases inner with
        | none => exact .error ⟨rfl, header, List.mem_cons_self, rfl⟩
        | some parser =>
          refine (blamedOn_findEnd _ rest).bind fun extent _ => ?_
          refine (blamedOn_block (hinner parser rfl) List.mem_cons_self extent).bind fun _ _ => ?_
          exact (hrest extent.stop).bind fun _ _ => .ok _

theorem blamedOn_bodyIn (room : Nat) (context : Context) (lines : List Line) :
    Among (BlamedOn lines) (bodyIn room context lines) := by
  induction room generalizing context lines with
  | zero => exact blamedOn_items none context (fun _ h => (by cases h)) lines
  | succ room ih =>
    refine blamedOn_items (some (bodyIn room)) context ?_ lines
    rintro _ ⟨⟩
    exact ih

end Program

/-! ## Callables -/

/-- A callable whose name is taken is at fault. -/
theorem Registry.blamedOn_registerAll (registry : Registry) (callables : List Callable) :
    Among (fun fault => fault.kind = .parse ∧ ∃ callable ∈ callables,
      fault.line = some callable.line) (registry.registerAll callables) := by
  induction callables generalizing registry with
  | nil => exact .ok _
  | cons callable rest ih =>
    rw [registerAll, List.foldlM_cons]
    refine Among.bind ?_ fun registry' _ => (ih registry').mono fun fault h => ?_
    · rw [register]
      split
      · exact .error ⟨rfl, callable, List.mem_cons_self, rfl⟩
      · exact .ok _
    · obtain ⟨hkind, callable', hmem, hline⟩ := h
      exact ⟨hkind, callable', List.mem_cons_of_mem _ hmem, hline⟩

theorem Stmt.line_of_callable? {stmt : Stmt} {callable : Callable}
    (h : stmt.callable? = some callable) : callable.line = stmt.line := by
  cases stmt with
  | define =>
    cases h
    rfl
  | simple | ifThen | ifElse | count | whileDo | times => cases h

theorem Program.blamedOn_ofLines (lines : List Line) :
    Among (BlamedOn lines) (Program.ofLines lines) := by
  refine (blamedOn_bodyIn maxBlocks .main lines).bind fun stmts hstmts => ?_
  obtain ⟨t, rfl, _, hreads⟩ := bodyIn_eq_ok_iff.1 hstmts
  refine Among.bind ?_ fun _ _ => .ok _
  intro fault hfault
  rw [run_hoist] at hfault
  cases hregistry : Registry.registerAll [] (definitions stmts) with
  | ok registry =>
    rw [hregistry] at hfault
    cases hfault
  | error fault' =>
    rw [hregistry] at hfault
    cases hfault
    obtain ⟨hkind, callable, hcallable, hline⟩ := Registry.blamedOn_registerAll _ _ _ hregistry
    obtain ⟨part, hpart, hdefined⟩ := List.mem_filterMap.1 hcallable
    obtain ⟨line, hmem, hnumber⟩ := (hreads.placed part hpart).line
    exact ⟨hkind, line, hmem, by rw [hline, Stmt.line_of_callable? hdefined, hnumber]⟩

/-! ## Numbers of lines -/

theorem Line.number_of_ofText {number : Nat} {text : String} {line : Line}
    (h : Line.ofText number text = .ok line) : line.number = number := by
  rw [Line.ofText] at h
  split at h
  · cases h
    rfl
  · cases h

namespace Source

/-- The physical lines of a text, whatever marks their ends. -/
def physicalLines (source : String) : List (List Char) := lines (unifyBreaks source.toList)

theorem number_mem_numbered {first : Nat} {physical : List (List Char)} {entry : Nat × List Char}
    (h : entry ∈ numbered first physical) :
    first ≤ entry.1 ∧ entry.1 < first + physical.length := by
  induction physical generalizing first with
  | nil => cases h
  | cons line rest ih =>
    rw [List.length_cons]
    rcases List.mem_cons.1 h with rfl | h
    · exact ⟨Nat.le_refl _, by omega⟩
    · have hrest := ih h
      omega

theorem number_mem_segments {source : String} {line : SourceLine}
    (h : line ∈ segments (normalize source)) :
    1 ≤ line.number ∧ line.number ≤ (physicalLines source).length := by
  obtain ⟨normal, hnormal, hline⟩ := List.mem_flatMap.1 h
  obtain ⟨text, _, rfl⟩ := List.mem_map.1 hline
  obtain ⟨entry, hentry, rfl⟩ := List.mem_map.1 hnormal
  have hnumber := number_mem_numbered hentry
  exact ⟨hnumber.1, Nat.le_of_lt_succ (Nat.lt_of_lt_of_eq hnumber.2 (Nat.add_comm 1 _))⟩

theorem mapM_cons_eq_ok_iff {ε α β : Type} {f : α → Except ε β} {x : α} {xs : List α}
    {ys : List β} :
    (x :: xs).mapM f = .ok ys ↔
      ∃ y rest, f x = .ok y ∧ xs.mapM f = .ok rest ∧ ys = y :: rest := by
  rw [List.mapM_cons]
  constructor
  · intro h
    cases hx : f x with
    | error e =>
      rw [hx] at h
      cases h
    | ok y =>
      rw [hx] at h
      cases hrest : xs.mapM f with
      | error e =>
        rw [hrest] at h
        cases h
      | ok rest =>
        rw [hrest] at h
        cases h
        exact ⟨y, rest, rfl, rfl, rfl⟩
  · rintro ⟨y, rest, hx, hrest, rfl⟩
    rw [hx, hrest]
    rfl

theorem exists_of_mem_mapM {ε α β : Type} {f : α → Except ε β} {xs : List α} {ys : List β}
    (h : xs.mapM f = .ok ys) {y : β} (hy : y ∈ ys) : ∃ x ∈ xs, f x = .ok y := by
  induction xs generalizing ys with
  | nil =>
    cases h
    cases hy
  | cons x xs ih =>
    obtain ⟨first, rest, hfirst, hrest, rfl⟩ := mapM_cons_eq_ok_iff.1 h
    rcases List.mem_cons.1 hy with rfl | hy
    · exact ⟨x, List.mem_cons_self, hfirst⟩
    · obtain ⟨x', hx', hread⟩ := ih hrest hy
      exact ⟨x', List.mem_cons_of_mem _ hx', hread⟩

theorem exists_of_mapM_eq_error {ε α β : Type} {f : α → Except ε β} {xs : List α} {e : ε}
    (h : xs.mapM f = .error e) : ∃ x ∈ xs, f x = .error e := by
  induction xs with
  | nil => cases h
  | cons x rest ih =>
    rw [List.mapM_cons] at h
    cases hx : f x with
    | error e' =>
      rw [hx] at h
      cases h
      exact ⟨x, List.mem_cons_self, hx⟩
    | ok y =>
      rw [hx] at h
      cases hrest : rest.mapM f with
      | ok ys =>
        rw [hrest] at h
        cases h
      | error e' =>
        rw [hrest] at h
        cases h
        obtain ⟨x', hx', herror⟩ := ih hrest
        exact ⟨x', List.mem_cons_of_mem _ hx', herror⟩

variable {source : String}

/-- The lines of tokens of a text have the numbers of its physical lines. -/
theorem number_mem_range {lines : List Line} (h : tokenize source = .ok lines) {line : Line}
    (hline : line ∈ lines) : 1 ≤ line.number ∧ line.number ≤ (physicalLines source).length := by
  obtain ⟨segment, hsegment, hread⟩ := exists_of_mem_mapM h hline
  rw [Line.number_of_ofText hread]
  exact number_mem_segments hsegment

theorem line_mem_range {error : LexError} (h : tokenize source = .error error) :
    1 ≤ error.line ∧ error.line ≤ (physicalLines source).length := by
  obtain ⟨segment, hsegment, hread⟩ := exists_of_mapM_eq_error h
  have hnumber : error.line = segment.number := by
    rw [Line.ofText] at hread
    split at hread
    · cases hread
    · cases hread
      rfl
  rw [hnumber]
  exact number_mem_segments hsegment

end Source

/-- What is wrong with a text that makes up no program is blamed on a line of the text. -/
theorem Program.exists_line_of_parse_eq_error {source : String} {fault : Fault}
    (h : Program.parse source = .error fault) :
    fault.kind = .parse ∧ ∃ line, fault.line = some line ∧ 1 ≤ line ∧
      line ≤ (Source.physicalLines source).length := by
  rw [parse] at h
  split at h
  · rename_i error herror
    cases h
    exact ⟨rfl, _, rfl, Source.line_mem_range herror⟩
  · rename_i lines hlines
    obtain ⟨hkind, line, hmem, hline⟩ := blamedOn_ofLines lines fault h
    exact ⟨hkind, _, hline, Source.number_mem_range hlines hmem⟩

end Portugol
