import Portugol.Proofs.Idempotence
import Portugol.Proofs.SimpleTokens

/-!
# Programs on one line

Statements that are written one behind the other on a single line are told apart again by
reflow, if each of them has a mark where it starts or stands behind one that has a mark where it
ends.

* `StatementLine`: a line that reflow leaves whole: the marks stand at its ends.
* `rows_line`: reflow ends a line before such a line at most, and leaves the flags as its last
  piece says.
* `segments_spaced`: so it finds such lines again when they are joined.
* `statementLine_of_spells`: the line of an assignment, a call, or a statement to print, read or
  return is such a line, by its tokens alone.
* `reflow_undoes_joining`: the statements of a program on one line.
-/

namespace Portugol

open Lexer hiding word

/-! ## Lines -/

namespace Piece

/-- The keyword that a piece is read as. -/
def keyword? : Piece → Option Keyword
  | word cs => Keyword.ofWord? cs
  | _ => none

/-- Whether a statement starts with the piece. -/
def starts (p : Piece) : Bool := p.keyword?.any (·.startsStatement)

/-- Whether the next statement may follow the piece on the same line. -/
def breaksAfter (p : Piece) : Bool := p.keyword?.any (·.breaksAfter)

def isWord : Piece → Bool
  | word _ => true
  | _ => false

/-- Whether a quoted text has its closing quote. -/
def isClosed : Piece → Bool
  | quoted [] => false
  | quoted (quote :: cs) => (closeText quote cs).any (·.2.isEmpty)
  | _ => true

/-- Whether the last piece that is not blank is `FIM`. -/
def behindEnd (before : List Piece) : Bool :=
  (before.filter (!·.blank)).getLast?.bind keyword? == some .fim

/-- Whether the first piece that is not blank is a word other than `FIM`. -/
def namesBlock (after : List Piece) : Bool :=
  (after.filter (!·.blank)).head?.any fun p => p.isWord && p.keyword? != some .fim

theorem behindEnd_eq_false {before : List Piece} (h : ∀ p ∈ before, p.keyword? ≠ some .fim) :
    behindEnd before = false := by
  rw [behindEnd, beq_eq_false_iff_ne, ne_eq, Option.bind_eq_some_iff]
  rintro ⟨p, hlast, hfim⟩
  exact h p (List.mem_of_mem_filter (List.mem_of_getLast? hlast)) hfim

theorem any_keyword_eq_false {p : Piece} {f : Keyword → Bool}
    (h : ∀ k, p.keyword? = some k → f k = false) : p.keyword?.any f = false := by
  cases hk : p.keyword? with
  | none => rfl
  | some k => exact h k hk

theorem starts_of_fim {p : Piece} (h : p.keyword? = some .fim) : p.starts = true := by
  rw [starts, h]
  rfl

/-- A piece in its place on a line. -/
structure InPlace (before : List Piece) (p : Piece) (after : List Piece) : Prop where
  /-- A statement starts with the first piece or with the word right behind `FIM` only. -/
  first : p.starts = true → before = [] ∨ behindEnd before = true
  /-- No piece follows one that the next statement may follow, or the word right behind `FIM`. -/
  last : p.breaksAfter = true ∨ (p.isWord = true ∧ behindEnd before = true) → after = []
  /-- Behind `FIM` there is another word. -/
  block : p.keyword? = some .fim → namesBlock after = true

instance (before : List Piece) (p : Piece) (after : List Piece) :
    Decidable (InPlace before p after) :=
  decidable_of_iff ((p.starts = true → before = [] ∨ behindEnd before = true) ∧
      (p.breaksAfter = true ∨ (p.isWord = true ∧ behindEnd before = true) → after = []) ∧
      (p.keyword? = some .fim → namesBlock after = true))
    ⟨fun ⟨hfirst, hlast, hblock⟩ => ⟨hfirst, hlast, hblock⟩, fun h => ⟨h.first, h.last, h.block⟩⟩

end Piece

open Piece

namespace Source

/-- A line that holds no mark inside: what a statement starts with stands at its start only, and
    what the next statement may follow stands at its end only. -/
structure StatementLine (line : List Char) : Prop extends IsStatement line where
  closed : ∀ p ∈ split line, p.isClosed = true
  placed : ∀ before p after, split line = before ++ p :: after → InPlace before p after

theorem forall_inPlace_iff {ps : List Piece} :
    (∀ before p after, ps = before ++ p :: after → InPlace before p after) ↔
      ∀ i : Fin ps.length, InPlace (ps.take i) (ps.get i) (ps.drop (i + 1)) := by
  constructor
  · intro h i
    refine h _ _ _ ?_
    rw [List.get_eq_getElem, ← List.drop_eq_getElem_cons, List.take_append_drop]
  · rintro h before p after rfl
    have hi : before.length < (before ++ p :: after).length := by simp
    simpa using h ⟨before.length, hi⟩

instance : DecidablePred StatementLine := fun line =>
  decidable_of_iff ((line ≠ [] ∧ trim line = line ∧ OnLine line ∧ IsNormal line) ∧
      (∀ p ∈ split line, p.isClosed = true) ∧ ∀ i : Fin (split line).length,
        InPlace ((split line).take i) ((split line).get i) ((split line).drop (i + 1)))
    ⟨fun ⟨⟨hne, htrim, honLine, hnormal⟩, hclosed, hplaced⟩ =>
      ⟨⟨hne, htrim, honLine, hnormal⟩, hclosed, forall_inPlace_iff.2 hplaced⟩,
    fun h => ⟨⟨h.ne_nil, h.trimmed, h.onLine, h.normal⟩, h.closed, forall_inPlace_iff.1 h.placed⟩⟩

/-- Whether the pieces of a line start like a statement. -/
def startsLine (line : List Piece) : Bool := line.head?.any starts

/-- Whether the pieces of a line end with one that the next statement may follow, or with `FIM`
    and a word. -/
def endsLine (line : List Piece) : Bool :=
  line.getLast?.any fun p => p.breaksAfter || (p.isWord && behindEnd line.dropLast)

/-- There is a mark between two lines. -/
def ToldApart (line next : List Char) : Prop :=
  startsLine (split next) = true ∨ endsLine (split line) = true

instance : DecidableRel ToldApart := fun _ _ => instDecidableOr

end Source

namespace Reflow

open Source

/-! ## Rows -/

/-- No line ends before one of the pieces. -/
def Uncut : Flags → List Piece → Prop
  | _, [] => True
  | flags, p :: ps => cuts flags p = false ∧ Uncut (next flags p) ps

theorem uncut_append {flags : Flags} {ps qs : List Piece} (hps : Uncut flags ps)
    (hqs : Uncut (ps.foldl next flags) qs) : Uncut flags (ps ++ qs) := by
  induction ps generalizing flags with
  | nil => exact hqs
  | cons p ps ih => exact ⟨hps.1, ih hps.2 hqs⟩

theorem rows_append {flags : Flags} {ps : List Piece} (h : Uncut flags ps) (qs : List Piece) :
    rows flags (ps ++ qs) =
      (ps ++ (rows (ps.foldl next flags) qs).1, (rows (ps.foldl next flags) qs).2) := by
  induction ps generalizing flags with
  | nil => rfl
  | cons p ps ih =>
    rw [List.cons_append, rows, h.1, if_neg Bool.false_ne_true, ih h.2]
    rfl

/-- Where `FIM` is not the last word, a line ends before a piece if it has to or if a statement
    starts with the piece. -/
theorem cuts_eq {pending : Bool} {p : Piece}
    (h : pending = false ∨ p.blank = false ∧ p ≠ assign) :
    cuts ⟨false, pending⟩ p = (pending || p.starts) := by
  cases p with
  | word cs => simp [cuts, starts, keyword?]
  | quoted cs => exact (Bool.or_false pending).symm
  | assign =>
    obtain rfl := h.resolve_right fun h => h.2 rfl
    rfl
  | other c =>
    obtain rfl | ⟨hc, _⟩ := h
    · rfl
    · rw [blank] at hc
      simp [cuts, hc, starts, keyword?]

theorem next_eq {pending : Bool} {p : Piece}
    (h : pending = false ∨ p.blank = false ∧ p ≠ assign) :
    next ⟨false, pending⟩ p = ⟨p.keyword? == some .fim, p.breaksAfter⟩ := by
  cases p with
  | word cs => simp [next, breaksAfter, keyword?]
  | quoted cs => rfl
  | assign =>
    obtain rfl := h.resolve_right fun h => h.2 rfl
    rfl
  | other c =>
    obtain rfl | ⟨hc, _⟩ := h
    · rfl
    · rw [blank] at hc
      simp [next, hc, breaksAfter, keyword?]

/-- Blanks change nothing. -/
theorem uncut_of_blank {ps : List Piece} (h : ∀ p ∈ ps, p.blank = true) (flags : Flags) :
    Uncut flags ps ∧ ps.foldl next flags = flags := by
  induction ps with
  | nil => exact ⟨trivial, rfl⟩
  | cons p ps ih =>
    obtain ⟨hp, hps⟩ := List.forall_mem_cons.1 h
    cases p with
    | other c =>
      have hc : isBlank c = true := hp
      have hnext : next flags (other c) = flags := by simp [next, hc]
      rw [Uncut, List.foldl_cons, hnext]
      exact ⟨⟨by simp [cuts, hc], (ih hps).1⟩, (ih hps).2⟩
    | word | quoted | assign => cases hp

/-- Behind the first piece of a line that is not `FIM`, no line ends before the last piece. -/
theorem uncut_of_inPlace {line : List Piece}
    (hplaced : ∀ before p after, line = before ++ p :: after → InPlace before p after)
    {before after : List Piece} {p : Piece} (hline : line = before ++ p :: after)
    (hfim : ∀ q ∈ before ++ [p], q.keyword? ≠ some .fim) :
    Uncut ⟨false, p.breaksAfter⟩ after ∧
      after.foldl next ⟨false, p.breaksAfter⟩ = ⟨false, endsLine line⟩ := by
  -- Along the line: if another piece follows `p`, then `p` is none that a line ends behind, and
  -- the flags are down again.
  induction after generalizing before p with
  | nil =>
    have hbehind := behindEnd_eq_false fun q hq => hfim q (List.mem_append_left [p] hq)
    have hends : endsLine line = p.breaksAfter := by simp [endsLine, hline, hbehind]
    exact ⟨trivial, by rw [hends]; rfl⟩
  | cons q after ih =>
    have hbreaks : p.breaksAfter = false := Bool.eq_false_iff.2 fun hbreaks =>
      List.cons_ne_nil q after ((hplaced before p (q :: after) hline).last (.inl hbreaks))
    have hline' : line = (before ++ [p]) ++ q :: after := by rw [hline]; simp
    have hstarts : q.starts = false := Bool.eq_false_iff.2 fun hstarts => by
      rcases (hplaced (before ++ [p]) q after hline').first hstarts with hnil | hbehind
      · exact absurd hnil (by simp)
      · exact Bool.false_ne_true ((behindEnd_eq_false hfim).symm.trans hbehind)
    have hq : q.keyword? ≠ some .fim := fun hfim =>
      Bool.false_ne_true (hstarts.symm.trans (starts_of_fim hfim))
    have hnext : next ⟨false, false⟩ q = ⟨false, q.breaksAfter⟩ := by
      rw [next_eq (.inl rfl), beq_eq_false_iff_ne.2 hq]
    rw [hbreaks, Uncut, List.foldl_cons, hnext, cuts_eq (.inl rfl), hstarts]
    obtain ⟨huncut, hflags⟩ := ih hline'
      (List.forall_mem_append.2 ⟨hfim, List.forall_mem_singleton.2 hq⟩)
    exact ⟨⟨rfl, huncut⟩, hflags⟩

/-- A line with `FIM`: it ends with the word behind it. -/
theorem uncut_of_fim {p : Piece} {after : List Piece}
    (hplaced : ∀ before q after', p :: after = before ++ q :: after' → InPlace before q after')
    (hfim : p.keyword? = some .fim) :
    Uncut ⟨true, false⟩ after ∧
      after.foldl next ⟨true, false⟩ = ⟨false, endsLine (p :: after)⟩ := by
  have hblock := (hplaced [] p after rfl).block hfim
  rw [namesBlock, Option.any_eq_true] at hblock
  obtain ⟨q, hhead, hq⟩ := hblock
  obtain ⟨more, hfilter⟩ := List.head?_eq_some_iff.1 hhead
  obtain ⟨blanks, rest, rfl, hblanks, -, -⟩ := List.filter_eq_cons_iff.1 hfilter
  have hblanks : ∀ b ∈ blanks, b.blank = true := fun b hb => by simpa using hblanks b hb
  have hp : p.blank = false := by
    cases p with
    | word => rfl
    | quoted | assign | other => cases hfim
  have hbehind : behindEnd (p :: blanks) = true := by
    rw [behindEnd, List.filter_cons_of_pos (by simp [hp]),
      List.filter_eq_nil_iff.2 fun b hb => by simp [hblanks b hb]]
    simpa using hfim
  have hword : q.isWord = true ∧ q.keyword? ≠ some .fim := by simpa using hq
  obtain rfl : rest = [] := (hplaced (p :: blanks) q rest rfl).last (.inr ⟨hword.1, hbehind⟩)
  have hends : endsLine (p :: (blanks ++ [q])) = true := by
    rw [endsLine, ← List.cons_append, List.getLast?_concat, List.dropLast_concat]
    simp [hword.1, hbehind]
  obtain ⟨huncut, hflags⟩ := uncut_of_blank hblanks ⟨true, false⟩
  cases q with
  | word cs =>
    have hnext : next ⟨true, false⟩ (word cs) = ⟨false, true⟩ := by
      have hcs : Keyword.ofWord? cs ≠ some .fim := hword.2
      simp [next, hcs]
    rw [List.foldl_append, hflags, List.foldl_cons, List.foldl_nil, hnext, hends]
    refine ⟨uncut_append huncut ?_, rfl⟩
    rw [hflags]
    exact ⟨by simp [cuts], trivial⟩
  | quoted | assign | other => cases hword.1

/-- Reflow ends a line before the line at most, and leaves the flags as its end says. -/
theorem rows_line {line : List Char} (h : StatementLine line) (pending : Bool) (qs : List Piece) :
    rows ⟨false, pending⟩ (split line ++ qs) =
      let rest := rows ⟨false, endsLine (split line)⟩ qs
      if pending || startsLine (split line) then ([], (split line ++ rest.1) :: rest.2)
      else (split line ++ rest.1, rest.2) := by
  cases hsplit : split line with
  | nil =>
    refine absurd ?_ h.ne_nil
    rw [← h.normal.text_split, hsplit]
    rfl
  | cons p ps =>
    have hplaced := h.placed
    have hfit := h.normal.canonical.fit
    rw [hsplit] at hplaced hfit
    have hassign : p ≠ assign := by
      rintro rfl
      cases (Fit.cons_iff.1 hfit).1
    have hblank : p.blank = false := by
      have hline : line = p.chars ++ text ps := by rw [← text_cons, ← hsplit, h.normal.text_split]
      cases p with
      | other c => exact not_isBlank_of_trim_eq (hline ▸ h.trimmed)
      | word | quoted | assign => rfl
    -- Only the flags at the start of the line could end it early, and the first piece resets them.
    have hrest : Uncut (next ⟨false, pending⟩ p) ps ∧
        ps.foldl next (next ⟨false, pending⟩ p) = ⟨false, endsLine (p :: ps)⟩ := by
      rw [next_eq (.inr ⟨hblank, hassign⟩)]
      by_cases hfim : p.keyword? = some .fim
      · have hbreaks : p.breaksAfter = false := by rw [breaksAfter, hfim]; rfl
        rw [hfim, hbreaks]
        exact uncut_of_fim hplaced hfim
      · rw [beq_eq_false_iff_ne.2 hfim]
        exact @uncut_of_inPlace _ hplaced [] ps p rfl (List.forall_mem_singleton.2 hfim)
    have hstarts : startsLine (p :: ps) = p.starts := rfl
    rw [List.cons_append, rows, rows_append hrest.1, hrest.2, cuts_eq (.inr ⟨hblank, hassign⟩),
      hstarts]
    rfl

/-! ## Lines with spaces between them -/

/-- The pieces of lines with a space between them. -/
def spaced : List (List Char) → List Piece
  | [] => []
  | [line] => split line
  | line :: next :: more => split line ++ other ' ' :: spaced (next :: more)

/-- Each line has a row of its own. -/
theorem statements_rows_spaced {first : List Char} {more : List (List Char)}
    (h : ∀ line ∈ first :: more, StatementLine line) (hchain : (first :: more).IsChain ToldApart)
    (pending : Bool) :
    ((rows ⟨false, pending⟩ (spaced (first :: more))).1 ::
        (rows ⟨false, pending⟩ (spaced (first :: more))).2).flatMap (statements ∘ text) =
      first :: more ∧
    ((pending || startsLine (split first)) = true →
      (rows ⟨false, pending⟩ (spaced (first :: more))).1 = []) := by
  -- The row of the line may have the space behind it; the rows of the other lines follow.
  suffices hrows : ∃ row others, statements (text row) = [first] ∧
      others.flatMap (statements ∘ text) = more ∧
      rows ⟨false, pending⟩ (spaced (first :: more)) =
        if pending || startsLine (split first) then ([], row :: others) else (row, others) by
    obtain ⟨row, others, hrow, hothers, hrows⟩ := hrows
    have hnil : statements [] = [] := rfl
    rw [hrows]
    split
    · simp [hrow, hothers, hnil]
    · rename_i hpending
      exact ⟨by simp [hrow, hothers], fun hstarts => absurd hstarts hpending⟩
  obtain ⟨hfirst, hmore⟩ := List.forall_mem_cons.1 h
  have hline : statements first = [first] := by
    rw [statements_of_onLine hfirst.onLine (hfirst.trimmed.symm ▸ hfirst.ne_nil), hfirst.trimmed]
  cases more with
  | nil =>
    refine ⟨split first, [], ?_, rfl, ?_⟩
    · rw [hfirst.normal.text_split, hline]
    · simpa [rows, spaced] using rows_line hfirst pending []
  | cons next more =>
    obtain ⟨hfollows, hchain⟩ := List.isChain_cons_cons.1 hchain
    have hspace : ∀ p ∈ [other ' '], p.blank = true := List.forall_mem_singleton.2 (by decide)
    obtain ⟨huncut, hflags⟩ := uncut_of_blank hspace ⟨false, endsLine (split first)⟩
    obtain ⟨hstatements, hcut⟩ := statements_rows_spaced hmore hchain (endsLine (split first))
    have hnone := hcut (Bool.or_eq_true_iff.2 hfollows.symm)
    refine ⟨split first ++ [other ' '],
      (rows ⟨false, endsLine (split first)⟩ (spaced (next :: more))).2, ?_, ?_, ?_⟩
    · rw [text_append, hfirst.normal.text_split]
      exact (statements_concat first (by decide)).trans hline
    · rwa [hnone] at hstatements
    · rw [spaced, ← List.singleton_append, rows_line hfirst, rows_append huncut, hflags, hnone]
      rfl

end Reflow

namespace Piece

theorem ends_of_isClosed {p : Piece} {rest : List Char} (h : Leads p rest)
    (hclosed : p.isClosed = true) : p.Ends := by
  cases h with
  | word | other => trivial
  | @quoted quote content _ hquote =>
    rw [isClosed, Option.any_eq_true] at hclosed
    obtain ⟨⟨inner, after⟩, hclose, hempty⟩ := hclosed
    obtain rfl := List.isEmpty_iff.1 hempty
    obtain rfl := closeText_eq hclose
    refine ⟨quote, inner ++ [quote], rfl, fun rest => ?_⟩
    rw [List.append_assoc, List.singleton_append]
    exact Source.closeQuote_of_encloses hquote (.of_closeText hclose) rest

theorem Fit.ends {ps : List Piece} (h : Fit ps) (hclosed : ∀ p ∈ ps, p.isClosed = true) :
    ∀ p ∈ ps, p.Ends := by
  induction h with
  | nil => exact List.forall_mem_nil _
  | cons hleads _ ih =>
    obtain ⟨hp, hps⟩ := List.forall_mem_cons.1 hclosed
    exact List.forall_mem_cons.2 ⟨ends_of_isClosed hleads hp, ih hps⟩

end Piece

namespace Source

open Reflow

/-- The pieces of lines with a space between them are those of the text. -/
theorem canonical_spaced : ∀ {lines : List (List Char)}, (∀ line ∈ lines, StatementLine line) →
    Canonical (spaced lines) ∧ text (spaced lines) = [' '].intercalate lines ∧
      OnLine ([' '].intercalate lines)
  | [], _ => ⟨⟨.nil, List.forall_mem_nil _⟩, rfl, .nil⟩
  | [line], h => by
    have hline := h line List.mem_cons_self
    have hjoined : [' '].intercalate [line] = line := by simp [List.intercalate]
    rw [hjoined]
    exact ⟨hline.normal.canonical, hline.normal.text_split, hline.onLine⟩
  | line :: next :: more, h => by
    obtain ⟨hline, hmore⟩ := List.forall_mem_cons.1 h
    obtain ⟨hcanonical, htext, honLine⟩ := canonical_spaced hmore
    have hjoined : [' '].intercalate (line :: next :: more) =
        line ++ ' ' :: [' '].intercalate (next :: more) := by
      simp [List.intercalate]
    have hfit := hline.normal.canonical.fit
    have hspace : isBlank ' ' = true := by decide
    rw [spaced, hjoined]
    refine ⟨⟨?_, ?_⟩, ?_, ?_⟩
    · refine hfit.append (hfit.ends hline.closed)
        (.cons (leads_of_isBlank hspace _) hcanonical.fit) ?_
      rintro c hc
      cases hc
      exact hspace
    · exact List.forall_mem_append.2 ⟨hline.normal.canonical.normal,
        List.forall_mem_cons.2 ⟨rfl, hcanonical.normal⟩⟩
    · rw [text_append, text_cons, hline.normal.text_split, htext]
      rfl
    · exact hline.onLine.append (List.forall_mem_cons.2 ⟨by decide, honLine⟩)

/-- The statements of a text on one line. -/
theorem segments_of_onLine {source : String} (h : OnLine source.toList)
    (hne : trim (normalLine source.toList) ≠ []) :
    segments (normalize source) =
      (statements (reflow (normalLine source.toList))).map fun text => ⟨1, String.ofList text⟩ := by
  have hlines : lines (unifyBreaks source.toList) = [source.toList] := by
    have hunify := unifyBreaks_append_of_onLine h []
    rw [List.append_nil, unifyBreaks, List.append_nil] at hunify
    rw [hunify, lines_of_newline_not_mem h.newline_not_mem]
  have hblank : allBlank (normalLine source.toList) = false := by
    simpa [trim_eq_nil_iff] using hne
  rw [normalize, hlines]
  simp [numbered, hblank, segments, statements]

/-- Lines with spaces between them are found again. -/
theorem segments_spaced {lines : List String} (hne : lines ≠ [])
    (h : ∀ line ∈ lines, StatementLine line.toList)
    (hchain : (lines.map String.toList).IsChain ToldApart) :
    segments (normalize (" ".intercalate lines)) = lines.map (⟨1, ·⟩) := by
  have hlines : ∀ line ∈ lines.map String.toList, StatementLine line := List.forall_mem_map.2 h
  have hsource : (" ".intercalate lines).toList = [' '].intercalate (lines.map String.toList) := by
    rw [String.toList_intercalate]
    rfl
  obtain ⟨hcanonical, htext, honLine⟩ := canonical_spaced hlines
  rw [← htext] at hsource honLine
  have hstatements : statements (reflow (text (spaced (lines.map String.toList)))) =
      lines.map String.toList := by
    rw [statements_reflow, lineRows, hcanonical.fit.split_text]
    cases lines with
    | nil => exact absurd rfl hne
    | cons first more => exact (statements_rows_spaced hlines hchain false).1
  have hnormal : IsNormal (text (spaced (lines.map String.toList))) := hcanonical.normalLine_text
  rw [segments_of_onLine, hsource, hnormal, hstatements, List.map_map]
  · exact List.map_congr_left fun line _ => by simp
  · rwa [hsource]
  · rw [hsource, hnormal]
    intro hnil
    have hreflow : reflow [] = [] := by
      rw [reflow, split]
      rfl
    rw [← statements_reflow_trim hnormal, hnil, hreflow] at hstatements
    exact hne (List.map_eq_nil_iff.1 hstatements.symm)

end Source

/-! ## Statements on one line -/

namespace Piece

/-- A piece of a text with tokens of these kinds. -/
structure IsRead (kinds : List TokenKind) (p : Piece) : Prop where
  closed : p.isClosed = true
  keyword : ∀ k, p.keyword? = some k → TokenKind.keyword k ∈ kinds

theorem IsRead.append {kinds : List TokenKind} {p : Piece} (h : IsRead kinds p)
    (found : List TokenKind) : IsRead (found ++ kinds) p :=
  ⟨h.closed, fun k hk => List.mem_append_right found (h.keyword k hk)⟩

theorem isRead_other (kinds : List TokenKind) (c : Char) : IsRead kinds (other c) :=
  ⟨rfl, fun _ h => by cases h⟩

theorem isRead_assign (kinds : List TokenKind) : IsRead kinds assign :=
  ⟨rfl, fun _ h => by cases h⟩

/-- A word that starts with a digit is no keyword. -/
theorem isRead_of_isDigit (kinds : List TokenKind) {c : Char} (h : c.isDigit = true)
    (cs : List Char) : IsRead kinds (word (c :: cs)) := by
  have hnone : Keyword.ofWord? (c :: cs) = none := by
    simp [Keyword.ofWord?, isAlphabetic_of_isDigit h]
  exact ⟨rfl, fun k hk => by cases hnone.symm.trans hk⟩

end Piece

namespace Source

open Reflow

/-- The pieces of a symbol. -/
theorem isRead_symbol {c : Char} {more rest : List Char} {sign : Symbol} {kinds : List TokenKind}
    (hsymbol : symbol? c (more ++ rest) = some (sign, more.length))
    (hcomment : c = '/' → (more ++ rest).head? ≠ some '/')
    (hrest : ∀ p ∈ split rest, IsRead kinds p) :
    ∀ p ∈ split (c :: (more ++ rest)), IsRead kinds p := by
  have hmem := mem_symbolChars hsymbol
  have hquote : ¬(c == '\'' || c == '"') = true := fun hc =>
    not_mem_symbolChars_of_mem_quotes c (by simpa [quotes] using hc) hmem
  have hmore : ∀ p ∈ split (more ++ rest), IsRead kinds p := by
    rcases symbol?_cases hsymbol with ⟨hlength, d, tail, hcs, hd, _⟩ | ⟨hlength, _⟩
    · obtain ⟨d', rfl⟩ := List.length_eq_one_iff.1 hlength
      cases hcs
      have hplain : ∀ d ∈ ['-', '=', '>'], isWordChar d = false ∧ d ∉ quotes ∧
          d ∉ ['/', '←', ':'] := forall_mem_of_all (by decide +kernel)
      obtain ⟨hword, hquote, hplain⟩ := hplain d hd
      rw [List.singleton_append, split_plain hword hquote hplain]
      exact List.forall_mem_cons.2 ⟨isRead_other kinds d, hrest⟩
    · rw [List.length_eq_zero_iff.1 hlength]
      exact hrest
  rw [split, if_neg (by rw [(IsSign.of_symbol hmem).notWord]; decide), if_neg hquote,
    if_neg (by simpa using hcomment)]
  split
  · exact List.forall_mem_cons.2 ⟨isRead_assign kinds, hmore⟩
  · split
    · rename_i hcolon
      -- The token takes the two characters that the piece takes.
      rw [Bool.and_eq_true, beq_iff_eq, beq_iff_eq] at hcolon
      obtain ⟨rfl, hhead⟩ := hcolon
      obtain ⟨tail, hcs⟩ := List.head?_eq_some_iff.1 hhead
      rw [hcs] at hsymbol
      simp only [symbol?, Option.some.injEq, Prod.mk.injEq] at hsymbol
      obtain ⟨d, rfl⟩ := List.length_eq_one_iff.1 hsymbol.2.symm
      exact List.forall_mem_cons.2 ⟨isRead_assign kinds, hrest⟩
    · exact List.forall_mem_cons.2 ⟨isRead_other kinds c, hmore⟩

/-- The pieces of a text are closed, and the keywords among them are tokens; also behind a
    number, where the word at the start of the text is part of a longer one. -/
theorem isRead_of_spells {cs : List Char} {kinds : List TokenKind} (h : Spells cs kinds) :
    (∀ p ∈ split cs, IsRead kinds p) ∧ ∀ p ∈ split (cs.dropWhile isWordChar), IsRead kinds p := by
  induction h with
  | nil => exact ⟨by rw [split]; exact List.forall_mem_nil _, by
      rw [List.dropWhile_nil, split]
      exact List.forall_mem_nil _⟩
  | @cons text rest found kinds hlexes hrest ih =>
    have ihRest := fun p hp => (ih.1 p hp).append found.toList
    have ihBehind := fun p hp => (ih.2 p hp).append found.toList
    -- In front of a lexeme that starts no word, there is nothing to drop.
    have hsame : ∀ {c : Char} {cs : List Char}, isWordChar c = false →
        (∀ p ∈ split (c :: cs), IsRead (found.toList ++ kinds) p) →
        (∀ p ∈ split (c :: cs), IsRead (found.toList ++ kinds) p) ∧
          ∀ p ∈ split ((c :: cs).dropWhile isWordChar), IsRead (found.toList ++ kinds) p := by
      intro c cs hc h
      rw [List.dropWhile_cons_of_neg (by rw [hc]; decide)]
      exact ⟨h, h⟩
    have hdigits : ∀ {c : Char} {cs : List Char}, (∀ x ∈ c :: cs, x.isDigit = true) →
        (∀ p ∈ split (c :: (cs ++ rest)), IsRead (found.toList ++ kinds) p) ∧
          ∀ p ∈ split ((c :: (cs ++ rest)).dropWhile isWordChar),
            IsRead (found.toList ++ kinds) p := by
      intro c cs hcs
      have hword : ∀ x ∈ c :: cs, isWordChar x = true :=
        fun x hx => isWordChar_of_isDigit (hcs x hx)
      obtain ⟨hc, hcs'⟩ := List.forall_mem_cons.1 hword
      rw [split, if_pos hc, List.dropWhile_cons_of_pos hc, List.dropWhile_append_of_pos hcs']
      exact ⟨List.forall_mem_cons.2 ⟨isRead_of_isDigit _ (hcs c List.mem_cons_self) _, ihBehind⟩,
        ihBehind⟩
    cases hlexes with
    | @space c _ hc =>
      refine hsame (isWordChar_of_isSpace hc) ?_
      rw [split_cons_of_isBlank (isBlank_of_isSpace hc)]
      exact List.forall_mem_cons.2 ⟨isRead_other _ c, ihRest⟩
    | @comment cs _ =>
      rw [List.cons_append, List.cons_append]
      refine hsame (IsSign.of_symbol (by decide)).notWord ?_
      rw [split_comment]
      exact List.forall_mem_nil _
    | whole hcs => exact hdigits hcs
    | @decimal c d cs ds _ hcs hds =>
      have hword : ∀ x ∈ c :: cs, isWordChar x = true :=
        fun x hx => isWordChar_of_isDigit (hcs x hx)
      obtain ⟨hc, hcs'⟩ := List.forall_mem_cons.1 hword
      have hpoint : isWordChar '.' = false := IsSign.point.notWord
      have hfraction := List.forall_mem_cons.2 ⟨isRead_other _ '.', (hdigits hds).1⟩
      rw [← split_plain hpoint (by decide) (by decide)] at hfraction
      have hpoints : ∀ x, ('.' :: d :: (ds ++ rest)).head? = some x → isWordChar x = false :=
        fun x hx => Option.some.inj hx ▸ hpoint
      have htext : c :: (cs ++ '.' :: d :: ds) ++ rest =
          c :: (cs ++ '.' :: d :: (ds ++ rest)) := by simp
      rw [htext, split_word hword hpoints, List.dropWhile_cons_of_pos hc,
        List.dropWhile_append_of_pos hcs', List.dropWhile_cons_of_neg (by rw [hpoint]; decide)]
      exact ⟨List.forall_mem_cons.2 ⟨isRead_of_isDigit _ (hcs c List.mem_cons_self) cs, hfraction⟩,
        hfraction⟩
    | @text quote content _ hquote hcontent =>
      rw [List.cons_append]
      refine hsame (IsSign.of_quote hquote).notWord ?_
      rw [← List.cons_append, split_text hquote hcontent]
      refine List.forall_mem_cons.2 ⟨⟨?_, fun _ h => by cases h⟩, ihRest⟩
      rw [isClosed, hcontent.closeText_eq hquote []]
      rfl
    | @word c cs _ hstart hcs hhead =>
      have hword := isWordChar_of_mem_word hstart hcs
      rw [List.dropWhile_append_of_pos hword, List.cons_append,
        split_word hword (hrest.isWordChar_head hhead)]
      refine ⟨List.forall_mem_cons.2 ⟨⟨rfl, fun k hk => ?_⟩, ihRest⟩, ihBehind⟩
      rw [word_eq_keyword hk]
      exact List.mem_cons_self
    | @symbol c more _ sign hsymbol hcomment =>
      exact hsame (IsSign.of_symbol (mem_symbolChars hsymbol)).notWord
        (isRead_symbol hsymbol hcomment ihRest)

/-- A line with no mark behind its first piece is whole. -/
theorem StatementLine.of_split {line : List Char} (h : IsStatement line) {p : Piece}
    {ps : List Piece} (hsplit : split line = p :: ps)
    (hclosed : ∀ q ∈ p :: ps, q.isClosed = true)
    (hbreaks : ∀ q ∈ p :: ps, q.breaksAfter = false ∧ q.keyword? ≠ some .fim)
    (hstarts : ∀ q ∈ ps, q.starts = false) : StatementLine line := by
  refine ⟨h, hsplit ▸ hclosed, fun before q after hline => ?_⟩
  rw [hsplit] at hline
  have hbehind : behindEnd before = false := behindEnd_eq_false fun q hq =>
    (hbreaks q (hline ▸ List.mem_append_left _ hq)).2
  have hq := hbreaks q (hline ▸ List.mem_append_right _ List.mem_cons_self)
  refine ⟨fun hfirst => .inl ?_, fun hlast => ?_, fun hfim => absurd hfim hq.2⟩
  · cases before with
    | nil => rfl
    | cons first before =>
      have hmem : q ∈ ps := by
        rw [(List.cons.inj hline).2]
        exact List.mem_append_right before List.mem_cons_self
      exact absurd hfirst (by rw [hstarts q hmem]; decide)
  · rcases hlast with hlast | ⟨_, hlast⟩
    · exact absurd hlast (by rw [hq.1]; decide)
    · exact absurd hlast (by rw [hbehind]; decide)

/-- A line with the tokens of a statement is whole. -/
theorem statementLine_of_spells {line : List Char} (h : IsStatement line) {first : TokenKind}
    {others : List TokenKind} (hspells : Spells line (first :: others))
    (hfirst : (∃ name, first = .name name) ∨
      ∃ k ∈ [Keyword.imprima, .imprimaln, .leia, .retorne], first = .keyword k)
    (hothers : ∀ kind ∈ others, kind.isInner = true) : StatementLine line := by
  generalize hkinds : first :: others = kinds at hspells
  cases hspells with
  | nil => cases hkinds
  | @cons text rest found kinds hlexes hrest =>
    cases hlexes with
    | space hc =>
      exact absurd (isBlank_of_isSpace hc) (by rw [not_isBlank_of_trim_eq h.trimmed]; decide)
    | comment _ hend =>
      obtain rfl := hrest.eq_nil_of_comment hend
      cases hkinds.trans hrest.eq_nil
    | whole | decimal | text | symbol =>
      cases hkinds
      simp at hfirst
    | @word c cs _ hstart hcs hhead =>
      cases hkinds
      have hword := isWordChar_of_mem_word hstart hcs
      have hread := (isRead_of_spells hrest).1
      have hinner : ∀ q ∈ split rest, ∀ k, q.keyword? = some k →
          k.startsStatement = false ∧ k.breaksAfter = false := by
        intro q hq k hk
        have hkind := hothers _ ((hread q hq).keyword k hk)
        simpa [TokenKind.isInner] using hkind
      have hopening : ∀ k, (Piece.word (c :: cs)).keyword? = some k →
          k.breaksAfter = false ∧ k ≠ .fim := by
        intro k hk
        have hall : ∀ k ∈ [Keyword.imprima, .imprimaln, .leia, .retorne],
            k.breaksAfter = false ∧ k ≠ .fim := by decide
        rw [word_eq_keyword hk] at hfirst
        obtain ⟨name, hname⟩ | ⟨k', hk', heq⟩ := hfirst
        · cases hname
        · cases heq
          exact hall k hk'
      refine .of_split h (split_word hword (hrest.isWordChar_head hhead)) ?_ ?_ fun q hq => ?_
      · exact List.forall_mem_cons.2 ⟨rfl, fun q hq => (hread q hq).closed⟩
      · refine List.forall_mem_cons.2 ⟨⟨any_keyword_eq_false fun k hk => (hopening k hk).1,
          fun hfim => (hopening .fim hfim).2 rfl⟩, fun q hq => ⟨any_keyword_eq_false fun k hk =>
            (hinner q hq k hk).2, fun hfim => ?_⟩⟩
        cases (hinner q hq .fim hfim).1
      · exact any_keyword_eq_false fun k hk => (hinner q hq k hk).1

theorem StatementLine.statements_reflow {line : List Char} (h : StatementLine line) :
    statements (reflow line) = [line] := by
  rw [Source.statements_reflow]
  exact (statements_rows_spaced (List.forall_mem_singleton.2 h) (.singleton line) false).1

/-- A statement on one line is left as it is. -/
theorem segments_of_simple {context : Context} {source text : String} {line : Line}
    {action : Simple} (honLine : OnLine source.toList) (hline : Line.ofText 1 source = .ok line)
    (hsimple : (LineParser.simple context text).parse line = .ok action) :
    segments (normalize source) = [⟨1, String.ofList (trim (normalLine source.toList))⟩] := by
  obtain ⟨first, rest, htokens, hfirst, hrest⟩ := LineParser.tokens_of_simple hsimple
  have hspells : Spells source.toList (line.tokens.map Token.kind) := by
    rw [← Line.exists_ofText_iff 1, String.ofList_toList]
    exact ⟨line, hline, by rw [Line.reading, Line.number_of_ofText hline]⟩
  have htrimmed := (spells_normalLine_glued hspells).1.trim
  rw [htokens, List.map_cons] at htrimmed
  have hne : trim (normalLine source.toList) ≠ [] := fun hnil => by
    rw [hnil] at htrimmed
    cases htrimmed.eq_nil
  have hnormal : IsNormal (normalLine source.toList) := normalLine_normalLine _
  have hstatement := statementLine_of_spells (.of_trim hne honLine.normalLine hnormal) htrimmed
    hfirst (List.forall_mem_map.2 hrest)
  rw [segments_of_onLine honLine hne, ← statements_reflow_trim hnormal,
    hstatement.statements_reflow]
  rfl

/-- Reflow undoes joining: lines that are told apart by the marks at their ends are found again
    if they are written on one line with spaces between them. A statement on one line is not
    changed by it. -/
theorem reflow_undoes_joining :
    (∀ lines : List String, lines ≠ [] → (∀ line ∈ lines, StatementLine line.toList) →
      (lines.map String.toList).IsChain ToldApart →
      segments (normalize (" ".intercalate lines)) = lines.map (⟨1, ·⟩)) ∧
    ∀ (context : Context) (source text : String) (line : Line) (action : Simple),
      OnLine source.toList → Line.ofText 1 source = .ok line →
      (LineParser.simple context text).parse line = .ok action →
      segments (normalize source) = [⟨1, String.ofList (trim (normalLine source.toList))⟩] :=
  ⟨fun _ => segments_spaced, fun _ _ _ _ _ => segments_of_simple⟩

theorem reflow_undoes_joining_choice :
    segments (normalize "SE a > 1 ENTÃO IMPRIMA 'SE', b SENÃO c[1] <- 2 FIM SE d(FALSO)") =
      [⟨1, "SE a > 1 ENTÃO"⟩, ⟨1, "IMPRIMA 'SE', b"⟩, ⟨1, "SENÃO"⟩, ⟨1, "c[1] <- 2"⟩,
        ⟨1, "FIM SE"⟩, ⟨1, "d(FALSO)"⟩] ∧
    segments (normalize " imprima 'se' // b") = [⟨1, "IMPRIMA 'se'"⟩] := by
  constructor
  · exact reflow_undoes_joining.1 ["SE a > 1 ENTÃO", "IMPRIMA 'SE', b", "SENÃO", "c[1] <- 2",
      "FIM SE", "d(FALSO)"] (by decide) (by decide +kernel) (by decide +kernel)
  · have htext : String.ofList (trim (normalLine " imprima 'se' // b".toList)) =
        "IMPRIMA 'se'" := by decide +kernel
    rw [← htext]
    exact reflow_undoes_joining.2 .main " imprima 'se' // b" ""
      ⟨1, " imprima 'se' // b", [⟨.keyword .imprima, ⟨1, 8⟩⟩, ⟨.text "se", ⟨9, 13⟩⟩]⟩
      (.print [.text "se"]) (by decide +kernel) (by decide +kernel) rfl

end Source

end Portugol
