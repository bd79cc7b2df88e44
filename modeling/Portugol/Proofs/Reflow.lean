import Portugol.Proofs.Pieces

/-!
# Where reflow ends a line

Reflow writes the pieces of a line and ends the line before some of them. Before which ones is
settled by two flags, whatever has been written, so the pieces fall into *rows*: the ones that
go on with the line, and those of each line after it.

* `statements`: what stands on the lines of a text, without the blanks around it.
* `statements_reflow`: the statements of a reflowed line are those of its rows.
* `statements_reflow_trim`: blanks at the ends of the line do not matter.
* `eq_trim_of_statements_reflow`: a line that stays one statement stays as it is.
-/

namespace Portugol

open Piece
open Lexer hiding word

namespace Source

/-! ## Blanks around a text -/

theorem trim_cons {blank : Char} (h : isBlank blank = true) (text : List Char) :
    trim (blank :: text) = trim text := by
  rw [trim, List.dropWhile_cons_of_pos h]
  rfl

theorem trim_append_of_allBlank {front : List Char} (h : allBlank front = true) (text : List Char) :
    trim (front ++ text) = trim text := by
  rw [trim, List.dropWhile_append_of_pos (List.all_eq_true.1 h)]
  rfl

theorem trim_append_allBlank (text : List Char) {back : List Char} (h : allBlank back = true) :
    trim (text ++ back) = trim text := by
  have hback : trimEnd back = [] := List.rdropWhile_eq_nil_iff.2 (List.all_eq_true.1 h)
  rw [trim, List.dropWhile_append]
  split
  · rename_i hnil
    rw [List.isEmpty_iff] at hnil
    rw [trim, hnil]
    exact trim_of_allBlank h
  · rw [trimEnd_append, if_pos hback]
    rfl

theorem trim_eq_nil_iff {text : List Char} : trim text = [] ↔ allBlank text = true := by
  refine ⟨fun h => ?_, trim_of_allBlank⟩
  have hrest := List.rdropWhile_eq_nil_iff.1 h
  rw [allBlank, List.all_eq_true, ← List.dropWhile_eq_nil_iff]
  -- What the blanks at the start are dropped from starts with another character.
  cases hdropped : text.dropWhile isBlank with
  | nil => rfl
  | cons c cs =>
    have hc : isBlank c = false := eq_false_of_head_dropWhile (by rw [hdropped]; rfl)
    rw [hdropped] at hrest
    exact absurd (hrest c List.mem_cons_self) (by rw [hc]; decide)

theorem trim_trim (text : List Char) : trim (trim text) = trim text :=
  trim_induction (motive := fun cs => trim cs = trim text) rfl
    (fun hblank h => (trim_cons hblank _).symm.trans h)
    fun hblank h => by rwa [trim_append_allBlank _ (by simpa [allBlank] using hblank)] at h

/-- A text without blanks at its ends does not start with one. -/
theorem not_isBlank_of_trim_eq {c : Char} {cs : List Char} (h : trim (c :: cs) = c :: cs) :
    isBlank c = false := by
  have hlength : (trim cs).length ≤ cs.length :=
    trim_induction (motive := fun text => text.length ≤ cs.length) (Nat.le_refl _)
      (fun _ h => Nat.le_of_succ_le h) fun _ h => Nat.le_trans (by simp) h
  refine Bool.eq_false_iff.2 fun hc => ?_
  rw [trim_cons hc] at h
  rw [h, List.length_cons] at hlength
  omega

/-! ## Statements -/

/-- What stands on the lines of a text, without the blanks around it. -/
def statements (text : List Char) : List (List Char) := ((lines text).map trim).filter (!·.isEmpty)

theorem exists_lines_cons (text : List Char) : ∃ line more, lines text = line :: more := by
  induction text with
  | nil => exact ⟨[], [], rfl⟩
  | cons c text ih =>
    obtain ⟨line, more, hlines⟩ := ih
    by_cases hc : c = '\n'
    · subst hc
      exact ⟨[], lines text, rfl⟩
    · exact ⟨c :: line, more, lines_cons hc hlines⟩

theorem lines_append_newline (front back : List Char) :
    lines (front ++ '\n' :: back) = lines front ++ lines back := by
  induction front with
  | nil => rfl
  | cons c front ih =>
    by_cases hc : c = '\n'
    · subst hc
      exact congrArg ([] :: ·) ih
    · obtain ⟨line, more, hlines⟩ := exists_lines_cons front
      rw [hlines] at ih
      rw [lines_cons hc hlines]
      exact lines_cons hc ih

theorem statements_append_newline (front back : List Char) :
    statements (front ++ '\n' :: back) = statements front ++ statements back := by
  rw [statements, lines_append_newline, List.map_append, List.filter_append]
  rfl

theorem statements_of_newline_not_mem {text : List Char} (h : '\n' ∉ text) :
    statements text = [trim text].filter (!·.isEmpty) := by
  rw [statements, lines_of_newline_not_mem h]
  rfl

theorem statements_cons {blank : Char} (h : isBlank blank = true) (text : List Char) :
    statements (blank :: text) = statements text := by
  by_cases hc : blank = '\n'
  · subst hc
    exact statements_append_newline [] text
  · obtain ⟨line, more, hlines⟩ := exists_lines_cons text
    rw [statements, statements, lines_cons hc hlines, hlines, List.map_cons, List.map_cons,
      trim_cons h]

theorem statements_concat (text : List Char) {blank : Char} (h : isBlank blank = true) :
    statements (text ++ [blank]) = statements text := by
  induction hlength : text.length using Nat.strong_induction_on generalizing text with
  | h n ih =>
    by_cases hnewline : '\n' ∈ text
    · -- Only the last line counts, so cut the text at any line feed.
      obtain ⟨front, back, rfl⟩ := List.append_of_mem hnewline
      rw [List.append_assoc, List.cons_append, statements_append_newline,
        statements_append_newline, ih back.length (by simp [← hlength]; omega) back rfl]
    · by_cases hc : blank = '\n'
      · subst hc
        rw [statements_append_newline]
        exact List.append_nil _
      · have hback : allBlank [blank] = true := List.all_eq_true.2 (by simpa using h)
        have hnot : '\n' ∉ text ++ [blank] := by simpa [hnewline] using Ne.symm hc
        rw [statements_of_newline_not_mem hnot, statements_of_newline_not_mem hnewline,
          trim_append_allBlank text hback]

end Source

/-! ## Rows -/

namespace Reflow

open Source

/-- What settles whether a line ends. -/
structure Flags where
  /-- Whether the last word was `FIM`. -/
  afterEnd : Bool := false
  /-- Whether a line ends before whatever is written next. -/
  breakPending : Bool := false
  deriving DecidableEq

/-- Whether a line ends before a piece. -/
def cuts (flags : Flags) : Piece → Bool
  | .word cs =>
    flags.breakPending || ((Keyword.ofWord? cs).any (·.startsStatement) && !flags.afterEnd)
  | .quoted _ => flags.breakPending
  | .other c => flags.breakPending && !isBlank c
  | .assign => false

/-- The flags behind a piece. -/
def next (flags : Flags) : Piece → Flags
  | .word cs =>
    { afterEnd := Keyword.ofWord? cs == some .fim
      breakPending := flags.afterEnd || (Keyword.ofWord? cs).any (·.breaksAfter) }
  | .quoted _ => {}
  | .other c => { flags with breakPending := flags.breakPending && isBlank c }
  | .assign => { flags with afterEnd := false }

def State.flags (s : State) : Flags := ⟨s.afterEnd, s.breakPending⟩

theorem written_step (s : State) (p : Piece) :
    (step s p).written =
      p.chars.reverse ++ if cuts s.flags p then endLine s.written else s.written := by
  cases p <;> rfl

theorem flags_step (s : State) (p : Piece) : (step s p).flags = next s.flags p := by
  cases p with
  | other c => cases hpending : s.breakPending <;> simp [step, next, State.flags, hpending]
  | word | quoted | assign => rfl

/-- The pieces that go on with a line, and those on each line after it. -/
def rows (flags : Flags) : List Piece → List Piece × List (List Piece)
  | [] => ([], [])
  | p :: ps =>
    let rest := rows (next flags p) ps
    if cuts flags p then ([], (p :: rest.1) :: rest.2) else (p :: rest.1, rest.2)

theorem flatten_rows (flags : Flags) (ps : List Piece) :
    (rows flags ps).1 ++ (rows flags ps).2.flatten = ps := by
  induction ps generalizing flags with
  | nil => rfl
  | cons p ps ih =>
    rw [rows]
    split <;> simpa using ih (next flags p)

theorem statements_endLine (written text : List Char) :
    statements ((endLine written).reverse ++ text) =
      statements written.reverse ++ statements text := by
  have hdropped : statements (written.dropWhile isBlank).reverse = statements written.reverse := by
    induction written with
    | nil => rfl
    | cons c written ih =>
      by_cases hc : isBlank c = true
      · rw [List.dropWhile_cons_of_pos hc, ih, List.reverse_cons, statements_concat _ hc]
      · rw [List.dropWhile_cons_of_neg hc]
  rw [← hdropped, endLine]
  cases written.dropWhile isBlank with
  | nil => rfl
  | cons c kept =>
    rw [List.reverse_cons, List.append_assoc, List.singleton_append, statements_append_newline]

/-- The statements of what has been written: the row that is begun goes on, and each further row
    stands on lines of its own. -/
theorem statements_foldl_step (s : State) (ps : List Piece) :
    statements (ps.foldl step s).written.reverse =
      statements (s.written.reverse ++ text (rows s.flags ps).1) ++
        (rows s.flags ps).2.flatMap (statements ∘ text) := by
  induction ps generalizing s with
  | nil => simp [rows]
  | cons p ps ih =>
    rw [List.foldl_cons, ih, rows, written_step, flags_step]
    split
    · rw [List.reverse_append, List.reverse_reverse, List.append_assoc, statements_endLine]
      simp
    · simp

end Reflow

namespace Source

open Reflow

/-- The rows of a line. -/
def lineRows (line : List Char) : List (List Piece) :=
  (rows {} (split line)).1 :: (rows {} (split line)).2

/-- No piece is lost. -/
theorem flatten_lineRows (line : List Char) : (lineRows line).flatten = split line :=
  flatten_rows {} (split line)

theorem infix_of_mem_lineRows {line : List Char} {row : List Piece} (h : row ∈ lineRows line) :
    row <:+: split line := by
  obtain ⟨before, after, hrows⟩ := List.append_of_mem h
  rw [← flatten_lineRows line, hrows, List.flatten_append, List.flatten_cons, ← List.append_assoc]
  exact ⟨_, _, rfl⟩

theorem statements_reflow (line : List Char) :
    statements (reflow line) = (lineRows line).flatMap (statements ∘ text) :=
  statements_foldl_step {} (split line)

/-- Blanks at the ends of a line make no difference. -/
theorem statements_reflow_trim {line : List Char} (h : IsNormal line) :
    statements (reflow (trim line)) = statements (reflow line) := by
  refine (trim_induction (motive := fun cs => IsNormal cs ∧
    statements (reflow cs) = statements (reflow line)) ⟨h, rfl⟩ ?_ ?_).2
  · rintro blank cs hblank ⟨hnormal, heq⟩
    refine ⟨hnormal.of_cons hblank, heq ▸ ?_⟩
    have hrows : lineRows (blank :: cs) =
        (other blank :: (rows {} (split cs)).1) :: (rows {} (split cs)).2 := by
      rw [lineRows, split_cons_of_isBlank hblank]
      rfl
    rw [statements_reflow, statements_reflow, hrows, lineRows, List.flatMap_cons, List.flatMap_cons]
    exact congrArg (· ++ _) (statements_cons hblank _).symm
  · rintro blank cs hblank ⟨hnormal, heq⟩
    obtain ⟨hcs, hsplit⟩ := hnormal.of_concat hblank
    refine ⟨hcs, heq ▸ ?_⟩
    -- No line ends before the blank, and none ends behind it.
    have hreflow : reflow (cs ++ [blank]) = reflow cs ++ [blank] := by
      obtain hsplit | ⟨front, content, hsplit, hfront⟩ := hsplit
      · rw [reflow, hsplit, List.foldl_append, List.foldl_cons, List.foldl_nil, written_step]
        simp [cuts, hblank, chars, reflow]
      · have hcuts : ∀ flags, cuts flags (quoted (content ++ [blank])) =
            cuts flags (quoted content) := fun _ => rfl
        rw [reflow, reflow, hsplit, hfront, List.foldl_append, List.foldl_append, List.foldl_cons,
          List.foldl_cons, List.foldl_nil, List.foldl_nil, written_step, written_step, hcuts]
        simp [chars]
    rw [hreflow, statements_concat _ hblank]

/-- The rows of a line each give one statement, or none if they are blank. -/
theorem statements_reflow_eq_filter {line : List Char} (h : IsNormal line) (hline : '\n' ∉ line) :
    statements (reflow line) = ((lineRows line).map (trim ∘ text)).filter (!·.isEmpty) := by
  have hrow : ∀ row ∈ lineRows line, '\n' ∉ text row := by
    intro row hrow hnewline
    obtain ⟨p, hp, hnewline⟩ := List.mem_flatMap.1 hnewline
    refine hline ?_
    rw [← h.text_split]
    exact List.mem_flatMap.2 ⟨p, (infix_of_mem_lineRows hrow).subset hp, hnewline⟩
  rw [statements_reflow]
  generalize lineRows line = all at hrow
  induction all with
  | nil => rfl
  | cons row all ih =>
    obtain ⟨hfirst, hmore⟩ := List.forall_mem_cons.1 hrow
    rw [List.flatMap_cons, ih hmore, Function.comp, statements_of_newline_not_mem hfirst,
      ← List.filter_append]
    rfl

/-- If all but one of some texts are blank, that one is what they are together. -/
theorem trim_flatten {texts : List (List Char)} {statement : List Char}
    (h : (texts.map trim).filter (!·.isEmpty) = [statement]) : trim texts.flatten = statement := by
  induction texts with
  | nil => cases h
  | cons first texts ih =>
    rw [List.flatten_cons]
    by_cases hfirst : trim first = []
    · rw [List.map_cons, List.filter_cons_of_neg (by simp [hfirst])] at h
      rw [trim_append_of_allBlank (trim_eq_nil_iff.1 hfirst), ih h]
    · rw [List.map_cons, List.filter_cons_of_pos (by simpa using hfirst), List.cons.injEq,
        List.filter_eq_nil_iff] at h
      obtain ⟨rfl, hmore⟩ := h
      refine trim_append_allBlank first (List.all_eq_true.2 fun c hc => ?_)
      obtain ⟨text, htext, hc⟩ := List.mem_flatten.1 hc
      have hblank : trim text = [] := by
        simpa using hmore (trim text) (List.mem_map_of_mem htext)
      exact List.all_eq_true.1 (trim_eq_nil_iff.1 hblank) c hc

/-- A line that stays one statement stays as it is. -/
theorem eq_trim_of_statements_reflow {line statement : List Char} (h : IsNormal line)
    (hline : '\n' ∉ line) (hone : statements (reflow line) = [statement]) :
    statement = trim line := by
  have htexts : ((lineRows line).map text).flatten = line := by
    conv_rhs => rw [← h.text_split, ← flatten_lineRows line, text_flatten]
  rw [statements_reflow_eq_filter h hline, ← List.map_map] at hone
  rw [← trim_flatten hone, htexts]

end Source

/-! ## Pieces -/

namespace Reflow

open Source

theorem reverse_endLine (written : List Char) : (endLine written).reverse =
    if trimEnd written.reverse = [] then [] else trimEnd written.reverse ++ ['\n'] := by
  rw [trimEnd, List.reverse_reverse, endLine]
  cases written.dropWhile isBlank with
  | nil => rfl
  | cons c kept => simp

/-- One more piece: what has been written loses blanks at its end at most. -/
theorem exists_pieces_step {s : State} {p : Piece} {ps qs : List Piece}
    (hwritten : s.written.reverse = text ps) (h : Fit (ps ++ p :: qs)) :
    ∃ ps', (step s p).written.reverse = text ps' ∧ Fit (ps' ++ qs) ∧
      ps'.filter (!·.blank) = (ps ++ [p]).filter (!·.blank) := by
  rw [written_step, List.reverse_append, List.reverse_reverse]
  split
  · have hrest := h.of_append_right
    have hne : text (p :: qs) ≠ [] :=
      List.append_ne_nil_of_left_ne_nil (Fit.cons_iff.1 hrest).1.chars_ne_nil _
    have hends := h.ends_of_append hne
    obtain ⟨kept, hfront, htext, hfilter⟩ := h.of_append_left.exists_trimEnd hends
    rw [reverse_endLine, hwritten, ← htext, List.filter_append, ← hfilter]
    have hkept : Fit kept := by
      obtain ⟨dropped, rfl⟩ := hfront
      exact h.of_append_left.of_append_left
    cases kept with
    | nil => exact ⟨[p], by simp, hrest, rfl⟩
    | cons q kept =>
      have hnil : text (q :: kept) ≠ [] :=
        List.append_ne_nil_of_left_ne_nil (Fit.cons_iff.1 hkept).1.chars_ne_nil _
      have hnewline : Fit (other '\n' :: p :: qs) :=
        .cons (leads_of_isBlank (by decide) _) hrest
      refine ⟨q :: kept ++ [other '\n', p], ?_, ?_, ?_⟩
      · rw [if_neg hnil]
        simp [chars]
      · rw [List.append_assoc]
        refine hkept.append (fun piece hpiece => hends piece (hfront.subset hpiece)) hnewline ?_
        rintro c hc
        cases hc
        decide
      · rw [List.filter_append]
        congr 1
  · refine ⟨ps ++ [p], ?_, ?_, rfl⟩
    · rw [hwritten]
      simp
    · rwa [List.append_assoc]

theorem exists_pieces_foldl {s : State} {ps qs : List Piece}
    (hwritten : s.written.reverse = text ps) (h : Fit (ps ++ qs)) :
    ∃ ps', (qs.foldl step s).written.reverse = text ps' ∧ Fit ps' ∧
      ps'.filter (!·.blank) = (ps ++ qs).filter (!·.blank) := by
  induction qs generalizing s ps with
  | nil => exact ⟨ps, hwritten, List.append_nil ps ▸ h, by rw [List.append_nil]⟩
  | cons p qs ih =>
    obtain ⟨ps₁, hwritten₁, hfit₁, hfilter₁⟩ := exists_pieces_step hwritten h
    obtain ⟨ps₂, hwritten₂, hfit₂, hfilter₂⟩ := ih hwritten₁ hfit₁
    refine ⟨ps₂, hwritten₂, hfit₂, ?_⟩
    rw [hfilter₂, List.filter_append, hfilter₁, ← List.filter_append, List.append_assoc,
      List.singleton_append]

end Reflow

/-- Reflow changes nothing but blanks outside quoted texts. -/
theorem Source.IsNormal.split_reflow {line : List Char} (h : IsNormal line) :
    (split (reflow line)).filter (!·.blank) = (split line).filter (!·.blank) := by
  obtain ⟨ps, hwritten, hfit, hfilter⟩ := 
    @Reflow.exists_pieces_foldl {} [] (split line) rfl h.canonical.fit
  rw [reflow, hwritten, hfit.split_text, hfilter, List.nil_append]

end Portugol
