import Portugol.Proofs.Reflow

/-!
# Normalizing twice

The statements of a program, put together again line by line, are a program with the same
statements: each of them is normalized and without blanks at its ends, so nothing is left to
change. If there is only one, its line is reflowed again, which ends no line inside it.

* `texts_eq`: the statements of a text in terms of its lines that are not blank.
* `IsStatement`: what every statement is like.
* `reflowed_reflowed`: a second time nothing changes.
-/

namespace Portugol.Source

open Piece

/-! ## Statements of a text -/

/-- The normalized lines of a text that are not blank. -/
def content (source : String) : List (List Char) :=
  ((physicalLines source).map normalLine).filter (!allBlank ·)

/-- A normalized line as it is written, where it may be the only one that is not blank. -/
def writtenLine (single : Bool) (line : List Char) : List Char :=
  if single && !allBlank line then reflow line else line

/-- The statements of normalized lines that are not blank. A single one is reflowed. -/
def reflowed : List (List Char) → List (List Char)
  | [line] => statements (reflow line)
  | lines => lines.map trim

/-- The statements of a text. -/
def texts (source : String) : List String := (segments (normalize source)).map SourceLine.text

theorem onLine_of_mem_lines {text : List Char} (h : '\r' ∉ text) :
    ∀ line ∈ lines text, OnLine line := by
  induction text with
  | nil => exact List.forall_mem_singleton.2 .nil
  | cons c text ih =>
    rw [List.mem_cons, not_or] at h
    by_cases hc : c = '\n'
    · subst hc
      exact List.forall_mem_cons.2 ⟨.nil, ih h.2⟩
    · obtain ⟨line, more, hlines⟩ := exists_lines_cons text
      rw [hlines] at ih
      obtain ⟨hline, hmore⟩ := List.forall_mem_cons.1 (ih h.2)
      rw [lines_cons hc hlines]
      have hbreak : isBreak c = false := isBreak_eq_false_iff.2 ⟨hc, Ne.symm h.1⟩
      exact List.forall_mem_cons.2 ⟨List.forall_mem_cons.2 ⟨hbreak, hline⟩, hmore⟩

theorem OnLine.normalLine {line : List Char} (h : OnLine line) : OnLine (normalLine line) := by
  have hassign : OnLine (normal assign) := by decide
  rw [Source.normalLine]
  fun_induction split line with
  | case1 => exact .nil
  | case2 c cs hc ih =>
    have hcs : ∀ x ∈ c :: cs.takeWhile isWordChar, isWordChar x = true :=
      List.forall_mem_cons.2 ⟨hc, fun x hx => List.mem_takeWhile_imp hx⟩
    refine OnLine.append ?_ (ih (h.tail.suffix (List.dropWhile_suffix _)))
    rw [normal]
    cases Keyword.ofWord? (c :: cs.takeWhile isWordChar) with
    | none => exact .of_isWordChar hcs
    | some k => exact .of_isWordChar fun _ => Keyword.isWordChar_of_mem_spelling
  | case3 c cs _ _ ih =>
    have htail := h.tail
    rw [← closeQuote_append c cs] at htail
    obtain ⟨hcontent, hrest⟩ := List.forall_mem_append.1 htail
    exact OnLine.append (List.forall_mem_cons.2 ⟨h.head, hcontent⟩) (ih hrest)
  | case4 => exact .nil
  | case5 c cs _ _ _ _ ih => exact hassign.append (ih h.tail)
  | case6 c cs _ _ _ _ _ ih => exact hassign.append (ih (h.tail.suffix (List.tail_suffix cs)))
  | case7 c cs _ _ _ _ _ ih =>
    exact OnLine.append (List.forall_mem_singleton.2 h.head) (ih h.tail)

/-- A line that is not blank in a text. -/
theorem of_mem_content {source : String} {line : List Char} (h : line ∈ content source) :
    IsNormal line ∧ OnLine line ∧ trim line ≠ [] := by
  rw [content, List.mem_filter] at h
  obtain ⟨written, hwritten, rfl⟩ := List.mem_map.1 h.1
  have honLine := onLine_of_mem_lines (return_not_mem_unifyBreaks source.toList) written hwritten
  exact ⟨normalLine_normalLine written, honLine.normalLine, fun hnil => by
    simp [trim_eq_nil_iff.1 hnil] at h⟩

theorem OnLine.newline_not_mem {text : List Char} (h : OnLine text) : '\n' ∉ text := fun hc =>
  absurd (h _ hc) (by decide)

theorem map_snd_numbered (first : Nat) (physical : List (List Char)) :
    (numbered first physical).map Prod.snd = physical.map normalLine := by
  induction physical generalizing first with
  | nil => rfl
  | cons line rest ih => exact congrArg (normalLine line :: ·) (ih (first + 1))

/-- Only the lines that are not blank have statements. -/
theorem flatMap_statements {lines : List (List Char)} (hlines : ∀ line ∈ lines, OnLine line)
    {f : List Char → List Char} (hf : ∀ line, allBlank line = true → f line = line) :
    lines.flatMap (statements ∘ f) = (lines.filter (!allBlank ·)).flatMap (statements ∘ f) := by
  induction lines with
  | nil => rfl
  | cons line lines ih =>
    obtain ⟨hline, hmore⟩ := List.forall_mem_cons.1 hlines
    rw [List.flatMap_cons, ih hmore]
    cases hblank : allBlank line with
    | true =>
      have hnil : statements (f line) = [] := by
        rw [hf line hblank, statements_of_newline_not_mem hline.newline_not_mem,
          trim_of_allBlank hblank]
        rfl
      rw [List.filter_cons_of_neg (by simp [hblank]), Function.comp, hnil, List.nil_append]
    | false => rw [List.filter_cons_of_pos (by simp [hblank]), List.flatMap_cons]

theorem statements_of_onLine {text : List Char} (h : OnLine text) (hne : trim text ≠ []) :
    statements text = [trim text] := by
  rw [statements_of_newline_not_mem h.newline_not_mem]
  exact List.filter_cons_of_pos (by simpa using hne)

/-- The statements of a text are those of its lines as they are written. -/
theorem texts_eq_flatMap (source : String) :
    texts source = ((content source).flatMap
      (statements ∘ writtenLine ((content source).length == 1))).map String.ofList := by
  have hlength : ((numbered 1 (physicalLines source)).filter fun line => !allBlank line.2).length =
      (content source).length := by
    rw [content, ← map_snd_numbered 1, List.filter_map, List.length_map, Function.comp_def]
  have honLine : ∀ line ∈ (physicalLines source).map normalLine, OnLine line := by
    refine List.forall_mem_map.2 fun line hline => OnLine.normalLine ?_
    exact onLine_of_mem_lines (return_not_mem_unifyBreaks source.toList) line hline
  have hblank : ∀ line, allBlank line = true →
      writtenLine ((content source).length == 1) line = line := fun line hblank => by
    simp [writtenLine, hblank]
  have hstatements := flatMap_statements honLine hblank
  rw [← content] at hstatements
  rw [← hstatements, texts, segments, normalize, ← physicalLines, hlength, ← map_snd_numbered 1]
  simp only [List.flatMap_map, List.map_flatMap, List.map_map]
  refine List.flatMap_congr fun entry _ => ?_
  rw [String.toList_ofList, ← writtenLine, ← statements]
  simp only [Function.comp_def]

/-- The statements of a text, in terms of its lines that are not blank. -/
theorem texts_eq (source : String) :
    texts source = (reflowed (content source)).map String.ofList := by
  have hcontent : ∀ line ∈ content source,
      allBlank line = false ∧ statements line = [trim line] := by
    intro line hline
    obtain ⟨_, honLine, hne⟩ := of_mem_content hline
    exact ⟨by simpa [trim_eq_nil_iff] using hne, statements_of_onLine honLine hne⟩
  rw [texts_eq_flatMap]
  refine congrArg (List.map String.ofList) ?_
  generalize content source = lines at hcontent
  by_cases hsingle : lines.length = 1
  · obtain ⟨line, rfl⟩ := List.length_eq_one_iff.1 hsingle
    have hblank := (hcontent line List.mem_cons_self).1
    simp [writtenLine, hblank, reflowed]
  · have hmany : reflowed lines = lines.map trim := by
      rw [reflowed]
      rintro line rfl
      exact hsingle rfl
    rw [hmany, ← List.flatMap_pure_eq_map]
    refine List.flatMap_congr fun line hline => ?_
    simp [writtenLine, hsingle, (hcontent line hline).2]

/-! ## A second time -/

/-- What every statement of a text is like. -/
structure IsStatement (text : List Char) : Prop where
  ne_nil : text ≠ []
  trimmed : trim text = text
  onLine : OnLine text
  normal : IsNormal text

theorem OnLine.trim {text : List Char} (h : OnLine text) : OnLine (trim text) :=
  trim_induction h (fun _ h => h.tail) fun _ h => (List.forall_mem_append.1 h).1

theorem IsStatement.of_trim {text : List Char} (hne : trim text ≠ []) (honLine : OnLine text)
    (hnormal : IsNormal text) : IsStatement (trim text) :=
  ⟨hne, trim_trim text, honLine.trim, hnormal.trim⟩

theorem isStatement_of_mem_reflowed {lines : List (List Char)}
    (h : ∀ line ∈ lines, IsNormal line ∧ OnLine line ∧ trim line ≠ []) :
    ∀ text ∈ reflowed lines, IsStatement text := by
  intro text htext
  rw [reflowed.eq_def] at htext
  split at htext
  · rename_i line
    obtain ⟨hnormal, honLine, _⟩ := h line List.mem_cons_self
    rw [statements_reflow_eq_filter hnormal honLine.newline_not_mem, List.mem_filter] at htext
    obtain ⟨row, hrow, rfl⟩ := List.mem_map.1 htext.1
    have hinfix := infix_of_mem_lineRows hrow
    obtain ⟨before, after, hsplit⟩ := hinfix
    have hcanonical := hnormal.canonical
    rw [← hsplit] at hcanonical
    refine .of_trim (by simpa using htext.2) ?_
      hcanonical.of_append_left.of_append_right.normalLine_text
    rw [← hnormal.text_split, ← hsplit, text_append, text_append] at honLine
    exact (List.forall_mem_append.1 (List.forall_mem_append.1 honLine).1).2
  · obtain ⟨line, hline, rfl⟩ := List.mem_map.1 htext
    obtain ⟨hnormal, honLine, hne⟩ := h line hline
    exact .of_trim hne honLine hnormal

/-- The statements of lines have the same statements. -/
theorem reflowed_reflowed {lines : List (List Char)}
    (h : ∀ line ∈ lines, IsNormal line ∧ OnLine line ∧ trim line ≠ []) :
    reflowed (reflowed lines) = reflowed lines := by
  have hstatements := isStatement_of_mem_reflowed h
  cases hreflowed : reflowed lines with
  | nil => rfl
  | cons first more =>
    cases more with
    | nil =>
      rw [reflowed.eq_def] at hreflowed
      split at hreflowed
      · rename_i line
        obtain ⟨hnormal, honLine, _⟩ := h line List.mem_cons_self
        obtain rfl := eq_trim_of_statements_reflow hnormal honLine.newline_not_mem hreflowed
        exact (statements_reflow_trim hnormal).trans hreflowed
      · rename_i hlines
        obtain ⟨line, rest, rfl, _, hrest⟩ := List.map_eq_cons_iff.1 hreflowed
        obtain rfl := List.map_eq_nil_iff.1 hrest
        exact absurd rfl (hlines line)
    | cons second more =>
      rw [hreflowed] at hstatements
      exact (List.map_congr_left fun text htext => (hstatements text htext).trimmed).trans
        (List.map_id _)

/-- Statements that are put together line by line are the lines of the text. -/
theorem content_joined {texts : List (List Char)} (h : ∀ text ∈ texts, IsStatement text) :
    content (String.ofList (joined texts)) = texts := by
  cases texts with
  | nil => decide +kernel
  | cons first more =>
    have hnormal : (first :: more).map normalLine = first :: more :=
      (List.map_congr_left fun text htext => (h text htext).normal).trans (List.map_id _)
    have hblank : ∀ text ∈ first :: more, (!allBlank text) = true := by
      intro text htext
      rw [Bool.not_eq_true', Bool.eq_false_iff, ne_eq, ← trim_eq_nil_iff, (h text htext).trimmed]
      exact (h text htext).ne_nil
    rw [content, physicalLines, String.toList_ofList,
      lines_unifyBreaks_joined fun text htext => (h text htext).onLine, hnormal,
      List.filter_eq_self.2 hblank]

theorem texts_texts (source : String) :
    texts ("\n".intercalate (texts source)) = texts source := by
  have hlines : ∀ line ∈ content source, IsNormal line ∧ OnLine line ∧ trim line ≠ [] :=
    fun _ => of_mem_content
  have htoList : (texts source).map String.toList = reflowed (content source) := by
    rw [texts_eq, List.map_map]
    exact (List.map_congr_left fun _ _ => String.toList_ofList).trans (List.map_id _)
  have hjoined : "\n".intercalate (texts source) =
      String.ofList (joined (reflowed (content source))) := by
    rw [← String.toList_inj, String.toList_intercalate, htoList, String.toList_ofList,
      String.toList_ofList, joined]
  rw [hjoined, texts_eq, content_joined (isStatement_of_mem_reflowed hlines),
    reflowed_reflowed hlines, ← texts_eq]

theorem isStatement_of_mem_texts {source text : String} (h : text ∈ texts source) :
    IsStatement text.toList := by
  rw [texts_eq] at h
  obtain ⟨cs, hcs, rfl⟩ := List.mem_map.1 h
  rw [String.toList_ofList]
  exact isStatement_of_mem_reflowed (fun _ => of_mem_content) cs hcs

/-! ## Numbers -/

theorem pairwise_numbered (first : Nat) (physical : List (List Char)) :
    (numbered first physical).Pairwise fun entry next => entry.1 < next.1 := by
  induction physical generalizing first with
  | nil => exact .nil
  | cons line rest ih =>
    refine .cons (fun entry hentry => ?_) (ih (first + 1))
    exact (number_mem_numbered hentry).1

/-- Statements come in the order of their lines. -/
theorem pairwise_segments (source : String) :
    (segments (normalize source)).Pairwise fun line next => line.number ≤ next.number := by
  rw [segments, normalize, List.flatMap_map, List.pairwise_flatMap]
  refine ⟨fun entry _ => ?_, (pairwise_numbered 1 _).imp fun {entry next} hlt line hline => ?_⟩
  · exact List.pairwise_map.2 (List.pairwise_of_forall fun _ _ => Nat.le_refl _)
  · intro statement hstatement
    obtain ⟨_, _, rfl⟩ := List.mem_map.1 hline
    obtain ⟨_, _, rfl⟩ := List.mem_map.1 hstatement
    exact Nat.le_of_lt hlt

/-- The statements of a text, put together line by line, are a text with the same statements, and
    reflow changes nothing but blanks outside quoted texts. Each statement is without blanks at its
    ends and stands on one line, and the numbers of the lines are in order and exist. -/
theorem normalize_idempotent :
    (∀ source, texts ("\n".intercalate (texts source)) = texts source ∧
      (∀ text ∈ texts source, text ≠ "" ∧ trim text.toList = text.toList ∧ OnLine text.toList) ∧
      (segments (normalize source)).Pairwise (fun line next => line.number ≤ next.number) ∧
      ∀ line ∈ segments (normalize source),
        1 ≤ line.number ∧ line.number ≤ (physicalLines source).length) ∧
    ∀ line, normalLine line = line →
      (split (reflow line)).filter (!·.blank) = (split line).filter (!·.blank) := by
  refine ⟨fun source => ⟨texts_texts source, fun text htext => ?_, pairwise_segments source,
    fun _ => number_mem_segments⟩, fun _ => IsNormal.split_reflow⟩
  have hstatement := isStatement_of_mem_texts htext
  exact ⟨fun hnil => hstatement.ne_nil (String.toList_eq_nil_iff.2 hnil), hstatement.trimmed,
    hstatement.onLine⟩

theorem normalize_idempotent_oneLine :
    texts "se a entao b:='\\' fim se' fim se 'c  // d" =
        ["SE a ENTÃO", "b<-'\\' fim se'", "FIM SE", "'c  // d"] ∧
      texts "SE a ENTÃO\nb<-'\\' fim se'\nFIM SE\n'c  // d" =
        ["SE a ENTÃO", "b<-'\\' fim se'", "FIM SE", "'c  // d"] ∧
      (split (reflow "FIM SE 'c  // d ".toList)).filter (!·.blank) =
        [.word "FIM".toList, .word "SE".toList, .quoted "'c  // d ".toList] := by
  have htexts : texts "se a entao b:='\\' fim se' fim se 'c  // d" =
      ["SE a ENTÃO", "b<-'\\' fim se'", "FIM SE", "'c  // d"] := by
    decide +kernel
  have hstable := (normalize_idempotent.1 "se a entao b:='\\' fim se' fim se 'c  // d").1
  rw [htexts] at hstable
  refine ⟨htexts, hstable, ?_⟩
  rw [normalize_idempotent.2 "FIM SE 'c  // d ".toList (by decide +kernel)]
  decide +kernel

end Portugol.Source
