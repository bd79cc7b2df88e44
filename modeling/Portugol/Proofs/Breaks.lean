import Portugol.Proofs.Lexemes

/-!
# Line ends

A text is cut into lines behind its line ends, whatever marks them.

* `unifyBreaks_append`: texts that are put together have the line ends of both, unless one
  line end would be cut in two.
* `unifyBreaks_rebreak`: which mark stands for the line ends does not matter.
* `lines_unifyBreaks_joined`: lines that are put together are the lines of the text.
-/

namespace Portugol.Source

open Lexer

/-- Whether a character ends a line. -/
def isBreak (c : Char) : Bool := c == '\n' || c == '\r'

theorem isBreak_eq_false_iff {c : Char} : isBreak c = false ↔ c ≠ '\n' ∧ c ≠ '\r' := by
  simp [isBreak]

/-- A text that stands on one line. -/
def OnLine (text : List Char) : Prop := ∀ c ∈ text, isBreak c = false

instance : DecidablePred OnLine := fun text => List.decidableBAll _ text

namespace OnLine

theorem nil : OnLine [] := fun _ hc => absurd hc List.not_mem_nil

theorem head {c : Char} {text : List Char} (h : OnLine (c :: text)) : isBreak c = false :=
  h c List.mem_cons_self

theorem tail {c : Char} {text : List Char} (h : OnLine (c :: text)) : OnLine text :=
  fun d hd => h d (List.mem_cons_of_mem c hd)

theorem append {text text' : List Char} (h : OnLine text) (h' : OnLine text') :
    OnLine (text ++ text') :=
  List.forall_mem_append.2 ⟨h, h'⟩

theorem suffix {text text' : List Char} (h : OnLine text) (hsuffix : text' <:+ text) :
    OnLine text' :=
  fun c hc => h c (hsuffix.subset hc)

theorem of_isWordChar {text : List Char} (h : ∀ c ∈ text, isWordChar c = true) : OnLine text := by
  refine fun c hc => Bool.eq_false_iff.2 fun hbreak => ?_
  have hblank := isBlank_of_isWordChar (h c hc)
  rcases Bool.or_eq_true_iff.1 hbreak with hc | hc <;>
    rw [beq_iff_eq.1 hc] at hblank <;> revert hblank <;> decide

end OnLine

/-! ## Marks -/

theorem unifyBreaks_append {front back : List Char} (h : back.head? ≠ some '\n') :
    unifyBreaks (front ++ back) = unifyBreaks front ++ unifyBreaks back := by
  fun_induction unifyBreaks front with
  | case1 front ih => exact congrArg ('\n' :: ·) ih
  | case2 front hne ih =>
    have hhead : (front ++ back).head? ≠ some '\n' := by
      cases front with
      | nil => exact h
      | cons c front => exact fun hc => hne front (by rw [Option.some.inj hc])
    rw [List.cons_append, unifyBreaks_return hhead, ih, List.cons_append]
  | case3 c front _ hc ih => rw [List.cons_append, unifyBreaks_cons hc, ih, List.cons_append]
  | case4 => rfl

theorem unifyBreaks_append_of_onLine {front : List Char} (h : OnLine front) (back : List Char) :
    unifyBreaks (front ++ back) = front ++ unifyBreaks back := by
  induction front with
  | nil => rfl
  | cons c front ih =>
    rw [List.cons_append, unifyBreaks_cons (isBreak_eq_false_iff.1 h.head).2, ih h.tail,
      List.cons_append]

theorem head_unifyBreaks {text : List Char} {c : Char} (h : (unifyBreaks text).head? = some c)
    (hc : isBreak c = false) : text.head? = some c := by
  have hne := (isBreak_eq_false_iff.1 hc).1
  fun_induction unifyBreaks text with
  | case1 | case2 => exact absurd (Option.some.inj h).symm hne
  | case3 => exact h
  | case4 => cases h

/-- What marks the end of a line. -/
inductive LineBreak
  | lf
  | crlf
  | cr
  deriving DecidableEq, Repr

def LineBreak.chars : LineBreak → List Char
  | lf => ['\n']
  | crlf => ['\r', '\n']
  | cr => ['\r']

/-- The text with every line end written in the same way. -/
def rebreak (mark : LineBreak) (text : List Char) : List Char :=
  (unifyBreaks text).flatMap fun c => if c = '\n' then mark.chars else [c]

theorem unifyBreaks_rebreak (mark : LineBreak) (text : List Char) :
    unifyBreaks (rebreak mark text) = unifyBreaks text := by
  have hunified := return_not_mem_unifyBreaks text
  rw [rebreak]
  generalize unifyBreaks text = text at hunified
  induction text with
  | nil => rfl
  | cons c text ih =>
    rw [List.mem_cons, not_or] at hunified
    rw [List.flatMap_cons]
    by_cases hc : c = '\n'
    · subst hc
      rw [if_pos rfl]
      cases mark with
      | lf => exact congrArg ('\n' :: ·) (ih hunified.2)
      | crlf => exact congrArg ('\n' :: ·) (ih hunified.2)
      | cr =>
        -- No line feed is left that could be read with the carriage return.
        have hhead : (text.flatMap fun c => if c = '\n' then LineBreak.cr.chars else [c]).head? ≠
            some '\n' := by
          intro hnewline
          obtain ⟨c, _, hc⟩ := List.mem_flatMap.1 (List.mem_of_mem_head? hnewline)
          split at hc
          · exact absurd hc (by decide)
          · exact absurd (List.mem_singleton.1 hc).symm ‹_›
        exact (unifyBreaks_return hhead).trans (congrArg ('\n' :: ·) (ih hunified.2))
    · rw [if_neg hc, List.singleton_append, unifyBreaks_cons fun hreturn => hunified.1 hreturn.symm,
        ih hunified.2]

/-! ## Lines -/

theorem lines_append_of_onLine {front text line : List Char} {more : List (List Char)}
    (hfront : OnLine front) (h : lines text = line :: more) :
    lines (front ++ text) = (front ++ line) :: more := by
  induction front with
  | nil => exact h
  | cons c front ih =>
    exact lines_cons (isBreak_eq_false_iff.1 hfront.head).1 (ih hfront.tail)

/-- The first line of a text. -/
theorem exists_lines_eq_cons {text : List Char} (h : '\r' ∉ text) :
    ∃ line more, lines text = line :: more ∧ OnLine line ∧
      ∀ c, line.head? = some c → text.head? = some c := by
  induction text with
  | nil => exact ⟨[], [], rfl, .nil, fun _ hc => hc⟩
  | cons c text ih =>
    rw [List.mem_cons, not_or] at h
    by_cases hc : c = '\n'
    · subst hc
      exact ⟨[], lines text, rfl, .nil, fun _ hc => by cases hc⟩
    · obtain ⟨line, more, hlines, hline, _⟩ := ih h.2
      have hbreak : isBreak c = false := isBreak_eq_false_iff.2 ⟨hc, Ne.symm h.1⟩
      exact ⟨c :: line, more, lines_cons hc hlines, List.forall_mem_cons.2 ⟨hbreak, hline⟩,
        fun _ hhead => hhead⟩

/-- Lines with a line feed between them. -/
def joined (texts : List (List Char)) : List Char := List.intercalate ['\n'] texts

theorem lines_unifyBreaks_joined {first : List Char} {more : List (List Char)}
    (h : ∀ text ∈ first :: more, OnLine text) :
    lines (unifyBreaks (joined (first :: more))) = first :: more := by
  induction more generalizing first with
  | nil =>
    have hjoined : joined [first] = first ++ [] := by simp [joined, List.intercalate]
    have hnil : lines [] = [] :: [] := rfl
    rw [hjoined, unifyBreaks_append_of_onLine (h first List.mem_cons_self), unifyBreaks,
      lines_append_of_onLine (h first List.mem_cons_self) hnil, List.append_nil]
  | cons next more ih =>
    have hjoined : joined (first :: next :: more) = first ++ '\n' :: joined (next :: more) := by
      simp [joined, List.intercalate]
    have hnewline : lines ('\n' :: unifyBreaks (joined (next :: more))) =
        [] :: lines (unifyBreaks (joined (next :: more))) := rfl
    obtain ⟨hfirst, hmore⟩ := List.forall_mem_cons.1 h
    rw [hjoined, unifyBreaks_append_of_onLine hfirst, unifyBreaks_cons (by decide),
      lines_append_of_onLine hfirst hnewline, ih hmore, List.append_nil]

end Portugol.Source
