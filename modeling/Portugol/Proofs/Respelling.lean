import Mathlib.Logic.Relation
import Portugol.Proofs.Breaks
import Portugol.Proofs.Normalization
import Portugol.Run

/-!
# Other spellings of a program

A program can be spelled in many ways: keywords in any case and without accents, assignment
by any of its signs, comments with any text, and lines with any ends. `Respells` changes one
of these at one place (all line ends at once), and nothing of it shows in a run.

Only the normalized lines of a text matter (`interpret_congr`). What a normalized line has for
a part of the line is settled by the part alone, if the part starts outside literals and
comments and does not go on with something begun before it.

* `Place.after`: where the end of a text stands, in a literal, in a comment, or outside.
* `normalLine_append`: the part of a normalized line in front of such a place, and the part
  behind it.
* `normalLines_congr`: so one part of a text can stand for another.
* `interpret_of_respells`: texts that are spelled differently run alike.
-/

namespace Portugol

namespace Source

open Lexer hiding word

/-! ## Places in a text -/

/-- Where the end of a text stands. -/
inductive Place
  /-- Outside literals and comments, and behind none of the following. -/
  | code
  /-- Behind a word character. -/
  | word
  /-- Behind a slash, with which a comment may start. -/
  | slash
  /-- In a literal with this quote. -/
  | literal (quote : Char)
  /-- In a literal, behind a backslash that takes the next character with it. -/
  | escaped (quote : Char)
  | comment
  deriving DecidableEq, Repr

namespace Place

/-- Whether a place is outside literals and comments. -/
def isOutside : Place → Bool
  | code | word | slash => true
  | literal _ | escaped _ | comment => false

/-- The place behind a character outside literals and comments. -/
def behind (c : Char) : Place :=
  if isWordChar c then word
  else if c ∈ quotes then literal c
  else if c = '/' then slash
  else code

/-- The place behind a character at a place. Literals and comments end with the line. -/
def next (place : Place) (c : Char) : Place :=
  if isBreak c then code
  else
    match place with
    | code | word => behind c
    | slash => if c = '/' then comment else behind c
    | literal quote =>
      if c = quote then code else if c = '\\' then escaped quote else literal quote
    | escaped quote => literal quote
    | comment => comment

/-- Where the end of a text stands. -/
def after (text : List Char) : Place := text.foldl next code

@[simp] theorem after_concat (text : List Char) (c : Char) :
    after (text ++ [c]) = (after text).next c := by
  rw [after, List.foldl_append]
  rfl

theorem after_cons {c : Char} (h : isBreak c = false) (text : List Char) :
    after (c :: text) = text.foldl next (behind c) := by
  rw [after, List.foldl_cons, next, h]
  rfl

end Place

/-! ## Places in a line -/

open Place

theorem foldl_next_word {text : List Char} (h : ∀ c ∈ text, isWordChar c = true) :
    text.foldl next word = word := by
  induction text with
  | nil => rfl
  | cons c text ih =>
    have hbreak := (OnLine.of_isWordChar h).head
    obtain ⟨hc, htext⟩ := List.forall_mem_cons.1 h
    rw [List.foldl_cons, next, hbreak, if_neg Bool.false_ne_true, behind, if_pos hc, ih htext]

/-- A quote is closed in a text, and then what follows it stands in code, or the whole text
    stands in the literal. -/
theorem closeQuote_cases {quote : Char} (hquote : quote ∈ quotes) {text : List Char}
    (h : OnLine text) :
    (text.foldl next (literal quote) = after (Piece.closeQuote quote text).2 ∧
      ∀ rest, Piece.closeQuote quote (text ++ rest) =
        ((Piece.closeQuote quote text).1, (Piece.closeQuote quote text).2 ++ rest)) ∨
    text.foldl next (literal quote) ∈ [literal quote, escaped quote] := by
  have hslash := ne_backslash_of_mem_quotes hquote
  fun_induction Piece.closeQuote quote text with
  | case1 => exact .inr List.mem_cons_self
  | case2 c text content rest hclose ih =>
    have hliteral : ('\\' :: c :: text).foldl next (literal quote) =
        text.foldl next (literal quote) := by
      rw [List.foldl_cons, List.foldl_cons]
      simp [next, h.head, h.tail.head, hslash.symm]
    rw [hliteral]
    refine (ih h.tail.tail).imp_left ?_
    rintro ⟨hplace, hrest⟩
    refine ⟨?_, fun more => ?_⟩
    · rw [hplace, hclose]
    · rw [List.cons_append, List.cons_append, Piece.closeQuote, hrest, hclose]
  | case3 c text _ hc =>
    obtain rfl := beq_iff_eq.1 hc
    refine .inl ⟨?_, fun rest => ?_⟩
    · rw [List.foldl_cons, next, h.head]
      simp [after]
    · simp [Piece.closeQuote, hslash]
  | case4 c text hne hc content rest hclose ih =>
    rw [beq_iff_eq] at hc
    have hnext : (literal quote).next c = if c = '\\' then escaped quote else literal quote := by
      rw [next, h.head, if_neg Bool.false_ne_true, if_neg hc]
    by_cases hescape : c = '\\'
    · -- A backslash that takes nothing with it is the last character.
      have hnil : text = [] := by
        cases text with
        | nil => rfl
        | cons d text => exact (hne d text hescape rfl).elim
      rw [hnil, List.foldl_cons, hnext, if_pos hescape]
      exact .inr (List.mem_cons_of_mem _ List.mem_cons_self)
    · rw [List.foldl_cons, hnext, if_neg hescape]
      refine (ih h.tail).imp_left ?_
      rintro ⟨hplace, hrest⟩
      refine ⟨?_, fun more => ?_⟩
      · rw [hplace, hclose]
      · simp [Piece.closeQuote, hescape, hc, hrest, hclose]

theorem foldl_next_comment {text : List Char} (h : OnLine text) :
    text.foldl next comment = comment := by
  induction text with
  | nil => rfl
  | cons c text ih =>
    rw [List.foldl_cons, next, h.head, if_neg Bool.false_ne_true]
    exact ih h.tail

/-- Behind a word that ends in the text, the text stands in code. -/
theorem after_word_append {c : Char} {cs text : List Char}
    (hcs : ∀ x ∈ c :: cs, isWordChar x = true) (hne : text ≠ []) :
    after (c :: (cs ++ text)) = after text := by
  obtain ⟨hc, htail⟩ := List.forall_mem_cons.1 hcs
  rw [after_cons (OnLine.of_isWordChar hcs).head, behind, if_pos hc, List.foldl_append,
    foldl_next_word htail]
  cases text with
  | nil => exact absurd rfl hne
  | cons d text => rfl

theorem after_cons_of_behind {c : Char} (hbreak : isBreak c = false) (h : behind c = code)
    (text : List Char) : after (c :: text) = after text := by
  rw [after_cons hbreak, h]
  rfl

theorem behind_of_mem_symbolChars {c : Char} (h : c ∈ symbolChars) (hslash : c ≠ '/') :
    behind c = code := by
  rw [behind, (IsSign.of_symbol h).notWord, if_neg Bool.false_ne_true,
    if_neg fun hquote => not_mem_symbolChars_of_mem_quotes c hquote h, if_neg hslash]

theorem after_cons_cons {c d : Char} {text : List Char} (h : OnLine (c :: d :: text))
    (hword : isWordChar c = false) (hquote : c ∉ quotes) (hcomment : c = '/' → d ≠ '/') :
    after (c :: d :: text) = after (d :: text) := by
  have hbehind : behind c = if c = '/' then slash else code := by
    rw [behind, hword, if_neg Bool.false_ne_true, if_neg hquote]
  by_cases hslash : c = '/'
  · have hnext : slash.next d = behind d := by
      rw [next, h.tail.head, if_neg Bool.false_ne_true]
      exact if_neg (hcomment hslash)
    rw [after_cons h.head, hbehind, if_pos hslash, List.foldl_cons, hnext, after_cons h.tail.head]
  · exact after_cons_of_behind h.head (hbehind.trans (if_neg hslash)) _

/-- The rest of a line starts anew at a place: it stands outside literals and comments, and it
    does not go on with a word, a sign or a slash in front of it. -/
structure StartsAnew (place : Place) (rest : List Char) : Prop where
  outside : place.isOutside = true
  word : place = word → ∀ c, rest.head? = some c → isWordChar c = false
  slash : place = slash → rest.head? ≠ some '/'
  equal : rest.head? ≠ some '='

theorem StartsAnew.of_code {rest : List Char} (h : rest.head? ≠ some '=') :
    StartsAnew code rest where
  outside := rfl
  word hword := by cases hword
  slash hslash := by cases hslash
  equal := h

/-- What starts anew behind a word and a text does so behind the text, and makes no word in
    front of it longer. -/
theorem StartsAnew.behind_word {c : Char} {cs text rest : List Char}
    (hcs : ∀ x ∈ c :: cs, isWordChar x = true)
    (htext : ∀ x, text.head? = some x → isWordChar x = false)
    (h : StartsAnew (after (c :: (cs ++ text))) rest) :
    (∀ x, (text ++ rest).head? = some x → isWordChar x = false) ∧
      StartsAnew (after text) rest := by
  obtain ⟨hc, htail⟩ := List.forall_mem_cons.1 hcs
  cases text with
  | nil =>
    have hplace : after (c :: (cs ++ [])) = .word := by
      rw [List.append_nil, after_cons (OnLine.of_isWordChar hcs).head, behind, if_pos hc,
        foldl_next_word htail]
    exact ⟨h.word hplace, .of_code h.equal⟩
  | cons d text =>
    rw [after_word_append hcs (List.cons_ne_nil d text)] at h
    exact ⟨htext, h⟩

/-- What starts anew behind a character and a text does so behind the text, and is not read
    with the character. -/
theorem StartsAnew.behind_plain {c : Char} {text rest : List Char} (hline : OnLine (c :: text))
    (hword : isWordChar c = false) (hquote : c ∉ quotes)
    (hcomment : c = '/' → text.head? ≠ some '/') (hcolon : c = ':' → text.head? ≠ some '=')
    (h : StartsAnew (after (c :: text)) rest) :
    (c = '/' → (text ++ rest).head? ≠ some '/') ∧ (c = ':' → (text ++ rest).head? ≠ some '=') ∧
      StartsAnew (after text) rest := by
  cases text with
  | nil =>
    exact ⟨fun hslash => h.slash (by rw [hslash]; rfl), fun _ => h.equal, .of_code h.equal⟩
  | cons d text =>
    rw [after_cons_cons hline hword hquote fun hslash hd =>
      hcomment hslash (congrArg some hd)] at h
    exact ⟨hcomment, hcolon, h⟩

/-- A line is normalized part by part, if one part ends where the other starts anew. -/
theorem normalLine_append {front rest : List Char} (hfront : OnLine front)
    (h : StartsAnew (after front) rest) :
    normalLine (front ++ rest) = normalLine front ++ normalLine rest := by
  -- By induction on the pieces in front. A piece is the same whatever follows it, unless it is
  -- the last one, and then what follows starts anew.
  fun_induction Piece.split front with
  | case1 => rw [List.nil_append, normalLine_nil, List.nil_append]
  | case2 c cs hc ih =>
    have hword : ∀ x ∈ c :: cs.takeWhile isWordChar, isWordChar x = true :=
      List.forall_mem_cons.2 ⟨hc, fun x hx => List.mem_takeWhile_imp hx⟩
    have hhead : ∀ x, (cs.dropWhile isWordChar).head? = some x → isWordChar x = false :=
      fun x => eq_false_of_head_dropWhile
    have hcs : cs.takeWhile isWordChar ++ cs.dropWhile isWordChar = cs :=
      List.takeWhile_append_dropWhile
    generalize cs.takeWhile isWordChar = taken at hword hcs
    generalize cs.dropWhile isWordChar = left at hhead hcs ih
    subst hcs
    have hleft : OnLine left :=
      hfront.suffix ((List.suffix_append _ _).trans (List.suffix_cons _ _))
    obtain ⟨hends, hanew⟩ := h.behind_word hword hhead
    rw [List.cons_append, List.append_assoc, normalLine_word hword hends,
      normalLine_word hword hhead, ih hleft hanew, List.append_assoc]
  | case3 c cs hword hc ih =>
    have hquote : c ∈ quotes := by simpa [quotes] using hc
    have hplace : after (c :: cs) = cs.foldl next (literal c) := by
      rw [after_cons hfront.head, behind, if_neg hword, if_pos hquote]
    rcases closeQuote_cases hquote hfront.tail with ⟨hclosed, happend⟩ | hopen
    · have hsuffix : (Piece.closeQuote c cs).2 <:+ c :: cs :=
        List.IsSuffix.trans ⟨_, Piece.closeQuote_append c cs⟩ (List.suffix_cons _ _)
      rw [hplace, hclosed] at h
      rw [List.cons_append, normalLine_cons_of_mem_quotes hquote, happend,
        normalLine_cons_of_mem_quotes hquote, ih (hfront.suffix hsuffix) h]
      simp
    · -- The literal is still open, so nothing starts anew here.
      have houtside := h.outside
      rw [hplace] at houtside
      simp only [List.mem_cons, List.not_mem_nil, or_false] at hopen
      rcases hopen with hopen | hopen <;> rw [hopen] at houtside <;> cases houtside
  | case4 c cs hword hc hcomment =>
    obtain ⟨rfl, hhead⟩ : c = '/' ∧ cs.head? = some '/' := by simpa using hcomment
    obtain ⟨text, rfl⟩ := List.head?_eq_some_iff.1 hhead
    have hplace : after ('/' :: '/' :: text) = comment :=
      foldl_next_comment hfront.tail.tail
    have houtside := h.outside
    rw [hplace] at houtside
    exact absurd houtside (by decide)
  | case5 c cs hword hc hcomment harrow ih =>
    obtain rfl := beq_iff_eq.1 harrow
    rw [after_cons_of_behind (by decide) (behind_of_mem_symbolChars (by decide) (by decide))] at h
    rw [List.cons_append, normalLine_arrow, normalLine_arrow, ih hfront.tail h]
    rfl
  | case6 c cs hword hc hcomment harrow hcolon ih =>
    obtain ⟨rfl, hhead⟩ : c = ':' ∧ cs.head? = some '=' := by simpa using hcolon
    obtain ⟨text, rfl⟩ := List.head?_eq_some_iff.1 hhead
    rw [after_cons_of_behind (by decide) (behind_of_mem_symbolChars (by decide) (by decide)),
      after_cons_of_behind (by decide) (behind_of_mem_symbolChars (by decide) (by decide))] at h
    rw [List.cons_append, List.cons_append, normalLine_colonEqual, normalLine_colonEqual]
    exact congrArg ('<' :: '-' :: ·) (ih hfront.tail.tail h)
  | case7 c cs hword hc hcomment harrow hcolon ih =>
    have hword : isWordChar c = false := Bool.eq_false_iff.2 hword
    have hquote : c ∉ quotes := by simpa [quotes] using hc
    have hcomment : c = '/' → cs.head? ≠ some '/' := by simpa using hcomment
    have harrow : c ≠ '←' := by simpa using harrow
    have hcolon : c = ':' → cs.head? ≠ some '=' := by simpa using hcolon
    obtain ⟨hslash, hequal, hanew⟩ := h.behind_plain hfront hword hquote hcomment hcolon
    rw [List.cons_append, normalLine_cons_of_not hword hquote hslash harrow hequal,
      normalLine_cons_of_not hword hquote hcomment harrow hcolon, ih hfront.tail hanew]
    rfl

/-! ## Lines of a text -/

/-- A line end is one, however it is written. -/
theorem after_unifyBreaks (text : List Char) : after (unifyBreaks text) = after text := by
  have hfold : ∀ place, (unifyBreaks text).foldl next place = text.foldl next place := by
    fun_induction unifyBreaks text with
    | case1 text ih | case2 text _ ih => exact fun place => ih code
    | case3 c text _ _ ih => exact fun place => ih (place.next c)
    | case4 => exact fun _ => rfl
  exact hfold code

/-- The last line of a text, with which the first line of any text behind it becomes one. -/
theorem exists_lines_append {text : List Char} (h : '\r' ∉ text) :
    ∃ init front, OnLine front ∧ after front = after text ∧
      ∀ {back line more}, lines back = line :: more →
        lines (text ++ back) = init ++ (front ++ line) :: more := by
  induction text using List.reverseRecOn with
  | nil => exact ⟨[], [], .nil, rfl, fun hback => hback⟩
  | append_singleton text c ih =>
    rw [List.mem_append, not_or, List.mem_singleton] at h
    obtain ⟨init, front, hfront, hplace, hlines⟩ := ih h.1
    by_cases hc : c = '\n'
    · subst hc
      refine ⟨init ++ [front], [], .nil, ?_, fun {back} _ _ hback => ?_⟩
      · rw [after_concat]
        rfl
      · have hnewline : lines ('\n' :: back) = [] :: lines back := rfl
        rw [List.append_assoc, List.singleton_append, hlines hnewline, hback]
        simp
    · have hbreak : OnLine [c] :=
        List.forall_mem_singleton.2 (isBreak_eq_false_iff.2 ⟨hc, Ne.symm h.2⟩)
      refine ⟨init, front ++ [c], hfront.append hbreak, ?_, fun hback => ?_⟩
      · rw [after_concat, after_concat, hplace]
      · rw [List.append_assoc, List.singleton_append, hlines (lines_cons hc hback)]
        simp

/-- The physical lines of a text in canonical spelling. -/
def normalLines (text : List Char) : List (List Char) :=
  (lines (unifyBreaks text)).map normalLine

/-- A part of a text can stand for another one, if it does so in the line it stands on. -/
theorem normalLines_congr {before part part' back : List Char} (hne : part ≠ []) (hne' : part' ≠ [])
    (hpart : OnLine part) (hpart' : OnLine part')
    (h : ∀ {front line}, OnLine front → after front = after before →
      (∀ c, line.head? = some c → back.head? = some c) →
      normalLine (front ++ (part ++ line)) = normalLine (front ++ (part' ++ line))) :
    normalLines (before ++ (part ++ back)) = normalLines (before ++ (part' ++ back)) := by
  obtain ⟨init, front, hfront, hplace, hlast⟩ :=
    exists_lines_append (return_not_mem_unifyBreaks before)
  obtain ⟨line, more, hfirst, hline, hhead⟩ :=
    exists_lines_eq_cons (return_not_mem_unifyBreaks back)
  have hlines : ∀ {part}, part ≠ [] → OnLine part →
      lines (unifyBreaks (before ++ (part ++ back))) =
        init ++ (front ++ (part ++ line)) :: more := by
    intro part hne hpart
    have hhead : (part ++ back).head? ≠ some '\n' := by
      obtain ⟨c, part, rfl⟩ := List.exists_cons_of_ne_nil hne
      exact fun hc => (isBreak_eq_false_iff.1 hpart.head).1 (Option.some.inj hc)
    rw [unifyBreaks_append hhead, unifyBreaks_append_of_onLine hpart,
      hlast (lines_append_of_onLine hpart hfirst)]
  rw [normalLines, normalLines, hlines hne hpart, hlines hne' hpart', List.map_append,
    List.map_append, List.map_cons, List.map_cons,
    h hfront (hplace.trans (after_unifyBreaks before)) fun c hc =>
      head_unifyBreaks (hhead c hc) (hline c (List.mem_of_mem_head? hc))]

/-- A run has only the normalized lines of its text to go by. -/
theorem interpret_congr (options : RunOptions) {source source' : String}
    (h : normalLines source.toList = normalLines source'.toList) :
    interpret options source = interpret options source' := by
  have hnumbered : ∀ (first : Nat) (physical : List (List Char)), numbered first physical =
      ((physical.map normalLine).zipIdx first).map Prod.swap := by
    intro first physical
    induction physical generalizing first with
    | nil => rfl
    | cons line rest ih => exact congrArg ((first, normalLine line) :: ·) (ih (first + 1))
  have hnormalize : normalize source = normalize source' := by
    rw [normalLines, normalLines] at h
    rw [normalize, normalize, hnumbered, hnumbered, h]
  have hparse : Program.parse source = Program.parse source' := by
    rw [Program.parse, Program.parse, tokenize, tokenize, hnormalize]
  rw [interpret, interpret, runSource, runSource, hparse]

/-! ## Spellings -/

/-- The signs of assignment. -/
def assignSigns : List (List Char) := [['<', '-'], [':', '='], ['←']]

/-- One change to the spelling of a text. -/
inductive Respells : List Char → List Char → Prop
  /-- A whole word is replaced by another one that is read as the same keyword. -/
  | word {before word word' back : List Char} {keyword : Keyword} :
    (after before).isOutside = true → after before ≠ .word →
    (∀ c, back.head? = some c → isWordChar c = false) →
    (∀ c ∈ word, isWordChar c = true) → (∀ c ∈ word', isWordChar c = true) →
    Keyword.ofWord? word = some keyword → Keyword.ofWord? word' = some keyword →
    Respells (before ++ (word ++ back)) (before ++ (word' ++ back))
  /-- A sign of assignment is replaced by another one. -/
  | assign {before sign sign' back : List Char} :
    (after before).isOutside = true → sign ∈ assignSigns → sign' ∈ assignSigns →
    Respells (before ++ (sign ++ back)) (before ++ (sign' ++ back))
  /-- A comment, or a part of it, has another text. -/
  | comment {before text text' back : List Char} :
    (after before).isOutside = true → after before ≠ .slash → OnLine text → OnLine text' →
    Respells (before ++ ('/' :: '/' :: text ++ back)) (before ++ ('/' :: '/' :: text' ++ back))
  /-- All line ends are written in another way. -/
  | breaks (mark : LineBreak) (text : List Char) : Respells text (rebreak mark text)

theorem normalLine_assignSign {sign : List Char} (h : sign ∈ assignSigns) (rest : List Char) :
    normalLine (sign ++ rest) = '<' :: '-' :: normalLine rest := by
  simp only [assignSigns, List.mem_cons, List.not_mem_nil, or_false] at h
  rcases h with rfl | rfl | rfl
  · rw [List.cons_append, List.singleton_append,
      normalLine_cons_of_plain (IsSign.of_symbol (by decide)).notWord (by decide) (by decide),
      normalLine_cons_of_plain (IsSign.of_symbol (by decide)).notWord (by decide) (by decide)]
  · exact normalLine_colonEqual rest
  · exact normalLine_arrow rest

namespace StartsAnew

variable {place : Place} (houtside : place.isOutside = true)
include houtside

theorem of_isWordChar (hplace : place ≠ .word) {word : List Char}
    (hword : ∀ c ∈ word, isWordChar c = true) (hne : word ≠ []) (rest : List Char) :
    StartsAnew place (word ++ rest) := by
  obtain ⟨c, word, rfl⟩ := List.exists_cons_of_ne_nil hne
  have hsign : ∀ d ∈ symbolChars, (c :: word ++ rest).head? ≠ some d := by
    rintro d hd hhead
    obtain rfl := Option.some.inj hhead
    exact Bool.false_ne_true
      ((IsSign.of_symbol hd).notWord.symm.trans (hword c List.mem_cons_self))
  exact ⟨houtside, fun h => absurd h hplace, fun _ => hsign _ (by decide), hsign _ (by decide)⟩

theorem of_assignSign {sign : List Char} (hsign : sign ∈ assignSigns) (rest : List Char) :
    StartsAnew place (sign ++ rest) := by
  simp only [assignSigns, List.mem_cons, List.not_mem_nil, or_false] at hsign
  rcases hsign with rfl | rfl | rfl <;>
    exact ⟨houtside, fun _ c hc => Option.some.inj hc ▸ (IsSign.of_symbol (by decide)).notWord,
      fun _ => by simp, by simp⟩

theorem of_comment (hplace : place ≠ .slash) (rest : List Char) :
    StartsAnew place ('/' :: rest) :=
  ⟨houtside, fun _ c hc => Option.some.inj hc ▸ (IsSign.of_symbol (by decide)).notWord,
    fun h => absurd h hplace, by simp⟩

end StartsAnew

/-- No change to the spelling shows in the normalized lines. -/
theorem Respells.normalLines_eq {text text' : List Char} (h : Respells text text') :
    normalLines text' = normalLines text := by
  cases h with
  | @word before word word' back keyword houtside hplace hback hword hword' hkeyword hkeyword' =>
    have hne : ∀ {word}, Keyword.ofWord? word = some keyword → word ≠ [] := by
      rintro _ h rfl
      cases h
    refine normalLines_congr (hne hkeyword') (hne hkeyword) (.of_isWordChar hword')
      (.of_isWordChar hword) fun {front line} hfront hafter hhead => ?_
    rw [← hafter] at houtside hplace
    have hline : ∀ c, line.head? = some c → isWordChar c = false := fun c hc => hback c (hhead c hc)
    rw [normalLine_append hfront (.of_isWordChar houtside hplace hword' (hne hkeyword') line),
      normalLine_append hfront (.of_isWordChar houtside hplace hword (hne hkeyword) line),
      normalLine_keyword hword' hkeyword' hline, normalLine_keyword hword hkeyword hline]
  | @assign before sign sign' back houtside hsign hsign' =>
    have hline : ∀ sign ∈ assignSigns, sign ≠ [] ∧ OnLine sign := by decide
    refine normalLines_congr (hline _ hsign').1 (hline _ hsign).1 (hline _ hsign').2
      (hline _ hsign).2 fun {front line} hfront hafter _ => ?_
    rw [← hafter] at houtside
    rw [normalLine_append hfront (.of_assignSign houtside hsign' line),
      normalLine_append hfront (.of_assignSign houtside hsign line),
      normalLine_assignSign hsign', normalLine_assignSign hsign]
  | @comment before text text' back houtside hplace htext htext' =>
    have hcomment : ∀ {text}, OnLine text → OnLine ('/' :: '/' :: text) := fun htext =>
      List.forall_mem_cons.2 ⟨by decide, List.forall_mem_cons.2 ⟨by decide, htext⟩⟩
    refine normalLines_congr (List.cons_ne_nil _ _) (List.cons_ne_nil _ _) (hcomment htext')
      (hcomment htext) fun {front line} hfront hafter _ => ?_
    rw [← hafter] at houtside hplace
    have hnormal : ∀ text, normalLine (front ++ ('/' :: '/' :: text ++ line)) =
        normalLine front := by
      intro text
      rw [List.cons_append, List.cons_append,
        normalLine_append hfront (.of_comment houtside hplace _), normalLine_comment,
        List.append_nil]
    rw [hnormal, hnormal]
  | breaks mark => rw [normalLines, unifyBreaks_rebreak, normalLines]

end Source

open Source

/-- Spelling does not matter: however a text is respelled, its run has the same report. -/
theorem interpret_of_respells (options : RunOptions) {source source' : String}
    (h : Relation.ReflTransGen Respells source.toList source'.toList) :
    interpret options source' = interpret options source := by
  refine interpret_congr options ?_
  generalize source.toList = text, source'.toList = text' at h
  induction h with
  | refl => rfl
  | tail _ hstep ih => rw [hstep.normalLines_eq, ih]

/-- A text to read for `LEIA`. -/
def oneInput : RunOptions where
  inputs := { queue := ["1"] }
  rounds := 0

theorem interpret_of_respells_leia :
    Relation.ReflTransGen Respells "leia x //a\ny<-x".toList "LEIA x //b\r\ny←x".toList ∧
    interpret oneInput "LEIA x //b\r\ny←x" = interpret oneInput "leia x //a\ny<-x" := by
  have hword : Respells "leia x //a\ny<-x".toList "LEIA x //a\ny<-x".toList :=
    @Respells.word [] "leia".toList "LEIA".toList " x //a\ny<-x".toList .leia (by decide)
      (by decide) (by rintro _ ⟨⟩; decide +kernel) (forall_mem_of_all (by decide +kernel))
      (forall_mem_of_all (by decide +kernel)) (by decide +kernel) (by decide +kernel)
  have hassign : Respells "LEIA x //a\ny<-x".toList "LEIA x //a\ny←x".toList :=
    @Respells.assign "LEIA x //a\ny".toList ['<', '-'] ['←'] ['x'] (by decide +kernel) (by decide)
      (by decide)
  have hcomment : Respells "LEIA x //a\ny←x".toList "LEIA x //b\ny←x".toList :=
    @Respells.comment "LEIA x ".toList ['a'] ['b'] "\ny←x".toList (by decide +kernel)
      (by decide +kernel) (by decide) (by decide)
  have hbreaks : Respells "LEIA x //b\ny←x".toList "LEIA x //b\r\ny←x".toList :=
    .breaks .crlf _
  have hsteps := (((Relation.ReflTransGen.single hword).tail hassign).tail hcomment).tail hbreaks
  exact ⟨hsteps, interpret_of_respells oneInput hsteps⟩

end Portugol
