import Portugol.Proofs.Breaks
import Portugol.Proofs.Normalization
import Portugol.Proofs.Phrase

/-!
# Literals as they are written

A truth value is written as its keyword, a number as a numeral, and a text between quotes,
with a backslash before what could not stand there otherwise. Whatever a text holds, keywords
and signs and the start of comments among it, it is read as it was meant: no step from the
line to its tokens looks into a quoted text.

* `unescape_escape`: what is written between quotes is the text.
* `Literal.lexes`: a literal is one token, if a blank, a comma or nothing is behind it.
* `Untouched`: rows of pieces that stay as they are when a line is normalized and reflowed.
  `Literal.untouched`: those of a literal do.
-/

namespace Portugol

open Lexer

/-! ## Texts -/

/-- A character as it is written between quotes. -/
def escapeChar (quote c : Char) : List Char :=
  if c = '\\' ∨ c = quote then ['\\', c]
  else if c = '\n' then ['\\', 'n']
  else if c = '\t' then ['\\', 't']
  else [c]

/-- A text as it is written between quotes. -/
def escape (quote : Char) (text : List Char) : List Char := text.flatMap (escapeChar quote)

section

variable {quote : Char} (hquote : quote ∈ quotes)
include hquote

theorem encloses_escape (text : List Char) : Encloses quote (escape quote text) := by
  induction text with
  | nil => exact .nil
  | cons c text ih =>
    rw [escape, List.flatMap_cons, escapeChar]
    split
    · rename_i hc
      have hnewline : c ≠ '\n' := by
        rintro rfl
        rcases hc with hc | rfl
        · exact absurd hc (by decide)
        · exact absurd hquote (by decide)
      exact .escaped hnewline ih
    split
    · exact .escaped (by decide) ih
    split
    · exact .escaped (by decide) ih
    · rename_i hc hnewline _
      rw [not_or] at hc
      exact .plain hc.2 hnewline hc.1 ih

/-- A text is read as it was meant. -/
theorem unescape_escape (text : List Char) : unescape (escape quote text) = text := by
  induction text with
  | nil => rfl
  | cons c text ih =>
    rw [escape] at ih
    rw [escape, List.flatMap_cons, escapeChar]
    split
    · rename_i hc
      have hletter : c ≠ 'n' ∧ c ≠ 't' := by
        rcases hc with rfl | rfl
        · decide
        · constructor <;> rintro rfl <;> exact absurd hquote (by decide)
      rw [List.cons_append, List.singleton_append, unescape, ih]
      · exact hletter.1
      · exact hletter.2
    split
    · rename_i hc
      rw [List.cons_append, List.singleton_append, unescape, ih, hc]
    split
    · rename_i hc
      rw [List.cons_append, List.singleton_append, unescape, ih, hc]
    · rename_i hc _ _
      rw [not_or] at hc
      rw [List.singleton_append, unescape, ih]
      · exact fun _ hslash => absurd hslash hc.1
      · exact fun _ hslash => absurd hslash hc.1
      · exact fun _ _ hslash => absurd hslash hc.1

/-- A text between quotes is one token, whatever follows. -/
theorem lexes_escape (text rest : List Char) : Lexes (quote :: (escape quote text ++ [quote])) rest
    (some (.text (String.ofList text))) := by
  have hlexes : Lexes (quote :: (escape quote text ++ [quote])) rest
      (some (.text (String.ofList (unescape (escape quote text))))) :=
    .text hquote (encloses_escape hquote text)
  rwa [unescape_escape hquote] at hlexes

end

theorem return_not_mem_escape (quote : Char) {text : List Char} (h : '\r' ∉ text) :
    '\r' ∉ escape quote text := by
  intro hreturn
  obtain ⟨c, hc, hreturn⟩ := List.mem_flatMap.1 hreturn
  have hne : '\r' ≠ c := fun heq => h (heq ▸ hc)
  rw [escapeChar] at hreturn
  repeat' split at hreturn
  all_goals simp [hne] at hreturn

/-! ## Pieces that stay -/

namespace Source

open Keyword

/-- A row of pieces that are the same in a normalized line, and before and behind which no line
    ends when a line is reflowed. -/
inductive Untouched : List Char → Prop
  | nil : Untouched []
  | word {c : Char} {cs rest : List Char} : (∀ x ∈ c :: cs, isWordChar x = true) →
    (∀ x, rest.head? = some x → isWordChar x = false) →
    (∀ keyword, ofWord? (c :: cs) = some keyword → keyword.spelling.toList = c :: cs ∧
      keyword.startsStatement = false ∧ keyword.breaksAfter = false) →
    Untouched rest → Untouched (c :: (cs ++ rest))
  | text {quote : Char} {content rest : List Char} : quote ∈ quotes → Encloses quote content →
    Untouched rest → Untouched (quote :: (content ++ [quote]) ++ rest)
  | plain {c : Char} {rest : List Char} : isWordChar c = false → c ∉ quotes →
    c ∉ ['/', '←', ':'] → Untouched rest → Untouched (c :: rest)

theorem split_word {c : Char} {cs rest : List Char} (hcs : ∀ x ∈ c :: cs, isWordChar x = true)
    (hrest : ∀ x, rest.head? = some x → isWordChar x = false) :
    Piece.split (c :: (cs ++ rest)) = .word (c :: cs) :: Piece.split rest := by
  obtain ⟨htake, hdrop⟩ := takeWhile_append_of_head
    (fun x hx => hcs x (List.mem_cons_of_mem c hx)) hrest
  rw [Piece.split, if_pos (hcs c List.mem_cons_self), htake, hdrop]

theorem split_text {quote : Char} {content : List Char} (hquote : quote ∈ quotes)
    (h : Encloses quote content) (rest : List Char) :
    Piece.split (quote :: (content ++ [quote]) ++ rest) =
      .quoted (quote :: (content ++ [quote])) :: Piece.split rest := by
  have hc : (quote == '\'' || quote == '"') = true := by simpa [quotes] using hquote
  have happend : quote :: (content ++ [quote]) ++ rest = quote :: (content ++ quote :: rest) := by
    simp
  rw [happend, Piece.split, if_neg (by rw [(IsSign.of_quote hquote).notWord]; decide), if_pos hc,
    closeQuote_of_encloses hquote h]

theorem split_plain {c : Char} (hword : isWordChar c = false) (hquote : c ∉ quotes)
    (hplain : c ∉ ['/', '←', ':']) (rest : List Char) :
    Piece.split (c :: rest) = .other c :: Piece.split rest := by
  have hc : ¬(c == '\'' || c == '"') = true := by simpa [quotes] using hquote
  simp only [List.mem_cons, List.not_mem_nil, or_false, not_or] at hplain
  obtain ⟨hslash, harrow, hcolon⟩ := hplain
  rw [Piece.split, if_neg (by rw [hword]; decide), if_neg hc, if_neg (by simp [hslash]),
    if_neg (by simpa using harrow), if_neg (by simp [hcolon])]

theorem Untouched.normalLine_eq {cs : List Char} (h : Untouched cs) : normalLine cs = cs := by
  induction h with
  | nil => exact normalLine_nil
  | @word c cs rest hcs hrest hkeyword _ ih =>
    rw [normalLine_word hcs hrest, ih, Piece.normal]
    cases hfound : ofWord? (c :: cs) with
    | none => rfl
    | some keyword => rw [Option.elim_some, (hkeyword keyword hfound).1, List.cons_append]
  | text hquote hcontent _ ih => rw [normalLine_text hquote hcontent, ih]
  | plain hword hquote hplain _ ih => rw [normalLine_cons_of_plain hword hquote hplain, ih]

/-- Reflow writes such a row as it is. -/
theorem Untouched.foldl_step {cs : List Char} (h : Untouched cs) (written : List Char) :
    (Piece.split cs).foldl Reflow.step { written } = { written := cs.reverse ++ written } := by
  induction h generalizing written with
  | nil => rw [Piece.split]; rfl
  | @word c cs rest hcs hrest hkeyword _ ih =>
    have hstep : Reflow.step { written } (.word (c :: cs)) =
        { written := (c :: cs).reverse ++ written } := by
      rw [Reflow.step]
      cases hfound : ofWord? (c :: cs) with
      | none => rfl
      | some keyword =>
        obtain ⟨_, hstarts, hbreaks⟩ := hkeyword keyword hfound
        have hfim : keyword ≠ .fim := by
          rintro rfl
          cases hstarts
        simp [hstarts, hbreaks, hfim]
    rw [split_word hcs hrest, List.foldl_cons, hstep, ih]
    simp
  | text hquote hcontent _ ih =>
    rw [split_text hquote hcontent, List.foldl_cons]
    refine (ih _).trans ?_
    simp
  | plain hword hquote hplain _ ih =>
    rw [split_plain hword hquote hplain, List.foldl_cons]
    refine (ih _).trans ?_
    simp

/-- A keyword in its canonical spelling that neither starts a statement nor ends a line. -/
theorem Untouched.keyword {rest : List Char} (h : Untouched rest) (keyword : Keyword)
    (hstarts : keyword.startsStatement = false) (hbreaks : keyword.breaksAfter = false)
    (hrest : ∀ x, rest.head? = some x → isWordChar x = false) :
    Untouched (keyword.spelling.toList ++ rest) := by
  have hword := @isWordChar_of_mem_spelling keyword
  have hfound := ofWord?_spelling keyword
  obtain ⟨c, cs, hspelling⟩ := keyword.exists_spelling_eq_cons
  rw [hspelling] at hword hfound ⊢
  refine .word (fun x hx => hword hx) hrest ?_ h
  intro keyword' hkeyword'
  cases hfound.symm.trans hkeyword'
  exact ⟨hspelling, hstarts, hbreaks⟩

/-- A statement that starts with a keyword and goes on with such a row is not reflowed. -/
theorem Untouched.reflow_eq {rest : List Char} (h : Untouched rest) {keyword : Keyword}
    (hbreaks : keyword.breaksAfter = false) (hend : keyword ≠ .fim)
    (hrest : ∀ x, rest.head? = some x → isWordChar x = false) :
    reflow (keyword.spelling.toList ++ rest) = keyword.spelling.toList ++ rest := by
  have hword := @isWordChar_of_mem_spelling keyword
  have hfound := ofWord?_spelling keyword
  obtain ⟨c, cs, hspelling⟩ := keyword.exists_spelling_eq_cons
  rw [hspelling] at hword hfound ⊢
  have hstep : Reflow.step {} (.word (c :: cs)) = { written := (c :: cs).reverse } := by
    rw [Reflow.step, hfound]
    simp [Reflow.endLine, hbreaks, hend]
  rw [reflow, List.cons_append, split_word (fun x hx => hword hx) hrest, List.foldl_cons, hstep,
    h.foldl_step]
  simp

end Source

/-! ## Literals -/

/-- A literal as it is written: a truth value, a numeral, or a text with its quotes. -/
inductive Literal
  | logical (b : Bool)
  | number (numeral : {cs : List Char // Numeral.isNumeral cs = true})
  | text (quote : {c : Char // c ∈ quotes}) (s : {s : String // '\r' ∉ s.toList})

namespace Literal

/-- The characters of a literal. -/
def spelling : Literal → List Char
  | logical b => (logicalText b).toList
  | number numeral => numeral.1
  | text quote s => quote.1 :: (escape quote.1 s.1.toList ++ [quote.1])

/-- What a literal stands for, as an expression. -/
def phrase : Literal → Phrase
  | logical b => .logical b
  | number numeral => .number (Numeral.value numeral.1)
  | text _ s => .text s.1

/-- What a literal stands for. -/
def value : Literal → Value
  | logical b => .logical b
  | number numeral => .number (Numeral.value numeral.1)
  | text _ s => .text s.1

/-- What is printed of a literal: a text as it is, and a number as numbers are printed. -/
def display : Literal → String
  | logical b => logicalText b
  | number numeral => (Numeral.value numeral.1).displayText
  | text _ s => s.1

/-- What ends a literal: a blank or a comma, or nothing more. -/
def Ended (rest : List Char) : Prop := ∀ c, rest.head? = some c → c ∈ [' ', '\t', ',']

end Literal

/-- A numeral is a row of digits, or two with a point between them. -/
theorem Numeral.isNumeral_cases {cs : List Char} (h : isNumeral cs = true) :
    (∃ d ds, cs = d :: ds ∧ ∀ x ∈ d :: ds, x.isDigit = true) ∨
    ∃ d ds d' ds', cs = d :: (ds ++ '.' :: d' :: ds') ∧ (∀ x ∈ d :: ds, x.isDigit = true) ∧
      ∀ x ∈ d' :: ds', x.isDigit = true := by
  have hdigits : ∀ {cs}, isDigits cs = true →
      ∃ d ds, cs = d :: ds ∧ ∀ x ∈ d :: ds, x.isDigit = true := by
    intro cs h
    obtain ⟨hne, hall⟩ := Bool.and_eq_true_iff.1 h
    cases cs with
    | nil => cases hne
    | cons d ds => exact ⟨d, ds, rfl, List.all_eq_true.1 hall⟩
  have hcs : cs.takeWhile (· != '.') ++ cs.dropWhile (· != '.') = cs :=
    List.takeWhile_append_dropWhile
  obtain ⟨hwhole, hfraction⟩ := Bool.and_eq_true_iff.1 h
  obtain ⟨d, ds, hds, hdigit⟩ := hdigits hwhole
  rw [hds] at hcs
  cases hrest : cs.dropWhile (· != '.') with
  | nil =>
    rw [hrest, List.append_nil] at hcs
    exact .inl ⟨d, ds, hcs.symm, hdigit⟩
  | cons point fraction =>
    rw [hrest] at hfraction hcs
    obtain ⟨d', ds', rfl, hdigit'⟩ := hdigits hfraction
    have hpoint : point = '.' := by
      have hhead := eq_false_of_head_dropWhile (congrArg List.head? hrest)
      simpa using hhead
    exact .inr ⟨d, ds, d', ds', by rw [← hcs, hpoint, List.cons_append], hdigit, hdigit'⟩

namespace Literal

theorem Ended.of_mem : ∀ c ∈ [' ', '\t', ','],
    continuesWord c = false ∧ isWordChar c = false ∧ c.isDigit = false ∧ c ≠ '.' :=
  forall_mem_of_all (by decide +kernel)

theorem Ended.isWordChar {rest : List Char} (h : Ended rest) :
    ∀ c, rest.head? = some c → isWordChar c = false :=
  fun c hc => (of_mem c (h c hc)).2.1

/-- A literal is one token wherever it ends. -/
theorem lexes (literal : Literal) {rest : List Char} (h : Ended rest) :
    ∃ kind, literal.phrase.tokens = [kind] ∧ Lexes literal.spelling rest (some kind) := by
  have hword : ∀ c, rest.head? = some c → continuesWord c = false := fun c hc =>
    (Ended.of_mem c (h c hc)).1
  have hdigit : ∀ c, rest.head? = some c → c.isDigit = false := fun c hc =>
    (Ended.of_mem c (h c hc)).2.2.1
  cases literal with
  | logical b =>
    cases b with
    | true => exact ⟨_, rfl, Keyword.lexes_spelling .verdadeiro hword⟩
    | false => exact ⟨_, rfl, Keyword.lexes_spelling .falso hword⟩
  | number numeral =>
    refine ⟨_, rfl, ?_⟩
    rw [spelling]
    rcases Numeral.isNumeral_cases numeral.2 with ⟨d, ds, hds, hall⟩ |
      ⟨d, ds, d', ds', hds, hall, hall'⟩
    · rw [hds]
      refine .whole hall hdigit ?_
      rintro x more rfl
      exact absurd rfl (Ended.of_mem '.' (h '.' rfl)).2.2.2
    · rw [hds]
      exact .decimal hall hall' hdigit
  | text quote s =>
    have hlexes := lexes_escape quote.2 s.1.toList rest
    rw [String.ofList_toList] at hlexes
    exact ⟨_, rfl, hlexes⟩

/-- A row of digits is no keyword. -/
theorem untouched_digits {d : Char} {ds rest : List Char} (hds : ∀ x ∈ d :: ds, x.isDigit = true)
    (hhead : ∀ x, rest.head? = some x → isWordChar x = false) (hrest : Source.Untouched rest) :
    Source.Untouched (d :: (ds ++ rest)) := by
  refine .word (fun x hx => isWordChar_of_isDigit (hds x hx)) hhead ?_ hrest
  intro keyword hkeyword
  simp [Keyword.ofWord?, isAlphabetic_of_isDigit (hds d List.mem_cons_self)] at hkeyword

/-- No step from a line to its tokens changes anything in a literal. -/
theorem untouched (literal : Literal) {rest : List Char} (h : Ended rest)
    (hrest : Source.Untouched rest) : Source.Untouched (literal.spelling ++ rest) := by
  cases literal with
  | logical b =>
    cases b with
    | true => exact hrest.keyword .verdadeiro rfl rfl h.isWordChar
    | false => exact hrest.keyword .falso rfl rfl h.isWordChar
  | number numeral =>
    rw [spelling]
    rcases Numeral.isNumeral_cases numeral.2 with ⟨d, ds, hds, hall⟩ |
      ⟨d, ds, d', ds', hds, hall, hall'⟩
    · rw [hds]
      exact untouched_digits hall h.isWordChar hrest
    · rw [hds, List.cons_append, List.append_assoc]
      refine untouched_digits hall (fun x hx => Option.some.inj hx ▸ IsSign.point.notWord) ?_
      exact .plain IsSign.point.notWord (by decide) (by decide)
        (untouched_digits hall' h.isWordChar hrest)
  | text quote s => exact .text quote.2 (encloses_escape quote.2 _) hrest

theorem onLine (literal : Literal) : Source.OnLine literal.spelling := by
  have hdigits : ∀ {d ds}, (∀ x ∈ d :: ds, x.isDigit = true) → Source.OnLine (d :: ds) :=
    fun h => .of_isWordChar fun x hx => isWordChar_of_isDigit (h x hx)
  cases literal with
  | logical b =>
    cases b with
    | true => exact .of_isWordChar fun _ => @Keyword.isWordChar_of_mem_spelling .verdadeiro _
    | false => exact .of_isWordChar fun _ => @Keyword.isWordChar_of_mem_spelling .falso _
  | number numeral =>
    rw [spelling]
    rcases Numeral.isNumeral_cases numeral.2 with ⟨d, ds, hds, hall⟩ |
      ⟨d, ds, d', ds', hds, hall, hall'⟩
    · rw [hds]
      exact hdigits hall
    · rw [hds, ← List.cons_append]
      exact (hdigits hall).append (List.forall_mem_cons.2 ⟨by decide, hdigits hall'⟩)
  | text quote s =>
    have hquotes : ∀ c ∈ quotes, Source.isBreak c = false := forall_mem_of_all (by decide)
    have hquote : Source.OnLine [quote.1] :=
      List.forall_mem_singleton.2 (hquotes quote.1 quote.2)
    have hescape : Source.OnLine (escape quote.1 s.1.toList) := by
      refine fun c hc => Source.isBreak_eq_false_iff.2 ⟨?_, ?_⟩
      · rintro rfl
        exact (encloses_escape quote.2 _).newline_not_mem hc
      · rintro rfl
        exact return_not_mem_escape quote.1 s.2 hc
    exact hquote.append (hescape.append hquote)

end Literal

end Portugol
