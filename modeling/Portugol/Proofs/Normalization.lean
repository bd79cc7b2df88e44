import Portugol.Proofs.Lexemes
import Portugol.Proofs.Rejection

/-!
# Normalized lines

A line is split into pieces and spelled anew before it is read as tokens. Pieces are found by
rules of their own, so they need not be lexemes: digits and the word behind them are one piece,
and a decimal number is three. Still the new line has the tokens of the old one.

* `startsLike_normalLine`: a normalized line starts like the line, as far as a lexeme in front
  of it can tell.
* `spells_lexeme`: so a lexeme stays one of its kind if it and what follows are normalized, and
  `spells_normalLine_glued` follows for a row of lexemes.
* `tokenize_as_written`: a text of several lines has the tokens that its lines have as they
  are written.
-/

namespace Portugol

open Lexer

/-! ## Keywords -/

namespace Keyword

/-- The letters of the canonical spellings. -/
def alphabet : List Char :=
  ['A', 'Ã', 'C', 'Ç', 'D', 'E', 'É', 'F', 'G', 'H', 'I', 'L', 'M', 'N', 'O', 'P', 'Q', 'R', 'S',
    'T', 'U', 'V', 'Z']

theorem exists_spelling_eq_cons (k : Keyword) : ∃ c cs, k.spelling.toList = c :: cs := by
  cases k <;> exact ⟨_, _, rfl⟩

theorem spelling_subset (k : Keyword) : k.spelling.toList ⊆ alphabet := by
  cases k <;> decide +kernel

theorem of_mem_alphabet : ∀ c ∈ alphabet,
    upperCase c = [c] ∧ isAlphabetic c = true ∧ startsWord c = true :=
  forall_mem_of_all (by decide +kernel)

theorem isWordChar_of_mem_spelling {k : Keyword} {c : Char} (h : c ∈ k.spelling.toList) :
    isWordChar c = true :=
  isWordChar_of_startsWord (of_mem_alphabet c (spelling_subset k h)).2.2

theorem fold_spelling (k : Keyword) : fold k.spelling.toList = k.plain.toList := by
  have hfold : fold k.spelling.toList = k.spelling.toList.map stripAccent := by
    rw [fold, List.map_eq_flatMap]
    refine List.flatMap_congr fun c hc => ?_
    rw [(of_mem_alphabet c (spelling_subset k hc)).1]
    rfl
  rw [hfold]
  cases k <;> simp [spelling, plain, stripAccent]

theorem find?_plain (k : Keyword) : all.find? (·.plain == k.plain) = some k := by
  cases k <;> decide +kernel

theorem ofWord?_spelling (k : Keyword) : ofWord? k.spelling.toList = some k := by
  have hhead : k.spelling.toList.head?.any isAlphabetic = true := by
    obtain ⟨c, cs, hcs⟩ := k.exists_spelling_eq_cons
    have hc : c ∈ alphabet := spelling_subset k (by rw [hcs]; exact List.mem_cons_self)
    rw [hcs]
    exact (of_mem_alphabet c hc).2.1
  have hlength : k.plain.toList.length = k.spelling.toList.length := by
    cases k <;> simp [spelling, plain]
  simp only [ofWord?, fold_spelling, hhead, hlength, BEq.rfl, Bool.and_self, if_true,
    String.ofList_toList]
  exact find?_plain k

/-- The canonical spelling of a keyword is a word. -/
theorem lexes_spelling (k : Keyword) {rest : List Char}
    (hrest : ∀ x, rest.head? = some x → continuesWord x = false) :
    Lexes k.spelling.toList rest (some (.keyword k)) := by
  obtain ⟨c, cs, hcs⟩ := k.exists_spelling_eq_cons
  have hall : ∀ x ∈ c :: cs, startsWord x = true := fun x hx =>
    (of_mem_alphabet x (spelling_subset k (hcs ▸ hx))).2.2
  have hkind : Lexer.word (c :: cs) = .keyword k := word_eq_keyword (hcs ▸ k.ofWord?_spelling)
  rw [hcs, ← hkind]
  exact .word (hall c List.mem_cons_self)
    (fun x hx => continuesWord_of_startsWord (hall x (List.mem_cons_of_mem c hx))) hrest

end Keyword

/-! ## Pieces -/

namespace Source

@[simp] theorem normalLine_nil : normalLine [] = [] := by
  rw [normalLine, Piece.split]
  rfl

theorem normalLine_cons_of_isWordChar {c : Char} {cs : List Char} (h : isWordChar c = true) :
    normalLine (c :: cs) = Piece.normal (.word (c :: cs.takeWhile isWordChar)) ++
      normalLine (cs.dropWhile isWordChar) := by
  rw [normalLine, Piece.split, if_pos h]
  rfl

theorem normalLine_cons_of_mem_quotes {c : Char} {cs : List Char} (h : c ∈ quotes) :
    normalLine (c :: cs) = c :: ((Piece.closeQuote c cs).1 ++
      normalLine (Piece.closeQuote c cs).2) := by
  have hc : (c == '\'' || c == '"') = true := by simpa [quotes] using h
  rw [normalLine, Piece.split, if_neg (by rw [(IsSign.of_quote h).notWord]; decide), if_pos hc]
  rfl

theorem split_comment (cs : List Char) : Piece.split ('/' :: '/' :: cs) = [] := by
  have hslash : IsSign '/' := .of_symbol (by decide)
  rw [Piece.split, if_neg (by rw [hslash.notWord]; decide), if_neg (by decide), if_pos (by rfl)]

theorem normalLine_comment (cs : List Char) : normalLine ('/' :: '/' :: cs) = [] := by
  rw [normalLine, split_comment]
  rfl

theorem normalLine_arrow (cs : List Char) :
    normalLine ('←' :: cs) = '<' :: '-' :: normalLine cs := by
  have harrow : IsSign '←' := .of_symbol (by decide)
  rw [normalLine, Piece.split, if_neg (by rw [harrow.notWord]; decide), if_neg (by decide),
    if_neg (by simp), if_pos (by decide)]
  rfl

theorem normalLine_colonEqual (cs : List Char) :
    normalLine (':' :: '=' :: cs) = '<' :: '-' :: normalLine cs := by
  have hcolon : IsSign ':' := .of_symbol (by decide)
  rw [normalLine, Piece.split, if_neg (by rw [hcolon.notWord]; decide), if_neg (by decide),
    if_neg (by simp), if_neg (by decide), if_pos (by rfl)]
  rfl

theorem normalLine_cons_of_not {c : Char} {cs : List Char} (hword : isWordChar c = false)
    (hquote : c ∉ quotes) (hcomment : c = '/' → cs.head? ≠ some '/') (harrow : c ≠ '←')
    (hcolon : c = ':' → cs.head? ≠ some '=') : normalLine (c :: cs) = c :: normalLine cs := by
  have hc : ¬(c == '\'' || c == '"') = true := by simpa [quotes] using hquote
  rw [normalLine, Piece.split, if_neg (by rw [hword]; decide), if_neg hc,
    if_neg (by simpa using hcomment), if_neg (by simpa using harrow),
    if_neg (by simpa using hcolon)]
  rfl

theorem normalLine_cons_of_plain {c : Char} {cs : List Char} (hword : isWordChar c = false)
    (hquote : c ∉ quotes) (hplain : c ∉ ['/', '←', ':']) :
    normalLine (c :: cs) = c :: normalLine cs := by
  simp only [List.mem_cons, List.not_mem_nil, or_false, not_or] at hplain
  obtain ⟨hslash, harrow, hcolon⟩ := hplain
  exact normalLine_cons_of_not hword hquote (fun h => absurd h hslash) harrow fun h =>
    absurd h hcolon

/-- A line in canonical spelling, but for the word at its start. -/
def glued (cs : List Char) : List Char :=
  cs.takeWhile isWordChar ++ normalLine (cs.dropWhile isWordChar)

theorem glued_append {cs : List Char} (h : ∀ c ∈ cs, isWordChar c = true) (rest : List Char) :
    glued (cs ++ rest) = cs ++ glued rest := by
  rw [glued, List.takeWhile_append_of_pos h, List.dropWhile_append_of_pos h, List.append_assoc]
  rfl

theorem glued_cons {c : Char} {cs : List Char} (h : isWordChar c = false) :
    glued (c :: cs) = normalLine (c :: cs) := by
  rw [glued, List.takeWhile_cons_of_neg (by rw [h]; decide),
    List.dropWhile_cons_of_neg (by rw [h]; decide), List.nil_append]

/-- A word that starts with a digit is no keyword. -/
theorem normalLine_cons_of_isDigit {c : Char} {cs : List Char} (h : c.isDigit = true) :
    normalLine (c :: cs) = glued (c :: cs) := by
  have hword := isWordChar_of_isDigit h
  have hnone : Keyword.ofWord? (c :: cs.takeWhile isWordChar) = none := by
    simp [Keyword.ofWord?, isAlphabetic_of_isDigit h]
  rw [normalLine_cons_of_isWordChar hword, Piece.normal, hnone, glued,
    List.takeWhile_cons_of_pos hword, List.dropWhile_cons_of_pos hword]
  rfl

theorem normalLine_word {c : Char} {cs rest : List Char} (hcs : ∀ x ∈ c :: cs, isWordChar x = true)
    (hrest : ∀ x, rest.head? = some x → isWordChar x = false) :
    normalLine (c :: (cs ++ rest)) = Piece.normal (.word (c :: cs)) ++ normalLine rest := by
  obtain ⟨htake, hdrop⟩ := takeWhile_append_of_head
    (fun x hx => hcs x (List.mem_cons_of_mem c hx)) hrest
  rw [normalLine_cons_of_isWordChar (hcs c List.mem_cons_self), htake, hdrop]

theorem normalLine_keyword {word rest : List Char} {keyword : Keyword}
    (hword : ∀ c ∈ word, isWordChar c = true) (hkeyword : Keyword.ofWord? word = some keyword)
    (hrest : ∀ c, rest.head? = some c → isWordChar c = false) :
    normalLine (word ++ rest) = keyword.spelling.toList ++ normalLine rest := by
  cases word with
  | nil => cases hkeyword
  | cons c word =>
    rw [List.cons_append, normalLine_word hword hrest, Piece.normal, hkeyword]
    rfl

theorem closeQuote_of_encloses {quote : Char} {content : List Char} (hquote : quote ∈ quotes)
    (h : Encloses quote content) (rest : List Char) :
    Piece.closeQuote quote (content ++ quote :: rest) = (content ++ [quote], rest) := by
  have hslash := ne_backslash_of_mem_quotes hquote
  induction h with
  | nil => simp [Piece.closeQuote, hslash]
  | escaped _ _ ih => simp [Piece.closeQuote, ih]
  | plain hc _ hescape _ ih => simp [Piece.closeQuote, hc, hescape, ih]

theorem normalLine_space {c : Char} {cs : List Char} (h : isSpace c = true) :
    normalLine (c :: cs) = c :: normalLine cs := by
  have hsign : ¬IsSign c := fun hsign => Bool.false_ne_true (hsign.notSpace.symm.trans h)
  have hsubset : ['/', '←', ':'] ⊆ symbolChars := by decide
  exact normalLine_cons_of_plain (isWordChar_of_isSpace h) (fun hc => hsign (.of_quote hc))
    fun hc => hsign (.of_symbol (hsubset hc))

theorem normalLine_text {quote : Char} {content : List Char} (hquote : quote ∈ quotes)
    (h : Encloses quote content) (rest : List Char) :
    normalLine (quote :: (content ++ [quote]) ++ rest) =
      quote :: (content ++ [quote]) ++ normalLine rest := by
  have happend : quote :: (content ++ [quote]) ++ rest = quote :: (content ++ quote :: rest) := by
    simp
  rw [happend, normalLine_cons_of_mem_quotes hquote, closeQuote_of_encloses hquote h]
  rfl

theorem normalLine_whole {c : Char} {cs : List Char} (hcs : ∀ x ∈ c :: cs, x.isDigit = true)
    (rest : List Char) : normalLine (c :: cs ++ rest) = c :: cs ++ glued rest ∧
      glued (c :: cs ++ rest) = c :: cs ++ glued rest := by
  have hglued : glued (c :: cs ++ rest) = c :: cs ++ glued rest :=
    glued_append (fun x hx => isWordChar_of_isDigit (hcs x hx)) rest
  refine ⟨?_, hglued⟩
  rw [← hglued]
  exact normalLine_cons_of_isDigit (hcs c List.mem_cons_self)

theorem normalLine_decimal {c d : Char} {cs ds : List Char} (hcs : ∀ x ∈ c :: cs, x.isDigit = true)
    (hds : ∀ x ∈ d :: ds, x.isDigit = true) (rest : List Char) :
    normalLine (c :: (cs ++ '.' :: d :: ds) ++ rest) = c :: (cs ++ '.' :: d :: ds) ++ glued rest ∧
      glued (c :: (cs ++ '.' :: d :: ds) ++ rest) =
        c :: (cs ++ '.' :: d :: ds) ++ glued rest := by
  have happend : ∀ rest, c :: (cs ++ '.' :: d :: ds) ++ rest =
      c :: cs ++ '.' :: (d :: ds ++ rest) := by simp
  -- The point is a piece of its own, so behind it starts another word of digits.
  have hpoint : glued ('.' :: (d :: ds ++ rest)) = '.' :: (d :: ds ++ glued rest) := by
    rw [glued_cons IsSign.point.notWord, normalLine_cons_of_plain IsSign.point.notWord (by decide)
      (by decide), (normalLine_whole hds rest).1]
  rw [happend, happend, ← hpoint]
  exact normalLine_whole hcs _

theorem startsLike_normalLine (cs : List Char) : StartsLike (normalLine cs) cs := by
  match cs with
  | [] =>
    rw [normalLine_nil]
    exact .nil _
  | c :: cs =>
    by_cases hword : isWordChar c = true
    · rw [normalLine_cons_of_isWordChar hword, Piece.normal]
      cases Keyword.ofWord? (c :: cs.takeWhile isWordChar) with
      | none => exact .cons
      | some keyword =>
        obtain ⟨first, others, hspelling⟩ := keyword.exists_spelling_eq_cons
        have hfirst : first ∈ keyword.spelling.toList := by
          rw [hspelling]
          exact List.mem_cons_self
        intro x hx
        rw [Option.elim_some, hspelling] at hx
        cases hx
        have hstart := (Keyword.of_mem_alphabet _ (keyword.spelling_subset hfirst)).2.2
        exact ⟨c, rfl, .inr (.inr ⟨hstart, hword⟩)⟩
    by_cases hquote : c ∈ quotes
    · rw [normalLine_cons_of_mem_quotes hquote]
      exact .cons
    by_cases hcomment : c = '/' ∧ cs.head? = some '/'
    · obtain ⟨rfl, hhead⟩ := hcomment
      obtain ⟨rest, rfl⟩ := List.head?_eq_some_iff.1 hhead
      rw [normalLine_comment]
      exact .nil _
    by_cases harrow : c = '←'
    · rw [harrow, normalLine_arrow]
      exact fun x hx => ⟨_, rfl, .inr (.inl (Option.some.inj hx).symm)⟩
    by_cases hcolon : c = ':' ∧ cs.head? = some '='
    · obtain ⟨rfl, hhead⟩ := hcolon
      obtain ⟨rest, rfl⟩ := List.head?_eq_some_iff.1 hhead
      rw [normalLine_colonEqual]
      exact fun x hx => ⟨_, rfl, .inr (.inl (Option.some.inj hx).symm)⟩
    rw [normalLine_cons_of_not (Bool.eq_false_iff.2 hword) hquote (not_and.1 hcomment) harrow
      (not_and.1 hcolon)]
    exact .cons

theorem startsLike_glued (cs : List Char) : StartsLike (glued cs) cs := by
  match cs with
  | [] => exact startsLike_normalLine []
  | c :: cs =>
    by_cases hword : isWordChar c = true
    · rw [glued, List.takeWhile_cons_of_pos hword]
      exact .cons
    · rw [glued_cons (Bool.eq_false_iff.2 hword)]
      exact startsLike_normalLine _

/-! ## Lines -/

/-- Symbols stay as they are, but signs of assignment may become `<-`. -/
theorem normalLine_symbol {c : Char} {more rest : List Char} {sign : Symbol}
    (hsymbol : symbol? c (more ++ rest) = some (sign, more.length))
    (hcomment : c = '/' → (more ++ rest).head? ≠ some '/') :
    normalLine (c :: more ++ rest) = c :: more ++ normalLine rest ∨
      sign = .assign ∧ normalLine (c :: more ++ rest) = '<' :: '-' :: normalLine rest := by
  have hmem := mem_symbolChars hsymbol
  have hword := (IsSign.of_symbol hmem).notWord
  have hquote : c ∉ quotes := fun hquote =>
    not_mem_symbolChars_of_mem_quotes c hquote hmem
  by_cases harrow : c = '←'
  · subst harrow
    simp only [symbol?, Option.some.injEq, Prod.mk.injEq] at hsymbol
    obtain ⟨rfl, hlength⟩ := hsymbol
    obtain rfl := List.length_eq_zero_iff.1 hlength.symm
    exact .inr ⟨rfl, normalLine_arrow rest⟩
  by_cases hcolon : c = ':' ∧ (more ++ rest).head? = some '='
  · -- The token takes the two characters that the piece takes.
    obtain ⟨rfl, hhead⟩ := hcolon
    obtain ⟨tail, hcs⟩ := List.head?_eq_some_iff.1 hhead
    rw [hcs] at hsymbol
    simp only [symbol?, Option.some.injEq, Prod.mk.injEq] at hsymbol
    obtain ⟨rfl, hlength⟩ := hsymbol
    obtain ⟨d, rfl⟩ := List.length_eq_one_iff.1 hlength.symm
    cases hcs
    exact .inr ⟨rfl, normalLine_colonEqual rest⟩
  left
  rw [List.cons_append, normalLine_cons_of_not hword hquote hcomment harrow (not_and.1 hcolon)]
  rcases symbol?_cases hsymbol with ⟨hlength, d, tail, hcs, hd, _⟩ | ⟨hlength, _⟩
  · obtain ⟨d', rfl⟩ := List.length_eq_one_iff.1 hlength
    cases hcs
    have hplain : ∀ d ∈ ['-', '=', '>'], isWordChar d = false ∧ d ∉ quotes ∧
        d ∉ ['/', '←', ':'] := forall_mem_of_all (by decide +kernel)
    obtain ⟨hword, hquote, hplain⟩ := hplain d hd
    rw [List.singleton_append, normalLine_cons_of_plain hword hquote hplain]
    rfl
  · rw [List.length_eq_zero_iff.1 hlength]
    rfl

/-- One word: as a keyword it gets its canonical spelling, and as a name it stays. -/
theorem spells_word {c : Char} {cs rest : List Char} {kinds : List TokenKind}
    (hstart : startsWord c = true) (hcs : ∀ x ∈ cs, continuesWord x = true)
    (hhead : ∀ x, rest.head? = some x → continuesWord x = false) (hrest : Spells rest kinds)
    (ih : Spells (normalLine rest) kinds) (ihGlued : Spells (glued rest) kinds) :
    Spells (normalLine (c :: cs ++ rest)) (Lexer.word (c :: cs) :: kinds) ∧
      Spells (glued (c :: cs ++ rest)) (Lexer.word (c :: cs) :: kinds) := by
  have hends := (startsLike_normalLine rest).ends_word hrest hhead
  have hword := isWordChar_of_mem_word hstart hcs
  -- The piece has the characters of the token, as no other word character could follow it.
  have hpiece := hrest.isWordChar_head hhead
  constructor
  · rw [List.cons_append, normalLine_word hword hpiece, Piece.normal]
    cases hkeyword : Keyword.ofWord? (c :: cs) with
    | none => exact .cons (.word hstart hcs hends) ih
    | some keyword =>
      rw [word_eq_keyword hkeyword]
      exact .cons (keyword.lexes_spelling hends) ih
  · rw [glued_append hword]
    exact .cons (.word hstart hcs ((startsLike_glued rest).ends_word hrest hhead)) ihGlued

/-- One lexeme: it is spelled otherwise in a normalized line, but stays a lexeme of its kind. -/
theorem spells_lexeme {text rest : List Char} {found : Option TokenKind} {kinds : List TokenKind}
    (h : Lexes text rest found) (hrest : Spells rest kinds) (ih : Spells (normalLine rest) kinds)
    (ihGlued : Spells (glued rest) kinds) :
    Spells (normalLine (text ++ rest)) (found.toList ++ kinds) ∧
      Spells (glued (text ++ rest)) (found.toList ++ kinds) := by
  have hnormal := h.startsLike hrest (startsLike_normalLine rest)
  have hglued := h.startsLike hrest (startsLike_glued rest)
  cases h with
  | space hc =>
    rw [List.singleton_append, glued_cons (isWordChar_of_isSpace hc), normalLine_space hc]
    exact ⟨.cons hnormal ih, .cons hnormal ih⟩
  | comment hcs hend =>
    obtain rfl := hrest.eq_nil_of_comment hend
    obtain rfl := hrest.eq_nil
    have hslash : IsSign '/' := .of_symbol (by decide)
    rw [List.cons_append, List.cons_append, glued_cons hslash.notWord, normalLine_comment]
    exact ⟨.nil, .nil⟩
  | whole hcs =>
    obtain ⟨hline, hlineGlued⟩ := normalLine_whole hcs rest
    rw [hline, hlineGlued]
    exact ⟨.cons hglued ihGlued, .cons hglued ihGlued⟩
  | decimal hcs hfraction =>
    obtain ⟨hline, hlineGlued⟩ := normalLine_decimal hcs hfraction rest
    rw [hline, hlineGlued]
    exact ⟨.cons hglued ihGlued, .cons hglued ihGlued⟩
  | text hquote hcontent =>
    have hline := normalLine_text hquote hcontent rest
    rw [List.cons_append] at hline ⊢
    rw [glued_cons (IsSign.of_quote hquote).notWord, hline]
    exact ⟨.cons hnormal ih, .cons hnormal ih⟩
  | word hstart hcs hhead => exact spells_word hstart hcs hhead hrest ih ihGlued
  | symbol hsymbol hcomment =>
    have hword := (IsSign.of_symbol (mem_symbolChars hsymbol)).notWord
    rw [List.cons_append, glued_cons hword, and_self, ← List.cons_append]
    rcases normalLine_symbol hsymbol hcomment with hline | ⟨rfl, hline⟩
    · rw [hline]
      exact .cons hnormal ih
    · rw [hline]
      have hassign : Lexes ['<', '-'] (normalLine rest) (some (.symbol .assign)) :=
        .symbol rfl fun h => absurd h (by decide)
      exact .cons hassign ih

/-- A row of lexemes has the same tokens in a normalized line, also behind a digit, where the
    word at its start stays as it is. -/
theorem spells_normalLine_glued {cs : List Char} {kinds : List TokenKind} (h : Spells cs kinds) :
    Spells (normalLine cs) kinds ∧ Spells (glued cs) kinds := by
  induction h with
  | nil =>
    rw [glued, List.takeWhile_nil, List.dropWhile_nil, normalLine_nil]
    exact ⟨.nil, .nil⟩
  | cons hlexes hrest ih => exact spells_lexeme hlexes hrest ih.1 ih.2

/-- Nothing but blanks is left of a line without tokens. -/
theorem allBlank_normalLine {cs : List Char} (h : Spells cs []) : allBlank (normalLine cs) := by
  generalize hkinds : ([] : List TokenKind) = kinds at h
  induction h with
  | nil =>
    rw [normalLine_nil]
    rfl
  | @cons text rest found kinds hlexes hrest ih =>
    obtain ⟨hfound, rfl⟩ := List.append_eq_nil_iff.1 hkinds.symm
    cases hlexes with
    | @space c _ hc =>
      rw [List.singleton_append, normalLine_space hc, allBlank, List.all_cons,
        isBlank_of_isSpace hc]
      exact ih rfl
    | comment =>
      rw [List.cons_append, List.cons_append, normalLine_comment]
      rfl
    | whole | decimal | text | word | symbol => cases hfound

/-! ## Texts -/

theorem lines_of_newline_not_mem {cs : List Char} (h : '\n' ∉ cs) : lines cs = [cs] := by
  induction cs with
  | nil => rfl
  | cons c cs ih =>
    rw [List.mem_cons, not_or] at h
    rw [lines, ih h.2]
    exact fun hc => h.1 hc.symm

theorem segments_cons (line : SourceLine) (rest : List SourceLine) :
    segments (line :: rest) = segments [line] ++ segments rest := by
  simp [segments]

theorem trim_of_allBlank {cs : List Char} (h : allBlank cs) : trim cs = [] := by
  rw [trim, List.dropWhile_eq_nil_iff.2 (List.all_eq_true.1 h)]
  rfl

/-- A line in canonical spelling is one statement, or none if it has no tokens. -/
theorem segments_normalLine {cs : List Char} {kinds : List TokenKind} (h : Spells cs kinds)
    (number : Nat) : segments [⟨number, String.ofList (normalLine cs)⟩] =
      if kinds = [] then [] else [⟨number, String.ofList (trim (normalLine cs))⟩] := by
  have hnormal := (spells_normalLine_glued h).1
  have hlines := lines_of_newline_not_mem hnormal.newline_not_mem
  split
  · rename_i hnil
    subst hnil
    simp [segments, hlines, trim_of_allBlank (allBlank_normalLine h)]
  · rename_i hkinds
    have hne : trim (normalLine cs) ≠ [] := fun hnil => hkinds (hnil ▸ hnormal.trim).eq_nil
    simp [segments, hlines, hne]

end Source

/-- The number of a line and the kinds of its tokens. -/
def Line.reading (line : Line) : Nat × List TokenKind := (line.number, line.tokens.map Token.kind)

theorem Line.exists_ofText_iff (number : Nat) {cs : List Char} {kinds : List TokenKind} :
    (∃ line, Line.ofText number (String.ofList cs) = .ok line ∧ line.reading = (number, kinds)) ↔
      Spells cs kinds := by
  rw [← exists_tokens_iff 0, Line.ofText, String.toList_ofList]
  constructor
  · rintro ⟨line, hline, hreading⟩
    split at hline
    · rename_i found htokens
      cases hline
      cases hreading
      exact ⟨found, htokens, rfl⟩
    · cases hline
  · rintro ⟨found, htokens, rfl⟩
    rw [htokens]
    exact ⟨_, rfl, rfl⟩

namespace Source

/-- The physical lines of a text as lines of tokens, exactly as they are written. -/
def asWritten (source : String) : Except LexError (List Line) :=
  ((physicalLines source).zipIdx 1).mapM fun (text, number) =>
    Line.ofText number (String.ofList text)

theorem mapM_segments_numbered {first : Nat} {physical : List (List Char)} {raw : List Line}
    (h : (physical.zipIdx first).mapM (fun (text, number) =>
      Line.ofText number (String.ofList text)) = .ok raw) :
    ∃ lines, (segments ((numbered first physical).map fun (number, text) =>
        ⟨number, String.ofList text⟩)).mapM (fun line => Line.ofText line.number line.text) =
          .ok lines ∧
      lines.map Line.reading = (raw.filter fun line => !line.tokens.isEmpty).map Line.reading := by
  induction physical generalizing first raw with
  | nil =>
    cases h
    exact ⟨[], rfl, rfl⟩
  | cons text physical ih =>
    rw [List.zipIdx_cons] at h
    obtain ⟨line, others, hline, hothers, rfl⟩ := mapM_cons_eq_ok_iff.1 h
    obtain ⟨lines, hlines, hreadings⟩ := ih hothers
    have hnumber : line.number = first := Line.number_of_ofText hline
    have hspells : Spells text (line.tokens.map Token.kind) :=
      (Line.exists_ofText_iff first).1 ⟨line, hline, by rw [Line.reading, hnumber]⟩
    rw [numbered, List.map_cons, segments_cons, segments_normalLine hspells]
    by_cases hempty : line.tokens = []
    · -- The line leaves no statement, as its pieces are blanks.
      refine ⟨lines, ?_, ?_⟩
      · rw [if_pos (by rw [hempty]; rfl), List.nil_append]
        exact hlines
      · rw [List.filter_cons_of_neg (by rw [hempty]; decide)]
        exact hreadings
    · obtain ⟨normal, hnormal, hreading⟩ :=
        (Line.exists_ofText_iff first).2 (spells_normalLine_glued hspells).1.trim
      refine ⟨normal :: lines, ?_, ?_⟩
      · rw [if_neg (by simpa using hempty), List.singleton_append]
        exact mapM_cons_eq_ok_iff.2 ⟨normal, lines, hnormal, hlines, rfl⟩
      · rw [List.filter_cons_of_pos (by simpa using hempty), List.map_cons, List.map_cons,
          hreadings, hreading, Line.reading, hnumber]

/-- Reflowing touches no blank line. -/
theorem length_filter_normalize_le (source : String) :
    ((normalize source).filter fun line => !allBlank line.text.toList).length ≤
      ((numbered 1 (physicalLines source)).filter fun line => !allBlank line.2).length := by
  rw [normalize, physicalLines]
  generalize numbered 1 (lines (unifyBreaks source.toList)) = physical
  generalize ((physical.filter fun line => !allBlank line.2).length == 1) = single
  rw [List.filter_map, List.length_map, ← List.countP_eq_length_filter,
    ← List.countP_eq_length_filter]
  refine List.countP_mono_left fun line _ h => ?_
  cases hblank : allBlank line.2 with
  | false => rfl
  | true => simp [hblank] at h

/-- A text of several lines is not reflowed. -/
theorem normalize_eq {source : String}
    (h : 2 ≤ ((normalize source).filter fun line => !allBlank line.text.toList).length) :
    normalize source = (numbered 1 (physicalLines source)).map fun (number, text) =>
      ⟨number, String.ofList text⟩ := by
  have hmany := h.trans (length_filter_normalize_le source)
  have hsingle : ((((numbered 1 (physicalLines source)).filter
      fun line => !allBlank line.2).length) == 1) = false := by
    rw [beq_eq_false_iff_ne]
    omega
  rw [physicalLines] at hsingle ⊢
  simp only [normalize, hsingle, Bool.false_and, Bool.false_eq_true, if_false]

/-- A text of several lines is read as tokens as it is written. -/
theorem tokenize_as_written {source : String} {raw : List Line} (hraw : asWritten source = .ok raw)
    (hmany : 2 ≤ ((normalize source).filter fun line => !allBlank line.text.toList).length) :
    ∃ lines, tokenize source = .ok lines ∧
      lines.map Line.reading = (raw.filter fun line => !line.tokens.isEmpty).map Line.reading := by
  rw [tokenize, normalize_eq hmany]
  exact mapM_segments_numbered hraw

theorem tokenize_as_written_halves : ∃ lines, tokenize "a:=1.5se//b\r\n\n'se'" = .ok lines ∧
    lines.map Line.reading =
      [(1, [.name "a", .symbol .assign, .number ⟨0x3FF8000000000000⟩, .keyword .se]),
        (3, [.text "se"])] := by
  have hread : (asWritten "a:=1.5se//b\r\n\n'se'").toOption.map (fun raw =>
      (raw.filter fun line => !line.tokens.isEmpty).map Line.reading) =
      some [(1, [.name "a", .symbol .assign, .number ⟨0x3FF8000000000000⟩, .keyword .se]),
        (3, [.text "se"])] := by
    decide +kernel
  cases hraw : asWritten "a:=1.5se//b\r\n\n'se'" with
  | error e =>
    rw [hraw] at hread
    cases hread
  | ok raw =>
    rw [hraw] at hread
    obtain ⟨lines, htokens, hreadings⟩ := tokenize_as_written hraw (by decide +kernel)
    exact ⟨lines, htokens, hreadings.trans (Option.some.inj hread)⟩

end Source

end Portugol
