import Mathlib.Data.List.DropRight
import Portugol.Source

/-!
# Lexemes

What a line of tokens is made of, as a grammar. `scan` finds the lexeme at the start of a
text; here the lexemes are given by themselves, each with what must not follow it.

* `Lexes`: a text is a lexeme in front of another one.
* `Spells`: a text is a row of lexemes.
* `exists_tokens_iff`: a text is read as tokens of some kinds exactly if it is a row of lexemes
  with these kinds.
* `Lexes.startsLike`: what comes to stand behind a lexeme does not matter if it starts like
  what stood there before (`StartsLike`).
* `Spells.trim`: nor do the blanks around a row of lexemes.
-/

namespace Portugol

/-! ## Characters -/

namespace CharSet

/-- The code points of the members, if there are no members behind the last change. -/
def codes : CharSet → List Nat
  | first :: stop :: rest => List.range' first (stop - first) ++ codes rest
  | _ => []

theorem mem_codes {set : CharSet} {n : Nat} (hset : set.length % 2 = 0)
    (h : memberFrom false n set = true) : n ∈ codes set := by
  -- Two changes at a time: no member stands before the first of them, all stand between them.
  induction set using codes.induct with
  | case1 first stop rest ih =>
    simp only [memberFrom, Bool.not_false, Bool.not_true] at h
    simp only [codes, List.mem_append, List.mem_range'_1]
    split at h
    · cases h
    · split at h
      · left
        omega
      · rw [List.length_cons, List.length_cons] at hset
        exact .inr (ih (by omega) h)
  | case2 set hshort =>
    match set with
    | [] => cases h
    | [_] => cases hset
    | first :: stop :: rest => exact absurd rfl (hshort first stop rest)

end CharSet

/-- What holds of all characters of a list may be checked one by one. -/
theorem forall_mem_of_all {p : Char → Prop} [DecidablePred p] {cs : List Char}
    (h : cs.all (p ·) = true) : ∀ c ∈ cs, p c := by
  simpa using h

/-- No blank stands in a word. -/
theorem isBlank_of_isWordChar {c : Char} (h : isWordChar c = true) : isBlank c = false := by
  refine Bool.eq_false_iff.2 fun hblank => ?_
  have hall : ∀ n ∈ blanks.codes, isWordChar (Char.ofNat n) = false := by decide +kernel
  have hc := hall _ (CharSet.mem_codes rfl hblank)
  rw [Char.ofNat_toNat, h] at hc
  cases hc

/-- The digits. -/
def digits : List Char := ['0', '1', '2', '3', '4', '5', '6', '7', '8', '9']

theorem mem_digits_of_isDigit {c : Char} (h : c.isDigit = true) : c ∈ digits := by
  have hrange : 48 ≤ c.toNat ∧ c.toNat ≤ 57 := by
    simpa [Char.isDigit, UInt32.le_iff_toNat_le] using h
  have hall : ∀ n ∈ List.range' 48 10, Char.ofNat n ∈ digits := by decide
  have hc := hall _ (List.mem_range'_1.2 ⟨hrange.1, by omega⟩)
  rwa [Char.ofNat_toNat] at hc

theorem isAlphabetic_of_isDigit {c : Char} (h : c.isDigit = true) : isAlphabetic c = false := by
  have hall : ∀ c ∈ digits, isAlphabetic c = false := forall_mem_of_all (by decide +kernel)
  exact hall c (mem_digits_of_isDigit h)

namespace Lexer

theorem isWordChar_of_continuesWord {c : Char} (h : continuesWord c = true) :
    isWordChar c = true := by
  rw [continuesWord, Bool.or_eq_true, Bool.or_eq_true] at h
  rcases h with (h | h) | h
  · exact isWordChar_of_isLetter h
  · exact isWordChar_of_isNumeric h
  · rw [isWordChar, h, Bool.or_true]

theorem continuesWord_of_startsWord {c : Char} (h : startsWord c = true) :
    continuesWord c = true := by
  rw [startsWord, Bool.or_eq_true] at h
  rcases h with h | h <;> simp [continuesWord, h]

theorem isWordChar_of_startsWord {c : Char} (h : startsWord c = true) : isWordChar c = true :=
  isWordChar_of_continuesWord (continuesWord_of_startsWord h)

theorem isWordChar_of_mem_word {c : Char} {cs : List Char} (hstart : startsWord c = true)
    (hcs : ∀ x ∈ cs, continuesWord x = true) : ∀ x ∈ c :: cs, isWordChar x = true :=
  List.forall_mem_cons.2
    ⟨isWordChar_of_startsWord hstart, fun x hx => isWordChar_of_continuesWord (hcs x hx)⟩

theorem word_eq_keyword {cs : List Char} {k : Keyword} (h : Keyword.ofWord? cs = some k) :
    word cs = .keyword k := by
  rw [word, h]

theorem continuesWord_of_isDigit {c : Char} (h : c.isDigit = true) : continuesWord c = true := by
  have hall : ∀ c ∈ digits, continuesWord c = true := forall_mem_of_all (by decide +kernel)
  exact hall c (mem_digits_of_isDigit h)

theorem isWordChar_of_isDigit {c : Char} (h : c.isDigit = true) : isWordChar c = true :=
  isWordChar_of_continuesWord (continuesWord_of_isDigit h)

theorem isDigit_of_startsWord {c : Char} (h : startsWord c = true) : c.isDigit = false := by
  have hall : ∀ c ∈ digits, startsWord c = false := forall_mem_of_all (by decide +kernel)
  refine Bool.eq_false_iff.2 fun hdigit => ?_
  exact Bool.false_ne_true ((hall c (mem_digits_of_isDigit hdigit)).symm.trans h)

theorem isBlank_of_isSpace {c : Char} (h : isSpace c = true) : isBlank c = true := by
  have hall : ∀ c ∈ [' ', '\t', '\r', '\x0c'], isBlank c = true :=
    forall_mem_of_all (by decide +kernel)
  exact hall c (by simpa [isSpace, or_assoc] using h)

theorem isSpace_of_isWordChar {c : Char} (h : isWordChar c = true) : isSpace c = false := by
  refine Bool.eq_false_iff.2 fun hspace => ?_
  exact Bool.false_ne_true ((isBlank_of_isWordChar h).symm.trans (isBlank_of_isSpace hspace))

theorem isWordChar_of_isSpace {c : Char} (h : isSpace c = true) : isWordChar c = false := by
  refine Bool.eq_false_iff.2 fun hword => ?_
  exact Bool.false_ne_true ((isSpace_of_isWordChar hword).symm.trans h)

/-- The quotes. -/
def quotes : List Char := ['\'', '"']

/-- The characters that are symbols or start one. -/
def symbolChars : List Char :=
  ['<', '>', ':', '←', '=', '+', '-', '*', '/', '(', ')', '[', ']', ',']

theorem mem_symbolChars {c : Char} {cs : List Char} {found : Symbol × Nat}
    (h : symbol? c cs = some found) : c ∈ symbolChars := by
  rw [symbol?.eq_def] at h
  split at h <;> first | decide | cases h

theorem not_mem_symbolChars_of_mem_quotes : ∀ c ∈ quotes, c ∉ symbolChars :=
  forall_mem_of_all (by decide)

/-- A character that is neither blank nor part of a word or a number. -/
structure IsSign (c : Char) : Prop where
  notSpace : isSpace c = false
  notDigit : c.isDigit = false
  notWord : isWordChar c = false
  notBlank : isBlank c = false

namespace IsSign

theorem of_mem {c : Char} (h : c ∈ '.' :: (quotes ++ symbolChars)) : IsSign c := by
  have hall : ∀ c ∈ '.' :: (quotes ++ symbolChars), isSpace c = false ∧ c.isDigit = false ∧
      isWordChar c = false ∧ isBlank c = false := forall_mem_of_all (by decide +kernel)
  obtain ⟨hspace, hdigit, hword, hblank⟩ := hall c h
  exact ⟨hspace, hdigit, hword, hblank⟩

theorem point : IsSign '.' := of_mem List.mem_cons_self

theorem of_quote {c : Char} (h : c ∈ quotes) : IsSign c :=
  of_mem (List.mem_cons_of_mem _ (List.mem_append_left _ h))

theorem of_symbol {c : Char} (h : c ∈ symbolChars) : IsSign c :=
  of_mem (List.mem_cons_of_mem _ (List.mem_append_right _ h))

theorem not_startsWord {c : Char} (h : IsSign c) : ¬startsWord c = true := fun hstart =>
  Bool.false_ne_true (h.notWord.symm.trans (isWordChar_of_startsWord hstart))

theorem not_continuesWord {c : Char} (h : IsSign c) : continuesWord c = false :=
  Bool.eq_false_iff.2 fun hword =>
    Bool.false_ne_true (h.notWord.symm.trans (isWordChar_of_continuesWord hword))

end IsSign

/-! ## Lexemes -/

/-- What may stand between two quotes. A backslash takes the next character with it. -/
inductive Encloses (quote : Char) : List Char → Prop
  | nil : Encloses quote []
  | escaped {c : Char} {cs : List Char} : c ≠ '\n' → Encloses quote cs →
    Encloses quote ('\\' :: c :: cs)
  | plain {c : Char} {cs : List Char} : c ≠ quote → c ≠ '\n' → c ≠ '\\' → Encloses quote cs →
    Encloses quote (c :: cs)

theorem Encloses.of_closeText {quote : Char} {cs content rest : List Char}
    (h : closeText quote cs = some (content, rest)) : Encloses quote content := by
  fun_induction closeText quote cs generalizing content rest with
  | case1 => cases h
  | case2 => cases h
  | case3 c cs hc ih =>
    simp only [Option.map_eq_some_iff, Prod.exists, Prod.mk.injEq] at h
    obtain ⟨content, rest, hclose, rfl, rfl⟩ := h
    exact .escaped (by simpa using hc) (ih hclose)
  | case4 =>
    cases h
    exact .nil
  | case5 => cases h
  | case6 c cs _ hc hplain ih =>
    simp only [Option.map_eq_some_iff, Prod.exists, Prod.mk.injEq] at h
    obtain ⟨content, rest, hclose, rfl, rfl⟩ := h
    simp only [Bool.or_eq_true, beq_iff_eq, not_or] at hc hplain
    exact .plain hc hplain.1 hplain.2 (ih hclose)

/-- No quote takes the next character with it. -/
theorem ne_backslash_of_mem_quotes {quote : Char} (h : quote ∈ quotes) : quote ≠ '\\' := by
  rintro rfl
  exact absurd h (by decide)

theorem Encloses.closeText_eq {quote : Char} {content : List Char} (hquote : quote ∈ quotes)
    (h : Encloses quote content) (rest : List Char) :
    closeText quote (content ++ quote :: rest) = some (content, rest) := by
  have hslash := ne_backslash_of_mem_quotes hquote
  induction h with
  | nil => simp [closeText, hslash]
  | escaped hc _ ih => simp [closeText, hc, ih]
  | plain hc hbreak hescape _ ih => simp [closeText, hc, hbreak, hescape, ih]

/-- The text is a lexeme in front of the rest, the longest one that fits: a token of this
    kind, or something between tokens. -/
inductive Lexes : List Char → List Char → Option TokenKind → Prop
  | space {c : Char} {rest : List Char} : isSpace c = true → Lexes [c] rest none
  | comment {cs rest : List Char} : (∀ c ∈ cs, c ≠ '\n') →
    (∀ c, rest.head? = some c → c = '\n') → Lexes ('/' :: '/' :: cs) rest none
  | whole {c : Char} {cs rest : List Char} : (∀ x ∈ c :: cs, x.isDigit = true) →
    (∀ x, rest.head? = some x → x.isDigit = false) →
    (∀ x more, rest = '.' :: x :: more → x.isDigit = false) →
    Lexes (c :: cs) rest (some (.number (Numeral.value (c :: cs))))
  | decimal {c d : Char} {cs ds rest : List Char} : (∀ x ∈ c :: cs, x.isDigit = true) →
    (∀ x ∈ d :: ds, x.isDigit = true) → (∀ x, rest.head? = some x → x.isDigit = false) →
    Lexes (c :: (cs ++ '.' :: d :: ds)) rest
      (some (.number (Numeral.value (c :: (cs ++ '.' :: d :: ds)))))
  | text {quote : Char} {content rest : List Char} : quote ∈ quotes →
    Encloses quote content →
    Lexes (quote :: (content ++ [quote])) rest (some (.text (String.ofList (unescape content))))
  | word {c : Char} {cs rest : List Char} : startsWord c = true →
    (∀ x ∈ cs, continuesWord x = true) → (∀ x, rest.head? = some x → continuesWord x = false) →
    Lexes (c :: cs) rest (some (Lexer.word (c :: cs)))
  | symbol {c : Char} {more rest : List Char} {sign : Symbol} :
    symbol? c (more ++ rest) = some (sign, more.length) →
    (c = '/' → (more ++ rest).head? ≠ some '/') →
    Lexes (c :: more) rest (some (.symbol sign))

/-- What `scan` finds if this is the lexeme. -/
def Lexeme.ofKind? : Option TokenKind → Lexeme
  | none => .gap
  | some kind => .token kind

theorem takeWhile_append_of_head {p : Char → Bool} {cs rest : List Char}
    (hcs : ∀ c ∈ cs, p c = true) (hrest : ∀ c, rest.head? = some c → p c = false) :
    (cs ++ rest).takeWhile p = cs ∧ (cs ++ rest).dropWhile p = rest := by
  rw [List.takeWhile_append_of_pos hcs, List.dropWhile_append_of_pos hcs]
  cases rest with
  | nil => exact ⟨List.append_nil cs, rfl⟩
  | cons c rest =>
    have hc := hrest c rfl
    rw [List.takeWhile_cons_of_neg (by rw [hc]; decide), List.append_nil,
      List.dropWhile_cons_of_neg (by rw [hc]; decide)]
    exact ⟨rfl, rfl⟩

theorem split_whole {cs rest : List Char} (hcs : ∀ x ∈ cs, x.isDigit = true)
    (hhead : ∀ x, rest.head? = some x → x.isDigit = false)
    (hpoint : ∀ x more, rest = '.' :: x :: more → x.isDigit = false) :
    Numeral.split (cs ++ rest) = (cs, rest) := by
  obtain ⟨htake, hdrop⟩ := takeWhile_append_of_head hcs hhead
  rw [Numeral.split, htake, hdrop]
  split
  · rename_i x more
    rw [if_neg (by rw [hpoint x more rfl]; decide)]
  · rfl

theorem split_decimal {d : Char} {cs ds rest : List Char} (hcs : ∀ x ∈ cs, x.isDigit = true)
    (hds : ∀ x ∈ d :: ds, x.isDigit = true)
    (hhead : ∀ x, rest.head? = some x → x.isDigit = false) :
    Numeral.split (cs ++ '.' :: d :: (ds ++ rest)) = (cs ++ '.' :: d :: ds, rest) := by
  have hpoint : ∀ x, ('.' :: d :: (ds ++ rest)).head? = some x → x.isDigit = false := by
    rintro _ ⟨⟩
    decide
  obtain ⟨htake, hdrop⟩ := takeWhile_append_of_head hcs hpoint
  obtain ⟨htakeBehind, hdropBehind⟩ := takeWhile_append_of_head hds hhead
  rw [List.cons_append] at htakeBehind hdropBehind
  rw [Numeral.split, htake, hdrop]
  simp only [if_pos (hds d List.mem_cons_self), htakeBehind, hdropBehind]

/-- What is a lexeme is found. -/
theorem Lexes.scan_eq {c : Char} {taken rest : List Char} {found : Option TokenKind}
    (h : Lexes (c :: taken) rest found) :
    scan c (taken ++ rest) = ⟨.ofKind? found, taken, rest⟩ := by
  have hdigit : ∀ {x : Char}, x.isDigit = true → isSpace x = false ∧ x ≠ '/' := by
    refine fun hx => ⟨isSpace_of_isWordChar (isWordChar_of_isDigit hx), ?_⟩
    rintro rfl
    exact absurd hx (by decide)
  cases h with
  | space hc =>
    rw [scan, if_pos hc]
    rfl
  | @comment cs _ hcs hrest =>
    have hall : ∀ x ∈ '/' :: cs, (x != '\n') = true := by
      intro x hx
      rcases List.mem_cons.1 hx with rfl | hx
      · decide
      · exact bne_iff_ne.2 (hcs x hx)
    have hend : ∀ x, rest.head? = some x → (x != '\n') = false := fun x hx => by
      rw [hrest x hx]
      decide
    obtain ⟨htake, hdrop⟩ := takeWhile_append_of_head hall hend
    rw [scan, if_neg (by decide), if_pos (by rfl), htake, hdrop]
    rfl
  | whole hdigits hhead hpoint =>
    have hc := hdigits c List.mem_cons_self
    obtain ⟨hspace, hslash⟩ := hdigit hc
    have hsplit := split_whole hdigits hhead hpoint
    rw [List.cons_append] at hsplit
    simp [scan, hspace, hslash, hc, hsplit, Lexeme.ofKind?]
  | decimal hdigits hfraction hhead =>
    have hc := hdigits c List.mem_cons_self
    obtain ⟨hspace, hslash⟩ := hdigit hc
    have hsplit := split_decimal hdigits hfraction hhead
    simp only [List.cons_append] at hsplit
    simp [scan, hspace, hslash, hc, hsplit, Lexeme.ofKind?]
  | @text _ content _ hquote hcontent =>
    have hsign := IsSign.of_quote hquote
    have hslash : c ≠ '/' := by
      rintro rfl
      exact absurd hquote (by decide)
    have hc : (c == '\'' || c == '"') = true := by simpa [quotes] using hquote
    have happend : content ++ [c] ++ rest = content ++ c :: rest := by simp
    rw [scan, if_neg (by rw [hsign.notSpace]; decide), if_neg (by simp [hslash]),
      if_neg (by rw [hsign.notDigit]; decide), if_pos hc, happend,
      hcontent.closeText_eq hquote]
    rfl
  | word hstart hcs hhead =>
    have hspace := isSpace_of_isWordChar (isWordChar_of_startsWord hstart)
    have hslash : c ≠ '/' := by
      rintro rfl
      exact (IsSign.of_symbol (by decide)).not_startsWord hstart
    have hc : ¬(c == '\'' || c == '"') = true := fun hquote =>
      (IsSign.of_quote (by simpa [quotes] using hquote)).not_startsWord hstart
    obtain ⟨htake, hdrop⟩ := takeWhile_append_of_head hcs hhead
    rw [scan, if_neg (by rw [hspace]; decide), if_neg (by simp [hslash]),
      if_neg (by rw [isDigit_of_startsWord hstart]; decide), if_neg hc, if_pos hstart, htake, hdrop]
    rfl
  | symbol hsymbol hcomment =>
    have hmem := mem_symbolChars hsymbol
    have hsign := IsSign.of_symbol hmem
    have hc : ¬(c == '\'' || c == '"') = true := fun hquote =>
      not_mem_symbolChars_of_mem_quotes c (by simpa [quotes] using hquote) hmem
    have hnone : ¬(c == '/' && (taken ++ rest).head? == some '/') = true := by
      simpa using hcomment
    rw [scan, if_neg (by rw [hsign.notSpace]; decide), if_neg hnone,
      if_neg (by rw [hsign.notDigit]; decide), if_neg hc, if_neg hsign.not_startsWord, hsymbol]
    simp [Lexeme.ofKind?]

theorem eq_false_of_head_dropWhile {p : Char → Bool} {cs : List Char} {x : Char}
    (h : (cs.dropWhile p).head? = some x) : p x = false := by
  have hnot := List.head?_dropWhile_not p cs
  rw [h] at hnot
  exact hnot

theorem symbol?_le {c : Char} {cs : List Char} {sign : Symbol} {more : Nat}
    (h : symbol? c cs = some (sign, more)) : more ≤ cs.length := by
  rw [symbol?.eq_def] at h
  split at h <;> cases h <;> simp

theorem exists_lexes_of_isDigit {c : Char} (h : c.isDigit = true) (cs : List Char) :
    ∃ taken rest found, cs = taken ++ rest ∧ Lexes (c :: taken) rest found := by
  have hdigits : ∀ {x : Char} {xs : List Char}, x.isDigit = true →
      ∀ y ∈ x :: xs.takeWhile Char.isDigit, y.isDigit = true := by
    intro x xs hx y hy
    rcases List.mem_cons.1 hy with rfl | hy
    · exact hx
    · exact List.mem_takeWhile_imp hy
  have hcs := (List.takeWhile_append_dropWhile (p := Char.isDigit) (l := cs)).symm
  by_cases hpoint : ∃ x more, cs.dropWhile Char.isDigit = '.' :: x :: more ∧ x.isDigit = true
  · obtain ⟨x, more, hrest, hx⟩ := hpoint
    refine ⟨cs.takeWhile Char.isDigit ++ '.' :: x :: more.takeWhile Char.isDigit,
      more.dropWhile Char.isDigit, _, ?_, .decimal (hdigits h) (hdigits hx) fun y =>
        eq_false_of_head_dropWhile⟩
    rw [List.append_assoc, List.cons_append, List.cons_append, List.takeWhile_append_dropWhile,
      ← hrest]
    exact hcs
  · refine ⟨_, _, _, hcs, .whole (hdigits h) (fun y => eq_false_of_head_dropWhile) ?_⟩
    intro x more hrest
    exact Bool.eq_false_iff.2 fun hx => hpoint ⟨x, more, hrest, hx⟩

/-- Why no lexeme starts with a character: a text is not closed, or nothing starts so. -/
def badCause (c : Char) : LexCause := if c ∈ quotes then .unterminatedText else .invalidCharacter c

/-- At the start of a text there is a lexeme, or it cannot be read. -/
theorem exists_lexes_or_bad (c : Char) (cs : List Char) :
    (∃ taken rest found, cs = taken ++ rest ∧ Lexes (c :: taken) rest found) ∨
      (scan c cs).lexeme = .bad (badCause c) := by
  -- The cases are in the order in which `scan` tries them.
  by_cases hspace : isSpace c = true
  · exact .inl ⟨[], cs, none, rfl, .space hspace⟩
  by_cases hcomment : (c == '/' && cs.head? == some '/') = true
  · rw [Bool.and_eq_true, beq_iff_eq, beq_iff_eq, List.head?_eq_some_iff] at hcomment
    obtain ⟨rfl, rest, rfl⟩ := hcomment
    refine .inl ⟨'/' :: rest.takeWhile (· != '\n'), rest.dropWhile (· != '\n'), none, ?_,
      .comment ?_ ?_⟩
    · rw [List.cons_append, List.takeWhile_append_dropWhile]
    · intro x hx
      have hne := List.mem_takeWhile_imp hx
      exact bne_iff_ne.1 hne
    · exact fun x hx => by simpa using eq_false_of_head_dropWhile hx
  by_cases hdigit : c.isDigit = true
  · exact .inl (exists_lexes_of_isDigit hdigit cs)
  by_cases hquote : (c == '\'' || c == '"') = true
  · have hmem : c ∈ quotes := by simpa [quotes] using hquote
    cases hclose : closeText c cs with
    | some found =>
      obtain ⟨content, rest⟩ := found
      exact .inl ⟨content ++ [c], rest, _, by simpa using closeText_eq hclose,
        .text hmem (.of_closeText hclose)⟩
    | none =>
      right
      rw [scan, if_neg hspace, if_neg hcomment, if_neg hdigit, if_pos hquote, hclose, badCause,
        if_pos hmem]
  by_cases hstart : startsWord c = true
  · exact .inl ⟨_, _, _, List.takeWhile_append_dropWhile.symm,
      .word hstart (fun x => List.mem_takeWhile_imp) fun x => eq_false_of_head_dropWhile⟩
  cases hsymbol : symbol? c cs with
  | some found =>
    obtain ⟨sign, more⟩ := found
    refine .inl ⟨cs.take more, cs.drop more, some (.symbol sign),
      (List.take_append_drop more cs).symm, .symbol ?_ ?_⟩
    · rw [List.take_append_drop, hsymbol, List.length_take_of_le (symbol?_le hsymbol)]
    · rw [List.take_append_drop]
      simpa using hcomment
  | none =>
    have hmem : c ∉ quotes := by simpa [quotes] using hquote
    right
    rw [scan, if_neg hspace, if_neg hcomment, if_neg hdigit, if_neg hquote, if_neg hstart, hsymbol,
      badCause, if_neg hmem]

/-! ## Tokens -/

/-- A text that is made of lexemes, and the kinds of those that are tokens. -/
inductive Spells : List Char → List TokenKind → Prop
  | nil : Spells [] []
  | cons {text rest : List Char} {found : Option TokenKind} {kinds : List TokenKind} :
    Lexes text rest found → Spells rest kinds → Spells (text ++ rest) (found.toList ++ kinds)

theorem Lexes.ne_nil {text rest : List Char} {found : Option TokenKind}
    (h : Lexes text rest found) : ∃ c taken, text = c :: taken := by
  cases h <;> exact ⟨_, _, rfl⟩

/-- What holds along the lexemes of a text: of its end, in front of a lexeme if it does behind
    it, and where no lexeme starts. -/
theorem lexemes_induction {motive : List Char → Prop} (nil : motive [])
    (lexeme : ∀ {text rest : List Char} {found : Option TokenKind}, Lexes text rest found →
      motive rest → motive (text ++ rest))
    (bad : ∀ {c : Char} {cs : List Char}, (scan c cs).lexeme = .bad (badCause c) →
      motive (c :: cs)) (cs : List Char) : motive cs := by
  -- By induction on the length of the text, as there is no telling how much a lexeme takes.
  induction hn : cs.length using Nat.strongRecOn generalizing cs with
  | ind n ih =>
    subst hn
    match cs with
    | [] => exact nil
    | c :: cs =>
      rcases exists_lexes_or_bad c cs with ⟨taken, rest, found, rfl, hlexes⟩ | hbad
      · have hshorter : rest.length < (c :: (taken ++ rest)).length := by
          rw [List.length_cons, List.length_append]
          omega
        exact lexeme hlexes (ih _ hshorter rest rfl)
      · exact bad hbad

/-- The tokens of a text are those of its first lexeme and of the rest. -/
theorem tokens_append_of_lexes {text rest : List Char} {found : Option TokenKind}
    (h : Lexes text rest found) (offset : Nat) :
    tokens offset (text ++ rest) = (tokens (offset + byteLength text) rest).map
      ((found.map (⟨·, .between offset (offset + byteLength text)⟩)).toList ++ ·) := by
  obtain ⟨c, taken, rfl⟩ := h.ne_nil
  rw [List.cons_append, tokens, h.scan_eq]
  cases found with
  | none =>
    dsimp only [Lexeme.ofKind?]
    cases tokens (offset + byteLength (c :: taken)) rest <;> rfl
  | some kind => rfl

theorem exists_tokens_of_append {text rest : List Char} {found : Option TokenKind}
    (h : Lexes text rest found) {offset : Nat} {all : List Token}
    (hall : tokens offset (text ++ rest) = .ok all) :
    ∃ others, tokens (offset + byteLength text) rest = .ok others ∧
      all = (found.map (⟨·, .between offset (offset + byteLength text)⟩)).toList ++ others := by
  rw [tokens_append_of_lexes h] at hall
  cases hrest : tokens (offset + byteLength text) rest with
  | error e =>
    rw [hrest] at hall
    cases hall
  | ok others =>
    rw [hrest] at hall
    exact ⟨others, rfl, (Except.ok.inj hall).symm⟩

/-- No tokens are read where no lexeme starts. -/
theorem tokens_of_bad {c : Char} {cs : List Char} {cause : LexCause}
    (h : (scan c cs).lexeme = .bad cause) (offset : Nat) :
    tokens offset (c :: cs) = .error (cause, (Span.between offset offset).column) := by
  rw [tokens, h]
  rfl

/-- A text is read as tokens of these kinds exactly if it is made of such lexemes. -/
theorem exists_tokens_iff (offset : Nat) {cs : List Char} {kinds : List TokenKind} :
    (∃ found, tokens offset cs = .ok found ∧ found.map Token.kind = kinds) ↔ Spells cs kinds := by
  constructor
  · rintro ⟨all, hall, rfl⟩
    induction cs using lexemes_induction generalizing offset all with
    | nil =>
      rw [tokens] at hall
      cases hall
      exact .nil
    | @lexeme text rest found hlexes ih =>
      obtain ⟨others, hothers, rfl⟩ := exists_tokens_of_append hlexes hall
      have hspells := Spells.cons hlexes (ih _ others hothers)
      cases found <;> exact hspells
    | bad hbad =>
      rw [tokens_of_bad hbad] at hall
      cases hall
  · intro h
    induction h generalizing offset with
    | nil => exact ⟨[], by rw [tokens], rfl⟩
    | @cons text rest found kinds hlexes _ ih =>
      have htokens := tokens_append_of_lexes hlexes offset
      obtain ⟨others, hothers, rfl⟩ := ih (offset + byteLength text)
      rw [hothers] at htokens
      refine ⟨_, htokens, ?_⟩
      cases found <;> rfl

/-! ## What follows a lexeme -/

/-- No lexeme starts otherwise. -/
theorem Lexes.head {c : Char} {taken rest : List Char} {found : Option TokenKind}
    (h : Lexes (c :: taken) rest found) :
    isSpace c = true ∨ c.isDigit = true ∨ c ∈ quotes ∨ c ∈ symbolChars ∨ startsWord c = true := by
  cases h with
  | space hc => exact .inl hc
  | comment => exact .inr (.inr (.inr (.inl (by decide))))
  | whole hdigits => exact .inr (.inl (hdigits c List.mem_cons_self))
  | decimal hdigits => exact .inr (.inl (hdigits c List.mem_cons_self))
  | text hquote => exact .inr (.inr (.inl hquote))
  | word hstart => exact .inr (.inr (.inr (.inr hstart)))
  | symbol hsymbol => exact .inr (.inr (.inr (.inl (mem_symbolChars hsymbol))))

theorem Spells.head {c : Char} {cs : List Char} {kinds : List TokenKind} (h : Spells cs kinds)
    (hc : cs.head? = some c) :
    isSpace c = true ∨ c.isDigit = true ∨ c ∈ quotes ∨ c ∈ symbolChars ∨ startsWord c = true := by
  cases h with
  | nil => cases hc
  | cons hlexes =>
    obtain ⟨c', taken, rfl⟩ := hlexes.ne_nil
    cases hc
    exact hlexes.head

theorem Spells.continuesWord_head {c : Char} {cs : List Char} {kinds : List TokenKind}
    (h : Spells cs kinds) (hc : cs.head? = some c) (hword : isWordChar c = true) :
    continuesWord c = true := by
  rcases h.head hc with hspace | hdigit | hquote | hsymbol | hstart
  · exact absurd hspace (by rw [isSpace_of_isWordChar hword]; decide)
  · exact continuesWord_of_isDigit hdigit
  · exact absurd hword (by rw [(IsSign.of_quote hquote).notWord]; decide)
  · exact absurd hword (by rw [(IsSign.of_symbol hsymbol).notWord]; decide)
  · exact continuesWord_of_startsWord hstart

/-- Where a token ends, the word that it stands in ends. -/
theorem Spells.isWordChar_head {cs : List Char} {kinds : List TokenKind} (h : Spells cs kinds)
    (hhead : ∀ x, cs.head? = some x → continuesWord x = false) :
    ∀ x, cs.head? = some x → isWordChar x = false := by
  refine fun x hx => Bool.eq_false_iff.2 fun hword => ?_
  exact Bool.false_ne_true ((hhead x hx).symm.trans (h.continuesWord_head hx hword))

theorem Spells.head_ne {c : Char} {cs : List Char} {kinds : List TokenKind} (h : Spells cs kinds)
    (hc : cs.head? = some c) : c ≠ '.' ∧ c ≠ '\n' := by
  have hnone : ∀ x ∈ ['.', '\n'], ¬(isSpace x = true ∨ x.isDigit = true ∨ x ∈ quotes ∨
      x ∈ symbolChars ∨ startsWord x = true) := forall_mem_of_all (by decide +kernel)
  constructor <;>
  · rintro rfl
    exact hnone _ (by decide) (h.head hc)

/-- A comment is the last thing on its line. -/
theorem Spells.eq_nil_of_comment {rest : List Char} {kinds : List TokenKind}
    (h : Spells rest kinds) (hend : ∀ c, rest.head? = some c → c = '\n') : rest = [] := by
  cases rest with
  | nil => rfl
  | cons c rest => exact absurd (hend c rfl) (h.head_ne rfl).2

/-- No lexeme in front of a text changes if the text is replaced by one that starts alike: with
    the same character, with `<`, or with a word in place of a word. -/
def StartsLike (new old : List Char) : Prop :=
  ∀ x, new.head? = some x → ∃ y, old.head? = some y ∧
    (x = y ∨ x = '<' ∨ startsWord x = true ∧ isWordChar y = true)

theorem StartsLike.nil (old : List Char) : StartsLike [] old := fun _ h => by cases h

theorem StartsLike.cons {c : Char} {new old : List Char} : StartsLike (c :: new) (c :: old) :=
  fun _ hx => ⟨c, rfl, .inl (Option.some.inj hx).symm⟩

/-- A symbol of two characters is one whatever follows, and one of a single character is one
    unless `-`, `=` or `>` comes to stand behind it. -/
theorem symbol?_cases {c : Char} {cs : List Char} {sign : Symbol} {more : Nat}
    (h : symbol? c cs = some (sign, more)) :
    (more = 1 ∧ ∃ d rest, cs = d :: rest ∧ d ∈ ['-', '=', '>'] ∧
      ∀ rest', symbol? c (d :: rest') = some (sign, 1)) ∨
    (more = 0 ∧ ∀ cs', (∀ d ∈ ['-', '=', '>'], cs'.head? = some d → cs.head? = some d) →
      symbol? c cs' = some (sign, 0)) := by
  have hkeep : ∀ {cs' : List Char} {d : Char}, d ∈ ['-', '=', '>'] →
      (∀ d ∈ ['-', '=', '>'], cs'.head? = some d → cs.head? = some d) →
      (∀ tail, cs = d :: tail → False) → ∀ tail, cs' = d :: tail → False := by
    intro cs' d hd hhead hnone tail htail
    obtain ⟨rest, hrest⟩ := List.head?_eq_some_iff.1 (hhead d hd (by rw [htail]; rfl))
    exact hnone rest hrest
  rw [symbol?.eq_def] at h
  split at h <;> cases h
  case h_1 | h_2 | h_3 | h_4 | h_5 => exact .inl ⟨rfl, _, _, rfl, by decide, fun _ => rfl⟩
  case h_7 hdash hequal hgreater =>
    refine .inr ⟨rfl, fun cs' h => ?_⟩
    rw [symbol?]
    · exact hkeep (by decide) h hdash
    · exact hkeep (by decide) h hequal
    · exact hkeep (by decide) h hgreater
  case h_8 hequal =>
    refine .inr ⟨rfl, fun cs' h => ?_⟩
    rw [symbol?]
    exact hkeep (by decide) h hequal
  all_goals exact .inr ⟨rfl, fun cs' _ => by simp [symbol?]⟩

theorem mem_symbolChars_of_mem {c x : Char} {more rest : List Char} {sign : Symbol}
    (h : symbol? c (more ++ rest) = some (sign, more.length)) (hx : x ∈ c :: more) :
    x ∈ symbolChars := by
  rcases List.mem_cons.1 hx with rfl | hx
  · exact mem_symbolChars h
  · rcases symbol?_cases h with ⟨hlength, d, tail, hcs, hd, _⟩ | ⟨hlength, _⟩
    · obtain ⟨d', rfl⟩ := List.length_eq_one_iff.1 hlength
      cases hcs
      rw [List.mem_singleton.1 hx]
      exact (show ['-', '=', '>'] ⊆ symbolChars by decide) hd
    · rw [List.length_eq_zero_iff.1 hlength] at hx
      cases hx

theorem symbol?_append {c : Char} {more rest rest' : List Char} {sign : Symbol}
    (h : symbol? c (more ++ rest) = some (sign, more.length)) (hlike : StartsLike rest' rest) :
    symbol? c (more ++ rest') = some (sign, more.length) := by
  rcases symbol?_cases h with ⟨hlength, d, tail, hcs, _, hsymbol⟩ | ⟨hlength, hsymbol⟩
  · obtain ⟨d', rfl⟩ := List.length_eq_one_iff.1 hlength
    cases hcs
    exact hsymbol rest'
  · obtain rfl := List.length_eq_zero_iff.1 hlength
    refine hsymbol rest' fun x hx hhead => ?_
    obtain ⟨y, hy, rfl | rfl | ⟨hstart, _⟩⟩ := hlike x hhead
    · exact hy
    · exact absurd hx (by decide)
    · have hsymbols : ['-', '=', '>'] ⊆ symbolChars := by decide
      exact absurd hstart (IsSign.of_symbol (hsymbols hx)).not_startsWord

theorem StartsLike.ends_word {new old : List Char} {kinds : List TokenKind}
    (h : StartsLike new old) (hold : Spells old kinds)
    (hhead : ∀ x, old.head? = some x → continuesWord x = false) (x : Char)
    (hx : new.head? = some x) : continuesWord x = false := by
  obtain ⟨y, hy, rfl | rfl | ⟨_, hword⟩⟩ := h x hx
  · exact hhead _ hy
  · exact (IsSign.of_symbol (by decide)).not_continuesWord
  · exact absurd (hold.continuesWord_head hy hword) (by rw [hhead y hy]; decide)

/-- A lexeme stays one in front of a text that starts alike. -/
theorem Lexes.startsLike {text rest rest' : List Char} {found : Option TokenKind}
    {kinds : List TokenKind} (h : Lexes text rest found) (hrest : Spells rest kinds)
    (hlike : StartsLike rest' rest) : Lexes text rest' found := by
  have hdigit : (∀ x, rest.head? = some x → x.isDigit = false) →
      ∀ x, rest'.head? = some x → x.isDigit = false := by
    intro hnone x hx
    obtain ⟨y, hy, rfl | rfl | ⟨hstart, _⟩⟩ := hlike x hx
    · exact hnone _ hy
    · decide
    · exact isDigit_of_startsWord hstart
  cases h with
  | space hc => exact .space hc
  | comment hcs hend =>
    -- A comment ends with the text, as no lexeme starts with a line break.
    refine .comment hcs fun x hx => ?_
    obtain ⟨y, hy, _⟩ := hlike x hx
    exact absurd (hend y hy) (hrest.head_ne hy).2
  | whole hdigits hhead _ =>
    -- No fraction can come to stand behind the number, as no lexeme starts with a point.
    refine .whole hdigits (hdigit hhead) fun x more hpoint => ?_
    obtain ⟨y, hy, heq | heq | ⟨hstart, _⟩⟩ := hlike '.' (by rw [hpoint]; rfl)
    · exact absurd heq.symm (hrest.head_ne hy).1
    · exact absurd heq (by decide)
    · exact absurd hstart IsSign.point.not_startsWord
  | decimal hdigits hfraction hhead => exact .decimal hdigits hfraction (hdigit hhead)
  | text hquote hcontent => exact .text hquote hcontent
  | word hstart hcs hhead => exact .word hstart hcs (hlike.ends_word hrest hhead)
  | symbol hsymbol hcomment =>
    refine .symbol (symbol?_append hsymbol hlike) fun hc hslash => hcomment hc ?_
    rw [List.head?_append, Option.or_eq_some_iff] at hslash ⊢
    refine hslash.imp_right fun ⟨hnone, hhead⟩ => ⟨hnone, ?_⟩
    obtain ⟨y, hy, heq | heq | ⟨hstart, _⟩⟩ := hlike '/' hhead
    · rw [hy, heq]
    · exact absurd heq (by decide)
    · exact absurd hstart (IsSign.of_symbol (by decide)).not_startsWord

/-! ## Blanks around lexemes -/

theorem trimEnd_append (as bs : List Char) :
    trimEnd (as ++ bs) = if trimEnd bs = [] then trimEnd as else as ++ trimEnd bs := by
  simp only [trimEnd, List.reverse_append, List.dropWhile_append, List.reverse_eq_nil_iff,
    List.isEmpty_iff]
  split <;> simp

theorem trimEnd_of_getLast {cs : List Char} (h : ∀ c, cs.getLast? = some c → isBlank c = false) :
    trimEnd cs = cs := by
  refine List.rdropWhile_eq_self_iff.2 fun hne => ?_
  rw [h _ (List.getLast?_eq_some_getLast hne)]
  decide

/-- No token ends with a blank. -/
theorem Lexes.trimEnd_eq {text rest : List Char} {kind : TokenKind}
    (h : Lexes text rest (some kind)) : trimEnd text = text := by
  have hdigits : ∀ {cs : List Char}, (∀ c ∈ cs, c.isDigit = true) →
      ∀ c ∈ cs, isBlank c = false := fun hcs c hc =>
    isBlank_of_isWordChar (isWordChar_of_isDigit (hcs c hc))
  refine trimEnd_of_getLast fun c hlast => ?_
  cases h with
  | whole hall => exact hdigits hall c (List.mem_of_getLast? hlast)
  | @decimal x d cs ds _ _ hfraction _ =>
    rw [← List.cons_append, List.getLast?_append_cons, List.getLast?_cons_cons] at hlast
    exact hdigits hfraction c (List.mem_of_getLast? hlast)
  | @text quote content _ hquote =>
    rw [← List.cons_append, List.getLast?_concat] at hlast
    cases hlast
    exact (IsSign.of_quote hquote).notBlank
  | word hstart hall =>
    refine isBlank_of_isWordChar (isWordChar_of_continuesWord ?_)
    rcases List.mem_cons.1 (List.mem_of_getLast? hlast) with rfl | hc
    · exact continuesWord_of_startsWord hstart
    · exact hall c hc
  | @symbol x more _ _ hsymbol =>
    have hc := mem_symbolChars_of_mem hsymbol (List.mem_of_getLast? hlast)
    exact (IsSign.of_symbol hc).notBlank

theorem Spells.eq_nil {kinds : List TokenKind} (h : Spells [] kinds) : kinds = [] := by
  generalize hcs : ([] : List Char) = cs at h
  cases h with
  | nil => rfl
  | cons hlexes =>
    obtain ⟨c, taken, rfl⟩ := hlexes.ne_nil
    cases hcs

/-- What is left of the last lexeme if it is no token. -/
theorem Lexes.spells_trimEnd {text : List Char} (h : Lexes text [] none) :
    Spells (trimEnd text) [] := by
  cases h with
  | space hc =>
    have hnil : trimEnd [_] = [] := List.rdropWhile_eq_nil_iff.2 fun x hx => by
      rw [List.mem_singleton.1 hx]
      exact isBlank_of_isSpace hc
    rw [hnil]
    exact .nil
  | @comment cs _ hcs _ =>
    have hslashes : trimEnd ('/' :: '/' :: cs) = '/' :: '/' :: trimEnd cs := by
      have happend := trimEnd_append ['/', '/'] cs
      split at happend
      · rename_i hnil
        rw [hnil]
        exact happend.trans (trimEnd_of_getLast fun c hc =>
          Option.some.inj hc ▸ (IsSign.of_symbol (by decide)).notBlank)
      · exact happend
    rw [hslashes]
    have hkept : ∀ x ∈ trimEnd cs, x ≠ '\n' := fun x hx =>
      hcs x ((List.rdropWhile_prefix isBlank cs).subset hx)
    simpa using Spells.cons (.comment hkept fun x hx => (by cases hx)) .nil

theorem Spells.trimEnd {cs : List Char} {kinds : List TokenKind} (h : Spells cs kinds) :
    Spells (trimEnd cs) kinds := by
  induction h with
  | nil => exact .nil
  | @cons text rest found kinds hlexes hrest ih =>
    rw [trimEnd_append]
    split
    · -- Only blanks follow: the text is the last token, a comment that loses the blanks at its
      -- end, or itself a blank.
      rename_i hnil
      rw [hnil] at ih
      obtain rfl := ih.eq_nil
      have hlast := hlexes.startsLike hrest (.nil rest)
      cases hfound : found with
      | some kind =>
        subst hfound
        rw [hlexes.trimEnd_eq]
        simpa using Spells.cons hlast .nil
      | none =>
        subst hfound
        exact hlast.spells_trimEnd
    · rename_i hne
      refine .cons (hlexes.startsLike hrest fun x hx => ⟨x, ?_, .inl rfl⟩) ih
      obtain ⟨dropped, hdropped⟩ := List.rdropWhile_prefix isBlank rest
      rw [← hdropped, List.head?_append]
      exact Option.or_eq_some_iff.2 (.inl hx)

theorem Lexes.space_or_not_blank {c : Char} {taken rest : List Char} {found : Option TokenKind}
    (h : Lexes (c :: taken) rest found) :
    (taken = [] ∧ found = none ∧ isBlank c = true) ∨ isBlank c = false := by
  cases h with
  | space hc => exact .inl ⟨rfl, rfl, isBlank_of_isSpace hc⟩
  | comment => exact .inr (IsSign.of_symbol (by decide)).notBlank
  | whole hdigits | decimal hdigits =>
    exact .inr (isBlank_of_isWordChar (isWordChar_of_isDigit (hdigits c List.mem_cons_self)))
  | text hquote => exact .inr (IsSign.of_quote hquote).notBlank
  | word hstart => exact .inr (isBlank_of_isWordChar (isWordChar_of_startsWord hstart))
  | symbol hsymbol => exact .inr (IsSign.of_symbol (mem_symbolChars hsymbol)).notBlank

/-- Blanks at the ends of a row of lexemes do not matter. -/
theorem Spells.trim {cs : List Char} {kinds : List TokenKind} (h : Spells cs kinds) :
    Spells (trim cs) kinds := by
  refine Spells.trimEnd ?_
  induction h with
  | nil => exact .nil
  | @cons text rest found kinds hlexes hrest ih =>
    obtain ⟨c, taken, rfl⟩ := hlexes.ne_nil
    rcases hlexes.space_or_not_blank with ⟨rfl, rfl, hc⟩ | hc
    · rw [List.singleton_append, List.dropWhile_cons_of_pos hc]
      exact ih
    · rw [List.cons_append, List.dropWhile_cons_of_neg (by rw [hc]; decide)]
      exact .cons hlexes hrest

theorem Encloses.newline_not_mem {quote : Char} {content : List Char} (h : Encloses quote content) :
    '\n' ∉ content := by
  induction h with
  | nil => exact List.not_mem_nil
  | escaped hc _ ih =>
    simp only [List.mem_cons, not_or]
    exact ⟨by decide, hc.symm, ih⟩
  | plain _ hbreak _ _ ih =>
    simp only [List.mem_cons, not_or]
    exact ⟨hbreak.symm, ih⟩

theorem Lexes.newline_not_mem {text rest : List Char} {found : Option TokenKind}
    (h : Lexes text rest found) : '\n' ∉ text := by
  have hdigits : ∀ {cs : List Char}, (∀ c ∈ cs, c.isDigit = true) → '\n' ∉ cs := fun hcs hc =>
    absurd (hcs _ hc) (by decide)
  have hquotes : '\n' ∉ quotes := by decide
  intro hmem
  cases h with
  | space hc =>
    rw [← List.mem_singleton.1 hmem] at hc
    exact absurd hc (by decide)
  | comment hcs =>
    simp only [List.mem_cons, Char.reduceEq, false_or] at hmem
    exact hcs _ hmem rfl
  | whole hcs => exact hdigits hcs hmem
  | decimal hcs hfraction =>
    rw [← List.cons_append, List.mem_append] at hmem
    rcases hmem.imp_right List.mem_cons.1 with hmem | hmem | hmem
    · exact hdigits hcs hmem
    · exact absurd hmem (by decide)
    · exact hdigits hfraction hmem
  | text hquote hcontent =>
    rw [← List.cons_append, List.mem_append, List.mem_cons, List.mem_singleton] at hmem
    rcases hmem with (rfl | hmem) | rfl
    · exact hquotes hquote
    · exact hcontent.newline_not_mem hmem
    · exact hquotes hquote
  | word hstart hcs =>
    have hblank : ¬isWordChar '\n' = true := fun hword =>
      absurd (isBlank_of_isWordChar hword) (by decide)
    rcases List.mem_cons.1 hmem with rfl | hmem
    · exact hblank (isWordChar_of_startsWord hstart)
    · exact hblank (isWordChar_of_continuesWord (hcs _ hmem))
  | symbol hsymbol => exact absurd (mem_symbolChars_of_mem hsymbol hmem) (by decide)

/-- A row of lexemes stands on one line. -/
theorem Spells.newline_not_mem {cs : List Char} {kinds : List TokenKind} (h : Spells cs kinds) :
    '\n' ∉ cs := by
  induction h with
  | nil => exact List.not_mem_nil
  | cons hlexes _ ih =>
    rw [List.mem_append, not_or]
    exact ⟨hlexes.newline_not_mem, ih⟩

end Lexer

end Portugol
