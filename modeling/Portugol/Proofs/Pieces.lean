import Portugol.Proofs.Literals

/-!
# Rows of pieces

A normalized line can be taken apart and put together again. Its pieces are those of the line it
comes from, each in its canonical spelling, and none of them runs into the next: no word gets
longer, and no comment or sign of assignment comes about where two pieces meet.

* `Fit`: pieces that are found again in their text. `Fit.split_text`.
* `split_normalLine`: the pieces of a normalized line. So a line that has been normalized stays
  as it is (`normalLine_normalLine`).
* `Canonical`: pieces of a normalized line. Parts of such a row are one, too, and so is the row
  without the blanks at its ends (`IsNormal.trim`).
-/

namespace Portugol

open Lexer hiding word

namespace Piece

/-- The characters of a piece. -/
def chars : Piece → List Char
  | word cs => cs
  | quoted cs => cs
  | assign => ['<', '-']
  | other c => [c]

/-- The text of a row of pieces. -/
def text (ps : List Piece) : List Char := ps.flatMap chars

@[simp] theorem text_nil : text [] = [] := rfl

@[simp] theorem text_cons (p : Piece) (ps : List Piece) : text (p :: ps) = p.chars ++ text ps :=
  List.flatMap_cons

@[simp] theorem text_append (ps qs : List Piece) : text (ps ++ qs) = text ps ++ text qs :=
  List.flatMap_append

theorem text_flatten (rows : List (List Piece)) : text rows.flatten = (rows.map text).flatten := by
  induction rows with
  | nil => rfl
  | cons row rows ih => simp [ih]

/-! ## Quotes -/

theorem closeQuote_escape (quote c : Char) (cs : List Char) :
    closeQuote quote ('\\' :: c :: cs) =
      ('\\' :: c :: (closeQuote quote cs).1, (closeQuote quote cs).2) := rfl

theorem closeQuote_cons {quote c : Char} {cs : List Char} (h : c = '\\' → cs = []) :
    closeQuote quote (c :: cs) = if c = quote then ([c], cs)
      else (c :: (closeQuote quote cs).1, (closeQuote quote cs).2) := by
  rw [closeQuote]
  · simp only [beq_iff_eq]
  · rintro d rest hc rfl
    cases h hc

/-- Closing a quote takes at least one character. -/
theorem closeQuote_fst_ne_nil (quote c : Char) (cs : List Char) :
    (closeQuote quote (c :: cs)).1 ≠ [] := by
  by_cases h : c = '\\' → cs = []
  · rw [closeQuote_cons h]
    split <;> exact List.cons_ne_nil _ _
  · obtain ⟨rfl, hne⟩ := Classical.not_imp.1 h
    obtain ⟨d, rest, rfl⟩ := List.exists_cons_of_ne_nil hne
    exact List.cons_ne_nil _ _

/-- A quote that is closed in front of some text is so in front of any. -/
theorem closeQuote_append_congr {quote : Char} {content rest : List Char}
    (h : closeQuote quote (content ++ rest) = (content, rest)) (hrest : rest ≠ [])
    (rest' : List Char) : closeQuote quote (content ++ rest') = (content, rest') := by
  obtain ⟨first, others, rfl⟩ := List.exists_cons_of_ne_nil hrest
  -- A backslash takes a character with it, so none is the last one in front of the rest.
  have hlast : ∀ {c : Char} {cs : List Char}, (∀ d ds, c = '\\' → cs = d :: ds → False) →
      closeQuote quote (c :: (cs ++ first :: others)) = (c :: cs, first :: others) → c ≠ '\\' := by
    rintro c cs hne hclose rfl
    cases cs with
    | nil => cases congrArg Prod.fst hclose
    | cons d ds => exact hne d ds rfl rfl
  fun_induction closeQuote quote content with
  | case1 => exact absurd (congrArg Prod.fst h) (closeQuote_fst_ne_nil quote first others)
  | case2 c cs _ _ _ ih =>
    rw [List.cons_append, List.cons_append, closeQuote_escape, Prod.mk.injEq] at h
    rw [List.cons_append, List.cons_append, closeQuote_escape, ih]
    exact Prod.ext (List.cons.inj (List.cons.inj h.1).2).2 h.2
  | case3 c cs hne hc =>
    have hescape := hlast hne h
    rw [List.cons_append, closeQuote_cons (absurd · hescape), if_pos (beq_iff_eq.1 hc)] at h
    rw [List.cons_append, closeQuote_cons (absurd · hescape), if_pos (beq_iff_eq.1 hc)]
    obtain rfl := (List.cons.inj (congrArg Prod.fst h)).2
    rfl
  | case4 c cs hne hc _ _ _ ih =>
    have hescape := hlast hne h
    rw [beq_iff_eq] at hc
    rw [List.cons_append, closeQuote_cons (absurd · hescape), if_neg hc, Prod.mk.injEq] at h
    rw [List.cons_append, closeQuote_cons (absurd · hescape), if_neg hc, ih]
    exact Prod.ext (List.cons.inj h.1).2 h.2

/-- A quote that is not closed before the end of its text is not closed in a part of it. -/
theorem closeQuote_of_append {quote : Char} {content more : List Char}
    (h : closeQuote quote (content ++ more) = (content ++ more, [])) :
    closeQuote quote content = (content, []) := by
  fun_induction closeQuote quote content with
  | case1 => rfl
  | case2 c cs _ _ hclose ih =>
    rw [List.cons_append, List.cons_append, closeQuote_escape, Prod.mk.injEq] at h
    have hcs := ih (Prod.ext (List.cons.inj (List.cons.inj h.1).2).2 h.2)
    rw [hclose, Prod.mk.injEq] at hcs
    rw [hcs.1, hcs.2]
  | case3 c cs hne hc =>
    cases cs with
    | nil => rfl
    | cons d ds =>
      rw [List.cons_append, closeQuote_cons fun hescape => (hne d ds hescape rfl).elim,
        if_pos (beq_iff_eq.1 hc)] at h
      exact absurd (congrArg Prod.snd h) (List.cons_ne_nil _ _)
  | case4 c cs hne hc _ _ hclose ih =>
    cases cs with
    | nil =>
      cases hclose
      rfl
    | cons d ds =>
      rw [List.cons_append, closeQuote_cons fun hescape => (hne d ds hescape rfl).elim,
        if_neg (by simpa using hc), Prod.mk.injEq] at h
      have hcs := ih (Prod.ext (List.cons.inj h.1).2 h.2)
      rw [hclose, Prod.mk.injEq] at hcs
      rw [hcs.1, hcs.2]

/-- A quote that something is left behind has been closed. -/
theorem exists_closeQuote_concat {quote : Char} {cs : List Char}
    (h : (closeQuote quote cs).2 ≠ []) :
    ∃ content, (closeQuote quote cs).1 = content ++ [quote] := by
  fun_induction closeQuote quote cs with
  | case1 => exact absurd rfl h
  | case2 c cs _ _ hclose ih =>
    obtain ⟨content, hcontent⟩ := ih (by rwa [hclose])
    rw [hclose] at hcontent
    exact ⟨'\\' :: c :: content, congrArg ('\\' :: c :: ·) hcontent⟩
  | case3 c cs _ hc => exact ⟨[], congrArg ([·]) (beq_iff_eq.1 hc)⟩
  | case4 c cs _ _ _ _ hclose ih =>
    obtain ⟨content, hcontent⟩ := ih (by rwa [hclose])
    rw [hclose] at hcontent
    exact ⟨c :: content, congrArg (c :: ·) hcontent⟩

/-! ## Rows -/

/-- A piece is the first one of its characters and the text behind them. -/
inductive Leads : Piece → List Char → Prop
  | word {c : Char} {cs rest : List Char} : (∀ x ∈ c :: cs, isWordChar x = true) →
    (∀ x, rest.head? = some x → isWordChar x = false) → Leads (.word (c :: cs)) rest
  | quoted {quote : Char} {content rest : List Char} : quote ∈ quotes →
    closeQuote quote (content ++ rest) = (content, rest) → Leads (.quoted (quote :: content)) rest
  | other {c : Char} {rest : List Char} : isWordChar c = false → c ∉ quotes → c ≠ '←' →
    (c = '/' → rest.head? ≠ some '/') → (c = ':' → rest.head? ≠ some '=') → Leads (.other c) rest

namespace Leads

variable {p : Piece} {rest : List Char}

theorem split_append (h : Leads p rest) : split (p.chars ++ rest) = p :: split rest := by
  cases h with
  | word hcs hrest => exact Source.split_word hcs hrest
  | @quoted quote content _ hquote hclose =>
    have hc : (quote == '\'' || quote == '"') = true := by simpa [quotes] using hquote
    rw [chars, List.cons_append, split, if_neg (by rw [(IsSign.of_quote hquote).notWord]; decide),
      if_pos hc, hclose]
  | @other c _ hword hquote harrow hcomment hcolon =>
    have hc : ¬(c == '\'' || c == '"') = true := by simpa [quotes] using hquote
    rw [chars, List.singleton_append, split, if_neg (by rw [hword]; decide), if_neg hc,
      if_neg (by simpa using hcomment), if_neg (by simpa using harrow),
      if_neg (by simpa using hcolon)]

theorem chars_ne_nil (h : Leads p rest) : p.chars ≠ [] := by
  cases h <;> exact List.cons_ne_nil _ _

/-- It stays the first one if the text behind it is cut. -/
theorem of_append {cut : List Char} (h : Leads p (rest ++ cut)) : Leads p rest := by
  have hhead : ∀ {x : Char}, rest.head? = some x → (rest ++ cut).head? = some x := fun hx => by
    rw [List.head?_append, hx]
    rfl
  cases h with
  | word hcs hrest => exact .word hcs fun x hx => hrest x (hhead hx)
  | @quoted quote content _ hquote hclose =>
    refine .quoted hquote ?_
    by_cases hnil : rest ++ cut = []
    · obtain ⟨rfl, rfl⟩ := List.append_eq_nil_iff.1 hnil
      exact hclose
    · exact closeQuote_append_congr hclose hnil rest
  | other hword hquote harrow hcomment hcolon =>
    exact .other hword hquote harrow (fun hc hx => hcomment hc (hhead hx)) fun hc hx =>
      hcolon hc (hhead hx)

end Leads

/-- A piece that is complete: a quoted text has its closing quote. -/
def Ends : Piece → Prop
  | quoted cs => ∃ quote content, cs = quote :: content ∧
    ∀ rest, closeQuote quote (content ++ rest) = (content, rest)
  | _ => True

theorem Leads.ends {p : Piece} {rest : List Char} (h : Leads p rest) (hrest : rest ≠ []) :
    p.Ends := by
  cases h with
  | word => trivial
  | quoted hquote hclose => exact ⟨_, _, rfl, closeQuote_append_congr hclose hrest⟩
  | other => trivial

/-- A blank is part of no other piece but a quoted text. -/
theorem of_isBlank {c : Char} (h : isBlank c = true) :
    isWordChar c = false ∧ c ∉ quotes ∧ c ∉ ['/', '←', ':', '='] := by
  have hsigns : ∀ c ∈ quotes ++ ['/', '←', ':', '='], isBlank c = false :=
    forall_mem_of_all (by decide +kernel)
  have hne : c ∉ quotes ++ ['/', '←', ':', '='] := fun hc =>
    Bool.false_ne_true ((hsigns c hc).symm.trans h)
  rw [List.mem_append, not_or] at hne
  refine ⟨Bool.eq_false_iff.2 fun hword => ?_, hne⟩
  exact Bool.false_ne_true ((isBlank_of_isWordChar hword).symm.trans h)

theorem leads_of_isBlank {c : Char} (h : isBlank c = true) (rest : List Char) :
    Leads (other c) rest := by
  obtain ⟨hword, hquote, hplain⟩ := of_isBlank h
  simp only [List.mem_cons, List.not_mem_nil, or_false, not_or] at hplain
  exact .other hword hquote hplain.2.1 (absurd · hplain.1) (absurd · hplain.2.2.1)

/-- No blank runs into a piece in front of it that is complete. -/
theorem Leads.append {p : Piece} {rest more : List Char} (h : Leads p rest) (hends : p.Ends)
    (hmore : ∀ c, more.head? = some c → isBlank c = true) : Leads p (rest ++ more) := by
  have hhead : ∀ {c : Char}, (rest ++ more).head? = some c → rest.head? = some c ∨
      isBlank c = true := by
    intro c hc
    rw [List.head?_append, Option.or_eq_some_iff] at hc
    exact hc.imp_right fun h => hmore c h.2
  cases h with
  | word hcs hrest =>
    exact .word hcs fun x hx => (hhead hx).elim (hrest x) fun h => (of_isBlank h).1
  | @quoted quote content _ hquote hclose =>
    obtain ⟨_, _, heq, hall⟩ := hends
    cases heq
    exact .quoted hquote (hall _)
  | other hword hquote harrow hcomment hcolon =>
    refine .other hword hquote harrow (fun hc hx => ?_) fun hc hx => ?_
    · exact (hhead hx).elim (hcomment hc) fun h => (of_isBlank h).2.2 (by decide)
    · exact (hhead hx).elim (hcolon hc) fun h => (of_isBlank h).2.2 (by decide)

/-- Whether a piece is a blank. -/
def blank : Piece → Bool
  | other c => isBlank c
  | _ => false

/-- A piece that is complete does not end with a blank, unless it is one. -/
theorem Leads.trimEnd_chars {p : Piece} {rest : List Char} (h : Leads p rest) (hends : p.Ends)
    (hblank : p.blank = false) : trimEnd p.chars = p.chars := by
  refine trimEnd_of_getLast fun c hlast => ?_
  cases h with
  | word hcs => exact isBlank_of_isWordChar (hcs c (List.mem_of_getLast? hlast))
  | @quoted quote content _ hquote =>
    obtain ⟨_, _, heq, hall⟩ := hends
    cases heq
    have hclose := hall [quote]
    have hrest : (closeQuote quote (content ++ [quote])).2 ≠ [] := by simp [hclose]
    obtain ⟨inner, hinner⟩ := exists_closeQuote_concat hrest
    replace hinner : content = inner ++ [quote] := (congrArg Prod.fst hclose).symm.trans hinner
    rw [chars, hinner, ← List.cons_append, List.getLast?_concat, Option.some.injEq] at hlast
    exact hlast ▸ (IsSign.of_quote hquote).notBlank
  | other => exact Option.some.inj hlast ▸ hblank

/-- A blank at the end of a text is a piece, or the last character of a quoted text that is not
    closed. -/
theorem leads_concat_cases {p : Piece} {cs : List Char} {blank : Char} (h : Leads p [])
    (hblank : isBlank blank = true) (hchars : p.chars = cs ++ [blank]) :
    (p = other blank ∧ cs = []) ∨ (p = quoted (cs ++ [blank]) ∧ Leads (quoted cs) []) := by
  cases h with
  | @word c word _ hword =>
    have hmem : blank ∈ (Piece.word (c :: word)).chars := by
      rw [hchars]
      exact List.mem_append_right cs (List.mem_singleton_self blank)
    exact absurd (hword blank hmem) (by rw [(of_isBlank hblank).1]; decide)
  | @quoted quote content _ hquote hclose =>
    refine .inr ⟨congrArg quoted hchars, ?_⟩
    cases cs with
    | nil =>
      obtain rfl := (List.cons.inj hchars).1
      exact absurd hquote (of_isBlank hblank).2.1
    | cons c cs =>
      obtain ⟨rfl, rfl⟩ := List.cons.inj hchars
      rw [List.append_nil] at hclose
      refine .quoted hquote ?_
      rw [List.append_nil]
      exact closeQuote_of_append hclose
  | @other c _ =>
    cases cs with
    | nil => exact .inl ⟨congrArg other (List.cons.inj hchars).1, rfl⟩
    | cons d cs => exact absurd (List.cons.inj hchars).2.symm (by simp)

/-- Pieces that are found again in their text: each is the first one of what is left. -/
inductive Fit : List Piece → Prop
  | nil : Fit []
  | cons {p : Piece} {ps : List Piece} : Leads p (text ps) → Fit ps → Fit (p :: ps)

namespace Fit

variable {ps qs : List Piece}

theorem split_text (h : Fit ps) : split (text ps) = ps := by
  induction h with
  | nil => rw [text_nil, split]
  | cons hleads _ ih => rw [text_cons, hleads.split_append, ih]

theorem cons_iff {p : Piece} : Fit (p :: ps) ↔ Leads p (text ps) ∧ Fit ps :=
  ⟨fun | .cons hleads hrest => ⟨hleads, hrest⟩, fun h => .cons h.1 h.2⟩

theorem of_append_left (h : Fit (ps ++ qs)) : Fit ps := by
  induction ps with
  | nil => exact .nil
  | cons p ps ih =>
    rw [List.cons_append, cons_iff, text_append] at h
    exact .cons h.1.of_append (ih h.2)

theorem of_append_right (h : Fit (ps ++ qs)) : Fit qs := by
  induction ps with
  | nil => exact h
  | cons p ps ih => exact ih (cons_iff.1 h).2

/-- The last piece may be replaced by one with fewer characters. -/
theorem concat_congr {p q : Piece} {cut : List Char} (h : Fit (ps ++ [p])) (hq : Leads q [])
    (hchars : p.chars = q.chars ++ cut) : Fit (ps ++ [q]) := by
  induction ps with
  | nil => exact .cons hq .nil
  | cons first ps ih =>
    rw [List.cons_append, cons_iff] at h ⊢
    refine ⟨Leads.of_append (?_ : Leads first (_ ++ cut)), ih h.2⟩
    rw [text_append, text_cons, text_nil, List.append_nil] at h ⊢
    rw [List.append_assoc, ← hchars]
    exact h.1

/-- Pieces with something behind them are complete. -/
theorem ends_of_append (h : Fit (ps ++ qs)) (hqs : text qs ≠ []) : ∀ p ∈ ps, p.Ends := by
  induction ps with
  | nil => exact List.forall_mem_nil _
  | cons p ps ih =>
    rw [List.cons_append, cons_iff, text_append] at h
    exact List.forall_mem_cons.2
      ⟨h.1.ends (List.append_ne_nil_of_right_ne_nil _ hqs), ih h.2⟩

/-- The row without the blanks at its end. -/
theorem exists_trimEnd (h : Fit ps) (hends : ∀ p ∈ ps, p.Ends) :
    ∃ kept, kept <+: ps ∧ text kept = trimEnd (text ps) ∧
      kept.filter (!·.blank) = ps.filter (!·.blank) := by
  induction ps using List.reverseRecOn with
  | nil => exact ⟨[], List.nil_prefix, rfl, rfl⟩
  | append_singleton ps p ih =>
    obtain ⟨hps, hp⟩ := List.forall_mem_append.1 hends
    rw [text_append, text_cons, text_nil, List.append_nil, trimEnd_append, List.filter_append]
    cases hblank : p.blank with
    | true =>
      obtain ⟨kept, hfront, htext, hfilter⟩ := ih h.of_append_left hps
      have hnil : trimEnd p.chars = [] := by
        cases p with
        | other c => exact List.rdropWhile_eq_nil_iff.2 (List.forall_mem_singleton.2 hblank)
        | word | quoted | assign => cases hblank
      refine ⟨kept, hfront.trans (List.prefix_append ps [p]), ?_, ?_⟩
      · rw [if_pos hnil, htext]
      · rw [hfilter, List.filter_cons_of_neg (by simp [hblank]), List.filter_nil, List.append_nil]
    | false =>
      have hleads := (cons_iff.1 h.of_append_right).1
      have hchars := hleads.trimEnd_chars (hp p List.mem_cons_self) hblank
      refine ⟨ps ++ [p], List.prefix_rfl, ?_, List.filter_append ps [p]⟩
      rw [hchars, if_neg hleads.chars_ne_nil, text_append, text_cons, text_nil, List.append_nil]

/-- Rows with a blank between them are one row. -/
theorem append (hps : Fit ps) (hends : ∀ p ∈ ps, p.Ends) (hqs : Fit qs)
    (hblank : ∀ c, (text qs).head? = some c → isBlank c = true) : Fit (ps ++ qs) := by
  induction hps with
  | nil => exact hqs
  | @cons p ps hleads _ ih =>
    obtain ⟨hp, hrest⟩ := List.forall_mem_cons.1 hends
    rw [List.cons_append, cons_iff, text_append]
    exact ⟨hleads.append hp hblank, ih hrest⟩

end Fit

/-! ## Normalized lines -/

/-- A piece as the pieces it becomes in a normalized line. -/
def canonical : Piece → List Piece
  | word cs => [word (normal (word cs))]
  | assign => [other '<', other '-']
  | quoted cs => [quoted cs]
  | other c => [other c]

theorem text_flatMap_canonical (ps : List Piece) :
    text (ps.flatMap canonical) = ps.flatMap normal := by
  rw [text, List.flatMap_assoc]
  refine List.flatMap_congr fun p _ => ?_
  cases p <;> simp [canonical, normal, chars]

theorem normal_word_normal (cs : List Char) :
    normal (word (normal (word cs))) = normal (word cs) := by
  cases hkeyword : Keyword.ofWord? cs with
  | none => simp [normal, hkeyword]
  | some k => simp [normal, hkeyword, Keyword.ofWord?_spelling]

theorem normal_of_mem_canonical {p q : Piece} (h : q ∈ p.canonical) : q.normal = q.chars := by
  cases p with
  | word cs =>
    rw [List.mem_singleton.1 h]
    exact normal_word_normal cs
  | quoted | other =>
    rw [List.mem_singleton.1 h]
    rfl
  | assign =>
    simp only [canonical, List.mem_cons, List.not_mem_nil, or_false] at h
    rcases h with rfl | rfl <;> rfl

theorem leads_normal {c : Char} {cs rest : List Char} (hcs : ∀ x ∈ c :: cs, isWordChar x = true)
    (hrest : ∀ x, rest.head? = some x → isWordChar x = false) :
    Leads (word (normal (word (c :: cs)))) rest := by
  cases hkeyword : Keyword.ofWord? (c :: cs) with
  | none =>
    rw [normal, hkeyword]
    exact .word hcs hrest
  | some k =>
    have hspelling := @Keyword.isWordChar_of_mem_spelling k
    obtain ⟨first, others, hk⟩ := k.exists_spelling_eq_cons
    rw [normal, hkeyword, Option.elim_some, hk]
    rw [hk] at hspelling
    exact .word (fun x hx => hspelling hx) hrest

/-- A normalized line starts with a word only if the line does. -/
theorem isWordChar_head_normalLine {line : List Char}
    (h : ∀ x, line.head? = some x → isWordChar x = false) :
    ∀ x, (Source.normalLine line).head? = some x → isWordChar x = false := by
  intro x hx
  obtain ⟨y, hy, rfl | rfl | ⟨_, hword⟩⟩ := Source.startsLike_normalLine line x hx
  · exact h _ hy
  · exact (IsSign.of_symbol (by decide)).notWord
  · exact absurd hword (by rw [h y hy]; decide)

/-- Normalizing a line puts no sign but `<` at its start. -/
theorem head_of_head_normalLine {line : List Char} {c : Char} (hc : c ∈ symbolChars)
    (hne : c ≠ '<') (h : (Source.normalLine line).head? = some c) : line.head? = some c := by
  obtain ⟨y, hy, rfl | heq | ⟨hstart, _⟩⟩ := Source.startsLike_normalLine line c h
  · exact hy
  · exact absurd heq hne
  · exact absurd hstart (IsSign.of_symbol hc).not_startsWord

/-- The pieces of a line fit in their canonical spelling. -/
theorem fit_canonical (line : List Char) : Fit ((split line).flatMap canonical) := by
  have htext : ∀ rest, text ((split rest).flatMap canonical) = Source.normalLine rest := fun rest =>
    text_flatMap_canonical (split rest)
  have hsign : ∀ {c : Char} {rest : List Char}, c ∈ ['<', '-'] → Leads (other c) rest := by
    have hall : ∀ c ∈ ['<', '-'], isWordChar c = false ∧ c ∉ quotes ∧ c ∉ ['/', '←', ':'] :=
      forall_mem_of_all (by decide +kernel)
    intro c rest hc
    obtain ⟨hword, hquote, hplain⟩ := hall c hc
    simp only [List.mem_cons, List.not_mem_nil, or_false, not_or] at hplain
    exact .other hword hquote hplain.2.1 (absurd · hplain.1) (absurd · hplain.2.2)
  have hassign : ∀ {ps : List Piece}, Fit ps → Fit (canonical assign ++ ps) := fun h =>
    .cons (hsign (by decide)) (.cons (hsign (by decide)) h)
  fun_induction split line with
  | case1 => exact .nil
  | case2 c cs hc ih =>
    have hcs : ∀ x ∈ c :: cs.takeWhile isWordChar, isWordChar x = true :=
      List.forall_mem_cons.2 ⟨hc, fun x hx => List.mem_takeWhile_imp hx⟩
    have hhead : ∀ x, (cs.dropWhile isWordChar).head? = some x → isWordChar x = false :=
      fun x => eq_false_of_head_dropWhile
    rw [List.flatMap_cons, canonical, List.singleton_append, Fit.cons_iff, htext]
    exact ⟨leads_normal hcs (isWordChar_head_normalLine hhead), ih⟩
  | case3 c cs hword hc ih =>
    have hquote : c ∈ quotes := by simpa [quotes] using hc
    rw [List.flatMap_cons, canonical, List.singleton_append, Fit.cons_iff, htext]
    refine ⟨.quoted hquote ?_, ih⟩
    have hclose : closeQuote c ((closeQuote c cs).1 ++ (closeQuote c cs).2) = closeQuote c cs := by
      rw [closeQuote_append]
    by_cases hnil : (closeQuote c cs).2 = []
    · rw [hnil] at hclose ⊢
      rw [Source.normalLine_nil, hclose]
      exact Prod.ext rfl hnil
    · exact closeQuote_append_congr hclose hnil _
  | case4 => exact .nil
  | case5 c cs _ _ _ _ ih => exact hassign ih
  | case6 c cs _ _ _ _ _ ih => exact hassign ih
  | case7 c cs hword hc hcomment harrow hcolon ih =>
    have hquote : c ∉ quotes := by simpa [quotes] using hc
    have hcomment : c = '/' → cs.head? ≠ some '/' := by simpa using hcomment
    have hcolon : c = ':' → cs.head? ≠ some '=' := by simpa using hcolon
    rw [List.flatMap_cons, canonical, List.singleton_append, Fit.cons_iff, htext]
    refine ⟨.other (Bool.eq_false_iff.2 hword) hquote (by simpa using harrow) ?_ ?_, ih⟩
    · exact fun h hhead => hcomment h (head_of_head_normalLine (by decide) (by decide) hhead)
    · exact fun h hhead => hcolon h (head_of_head_normalLine (by decide) (by decide) hhead)

/-- The pieces of a normalized line are those of the line in their canonical spelling. -/
theorem split_normalLine (line : List Char) :
    split (Source.normalLine line) = (split line).flatMap canonical := by
  rw [← (fit_canonical line).split_text, text_flatMap_canonical]
  rfl

/-- The pieces of a normalized line. -/
structure Canonical (ps : List Piece) : Prop where
  fit : Fit ps
  normal : ∀ p ∈ ps, p.normal = p.chars

theorem canonical_split_normalLine (line : List Char) :
    Canonical (split (Source.normalLine line)) := by
  rw [split_normalLine]
  refine ⟨fit_canonical line, fun q hq => ?_⟩
  obtain ⟨p, _, hq⟩ := List.mem_flatMap.1 hq
  exact normal_of_mem_canonical hq

namespace Canonical

variable {ps qs : List Piece}

theorem normalLine_text (h : Canonical ps) : Source.normalLine (text ps) = text ps := by
  rw [Source.normalLine, h.fit.split_text]
  exact List.flatMap_congr h.normal

theorem of_append_left (h : Canonical (ps ++ qs)) : Canonical ps :=
  ⟨h.fit.of_append_left, (List.forall_mem_append.1 h.normal).1⟩

theorem of_append_right (h : Canonical (ps ++ qs)) : Canonical qs :=
  ⟨h.fit.of_append_right, (List.forall_mem_append.1 h.normal).2⟩

/-- The row without the blank at the end of its text. -/
theorem concat_cases (h : Canonical ps) {cs : List Char} {blank : Char}
    (hblank : isBlank blank = true) (htext : text ps = cs ++ [blank]) :
    ∃ qs, Canonical qs ∧ text qs = cs ∧ (ps = qs ++ [other blank] ∨
      ∃ front content, ps = front ++ [quoted (content ++ [blank])] ∧
        qs = front ++ [quoted content]) := by
  obtain rfl | ⟨front, p, rfl⟩ := ps.eq_nil_or_concat
  · exact absurd htext.symm (by simp)
  rw [List.concat_eq_append] at h htext ⊢
  have hleads : Leads p [] := (Fit.cons_iff.1 h.fit.of_append_right).1
  obtain ⟨taken, last, hchars⟩ := (List.eq_nil_or_concat' p.chars).resolve_left hleads.chars_ne_nil
  rw [text_append, text_cons, text_nil, List.append_nil, hchars, ← List.append_assoc] at htext
  obtain ⟨rfl, hlast⟩ := List.append_inj' htext rfl
  obtain rfl := (List.cons.inj hlast).1
  obtain ⟨rfl, rfl⟩ | ⟨rfl, hquoted⟩ := leads_concat_cases hleads hblank hchars
  · exact ⟨front, h.of_append_left, by simp, .inl rfl⟩
  · refine ⟨front ++ [quoted taken], ⟨h.fit.concat_congr hquoted rfl, ?_⟩, ?_,
      .inr ⟨_, _, rfl, rfl⟩⟩
    · refine List.forall_mem_append.2 ⟨(List.forall_mem_append.1 h.normal).1, fun q hq => ?_⟩
      rw [List.mem_singleton.1 hq]
      rfl
    · simp [chars]

end Canonical

theorem text_split_normalLine (line : List Char) :
    text (split (Source.normalLine line)) = Source.normalLine line := by
  rw [split_normalLine, text_flatMap_canonical]
  rfl

end Piece

namespace Source

open Piece

/-- A normalized line stays as it is. -/
theorem normalLine_normalLine (line : List Char) :
    normalLine (normalLine line) = normalLine line := by
  rw [← text_split_normalLine line]
  exact (canonical_split_normalLine line).normalLine_text

/-- A line that has been normalized. -/
def IsNormal (line : List Char) : Prop := normalLine line = line

instance : DecidablePred IsNormal := fun line => decEq (normalLine line) line

namespace IsNormal

variable {line : List Char}

theorem canonical (h : IsNormal line) : Canonical (split line) :=
  h ▸ canonical_split_normalLine line

theorem text_split (h : IsNormal line) : text (split line) = line :=
  h ▸ text_split_normalLine line

end IsNormal

/-! ## Blanks at the ends -/

theorem split_cons_of_isBlank {blank : Char} (h : isBlank blank = true) (line : List Char) :
    split (blank :: line) = other blank :: split line :=
  (leads_of_isBlank h line).split_append

theorem IsNormal.of_cons {blank : Char} {line : List Char} (h : IsNormal (blank :: line))
    (hblank : isBlank blank = true) : IsNormal line := by
  have htext := h.text_split
  have hcanonical := h.canonical
  rw [split_cons_of_isBlank hblank] at htext hcanonical
  have hrow : Canonical ([other blank] ++ split line) := hcanonical
  rw [← (List.cons.inj htext).2]
  exact hrow.of_append_right.normalLine_text

/-- The pieces of a line in front of a blank. -/
theorem IsNormal.of_concat {blank : Char} {line : List Char} (h : IsNormal (line ++ [blank]))
    (hblank : isBlank blank = true) :
    IsNormal line ∧ (split (line ++ [blank]) = split line ++ [other blank] ∨
      ∃ front content, split (line ++ [blank]) = front ++ [quoted (content ++ [blank])] ∧
        split line = front ++ [quoted content]) := by
  obtain ⟨qs, hqs, rfl, hcases⟩ := h.canonical.concat_cases hblank h.text_split
  rw [hqs.fit.split_text]
  exact ⟨hqs.normalLine_text, hcases⟩

/-- What holds of a text and is kept when a blank at one of its ends is dropped holds of the text
    without them. -/
theorem trim_induction {motive : List Char → Prop} {text : List Char} (start : motive text)
    (head : ∀ {blank cs}, isBlank blank = true → motive (blank :: cs) → motive cs)
    (last : ∀ {blank cs}, isBlank blank = true → motive (cs ++ [blank]) → motive cs) :
    motive (trim text) := by
  have hfront : ∀ cs : List Char, motive cs → motive (cs.dropWhile isBlank) := by
    intro cs h
    induction cs with
    | nil => exact h
    | cons c cs ih =>
      by_cases hc : isBlank c = true
      · rw [List.dropWhile_cons_of_pos hc]
        exact ih (head hc h)
      · rwa [List.dropWhile_cons_of_neg hc]
  have hback : ∀ cs : List Char, motive cs.reverse → motive (cs.dropWhile isBlank).reverse := by
    intro cs h
    induction cs with
    | nil => exact h
    | cons c cs ih =>
      by_cases hc : isBlank c = true
      · rw [List.dropWhile_cons_of_pos hc]
        rw [List.reverse_cons] at h
        exact ih (last hc h)
      · rwa [List.dropWhile_cons_of_neg hc]
  refine hback _ ?_
  rw [List.reverse_reverse]
  exact hfront text start

/-- A normalized line stays one without the blanks at its ends. -/
theorem IsNormal.trim {line : List Char} (h : IsNormal line) : IsNormal (trim line) :=
  trim_induction h (fun hblank h => h.of_cons hblank) fun hblank h => (h.of_concat hblank).1

end Source

end Portugol
