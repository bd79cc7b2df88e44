import Mathlib.Computability.RegularExpressions
import Portugol.Machine.Stmt
import Portugol.Proofs.ExprParser
import Portugol.Proofs.Literals

/-!
# Numbers in inputs and in programs

A number is recognized twice: by the look at an input as a whole, and by the tokens of a line,
where its minus is an operator that its numeral takes up again. Both take the texts of one
pattern for numbers, and make the same number of them.

* `Numeral.isNumeral_iff`, `NumberPattern.mem_number`: the pattern, as a regular expression, and
  what it says.
* `exists_parse_of_mem`: as a line, such a text is the expression of the number that it is as an
  input.
* `ofInput_agrees_with_expressions`: which inputs are numbers, and that they have the values of
  expressions.
-/

namespace Portugol

open Lexer

/-! ## The pattern of numbers -/

namespace NumberPattern

open RegularExpression

/-- A digit, `[0-9]`. -/
def digit : RegularExpression Char := digits.foldr (fun c pattern => char c + pattern) 0

/-- A row of digits, `[0-9]+`. -/
def row : RegularExpression Char := digit * star digit

/-- A numeral, `[0-9]+(\.[0-9]+)?`. -/
def numeral : RegularExpression Char := row * (1 + char '.' * row)

/-- A number, `-?[0-9]+(\.[0-9]+)?`. -/
def number : RegularExpression Char := (1 + char '-') * numeral

theorem mem_char {c : Char} {cs : List Char} : cs ∈ (char c).matches' ↔ cs = [c] := Iff.rfl

theorem mem_digit {cs : List Char} : cs ∈ digit.matches' ↔ ∃ c, c.isDigit = true ∧ cs = [c] := by
  have hfold : ∀ row : List Char,
      cs ∈ (row.foldr (fun c pattern => char c + pattern) 0).matches' ↔ ∃ c ∈ row, cs = [c] := by
    intro row
    induction row with
    | nil => simp [Language.notMem_zero]
    | cons c row ih =>
      rw [List.foldr_cons, matches'_add, Language.mem_add, ih, mem_char, List.exists_mem_cons_iff]
  have hdigits : ∀ c ∈ digits, c.isDigit = true := forall_mem_of_all (by decide)
  rw [digit, hfold]
  exact ⟨fun ⟨c, hc, hcs⟩ => ⟨c, hdigits c hc, hcs⟩,
    fun ⟨c, hc, hcs⟩ => ⟨c, mem_digits_of_isDigit hc, hcs⟩⟩

theorem mem_star_digit {cs : List Char} :
    cs ∈ (star digit).matches' ↔ ∀ c ∈ cs, c.isDigit = true := by
  rw [matches'_star, Language.mem_kstar]
  constructor
  · rintro ⟨parts, rfl, hparts⟩ c hc
    obtain ⟨part, hpart, hc⟩ := List.mem_flatten.1 hc
    obtain ⟨d, hd, rfl⟩ := mem_digit.1 (hparts part hpart)
    exact List.mem_singleton.1 hc ▸ hd
  · intro h
    refine ⟨cs.map fun c => [c], by rw [← List.flatMap_def, List.flatMap_singleton'], ?_⟩
    intro part hpart
    obtain ⟨c, hc, rfl⟩ := List.mem_map.1 hpart
    exact mem_digit.2 ⟨c, h c hc, rfl⟩

theorem mem_row {cs : List Char} :
    cs ∈ row.matches' ↔ ∃ d ds, cs = d :: ds ∧ ∀ c ∈ d :: ds, c.isDigit = true := by
  rw [row, matches'_mul, Language.mem_mul]
  constructor
  · rintro ⟨first, hfirst, rest, hrest, rfl⟩
    obtain ⟨d, hd, rfl⟩ := mem_digit.1 hfirst
    exact ⟨d, rest, rfl, List.forall_mem_cons.2 ⟨hd, mem_star_digit.1 hrest⟩⟩
  · rintro ⟨d, ds, rfl, hds⟩
    obtain ⟨hd, hds⟩ := List.forall_mem_cons.1 hds
    exact ⟨[d], mem_digit.2 ⟨d, hd, rfl⟩, ds, mem_star_digit.2 hds, rfl⟩

end NumberPattern

theorem isDigits_cons {d : Char} {ds : List Char} (h : ∀ c ∈ d :: ds, c.isDigit = true) :
    isDigits (d :: ds) = true :=
  List.all_eq_true.2 h

/-- A text without a sign is a numeral exactly if it is of the pattern. -/
theorem Numeral.isNumeral_iff {cs : List Char} :
    isNumeral cs = true ↔ cs ∈ NumberPattern.numeral.matches' := by
  rw [NumberPattern.numeral, RegularExpression.matches'_mul, Language.mem_mul]
  constructor
  · intro h
    rcases isNumeral_cases h with ⟨d, ds, rfl, hds⟩ | ⟨d, ds, d', ds', rfl, hds, hds'⟩
    · exact ⟨_, NumberPattern.mem_row.2 ⟨d, ds, rfl, hds⟩, [], .inl rfl, List.append_nil _⟩
    · refine ⟨_, NumberPattern.mem_row.2 ⟨d, ds, rfl, hds⟩, '.' :: d' :: ds', .inr ?_, rfl⟩
      exact Language.mem_mul.2 ⟨['.'], rfl, _, NumberPattern.mem_row.2 ⟨d', ds', rfl, hds'⟩, rfl⟩
  · rintro ⟨whole, hwhole, rest, hrest, rfl⟩
    obtain ⟨d, ds, rfl, hds⟩ := NumberPattern.mem_row.1 hwhole
    -- No digit is a point, so that the text is cut at the point of the pattern.
    have hpoint : ∀ c ∈ d :: ds, (c != '.') = true := by
      intro c hc
      refine bne_iff_ne.2 ?_
      rintro rfl
      exact absurd (hds '.' hc) (by decide)
    rcases hrest with rfl | hrest
    · obtain ⟨htake, hdrop⟩ := @takeWhile_append_of_head _ _ [] hpoint nofun
      rw [isNumeral, htake, hdrop, isDigits_cons hds]
      rfl
    · obtain ⟨_, rfl, fraction, hfraction, rfl⟩ := Language.mem_mul.1 hrest
      obtain ⟨d', ds', rfl, hds'⟩ := NumberPattern.mem_row.1 hfraction
      have hhead : ∀ c, (['.'] ++ d' :: ds').head? = some c → (c != '.') = false := by
        rintro _ ⟨⟩
        rfl
      obtain ⟨htake, hdrop⟩ := takeWhile_append_of_head hpoint hhead
      rw [isNumeral, htake, hdrop, isDigits_cons hds]
      exact isDigits_cons hds'

/-- A number is a numeral, or a minus and a numeral. -/
theorem NumberPattern.mem_number {cs : List Char} : cs ∈ number.matches' ↔
    Numeral.isNumeral cs = true ∨
      ∃ digits, cs = '-' :: digits ∧ Numeral.isNumeral digits = true := by
  rw [number, RegularExpression.matches'_mul, Language.mem_mul]
  constructor
  · rintro ⟨_, rfl | rfl, numeral, hnumeral, rfl⟩
    · exact .inl (Numeral.isNumeral_iff.2 hnumeral)
    · exact .inr ⟨numeral, rfl, Numeral.isNumeral_iff.2 hnumeral⟩
  · rintro (h | ⟨digits, rfl, h⟩)
    · exact ⟨[], .inl rfl, cs, Numeral.isNumeral_iff.1 h, rfl⟩
    · exact ⟨['-'], .inr rfl, digits, Numeral.isNumeral_iff.1 h, rfl⟩

/-! ## Reading inputs -/

theorem Numeral.head_isDigit {c : Char} {cs : List Char} (h : isNumeral (c :: cs) = true) :
    c.isDigit = true := by
  rcases isNumeral_cases h with ⟨d, ds, heq, hds⟩ | ⟨d, ds, d', ds', heq, hds, _⟩ <;>
  · cases heq
    exact hds c List.mem_cons_self

theorem readNumber?_of_isNumeral {cs : List Char} (h : Numeral.isNumeral cs = true) :
    readNumber? cs = some (Numeral.value cs) := by
  unfold readNumber?
  split
  · exact absurd (Numeral.head_isDigit h) (by decide)
  · exact if_pos h

theorem readNumber?_minus {cs : List Char} (h : Numeral.isNumeral cs = true) :
    readNumber? ('-' :: cs) = some (-Numeral.value cs) :=
  if_pos h

theorem readNumber?_of_not_mem {cs : List Char} (h : cs ∉ NumberPattern.number.matches') :
    readNumber? cs = none := by
  rw [NumberPattern.mem_number, not_or] at h
  unfold readNumber?
  split
  · rename_i digits
    exact if_neg fun hdigits => h.2 ⟨digits, rfl, hdigits⟩
  · exact if_neg h.1

/-! ## Reading programs -/

theorem Numeral.spells {cs : List Char} (h : isNumeral cs = true) :
    Spells cs [.number (value cs)] := by
  have hended : Literal.Ended [] := nofun
  obtain ⟨kind, hkind, hlexes⟩ := (Literal.number ⟨cs, h⟩).lexes hended
  cases hkind
  have hspells := Spells.cons hlexes .nil
  rw [List.append_nil] at hspells
  exact hspells

/-- A number is written as a phrase for what it is read as. -/
theorem exists_phrase_of_mem {cs : List Char} (h : cs ∈ NumberPattern.number.matches') :
    ∃ (n : Number) (q : Phrase), readNumber? cs = some n ∧ Spells cs q.tokens ∧
      q.value = .number n ∧ q.Fits 0 ∧ q.nesting ≤ 1 ∧ q.tokens.length ≤ 2 := by
  rcases NumberPattern.mem_number.1 h with hnumeral | ⟨digits, rfl, hnumeral⟩
  · exact ⟨_, .number (Numeral.value cs), readNumber?_of_isNumeral hnumeral,
      Numeral.spells hnumeral, rfl, trivial, Nat.zero_le _, Nat.le_succ _⟩
  · have hminus : Lexes ['-'] digits (some (.symbol .minus)) := .symbol rfl nofun
    exact ⟨_, .signed .neg (.number (Numeral.value digits)), readNumber?_minus hnumeral,
      .cons hminus (Numeral.spells hnumeral), rfl, trivial, Nat.le_refl _, Nat.le_refl _⟩

/-- Reads an expression that is all of a line. -/
def LineParser.wholeExpr : LineParser Expr := do
  let e ← expr
  expectEnd
  return e

theorem LineParser.parse_wholeExpr_iff {line : Line} {e : Expr} :
    wholeExpr.parse line = .ok e ↔
      ∃ c, expr.run { line := line.number, tokens := line.tokens } = .ok (e, c) ∧ c.tokens = [] := by
  rw [parse_eq_ok_iff]
  constructor
  · rintro ⟨c, h⟩
    obtain ⟨e', c₁, hexpr, hrest⟩ := run_bind_eq_ok_iff.1 h
    obtain ⟨_, c₂, hend, hpure⟩ := run_bind_eq_ok_iff.1 hrest
    obtain ⟨rfl, -⟩ := run_pure_eq_ok_iff.1 hpure
    exact ⟨c₁, hexpr, (run_expectEnd_eq_ok_iff.1 hend).1⟩
  · rintro ⟨c, hexpr, hend⟩
    refine ⟨c, run_bind_eq_ok_iff.2 ⟨e, c, hexpr, ?_⟩⟩
    exact run_bind_eq_ok_iff.2 ⟨(), c, run_expectEnd_eq_ok_iff.2 ⟨hend, rfl⟩, rfl⟩

theorem exists_parse_of_mem {t : String} (h : t.toList ∈ NumberPattern.number.matches') :
    ∃ n, readNumber? t.toList = some n ∧ ∀ number, ∃ line, Line.ofText number t = .ok line ∧
      LineParser.wholeExpr.parse line = .ok (.number n) := by
  obtain ⟨n, q, hread, hspells, hvalue, hfits, hnesting, hlength⟩ := exists_phrase_of_mem h
  refine ⟨n, hread, fun number => ?_⟩
  obtain ⟨line, hline, hreading⟩ := (Line.exists_ofText_iff number).2 hspells
  rw [String.ofList_toList] at hline
  have hkinds : line.tokens.map Token.kind = q.tokens := congrArg Prod.snd hreading
  refine ⟨line, hline, LineParser.parse_wholeExpr_iff.2 ?_⟩
  have hoperators := List.countP_le_length (p := TokenKind.isOperator) (l := q.tokens)
  refine LineParser.run_expr_eq_ok_iff.2 ⟨⟨q, hfits, hkinds.symm, hvalue, ?_⟩, ?_⟩
  · exact Nat.le_trans (Nat.succ_le_succ hnesting) (by decide)
  · rw [hkinds]
    exact Nat.le_trans hoperators (Nat.le_trans hlength (by decide))

/-! ## Inputs and programs -/

theorem Numeral.not_isBlank {cs : List Char} (h : isNumeral cs = true) :
    ∀ c ∈ cs, isBlank c = false := by
  have hdigits : ∀ {ds : List Char}, (∀ c ∈ ds, c.isDigit = true) → ∀ c ∈ ds, isBlank c = false :=
    fun hds c hc => isBlank_of_isWordChar (isWordChar_of_isDigit (hds c hc))
  rcases isNumeral_cases h with ⟨d, ds, rfl, hds⟩ | ⟨d, ds, d', ds', rfl, hds, hds'⟩
  · exact hdigits hds
  · rw [← List.cons_append]
    refine List.forall_mem_append.2 ⟨hdigits hds, List.forall_mem_cons.2 ⟨?_, hdigits hds'⟩⟩
    exact IsSign.point.notBlank

theorem trim_of_not_isBlank {cs : List Char} (h : ∀ c ∈ cs, isBlank c = false) : trim cs = cs := by
  have hfront : cs.dropWhile isBlank = cs := by
    cases cs with
    | nil => rfl
    | cons c cs => exact List.dropWhile_cons_of_neg (by rw [h c List.mem_cons_self]; decide)
  rw [trim, hfront, trimEnd_of_getLast fun c hc => h c (List.mem_of_getLast? hc)]

/-- There are no blanks around a number. -/
theorem trim_of_mem_number {cs : List Char} (h : cs ∈ NumberPattern.number.matches') :
    trim cs = cs := by
  refine trim_of_not_isBlank ?_
  rcases NumberPattern.mem_number.1 h with hnumeral | ⟨digits, rfl, hnumeral⟩
  · exact Numeral.not_isBlank hnumeral
  · exact List.forall_mem_cons.2 ⟨by decide, Numeral.not_isBlank hnumeral⟩

open Exec in
/-- Inputs and programs agree on numbers. An input is a number if and only if it is of the pattern
    without the blanks around it, and else the text that it is. A text of the pattern is read as
    the number that it has as an expression, to the last bit. -/
theorem ofInput_agrees_with_expressions :
    (∀ raw : String,
      ((∃ n, Value.ofInput raw = .number n) ↔ trim raw.toList ∈ NumberPattern.number.matches') ∧
      (trim raw.toList ∉ NumberPattern.number.matches' → Value.ofInput raw = .text raw)) ∧
    ∀ t : String, t.toList ∈ NumberPattern.number.matches' → ∃ n : Number,
      (∀ raw : String, trim raw.toList = t.toList → Value.ofInput raw = .number n) ∧
      Value.ofInput t = .number n ∧
      ∀ number : Nat, ∃ line e, Line.ofText number t = .ok line ∧
        LineParser.wholeExpr.parse line = .ok e ∧
        ∀ (s : Setting) (invoke : Invoker) (m : Machine),
          eval s invoke e m = .ok (.number n) m := by
  have htext : ∀ raw : String, trim raw.toList ∉ NumberPattern.number.matches' →
      Value.ofInput raw = .text raw := by
    intro raw h
    rw [Value.ofInput, readNumber?_of_not_mem h]
  refine ⟨fun raw => ⟨⟨fun ⟨n, hn⟩ => ?_, fun h => ?_⟩, htext raw⟩, fun t h => ?_⟩
  · by_contra hnot
    cases hn.symm.trans (htext raw hnot)
  · obtain ⟨n, _, hread, _⟩ := exists_phrase_of_mem h
    exact ⟨n, by rw [Value.ofInput, hread]⟩
  · obtain ⟨n, hread, hparse⟩ := exists_parse_of_mem h
    have hinput : ∀ raw : String, trim raw.toList = t.toList → Value.ofInput raw = .number n := by
      intro raw hraw
      rw [Value.ofInput, hraw, hread]
    refine ⟨n, hinput, hinput t (trim_of_mem_number h), fun number => ?_⟩
    obtain ⟨line, hline, hexpr⟩ := hparse number
    exact ⟨line, _, hline, hexpr, fun _ _ _ => rfl⟩

/-- Zero keeps its sign on both ways. -/
theorem ofInput_agrees_with_expressions_minusZero :
    Value.ofInput " -0.0 " = .number (.zero true) ∧
      ∃ line e, Line.ofText 1 "-0.0" = .ok line ∧ LineParser.wholeExpr.parse line = .ok e ∧
        ∀ (s : Setting) (invoke : Invoker) (m : Machine),
          Exec.eval s invoke e m = .ok (.number (.zero true)) m := by
  have hmem : "-0.0".toList ∈ NumberPattern.number.matches' :=
    NumberPattern.mem_number.2 (.inr ⟨_, rfl, by decide⟩)
  obtain ⟨n, hinput, ht, hparse⟩ := ofInput_agrees_with_expressions.2 "-0.0" hmem
  have hzero : Value.ofInput "-0.0" = .number (.zero true) := rfl
  cases hzero.symm.trans ht
  exact ⟨hinput " -0.0 " (by decide), hparse 1⟩

end Portugol
