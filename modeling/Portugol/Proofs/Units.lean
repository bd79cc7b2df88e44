import Mathlib.Order.Monotone.Basic
import Mathlib.Tactic.Linarith
import Mathlib.Tactic.Ring
import Portugol.Proofs.Phrase

/-!
# Numbers in units

A finite number is a whole multiple of the unit. How many units it has is settled by its sign
and its body, and the order of bodies is the order of magnitudes (`bodyUnits_strictMono`). So
numbers are in the order of their units (`le_eq_decide`).

The number nearest to a ratio of units is found by rounding a quotient of integers. The rounded
quotient is between the integers around the quotient (`le_roundDiv`, `roundDiv_le`), and no
farther from the quotient than a half (`le_two_mul_roundDiv`, `two_mul_roundDiv_le`).

* `Number.hasUnits_ofScaled`: the nearest number to a ratio that is neither too small nor too
  large has as many units as the rounded quotient says, at the shift that makes it fill the
  bits of a fraction.
-/

namespace Portugol

/-! ## Rounded quotients -/

variable {num den k : Nat}

/-- The rounded quotient is the quotient or the next integer. -/
theorem roundDiv_cases (num den : Nat) :
    (roundDiv num den = num / den ∧ 2 * (num % den) ≤ den) ∨
      roundDiv num den = num / den + 1 ∧ den ≤ 2 * (num % den) := by
  rw [roundDiv]
  split <;> omega

theorem le_two_mul_roundDiv (hden : 0 < den) (num : Nat) :
    2 * num ≤ 2 * (roundDiv num den * den) + den := by
  have hdiv := Nat.div_add_mod' num den
  have hlt := Nat.mod_lt num hden
  have hnext : (num / den + 1) * den = num / den * den + den := Nat.succ_mul _ _
  rcases roundDiv_cases num den with ⟨h, hmod⟩ | ⟨h, hmod⟩ <;> rw [h] <;> omega

theorem two_mul_roundDiv_le (num den : Nat) : 2 * (roundDiv num den * den) ≤ 2 * num + den := by
  have hdiv := Nat.div_add_mod' num den
  have hnext : (num / den + 1) * den = num / den * den + den := Nat.succ_mul _ _
  rcases roundDiv_cases num den with ⟨h, hmod⟩ | ⟨h, hmod⟩ <;> rw [h] <;> omega

theorem le_roundDiv (hden : 0 < den) (h : k * den ≤ num) : k ≤ roundDiv num den := by
  have hk : k ≤ num / den := (Nat.le_div_iff_mul_le hden).2 h
  rcases roundDiv_cases num den with ⟨hround, _⟩ | ⟨hround, _⟩ <;> omega

theorem roundDiv_le (hden : 0 < den) (h : num ≤ k * den) : roundDiv num den ≤ k := by
  have hk : num / den ≤ k := Nat.div_le_of_le_mul (Nat.mul_comm k den ▸ h)
  rcases roundDiv_cases num den with ⟨hround, _⟩ | ⟨hround, hmod⟩
  · omega
  · -- The quotient is no integer, so that it is less than `k`.
    have hlt : num / den < k := by
      refine Nat.lt_of_le_of_ne hk fun heq => ?_
      have hdiv := Nat.div_add_mod' num den
      rw [heq] at hdiv
      omega
    omega

theorem roundDiv_mul (hden : 0 < den) (k : Nat) : roundDiv (k * den) den = k :=
  Nat.le_antisymm (roundDiv_le hden (Nat.le_refl _)) (le_roundDiv hden (Nat.le_refl _))

/-- An integer whose last bits are zero is not rounded where they are cut off. -/
theorem roundDiv_shift {n scale shift : Nat} (h : 2 ^ (shift - scale) ∣ n) :
    roundDiv (n * 2 ^ (scale - shift)) (1 * 2 ^ (shift - scale)) * 2 ^ shift = n * 2 ^ scale := by
  obtain ⟨c, rfl⟩ := h
  have hpow : 2 ^ (shift - scale) * 2 ^ scale = 2 ^ (scale - shift) * 2 ^ shift := by
    rw [← Nat.pow_add, ← Nat.pow_add]
    congr 1
    omega
  have hnum : 2 ^ (shift - scale) * c * 2 ^ (scale - shift) =
      c * 2 ^ (scale - shift) * 2 ^ (shift - scale) := by ring
  rw [Nat.one_mul, hnum, roundDiv_mul (Nat.two_pow_pos _), Nat.mul_assoc, ← hpow]
  ring

namespace Number

/-! ## Signs and bodies -/

theorem toNat_body_lt (x : Number) : x.body.toNat < 2 ^ 63 := by
  rw [toNat_body]
  exact Nat.mod_lt _ (by decide)

theorem bits_eq (x : Number) :
    x.bits.toNat = (if x.negative then 2 ^ 63 else 0) + x.body.toNat := by
  have hlt := x.bits.toNat_lt
  rw [toNat_body, negative_eq]
  split <;> rename_i h <;> simp only [decide_eq_true_eq] at h <;> omega

section OfBody

variable {body : UInt64} (negative : Bool) (h : body.toNat < 2 ^ 63)

include h

theorem bits_ofBody :
    (ofBody negative body).bits.toNat = (if negative then 2 ^ 63 else 0) + body.toNat := by
  rw [ofBody]
  cases negative with
  | true =>
    simp only [if_true, UInt64.toNat_add, UInt64.reduceToNat]
    omega
  | false => simp

theorem negative_ofBody : (ofBody negative body).negative = negative := by
  rw [negative_eq, bits_ofBody negative h]
  cases negative with
  | true => simp
  | false => simpa using h

theorem body_ofBody : (ofBody negative body).body = body := by
  apply UInt64.toNat_inj.1
  rw [toNat_body, bits_ofBody negative h]
  cases negative with
  | true => simp only [if_true]; omega
  | false => simp only [Bool.false_eq_true, if_false]; omega

end OfBody

theorem isFinite_iff {x : Number} : x.isFinite = true ↔ x.body.toNat < 2047 * 2 ^ 52 := by
  rw [isFinite, decide_eq_true_iff, UInt64.lt_iff_toNat_lt]
  exact Iff.rfl

theorem isNaN_of_isFinite {x : Number} (h : x.isFinite = true) : x.isNaN = false := by
  have hlt := isFinite_iff.1 h
  rw [isNaN, decide_eq_false_iff_not, UInt64.lt_iff_toNat_lt, Nat.not_lt]
  exact Nat.le_of_lt hlt

theorem isInfinite_of_isFinite {x : Number} (h : x.isFinite = true) : x.isInfinite = false := by
  have hlt := isFinite_iff.1 h
  rw [isInfinite, decide_eq_false_iff_not]
  intro heq
  rw [heq] at hlt
  exact absurd hlt (by decide)

/-! ## The units of a body -/

/-- The units of a number with this body. -/
def bodyUnits (body : Nat) : Nat :=
  if body < 2 ^ 52 then body else (2 ^ 52 + body % 2 ^ 52) * 2 ^ (body / 2 ^ 52 - 1)

theorem fraction_eq (x : Number) :
    x.fraction =
      if x.body.toNat < 2 ^ 52 then x.body.toNat else 2 ^ 52 + x.body.toNat % 2 ^ 52 := by
  have hwritten : x.written.toNat = x.body.toNat % 2 ^ 52 := by
    rw [written, UInt64.toNat_and]
    exact Nat.and_two_pow_sub_one_eq_mod _ 52
  have hlead : (leadingOne + x.written).toNat = 2 ^ 52 + x.body.toNat % 2 ^ 52 := by
    simp only [UInt64.toNat_add, hwritten, leadingOne, UInt64.reduceToNat]
    omega
  rw [fraction, hlead]
  rfl

theorem shift_eq (x : Number) : x.shift = x.body.toNat / 2 ^ 52 - 1 := by
  rw [shift, UInt64.toNat_shiftRight, Nat.shiftRight_eq_div_pow]
  rfl

theorem magnitude_eq (x : Number) : x.magnitude = x.fraction * 2 ^ x.shift := by
  rw [magnitude, Nat.shiftLeft_eq]

theorem magnitude_eq_bodyUnits (x : Number) : x.magnitude = bodyUnits x.body.toNat := by
  rw [magnitude_eq, fraction_eq, shift_eq, bodyUnits]
  split
  · rename_i h
    rw [Nat.div_eq_of_lt h]
    exact Nat.mul_one _
  · rfl

theorem fraction_lt (x : Number) : x.fraction < 2 ^ 53 := by
  rw [fraction_eq]
  split <;> omega

/-- A number whose fraction is doubled has its leading one. -/
theorem le_fraction_of_shift_pos {x : Number} (h : 0 < x.shift) : 2 ^ 52 ≤ x.fraction := by
  rw [shift_eq] at h
  rw [fraction_eq]
  split <;> omega

/-- A body that is put together from a fraction and a shift, where the fraction fills its bits
    unless the shift is zero. -/
theorem bodyUnits_pack {shift fraction : Nat} (hfraction : fraction ≤ 2 ^ 53)
    (hfull : shift = 0 ∨ 2 ^ 52 ≤ fraction) :
    bodyUnits (shift * 2 ^ 52 + fraction) = fraction * 2 ^ shift := by
  rw [bodyUnits]
  rcases Nat.lt_or_ge fraction (2 ^ 52) with hsmall | hlarge
  · obtain rfl : shift = 0 := hfull.resolve_right (Nat.not_le.2 hsmall)
    rw [if_pos (by omega)]
    omega
  · rw [if_neg (by omega)]
    rcases Nat.lt_or_eq_of_le hfraction with hlt | rfl
    · have hdiv : (shift * 2 ^ 52 + fraction) / 2 ^ 52 - 1 = shift := by omega
      have hmod : 2 ^ 52 + (shift * 2 ^ 52 + fraction) % 2 ^ 52 = fraction := by omega
      rw [hdiv, hmod]
    · -- One bit more than a fraction has: it is the leading one of the next shift.
      have hdiv : (shift * 2 ^ 52 + 2 ^ 53) / 2 ^ 52 - 1 = shift + 1 := by omega
      have hmod : (shift * 2 ^ 52 + 2 ^ 53) % 2 ^ 52 = 0 := by omega
      rw [hdiv, hmod]
      ring

theorem bodyUnits_lt_succ (body : Nat) : bodyUnits body < bodyUnits (body + 1) := by
  -- The body and the next one have the same shift, and fractions one apart.
  obtain ⟨shift, fraction, rfl, hfraction, hfull⟩ : ∃ shift fraction,
      body = shift * 2 ^ 52 + fraction ∧ fraction + 1 ≤ 2 ^ 53 ∧
        (shift = 0 ∨ 2 ^ 52 ≤ fraction) := by
    rcases Nat.lt_or_ge body (2 ^ 52) with h | h
    · exact ⟨0, body, by omega, by omega, .inl rfl⟩
    · exact ⟨body / 2 ^ 52 - 1, 2 ^ 52 + body % 2 ^ 52, by omega, by omega, .inr (by omega)⟩
  rw [Nat.add_assoc, bodyUnits_pack (by omega) hfull,
    bodyUnits_pack hfraction (hfull.imp_right Nat.le_succ_of_le)]
  exact Nat.mul_lt_mul_of_pos_right (Nat.lt_succ_self _) (Nat.two_pow_pos _)

/-- Larger bodies have more units. -/
theorem bodyUnits_strictMono : StrictMono bodyUnits := strictMono_nat_of_lt_succ bodyUnits_lt_succ

theorem bodyUnits_eq_zero_iff {body : Nat} : bodyUnits body = 0 ↔ body = 0 :=
  bodyUnits_strictMono.injective.eq_iff' rfl

theorem isZero_iff {x : Number} : x.isZero = true ↔ x.magnitude = 0 := by
  rw [magnitude_eq_bodyUnits, bodyUnits_eq_zero_iff, isZero, decide_eq_true_iff, ← UInt64.toNat_inj]
  rfl

/-! ## Order -/

theorem toNat_rank (x : Number) :
    x.rank.toNat = if x.negative then 2 ^ 63 - x.body.toNat else 2 ^ 63 + x.body.toNat := by
  have hbits := x.bits_eq
  have hbody := x.toNat_body_lt
  rw [rank]
  cases hsign : x.negative with
  | true =>
    rw [hsign, if_pos rfl] at hbits
    rw [if_pos rfl, if_pos rfl, UInt64.toNat_sub, UInt64.toNat_zero]
    omega
  | false =>
    rw [hsign, if_neg Bool.false_ne_true] at hbits
    rw [if_neg Bool.false_ne_true, if_neg Bool.false_ne_true]
    simp only [UInt64.toNat_add, UInt64.reduceToNat]
    omega

/-- Numbers are in the order of their units. -/
theorem le_eq_decide {x y : Number} (hx : x.isFinite = true) (hy : y.isFinite = true) :
    x.le y = decide (x.units ≤ y.units) := by
  have hmono : ∀ b b', bodyUnits b ≤ bodyUnits b' ↔ b ≤ b' := fun b b' =>
    bodyUnits_strictMono.le_iff_le
  have hbody := x.toNat_body_lt
  have hbody' := y.toNat_body_lt
  rw [le, isNaN_of_isFinite hx, isNaN_of_isFinite hy, Bool.not_false, Bool.true_and, Bool.true_and]
  refine decide_eq_decide.2 ?_
  rw [UInt64.le_iff_toNat_le, toNat_rank, toNat_rank, units, units, magnitude_eq_bodyUnits,
    magnitude_eq_bodyUnits]
  have hxy := hmono x.body.toNat y.body.toNat
  have hyx := hmono y.body.toNat x.body.toNat
  have hx0 := @bodyUnits_eq_zero_iff x.body.toNat
  have hy0 := @bodyUnits_eq_zero_iff y.body.toNat
  cases x.negative <;> cases y.negative <;> simp only [if_true, Bool.false_eq_true, if_false] <;>
    omega

/-! ## The nearest number -/

/-- The number is finite, with this sign and so many units. -/
structure HasUnits (x : Number) (negative : Bool) (units : Nat) : Prop where
  isFinite : x.isFinite = true
  negative : x.negative = negative
  magnitude : x.magnitude = units

theorem hasUnits_zero (negative : Bool) : (zero negative).HasUnits negative 0 := by
  cases negative <;> exact ⟨rfl, rfl, rfl⟩

section Pack

variable (negative : Bool) {shift fraction : Nat} (hshift : shift ≤ 2044)
  (hfraction : fraction ≤ 2 ^ 53)

include hshift hfraction

theorem toNat_pack :
    ((UInt64.ofNat shift <<< 52) + UInt64.ofNat fraction).toNat = shift * 2 ^ 52 + fraction := by
  have hsmall : ∀ {n : Nat}, n ≤ 2 ^ 53 → (UInt64.ofNat n).toNat = n := fun h =>
    UInt64.toNat_ofNat_of_lt' (Nat.lt_of_le_of_lt h (by decide))
  have hleft : (UInt64.ofNat shift <<< 52).toNat = shift * 2 ^ 52 := by
    rw [UInt64.toNat_shiftLeft, hsmall (by omega), Nat.shiftLeft_eq]
    exact Nat.mod_eq_of_lt (by simp; omega)
  rw [UInt64.toNat_add, hleft, hsmall hfraction]
  omega

/-- A number that is put together from a fraction and a shift. -/
theorem hasUnits_pack (hfull : 2 ^ 52 ≤ fraction) :
    HasUnits (ofBody negative ((UInt64.ofNat shift <<< 52) + UInt64.ofNat fraction)) negative
      (fraction * 2 ^ shift) := by
  have hpack := toNat_pack hshift hfraction
  have hlt : ((UInt64.ofNat shift <<< 52) + UInt64.ofNat fraction).toNat < 2 ^ 63 := by omega
  refine ⟨isFinite_iff.2 ?_, negative_ofBody negative hlt, ?_⟩
  · rw [body_ofBody negative hlt, hpack]
    omega
  · rw [magnitude_eq_bodyUnits, body_ofBody negative hlt, hpack,
      bodyUnits_pack hfraction (.inr hfull)]

end Pack

/-- The number nearest to a ratio that has more than fifty-two bits before its point in units,
    and not too many of them: its fraction is the ratio at the shift that makes it fill its
    bits, rounded. -/
theorem hasUnits_ofScaled (negative : Bool) {num den scale shift : Nat} (hden : 0 < den)
    (hnum : den ≤ num) (hshift : (num / den).log2 + scale = shift + 52) (hlarge : shift ≤ 2044) :
    (ofScaled negative num den scale).HasUnits negative
      (roundDiv (num * 2 ^ (scale - shift)) (den * 2 ^ (shift - scale)) * 2 ^ shift) := by
  have hquotient : num / den ≠ 0 := (Nat.div_pos hnum hden).ne'
  have hpos : 0 < den * 2 ^ (shift - scale) := Nat.mul_pos hden (Nat.two_pow_pos _)
  -- The quotient has a leading one; at the shift it is the fifty-third bit of the fraction.
  have hbits : 2 ^ (num / den).log2 * 2 ^ (scale - shift) = 2 ^ 52 * 2 ^ (shift - scale) := by
    rw [← Nat.pow_add, ← Nat.pow_add]
    congr 1
    omega
  have hlower : 2 ^ 52 * (den * 2 ^ (shift - scale)) ≤ num * 2 ^ (scale - shift) := by
    calc 2 ^ 52 * (den * 2 ^ (shift - scale))
        = 2 ^ (num / den).log2 * den * 2 ^ (scale - shift) := by
          rw [Nat.mul_right_comm, hbits]
          ring
      _ ≤ num * 2 ^ (scale - shift) := by
          refine Nat.mul_le_mul_right _ ((Nat.le_div_iff_mul_le hden).1 ?_)
          exact Nat.log2_self_le hquotient
  have hupper : num * 2 ^ (scale - shift) ≤ 2 ^ 53 * (den * 2 ^ (shift - scale)) := by
    calc num * 2 ^ (scale - shift)
        ≤ 2 ^ ((num / den).log2 + 1) * den * 2 ^ (scale - shift) := by
          refine Nat.mul_le_mul_right _ (Nat.le_of_lt ((Nat.div_lt_iff_lt_mul hden).1 ?_))
          exact Nat.lt_log2_self
      _ = 2 ^ 53 * (den * 2 ^ (shift - scale)) := by
          rw [Nat.pow_succ, Nat.mul_right_comm, Nat.mul_right_comm _ 2, hbits]
          ring
  have happ : ofScaled negative num den scale =
      ofBody negative ((UInt64.ofNat shift <<< 52) + UInt64.ofNat
        (roundDiv (num * 2 ^ (scale - shift)) (den * 2 ^ (shift - scale)))) := by
    have hsub : (num / den).log2 + scale - 52 = shift := by omega
    rw [ofScaled, if_neg (by omega)]
    dsimp only
    rw [hsub, if_neg (by omega), Nat.shiftLeft_eq, Nat.shiftLeft_eq]
  rw [happ]
  exact hasUnits_pack negative hlarge (roundDiv_le hpos hupper) (le_roundDiv hpos hlower)

end Number

end Portugol
