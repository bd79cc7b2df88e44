import Portugol.Proofs.Integers
import Portugol.Value.Operators

/-!
# Quotients and remainders of integers

`DIV` is the floor of the quotient of two numbers, which is rounded before. Below `2 ^ 53` this
makes no difference: the quotient of integers is so far from the next integer that it is not
rounded to it (`roundDiv_div`). `MOD` is the remainder of the quotient that is cut towards zero.
So the two belong together only if nothing is cut, or if both operands have the same sign.

* `Number.Is.floor_div`: the floor of the rounded quotient of integers is that of the exact one.
* `Value.binary_floorDiv_mod`: what `DIV` and `MOD` are, and what they make up together.
-/

namespace Portugol

section Ratio

variable {num den d p q : Nat} (hden : 0 < den) (hratio : num * q = p * d * den)

include hden hratio

theorem le_two_mul_roundDiv_mul : 2 * (p * d) ≤ 2 * (roundDiv num den * q) + q := by
  refine Nat.le_of_mul_le_mul_right ?_ hden
  calc 2 * (p * d) * den = 2 * num * q := by rw [Nat.mul_assoc 2, ← hratio]; ring
    _ ≤ (2 * (roundDiv num den * den) + den) * q :=
      Nat.mul_le_mul_right _ (le_two_mul_roundDiv hden num)
    _ = (2 * (roundDiv num den * q) + q) * den := by ring

theorem two_mul_roundDiv_mul_le : 2 * (roundDiv num den * q) ≤ 2 * (p * d) + q := by
  refine Nat.le_of_mul_le_mul_right ?_ hden
  calc 2 * (roundDiv num den * q) * den = 2 * (roundDiv num den * den) * q := by ring
    _ ≤ (2 * num + den) * q := Nat.mul_le_mul_right _ (two_mul_roundDiv_le num den)
    _ = 2 * (num * q) + q * den := by ring
    _ = (2 * (p * d) + q) * den := by rw [hratio]; ring

/-- A quotient `num / den` that is rounded to an integer, where it is `d` times the quotient
    `p / q`. If `q` is small enough, the multiples of `d` around it are so far away that it is
    rounded to one of them only if it is one. -/
theorem roundDiv_div (hq : 0 < q) (hgap : q < 2 * d) :
    roundDiv num den / d = p / q ∧ (d ∣ roundDiv num den ↔ q ∣ p) := by
  have hp := Nat.div_add_mod' p q
  have hmod := Nat.mod_lt p hq
  have hbelow := le_two_mul_roundDiv_mul hden hratio
  have habove := two_mul_roundDiv_mul_le hden hratio
  have hlower : p / q * d ≤ roundDiv num den := by
    refine le_roundDiv hden (Nat.le_of_mul_le_mul_right ?_ hq)
    rw [hratio]
    calc p / q * d * den * q = p / q * q * (d * den) := by ring
      _ ≤ p * (d * den) := Nat.mul_le_mul_right _ (by omega)
      _ = p * d * den := by ring
  have hupper : roundDiv num den < (p / q + 1) * d := by
    refine Nat.lt_of_not_le fun hle => ?_
    -- One more than `p` is no more than `q` times the next integer, which is `q` too far.
    have hnext : (p + 1) * d ≤ roundDiv num den * q := by
      calc (p + 1) * d ≤ (p / q + 1) * q * d := Nat.mul_le_mul_right _ (by
            rw [Nat.succ_mul]; omega)
        _ = (p / q + 1) * d * q := by ring
        _ ≤ roundDiv num den * q := Nat.mul_le_mul_right _ hle
    rw [Nat.succ_mul] at hnext
    omega
  have hquotient : roundDiv num den / d = p / q :=
    Nat.div_eq_of_lt_le hlower hupper
  refine ⟨hquotient, fun hdvd => ?_, ?_⟩
  · -- A multiple of `d` is `p / q` times `d`, and `p` leaves no remainder.
    have hround : roundDiv num den = p / q * d := by rw [← hquotient, Nat.div_mul_cancel hdvd]
    refine Nat.dvd_of_mod_eq_zero (Nat.eq_zero_of_not_pos fun hpos => ?_)
    have hnext : (p / q * q + 1) * d ≤ p * d := Nat.mul_le_mul_right _ (by omega)
    rw [Nat.succ_mul] at hnext
    have hcomm : p / q * d * q = p / q * q * d := by ring
    rw [hround, hcomm] at hbelow
    omega
  · rintro ⟨c, rfl⟩
    have hnum : num = c * d * den := Nat.eq_of_mul_eq_mul_right hq (by rw [hratio]; ring)
    rw [hnum, roundDiv_mul hden]
    exact Nat.dvd_mul_left _ _

end Ratio

/-- The bits of a quotient of natural numbers below `2 ^ 53`, taken fifty-four places behind the
    point: what is left of the places in front of it is wide enough for the divisor. -/
theorem log2_quotient {k l : Nat} (hk : k < 2 ^ 53) (hpos : 0 < l) (hle : l ≤ k * 2 ^ 54) :
    (k * 2 ^ 54 / l).log2 ≤ 106 ∧ l < 2 * 2 ^ (106 - (k * 2 ^ 54 / l).log2) := by
  have hquotient : k * 2 ^ 54 / l ≠ 0 := (Nat.div_pos hle hpos).ne'
  have hleading : 2 ^ (k * 2 ^ 54 / l).log2 * l ≤ k * 2 ^ 54 :=
    (Nat.le_div_iff_mul_le hpos).1 (Nat.log2_self_le hquotient)
  have hbits : (k * 2 ^ 54 / l).log2 < 107 := by
    refine (Nat.log2_lt hquotient).2 (Nat.lt_of_le_of_lt (Nat.div_le_self _ _) ?_)
    omega
  refine ⟨Nat.le_of_lt_succ hbits, ?_⟩
  generalize (k * 2 ^ 54 / l).log2 = bits at hleading hbits
  refine @Nat.lt_of_mul_lt_mul_left (2 ^ bits) _ _ (Nat.lt_of_le_of_lt hleading ?_)
  calc k * 2 ^ 54 < 2 ^ 53 * 2 ^ 54 := Nat.mul_lt_mul_of_pos_right hk (Nat.two_pow_pos _)
    _ = 2 ^ bits * (2 * 2 ^ (106 - bits)) := by
      rw [← Nat.pow_succ', ← Nat.pow_add, ← Nat.pow_add]
      exact congrArg (2 ^ ·) (by omega)

namespace Number

variable {x y : Number} {a b : Int}

/-- The number nearest to a quotient of natural numbers below `2 ^ 53`, as it is computed: it
    has the integer part of the exact quotient, and it is whole only if this is. -/
theorem hasUnits_quotient (negative : Bool) {k l : Nat} (hk : k < 2 ^ 53) (hl : l < 2 ^ 53)
    (hpos : 0 < l) :
    ∃ units, (ofScaled negative (k * 2 ^ 54) l 1020).HasUnits negative units ∧
      units / oneUnits = k / l ∧ (oneUnits ∣ units ↔ l ∣ k) := by
  rcases Nat.eq_zero_or_pos k with rfl | hk0
  · refine ⟨0, ?_, by rw [Nat.zero_div, Nat.zero_div], by simp⟩
    rw [Nat.zero_mul]
    exact hasUnits_zero negative
  · have hle : l ≤ k * 2 ^ 54 := by omega
    obtain ⟨hbits, hgap⟩ := log2_quotient hk hpos hle
    have hunits := fun shift hshift => hasUnits_ofScaled negative hpos hle
      (show (k * 2 ^ 54 / l).log2 + 1020 = shift + 52 from hshift)
    generalize (k * 2 ^ 54 / l).log2 = bits at hbits hgap hunits
    refine ⟨_, hunits (bits + 968) (by omega) (by omega), ?_⟩
    -- The rounded quotient has `106 - bits` bits behind the point.
    have hone : oneUnits = 2 ^ (106 - bits) * 2 ^ (bits + 968) := by
      rw [← Nat.pow_add, oneUnits, oneShift]
      exact congrArg (2 ^ ·) (by omega)
    have hpow : 2 ^ 54 * 2 ^ (1020 - (bits + 968)) =
        2 ^ (106 - bits) * 2 ^ (bits + 968 - 1020) := by
      rw [← Nat.pow_add, ← Nat.pow_add]
      exact congrArg (2 ^ ·) (by omega)
    have hratio : k * 2 ^ 54 * 2 ^ (1020 - (bits + 968)) * l =
        k * 2 ^ (106 - bits) * (l * 2 ^ (bits + 968 - 1020)) := by
      rw [Nat.mul_assoc k, hpow]
      ring
    rw [hone, Nat.mul_div_mul_right _ _ (Nat.two_pow_pos _),
      Nat.mul_dvd_mul_iff_right (Nat.two_pow_pos _)]
    exact roundDiv_div (Nat.mul_pos hpos (Nat.two_pow_pos _)) hratio hpos hgap

theorem fdiv_signedInt (negative negative' : Bool) (k l : Nat) :
    (signedInt negative k).fdiv (signedInt negative' l) =
      signedInt (negative != negative') k / l := by
  have hfdiv : ∀ a : Int, a.fdiv l = a / l := fun a =>
    Int.fdiv_eq_ediv_of_nonneg a (Int.natCast_nonneg l)
  cases negative' with
  | false => cases negative <;> exact hfdiv _
  | true =>
    have hneg : ∀ a : Int, a.fdiv (-l) = -a / l := fun a => by
      rw [← hfdiv, ← Int.neg_fdiv_neg, Int.neg_neg]
    cases negative <;> simp [signedInt, hneg]

/-- The floor of the quotient of integers is that of the exact quotient. -/
theorem Is.floor_div (hx : x.Is a) (hy : y.Is b) (ha : a.natAbs < 2 ^ 53) (hb : b.natAbs < 2 ^ 53)
    (hne : b ≠ 0) : (x / y).floor.Is (a.fdiv b) := by
  have hzero : y.isZero = false := Bool.eq_false_iff.2 fun h => hne (hy.isZero_iff.1 h)
  obtain ⟨sign, k, rfl, hk⟩ := hx.hasUnits
  obtain ⟨sign', l, rfl, hl⟩ := hy.hasUnits
  rw [natAbs_signedInt] at ha hb
  have hpos : 0 < l := by
    rw [← natAbs_signedInt sign' l]
    exact Int.natAbs_pos.2 hne
  have happ : x / y = ofScaled (sign != sign') (k * 2 ^ 54) l 1020 := by
    have hdiv : x / y = divNumbers x y := onNumbers_of_is divNumbers hx hy
    rw [hdiv, divNumbers, isInfinite_of_isFinite hx.1, isInfinite_of_isFinite hy.1, hzero,
      hk.counted_eq ha, hl.counted_eq hb, hk.negative, hl.negative, ← Nat.shiftLeft_eq]
    simp only [Bool.false_eq_true, if_false, oneShift, Nat.reduceSub, Nat.reduceAdd,
      Nat.shiftLeft_zero]
  obtain ⟨units, hunits, hquotient, hdvd⟩ := hasUnits_quotient (sign != sign') ha hb hpos
  rw [happ]
  have hfloor := is_floor hunits.isFinite
  rw [units_eq_signedInt, hunits.negative, hunits.magnitude, signedInt_ediv _ _ _ oneUnits_pos,
    hquotient] at hfloor
  simp only [hdvd] at hfloor
  rwa [fdiv_signedInt, signedInt_ediv _ _ _ hpos]

/-- The floor of a quotient and the remainder of the quotient that is cut towards zero make up
    the dividend, unless there is a remainder and the signs differ: then they miss it by the
    divisor. -/
theorem fdiv_add_tmod (a b : Int) :
    b * a.fdiv b + a.tmod b = if b ∣ a ∨ 0 ≤ a * b then a else a - b := by
  have htrunc := Int.mul_tdiv_add_tmod a b
  rw [Int.fdiv_eq_tdiv]
  by_cases hdvd : b ∣ a
  · simpa [hdvd] using htrunc
  · have ha : a ≠ 0 := fun h => hdvd (h ▸ Int.dvd_zero b)
    rcases Int.lt_trichotomy b 0 with hb | rfl | hb
    · rcases Int.lt_or_lt_of_ne ha with ha | ha
      · have hsign : 0 ≤ a * b := (Int.mul_pos_of_neg_of_neg ha hb).le
        simpa [hdvd, hsign, Int.not_le.2 ha, Int.not_le.2 hb, Int.sign_eq_neg_one_of_neg hb]
          using htrunc
      · have hsign : ¬0 ≤ a * b := Int.not_le.2 (Int.mul_neg_of_pos_of_neg ha hb)
        simp only [hdvd, hsign, ha.le, Int.not_le.2 hb, if_true, if_false, or_self, Int.mul_sub]
        omega
    · simp
    · rcases Int.lt_or_lt_of_ne ha with ha | ha
      · have hsign : ¬0 ≤ a * b := Int.not_le.2 (Int.mul_neg_of_neg_of_pos ha hb)
        simp only [hdvd, hsign, hb.le, Int.not_le.2 ha, if_true, if_false, or_self, Int.mul_sub,
          Int.sign_eq_one_of_pos hb]
        omega
      · have hsign : 0 ≤ a * b := (Int.mul_pos ha hb).le
        simpa [hdvd, hsign, ha.le, hb.le] using htrunc

end Number

namespace Value

theorem division_of_is {x y : Number} {b : Int} (op : BinaryOp) (byZero : Cause)
    (f : Number → Number → Number) (hy : y.Is b) (hne : b ≠ 0) :
    division op byZero f (number x) (number y) = .ok (number (f x y)) := by
  have hzero : y.isZero = false := Bool.eq_false_iff.2 fun h => hne (hy.isZero_iff.1 h)
  show (if y.isZero then _ else _) = _
  rw [hzero]
  rfl

/-- `DIV` and `MOD` of integers below `2 ^ 53` are exact: the floor of the quotient, and the
    remainder of the quotient that is cut towards zero. They make up the dividend if it is
    divided without a remainder or the signs agree, and else they make up the dividend less the
    divisor. -/
theorem binary_floorDiv_mod {x y : Number} {a b : Int} (hx : x.Is a) (hy : y.Is b)
    (ha : a.natAbs < 2 ^ 53) (hb : b.natAbs < 2 ^ 53) (hne : b ≠ 0) :
    ∃ (quotient remainder : Number) (q r : Int),
      binary .floorDiv (number x) (number y) = .ok (number quotient) ∧
      binary .mod (number x) (number y) = .ok (number remainder) ∧
      quotient.Is q ∧ remainder.Is r ∧
      q = a.fdiv b ∧ r = a.tmod b ∧ r.natAbs < b.natAbs ∧
      b * q + r = if b ∣ a ∨ 0 ≤ a * b then a else a - b := by
  refine ⟨(x / y).floor, x.rem y, a.fdiv b, a.tmod b,
    division_of_is _ _ (fun x y => (x / y).floor) hy hne, division_of_is _ _ Number.rem hy hne,
    hx.floor_div hy ha hb hne, hx.rem hy ha hb hne, rfl, rfl, ?_, Number.fdiv_add_tmod a b⟩
  rw [Int.natAbs_tmod]
  exact Nat.mod_lt _ (Int.natAbs_pos.2 hne)

/-- The largest dividend, whose quotient lies between two integers: `DIV` goes down. -/
theorem binary_floorDiv_mod_largest :
    ∃ (quotient remainder : Number) (q r : Int),
      binary .floorDiv (number (.ofInt 9007199254740991)) (number (.ofInt (-2))) =
        .ok (number quotient) ∧
      binary .mod (number (.ofInt 9007199254740991)) (number (.ofInt (-2))) =
        .ok (number remainder) ∧
      quotient.Is q ∧ remainder.Is r ∧
      q = (9007199254740991 : Int).fdiv (-2) ∧ r = (9007199254740991 : Int).tmod (-2) ∧
      r.natAbs < (-2 : Int).natAbs ∧
      -2 * q + r =
        if (-2 : Int) ∣ 9007199254740991 ∨ (0 : Int) ≤ 9007199254740991 * -2
        then 9007199254740991 else 9007199254740991 - -2 :=
  binary_floorDiv_mod (Number.is_ofInt (by decide)) (Number.is_ofInt (by decide)) (by decide)
    (by decide) (by decide)

/-- So `DIV` and `MOD` are no division with a remainder: for `-7` and `2` they are `-4` and
    `-1`. -/
theorem binary_floorDiv_mod_not_division :
    (Number.ofInt (-7)).Is (-7) ∧ (Number.ofInt 2).Is 2 ∧
      binary .floorDiv (number (.ofInt (-7))) (number (.ofInt 2)) = .ok (number (.ofInt (-4))) ∧
      binary .mod (number (.ofInt (-7))) (number (.ofInt 2)) = .ok (number (.ofInt (-1))) ∧
      (Number.ofInt (-4)).Is (-4) ∧ (Number.ofInt (-1)).Is (-1) ∧
      (2 : Int) * (-4) + (-1) ≠ -7 := by
  have his : ∀ {n : Int}, n.natAbs ≤ 7 → (Number.ofInt n).Is n := fun h =>
    Number.is_ofInt (h.trans (by decide))
  refine ⟨his (by decide), his (by decide), ?_, ?_, his (by decide), his (by decide), by decide⟩
  · refine (division_of_is _ _ (fun x y => (x / y).floor) (his (by decide)) (by decide)).trans ?_
    rw [show (Number.ofInt (-7) / Number.ofInt 2).floor = Number.ofInt (-4) by decide +kernel]
  · refine (division_of_is _ _ Number.rem (his (by decide)) (by decide)).trans ?_
    rw [show (Number.ofInt (-7)).rem (Number.ofInt 2) = Number.ofInt (-1) by decide +kernel]

end Value

end Portugol
