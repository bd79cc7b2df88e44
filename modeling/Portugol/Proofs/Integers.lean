import Portugol.Proofs.Units

/-!
# Integers among the numbers

Up to `2 ^ 53`, every integer is a number, and as long as operands and result are such integers
the operations are exact.

* `Is`: the number is an integer, which may be zero with either sign.
* `Is.add`, `Is.sub`, `Is.rem`, `le_eq`: sums, differences, remainders and the order are those
  of the integers.
* `is_trunc`, `is_floor`: the integer part and the floor of any finite number are the integers
  that they should be.
-/

namespace Portugol.Number

variable {x y : Number} {negative negative' : Bool} {k l : Nat} {a b : Int}

/-! ## Integers -/

/-- The units of the number one. -/
def oneUnits : Nat := 2 ^ oneShift

/-- The integer with this sign and this magnitude. -/
def signedInt (negative : Bool) (n : Nat) : Int := if negative then -n else n

/-- The number is this integer. -/
def Is (x : Number) (n : Int) : Prop := x.isFinite = true ∧ x.units = n * oneUnits

theorem oneUnits_pos : 0 < oneUnits := Nat.two_pow_pos _

theorem units_eq_signedInt (x : Number) : x.units = signedInt x.negative x.magnitude := rfl

theorem signedInt_mul (negative : Bool) (n m : Nat) :
    signedInt negative (n * m) = signedInt negative n * m := by
  cases negative <;> simp [signedInt]

theorem natAbs_signedInt (negative : Bool) (n : Nat) : (signedInt negative n).natAbs = n := by
  cases negative <;> simp [signedInt]

theorem HasUnits.is (h : x.HasUnits negative (k * oneUnits)) : x.Is (signedInt negative k) :=
  ⟨h.isFinite, by rw [units_eq_signedInt, h.negative, h.magnitude, signedInt_mul]⟩

/-- The sign and the units of a number that is an integer. -/
theorem Is.hasUnits (h : x.Is a) :
    ∃ negative k, a = signedInt negative k ∧ x.HasUnits negative (k * oneUnits) := by
  obtain ⟨hfinite, hunits⟩ := h
  have hmagnitude : x.magnitude = a.natAbs * oneUnits := by
    have habs := congrArg Int.natAbs hunits
    rwa [units_eq_signedInt, natAbs_signedInt, Int.natAbs_mul] at habs
  refine ⟨x.negative, a.natAbs, ?_, hfinite, rfl, hmagnitude⟩
  -- The integer and its number of units have the same sign.
  rw [units_eq_signedInt, hmagnitude, signedInt_mul] at hunits
  exact (Int.eq_of_mul_eq_mul_right (Int.natCast_ne_zero.2 oneUnits_pos.ne') hunits).symm

theorem le_eq (hx : x.Is a) (hy : y.Is b) : x.le y = decide (a ≤ b) := by
  rw [le_eq_decide hx.1 hy.1, hx.2, hy.2]
  exact decide_eq_decide.2 (mul_le_mul_iff_left₀ (Int.natCast_pos.2 oneUnits_pos))

/-- Natural numbers up to `2 ^ 53` are numbers. -/
theorem hasUnits_ofNat (negative : Bool) {n : Nat} (h : n ≤ 2 ^ 53) :
    (ofNat negative n).HasUnits negative (n * oneUnits) := by
  rcases Nat.eq_zero_or_pos n with rfl | hpos
  · rw [Nat.zero_mul]
    exact hasUnits_zero negative
  · have hlog : n.log2 < 54 :=
      (Nat.log2_lt hpos.ne').2 (Nat.lt_of_le_of_lt h (by decide))
    have hshift : (n / 1).log2 + oneShift = (n.log2 + 1022) + 52 := by
      rw [Nat.div_one, oneShift]
    have hunits := hasUnits_ofScaled negative Nat.one_pos hpos hshift (by omega)
    -- There are no more than fifty-three bits, or the last one is zero.
    have hexact : 2 ^ (n.log2 + 1022 - oneShift) ∣ n := by
      rw [oneShift]
      rcases Nat.lt_or_ge n (2 ^ 53) with hlt | hge
      · have hbits : n.log2 < 53 := (Nat.log2_lt hpos.ne').2 hlt
        rw [show n.log2 + 1022 - 1074 = 0 by omega]
        exact one_dvd n
      · obtain rfl : n = 2 ^ 53 := Nat.le_antisymm h hge
        rw [Nat.log2_two_pow]
        exact Nat.pow_dvd_pow 2 (by decide)
    rw [ofNat, oneUnits, ← roundDiv_shift hexact]
    exact hunits

theorem is_ofNat (negative : Bool) {n : Nat} (h : n ≤ 2 ^ 53) :
    (ofNat negative n).Is (signedInt negative n) :=
  (hasUnits_ofNat negative h).is

theorem is_one : (1 : Number).Is 1 := is_ofNat false (by decide)

theorem is_ofInt {n : Int} (h : n.natAbs ≤ 2 ^ 53) : (ofInt n).Is n := by
  have hsigned : signedInt (decide (n < 0)) n.natAbs = n := by
    rw [signedInt]
    split <;> rename_i hneg <;> simp only [decide_eq_true_eq] at hneg <;> omega
  have his := is_ofNat (decide (n < 0)) h
  rwa [hsigned] at his

/-! ## Whole numbers and integer parts -/

theorem oneUnits_eq_of_shift_le (h : x.shift ≤ oneShift) :
    oneUnits = 2 ^ (oneShift - x.shift) * 2 ^ x.shift := by
  rw [oneUnits, ← Nat.pow_add, Nat.sub_add_cancel h]

theorem isWhole_iff : x.isWhole = true ↔ oneUnits ∣ x.magnitude := by
  rw [isWhole, decide_eq_true_iff, Nat.one_shiftLeft, ← Nat.dvd_iff_mod_eq_zero, magnitude_eq]
  rcases Nat.le_total x.shift oneShift with h | h
  · rw [oneUnits_eq_of_shift_le h, Nat.mul_dvd_mul_iff_right (Nat.two_pow_pos _)]
  · rw [Nat.sub_eq_zero_of_le h, Nat.pow_zero]
    exact ⟨fun _ => Nat.dvd_mul_left_of_dvd (Nat.pow_dvd_pow 2 h) _, fun _ => Nat.one_dvd _⟩

/-- The bits of the fraction before the point are the integer part of the magnitude. -/
theorem fraction_shiftRight (h : x.shift ≤ oneShift) :
    x.fraction >>> (oneShift - x.shift) = x.magnitude / oneUnits := by
  rw [Nat.shiftRight_eq_div_pow, magnitude_eq, oneUnits_eq_of_shift_le h,
    Nat.mul_div_mul_right _ _ (Nat.two_pow_pos _)]

theorem shift_le_of_not_isWhole (h : x.isWhole = false) : x.shift ≤ oneShift := by
  refine Nat.le_of_not_lt fun hlt => Bool.false_ne_true (h.symm.trans (isWhole_iff.2 ?_))
  rw [magnitude_eq]
  exact Nat.dvd_mul_left_of_dvd (Nat.pow_dvd_pow 2 hlt.le) _

/-- The integer part has no more bits than a fraction. -/
theorem magnitude_div_lt (h : x.shift ≤ oneShift) : x.magnitude / oneUnits < 2 ^ 53 := by
  rw [← fraction_shiftRight h, Nat.shiftRight_eq_div_pow]
  exact Nat.lt_of_le_of_lt (Nat.div_le_self _ _) x.fraction_lt

/-- Integers below `2 ^ 53` are counted in ones. -/
theorem HasUnits.counted_eq (h : x.HasUnits negative (k * oneUnits)) (hk : k < 2 ^ 53) :
    x.counted = (k, oneShift) := by
  have hwhole : x.isWhole = true := isWhole_iff.2 (h.magnitude ▸ Nat.dvd_mul_left _ _)
  have hshift : x.shift ≤ oneShift := by
    -- Otherwise the leading one alone would make it too large.
    refine Nat.le_of_not_lt fun hlt => Nat.not_le.2 hk ?_
    have hfraction := le_fraction_of_shift_pos (Nat.zero_lt_of_lt hlt)
    refine Nat.le_of_mul_le_mul_right ?_ oneUnits_pos
    calc 2 ^ 53 * oneUnits = 2 ^ 52 * 2 ^ (oneShift + 1) := by rw [oneUnits]; ring
      _ ≤ x.fraction * 2 ^ x.shift :=
        Nat.mul_le_mul hfraction (Nat.pow_le_pow_right (by decide) hlt)
      _ = k * oneUnits := by rw [← magnitude_eq, h.magnitude]
  rw [counted, if_pos hwhole, fraction_shiftRight hshift, h.magnitude,
    Nat.mul_div_cancel _ oneUnits_pos, Nat.max_eq_left hshift]

theorem signedInt_tdiv (negative : Bool) (n m : Nat) :
    (signedInt negative n).tdiv m = signedInt negative (n / m) := by
  cases negative with
  | false => rfl
  | true => simp only [signedInt, if_true, Int.neg_tdiv, Int.ofNat_tdiv]

/-- The floor of a negative number is below its integer part, unless it is whole. -/
theorem signedInt_ediv (negative : Bool) (n m : Nat) (hm : 0 < m) :
    signedInt negative n / m =
      signedInt negative (n / m + if negative && decide ¬m ∣ n then 1 else 0) := by
  cases negative with
  | false => simp [signedInt]
  | true =>
    have hsign : (m : Int).sign = 1 := Int.sign_eq_one_of_pos (Int.natCast_pos.2 hm)
    by_cases h : m ∣ n
    · simp [signedInt, Int.neg_ediv, Int.natCast_dvd_natCast, h]
    · simp [signedInt, Int.neg_ediv, Int.natCast_dvd_natCast, h, hsign]
      omega

/-- A whole number is an integer, however it is divided by one. -/
theorem is_of_isWhole (h : x.isFinite = true) (hwhole : x.isWhole = true) :
    x.Is (x.units.tdiv oneUnits) ∧ x.Is (x.units / oneUnits) := by
  have hdvd : (oneUnits : Int) ∣ x.units :=
    Int.natCast_dvd.2 (by rw [units_eq_signedInt, natAbs_signedInt]; exact isWhole_iff.1 hwhole)
  exact ⟨⟨h, (Int.tdiv_mul_cancel hdvd).symm⟩, ⟨h, (Int.ediv_mul_cancel hdvd).symm⟩⟩

/-- The integer part of a number is the first integer on the way to zero. -/
theorem is_trunc (h : x.isFinite = true) : x.trunc.Is (x.units.tdiv oneUnits) := by
  rw [trunc, isNaN_of_isFinite h, isInfinite_of_isFinite h, Bool.false_or]
  simp only [Bool.false_eq_true, if_false]
  cases hwhole : x.isWhole with
  | true => exact (is_of_isWhole h hwhole).1
  | false =>
    have hshift := shift_le_of_not_isWhole hwhole
    rw [if_neg Bool.false_ne_true, fraction_shiftRight hshift, units_eq_signedInt, signedInt_tdiv]
    exact is_ofNat x.negative (magnitude_div_lt hshift).le

/-- The floor of a number is the largest integer that is not above it. -/
theorem is_floor (h : x.isFinite = true) : x.floor.Is (x.units / oneUnits) := by
  rw [floor, isNaN_of_isFinite h, isInfinite_of_isFinite h, Bool.false_or]
  simp only [Bool.false_eq_true, if_false]
  cases hwhole : x.isWhole with
  | true => exact (is_of_isWhole h hwhole).2
  | false =>
    have hshift := shift_le_of_not_isWhole hwhole
    have hlt := magnitude_div_lt hshift
    have hdvd : ¬oneUnits ∣ x.magnitude := fun hdvd =>
      Bool.false_ne_true (hwhole.symm.trans (isWhole_iff.2 hdvd))
    rw [if_neg Bool.false_ne_true, fraction_shiftRight hshift, units_eq_signedInt,
      signedInt_ediv _ _ _ oneUnits_pos, decide_eq_true hdvd, Bool.and_true]
    cases x.negative with
    | true => exact is_ofNat true hlt
    | false => exact is_ofNat false hlt.le

/-! ## Arithmetic -/

theorem Is.neg (h : x.Is a) : (-x).Is (-a) := by
  have hbody := x.toNat_body_lt
  have hneg : (-x).negative = !x.negative := negative_ofBody _ hbody
  have hsame : (-x).body = x.body := body_ofBody _ hbody
  refine ⟨?_, ?_⟩
  · rw [isFinite, hsame]
    exact h.1
  · rw [Int.neg_mul, ← h.2, units_eq_signedInt, units_eq_signedInt, magnitude_eq_bodyUnits,
      magnitude_eq_bodyUnits, hneg, hsame]
    cases x.negative <;> simp [signedInt]

theorem onNumbers_of_is (op : Number → Number → Number) (hx : x.Is a) (hy : y.Is b) :
    onNumbers op x y = op x y := by
  rw [onNumbers, isNaN_of_isFinite hx.1, isNaN_of_isFinite hy.1]
  simp only [Bool.false_eq_true, if_false]

theorem is_ofNat_of_eq {n : Nat} (h : signedInt negative n = a) (ha : a.natAbs ≤ 2 ^ 53) :
    (ofNat negative n).Is a := by
  subst h
  exact is_ofNat negative (natAbs_signedInt negative n ▸ ha)

theorem is_addNumbers (hx : x.Is a) (hy : y.Is b) (ha : a.natAbs < 2 ^ 53) (hb : b.natAbs < 2 ^ 53)
    (hab : (a + b).natAbs ≤ 2 ^ 53) : (addNumbers x y).Is (a + b) := by
  obtain ⟨sign, k, rfl, hk⟩ := hx.hasUnits
  obtain ⟨sign', l, rfl, hl⟩ := hy.hasUnits
  rw [natAbs_signedInt] at ha hb
  have happ : addNumbers x y =
      if sign = sign' then ofNat sign (k + l)
      else if l < k then ofNat sign (k - l)
      else if k < l then ofNat sign' (l - k)
      else ofNat false 0 := by
    rw [addNumbers, isInfinite_of_isFinite hx.1, isInfinite_of_isFinite hy.1, hk.counted_eq ha,
      hl.counted_eq hb, hk.negative, hl.negative]
    simp only [Bool.false_eq_true, if_false, Nat.min_self, Nat.sub_self, Nat.shiftLeft_zero]
    rfl
  rw [happ]
  split_ifs with hsame hlt hgt
  · subst hsame
    refine is_ofNat_of_eq ?_ hab
    cases sign with
    | false => rfl
    | true =>
      simp only [signedInt, if_true]
      omega
  all_goals
    refine is_ofNat_of_eq ?_ hab
    cases sign <;> cases sign' <;> simp [signedInt] at hsame ⊢ <;> omega

/-- The sum of integers is exact. -/
theorem Is.add (hx : x.Is a) (hy : y.Is b) (ha : a.natAbs < 2 ^ 53) (hb : b.natAbs < 2 ^ 53)
    (hab : (a + b).natAbs ≤ 2 ^ 53) : (x + y).Is (a + b) := by
  have happ : x + y = addNumbers x y := onNumbers_of_is addNumbers hx hy
  rw [happ]
  exact is_addNumbers hx hy ha hb hab

/-- The difference of integers is exact. -/
theorem Is.sub (hx : x.Is a) (hy : y.Is b) (ha : a.natAbs < 2 ^ 53) (hb : b.natAbs < 2 ^ 53)
    (hab : (a - b).natAbs ≤ 2 ^ 53) : (x - y).Is (a - b) := by
  have happ : x - y = addNumbers x (-y) := onNumbers_of_is (fun x y => addNumbers x y.neg) hx hy
  rw [happ, Int.sub_eq_add_neg]
  exact is_addNumbers hx hy.neg ha (by rwa [Int.natAbs_neg]) hab

theorem Is.isZero_iff (h : x.Is a) : x.isZero = true ↔ a = 0 := by
  obtain ⟨negative, k, rfl, hk⟩ := h.hasUnits
  rw [Number.isZero_iff, hk.magnitude, Nat.mul_eq_zero, or_iff_left oneUnits_pos.ne',
    ← Int.natAbs_eq_zero, natAbs_signedInt]

/-- The remainder of integers is exact, and has the sign of the dividend. -/
theorem Is.rem (hx : x.Is a) (hy : y.Is b) (ha : a.natAbs < 2 ^ 53) (hb : b.natAbs < 2 ^ 53)
    (hne : b ≠ 0) : (x.rem y).Is (a.tmod b) := by
  have hzero : y.isZero = false := Bool.eq_false_iff.2 fun h => hne (hy.isZero_iff.1 h)
  obtain ⟨sign, k, rfl, hk⟩ := hx.hasUnits
  obtain ⟨sign', l, rfl, hl⟩ := hy.hasUnits
  rw [natAbs_signedInt] at ha hb
  have happ : x.rem y = ofNat sign (k % l) := by
    rw [Number.rem, onNumbers_of_is _ hx hy, remNumbers, isInfinite_of_isFinite hx.1,
      isInfinite_of_isFinite hy.1, hk.counted_eq ha, hl.counted_eq hb, hk.negative, hzero]
    simp only [Bool.false_eq_true, if_false, Bool.or_false, Nat.min_self, Nat.sub_self,
      Nat.shiftLeft_zero]
    rfl
  have htmod : signedInt sign (k % l) = (signedInt sign k).tmod (signedInt sign' l) := by
    cases sign <;> cases sign' <;> simp [signedInt, Int.tmod_eq_emod_of_nonneg]
  rw [happ, ← htmod]
  exact is_ofNat sign (Nat.le_trans (Nat.mod_le k l) ha.le)

end Portugol.Number
