import Mathlib.Order.Defs.Unbundled
import Portugol.Proofs.Units
import Portugol.Value.Operators

/-!
# The order of keys

Keys are compared by what they are first, and numbers, texts and truth values each in a way of
their own. That the comparison is a total order, and that keys which it finds equal are the same
key, is what dictionaries ask of their keys.

* `compare_text_eq_lt`: texts are in the order of their bytes.
* `Number.compare_position_eq_lt`: numbers are in the order of their bits, read as a sign and a
  magnitude.
* `ArrayKey.compare_eq_lt_iff`, `ArrayKey.isStrictTotalOrder_before`: what the comparison says,
  as a relation, and that it is a total order.
* `Value.toKey_eq_iff`: values have the same key exactly if the language takes them for equal,
  unless they are not numbers.
-/

namespace Portugol

/-! ## Texts by their bytes -/

/-- The bytes of a text. -/
def textBytes (s : String) : List UInt8 := s.toUTF8.data.toList

theorem textBytes_eq (s : String) : textBytes s = s.toList.flatMap String.utf8EncodeChar := by
  have hs : s.toUTF8 = s.toList.utf8Encode := by
    rw [String.toUTF8_eq_toByteArray, ← String.toByteArray_ofList, String.ofList_toList]
  rw [textBytes, hs, List.utf8Encode, List.toList_data_toByteArray]

/-- The bytes of a character are in front of those of a larger one, whatever follows them. -/
theorem utf8EncodeChar_append_lt {c d : Char} (h : c < d) (rest rest' : List UInt8) :
    String.utf8EncodeChar c ++ rest < String.utf8EncodeChar d ++ rest' := by
  have hlt : c.val.toNat < d.val.toNat := h
  have hbound : ∀ c : Char, c.val.toNat < 0x110000 := fun c =>
    c.valid.elim (fun h => Nat.lt_trans h (by decide)) And.right
  have hc := hbound c
  have hd := hbound d
  unfold String.utf8EncodeChar
  dsimp only
  -- As many cases as pairs of lengths; in each, the first digits that differ decide.
  split_ifs <;>
    simp (disch := omega) only [List.cons_append, List.nil_append, List.cons_lt_cons_iff,
      UInt8.lt_iff_toNat_lt, ← UInt8.toNat_inj, UInt8.toNat_ofNat', Nat.mod_eq_of_lt] <;>
    omega

theorem flatMap_utf8EncodeChar_lt {cs ds : List Char} (h : cs < ds) :
    cs.flatMap String.utf8EncodeChar < ds.flatMap String.utf8EncodeChar := by
  induction cs generalizing ds with
  | nil =>
    cases ds with
    | nil => exact absurd h (List.not_lt_nil _)
    | cons d ds =>
      obtain ⟨byte, rest, hd⟩ := List.exists_cons_of_ne_nil (@String.utf8EncodeChar_ne_nil d)
      rw [List.flatMap_cons, hd]
      exact List.nil_lt_cons byte _
  | cons c cs ih =>
    cases ds with
    | nil => exact absurd h (List.not_lt_nil _)
    | cons d ds =>
      rw [List.flatMap_cons, List.flatMap_cons]
      rcases List.cons_lt_cons_iff.1 h with hlt | ⟨rfl, hlt⟩
      · exact utf8EncodeChar_append_lt hlt _ _
      · exact List.append_left_lt (ih hlt)

theorem textBytes_lt_of_compare {s t : String} (h : compare s t = .lt) :
    textBytes s < textBytes t := by
  rw [textBytes_eq, textBytes_eq]
  exact flatMap_utf8EncodeChar_lt (String.lt_iff.1 (compareOfLessAndEq_eq_lt.1 h))

/-- Texts are in the order of their bytes. -/
theorem compare_text_eq_lt {s t : String} : compare s t = .lt ↔ textBytes s < textBytes t := by
  refine ⟨textBytes_lt_of_compare, fun h => ?_⟩
  cases hc : compare s t with
  | lt => rfl
  | eq =>
    rw [Std.LawfulEqOrd.eq_of_compare hc] at h
    exact absurd h (List.lt_irrefl _)
  | gt => exact absurd h (List.lt_asymm (textBytes_lt_of_compare (Std.OrientedCmp.lt_of_gt hc)))

/-! ## Numbers by their bits -/

namespace Number

/-- The bits of a number as a sign and a magnitude: those with the sign bit are in front, from
    the largest magnitude to the smallest. -/
def signMagnitude (x : Number) : Int :=
  if x.negative then -(x.body.toNat : Int) - 1 else x.body.toNat

theorem toNat_position (x : Number) : (x.position.toNat : Int) = 2 ^ 63 + x.signMagnitude := by
  have hbits := x.bits_eq
  have hbody := x.toNat_body_lt
  rw [position, signMagnitude]
  cases hsign : x.negative with
  | true =>
    rw [hsign, if_pos rfl] at hbits
    rw [if_pos rfl, if_pos rfl, UInt64.toNat_not]
    simp only [UInt64.size]
    omega
  | false =>
    rw [hsign, if_neg Bool.false_ne_true] at hbits
    rw [if_neg Bool.false_ne_true, if_neg Bool.false_ne_true]
    simp only [UInt64.toNat_add, UInt64.reduceToNat]
    omega

theorem signMagnitude_injective {x y : Number} (h : x.signMagnitude = y.signMagnitude) :
    x = y := by
  have hx := x.bits_eq
  have hy := y.bits_eq
  have hbits : x.bits.toNat = y.bits.toNat := by
    rw [signMagnitude, signMagnitude] at h
    cases hsign : x.negative <;> cases hsign' : y.negative <;>
      simp only [hsign, hsign', if_true, Bool.false_eq_true, if_false] at h hx hy <;> omega
  cases x
  cases y
  exact congrArg Number.mk (UInt64.toNat_inj.1 hbits)

theorem compare_position_eq_lt {x y : Number} :
    compare x.position y.position = .lt ↔ x.signMagnitude < y.signMagnitude := by
  have hx := x.toNat_position
  have hy := y.toNat_position
  rw [Std.compare_eq_lt, UInt64.lt_iff_toNat_lt]
  omega

theorem eq_of_compare_position {x y : Number} (h : compare x.position y.position = .eq) :
    x = y := by
  have hx := x.toNat_position
  have hy := y.toNat_position
  rw [Std.LawfulEqOrd.eq_of_compare h] at hx
  exact signMagnitude_injective (by omega)

end Number

/-! ## Keys -/

namespace ArrayKey

/-- The order of keys: numbers by their bits, then texts by their bytes, then truth values. -/
inductive Before : ArrayKey → ArrayKey → Prop
  | numbers {a b : Number} : a.signMagnitude < b.signMagnitude → Before (number a) (number b)
  | numberText (a : Number) (s : String) : Before (number a) (text s)
  | numberLogical (a : Number) (p : Bool) : Before (number a) (logical p)
  | texts {s t : String} : textBytes s < textBytes t → Before (text s) (text t)
  | textLogical (s : String) (p : Bool) : Before (text s) (logical p)
  | logicals : Before (logical false) (logical true)

theorem compare_eq_lt_iff {a b : ArrayKey} : compare a b = .lt ↔ Before a b := by
  constructor
  · intro h
    cases a <;> cases b
    case number.number => exact .numbers (Number.compare_position_eq_lt.1 h)
    case text.text => exact .texts (compare_text_eq_lt.1 h)
    case logical.logical p q =>
      cases p <;> cases q <;> first | exact .logicals | exact absurd h (by decide)
    all_goals first | constructor | cases h
  · rintro (h | _ | _ | h | _ | _)
    · exact Number.compare_position_eq_lt.2 h
    · rfl
    · rfl
    · exact compare_text_eq_lt.2 h
    · rfl
    · rfl

theorem Before.trans {a b c : ArrayKey} (hab : Before a b) (hbc : Before b c) : Before a c := by
  cases hab with
  | numbers h => cases hbc with
    | numbers h' => exact .numbers (Int.lt_trans h h')
    | _ => constructor
  | texts h => cases hbc with
    | texts h' => exact .texts (List.lt_trans h h')
    | _ => constructor
  | _ => cases hbc <;> constructor

instance : Std.LawfulEqOrd ArrayKey where
  compare_self {a} := by
    cases a with
    | number n => exact @Std.ReflOrd.compare_self UInt64 _ _ _
    | text s => exact @Std.ReflOrd.compare_self String _ _ _
    | logical p => exact @Std.ReflOrd.compare_self Bool _ _ _
  eq_of_compare {a b} h := by
    cases a <;> cases b
    case number.number => exact congrArg number (Number.eq_of_compare_position h)
    case text.text => exact congrArg text (Std.LawfulEqOrd.eq_of_compare h)
    case logical.logical => exact congrArg logical (Std.LawfulEqOrd.eq_of_compare h)
    all_goals nomatch h

instance : Std.OrientedOrd ArrayKey where
  eq_swap {a b} := by
    cases a <;> cases b
    case number.number => exact @Std.OrientedOrd.eq_swap UInt64 _ _ _ _
    case text.text => exact @Std.OrientedOrd.eq_swap String _ _ _ _
    case logical.logical => exact @Std.OrientedOrd.eq_swap Bool _ _ _ _
    all_goals rfl

instance : Std.TransOrd ArrayKey where
  isLE_trans {a b c} hab hbc := by
    rw [Ordering.isLE_iff_eq_lt_or_eq_eq] at hab hbc ⊢
    rcases hab with hab | hab
    · rcases hbc with hbc | hbc
      · rw [compare_eq_lt_iff] at hab hbc ⊢
        exact .inl (hab.trans hbc)
      · exact .inl (Std.LawfulEqOrd.eq_of_compare hbc ▸ hab)
    · rw [Std.LawfulEqOrd.eq_of_compare hab]
      exact hbc

/-- The order of keys is a total one. -/
theorem isStrictTotalOrder_before : IsStrictTotalOrder ArrayKey Before where
  trichotomous a b hab hba := by
    cases hc : compare a b with
    | lt => exact absurd (compare_eq_lt_iff.1 hc) hab
    | eq => exact Std.LawfulEqOrd.eq_of_compare hc
    | gt => exact absurd (compare_eq_lt_iff.1 (Std.OrientedCmp.lt_of_gt hc)) hba
  irrefl a h := by
    have hlt := compare_eq_lt_iff.2 h
    rw [Std.ReflOrd.compare_self] at hlt
    nomatch hlt
  trans _ _ _ := Before.trans

end ArrayKey

/-! ## Keys of values -/

namespace Number

variable {x y : Number}

theorem isZero_iff_body : x.isZero = true ↔ x.body.toNat = 0 := by
  rw [isZero, decide_eq_true_iff, ← UInt64.toNat_inj]
  rfl

/-- Only the two zeros have the same rank. -/
theorem rank_eq_iff : x.rank = y.rank ↔ x = y ∨ x.isZero = true ∧ y.isZero = true := by
  rw [isZero_iff_body, isZero_iff_body, ← UInt64.toNat_inj, toNat_rank, toNat_rank]
  have hx := x.toNat_body_lt
  have hy := y.toNat_body_lt
  constructor
  · intro h
    by_cases hzero : x.body.toNat = 0 ∧ y.body.toNat = 0
    · exact .inr hzero
    · refine .inl (signMagnitude_injective ?_)
      rw [signMagnitude, signMagnitude]
      cases hsign : x.negative <;> cases hsign' : y.negative <;>
        simp only [hsign, hsign', if_true, Bool.false_eq_true, if_false] at h ⊢ <;> omega
  · rintro (rfl | ⟨hx, hy⟩)
    · rfl
    · rw [hx, hy]
      split <;> split <;> rfl

theorem eq_iff (hx : x.isNaN = false) (hy : y.isNaN = false) :
    x.eq y = true ↔ x = y ∨ x.isZero = true ∧ y.isZero = true := by
  rw [eq, hx, hy, Bool.not_false, Bool.true_and, Bool.true_and, decide_eq_true_iff, rank_eq_iff]

/-- Zero has no sign as a key, and other numbers are their own keys. -/
theorem ofNumber_eq (n : Number) :
    ArrayKey.ofNumber n = .number (if n = zero true then zero false else n) := by
  rw [ArrayKey.ofNumber]
  by_cases hzero : n.isZero = true
  · rw [if_pos hzero]
    have hbody := isZero_iff_body.1 hzero
    cases hsign : n.negative with
    | true =>
      have hn : n = zero true :=
        signMagnitude_injective (by rw [signMagnitude, hsign, hbody]; decide)
      rw [if_pos hn]
    | false =>
      have hn : n = zero false :=
        signMagnitude_injective (by rw [signMagnitude, hsign, hbody]; decide)
      rw [hn, if_neg (by decide)]
  · have hn : n ≠ zero true := by
      rintro rfl
      exact hzero (by decide)
    rw [if_neg hzero, if_neg hn]

end Number

theorem ArrayKey.ofNumber_eq_iff {x y : Number} :
    ofNumber x = ofNumber y ↔ x = y ∨ x.isZero = true ∧ y.isZero = true := by
  have hzero : (Number.zero false).isZero = true := by decide
  rw [ofNumber, ofNumber, number.injEq]
  constructor
  · intro h
    by_cases hx : x.isZero = true
    · by_cases hy : y.isZero = true
      · exact .inr ⟨hx, hy⟩
      · rw [if_pos hx, if_neg hy] at h
        exact absurd (h ▸ hzero) hy
    · by_cases hy : y.isZero = true
      · rw [if_neg hx, if_pos hy] at h
        exact absurd (h ▸ hzero) hx
      · rw [if_neg hx, if_neg hy] at h
        exact .inl h
  · rintro (rfl | ⟨hx, hy⟩)
    · rfl
    · rw [if_pos hx, if_pos hy]

/-- Values that have the same key are those that the language takes for equal. -/
theorem Value.toKey_eq_iff {a b : Value} {key key' : ArrayKey} (ha : a.toKey = .ok key)
    (hb : b.toKey = .ok key') (hna : ∀ n, a = number n → n.isNaN = false)
    (hnb : ∀ n, b = number n → n.isNaN = false) : key = key' ↔ a.eq b = true := by
  cases a <;> cases b <;> cases ha <;> cases hb
  case number.number x y =>
    rw [Value.eq, Number.eq_iff (hna x rfl) (hnb y rfl), ArrayKey.ofNumber_eq_iff]
  all_goals simp [Value.eq, ArrayKey.ofNumber]

end Portugol
