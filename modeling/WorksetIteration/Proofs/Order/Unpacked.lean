import WorksetIteration.Proofs.Order.ExactValue

/-!
# Floating-point numbers taken apart

The operations of floating-point numbers take them apart into sign, mantissa and exponent.  What they find there is what
the bit pattern denotes, and the mantissa is as long as it can be, so that the comparisons of floating-point numbers
are those of the exact values.

Main results:

- `Reading.ofUnpacked`: what a floating-point number that is taken apart denotes.
- `Reading.ofFloat_eq_ofUnpacked`: it denotes what the bit pattern does.
- `Reading.isWellFormed_ofBits`: the mantissa has all its bits, unless the exponent is the least one.
- `Reading.lt_iff_scaled`, `Reading.le_iff_scaled`: floating-point numbers compare as their exact values do.
-/

namespace WorksetIteration

open Float.Model (UnpackedFloat)
open Float.Model.UnpackedFloat

namespace BitPattern

theorem toNat_unpackExponent (bits : UInt64) :
    (@unpackExponent .binary64 bits.toBitVec).toNat = bits.toNat / 2 ^ 52 % 2 ^ 11 := by
  simp [unpackExponent, Nat.shiftRight_eq_div_pow]

theorem toNat_unpackMantissa (bits : UInt64) :
    (@unpackMantissa .binary64 bits.toBitVec).toNat = bits.toNat % 2 ^ 52 := by
  simp [unpackMantissa]

theorem toNat_unpackSign (bits : UInt64) :
    (@unpackSign .binary64 bits.toBitVec).toNat = bits.toNat / 2 ^ 63 := by
  have hbits := bits.toNat_lt
  change (bits.toBitVec.extractLsb 63 63).toNat = _
  rw [BitVec.extractLsb_toNat, Nat.shiftRight_eq_div_pow, UInt64.toNat_toBitVec]
  omega

end BitPattern

namespace Reading

/-- Whether a sign is that of a negative number. -/
def isNegative : Sign → Bool
  | .negative => true
  | .positive => false

/-- What a floating-point number that is taken apart denotes. -/
def ofUnpacked : UnpackedFloat → Reading
  | .notANumber => .nan
  | .infinity s => .infinite (isNegative s)
  | .zero s => .finite (isNegative s) 0 (-1074)
  | .finite s mantissa exponent _ => .finite (isNegative s) mantissa exponent

theorem isNegative_unpackSign (bits : UInt64) :
    isNegative (.ofBitVec (@unpackSign .binary64 bits.toBitVec)) = decide (2 ^ 63 ≤ bits.toNat) := by
  have hsign := BitPattern.toNat_unpackSign bits
  have hbits := bits.toNat_lt
  generalize @unpackSign .binary64 bits.toBitVec = s at hsign
  by_cases h : 2 ^ 63 ≤ bits.toNat
  · obtain rfl : s = 1#1 := BitVec.eq_of_toNat_eq (by rw [hsign, BitVec.toNat_ofNat]; omega)
    exact (decide_eq_true h).symm
  · obtain rfl : s = 0#1 := BitVec.eq_of_toNat_eq (by rw [hsign, BitVec.toNat_ofNat]; omega)
    exact (decide_eq_false h).symm

/-- The leading bit of a mantissa, which is not stored, put before the other ones. -/
theorem toNat_one_append (m : BitVec 52) : (1#1 ++ m).toNat = 2 ^ 52 + m.toNat := by
  rw [BitVec.toNat_append, ← Nat.shiftLeft_add_eq_or_of_lt m.isLt]
  rfl

/-- What is found in the three parts of a bit pattern. -/
theorem ofUnpacked_unpack (bits : BitVec 64) :
    ofUnpacked (unpack .binary64 bits) =
      let negative := isNegative (.ofBitVec (@unpackSign .binary64 bits))
      let exponent : BitVec 11 := @unpackExponent .binary64 bits
      let mantissa : BitVec 52 := @unpackMantissa .binary64 bits
      if exponent = -1#11 then if mantissa = 0#52 then .infinite negative else .nan
      else if exponent = 0#11 then .finite negative mantissa.toNat (-1074)
      else .finite negative (2 ^ 52 + mantissa.toNat) (exponent.toNat - 1075) := by
  delta unpack
  dsimp only
  by_cases hfull : @unpackExponent .binary64 bits = -1#11
  · rw [if_pos hfull, if_pos hfull]
    by_cases hzero : @unpackMantissa .binary64 bits = 0#52
    · rw [if_pos hzero, if_pos hzero]
      rfl
    · rw [if_neg hzero, if_neg hzero]
      rfl
  · rw [if_neg hfull, if_neg hfull]
    by_cases hleast : @unpackExponent .binary64 bits = 0#11
    · rw [if_pos hleast, if_pos hleast]
      by_cases hzero : @unpackMantissa .binary64 bits = 0#52
      · rw [dif_pos hzero, hzero]
        rfl
      · have hexponent : (@unpackExponent .binary64 bits).toNat - (1023 + 52) + 1 = (-1074 : Int) := by
          rw [hleast]
          rfl
        rw [dif_neg hzero]
        exact congrArg (finite _ _) hexponent
    · rw [if_neg hleast, if_neg hleast]
      exact congrArg (finite _ · _) (toNat_one_append _)

/-- A bit pattern denotes what it is taken apart to. -/
theorem ofBits_eq_ofUnpacked (bits : UInt64) : ofBits bits = ofUnpacked (unpack .binary64 bits.toBitVec) := by
  have hfull (e : BitVec 11) : e.toNat = 2047 ↔ e = -1#11 := BitVec.toNat_inj (y := 2047#11)
  have hleast (e : BitVec 11) : e.toNat = 0 ↔ e = 0#11 := BitVec.toNat_inj (y := 0#11)
  have hzero (m : BitVec 52) : m.toNat = 0 ↔ m = 0#52 := BitVec.toNat_inj (y := 0#52)
  rw [ofBits_eq, ← BitPattern.toNat_unpackExponent, ← BitPattern.toNat_unpackMantissa, ← isNegative_unpackSign,
    ofUnpacked_unpack]
  simp only [← hfull, ← hleast, ← hzero]

/-- A floating-point number denotes what it is taken apart to. -/
theorem ofFloat_eq_ofUnpacked (x : Float) : ofFloat x = ofUnpacked x.toModel.unpack :=
  ofBits_eq_ofUnpacked x.toBits

/-! ## Mantissas of full length -/

/-- The mantissa has all its bits, unless the exponent is the least one. -/
def IsCanonical (mantissa : Nat) (exponent : Int) : Prop :=
  mantissa < 2 ^ 53 ∧ -1074 ≤ exponent ∧ exponent ≤ 971 ∧ (2 ^ 52 ≤ mantissa ∨ exponent = -1074)

/-- A finite number has a mantissa of full length. -/
def IsWellFormed : Reading → Prop
  | .finite _ mantissa exponent => IsCanonical mantissa exponent
  | _ => True

theorem isWellFormed_ofBits (bits : UInt64) : (ofBits bits).IsWellFormed := by
  rw [ofBits_eq]
  split
  · split <;> trivial
  · split
    · refine ⟨?_, ?_, ?_, ?_⟩ <;> omega
    · refine ⟨?_, ?_, ?_, ?_⟩ <;> omega

/-- A mantissa and an exponent, counted in units of the least positive number. -/
def units (mantissa : Nat) (exponent : Int) : Nat :=
  mantissa * 2 ^ (exponent + 1074).toNat

theorem units_pos {m : Nat} (h : 0 < m) (e : Int) : 0 < units m e :=
  Nat.mul_pos h (Nat.two_pow_pos _)

/-- A full mantissa with a greater exponent makes more than any mantissa. -/
theorem units_lt_units {m m' : Nat} {e e' : Int} (hm : m < 2 ^ 53) (he : -1074 ≤ e) (hm' : 2 ^ 52 ≤ m')
    (hlt : e < e') : units m e < units m' e' := by
  have hexponent : (e + 1074).toNat + 1 ≤ (e' + 1074).toNat := by omega
  calc
    m * 2 ^ (e + 1074).toNat < 2 ^ 53 * 2 ^ (e + 1074).toNat := Nat.mul_lt_mul_of_pos_right hm (Nat.two_pow_pos _)
    _ = 2 ^ 52 * 2 ^ ((e + 1074).toNat + 1) := by rw [← Nat.pow_add, ← Nat.pow_add]; congr 1; omega
    _ ≤ m' * 2 ^ (e' + 1074).toNat := Nat.mul_le_mul hm' (Nat.pow_le_pow_right (by decide) hexponent)

theorem infinity_eq_units : infinity = units (2 ^ 52) 972 := by
  have hexponent : ((972 : Int) + 1074).toNat = 2046 := rfl
  rw [infinity, units, hexponent]

theorem infinity_pos : 0 < infinity := by
  rw [infinity_eq_units]
  exact units_pos (Nat.two_pow_pos 52) 972

theorem units_lt_infinity {m : Nat} {e : Int} (h : IsCanonical m e) : units m e < infinity := by
  rw [infinity_eq_units]
  exact units_lt_units h.1 h.2.1 le_rfl (Int.lt_add_one_iff.2 h.2.2.1)

/-- Where mantissas are as long as they can be, the exponents decide before the mantissas do. -/
theorem compare_units {m m' : Nat} {e e' : Int} (h : IsCanonical m e) (h' : IsCanonical m' e') :
    (compare e e').then (compare m m') = compare (units m e : Int) (units m' e') := by
  rcases h with ⟨hm, he, _, hfull⟩
  rcases h' with ⟨hm', he', _, hfull'⟩
  rcases lt_trichotomy e e' with hlt | rfl | hlt
  · have hunits := units_lt_units hm he (hfull'.resolve_right (by omega)) hlt
    rw [compare_lt_iff_lt.2 hlt, compare_lt_iff_lt.2 (Int.ofNat_lt.2 hunits)]
    rfl
  · have hpos : (0 : Int) < (2 ^ (e + 1074).toNat : Nat) := Int.ofNat_lt.2 (Nat.two_pow_pos _)
    have hcast : compare m m' = compare (m : Int) m' := by
      simp only [Nat.compare_eq_ite_lt, Int.compare_eq_ite_lt, Int.ofNat_lt]
    rw [compare_eq_iff_eq.2 rfl, hcast, units, units, Nat.cast_mul, Nat.cast_mul, compare_mul_right hpos]
    rfl
  · have hunits := units_lt_units hm' he' (hfull.resolve_right (by omega)) hlt
    rw [compare_gt_iff_gt.2 hlt, compare_gt_iff_gt.2 (Int.ofNat_lt.2 hunits)]
    rfl

/-! ## Comparisons -/

theorem compare_neg (a b : Int) : compare (-a) (-b) = (compare a b).swap := by
  rw [Int.compare_swap]
  simp only [Int.compare_eq_ite_lt, Int.neg_lt_neg_iff]

theorem scaled_infinity (s : Sign) : (ofUnpacked (.infinity s)).scaled = s.apply infinity := by
  cases s <;> rfl

theorem scaled_zero (s : Sign) : (ofUnpacked (.zero s)).scaled = 0 := by
  have h : units 0 (-1074) = 0 := Nat.zero_mul _
  cases s
  · exact congrArg (fun n : Nat => -(n : Int)) h
  · exact congrArg Nat.cast h

theorem scaled_finite (s : Sign) {m : Nat} (e : Int) (hm : 0 < m) :
    (ofUnpacked (.finite s m e hm)).scaled = s.apply (units m e) := by
  cases s <;> rfl

theorem some_lt_eq_compare {a b : Int} (h : a < b) : some .lt = some (compare a b) :=
  congrArg some (compare_lt_iff_lt.2 h).symm

theorem some_gt_eq_compare {a b : Int} (h : b < a) : some .gt = some (compare a b) :=
  congrArg some (compare_gt_iff_gt.2 h).symm

theorem some_eq_eq_compare {a b : Int} (h : a = b) : some .eq = some (compare a b) :=
  congrArg some (compare_eq_iff_eq.2 h).symm

/-- Finite numbers compare by sign, and with one sign by exponent and mantissa. -/
theorem compare_finite (s s' : Sign) {m m' : Nat} {e e' : Int} (hm : 0 < m) (hm' : 0 < m') (h : IsCanonical m e)
    (h' : IsCanonical m' e') : (UnpackedFloat.finite s m e hm).compare (.finite s' m' e' hm') =
      some (compare (s.apply (units m e)) (s'.apply (units m' e'))) := by
  have hpos : (0 : Int) < units m e := Int.ofNat_lt.2 (units_pos hm e)
  have hpos' : (0 : Int) < units m' e' := Int.ofNat_lt.2 (units_pos hm' e')
  cases s <;> cases s' <;> dsimp only [Sign.apply]
  · exact congrArg some ((congrArg Ordering.swap (compare_units h h')).trans (compare_neg _ _).symm)
  · exact some_lt_eq_compare (by omega)
  · exact some_gt_eq_compare (by omega)
  · exact congrArg some (compare_units h h')

/-- Two numbers that are taken apart compare as their exact values do. -/
theorem compare_ofUnpacked {u v : UnpackedFloat} (hu : (ofUnpacked u).IsWellFormed) (hv : (ofUnpacked v).IsWellFormed)
    (hunan : ofUnpacked u ≠ .nan) (hvnan : ofUnpacked v ≠ .nan) :
    u.compare v = some (compare (ofUnpacked u).scaled (ofUnpacked v).scaled) := by
  have hinfinity : (0 : Int) < infinity := Int.ofNat_lt.2 infinity_pos
  rcases u with s | _ | s | ⟨s, m, e, hm⟩
  case notANumber => exact absurd rfl hunan
  all_goals rcases v with s' | _ | s' | ⟨s', m', e', hm'⟩
  case infinity.notANumber | zero.notANumber | finite.notANumber => exact absurd rfl hvnan
  case finite.finite =>
    rw [scaled_finite, scaled_finite]
    exact compare_finite s s' hm hm' hu hv
  -- elsewhere the kinds of the two numbers and their signs decide
  case infinity.infinity =>
    rw [scaled_infinity, scaled_infinity]
    cases s <;> cases s' <;> dsimp only [Sign.apply]
    · exact some_eq_eq_compare rfl
    · exact some_lt_eq_compare (by omega)
    · exact some_gt_eq_compare (by omega)
    · exact some_eq_eq_compare rfl
  case infinity.zero =>
    rw [scaled_infinity, scaled_zero]
    cases s <;> dsimp only [Sign.apply]
    · exact some_lt_eq_compare (by omega)
    · exact some_gt_eq_compare (by omega)
  case zero.infinity =>
    rw [scaled_infinity, scaled_zero]
    cases s' <;> dsimp only [Sign.apply]
    · exact some_gt_eq_compare (by omega)
    · exact some_lt_eq_compare (by omega)
  case zero.zero =>
    rw [scaled_zero, scaled_zero]
    exact some_eq_eq_compare rfl
  case infinity.finite =>
    have hrange : (units m' e' : Int) < infinity := Int.ofNat_lt.2 (units_lt_infinity hv)
    rw [scaled_infinity, scaled_finite]
    cases s <;> cases s' <;> dsimp only [Sign.apply] <;>
      first | exact some_lt_eq_compare (by omega) | exact some_gt_eq_compare (by omega)
  case finite.infinity =>
    have hrange : (units m e : Int) < infinity := Int.ofNat_lt.2 (units_lt_infinity hu)
    rw [scaled_infinity, scaled_finite]
    cases s <;> cases s' <;> dsimp only [Sign.apply] <;>
      first | exact some_lt_eq_compare (by omega) | exact some_gt_eq_compare (by omega)
  case zero.finite =>
    have hpos' : (0 : Int) < units m' e' := Int.ofNat_lt.2 (units_pos hm' e')
    rw [scaled_zero, scaled_finite]
    cases s' <;> dsimp only [Sign.apply]
    · exact some_gt_eq_compare (by omega)
    · exact some_lt_eq_compare (by omega)
  case finite.zero =>
    have hpos : (0 : Int) < units m e := Int.ofNat_lt.2 (units_pos hm e)
    rw [scaled_zero, scaled_finite]
    cases s <;> dsimp only [Sign.apply]
    · exact some_lt_eq_compare (by omega)
    · exact some_gt_eq_compare (by omega)

section Floats

variable {x y : Float} (hx : ofFloat x ≠ .nan) (hy : ofFloat y ≠ .nan)

include hx hy in
theorem compare_unpack :
    x.toModel.unpack.compare y.toModel.unpack = some (compare (ofFloat x).scaled (ofFloat y).scaled) := by
  have hwf (z : Float) : (ofUnpacked z.toModel.unpack).IsWellFormed := by
    rw [← ofFloat_eq_ofUnpacked]
    exact isWellFormed_ofBits _
  rw [ofFloat_eq_ofUnpacked] at hx hy
  rw [ofFloat_eq_ofUnpacked, ofFloat_eq_ofUnpacked]
  exact compare_ofUnpacked (hwf x) (hwf y) hx hy

include hx hy in
/-- A floating-point number is less than another one just if its exact value is. -/
theorem lt_iff_scaled : x < y ↔ (ofFloat x).scaled < (ofFloat y).scaled := by
  have hlt : x < y ↔ decide (x.toModel < y.toModel) = true := Iff.rfl
  have hlt' : x.toModel < y.toModel ↔ (x.toModel.unpack.compare y.toModel.unpack == some .lt) = true := Iff.rfl
  rw [hlt, decide_eq_true_iff, hlt', compare_unpack hx hy, beq_iff_eq, Option.some_inj, compare_lt_iff_lt]

include hx hy in
theorem le_iff_scaled : x ≤ y ↔ (ofFloat x).scaled ≤ (ofFloat y).scaled := by
  have hle : x ≤ y ↔ decide (x.toModel ≤ y.toModel) = true := Iff.rfl
  have hle' : x.toModel ≤ y.toModel ↔ (x.toModel.unpack.compare y.toModel.unpack).any (·.isLE) = true := Iff.rfl
  rw [hle, decide_eq_true_iff, hle', compare_unpack hx hy, Option.any_some, Std.isLE_compare]

end Floats

end Reading

end WorksetIteration
