import Mathlib
import WorksetIteration.Proofs.Order.BitPattern
import WorksetIteration.Proofs.Order.Total

/-!
# Integers beside floating-point numbers

A floating-point number denotes a rational number or an infinity, and an integer is compared with just that.  The cast
of the floating-point number to an integer is reached only where it cuts off the part after the point and nothing else,
and where the cast back gives what was left.

Main results:

- `Reading.value?`: the exact value of a floating-point number.
- `Reading.lt_value_iff`: exact values, counted in units of the least positive number.
- `compareWordFloat_of_value`: the comparison of a word with a floating-point number is that of the exact values.
- `Value.compare_integer_float`: an integer and a floating-point number are compared by their exact values.
-/

namespace WorksetIteration

/-- A rational number with the part after the point cut off. -/
def towardZero (q : ℚ) : Int :=
  if 0 ≤ q then ⌊q⌋ else ⌈q⌉

namespace Reading

/-- The exact value that is denoted, a rational number or an infinity; NaN has none. -/
def value? : Reading → Option (WithBot (WithTop ℚ))
  | .nan => none
  | .infinite true => some ⊥
  | .infinite false => some ⊤
  | .finite negative mantissa exponent => some ((signed negative mantissa * 2 ^ exponent : ℚ) : WithTop ℚ)

theorem eq_nan_of_value? {r : Reading} (h : r.value? = none) : r = .nan := by
  cases r with
  | nan => rfl
  | infinite negative => cases negative <;> cases h
  | finite negative m e => cases h

/-! ## Exact values in units -/

/-- A finite value, counted in units of the least positive number. -/
theorem signed_units {negative : Bool} {m : Nat} {e : Int} (he : -1074 ≤ e) :
    (signed negative (units m e) : ℚ) = signed negative m * 2 ^ e * one := by
  have hpow : ((2 ^ (e + 1074).toNat : Nat) : ℚ) = 2 ^ e * one := by
    have hexponent : ((e + 1074).toNat : Int) = e + 1074 := Int.toNat_of_nonneg (by omega)
    rw [Nat.cast_pow, ← zpow_natCast, hexponent, zpow_add₀ (by norm_num), one, Nat.cast_pow, ← zpow_natCast]
    norm_num
  have hunits : (units m e : ℚ) = m * 2 ^ e * one := by
    rw [units, Nat.cast_mul, hpow, mul_assoc]
  cases negative
  · simpa [signed] using hunits
  · simpa [signed] using congrArg Neg.neg hunits

/-- An integer stands to a finite value as it does in units. -/
theorem lt_finite_iff {negative : Bool} {m : Nat} {e : Int} (he : -1074 ≤ e) (n : Int) :
    ((n : ℚ) < signed negative m * 2 ^ e ↔ n * (one : Int) < signed negative (units m e)) ∧
      (signed negative m * 2 ^ e < (n : ℚ) ↔ signed negative (units m e) < n * (one : Int)) := by
  have hone : (0 : ℚ) < one := by exact_mod_cast one_pos
  constructor
  · rw [← mul_lt_mul_iff_left₀ hone, ← signed_units he]
    exact_mod_cast Iff.rfl
  · rw [← mul_lt_mul_iff_left₀ hone, ← signed_units he]
    exact_mod_cast Iff.rfl

/-- A word stands to an exact value as it does in units. -/
theorem lt_value_iff {r : Reading} (hwf : r.IsWellFormed) {q : WithBot (WithTop ℚ)} (hq : r.value? = some q)
    (n : Int64) :
    ((((n.toInt : ℚ) : WithTop ℚ) : WithBot (WithTop ℚ)) < q ↔ n.toInt * (one : Int) < r.scaled) ∧
      (q < (((n.toInt : ℚ) : WithTop ℚ) : WithBot (WithTop ℚ)) ↔ r.scaled < n.toInt * (one : Int)) := by
  have hone : (0 : Int) < one := by exact_mod_cast one_pos
  have hrange : (2 : Int) ^ 63 * one < infinity := by exact_mod_cast word_lt_infinity
  have habove : n.toInt * one < infinity := (mul_lt_mul_of_pos_right n.toInt_lt hone).trans hrange
  have hbelow : -(infinity : Int) < n.toInt * one := by
    have := mul_le_mul_of_nonneg_right n.le_toInt hone.le
    linarith
  cases r with
  | nan => cases hq
  | infinite negative =>
      cases negative with
      | false =>
          obtain rfl := Option.some.inj hq
          exact ⟨iff_of_true (WithBot.coe_lt_coe.2 (WithTop.coe_lt_top _)) habove,
            iff_of_false not_top_lt (not_lt.2 habove.le)⟩
      | true =>
          obtain rfl := Option.some.inj hq
          exact ⟨iff_of_false not_lt_bot (not_lt.2 hbelow.le), iff_of_true (WithBot.bot_lt_coe _) hbelow⟩
  | finite negative m e =>
      obtain rfl := Option.some.inj hq
      rw [WithBot.coe_lt_coe, WithBot.coe_lt_coe, WithTop.coe_lt_coe, WithTop.coe_lt_coe]
      exact lt_finite_iff hwf.2.1 n.toInt

/-! ## Casts -/

/-- The integral part of a finite value is the value with the part after the point cut off. -/
theorem whole_eq_towardZero {negative : Bool} {m : Nat} {e : Int} (he : -1074 ≤ e) :
    whole negative m e = towardZero (signed negative m * 2 ^ e) := by
  have hone : (0 : ℚ) < one := by exact_mod_cast one_pos
  have hunits : (units m e : ℚ) = m * 2 ^ e * one := @signed_units false _ _ he
  have hfloor : ⌊(m * 2 ^ e : ℚ)⌋ = wholeMagnitude m e := by
    rw [Int.floor_eq_iff]
    constructor
    · apply le_of_mul_le_mul_right _ hone
      rw [← hunits]
      exact_mod_cast wholeMagnitude_mul_one_le he
    · apply lt_of_mul_lt_mul_right _ hone.le
      rw [← hunits]
      exact_mod_cast units_lt_wholeMagnitude he
  have hnonneg : (0 : ℚ) ≤ m * 2 ^ e := by positivity
  cases negative with
  | false =>
      simp only [whole, signed, towardZero, Bool.false_eq_true, if_false, Int.cast_natCast, if_pos hnonneg]
      exact hfloor.symm
  | true =>
      simp only [whole, signed, towardZero, if_true, Int.cast_neg, Int.cast_natCast, neg_mul]
      rcases hnonneg.eq_or_lt with hzero | hpos
      · rw [← hzero, Int.floor_zero] at hfloor
        rw [← hzero, ← hfloor]
        simp
      · rw [if_neg (by linarith), Int.ceil_neg, hfloor]

/-- The cast of a floating-point number among the words cuts off the part after the point, and the cast back gives what
is left. -/
theorem exists_value_of_beyondWords? {x : Float} (h : beyondWords? x = none) :
    ∃ q : ℚ, (ofFloat x).value? = some (q : WithTop ℚ) ∧ (truncateToWord x).toInt = towardZero q ∧
      (ofFloat (nearestFloat (truncateToWord x))).value? = some ((towardZero q : ℚ) : WithTop ℚ) := by
  rcases cast_spec h with ⟨negative, m, e, hx, htruncated, negative', m', e', hcast, hvalue⟩
  have hone : (one : ℚ) ≠ 0 := by exact_mod_cast one_pos.ne'
  have hback : (signed negative' m' * 2 ^ e' : ℚ) = whole negative m e := by
    apply mul_right_cancel₀ hone
    rw [← signed_units (exponent_ge hcast)]
    exact_mod_cast hvalue
  refine ⟨signed negative m * 2 ^ e, ?_, ?_, ?_⟩
  · rw [hx]
    rfl
  · rw [htruncated, whole_eq_towardZero (exponent_ge hx)]
  · rw [hcast, ← whole_eq_towardZero (exponent_ge hx), ← hback]
    rfl

end Reading

/-! ## Comparisons -/

/-- Every word is below NaN. -/
theorem compareWordFloat_of_nan (n : Int64) {bits : UInt64} (hnone : (Reading.ofBits bits).value? = none) :
    compareWordFloat n (.ofBits bits) = .lt := by
  have hnan : Reading.ofFloat (.ofBits bits) = .nan :=
    (BitPattern.ofFloat_ofBits bits).trans (Reading.eq_nan_of_value? hnone)
  rw [compareWordFloat_eq, compareIntFloat, hnan]

/-- A word is compared with the exact value of a floating-point number. -/
theorem compareWordFloat_of_value (n : Int64) {bits : UInt64} {q : WithBot (WithTop ℚ)}
    (hq : (Reading.ofBits bits).value? = some q) :
    (((n.toInt : ℚ) : WithTop ℚ) < q → compareWordFloat n (.ofBits bits) = .lt) ∧
      (q < ((n.toInt : ℚ) : WithTop ℚ) → compareWordFloat n (.ofBits bits) = .gt) ∧
      (((n.toInt : ℚ) : WithTop ℚ) = q → compareWordFloat n (.ofBits bits) = .eq) := by
  rcases Reading.lt_value_iff (Reading.isWellFormed_ofBits bits) hq n with ⟨hlt, hgt⟩
  rw [Value.compareWordFloat_eq_scaled, BitPattern.ofFloat_ofBits, compare_lt_iff_lt, compare_gt_iff_gt,
    compare_eq_iff_eq]
  refine ⟨hlt.1, hgt.1, fun h => le_antisymm ?_ ?_⟩
  · exact not_lt.1 (mt hgt.2 h.symm.not_lt)
  · exact not_lt.1 (mt hlt.2 h.not_lt)

namespace Value

section Numbers
variable {a : Value} {n : Int64} (ha : a.widenInt? = some n) (x : Float)

include ha in
theorem compareNumbers?_integer_float : compareNumbers? a (.float64 x) = some (compareWordFloat n x) := by
  cases a <;> simp_all [widenInt?, asFloat?, compareNumbers?]

include ha in
theorem typeRank_lt_float : a.typeRank < (Value.float64 x).typeRank := by
  cases a <;> first | exact (by decide : (2 : Nat) < 4) | exact (by decide : (3 : Nat) < 4) | cases ha

include ha in
theorem compare_integer_float_eq :
    Ord.compare a (.float64 x) = if compareWordFloat n x = .gt then .gt else .lt := by
  have htypes : Ord.compare a.typeRank (Value.float64 x).typeRank = .lt :=
    Nat.compare_eq_lt.2 (typeRank_lt_float ha x)
  change Value.compare a (.float64 x) = _
  rw [compare_int_float ha, htypes, magnitude_of_widenInt? ha, magnitude, ← compareWordFloat_eq_scaled]
  cases compareWordFloat n x <;> rfl

end Numbers

/-- An integer and a floating-point number are compared by their exact values, and by type where these are equal; every
integer is below NaN.  The cast of the floating-point number is reached only where it cuts off the part after the point
and stays in range, and the cast back gives what is left. -/
theorem compare_integer_float {a : Value} {n : Int64} (ha : a.widenInt? = some n) (bits : UInt64) :
    let x : Float := .ofBits bits
    let b : Value := .float64 x
    Ord.compare b a = (Ord.compare a b).swap ∧
    ((Reading.ofBits bits).value? = none → Ord.compare a b = .lt) ∧
    (∀ q, (Reading.ofBits bits).value? = some q →
      (((n.toInt : ℚ) : WithTop ℚ) < q → Ord.compare a b = .lt) ∧
      (q < ((n.toInt : ℚ) : WithTop ℚ) → Ord.compare a b = .gt) ∧
      (((n.toInt : ℚ) : WithTop ℚ) = q →
        compareNumbers? a b = some .eq ∧ a.typeRank < b.typeRank ∧ Ord.compare a b = .lt)) ∧
    (beyondWords? x = none →
      ∃ q : ℚ, (Reading.ofBits bits).value? = some (q : WithTop ℚ) ∧
        Int64.minValue.toInt ≤ towardZero q ∧ towardZero q ≤ Int64.maxValue.toInt ∧
        (truncateToWord x).toInt = towardZero q ∧
        (Reading.ofFloat (nearestFloat (truncateToWord x))).value? = some ((towardZero q : ℚ) : WithTop ℚ)) := by
  intro x b
  have hcompare : Ord.compare a b = if compareWordFloat n x = .gt then .gt else .lt := compare_integer_float_eq ha x
  refine ⟨Std.OrientedOrd.eq_swap, ?_, ?_, ?_⟩
  · intro hnone
    rw [hcompare, compareWordFloat_of_nan n hnone]
    rfl
  · intro q hq
    rcases compareWordFloat_of_value n hq with ⟨hlt, hgt, heq⟩
    refine ⟨fun h => ?_, fun h => ?_, fun h => ⟨?_, typeRank_lt_float ha x, ?_⟩⟩
    · rw [hcompare, hlt h]
      rfl
    · rw [hcompare, hgt h]
      rfl
    · rw [← heq h]
      exact compareNumbers?_integer_float ha x
    · rw [hcompare, heq h]
      rfl
  · intro hinside
    rcases Reading.exists_value_of_beyondWords? hinside with ⟨q, hq, htruncated, hback⟩
    rw [BitPattern.ofFloat_ofBits] at hq
    refine ⟨q, hq, ?_, ?_, htruncated, hback⟩
    · rw [← htruncated]
      exact Int64.minValue_le_toInt _
    · rw [← htruncated]
      exact Int64.toInt_le _

/-- A negative number with a part after the point is below the integer to which it is truncated. -/
theorem compare_integer_float_negative_fraction :
    (Value.int32 (-2)).widenInt? = some (-2) ∧
      Ord.compare (Value.int32 (-2)) (.float64 (.ofBits 0xc004000000000000)) = .gt ∧
      Ord.compare (Value.float64 (.ofBits 0xc004000000000000)) (.int32 (-2)) = .lt ∧
      ∃ q : ℚ, (Reading.ofBits 0xc004000000000000).value? = some (q : WithTop ℚ) ∧ towardZero q = -2 := by
  have hwide : (Value.int32 (-2)).widenInt? = some (-2) := rfl
  rcases compare_integer_float hwide 0xc004000000000000 with ⟨hswap, _, hvalue, hcast⟩
  have hreading : Reading.ofBits 0xc004000000000000 = .finite true (5 * 2 ^ 50) (-51) := by decide +kernel
  have hbelow : (((Reading.signed true (5 * 2 ^ 50) : ℚ) * 2 ^ (-51 : Int) : ℚ)) < ((-2 : Int64).toInt : ℚ) := by
    have hn : (-2 : Int64).toInt = -2 := by decide
    rw [hn]
    norm_num [Reading.signed]
  have hgt := (hvalue _ (by rw [hreading]; rfl)).2.1 (WithBot.coe_lt_coe.2 (WithTop.coe_lt_coe.2 hbelow))
  rcases hcast (by decide +kernel) with ⟨q, hq, _, _, htruncated, _⟩
  refine ⟨hwide, hgt, ?_, q, hq, ?_⟩
  · rw [hswap, hgt]
    rfl
  · rw [← htruncated]
    decide +kernel

end Value

end WorksetIteration
