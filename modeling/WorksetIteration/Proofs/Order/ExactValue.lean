import WorksetIteration.Number.Exact
import Mathlib.Order.Compare
import Mathlib.Order.Monotone.Basic
import Mathlib.Tactic.Linarith
import Mathlib.Tactic.Positivity
import Mathlib.Tactic.Ring

/-!
# Exact values on one line

Every reading of a floating-point number is counted as an integer in units of `2 ^ -1074`, the least positive number.
On this line integers and floating-point numbers compare as integers do, which is where all laws of their order come
from.  The exact order of an integer and a floating-point number is read off the integral part and the part after it.

Main results:

- `Reading.whole` and `Reading.beyondWhole`: the integral part toward zero, and on which side of it the value lies.
- `compareIntFloat`: the exact order of an integer and a floating-point number.
- `Reading.steps_strictMono`: bit patterns without a sign grow with the value they stand for.
- `compareIntFloat_eq`: an integer and a floating-point number stand as their exact values do.
- `compareFloats_eq`: floating-point numbers stand by exact value, and by rank where the value is one.
- `floatRank_injective`: different floating-point numbers have different ranks.
-/

namespace WorksetIteration

namespace Reading

/-! ## Integral part -/

/-- An integer of the given sign and magnitude. -/
def signed (negative : Bool) (magnitude : Nat) : Int :=
  if negative then -(magnitude : Int) else magnitude

/-- The integral part of `mantissa · 2 ^ exponent`. -/
def wholeMagnitude (mantissa : Nat) (exponent : Int) : Nat :=
  mantissa * Nat.pow 2 exponent.toNat / Nat.pow 2 (-exponent).toNat

/-- Whether `mantissa · 2 ^ exponent` has a part after the point. -/
def hasFraction (mantissa : Nat) (exponent : Int) : Bool :=
  mantissa % Nat.pow 2 (-exponent).toNat != 0

/-- The integral part toward zero of `±mantissa · 2 ^ exponent`. -/
def whole (negative : Bool) (mantissa : Nat) (exponent : Int) : Int :=
  signed negative (wholeMagnitude mantissa exponent)

/-- How the integral part stands to the value itself: below a positive fraction, above a negative one. -/
def beyondWhole (negative : Bool) (mantissa : Nat) (exponent : Int) : Ordering :=
  if hasFraction mantissa exponent then (if negative then .gt else .lt) else .eq

end Reading

/-- The order of an integer and a floating-point number by their exact values, below every NaN: the integral part
decides, and where it is the integer itself, the fraction does.  No rounding takes place. -/
def compareIntFloat (n : Int) (x : Float) : Ordering :=
  match Reading.ofFloat x with
  | .nan => .lt
  | .infinite negative => if negative then .gt else .lt
  | .finite negative mantissa exponent =>
      (compare n (Reading.whole negative mantissa exponent)).then
        (Reading.beyondWhole negative mantissa exponent)

namespace Reading

/-! ## Units of the least positive number -/

/-- The value of a bit pattern without its sign, counted in units of the least positive number. -/
def steps (bits : Nat) : Nat :=
  if bits / 2 ^ 52 = 0 then bits % 2 ^ 52
  else (2 ^ 52 + bits % 2 ^ 52) * 2 ^ (bits / 2 ^ 52 - 1)

theorem steps_subnormal {bits : Nat} (h : bits / 2 ^ 52 = 0) : steps bits = bits % 2 ^ 52 := by
  rw [steps, if_pos h]

theorem steps_normal {bits e : Nat} (h : bits / 2 ^ 52 = e + 1) :
    steps bits = (2 ^ 52 + bits % 2 ^ 52) * 2 ^ e := by
  rw [steps, if_neg (by omega), h, Nat.add_sub_cancel]

/-- The next bit pattern stands for a greater value, also where the fraction is full and the exponent takes the
carry. -/
theorem steps_lt_succ (bits : Nat) : steps bits < steps (bits + 1) := by
  have hfraction : bits % 2 ^ 52 < 2 ^ 52 := Nat.mod_lt _ (by norm_num)
  by_cases hcarry : bits % 2 ^ 52 + 1 < 2 ^ 52
  · have hdiv : (bits + 1) / 2 ^ 52 = bits / 2 ^ 52 := by omega
    have hmod : (bits + 1) % 2 ^ 52 = bits % 2 ^ 52 + 1 := by omega
    rcases hexp : bits / 2 ^ 52 with _ | e
    · rw [steps_subnormal hexp, steps_subnormal (hdiv.trans hexp), hmod]
      exact Nat.lt_succ_self _
    · rw [steps_normal hexp, steps_normal (hdiv.trans hexp), hmod]
      exact Nat.mul_lt_mul_of_pos_right (by omega) (by positivity)
  · have hdiv : (bits + 1) / 2 ^ 52 = bits / 2 ^ 52 + 1 := by omega
    have hmod : (bits + 1) % 2 ^ 52 = 0 := by omega
    rw [steps_normal hdiv, hmod, Nat.add_zero]
    rcases hexp : bits / 2 ^ 52 with _ | e
    · rw [steps_subnormal hexp, Nat.pow_zero, Nat.mul_one]
      exact hfraction
    · rw [steps_normal hexp, pow_succ' 2 e, ← Nat.mul_assoc]
      exact Nat.mul_lt_mul_of_pos_right (by omega) (by positivity)

theorem steps_strictMono : StrictMono steps :=
  strictMono_nat_of_lt_succ steps_lt_succ

/-- The number one, counted in these units. -/
def one : Nat :=
  2 ^ 1074

/-- The place of the positive infinity, counted in these units. -/
def infinity : Nat :=
  2 ^ 52 * 2 ^ 2046

theorem one_pos : 0 < one := by
  unfold one
  positivity

theorem word_lt_infinity : 2 ^ 63 * one < infinity := by
  rw [infinity, one, ← pow_add, ← pow_add]
  exact pow_lt_pow_right₀ (by norm_num) (by norm_num)

/-- What a reading denotes, counted in these units.  Infinities lie beyond all finite numbers, and NaN lies beyond the
infinities. -/
def scaled : Reading → Int
  | .nan => infinity + 1
  | .infinite negative => signed negative infinity
  | .finite negative mantissa exponent => signed negative (mantissa * 2 ^ (exponent + 1074).toNat)

/-- A bit pattern is read by its sign, its exponent and its fraction. -/
theorem ofBits_eq (bits : UInt64) :
    ofBits bits =
      if bits.toNat / 2 ^ 52 % 2 ^ 11 = 2047 then
        if bits.toNat % 2 ^ 52 = 0 then .infinite (decide (2 ^ 63 ≤ bits.toNat)) else .nan
      else if bits.toNat / 2 ^ 52 % 2 ^ 11 = 0 then
        .finite (decide (2 ^ 63 ≤ bits.toNat)) (bits.toNat % 2 ^ 52) (-1074)
      else
        .finite (decide (2 ^ 63 ≤ bits.toNat)) (2 ^ 52 + bits.toNat % 2 ^ 52)
          ((bits.toNat / 2 ^ 52 % 2 ^ 11 : Nat) - 1075) := by
  norm_num [ofBits]

theorem ofBits_eq_nan_iff (bits : UInt64) :
    ofBits bits = .nan ↔ bits.toNat / 2 ^ 52 % 2 ^ 11 = 2047 ∧ bits.toNat % 2 ^ 52 ≠ 0 := by
  rw [ofBits_eq]
  split
  · split <;> simp_all
  · split <;> simp_all

theorem exponent_ge {bits : UInt64} {negative : Bool} {mantissa : Nat} {exponent : Int}
    (h : ofBits bits = .finite negative mantissa exponent) : -1074 ≤ exponent := by
  rw [ofBits_eq] at h
  split at h
  · split at h <;> simp at h
  · split at h <;> injection h <;> omega

/-- Apart from NaN, the sign bit and the steps of the other bits make the value. -/
theorem scaled_ofBits {bits : UInt64} (h : ofBits bits ≠ .nan) :
    (ofBits bits).scaled = signed (decide (2 ^ 63 ≤ bits.toNat)) (steps (bits.toNat % 2 ^ 63)) := by
  have hexp : bits.toNat % 2 ^ 63 / 2 ^ 52 = bits.toNat / 2 ^ 52 % 2 ^ 11 := by omega
  have hfraction : bits.toNat % 2 ^ 63 % 2 ^ 52 = bits.toNat % 2 ^ 52 := by omega
  rw [ofBits_eq] at h ⊢
  split at h <;> rename_i hbiased
  · rw [if_pos hbiased] at *
    split at h <;> rename_i hzero
    · rw [if_pos hzero, scaled, steps_normal (e := 2046) (by omega), hfraction, hzero, Nat.add_zero, infinity]
    · exact absurd rfl h
  · rw [if_neg hbiased]
    split <;> rename_i hsub
    · rw [scaled, steps_subnormal (by omega), hfraction]
      simp
    · obtain ⟨e, he⟩ := Nat.exists_eq_add_one_of_ne_zero hsub
      rw [scaled, steps_normal (e := e) (by omega), hfraction]
      have : ((bits.toNat / 2 ^ 52 % 2 ^ 11 : Nat) - 1075 + 1074 : Int).toNat = e := by omega
      rw [this]

/-! ## Integers against readings -/

/-- A value less than `d` away from `d * q` stands to a multiple of `d` as `q` does, unless the factor is `q` itself. -/
theorem compare_near {n q d v : Int} (hlow : d * q - d < v) (hhigh : v < d * q + d) :
    (compare n q).then (compare (d * q) v) = compare (n * d) v := by
  rcases lt_trichotomy n q with h | rfl | h
  · have hlt : n * d < v := by nlinarith
    rw [compare_lt_iff_lt.2 h, compare_lt_iff_lt.2 hlt]
    rfl
  · rw [compare_eq_iff_eq.2 rfl, mul_comm d n]
    rfl
  · have hgt : v < n * d := by nlinarith
    rw [compare_gt_iff_gt.2 h, compare_gt_iff_gt.2 hgt]
    rfl

/-- Where a quotient rounded toward zero stands to the exact one. -/
theorem compare_quotient (negative : Bool) (a d : Nat) :
    compare ((d : Int) * signed negative (a / d)) (signed negative a) =
      if a % d != 0 then (if negative then .gt else .lt) else .eq := by
  have hsplit : (a : Int) = d * (a / d : Nat) + (a % d : Nat) := by
    exact_mod_cast (Nat.div_add_mod a d).symm
  rcases Nat.eq_zero_or_pos (a % d) with hzero | hpos
  · rw [hzero, Nat.cast_zero, add_zero] at hsplit
    have heq : (d : Int) * signed negative (a / d) = signed negative a := by
      cases negative <;> simp only [signed, Bool.false_eq_true, if_false, if_true, hsplit, mul_neg]
    rw [hzero, compare_eq_iff_eq.2 heq]
    rfl
  · have hpos' : (0 : Int) < (a % d : Nat) := by exact_mod_cast hpos
    rw [if_pos (by simpa using hpos.ne')]
    cases negative
    · exact compare_lt_iff_lt.2 (by simp only [signed, Bool.false_eq_true, if_false]; linarith)
    · exact compare_gt_iff_gt.2 (by simp only [signed, if_true, mul_neg]; linarith)

/-- The integral part decides unless it is the integer itself; then the fraction does. -/
theorem compare_whole_then (n : Int) (negative : Bool) (mantissa : Nat) (exponent : Int) :
    (compare n (whole negative mantissa exponent)).then (beyondWhole negative mantissa exponent) =
      compare (n * (2 ^ (-exponent).toNat : Nat)) (signed negative (mantissa * 2 ^ exponent.toNat)) := by
  -- One of the two powers is one, so the fraction can be read off the scaled mantissa.
  have hfraction : hasFraction mantissa exponent =
      (mantissa * 2 ^ exponent.toNat % 2 ^ (-exponent).toNat != 0) := by
    rcases le_total 0 exponent with h | h
    · have : (-exponent).toNat = 0 := by omega
      simp [hasFraction, this, Nat.mod_one]
    · have : exponent.toNat = 0 := by omega
      simp [hasFraction, this]
  have hwhole : wholeMagnitude mantissa exponent = mantissa * 2 ^ exponent.toNat / 2 ^ (-exponent).toNat := rfl
  rw [whole, hwhole, beyondWhole, hfraction, ← compare_quotient]
  have hd : 0 < 2 ^ (-exponent).toNat := by positivity
  generalize mantissa * 2 ^ exponent.toNat = a at *
  generalize 2 ^ (-exponent).toNat = d at *
  have hsplit : (a : Int) = d * (a / d : Nat) + (a % d : Nat) := by
    exact_mod_cast (Nat.div_add_mod a d).symm
  have hrest : ((a % d : Nat) : Int) < d := by exact_mod_cast Nat.mod_lt a hd
  have hnonneg : (0 : Int) ≤ (a % d : Nat) := Int.natCast_nonneg _
  apply compare_near
  · cases negative <;> simp only [signed, Bool.false_eq_true, if_false, if_true, mul_neg] <;> linarith
  · cases negative <;> simp only [signed, Bool.false_eq_true, if_false, if_true, mul_neg] <;> linarith

theorem compare_mul_right {a b c : Int} (hc : 0 < c) : compare (a * c) (b * c) = compare a b := by
  rcases lt_trichotomy a b with h | rfl | h
  · rw [compare_lt_iff_lt.2 h, compare_lt_iff_lt.2 (mul_lt_mul_of_pos_right h hc)]
  · rw [compare_eq_iff_eq.2 rfl, compare_eq_iff_eq.2 rfl]
  · rw [compare_gt_iff_gt.2 h, compare_gt_iff_gt.2 (mul_lt_mul_of_pos_right h hc)]

theorem signed_mul (negative : Bool) (a b : Nat) : signed negative a * b = signed negative (a * b) := by
  cases negative <;> simp [signed]

end Reading

/-- An integer of sixty-four bits and a floating-point number stand as their exact values do. -/
theorem compareIntFloat_eq {n : Int} (hlow : -2 ^ 63 ≤ n) (hhigh : n < 2 ^ 63) (x : Float) :
    compareIntFloat n x = compare (n * Reading.one) (Reading.ofFloat x).scaled := by
  have hone : (0 : Int) < Reading.one := by exact_mod_cast Reading.one_pos
  have hrange : (2 : Int) ^ 63 * Reading.one < Reading.infinity := by exact_mod_cast Reading.word_lt_infinity
  have habove : n * Reading.one < Reading.infinity :=
    (mul_lt_mul_of_pos_right hhigh hone).trans hrange
  have hbelow : -(Reading.infinity : Int) < n * Reading.one := by
    have := mul_le_mul_of_nonneg_right hlow hone.le
    linarith
  unfold compareIntFloat
  cases h : Reading.ofFloat x with
  | nan => exact (compare_lt_iff_lt.2 (habove.trans (lt_add_one _))).symm
  | infinite negative =>
      cases negative
      · exact (compare_lt_iff_lt.2 habove).symm
      · exact (compare_gt_iff_gt.2 hbelow).symm
  | finite negative mantissa exponent =>
      have hexp : -1074 ≤ exponent := Reading.exponent_ge h
      have hscale : (0 : Int) < (2 ^ (1074 - (-exponent).toNat) : Nat) := by positivity
      have hone : 2 ^ (-exponent).toNat * 2 ^ (1074 - (-exponent).toNat) = Reading.one := by
        rw [← Nat.pow_add, Reading.one]
        congr 1
        omega
      have hmantissa : mantissa * 2 ^ exponent.toNat * 2 ^ (1074 - (-exponent).toNat) =
          mantissa * 2 ^ (exponent + 1074).toNat := by
        rw [Nat.mul_assoc, ← Nat.pow_add]
        congr 2
        omega
      dsimp only
      rw [Reading.compare_whole_then, Reading.scaled, ← Reading.compare_mul_right hscale, Reading.signed_mul,
        hmantissa, mul_assoc, ← Nat.cast_mul, hone]

/-! ## Floating-point numbers -/

/-- The place of a bit pattern that is no NaN. -/
theorem floatRank_eq {x : Float} (h : Reading.ofFloat x ≠ .nan) :
    floatRank x =
      if 2 ^ 63 ≤ x.toBits.toNat then (2 ^ 63 - 1 - (x.toBits.toNat : Int) : Int)
      else (x.toBits.toNat : Int) := by
  unfold floatRank
  dsimp only
  split
  · exact absurd ‹_› h
  · rfl

theorem floatRank_nan {x : Float} (h : Reading.ofFloat x = .nan) : floatRank x = 2 ^ 63 := by
  rw [floatRank, h]
  rfl

theorem floatRank_lt {x : Float} (h : Reading.ofFloat x ≠ .nan) : floatRank x < 2 ^ 63 := by
  rw [floatRank_eq h]
  split <;> omega

theorem scaled_le_infinity {x : Float} (h : Reading.ofFloat x ≠ .nan) :
    (Reading.ofFloat x).scaled ≤ Reading.infinity := by
  have hlast : Reading.steps (2047 * 2 ^ 52) = Reading.infinity := by
    rw [Reading.steps_normal (e := 2046) (by omega), Nat.mul_mod_left, Nat.add_zero, Reading.infinity]
  have hbits : x.toBits.toNat % 2 ^ 63 ≤ 2047 * 2 ^ 52 := by
    have := mt (Reading.ofBits_eq_nan_iff x.toBits).2 h
    omega
  have hle : Reading.steps (x.toBits.toNat % 2 ^ 63) ≤ Reading.infinity :=
    (Reading.steps_strictMono.monotone hbits).trans_eq hlast
  rw [Reading.ofFloat, Reading.scaled_ofBits h, Reading.signed]
  split <;> omega

/-- A floating-point number of lower place has no greater value. -/
theorem scaled_mono {x y : Float} (h : floatRank x ≤ floatRank y) :
    (Reading.ofFloat x).scaled ≤ (Reading.ofFloat y).scaled := by
  by_cases hy : Reading.ofFloat y = .nan
  · rw [hy]
    by_cases hx : Reading.ofFloat x = .nan
    · rw [hx]
    · exact (scaled_le_infinity hx).trans (le_of_lt (lt_add_one _))
  · have hx : Reading.ofFloat x ≠ .nan := by
      intro hx
      have := floatRank_lt hy
      rw [floatRank_nan hx] at h
      omega
    have hbx := x.toBits.toNat_lt
    have hby := y.toBits.toNat_lt
    rw [floatRank_eq hx, floatRank_eq hy] at h
    rw [Reading.ofFloat, Reading.ofFloat, Reading.scaled_ofBits hx, Reading.scaled_ofBits hy, Reading.signed,
      Reading.signed]
    by_cases hnx : 2 ^ 63 ≤ x.toBits.toNat <;> by_cases hny : 2 ^ 63 ≤ y.toBits.toNat <;>
      simp only [hnx, hny, decide_true, decide_false, if_true, if_false, Bool.false_eq_true] at h ⊢
    · have := Reading.steps_strictMono.monotone (show y.toBits.toNat % 2 ^ 63 ≤ x.toBits.toNat % 2 ^ 63 by omega)
      omega
    · omega
    · omega
    · have := Reading.steps_strictMono.monotone (show x.toBits.toNat % 2 ^ 63 ≤ y.toBits.toNat % 2 ^ 63 by omega)
      omega

/-- All bit patterns that stand for no number are one. -/
theorem toBits_of_nan {x : Float} (h : Reading.ofFloat x = .nan) :
    x.toBits.toBitVec = Float.Model.UnpackedFloat.packedNaN .binary64 := by
  rcases (Reading.ofBits_eq_nan_iff x.toBits).1 h with ⟨hbiased, hfraction⟩
  have hbits : x.toModel.toBits = x.toBits := rfl
  apply x.toModel.valid.eq_packedNaN
  · apply BitVec.eq_of_toNat_eq
    simpa [Float.Model.UnpackedFloat.unpackExponent, Nat.shiftRight_eq_div_pow, hbits] using hbiased
  · intro hzero
    apply hfraction
    simpa [Float.Model.UnpackedFloat.unpackMantissa, hbits] using congrArg BitVec.toNat hzero

theorem floatRank_injective : Function.Injective floatRank := by
  intro x y h
  have hbits : x.toBits = y.toBits := by
    by_cases hx : Reading.ofFloat x = .nan <;> by_cases hy : Reading.ofFloat y = .nan
    · exact UInt64.toBitVec_inj.1 ((toBits_of_nan hx).trans (toBits_of_nan hy).symm)
    · exact absurd (h ▸ floatRank_nan hx) (floatRank_lt hy).ne
    · exact absurd (h ▸ floatRank_nan hy) (floatRank_lt hx).ne
    · rw [floatRank_eq hx, floatRank_eq hy] at h
      have hbx := x.toBits.toNat_lt
      have hby := y.toBits.toNat_lt
      apply UInt64.toNat_inj.1
      split at h <;> split at h <;> omega
  rcases x with ⟨⟨bx, hx⟩⟩
  rcases y with ⟨⟨by', hy⟩⟩
  obtain rfl : bx = by' := hbits
  rfl

-- From here on only the sign of the unit matters, and its digits would slow evaluation down.
attribute [irreducible] Reading.one Reading.infinity

/-- Floating-point numbers stand by their exact values, and by their signs where the value is zero. -/
theorem compareFloats_eq (x y : Float) :
    compareFloats x y =
      (compare (Reading.ofFloat x).scaled (Reading.ofFloat y).scaled).then
        (compare (floatRank x) (floatRank y)) := by
  unfold compareFloats
  rcases lt_trichotomy (Reading.ofFloat x).scaled (Reading.ofFloat y).scaled with h | h | h
  · rw [compare_lt_iff_lt.2 h]
    exact compare_lt_iff_lt.2 (lt_of_not_ge fun hle => absurd (scaled_mono hle) (not_le.2 h))
  · rw [compare_eq_iff_eq.2 h]
    rfl
  · rw [compare_gt_iff_gt.2 h]
    exact compare_gt_iff_gt.2 (lt_of_not_ge fun hle => absurd (scaled_mono hle) (not_le.2 h))

end WorksetIteration
