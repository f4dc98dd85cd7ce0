import Mathlib
import WorksetIteration.Proofs.Order.Unpacked

/-!
# Floating-point numbers of all bit patterns

Every word of sixty-four bits stands for a floating-point number.  A word that denotes a number or an infinity is kept
bit by bit, and all words that denote no number stand for one and the same NaN.

Main results:

- `toBits_ofBits_eq`: the word by which the number of a word is kept.
- `ofFloat_ofBits`: a floating-point number denotes what its word denotes.
- `ofBits_eq_ofBits_iff`: two words stand for one number just if they are one word or both denote no number.
-/

namespace WorksetIteration

namespace BitPattern

open Float.Model (Format)
open Float.Model.UnpackedFloat

/-- A word denotes no number just if its exponent is full and its fraction is not zero. -/
theorem isNaNBits_toBitVec (bits : UInt64) :
    @isNaNBits .binary64 bits.toBitVec = true ↔ Reading.ofBits bits = .nan := by
  rw [Reading.ofBits_eq_nan_iff, ← toNat_unpackExponent, ← toNat_unpackMantissa, isNaNBits, decide_eq_true_iff]
  exact (and_congr (BitVec.toNat_inj (y := 2047#11)) (BitVec.toNat_inj (y := 0#52)).not).symm

/-- The number of a word is kept as that word, or as the one NaN that stands for all words of no number. -/
theorem toBits_ofBits_eq (bits : UInt64) :
    (Float.ofBits bits).toBits =
      if Reading.ofBits bits = .nan then .ofBitVec (packedNaN .binary64) else bits := by
  -- `Float.ofBits` takes the word apart, `Float.toBits` puts it together again.
  have hpack : (Float.ofBits bits).toBits.toBitVec =
      if @isNaNBits .binary64 bits.toBitVec then packedNaN .binary64 else bits.toBitVec :=
    @pack_unpack .binary64 bits.toBitVec (by decide)
  rw [← UInt64.toBitVec_inj, hpack, apply_ite UInt64.toBitVec, UInt64.toBitVec_ofBitVec]
  exact if_congr (isNaNBits_toBitVec bits) rfl rfl

/-- A word that denotes a number or an infinity is kept. -/
theorem toBits_ofBits {bits : UInt64} (h : Reading.ofBits bits ≠ .nan) : (Float.ofBits bits).toBits = bits := by
  rw [toBits_ofBits_eq, if_neg h]

/-- A floating-point number denotes what its word denotes. -/
theorem ofFloat_ofBits (bits : UInt64) : Reading.ofFloat (.ofBits bits) = Reading.ofBits bits := by
  by_cases h : Reading.ofBits bits = .nan
  · rw [Reading.ofFloat, toBits_ofBits_eq, if_pos h, h]
    decide +kernel
  · rw [Reading.ofFloat, toBits_ofBits h]

/-- Two words stand for one number just if they are one word or both denote no number. -/
theorem ofBits_eq_ofBits_iff (x y : UInt64) :
    Float.ofBits x = Float.ofBits y ↔ x = y ∨ Reading.ofBits x = .nan ∧ Reading.ofBits y = .nan := by
  constructor
  · intro h
    have hreading : Reading.ofBits x = Reading.ofBits y := by rw [← ofFloat_ofBits, h, ofFloat_ofBits]
    by_cases hx : Reading.ofBits x = .nan
    · exact .inr ⟨hx, hreading ▸ hx⟩
    · have hbits : (Float.ofBits x).toBits = (Float.ofBits y).toBits := by rw [h]
      rw [toBits_ofBits hx, toBits_ofBits (hreading ▸ hx)] at hbits
      exact .inl hbits
  · rintro (rfl | ⟨hx, hy⟩)
    · rfl
    · rw [← ofFloat_ofBits] at hx hy
      exact floatRank_injective ((floatRank_nan hx).trans (floatRank_nan hy).symm)

end BitPattern

end WorksetIteration
