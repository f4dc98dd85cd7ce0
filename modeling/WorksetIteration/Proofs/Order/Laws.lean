import WorksetIteration.Proofs.Order.BitPattern
import WorksetIteration.Proofs.Order.Total

/-!
# Laws of the order and of equality

Values, records and keys are compared in one total order each, and the comparison tells apart just what the equality
test tells apart.

Main results:

- `TotallyOrdered`: a total order that agrees with the equality test.
- `totallyOrdered_of_lawful`: where it comes from.
- `totallyOrdered_values_records_keys`: values, records and keys are ordered so, with floating-point numbers of every
  bit pattern among the values.
-/

namespace WorksetIteration

/-- A total order that agrees with the equality test, which is an equivalence. -/
structure TotallyOrdered (α : Type) [Ord α] [BEq α] : Prop where
  /-- Two things compare as equal just if the test finds them equal. -/
  compare_eq_iff : ∀ a b : α, compare a b = .eq ↔ (a == b) = true
  /-- Exchanging the sides reverses the outcome. -/
  compare_swap : ∀ a b : α, compare b a = (compare a b).swap
  /-- What stands not above something stands not above anything that this does not stand above. -/
  isLE_trans : ∀ a b c : α, (compare a b).isLE = true → (compare b c).isLE = true → (compare a c).isLE = true
  /-- Everything equals itself. -/
  beq_self : ∀ a : α, (a == a) = true
  /-- Equality goes both ways. -/
  beq_symm : ∀ a b : α, (a == b) = true → (b == a) = true
  /-- Things equal to one thing are equal. -/
  beq_trans : ∀ a b c : α, (a == b) = true → (b == c) = true → (a == c) = true

/-- A comparison with the laws of a total order whose equality is that of the test. -/
theorem totallyOrdered_of_lawful (α : Type) [Ord α] [Std.TransOrd α] [Std.LawfulEqOrd α] [BEq α] [LawfulBEq α] :
    TotallyOrdered α where
  compare_eq_iff a b := by rw [Std.LawfulEqOrd.compare_eq_iff_eq, beq_iff_eq]
  compare_swap _ _ := Std.OrientedOrd.eq_swap
  isLE_trans _ _ _ hab hbc := Std.TransOrd.isLE_trans hab hbc
  beq_self _ := beq_self_eq_true _
  beq_symm _ _ := BEq.symm
  beq_trans _ _ _ := BEq.trans

/-- Values, records and keys are totally ordered.  Among the values are the floating-point numbers of all bit patterns,
of which two are equal just if they are one pattern or both denote no number. -/
theorem totallyOrdered_values_records_keys :
    TotallyOrdered Value ∧ TotallyOrdered Record ∧ TotallyOrdered Key ∧
      ∀ x y : UInt64, (Value.float64 (.ofBits x) == Value.float64 (.ofBits y)) = true ↔
        x = y ∨ Reading.ofBits x = .nan ∧ Reading.ofBits y = .nan := by
  refine ⟨totallyOrdered_of_lawful Value, totallyOrdered_of_lawful Record, totallyOrdered_of_lawful Key, ?_⟩
  intro x y
  rw [beq_iff_eq, Value.float64.injEq, BitPattern.ofBits_eq_ofBits_iff]

-- The integer between 2 ^ 53 and the next floating-point number, and the three values of one magnitude.
example :
    compare (Value.float64 (.ofBits 0x4340000000000000)) (.int64 9007199254740993) = .lt ∧
      compare (Value.int64 9007199254740993) (.float64 (.ofBits 0x4340000000000001)) = .lt ∧
      compare (Value.int32 1) (.int64 1) = .lt ∧ compare (Value.int64 1) (.float64 1) = .lt := by
  decide +kernel

end WorksetIteration
