import WorksetIteration.Key
import WorksetIteration.Proofs.Order.Word

/-!
# The order of values is total

Values are compared by a list of parts: their kind, their exact value, their type, the sign of a zero and their
characters.  Each part is compared in a known total order and together they make up the value, so the order of values,
and with it the orders of keys and records, is total and agrees with equality.

Main results:

- `Value.compare_eq_lex`: the order of values is the lexicographic order of the parts.
- `Value.eq_of_parts`: the parts make up the value.
- the instances `Std.TransOrd` and `Std.LawfulEqOrd` of values, keys and records.
-/

namespace WorksetIteration

namespace Value

/-! ## Parts of a value -/

/-- The exact value of a number, in units of the least positive floating-point number, and the truth of a truth
value. -/
def magnitude : Value → Int
  | .boolean b => b.toNat
  | .int32 n => n.toInt * Reading.one
  | .int64 n => n.toInt * Reading.one
  | .float64 x => (Reading.ofFloat x).scaled
  | _ => 0

/-- The rank of a floating-point number, which tells the two zeros apart. -/
def floatPlace : Value → Int
  | .float64 x => floatRank x
  | _ => 0

/-- The characters of a text. -/
def characters : Value → String
  | .string s => s
  | _ => ""

theorem magnitude_of_widenInt? {v : Value} {n : Int64} (h : v.widenInt? = some n) :
    v.magnitude = n.toInt * Reading.one := by
  cases v <;> simp only [widenInt?, Option.some.injEq, reduceCtorEq] at h
  · rw [magnitude, ← h, Int32.toInt_toInt64]
  · rw [magnitude, h]

/-! ## Numbers -/

theorem compare_toInt (m n : Int64) :
    Ord.compare m.toInt n.toInt = Ord.compare (m.toInt * Reading.one) (n.toInt * Reading.one) :=
  (Reading.compare_mul_right (by exact_mod_cast Reading.one_pos)).symm

theorem compareWordFloat_eq_scaled (n : Int64) (x : Float) :
    compareWordFloat n x = Ord.compare (n.toInt * Reading.one) (Reading.ofFloat x).scaled := by
  rw [compareWordFloat_eq]
  exact compareIntFloat_eq n.le_toInt n.toInt_lt x

/-- Integers of either width stand by their exact values and then by type. -/
theorem compare_ints {a b : Value} {m n : Int64} (ha : a.widenInt? = some m) (hb : b.widenInt? = some n) :
    Value.compare a b =
      (Ord.compare a.magnitude b.magnitude).then (Ord.compare a.typeRank b.typeRank) := by
  rw [magnitude_of_widenInt? ha, magnitude_of_widenInt? hb, ← compare_toInt]
  cases a <;> cases b <;> simp_all [widenInt?, Value.compare, compareNumbers?]

theorem compare_int_float {a : Value} {n : Int64} (ha : a.widenInt? = some n) (x : Float) :
    Value.compare a (.float64 x) =
      (Ord.compare a.magnitude (magnitude (.float64 x))).then (Ord.compare a.typeRank (typeRank (.float64 x))) := by
  rw [magnitude_of_widenInt? ha, magnitude, ← compareWordFloat_eq_scaled]
  cases a <;> simp_all [widenInt?, asFloat?, Value.compare, compareNumbers?]

theorem compare_float_int {b : Value} {n : Int64} (hb : b.widenInt? = some n) (x : Float) :
    Value.compare (.float64 x) b =
      (Ord.compare (magnitude (.float64 x)) b.magnitude).then (Ord.compare (typeRank (.float64 x)) b.typeRank) := by
  rw [magnitude_of_widenInt? hb, magnitude, ← Int.compare_swap, ← compareWordFloat_eq_scaled]
  cases b <;> simp_all [widenInt?, asFloat?, Value.compare, compareNumbers?]

theorem compare_floats (x y : Float) :
    Value.compare (.float64 x) (.float64 y) =
      (Ord.compare (magnitude (.float64 x)) (magnitude (.float64 y))).then
        (Ord.compare (floatPlace (.float64 x)) (floatPlace (.float64 y))) := by
  rw [magnitude, magnitude, floatPlace, floatPlace, ← compareFloats_eq]
  simp [Value.compare, compareNumbers?, widenInt?, asFloat?, typeRank, dataType?]

/-! ## The order as a lexicographic one -/

theorem compare_eq_lex (a b : Value) :
    Value.compare a b =
      compareLex (compareOn kindRank) (compareLex (compareOn magnitude) (compareLex (compareOn typeRank)
        (compareLex (compareOn floatPlace) (compareOn characters)))) a b := by
  cases a <;> cases b
  case boolean.boolean x y => cases x <;> cases y <;> rfl
  case int32.int32 m n => exact compare_ints rfl rfl
  case int32.int64 m n => exact compare_ints rfl rfl
  case int64.int32 m n => exact compare_ints rfl rfl
  case int64.int64 m n => exact compare_ints rfl rfl
  case int32.float64 n x => exact compare_int_float rfl x
  case int64.float64 n x => exact compare_int_float rfl x
  case float64.int32 x n => exact compare_float_int rfl x
  case float64.int64 x n => exact compare_float_int rfl x
  case float64.float64 x y =>
      rw [compare_floats]
      exact congrArg (Ordering.then _) Ordering.then_eq.symm
  all_goals rfl

/-- Type, exact value, sign of a zero and characters make up the value. -/
theorem eq_of_parts {a b : Value} (htype : a.typeRank = b.typeRank) (hmagnitude : a.magnitude = b.magnitude)
    (hplace : a.floatPlace = b.floatPlace) (hcharacters : a.characters = b.characters) : a = b := by
  have hone : (Reading.one : Int) ≠ 0 := by exact_mod_cast Reading.one_pos.ne'
  cases a <;> cases b <;> simp only [typeRank, dataType?, DataType.rank, reduceCtorEq] at htype <;> try contradiction
  case null.null => rfl
  case boolean.boolean x y => cases x <;> cases y <;> first | rfl | exact absurd hmagnitude (by decide)
  case int32.int32 m n => exact congrArg _ (Int32.toInt_inj.1 (mul_right_cancel₀ hone hmagnitude))
  case int64.int64 m n => exact congrArg _ (Int64.toInt_inj.1 (mul_right_cancel₀ hone hmagnitude))
  case float64.float64 x y => exact congrArg _ (floatRank_injective hplace)
  case string.string x y => exact congrArg _ hcharacters

instance : Std.TransOrd Value := by
  have h : (Ord.compare : Value → Value → Ordering) = _ := funext₂ compare_eq_lex
  unfold Std.TransOrd
  rw [h]
  infer_instance

instance : Std.LawfulEqOrd Value where
  eq_of_compare := by
    intro a b h
    have hlex := (compare_eq_lex a b).symm.trans h
    simp only [compareLex, compareOn, Ordering.then_eq_eq, Std.LawfulEqOrd.compare_eq_iff_eq] at hlex
    exact eq_of_parts hlex.2.2.1 hlex.2.1 hlex.2.2.2.1 hlex.2.2.2.2

end Value

instance : Std.TransOrd Key where
  eq_swap := Std.OrientedOrd.eq_swap (α := List Value)
  isLE_trans := Std.TransOrd.isLE_trans (α := List Value)

instance : Std.LawfulEqOrd Key where
  compare_self := Std.ReflOrd.compare_self (α := List Value)
  eq_of_compare h := congrArg Key.mk (Std.LawfulEqOrd.eq_of_compare h)

instance : Std.TransOrd Record where
  eq_swap := Std.OrientedOrd.eq_swap (α := List Value)
  isLE_trans := Std.TransOrd.isLE_trans (α := List Value)

instance : Std.LawfulEqOrd Record where
  compare_self := Std.ReflOrd.compare_self (α := List Value)
  eq_of_compare h := congrArg Record.mk (Std.LawfulEqOrd.eq_of_compare h)

end WorksetIteration
