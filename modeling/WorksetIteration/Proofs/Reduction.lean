import Mathlib.Data.List.Infix
import WorksetIteration.Aggregate
import WorksetIteration.Proofs.Order.Total

/-!
# Values reduced to one

The values of a group are folded from the left.  The least and the greatest value are preferred to all others, so their
fold never fails and does not depend on the order of the values.  A sum of integers is exact, in the widest type of its
terms, as long as no sum on the way leaves the range of the type reached there.

Main results:

- `Reduction.reduce`: the values of a group folded into one.
- `Value.LeastAmong`, `Value.GreatestAmong`: the least and the greatest of some values, missing ones passed over.
- `Reduction.reduce_of_preference`: both are what their folds return.
- `Value.total?`: the sum of some integers, if it fits its type.
- `Reduction.fold_sum`: one more integer makes a sum into the next one.
- `Reduction.reduce_sum_cases`: a sum of integers is exact, or a sum on the way does not fit.
-/

namespace WorksetIteration

/-- Values folded from the left, as the values of one group are. -/
def Reduction.reduce (op : Reduction) (field : UInt64) (vs : List Value) : Except Error Value :=
  vs.foldlM (op.fold field) .null

namespace Value

theorem eq_null_of_isNull {v : Value} (h : v.isNull = true) : v = .null := by
  cases v <;> simp_all [isNull]

/-! ## Preferences -/

/-- A way to prefer one value to another that tells any two values apart. -/
structure Preference (prefers : Value → Value → Bool) : Prop where
  /-- Of two values only one is preferred to the other. -/
  asymm : ∀ {a b}, prefers a b = true → prefers b a = false
  /-- What is not preferred to a value is not preferred to one that the value is not preferred to. -/
  trans : ∀ {a b c}, prefers b a = false → prefers c b = false → prefers c a = false
  /-- Different values are told apart. -/
  eq : ∀ {a b}, prefers a b = false → prefers b a = false → a = b

/-- The preferred one of an accumulated and another value, where a missing one stands for none. -/
def preferred (prefers : Value → Value → Bool) (acc v : Value) : Value :=
  if v.isNull then acc else if acc.isNull then v else if prefers v acc then v else acc

/-- A value is the most preferred of those with a property, missing ones passed over; it is missing just if all of them
are. -/
structure PreferredAmong (prefers : Value → Value → Bool) (p : Value → Prop) (m : Value) : Prop where
  /-- It is one of them, unless it is missing. -/
  mem : m = .null ∨ p m
  /-- None of those that are there is preferred to it. -/
  best : ∀ v, p v → v.isNull = false → m.isNull = false ∧ prefers v m = false

section Preference

variable {prefers : Value → Value → Bool}

theorem Preference.irrefl (h : Preference prefers) (v : Value) : prefers v v = false := by
  cases hv : prefers v v with
  | false => rfl
  | true => exact hv.symm.trans (h.asymm hv)

/-- Only one value is the most preferred. -/
theorem PreferredAmong.unique (hprefers : Preference prefers) {p : Value → Prop} {m m' : Value}
    (h : PreferredAmong prefers p m) (h' : PreferredAmong prefers p m') : m = m' := by
  by_cases hm : m.isNull = true
  · by_cases hm' : m'.isNull = true
    · rw [eq_null_of_isNull hm, eq_null_of_isNull hm']
    · rcases h'.mem with rfl | hp'
      · exact absurd rfl hm'
      · rw [(h.best m' hp' (Bool.eq_false_iff.2 hm')).1] at hm
        cases hm
  · rcases h.mem with rfl | hp
    · exact absurd rfl hm
    · rcases h'.best m hp (Bool.eq_false_iff.2 hm) with ⟨hm', hbest'⟩
      rcases h'.mem with rfl | hp'
      · cases hm'
      · exact hprefers.eq hbest' (h.best m' hp' hm').2

theorem preferredAmong_preferred (hprefers : Preference prefers) (acc v : Value) :
    PreferredAmong prefers (· ∈ [acc, v]) (preferred prefers acc v) := by
  unfold preferred
  by_cases hv : v.isNull = true
  · rw [if_pos hv]
    constructor <;> simp_all [hprefers.irrefl]
  · by_cases hacc : acc.isNull = true
    · rw [if_neg hv, if_pos hacc]
      constructor <;> simp_all [hprefers.irrefl]
    · by_cases hbetter : prefers v acc = true
      · rw [if_neg hv, if_neg hacc, if_pos hbetter]
        constructor <;> simp_all [hprefers.irrefl, hprefers.asymm hbetter]
      · rw [if_neg hv, if_neg hacc, if_neg hbetter]
        constructor <;> simp_all [hprefers.irrefl]

/-- The most preferred value is accumulated from left to right. -/
theorem preferredAmong_foldl (hprefers : Preference prefers) (acc : Value) (vs : List Value) :
    PreferredAmong prefers (· ∈ acc :: vs) (vs.foldl (preferred prefers) acc) := by
  induction vs generalizing acc with
  | nil => constructor <;> simp [hprefers.irrefl]
  | cons v vs ih =>
      have hpair := preferredAmong_preferred hprefers acc v
      have hrest := ih (preferred prefers acc v)
      rw [List.foldl_cons]
      constructor
      · rcases hrest.mem with h | h
        · exact Or.inl h
        · rcases List.mem_cons.1 h with h | h
          · rw [h]
            rcases hpair.mem with h' | h'
            · exact Or.inl h'
            · exact Or.inr (List.mem_append_left vs h')
          · exact Or.inr (List.mem_cons_of_mem _ (List.mem_cons_of_mem _ h))
      · intro x hx hnull
        by_cases hpairx : x ∈ [acc, v]
        · rcases hpair.best x hpairx hnull with ⟨hn, hbest⟩
          rcases hrest.best _ List.mem_cons_self hn with ⟨hn', hbest'⟩
          exact ⟨hn', hprefers.trans hbest' hbest⟩
        · apply hrest.best x _ hnull
          simp only [List.mem_cons, List.not_mem_nil, or_false] at hx hpairx ⊢
          tauto

/-- Nothing but the values counts for the fold that starts with none. -/
theorem preferredAmong_foldl_null (hprefers : Preference prefers) (vs : List Value) :
    PreferredAmong prefers (· ∈ vs) (vs.foldl (preferred prefers) .null) := by
  have h := preferredAmong_foldl hprefers .null vs
  constructor
  · rcases h.mem with hm | hm
    · exact Or.inl hm
    · exact List.mem_cons.1 hm
  · intro v hv
    exact h.best v (List.mem_cons_of_mem _ hv)

end Preference

/-! ## Least and greatest values -/

/-- A value is the least of those with a property, missing ones passed over; it is missing just if all of them are. -/
structure LeastAmong (p : Value → Prop) (m : Value) : Prop where
  /-- It is one of them, unless it is missing. -/
  mem : m = .null ∨ p m
  /-- None of those that are there is below it. -/
  le : ∀ v, p v → v.isNull = false → m.isNull = false ∧ v.isBelow m = false

/-- A value is the greatest of those with a property, missing ones passed over; it is missing just if all of them
are. -/
structure GreatestAmong (p : Value → Prop) (m : Value) : Prop where
  /-- It is one of them, unless it is missing. -/
  mem : m = .null ∨ p m
  /-- It is below none of those that are there. -/
  ge : ∀ v, p v → v.isNull = false → m.isNull = false ∧ m.isBelow v = false

theorem isBelow_eq_false_iff (a b : Value) : b.isBelow a = false ↔ (Ord.compare a b).isLE = true := by
  rw [isBelow, @Std.OrientedOrd.eq_swap _ _ _ b a]
  cases Ord.compare a b <;> simp

theorem isBelow_asymm {a b : Value} (h : a.isBelow b = true) : b.isBelow a = false := by
  rw [isBelow] at *
  rw [@Std.OrientedOrd.eq_swap _ _ _ b a]
  revert h
  cases Ord.compare a b <;> simp

theorem isBelow_trans {a b c : Value} (hab : a.isBelow b = true) (hbc : b.isBelow c = true) : a.isBelow c = true := by
  rw [isBelow, Ordering.isLT_iff_eq_lt] at *
  exact Std.TransCmp.lt_trans hab hbc

theorem isBelow_eq_false_trans {a b c : Value} (hab : b.isBelow a = false) (hbc : c.isBelow b = false) :
    c.isBelow a = false := by
  rw [isBelow_eq_false_iff] at *
  exact Std.TransOrd.isLE_trans hab hbc

theorem eq_of_isBelow_eq_false {a b : Value} (hab : a.isBelow b = false) (hba : b.isBelow a = false) : a = b := by
  rw [isBelow] at *
  rw [@Std.OrientedOrd.eq_swap _ _ _ b a] at hba
  apply Std.LawfulEqOrd.eq_of_compare
  revert hab hba
  cases Ord.compare a b <;> simp

theorem preference_isBelow : Preference isBelow where
  asymm := isBelow_asymm
  trans := isBelow_eq_false_trans
  eq := eq_of_isBelow_eq_false

/-- The opposite of a preference is one, too. -/
theorem Preference.flip {prefers : Value → Value → Bool} (h : Preference prefers) :
    Preference fun a b => prefers b a where
  asymm := h.asymm
  trans := fun hba hcb => h.trans hcb hba
  eq := fun hab hba => h.eq hba hab

theorem leastAmong_iff {p : Value → Prop} {m : Value} : LeastAmong p m ↔ PreferredAmong isBelow p m :=
  ⟨fun h => ⟨h.mem, h.le⟩, fun h => ⟨h.mem, h.best⟩⟩

theorem greatestAmong_iff {p : Value → Prop} {m : Value} :
    GreatestAmong p m ↔ PreferredAmong (fun a b => b.isBelow a) p m :=
  ⟨fun h => ⟨h.mem, h.ge⟩, fun h => ⟨h.mem, h.best⟩⟩

/-- There is only one least value. -/
theorem LeastAmong.unique {p : Value → Prop} {m m' : Value} (h : LeastAmong p m) (h' : LeastAmong p m') : m = m' :=
  (leastAmong_iff.1 h).unique preference_isBelow (leastAmong_iff.1 h')

end Value

namespace Reduction

/-- The preference that a reduction accumulates by; a sum has none. -/
def preference? : Reduction → Option (Value → Value → Bool)
  | .min => some Value.isBelow
  | .max => some fun a b => b.isBelow a
  | .sum => none

section Preference

variable {op : Reduction} {prefers : Value → Value → Bool}

theorem preference_of_preference? (h : op.preference? = some prefers) : Value.Preference prefers := by
  cases op with
  | min =>
      cases h
      exact Value.preference_isBelow
  | max =>
      cases h
      exact Value.preference_isBelow.flip
  | sum => cases h

theorem fold_of_preference (h : op.preference? = some prefers) (field : UInt64) (acc v : Value) :
    op.fold field acc v = .ok (Value.preferred prefers acc v) := by
  cases op with
  | min | max =>
      cases h
      unfold fold Value.preferred
      split
      · rfl
      · split <;> rfl
  | sum => cases h

/-- Preferred values are accumulated without failure. -/
theorem foldlM_of_preference (h : op.preference? = some prefers) (field : UInt64) (acc : Value) (vs : List Value) :
    vs.foldlM (op.fold field) acc = .ok (vs.foldl (Value.preferred prefers) acc) := by
  induction vs generalizing acc with
  | nil => rfl
  | cons v vs ih =>
      rw [List.foldlM_cons, fold_of_preference h]
      exact ih _

/-- The values come to the one that is most preferred. -/
theorem reduce_of_preference (h : op.preference? = some prefers) (field : UInt64) (vs : List Value) :
    ∃ m, op.reduce field vs = .ok m ∧ Value.PreferredAmong prefers (· ∈ vs) m :=
  ⟨_, foldlM_of_preference h field .null vs, Value.preferredAmong_foldl_null (preference_of_preference? h) vs⟩

end Preference

/-- The least value is found, whatever the values are. -/
theorem reduce_min (field : UInt64) (vs : List Value) :
    ∃ m, Reduction.min.reduce field vs = .ok m ∧ Value.LeastAmong (· ∈ vs) m := by
  have hmin : Reduction.min.preference? = some Value.isBelow := rfl
  rcases reduce_of_preference hmin field vs with ⟨m, hm, hbest⟩
  exact ⟨m, hm, Value.leastAmong_iff.2 hbest⟩

/-- Of the values in a list that have a property one is the least. -/
theorem exists_leastAmong {p : Value → Prop} {vs : List Value} (h : ∀ v, p v → v ∈ vs) :
    ∃ m, Value.LeastAmong p m := by
  classical
  have hmem : ∀ v, v ∈ vs.filter (fun v => decide (p v)) ↔ p v := by
    intro v
    rw [List.mem_filter, decide_eq_true_iff]
    exact ⟨And.right, fun hv => ⟨h v hv, hv⟩⟩
  rcases reduce_min 0 (vs.filter fun v => decide (p v)) with ⟨m, _, hleast⟩
  exact ⟨m, hleast.mem.imp_right (hmem m).1, fun v hv => hleast.le v ((hmem v).2 hv)⟩

/-- So is the greatest one. -/
theorem reduce_max (field : UInt64) (vs : List Value) :
    ∃ m, Reduction.max.reduce field vs = .ok m ∧ Value.GreatestAmong (· ∈ vs) m := by
  have hmax : Reduction.max.preference? = some fun a b => b.isBelow a := rfl
  rcases reduce_of_preference hmax field vs with ⟨m, hm, hbest⟩
  exact ⟨m, hm, Value.greatestAmong_iff.2 hbest⟩

end Reduction

/-! ## Sums of integers -/

namespace Value

/-- The value is an integer or missing. -/
def IsIntegral (v : Value) : Prop :=
  v.dataType?.all DataType.isInteger = true

/-- The integer that a value holds; zero if it holds none. -/
def integer : Value → Int
  | .int32 n => n.toInt
  | .int64 n => n.toInt
  | _ => 0

/-- The wider of two integer types, where there may be none. -/
def widerType? : Option DataType → Option DataType → Option DataType
  | some .int64, _ => some .int64
  | _, some .int64 => some .int64
  | some .int32, _ => some .int32
  | _, some .int32 => some .int32
  | _, _ => none

/-- The widest type of the integers among some values, if there is one. -/
def widestType? (vs : List Value) : Option DataType :=
  if vs.any fun v => v.asInt64?.isSome then some .int64
  else if vs.any fun v => v.asInt32?.isSome then some .int32
  else none

/-- The value of an integer type that stands for an integer, if it is in the range of the type; without a type it is
missing. -/
def ofInteger? : Option DataType → Int → Option Value
  | some .int32, n =>
      if Int32.minValue.toInt ≤ n ∧ n ≤ Int32.maxValue.toInt then some (.int32 (Int32.ofInt n)) else none
  | some .int64, n =>
      if Int64.minValue.toInt ≤ n ∧ n ≤ Int64.maxValue.toInt then some (.int64 (Int64.ofInt n)) else none
  | _, _ => some .null

/-- The exact sum of the integers among some values. -/
def exactSum (vs : List Value) : Int :=
  (vs.map integer).sum

/-- The sum of integers as a value of the widest of their types, if it fits. -/
def total? (vs : List Value) : Option Value :=
  ofInteger? (widestType? vs) (exactSum vs)

/-- The sums of all initial parts of a list fit their types. -/
def SumsFit (vs : List Value) : Prop :=
  ∀ initial, initial <+: vs → (total? initial).isSome = true

theorem isIntegral_cases {v : Value} (h : v.IsIntegral) : v = .null ∨ (∃ n, v = .int32 n) ∨ ∃ n, v = .int64 n := by
  cases v <;> simp_all [IsIntegral, dataType?, DataType.isInteger]

theorem ofInteger?_integer {v : Value} (h : v.IsIntegral) : ofInteger? v.dataType? v.integer = some v := by
  rcases isIntegral_cases h with rfl | ⟨n, rfl⟩ | ⟨n, rfl⟩
  · rfl
  · simp only [dataType?, integer, ofInteger?, Int32.ofInt_toInt]
    exact if_pos ⟨Int32.minValue_le_toInt n, Int32.toInt_le n⟩
  · simp only [dataType?, integer, ofInteger?, Int64.ofInt_toInt]
    exact if_pos ⟨Int64.minValue_le_toInt n, Int64.toInt_le n⟩

/-- An integer in the range of a type is held by a value of that type. -/
theorem of_ofInteger? {t : Option DataType} {n : Int} {m : Value} (h : ofInteger? t n = some m) :
    (∃ x : Int32, t = some .int32 ∧ m = .int32 x ∧ x.toInt = n) ∨
      (∃ x : Int64, t = some .int64 ∧ m = .int64 x ∧ x.toInt = n) ∨
      (t ≠ some .int32 ∧ t ≠ some .int64 ∧ m = .null) := by
  cases t with
  | none =>
      cases h
      simp
  | some t =>
      cases t with
      | int32 =>
          rcases Option.ite_none_right_eq_some.1 h with ⟨hrange, heq⟩
          exact .inl ⟨_, rfl, (Option.some.inj heq).symm,
            Int32.toInt_ofInt_of_le hrange.1 (Int.lt_add_one_iff.2 hrange.2)⟩
      | int64 =>
          rcases Option.ite_none_right_eq_some.1 h with ⟨hrange, heq⟩
          exact .inr (.inl ⟨_, rfl, (Option.some.inj heq).symm,
            Int64.toInt_ofInt_of_le hrange.1 (Int.lt_add_one_iff.2 hrange.2)⟩)
      | _ =>
          cases h
          simp

theorem widestType?_append_singleton (vs : List Value) (v : Value) :
    widestType? (vs ++ [v]) = widerType? (widestType? vs) v.dataType? := by
  unfold widestType?
  simp only [List.any_append, List.any_cons, List.any_nil, Bool.or_false]
  generalize (vs.any fun v => v.asInt64?.isSome) = has64
  generalize (vs.any fun v => v.asInt32?.isSome) = has32
  cases has64 <;> cases has32 <;> cases v <;> rfl

theorem widestType?_perm {vs ws : List Value} (h : vs.Perm ws) : widestType? vs = widestType? ws := by
  rw [widestType?, widestType?, h.any_eq, h.any_eq]

theorem exactSum_append_singleton (vs : List Value) (v : Value) : exactSum (vs ++ [v]) = exactSum vs + v.integer := by
  simp [exactSum]

theorem exactSum_perm {vs ws : List Value} (h : vs.Perm ws) : exactSum vs = exactSum ws :=
  (h.map integer).sum_eq

/-- The sum of integers does not depend on their order. -/
theorem total?_perm {vs ws : List Value} (h : vs.Perm ws) : total? vs = total? ws := by
  rw [total?, total?, widestType?_perm h, exactSum_perm h]

/-- Some values have an integer among them, which gives them a type, or come to nothing. -/
theorem widestType?_cases (vs : List Value) :
    widestType? vs = some .int64 ∨ widestType? vs = some .int32 ∨ widestType? vs = none ∧ exactSum vs = 0 := by
  induction vs using List.reverseRecOn with
  | nil => exact .inr (.inr ⟨rfl, rfl⟩)
  | append_singleton vs v ih =>
      rw [widestType?_append_singleton, exactSum_append_singleton]
      rcases ih with h | h | ⟨h, hzero⟩
      · exact .inl (by rw [h, widerType?])
      · rw [h]
        cases v <;> simp [widerType?, dataType?]
      · rw [h, hzero]
        cases v <;> simp [widerType?, dataType?, integer]

/-- A sum that fits holds the exact sum in the widest type of its terms. -/
theorem of_total? {vs : List Value} {m : Value} (h : total? vs = some m) :
    m.IsIntegral ∧ m.dataType? = widestType? vs ∧ m.integer = exactSum vs := by
  rcases of_ofInteger? h with ⟨x, ht, rfl, hx⟩ | ⟨x, ht, rfl, hx⟩ | ⟨h32, h64, rfl⟩
  · exact ⟨rfl, ht.symm, hx⟩
  · exact ⟨rfl, ht.symm, hx⟩
  · rcases widestType?_cases vs with ht | ht | ⟨ht, hzero⟩
    · exact absurd ht h64
    · exact absurd ht h32
    · exact ⟨rfl, ht.symm, hzero.symm⟩

end Value

namespace Reduction

/-- A sum as an outcome: where there is none, the range was left. -/
def orOverflow (field : UInt64) (total? : Option Value) : Except Error Value :=
  total?.elim (.error (.numericOverflow field)) .ok

theorem ofInteger?_add_int32 (m n : Int32) :
    Value.ofInteger? (some .int32) (m.toInt + n.toInt) = (addInt32? m n).map .int32 := by
  unfold addInt32? Value.ofInteger?
  dsimp only
  split <;> rfl

theorem ofInteger?_add_int64 (m n : Int64) :
    Value.ofInteger? (some .int64) (m.toInt + n.toInt) = (addInt64? m n).map .int64 := by
  unfold addInt64? Value.ofInteger?
  dsimp only
  split <;> rfl

/-- Two integers of thirty-two bits are added in their type. -/
theorem add_int32 (field : UInt64) (m n : Int32) :
    add field (.int32 m) (.int32 n) = orOverflow field (Value.ofInteger? (some .int32) (m.toInt + n.toInt)) := by
  rw [ofInteger?_add_int32]
  unfold add
  simp only [Value.asInt32?]
  cases addInt32? m n <;> rfl

/-- Integers one of which has sixty-four bits are added in the wider type. -/
theorem add_widened {a b : Value} {m n : Int64} (ha : a.widenInt? = some m) (hb : b.widenInt? = some n)
    (hwide : a.asInt32? = none ∨ b.asInt32? = none) (field : UInt64) :
    add field a b = orOverflow field (Value.ofInteger? (some .int64) (m.toInt + n.toInt)) := by
  have hnumeric : checkNumeric field [b, a] = .ok () := by
    cases a <;> cases ha <;> cases b <;> cases hb <;> rfl
  rw [ofInteger?_add_int64]
  unfold add
  rw [hnumeric, ha, hb]
  -- the first case of the definition, two integers of thirty-two bits, does not apply
  rcases hwide with h32 | h32
  · rw [h32]
    cases b.asInt32? <;> dsimp only <;> cases addInt64? m n <;> rfl
  · rw [h32]
    cases a.asInt32? <;> dsimp only <;> cases addInt64? m n <;> rfl

/-- A value is added to one that is there. -/
theorem fold_sum_eq_add {acc v : Value} (hacc : acc.isNull = false) (hv : v.isNull = false) (field : UInt64) :
    Reduction.sum.fold field acc v = add field acc v := by
  unfold fold
  rw [hacc, hv]
  rfl

/-- Two integers, either of which may be missing, come to their sum in the wider type, if it fits. -/
theorem fold_sum_of_isIntegral {acc v : Value} (hacc : acc.IsIntegral) (hv : v.IsIntegral) (field : UInt64) :
    Reduction.sum.fold field acc v = orOverflow field
      (Value.ofInteger? (Value.widerType? acc.dataType? v.dataType?) (acc.integer + v.integer)) := by
  have hacc' := Value.ofInteger?_integer hacc
  have hv' := Value.ofInteger?_integer hv
  have hnull : Value.null.integer = 0 := rfl
  -- beside a missing value the other one stays, and two integers are added in the wider type
  rcases Value.isIntegral_cases hacc with rfl | ⟨m, rfl⟩ | ⟨m, rfl⟩
  · rw [hnull, Int.zero_add]
    rcases Value.isIntegral_cases hv with rfl | ⟨n, rfl⟩ | ⟨n, rfl⟩
    · rfl
    · exact congrArg (orOverflow field) hv'.symm
    · exact congrArg (orOverflow field) hv'.symm
  · rcases Value.isIntegral_cases hv with rfl | ⟨n, rfl⟩ | ⟨n, rfl⟩
    · rw [hnull, Int.add_zero]
      exact congrArg (orOverflow field) hacc'.symm
    · exact (fold_sum_eq_add rfl rfl field).trans (add_int32 field m n)
    · rw [fold_sum_eq_add rfl rfl, add_widened rfl rfl (.inr rfl), Int32.toInt_toInt64]
      rfl
  · rcases Value.isIntegral_cases hv with rfl | ⟨n, rfl⟩ | ⟨n, rfl⟩
    · rw [hnull, Int.add_zero]
      exact congrArg (orOverflow field) hacc'.symm
    · rw [fold_sum_eq_add rfl rfl, add_widened rfl rfl (.inl rfl), Int32.toInt_toInt64]
      rfl
    · rw [fold_sum_eq_add rfl rfl, add_widened rfl rfl (.inl rfl)]
      rfl

/-- One more integer makes a sum that fits into the next sum, if that fits as well. -/
theorem fold_sum {vs : List Value} {acc v : Value} (hacc : Value.total? vs = some acc) (hv : v.IsIntegral)
    (field : UInt64) :
    Reduction.sum.fold field acc v = orOverflow field (Value.total? (vs ++ [v])) := by
  rcases Value.of_total? hacc with ⟨hintegral, htype, hinteger⟩
  rw [fold_sum_of_isIntegral hintegral hv, htype, hinteger, Value.total?, Value.widestType?_append_singleton,
    Value.exactSum_append_singleton]

/-- Integers come to their exact sum if all sums on the way fit, and else to an error. -/
theorem reduce_sum_cases {vs : List Value} (hvs : ∀ v ∈ vs, v.IsIntegral) (field : UInt64) :
    (Value.SumsFit vs ∧ ∃ m, Value.total? vs = some m ∧ Reduction.sum.reduce field vs = .ok m) ∨
      (¬ Value.SumsFit vs ∧ Reduction.sum.reduce field vs = .error (.numericOverflow field)) := by
  induction vs using List.reverseRecOn with
  | nil =>
      refine .inl ⟨?_, .null, rfl, rfl⟩
      intro initial h
      rw [List.prefix_nil.1 h]
      rfl
  | append_singleton vs v ih =>
      have hsplit : Reduction.sum.reduce field (vs ++ [v]) =
          Reduction.sum.reduce field vs >>= fun acc => Reduction.sum.fold field acc v := by
        simp [reduce]
      have hfit : Value.SumsFit (vs ++ [v]) ↔ (Value.total? (vs ++ [v])).isSome = true ∧ Value.SumsFit vs := by
        simp only [Value.SumsFit, List.prefix_concat_iff, forall_eq_or_imp]
      rw [hsplit, hfit]
      rcases ih fun x hx => hvs x (List.mem_append_left _ hx) with ⟨hsums, acc, hacc, hreduce⟩ | ⟨hsums, hreduce⟩
      · have hstep := fold_sum hacc (hvs v (List.mem_append_right _ List.mem_cons_self)) field
        rw [hreduce]
        change (_ ∧ ∃ m, _ ∧ Reduction.sum.fold field acc v = _) ∨ (_ ∧ Reduction.sum.fold field acc v = _)
        rw [hstep]
        cases htotal : Value.total? (vs ++ [v]) with
        | none => exact .inr ⟨by simp, rfl⟩
        | some m => exact .inl ⟨⟨rfl, hsums⟩, m, rfl, rfl⟩
      · rw [hreduce]
        exact .inr ⟨fun h => hsums h.2, rfl⟩

/-! ## The order of the values -/

/-- Whether integers can be reduced depends on their order only where they are added up. -/
theorem exists_reduce_iff (op : Reduction) (field : UInt64) {vs : List Value} (hvs : ∀ v ∈ vs, v.IsIntegral) :
    (∃ m, op.reduce field vs = .ok m) ↔ (op = .sum → Value.SumsFit vs) := by
  cases op with
  | min =>
      rcases reduce_min field vs with ⟨m, hm, _⟩
      exact ⟨fun _ => nofun, fun _ => ⟨m, hm⟩⟩
  | max =>
      rcases reduce_max field vs with ⟨m, hm, _⟩
      exact ⟨fun _ => nofun, fun _ => ⟨m, hm⟩⟩
  | sum =>
      rcases reduce_sum_cases hvs field with ⟨hfit, m, _, hm⟩ | ⟨hfit, herror⟩
      · exact ⟨fun _ _ => hfit, fun _ => ⟨m, hm⟩⟩
      · refine ⟨?_, fun h => absurd (h rfl) hfit⟩
        rintro ⟨m, hm⟩
        rw [herror] at hm
        cases hm

/-- What integers are reduced to does not depend on their order. -/
theorem eq_of_reduce_of_perm {op : Reduction} {field : UInt64} {vs ws : List Value} (hvs : ∀ v ∈ vs, v.IsIntegral)
    (hperm : vs.Perm ws) {m m' : Value} (h : op.reduce field vs = .ok m) (h' : op.reduce field ws = .ok m') :
    m = m' := by
  cases hprefers : op.preference? with
  | some prefers =>
      rcases reduce_of_preference hprefers field vs with ⟨_, hvs', hbest⟩
      rcases reduce_of_preference hprefers field ws with ⟨_, hws', hbest'⟩
      cases h.symm.trans hvs'
      cases h'.symm.trans hws'
      simp only [hperm.mem_iff] at hbest
      exact hbest.unique (preference_of_preference? hprefers) hbest'
  | none =>
      obtain rfl : op = .sum := by cases op <;> first | rfl | cases hprefers
      have hws : ∀ v ∈ ws, v.IsIntegral := fun v hv => hvs v (hperm.mem_iff.2 hv)
      rcases reduce_sum_cases hvs field with ⟨_, t, ht, hreduce⟩ | ⟨_, herror⟩
      · rcases reduce_sum_cases hws field with ⟨_, t', ht', hreduce'⟩ | ⟨_, herror'⟩
        · cases h.symm.trans hreduce
          cases h'.symm.trans hreduce'
          rw [Value.total?_perm hperm, ht'] at ht
          exact (Option.some.inj ht).symm
        · cases h'.symm.trans herror'
      · cases h.symm.trans herror

end Reduction

end WorksetIteration
