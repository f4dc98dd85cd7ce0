import Mathlib.Order.Basic
import WorksetIteration.Proofs.Key

/-!
# Records long enough for a key

Field numbers start at zero, so a record has a key just if it has more fields than the greatest field number of the key.
The least number of fields is counted in words, and the last word leaves no room for one more: a key with that field
number is said to need no field, though no record whose fields can be counted in words has it.

Main results:

- `KeySpec.leastArity`, `KeySpec.leastArity_le_iff`: the number of fields that a record must have.
- `KeySpec.exists_extract_iff_arity`, `KeySpec.firstMissing_iff_arity`: which records have a key, and what is reported
  of the others.
- `KeySpec.toNat_minArity`: the same number counted in words.
- `KeySpec.extract_exact`: all about the key of a record, and where the number in words decides whether there is one.
-/

namespace WorksetIteration

theorem Record.get?_ne_none_iff (r : Record) (field : UInt64) : r.get? field ≠ none ↔ field.toNat < r.arity := by
  rw [Ne, r.get?_eq_none_iff, Nat.not_le]

namespace KeySpec

/-! ## The least arity -/

/-- The least number of fields of a record that has all key fields. -/
def leastArity (spec : KeySpec) : Nat :=
  spec.indices.foldr (fun i arity => max (i.toNat + 1) arity) 0

theorem leastArity_le_iff {spec : KeySpec} {n : Nat} : spec.leastArity ≤ n ↔ ∀ i ∈ spec.indices, i.toNat < n := by
  rw [leastArity]
  induction spec.indices with
  | nil => simp
  | cons i rest ih => rw [List.foldr_cons, Nat.max_le, ih, List.forall_mem_cons, Nat.succ_le_iff]

/-- A record has a key just if it has that many fields. -/
theorem exists_extract_iff_arity {spec : KeySpec} {r : Record} :
    (∃ k, spec.extract r = .ok k) ↔ spec.leastArity ≤ r.arity := by
  rw [exists_extract_iff, leastArity_le_iff]
  exact forall₂_congr fun i _ => r.get?_ne_none_iff i

/-- A record that has fewer is reported by the first field number, in key order, that is beyond its fields. -/
theorem firstMissing_iff_arity {spec : KeySpec} {r : Record} {e : Error} :
    spec.FirstMissing r e ↔
      ∃ before i after, spec.indices = before ++ i :: after ∧ (∀ j ∈ before, j.toNat < r.arity) ∧
        r.arity ≤ i.toNat ∧ e = .missingKeyField i r.arity := by
  simp only [FirstMissing, Record.get?_ne_none_iff, Record.get?_eq_none_iff]

/-- The values of a key are those of the record's fields, one for each field number. -/
theorem getElem?_of_extract {spec : KeySpec} {r : Record} {k : Key} (h : spec.extract r = .ok k) :
    k.values.length = spec.indices.length ∧
      ∀ (i : Nat) (field : UInt64), spec.indices[i]? = some field → r.get? field = k.values[i]? := by
  have hfields := extract_eq_ok_iff.1 h
  have hlength := congrArg List.length hfields
  rw [List.length_map, List.length_map] at hlength
  refine ⟨hlength.symm, fun i field hfield => ?_⟩
  have hget := congrArg (fun values => values[i]?) hfields
  simp only [List.getElem?_map, hfield, Option.map_some] at hget
  cases hvalue : k.values[i]? with
  | none => simp [hvalue] at hget
  | some v => simpa [hvalue] using hget

/-! ## The least arity in words -/

theorem toNat_foldl_max_le_iff (indices : List UInt64) (first : UInt64) (n : Nat) :
    (indices.foldl max first).toNat ≤ n ↔ first.toNat ≤ n ∧ ∀ i ∈ indices, i.toNat ≤ n := by
  induction indices generalizing first with
  | nil => simp
  | cons i rest ih => rw [List.foldl_cons, ih, UInt64.toNat_max, Nat.max_le, and_assoc, List.forall_mem_cons]

/-- The least arity is one more than the greatest field number. -/
theorem leastArity_eq (spec : KeySpec) : spec.leastArity = (spec.indices.foldl max 0).toNat + 1 := by
  refine eq_of_forall_ge_iff fun n => ?_
  rw [leastArity_le_iff]
  cases n with
  | zero =>
      -- a key has a field
      rcases List.exists_mem_of_ne_nil _ spec.nonempty with ⟨i, hi⟩
      exact iff_of_false (fun h => Nat.not_lt_zero _ (h i hi)) (Nat.not_succ_le_zero _)
  | succ n =>
      rw [Nat.succ_le_succ_iff, toNat_foldl_max_le_iff, UInt64.toNat_zero, and_iff_right (Nat.zero_le n)]
      exact forall₂_congr fun _ _ => Nat.lt_succ_iff

/-- In words it is taken modulo their number. -/
theorem toNat_minArity (spec : KeySpec) : spec.minArity.toNat = spec.leastArity % 2 ^ 64 := by
  rw [minArity, UInt64.toNat_add, leastArity_eq]
  rfl

theorem leastArity_le (spec : KeySpec) : spec.leastArity ≤ 2 ^ 64 :=
  leastArity_le_iff.2 fun i _ => i.toNat_lt

/-- So it is right just if no field number is the last word. -/
theorem toNat_minArity_eq_iff {spec : KeySpec} :
    spec.minArity.toNat = spec.leastArity ↔ ∀ i ∈ spec.indices, i.toNat + 1 < 2 ^ 64 := by
  have hpos : 0 < spec.leastArity := by
    rw [leastArity_eq]
    exact Nat.succ_pos _
  have hle := spec.leastArity_le
  have hlast : (∀ i ∈ spec.indices, i.toNat + 1 < 2 ^ 64) ↔ spec.leastArity ≤ 2 ^ 64 - 1 := by
    rw [leastArity_le_iff]
    exact forall₂_congr fun i _ => by omega
  rw [hlast, toNat_minArity]
  omega

/-! ## All about the key of a record -/

/-- A record has a key just if it has the least arity.  The values of the key are then those of its fields, in key
order, and otherwise the first field number beyond its fields is reported with its arity.  Counted in words the least
arity is right just if no field number is the last word, and just then it tells of a record, whose fields can be counted
in words too, whether it has a key. -/
theorem extract_exact (spec : KeySpec) (r : Record) :
    ((∃ k, spec.extract r = .ok k) ↔ spec.leastArity ≤ r.arity) ∧
    (∀ k, spec.extract r = .ok k → k.values.length = spec.indices.length ∧
      ∀ (i : Nat) (field : UInt64), spec.indices[i]? = some field → r.get? field = k.values[i]?) ∧
    (∀ e, spec.extract r = .error e ↔
      ∃ before i after, spec.indices = before ++ i :: after ∧ (∀ j ∈ before, j.toNat < r.arity) ∧
        r.arity ≤ i.toNat ∧ e = .missingKeyField i r.arity) ∧
    (spec.minArity.toNat = spec.leastArity ↔ ∀ i ∈ spec.indices, i.toNat + 1 < 2 ^ 64) ∧
    (r.arity < 2 ^ 64 →
      (((∃ k, spec.extract r = .ok k) ↔ spec.minArity.toNat ≤ r.arity) ↔
        ∀ i ∈ spec.indices, i.toNat + 1 < 2 ^ 64)) := by
  refine ⟨exists_extract_iff_arity, fun k => getElem?_of_extract, fun e => ?_, toNat_minArity_eq_iff, fun harity => ?_⟩
  · rw [extract_eq_error_iff, firstMissing_iff_arity]
  · have hle := spec.leastArity_le
    rw [exists_extract_iff_arity, ← toNat_minArity_eq_iff, toNat_minArity]
    omega

/-- A key whose field numbers are repeated and out of order, a record that has it, and one that is too short. -/
theorem extract_exact_of_repeated_field :
    let spec : KeySpec := ⟨[2, 0, 2], by decide⟩
    let r : Record := ⟨[.int64 5, .string "a", .null]⟩
    let short : Record := ⟨[.int64 5, .string "a"]⟩
    let k : Key := ⟨[.null, .int64 5, .null]⟩
    (spec.extract r = .ok k ∧
      ∀ (i : Nat) (field : UInt64), spec.indices[i]? = some field → r.get? field = k.values[i]?) ∧
    spec.extract short = .error (.missingKeyField 2 2) ∧ spec.minArity.toNat = spec.leastArity ∧
      ((∃ k, spec.extract short = .ok k) ↔ spec.minArity.toNat ≤ short.arity) := by
  intro spec r short k
  rcases extract_exact spec r with ⟨_, hvalues, _⟩
  rcases extract_exact spec short with ⟨_, _, herrors, hright, hwords⟩
  have hk : spec.extract r = .ok k := rfl
  have hfields : ∀ i ∈ spec.indices, i.toNat + 1 < 2 ^ 64 := by simp [spec]
  refine ⟨⟨hk, (hvalues k hk).2⟩, (herrors _).2 ?_, hright.2 hfields, (hwords (by decide)).2 hfields⟩
  exact ⟨[], 2, [0, 2], rfl, by simp, by decide, rfl⟩

/-- A key of the last field number is said to need no field, and the record without fields does not have it. -/
theorem not_exists_extract_iff_minArity_of_last_field :
    let spec : KeySpec := .field 18446744073709551615
    let r : Record := ⟨[]⟩
    (spec.minArity.toNat = 0 ∧ spec.leastArity = 2 ^ 64) ∧
      spec.extract r = .error (.missingKeyField 18446744073709551615 0) ∧
      ¬((∃ k, spec.extract r = .ok k) ↔ spec.minArity.toNat ≤ r.arity) := by
  intro spec r
  have hrefused : spec.extract r = .error (.missingKeyField 18446744073709551615 0) := rfl
  have hzero : spec.minArity.toNat = 0 := by decide
  refine ⟨⟨hzero, by decide⟩, hrefused, fun h => ?_⟩
  rcases h.2 (hzero.le.trans (Nat.zero_le _)) with ⟨k, hk⟩
  rw [hrefused] at hk
  cases hk

end KeySpec

end WorksetIteration
