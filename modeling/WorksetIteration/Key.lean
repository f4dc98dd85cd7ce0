import WorksetIteration.Record

/-!
# Keys

A key is the row of values that identifies a record, and a key specification names the fields that form it.  Keys are
compared like records; a key with a missing value identifies a record but never matches in a join.

Main definitions:

- `Key`, `KeySpec`: keys and the fields that form them.
- `KeySpec.minArity`: the least number of fields that a record must have, as a word.
-/

namespace WorksetIteration

/-! ## Keys -/

/-- The values that identify a record. -/
structure Key where
  /-- The values in the order of the key's fields. -/
  values : List Value
deriving DecidableEq, Repr

namespace Key

/-- Whether a value is missing. -/
def hasNull (k : Key) : Bool :=
  k.values.any Value.isNull

/-- The printed form of a key: a single value stands alone. -/
def text (k : Key) : String :=
  match k.values with
  | [v] => v.text
  | values => Value.listText values

/-- A code of sixty-four bits, the same for equal keys. -/
def code (k : Key) : UInt64 :=
  k.values.foldl (fun h v => 31 * h + v.code) 17

/-- The order of keys, value by value. -/
instance : Ord Key :=
  ⟨fun a b => compare a.values b.values⟩

end Key

/-! ## Key specifications -/

/-- The fields that form a key, at least one. -/
structure KeySpec where
  /-- The field numbers in key order. -/
  indices : List UInt64
  /-- A key needs a field. -/
  nonempty : indices ≠ []
deriving DecidableEq, Repr

namespace KeySpec

/-- The key of a single field. -/
def field (index : UInt64) : KeySpec :=
  ⟨[index], by simp⟩

instance : Inhabited KeySpec :=
  ⟨field 0⟩

/-- The key of the listed fields, if there is one. -/
def ofIndices? (indices : List UInt64) : Option KeySpec :=
  if h : indices = [] then none else some ⟨indices, h⟩

/-- The least arity of a record that has all key fields, computed in words: one more than the greatest index. -/
def minArity (spec : KeySpec) : UInt64 :=
  spec.indices.foldl max 0 + 1

/-- The printed form of the field numbers. -/
def text (spec : KeySpec) : String :=
  "[" ++ ", ".intercalate (spec.indices.map toString) ++ "]"

@[simp]
theorem indices_field (index : UInt64) : (field index).indices = [index] :=
  rfl

@[simp]
theorem ofIndices?_nil : ofIndices? [] = none :=
  rfl

theorem ofIndices?_indices (spec : KeySpec) : ofIndices? spec.indices = some spec := by
  simp [ofIndices?, spec.nonempty]

end KeySpec

end WorksetIteration
