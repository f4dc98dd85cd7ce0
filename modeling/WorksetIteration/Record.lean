import WorksetIteration.Value

/-!
# Records

A record is a row of values.  Fields are numbered from zero by words of sixty-four bits.

Main definitions:

- `Record.get?`, `Record.withField?`: reading and replacing a field.
- `Record.text`: the printed form.
- the order of records, field by field.
-/

namespace WorksetIteration

/-- A row of values. -/
structure Record where
  /-- The fields in order. -/
  values : List Value
deriving DecidableEq, Repr

namespace Record

/-- A record of two fields. -/
def pair (a b : Value) : Record :=
  ⟨[a, b]⟩

/-- The number of fields. -/
def arity (r : Record) : Nat :=
  r.values.length

/-- Whether there is no field. -/
def isEmpty (r : Record) : Bool :=
  r.values.isEmpty

/-- The value of a field, if there is such a field. -/
def get? (r : Record) (field : UInt64) : Option Value :=
  r.values[field.toNat]?

/-- The record with one field replaced, if there is such a field. -/
def withField? (r : Record) (field : UInt64) (v : Value) : Option Record :=
  if field.toNat < r.arity then some ⟨r.values.set field.toNat v⟩ else none

/-- All fields of one record and then all of another. -/
def append (a b : Record) : Record :=
  ⟨a.values ++ b.values⟩

/-- The printed form of a record. -/
def text (r : Record) : String :=
  Value.listText r.values

/-- The order of records: the first difference decides, and a record comes before its extensions. -/
instance : Ord Record :=
  ⟨fun a b => compare a.values b.values⟩

/-- The records in ascending order, equal ones in the order in which they stood. -/
def sort (rs : List Record) : List Record :=
  rs.mergeSort fun a b => (compare a b).isLE

@[simp]
theorem get?_pair_zero (a b : Value) : (pair a b).get? 0 = some a :=
  rfl

@[simp]
theorem get?_pair_one (a b : Value) : (pair a b).get? 1 = some b :=
  rfl

@[simp]
theorem arity_pair (a b : Value) : (pair a b).arity = 2 :=
  rfl

theorem get?_eq_none_iff (r : Record) (field : UInt64) :
    r.get? field = none ↔ r.arity ≤ field.toNat := by
  simp [get?, arity]

end Record

end WorksetIteration
