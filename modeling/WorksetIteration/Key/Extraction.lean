import WorksetIteration.Error

/-!
# Extracting keys

The key of a record is read off its fields in the order of the key specification.  A record that lacks one of them has
no key, and the first field that is missing is reported.

Main definitions:

- `KeySpec.ofIndices`: the key of the listed fields, refused if there is none.
- `KeySpec.extract`: the key of a record.
-/

namespace WorksetIteration

namespace KeySpec

/-- The key of the listed fields; a key of no field is refused. -/
def ofIndices (indices : List UInt64) : Except Error KeySpec :=
  match ofIndices? indices with
  | some spec => .ok spec
  | none => .error (.invalidConfig .emptyKey)

/-- The values of the listed fields of a record; the first one that is missing is reported. -/
def extractFields (r : Record) : List UInt64 → Except Error (List Value)
  | [] => .ok []
  | i :: rest =>
      match r.get? i with
      | none => .error (.missingKeyField i r.arity)
      | some v =>
          match extractFields r rest with
          | .ok values => .ok (v :: values)
          | .error e => .error e

/-- The key of a record. -/
def extract (spec : KeySpec) (r : Record) : Except Error Key :=
  match extractFields r spec.indices with
  | .ok values => .ok ⟨values⟩
  | .error e => .error e

end KeySpec

end WorksetIteration
