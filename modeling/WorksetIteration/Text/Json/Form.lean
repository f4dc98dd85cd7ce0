import WorksetIteration.Text.Form
import WorksetIteration.Text.Json

/-!
# JSON as a form of texts

Fields are written as an object with all of them in their order and no blanks.  They are read from an object, whose
members may come in any order and be missing, or from an array of the values in the order of the fields, which may end
early.  Members of other names are passed over, and no field may come twice.

Main definitions:

- `Shape.ofJson?`, `Shape.toJsonChars`: reading and writing the values of a shape.
- `Json.Source`: where the values of fields stand.
- `Json.form`: the form.
-/

namespace WorksetIteration

/-! ## Values -/

namespace Json

/-- A natural number below a bound. -/
def toNatural? (bound : Nat) : Json → Option Nat
  | .natural n => if n < bound then some n else none
  | _ => none

/-- A natural number of thirty-two bits. -/
def toUInt32? (j : Json) : Option UInt32 :=
  (j.toNatural? UInt32.size).map UInt32.ofNat

/-- A natural number of sixty-four bits. -/
def toUInt64? (j : Json) : Option UInt64 :=
  (j.toNatural? UInt64.size).map UInt64.ofNat

/-- A text. -/
def toText? : Json → Option String
  | .string pieces => textOf? pieces
  | _ => none

/-- The list of what the elements of an array are read as. -/
def toList? {α : Type} (read : Json → Option α) : Json → Option (List α)
  | .array elements => elements.mapM read
  | _ => none

/-- What a value is read as, or nothing for `null`. -/
def toOption? {α : Type} (read : Json → Option α) : Json → Option (Option α)
  | .null => some none
  | j => (read j).map some

end Json

namespace Shape

/-- Reads a value of a shape. -/
def ofJson? : (shape : Shape) → Json → Option shape.Value
  | .text => Json.toText?
  | .word32 => Json.toUInt32?
  | .word64 => Json.toUInt64?
  | .words => Json.toList? Json.toUInt64?
  | .optionalWord => Json.toOption? Json.toUInt64?

/-- The characters of a written value. -/
def toJsonChars : (shape : Shape) → shape.Value → List Char
  | .text, s => Json.writeString s
  | .word32, n => Json.writeNatural n.toNat
  | .word64, n => Json.writeNatural n.toNat
  | .words, ns => Json.writeNaturals (ns.map UInt64.toNat)
  | .optionalWord, none => "null".toList
  | .optionalWord, some n => Json.writeNatural n.toNat

end Shape

/-! ## Fields -/

namespace Json

/-- Where the value of a field stands, given its name: nowhere, or once.  The lookup fails if it stands there more than
once. -/
abbrev Source :=
  String → Option (Option Json)

namespace Source

/-- The fields of the given names in an array, by position; more elements than fields are refused. -/
def ofElements? (names : List String) (elements : List Json) : Option Source :=
  if elements.length ≤ names.length then some fun name => some elements[names.idxOf name]? else none

/-- The fields among the members of an object, by name; a name that is no text is refused. -/
def ofMembers? (members : List (List JsonPiece × Json)) : Option Source := do
  let named ← members.mapM fun m => (textOf? m.1).map fun name => (name, m.2)
  pure fun name =>
    match named.filter fun m => m.1 = name with
    | [] => some none
    | [m] => some (some m.2)
    | _ => none

/-- The fields of the given names in a value. -/
def ofJson? (names : List String) : Json → Option Source
  | .array elements => ofElements? names elements
  | .object members => ofMembers? members
  | _ => none

/-- What is given by the values that stand for the fields. -/
def given (source : Source) : Given where
  field? := fun name shape => do
    match ← source name with
    | none => pure none
    | some j => (shape.ofJson? j).map some

end Source

/-- One written member of an object. -/
def writeMember (name : String) (value : List Char) : List Char :=
  writeString name ++ ':' :: value

/-- The characters of written fields. -/
def writeFields (fields : List Field) : List Char :=
  '\x7b' :: [','].intercalate (fields.map fun field => writeMember field.name (field.shape.toJsonChars field.value)) ++
    ['\x7d']

/-- The form of JSON texts. -/
def form : TextForm where
  writeValue := fun shape value => String.ofList (shape.toJsonChars value)
  readValue? := fun shape s => (parse s).bind shape.ofJson?
  writeFields := fun fields => String.ofList (writeFields fields)
  readFields? := fun names s => do
    let j ← parse s
    let source ← Source.ofJson? names j
    pure source.given

end Json

end WorksetIteration
