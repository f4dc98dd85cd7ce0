import WorksetIteration.Number.Decimal
import WorksetIteration.Text.Quoted

/-!
# Values

The values that fields of a record hold: nothing, a truth value, an integer of thirty-two or sixty-four bits, a
floating-point number or a text.  Equality is strict in the type, so the number one has three different values; all
NaNs are one value, and the two zeros are two.

Main definitions:

- `Value`, `DataType`: the values and their types.
- `Value.compare`: the order of all values: nothing, truth values, numbers by exact value, texts.
- `Value.text`: the printed form.
-/

namespace WorksetIteration

/-! ## Types -/

/-- The types of values that are there. -/
inductive DataType where
  | boolean
  | int32
  | int64
  | float64
  | string
deriving DecidableEq, Repr

namespace DataType

/-- All types in ascending order. -/
def all : List DataType :=
  [.boolean, .int32, .int64, .float64, .string]

/-- The name of a type in messages. -/
def name : DataType → String
  | .boolean => "Boolean"
  | .int32 => "Int32"
  | .int64 => "Int64"
  | .float64 => "Float64"
  | .string => "String"

/-- The place of a type in the order of types. -/
def rank : DataType → Nat
  | .boolean => 0
  | .int32 => 1
  | .int64 => 2
  | .float64 => 3
  | .string => 4

/-- Whether values of the type are integers. -/
def isInteger : DataType → Bool
  | .int32 | .int64 => true
  | _ => false

/-- Whether values of the type are numbers. -/
def isNumeric (t : DataType) : Bool :=
  t.isInteger || t = .float64

end DataType

/-! ## Values and their payloads -/

/-- The value of a field. -/
inductive Value where
  /-- No value. -/
  | null
  | boolean (b : Bool)
  | int32 (n : Int32)
  | int64 (n : Int64)
  | float64 (x : Float)
  | string (s : String)
deriving DecidableEq, Repr

instance : Inhabited Value :=
  ⟨.null⟩

namespace Value

/-- The type of a value that is there. -/
def dataType? : Value → Option DataType
  | .null => none
  | .boolean _ => some .boolean
  | .int32 _ => some .int32
  | .int64 _ => some .int64
  | .float64 _ => some .float64
  | .string _ => some .string

/-- Whether the value is missing. -/
def isNull (v : Value) : Bool :=
  v = .null

/-- The truth value held. -/
def asBool? : Value → Option Bool
  | .boolean b => some b
  | _ => none

/-- The integer of thirty-two bits held. -/
def asInt32? : Value → Option Int32
  | .int32 n => some n
  | _ => none

/-- The integer of sixty-four bits held. -/
def asInt64? : Value → Option Int64
  | .int64 n => some n
  | _ => none

/-- The floating-point number held. -/
def asFloat? : Value → Option Float
  | .float64 x => some x
  | _ => none

/-- The text held. -/
def asString? : Value → Option String
  | .string s => some s
  | _ => none

/-- The integer held, of either width. -/
def widenInt? : Value → Option Int64
  | .int32 n => some n.toInt64
  | .int64 n => some n
  | _ => none

/-- The number held as a floating-point number; an integer goes to the nearest one. -/
def widenFloat? : Value → Option Float
  | .int32 n => some (Float.ofInt n.toInt)
  | .int64 n => some (Float.ofInt n.toInt)
  | .float64 x => some x
  | _ => none

/-- Whether the value is a number. -/
def isNumeric (v : Value) : Bool :=
  v.dataType?.any DataType.isNumeric

/-- The value of a payload that may be missing. -/
def ofOption {α : Type} (make : α → Value) : Option α → Value
  | none => .null
  | some a => make a

/-! ## Order -/

/-- The place of the kind of a value: nothing, truth values, numbers, texts. -/
def kindRank : Value → Nat
  | .null => 0
  | .boolean _ => 1
  | .int32 _ | .int64 _ | .float64 _ => 2
  | .string _ => 3

/-- The place of the type of a value among the types; a missing value comes first. -/
def typeRank (v : Value) : Nat :=
  match v.dataType? with
  | none => 0
  | some t => t.rank + 1

/-- The order of numbers by exact value; `none` where one side is no number. -/
def compareNumbers? (a b : Value) : Option Ordering :=
  match a.widenInt?, b.widenInt?, a.asFloat?, b.asFloat? with
  | some m, some n, _, _ => some (Ord.compare m.toInt n.toInt)
  | some m, _, _, some y => some (compareWordFloat m y)
  | _, some n, some x, _ => some (compareWordFloat n x).swap
  | _, _, some x, some y => some (compareFloats x y)
  | _, _, _, _ => none

/-- The order of all values.  Numbers stand by exact value, and numbers of one value and different types by type, so
that only equal values compare as equal. -/
def compare (a b : Value) : Ordering :=
  match a, b with
  | .boolean x, .boolean y => Ord.compare x y
  | .string x, .string y => Ord.compare x y
  | _, _ =>
      match compareNumbers? a b with
      | some numeric => numeric.then (Ord.compare a.typeRank b.typeRank)
      | none => Ord.compare a.kindRank b.kindRank

instance : Ord Value :=
  ⟨Value.compare⟩

/-- Whether a value stands below another. -/
def isBelow (a b : Value) : Bool :=
  (Ord.compare a b).isLT

/-! ## Text -/

/-- The printed form of a value; a text is quoted. -/
def text : Value → String
  | .null => "null"
  | .boolean b => if b then "true" else "false"
  | .int32 n => toString n.toInt
  | .int64 n => toString n.toInt
  | .float64 x => floatText x
  | .string s => Text.quoted s

/-- The printed forms of values, separated by commas and between parentheses. -/
def listText (values : List Value) : String :=
  "(" ++ ", ".intercalate (values.map text) ++ ")"

/-! ## Codes -/

/-- A code of sixty-four bits, the same for equal values. -/
def code : Value → UInt64
  | .null => 0
  | .boolean b => if b then 2 else 1
  | .int32 n => 3 + n.toInt64.toUInt64
  | .int64 n => 5 + n.toUInt64
  | .float64 x => 7 + x.toBits
  | .string s => s.toList.foldl (fun h c => 31 * h + c.toNat.toUInt64) 11

end Value

end WorksetIteration
