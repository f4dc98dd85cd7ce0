import Std.Data.TreeMap
import WorksetIteration.Partition

/-!
# Aggregates

Records of one key are reduced to the first of them with one field replaced: by the least, the greatest or the sum of
the values that the field has in the group.  Missing values are passed over.

Main definitions:

- `Reduction.fold`: one value folded into what was accumulated before.
- `Aggregate.executeGroup`: the groups of a list of records in the order in which their keys first appear.
- `Aggregate.execute`: the same by several workers, each with the groups dealt to it.
-/

namespace WorksetIteration

/-! ## Folding values -/

/-- How the values of a group are reduced. -/
inductive Reduction where
  | min
  | max
  | sum
deriving DecidableEq, Repr

namespace Reduction

/-- The first of the listed values that is no number makes the sum impossible. -/
def checkNumeric (field : UInt64) : List Value → Except Error Unit
  | [] => .ok ()
  | v :: rest =>
      if v.isNumeric then checkNumeric field rest else .error (.notNumeric field v.dataType?)

/-- The sum of two integers of thirty-two bits, unless it leaves their range. -/
def addInt32? (a b : Int32) : Option Int32 :=
  let total := a.toInt + b.toInt
  if Int32.minValue.toInt ≤ total ∧ total ≤ Int32.maxValue.toInt then some (Int32.ofInt total) else none

/-- The sum of two integers of sixty-four bits, unless it leaves their range. -/
def addInt64? (a b : Int64) : Option Int64 :=
  let total := a.toInt + b.toInt
  if Int64.minValue.toInt ≤ total ∧ total ≤ Int64.maxValue.toInt then some (Int64.ofInt total) else none

/-- The sum of two numbers: exact within thirty-two bits if both have them, exact within sixty-four bits if both are
integers, and a floating-point sum otherwise. -/
def add (field : UInt64) (a b : Value) : Except Error Value := do
  checkNumeric field [b, a]
  match a.asInt32?, b.asInt32?, a.widenInt?, b.widenInt? with
  | some m, some n, _, _ =>
      match addInt32? m n with
      | some total => pure (.int32 total)
      | none => .error (.numericOverflow field)
  | _, _, some m, some n =>
      match addInt64? m n with
      | some total => pure (.int64 total)
      | none => .error (.numericOverflow field)
  | _, _, _, _ => pure (.float64 (a.widenFloat?.getD 0 + b.widenFloat?.getD 0))

/-- A value folded into the accumulated one.  A missing value changes nothing, and the first value that is there is
taken as it is, if a sum can start with it. -/
def fold (op : Reduction) (field : UInt64) (acc v : Value) : Except Error Value :=
  if v.isNull then .ok acc
  else if acc.isNull then
    match op with
    | .sum => do
        checkNumeric field [v]
        pure v
    | _ => .ok v
  else
    match op with
    | .min => .ok (if v.isBelow acc then v else acc)
    | .max => .ok (if acc.isBelow v then v else acc)
    | .sum => add field acc v

end Reduction

/-! ## Groups -/

/-- An aggregate of one field by key. -/
structure Aggregate where
  /-- The key of a group. -/
  key : KeySpec
  /-- The field that is reduced. -/
  field : UInt64
  /-- How its values are reduced. -/
  op : Reduction
  /-- The number of workers. -/
  parallelism : UInt64 := 1

/-- A group under way: its first record and what its values have come to. -/
structure Group where
  /-- The first record of the group. -/
  first : Record
  /-- What the values of the reduced field have come to. -/
  acc : Value

/-- The groups under way, in the order in which their keys first appeared. -/
structure Groups where
  /-- The keys, latest first. -/
  keys : List Key
  /-- The group of each key. -/
  table : Std.TreeMap Key Group

namespace Groups

/-- No group. -/
def empty : Groups :=
  ⟨[], ∅⟩

/-- The group of a key, if one is under way. -/
def find? (gs : Groups) (k : Key) : Option Group :=
  gs.table[k]?

/-- A group for a key, in place of the one under way if there is one. -/
def put (gs : Groups) (k : Key) (g : Group) : Groups :=
  ⟨if gs.table.contains k then gs.keys else k :: gs.keys, gs.table.insert k g⟩

/-- The groups in the order in which their keys first appeared. -/
def toList (gs : Groups) : List Group :=
  gs.keys.reverse.filterMap gs.find?

end Groups

namespace Aggregate

/-- A record folded into its group. -/
def addRecord (a : Aggregate) (gs : Groups) (r : Record) : Except Error Groups :=
  match r.get? a.field with
  | none => .error (.invalidOperation (.aggregateFieldMissing a.field r.arity))
  | some v => do
      let k ← a.key.extract r
      let group := (gs.find? k).getD ⟨r, .null⟩
      let acc ← a.op.fold a.field group.acc v
      pure (gs.put k { group with acc := acc })

/-- Records folded into their groups in order. -/
def addAll (a : Aggregate) (gs : Groups) : List Record → Except Error Groups
  | [] => .ok gs
  | r :: rest => do
      let gs ← a.addRecord gs r
      a.addAll gs rest

/-- The first record of a group with the reduced field replaced. -/
def summary (a : Aggregate) (g : Group) : Record :=
  (g.first.withField? a.field g.acc).getD g.first

/-- The groups of a list of records, each as one record, in the order in which their keys first appear. -/
def executeGroup (a : Aggregate) (records : List Record) : Except Error (List Record) := do
  let gs ← a.addAll .empty records
  pure (gs.toList.map a.summary)

/-- The groups of each bucket, one bucket after the other. -/
def executeBuckets (a : Aggregate) : List (List Record) → Except Error (List Record)
  | [] => .ok []
  | bucket :: rest => do
      let out ← a.executeGroup bucket
      let more ← a.executeBuckets rest
      pure (out ++ more)

/-- The aggregate of a list of records.  With one worker the groups come in the order in which their keys first appear;
with more, each worker has the records of the keys dealt to it. -/
def execute (a : Aggregate) (schedule : Schedule) (records : List Record) : Except Error (List Record) :=
  if a.parallelism ≤ 1 then a.executeGroup records
  else do
    let buckets ← partitionByKey schedule.place a.key a.parallelism records
    a.executeBuckets buckets

end Aggregate

end WorksetIteration
