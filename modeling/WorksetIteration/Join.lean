import WorksetIteration.Join.Probe

/-!
# Joins

An inner join of two operands on their keys.  An operand is a list of records or a collection already stored by key;
from the operands follows which side is stored and which side probes, and the result is the same either way up to
order.  Keys with a missing value match nothing.

Main definitions:

- `Operand`: what can be joined.
- `Join`: the keys, the side to store, the limit of pairs and the number of workers.
- `Join.plan`: which side is stored and which records probe.
- `Join.execute`: the joined records.
-/

namespace WorksetIteration

/-! ## Operands -/

/-- What can be joined. -/
inductive Operand where
  /-- Records that are stored for the join or probe. -/
  | records (rs : List Record)
  /-- Records that are stored by key already. -/
  | keyed (stored : KeyedRecords)

namespace Operand

/-- The number of records. -/
def size : Operand → Nat
  | .records rs => rs.length
  | .keyed stored => stored.size

/-- Whether there is no record. -/
def isEmpty (operand : Operand) : Bool :=
  operand.size = 0

end Operand

/-- Which of two lists of records is stored. -/
inductive BuildSide where
  /-- The shorter one, the left one if they have one length. -/
  | auto
  | left
  | right
deriving DecidableEq, Repr

/-- Whether the left one of two lists of the given lengths is stored. -/
def BuildSide.storesLeft (side : BuildSide) (left right : Nat) : Bool :=
  match side with
  | .auto => decide (left ≤ right)
  | .left => true
  | .right => false

/-! ## Plans -/

/-- An inner join. -/
structure Join where
  /-- The key of the left operand. -/
  leftKey : KeySpec
  /-- The key of the right operand. -/
  rightKey : KeySpec
  /-- Which of two lists is stored. -/
  buildSide : BuildSide := .auto
  /-- The number of pairs that may be combined, if it is bounded. -/
  fanoutLimit : Option UInt64 := none
  /-- The number of workers. -/
  parallelism : UInt64 := 1

/-- How a join is carried out: one side is stored, the records of the other probe. -/
structure JoinPlan where
  /-- The side that is stored. -/
  storedSide : Side
  /-- The stored records of a key. -/
  lookup : Key → Matches
  /-- The key of the probing records. -/
  probeKey : KeySpec
  /-- The probing records in order. -/
  probing : List Record

namespace Join

/-- The plan that probes the stored records of the left side. -/
def planStoredLeft (j : Join) (lookup : Key → Matches) (right : List Record) : JoinPlan :=
  ⟨.left, lookup, j.rightKey, right⟩

/-- The plan that probes the stored records of the right side. -/
def planStoredRight (j : Join) (lookup : Key → Matches) (left : List Record) : JoinPlan :=
  ⟨.right, lookup, j.leftKey, left⟩

/-- Refuses an operand that is stored by another key than the join declares for its side. -/
def checkStoredKey (side : Side) (declared : KeySpec) : Operand → Except Error Unit
  | .records _ => .ok ()
  | .keyed stored =>
      if stored.key = declared then .ok ()
      else .error (.invalidOperation (.joinKeyMismatch side declared stored.key))

/-- The plan of a join.  A stored operand is probed by the other one; of two stored ones the smaller probes; of two
lists one is stored first. -/
def plan (j : Join) : Operand → Operand → Except Error JoinPlan
  | .keyed l, .records r => .ok (j.planStoredLeft l.lookup r)
  | .records l, .keyed r => .ok (j.planStoredRight r.lookup l)
  | .keyed l, .keyed r =>
      if l.size ≤ r.size then .ok (j.planStoredRight r.lookup l.records)
      else .ok (j.planStoredLeft l.lookup r.records)
  | .records l, .records r =>
      if j.buildSide.storesLeft l.length r.length then do
        let index ← Index.buildMatchable l j.leftKey
        pure (j.planStoredLeft index.lookup r)
      else do
        let index ← Index.buildMatchable r j.rightKey
        pure (j.planStoredRight index.lookup l)

/-! ## Execution -/

/-- The function that takes a stored and a probing record, for one that takes a left and a right record. -/
def orient (storedSide : Side) (combine : Record → Record → Option Record) (stored probing : Record) :
    Option Record :=
  match storedSide with
  | .left => combine stored probing
  | .right => combine probing stored

/-- The probing of a plan. -/
def probe (j : Join) (p : JoinPlan) (combine : Record → Record → Option Record) : Probe where
  key := p.probeKey
  lookup := p.lookup
  limit := j.fanoutLimit
  combine := orient p.storedSide combine

/-- The join of two operands: `combine` gets the left and the right record of each matching pair, and the pairs for
which it returns nothing are dropped. -/
def execute (j : Join) (schedule : Schedule) (left right : Operand)
    (combine : Record → Record → Option Record) : Except Error (List Record) := do
  checkStoredKey .left j.leftKey left
  checkStoredKey .right j.rightKey right
  let p ← j.plan left right
  (j.probe p combine).execute schedule j.parallelism p.probing

end Join

end WorksetIteration
