import Std.Data.TreeMap
import WorksetIteration.Key.Extraction

/-!
# Records found by key

A collection of records that answers which of them have a given key.  An index is such a collection built from a list,
and keeps records of one key in the order in which they came.

Main definitions:

- `Matches`: the records found under a key, taken one at a time.
- `KeyedRecords`: any collection of records stored by key.
- `Index`: a collection built from a list of records.
-/

namespace WorksetIteration

/-! ## Matches -/

/-- The records found under a key that are still to be taken. -/
structure Matches where
  /-- The records in order. -/
  toList : List Record
deriving DecidableEq, Repr

namespace Matches

/-- No record. -/
def empty : Matches :=
  ⟨[]⟩

/-- A single record. -/
def one (r : Record) : Matches :=
  ⟨[r]⟩

/-- The number of records still to be taken. -/
def size (m : Matches) : Nat :=
  m.toList.length

/-- The next record, and what is left after it. -/
def next (m : Matches) : Option Record × Matches :=
  (m.toList.head?, ⟨m.toList.tail⟩)

@[simp]
theorem toList_empty : empty.toList = [] :=
  rfl

@[simp]
theorem toList_one (r : Record) : (one r).toList = [r] :=
  rfl

end Matches

/-! ## Collections stored by key -/

/-- Records stored by key. -/
structure KeyedRecords where
  /-- The key they are stored by. -/
  key : KeySpec
  /-- The number of records. -/
  size : Nat
  /-- The records of a key. -/
  lookup : Key → Matches
  /-- All records. -/
  records : List Record

/-! ## Indexes -/

/-- A collection of records built from a list, with the records of each key in the order in which they came. -/
structure Index where
  /-- The key the records are stored by. -/
  key : KeySpec
  /-- The records of each key. -/
  buckets : Std.TreeMap Key (Array Record)
  /-- The number of records given. -/
  size : Nat

namespace Index

/-- The index of no record. -/
def empty (key : KeySpec) : Index :=
  ⟨key, ∅, 0⟩

/-- A record added behind those of its key. -/
def push (index : Index) (k : Key) (r : Record) : Index :=
  { index with
    buckets := index.buckets.alter k fun bucket? => some ((bucket?.getD #[]).push r)
    size := index.size + 1 }

/-- A record counted but not stored. -/
def skip (index : Index) : Index :=
  { index with size := index.size + 1 }

/-- The index with further records. -/
def addAll (index : Index) : List Record → Except Error Index
  | [] => .ok index
  | r :: rest => do
      let k ← index.key.extract r
      (index.push k r).addAll rest

/-- The index with further records, of which those whose key has a missing value are left out. -/
def addMatchable (index : Index) : List Record → Except Error Index
  | [] => .ok index
  | r :: rest => do
      let k ← index.key.extract r
      (if k.hasNull then index.skip else index.push k r).addMatchable rest

/-- The index of a list of records; the first record without a key is reported. -/
def build (records : List Record) (key : KeySpec) : Except Error Index :=
  (empty key).addAll records

/-- The index of the records that can match in a join.  Records whose key has a missing value count but are not
found. -/
def buildMatchable (records : List Record) (key : KeySpec) : Except Error Index :=
  (empty key).addMatchable records

/-- Whether no record was given. -/
def isEmpty (index : Index) : Bool :=
  index.size = 0

/-- The records of a key in the order in which they came. -/
def lookup (index : Index) (k : Key) : Matches :=
  match index.buckets[k]? with
  | some bucket => ⟨bucket.toList⟩
  | none => .empty

/-- The number of different keys stored. -/
def keyCount (index : Index) : Nat :=
  index.buckets.size

/-- The greatest number of records under one key. -/
def maxBucketLength (index : Index) : Nat :=
  (index.buckets.toList.map fun bucket => bucket.2.size).foldl max 0

/-- All records stored, key by key. -/
def records (index : Index) : List Record :=
  index.buckets.toList.flatMap fun bucket => bucket.2.toList

/-- The index as a collection stored by key. -/
def toKeyed (index : Index) : KeyedRecords where
  key := index.key
  size := index.size
  lookup := index.lookup
  records := index.records

end Index

end WorksetIteration
