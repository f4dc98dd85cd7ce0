import WorksetIteration.Join

/-!
# Solution sets

The state that an iteration carries from round to round: at most one record per key.  Records are only added or
replaced, whole deltas at a time, and a delta with a record that has no key changes nothing.

Main definitions:

- `SolutionSet.seed`: the set of the seed records, if their keys differ.
- `SolutionSet.applyDelta`: all records of a delta written by key, the last one of each key staying.
- `SolutionSet.probe`, `SolutionSet.records`: the record of a key, and all of them.
-/

namespace WorksetIteration

/-- What a delta did to a solution set. -/
structure DeltaSummary where
  /-- The number of records whose key was new. -/
  inserted : Nat
  /-- The number of records that replaced another. -/
  updated : Nat
deriving DecidableEq, Repr

/-- Records stored by key, at most one for each. -/
structure SolutionSet where
  /-- The key the records are stored by. -/
  key : KeySpec
  /-- The record of each key. -/
  entries : Std.TreeMap Key Record

namespace SolutionSet

/-! ## Reading -/

/-- The set of no record. -/
def empty (key : KeySpec) : SolutionSet :=
  ⟨key, ∅⟩

/-- The record of a key. -/
def probe (s : SolutionSet) (k : Key) : Option Record :=
  s.entries[k]?

/-- The record stored under the key of the given one. -/
def probeRecord (s : SolutionSet) (r : Record) : Except Error (Option Record) := do
  let k ← s.key.extract r
  pure (s.probe k)

/-- The record of a key as matches of a lookup. -/
def lookup (s : SolutionSet) (k : Key) : Matches :=
  match s.probe k with
  | some r => .one r
  | none => .empty

/-- The number of records. -/
def size (s : SolutionSet) : Nat :=
  s.entries.size

/-- Whether there is no record. -/
def isEmpty (s : SolutionSet) : Bool :=
  s.entries.isEmpty

/-- All records. -/
def records (s : SolutionSet) : List Record :=
  s.entries.toList.map (·.2)

/-- The set as a collection stored by key. -/
def toKeyed (s : SolutionSet) : KeyedRecords where
  key := s.key
  size := s.size
  lookup := s.lookup
  records := s.records

/-! ## Seeding -/

/-- The set with further records, whose keys must be new. -/
def insertNew (s : SolutionSet) : List Record → Except Error SolutionSet
  | [] => .ok s
  | r :: rest => do
      let k ← s.key.extract r
      if s.entries.contains k then .error (.duplicateKey k)
      else insertNew { s with entries := s.entries.insert k r } rest

/-- The set of the seed records; the first one without a key or with the key of an earlier one is reported. -/
def seed (records : List Record) (key : KeySpec) : Except Error SolutionSet :=
  (empty key).insertNew records

/-! ## Deltas -/

/-- Each record with its key. -/
def keyed (key : KeySpec) : List Record → Except Error (List (Key × Record))
  | [] => .ok []
  | r :: rest => do
      let k ← key.extract r
      let more ← keyed key rest
      pure ((k, r) :: more)

/-- A record written under a key. -/
def write (s : SolutionSet) (entry : Key × Record) : SolutionSet :=
  { s with entries := s.entries.insert entry.1 entry.2 }

/-- Records written in order, and how many of their keys were new when they were written. -/
def writeAll (s : SolutionSet) : List (Key × Record) → SolutionSet × DeltaSummary
  | [] => (s, ⟨0, 0⟩)
  | entry :: rest =>
      let present := s.entries.contains entry.1
      let (s, summary) := (s.write entry).writeAll rest
      (s, if present then { summary with updated := summary.updated + 1 }
        else { summary with inserted := summary.inserted + 1 })

/-- All records of a delta written in order.  Their keys are extracted before anything is written. -/
def applyDelta (s : SolutionSet) (delta : List Record) : Except Error (SolutionSet × DeltaSummary) := do
  let entries ← keyed s.key delta
  pure (s.writeAll entries)

end SolutionSet

end WorksetIteration
