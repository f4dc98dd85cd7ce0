import WorksetIteration.Join

/-!
# Worksets

The records that a round has to process.  Duplicates are allowed; a workset knows the round it feeds, and the next one
takes its place as a whole.

Main definitions:

- `Workset.seed`, `Workset.replace`: the first workset, and the one that follows.
-/

namespace WorksetIteration

/-- The records of one round. -/
structure Workset where
  /-- The round that the records feed. -/
  round : UInt32 := 0
  /-- The records in order. -/
  records : List Record := []
deriving DecidableEq, Repr

namespace Workset

/-- The workset of round zero. -/
def seed (records : List Record) : Workset :=
  ⟨0, records⟩

/-- The workset of the following round. -/
def replace (w : Workset) (next : List Record) : Workset :=
  ⟨w.round + 1, next⟩

/-- The number of records. -/
def size (w : Workset) : Nat :=
  w.records.length

/-- Whether there is no record. -/
def isEmpty (w : Workset) : Bool :=
  w.records.isEmpty

/-- The workset as an operand of a join. -/
def toOperand (w : Workset) : Operand :=
  .records w.records

@[simp]
theorem records_replace (w : Workset) (next : List Record) : (w.replace next).records = next :=
  rfl

@[simp]
theorem round_replace (w : Workset) (next : List Record) : (w.replace next).round = w.round + 1 :=
  rfl

end Workset

end WorksetIteration
