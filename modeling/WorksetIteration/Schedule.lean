import WorksetIteration.Key

/-!
# Schedules

What a parallel operator leaves open: which worker moves next, and to which worker the records of a key go.  Operators
take a schedule as an argument, so a statement about all schedules is a statement about all ways to run them.

Main definitions:

- `Schedule`: one resolution of these choices.
- `Schedule.inOrder`: workers run one after the other.
-/

namespace WorksetIteration

/-- One resolution of the choices that a parallel operator leaves open. -/
structure Schedule where
  /-- The worker that moves at a tick, counted among those that still have work and modulo their number. -/
  pick : Nat → Nat
  /-- The code by which the records of a key are dealt to partitions. -/
  place : Key → UInt64

/-- The schedule in which each worker finishes before the next one starts, and keys are dealt by their code. -/
def Schedule.inOrder : Schedule :=
  ⟨fun _ => 0, Key.code⟩

instance : Inhabited Schedule :=
  ⟨.inOrder⟩

end WorksetIteration
