import WorksetIteration.Iteration.Interruption

/-!
# Commands to an iteration

An iteration is used again and again: it is run, cancelled and reset in any order, and its state and its flag are what
the commands before have left.

Main definitions:

- `Command`: what an iteration can be asked to do.
- `Iteration.perform`: the runs that a list of commands makes, and the iteration that they leave.
-/

namespace WorksetIteration

/-- What an iteration can be asked to do.  Every run has a step of its own, as a step may remember the runs before, and
may be interrupted. -/
inductive Command where
  /-- A run from seed records of the solution set and of the workset. -/
  | run (interruption : Option Nat) (step : Step) (schedules : UInt32 → Nat → Schedule)
      (solution workset : List Record)
  /-- A run with the same seed records for both. -/
  | runUnified (interruption : Option Nat) (step : Step) (schedules : UInt32 → Nat → Schedule) (seed : List Record)
  /-- The flag for cancelling is set. -/
  | cancel
  /-- It is cleared. -/
  | reset

namespace Iteration

/-- The runs that commands make one after the other, and the iteration that they leave. -/
def perform (it : Iteration) : List Command → List Run × Iteration
  | [] => ([], it)
  | .run interruption step schedules solution workset :: rest =>
      let run := it.runInterrupted interruption step schedules solution workset
      let (runs, last) := run.after.perform rest
      (run :: runs, last)
  | .runUnified interruption step schedules seed :: rest =>
      let run := it.runInterrupted interruption step schedules seed seed
      let (runs, last) := run.after.perform rest
      (run :: runs, last)
  | .cancel :: rest => it.cancel.perform rest
  | .reset :: rest => it.reset.perform rest

end Iteration

end WorksetIteration
