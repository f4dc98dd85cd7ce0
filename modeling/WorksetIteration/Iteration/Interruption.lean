import WorksetIteration.Iteration

/-!
# Interruptions

The flag for cancelling is shared: others may set it while an iteration runs.  It is looked at twice in a round.  If it
is set during a call of the step, whoever did it, the reply of the step says so; if it is set between two rounds, the
run stops before the next one.  As the rounds have no state but the solution set, the workset and the flag, such a run
is one that is left at a bound and taken up again with the flag set.

Main definitions:

- `Rounds.resume`: rounds taken up again where they were left.
- `runRoundsInterrupted`, `Iteration.runInterrupted`: rounds and runs whose flag others set before a given round.
-/

namespace WorksetIteration

/-- Rounds that have stopped at their bound, taken up again from the solution set, the workset and the flag that they
have left. -/
def Rounds.resume (first : Rounds) (more : SolutionSet → Workset → Bool → Rounds) : Rounds :=
  match first.ending with
  | .stopped .maxRoundsReached solution workset =>
      let rest := more solution workset first.cancelled
      ⟨first.invocations ++ rest.invocations, first.stats ++ rest.stats, rest.ending, rest.cancelled⟩
  | .stopped .converged _ _ | .stopped .cancelled _ _ | .failed _ _ => first

/-- The rounds of `runRounds` with the flag set by others after some of them, if these are completed. -/
def runRoundsInterrupted (env : Surroundings) (step : Step) (interruption : Option Nat) (left : Nat)
    (solution : SolutionSet) (workset : Workset) (cancelled : Bool) : Rounds :=
  match interruption with
  | none => runRounds env step left solution workset cancelled
  | some n =>
      if n ≤ left then
        (runRounds env step n solution workset cancelled).resume fun solution workset _ =>
          runRounds env step (left - n) solution workset true
      else runRounds env step left solution workset cancelled

namespace Iteration

/-- A run whose flag others set after some of its rounds, if these are completed. -/
def runInterrupted (it : Iteration) (interruption : Option Nat) (step : Step)
    (schedules : UInt32 → Nat → Schedule) (solution workset : List Record) : Run :=
  it.runWith (fun seeded => runRoundsInterrupted (it.surroundings schedules) step interruption
    it.config.maxRounds.toNat seeded (.seed workset) it.cancelled) solution

/-- Without an interruption this is a run. -/
theorem runInterrupted_none (it : Iteration) (step : Step) (schedules : UInt32 → Nat → Schedule)
    (solution workset : List Record) :
    it.runInterrupted none step schedules solution workset = it.run step schedules solution workset :=
  rfl

end Iteration

end WorksetIteration
