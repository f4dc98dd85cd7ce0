import WorksetIteration.Config
import WorksetIteration.Step

/-!
# Iterations

A delta iteration repeats a step until the workset is empty, the bound on the rounds is reached or it is cancelled.
What a round changes is written before the next one starts; a round that fails or is cancelled leaves the solution set
as the round before has left it.

Main definitions:

- `runRounds`: the rounds from a solution set and a workset on, with everything that can be observed of them.
- `Iteration`: a configured iteration with its side inputs, its state and its flag for cancelling.
- `Iteration.runWith`: a run with any rounds after its seeding.
- `Iteration.run`: one run from seed records.
-/

namespace WorksetIteration

/-! ## Results -/

/-- Why a run has stopped. -/
inductive Termination where
  /-- The workset is empty. -/
  | converged
  /-- The bound on the rounds is reached. -/
  | maxRoundsReached
  /-- It was cancelled. -/
  | cancelled
deriving DecidableEq, Repr

/-- The name of a reason to stop. -/
def Termination.name : Termination → String
  | .converged => "Converged"
  | .maxRoundsReached => "MaxRoundsReached"
  | .cancelled => "Cancelled"

/-- What is counted in a completed round. -/
structure RoundStats where
  /-- The number of the round. -/
  round : UInt32
  /-- The number of records it processed. -/
  worksetLength : Nat
  /-- The number of records it wrote. -/
  deltaLength : Nat
  /-- The number of records it left to the next round. -/
  nextWorksetLength : Nat
  /-- What its writes did. -/
  summary : DeltaSummary
deriving DecidableEq, Repr

/-- The result of a run that did not fail. -/
structure RunResult where
  /-- The records of the solution set. -/
  solution : List Record
  /-- Why the run has stopped. -/
  termination : Termination
  /-- The number of completed rounds. -/
  rounds : UInt32
  /-- The counts of each completed round. -/
  stats : List RoundStats
  /-- The number of records left in the workset. -/
  remaining : Nat
deriving DecidableEq, Repr

namespace RunResult

/-- Whether the workset has become empty. -/
def converged (r : RunResult) : Bool :=
  r.termination = .converged

/-- Whether the run has stopped at its bound. -/
def exhausted (r : RunResult) : Bool :=
  r.termination = .maxRoundsReached

end RunResult

/-- The state of an iteration. -/
inductive RunState where
  /-- Not run yet. -/
  | seeding
  /-- In the given round. -/
  | running (round : UInt32)
  /-- Stopped with an empty workset. -/
  | converged (rounds : UInt32)
  /-- Stopped at the bound on the rounds. -/
  | maxRoundsReached (rounds : UInt32)
  /-- Stopped because it was cancelled. -/
  | cancelled (rounds : UInt32)
  /-- Stopped because its seed records were refused. -/
  | seedingFailed
  /-- Stopped because a round failed. -/
  | failed (round : UInt32)
deriving DecidableEq, Repr

namespace RunState

/-- Whether a run is over. -/
def isTerminal : RunState → Bool
  | .seeding | .running _ => false
  | _ => true

/-- The printed form of a state with one number. -/
def textWith (name member : String) (n : UInt32) : String :=
  name ++ " \x7b " ++ member ++ ": " ++ toString n ++ " \x7d"

/-- The printed form of a state. -/
def text : RunState → String
  | .seeding => "Seeding"
  | .running round => textWith "Running" "round" round
  | .converged rounds => textWith "Converged" "rounds" rounds
  | .maxRoundsReached rounds => textWith "MaxRoundsReached" "rounds" rounds
  | .cancelled rounds => textWith "Cancelled" "rounds" rounds
  | .seedingFailed => "SeedingFailed"
  | .failed round => textWith "Failed" "round" round

/-- The state of a run that has stopped after a number of rounds. -/
def ofTermination : Termination → UInt32 → RunState
  | .converged, rounds => .converged rounds
  | .maxRoundsReached, rounds => .maxRoundsReached rounds
  | .cancelled, rounds => .cancelled rounds

end RunState

/-! ## Rounds -/

/-- One call of the step. -/
structure Invocation where
  /-- What the step has read. -/
  context : StepContext
  /-- What it has answered. -/
  reply : StepReply

/-- How the rounds of a run have ended. -/
inductive Ending where
  /-- They stopped, for a reason and with what they have left. -/
  | stopped (termination : Termination) (solution : SolutionSet) (workset : Workset)
  /-- A round failed. -/
  | failed (round : UInt32) (error : Error)

/-- Everything that can be observed of the rounds of a run. -/
structure Rounds where
  /-- The calls of the step in order. -/
  invocations : List Invocation
  /-- The counts of the completed rounds in order. -/
  stats : List RoundStats
  /-- How the rounds have ended. -/
  ending : Ending
  /-- The flag for cancelling when they ended. -/
  cancelled : Bool

/-- What does not change from round to round. -/
structure Surroundings where
  /-- The side inputs. -/
  sideInputs : SideInputs
  /-- The number of workers. -/
  parallelism : UInt64
  /-- The limit on the pairs of a join. -/
  fanoutLimit : Option UInt64
  /-- How the workers of each operator of each round move. -/
  schedules : UInt32 → Nat → Schedule

/-- What the step of a round reads. -/
def Surroundings.context (env : Surroundings) (solution : SolutionSet) (workset : Workset) : StepContext where
  workset := workset
  solution := solution
  sideInputs := env.sideInputs
  parallelism := env.parallelism
  fanoutLimit := env.fanoutLimit
  schedule := env.schedules workset.round

/-- The rounds from a solution set and a workset on, when `left` more rounds are allowed.  Before a round the workset is
looked at first, then the bound, then the flag; after it the flag is looked at before anything is written. -/
def runRounds (env : Surroundings) (step : Step) :
    (left : Nat) → SolutionSet → Workset → (cancelled : Bool) → Rounds
  | left, solution, workset, cancelled =>
      if workset.isEmpty then ⟨[], [], .stopped .converged solution workset, cancelled⟩
      else
        match left with
        | 0 => ⟨[], [], .stopped .maxRoundsReached solution workset, cancelled⟩
        | left + 1 =>
            if cancelled then ⟨[], [], .stopped .cancelled solution workset, cancelled⟩
            else
              let context := env.context solution workset
              let reply := step context
              match reply.outcome with
              | .error e => ⟨[⟨context, reply⟩], [], .failed workset.round e, reply.cancels⟩
              | .ok output =>
                  if reply.cancels then
                    ⟨[⟨context, reply⟩], [], .stopped .cancelled solution workset, true⟩
                  else
                    match solution.applyDelta output.delta with
                    | .error e => ⟨[⟨context, reply⟩], [], .failed workset.round e, false⟩
                    | .ok (solution, summary) =>
                        let stats : RoundStats :=
                          ⟨workset.round, workset.size, output.delta.length, output.next.length, summary⟩
                        let rest := runRounds env step left solution (workset.replace output.next) false
                        ⟨⟨context, reply⟩ :: rest.invocations, stats :: rest.stats, rest.ending, rest.cancelled⟩

/-! ## Iterations -/

/-- A configured iteration. -/
structure Iteration where
  /-- The settings. -/
  config : Config
  /-- The side inputs. -/
  sideInputs : SideInputs := {}
  /-- The state that the last run has left. -/
  state : RunState := .seeding
  /-- The flag for cancelling. -/
  cancelled : Bool := false

/-- Everything that can be observed of a run. -/
structure Run where
  /-- The result, or why there is none. -/
  outcome : Except Error RunResult
  /-- The calls of the step in order. -/
  invocations : List Invocation
  /-- The iteration afterwards. -/
  after : Iteration

namespace Iteration

/-- An iteration with valid settings and no side input. -/
def new (config : Config) : Except Error Iteration := do
  config.validate
  pure { config := config }

/-- The iteration with one more side input. -/
def withSideInput (it : Iteration) (input : SideInput) : Except Error Iteration := do
  let inputs ← it.sideInputs.insert input
  pure { it with sideInputs := inputs }

/-- The iteration with its flag for cancelling set. -/
def cancel (it : Iteration) : Iteration :=
  { it with cancelled := true }

/-- The iteration with its flag for cancelling cleared. -/
def reset (it : Iteration) : Iteration :=
  { it with cancelled := false }

/-- What does not change in the rounds of a run. -/
def surroundings (it : Iteration) (schedules : UInt32 → Nat → Schedule) : Surroundings where
  sideInputs := it.sideInputs
  parallelism := it.config.parallelism
  fanoutLimit := it.config.fanoutLimit
  schedules := schedules

/-- A run that seeds its solution set and goes on with the given rounds. -/
def runWith (it : Iteration) (rounds : SolutionSet → Rounds) (solution : List Record) : Run :=
  match SolutionSet.seed solution it.config.key with
  | .error e => ⟨.error e, [], { it with state := .seedingFailed }⟩
  | .ok seeded =>
      match (rounds seeded).ending with
      | .stopped termination solution workset =>
          ⟨.ok ⟨solution.records, termination, workset.round, (rounds seeded).stats, workset.size⟩,
            (rounds seeded).invocations,
            { it with state := .ofTermination termination workset.round, cancelled := (rounds seeded).cancelled }⟩
      | .failed round e =>
          ⟨.error (.stepFailed round e), (rounds seeded).invocations,
            { it with state := .failed round, cancelled := (rounds seeded).cancelled }⟩

/-- A run from the seed records of the solution set and of the workset. -/
def run (it : Iteration) (step : Step) (schedules : UInt32 → Nat → Schedule)
    (solution workset : List Record) : Run :=
  it.runWith (fun seeded => runRounds (it.surroundings schedules) step it.config.maxRounds.toNat seeded
    (.seed workset) it.cancelled) solution

/-- A run with the same seed records for the solution set and the workset. -/
def runUnified (it : Iteration) (step : Step) (schedules : UInt32 → Nat → Schedule)
    (seed : List Record) : Run :=
  it.run step schedules seed seed

end Iteration

end WorksetIteration
