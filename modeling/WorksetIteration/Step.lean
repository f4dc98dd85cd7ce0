import WorksetIteration.Aggregate
import WorksetIteration.SideInput
import WorksetIteration.SolutionSet
import WorksetIteration.Workset

/-!
# Steps

What one round computes: from the workset, the solution set and the side inputs it makes the next workset and the
changes to the solution set, or it fails.  A step reads and never writes; it may ask for the iteration to be cancelled.

Main definitions:

- `StepContext`: everything that a step reads.
- `StepOutput`, `StepReply`: what it answers.
- `Step`: a function from the one to the other.
-/

namespace WorksetIteration

/-! ## Context -/

/-- Everything that a step may read. -/
structure StepContext where
  /-- The records to process, with the number of the round. -/
  workset : Workset
  /-- The solution set as the rounds before have left it. -/
  solution : SolutionSet
  /-- The side inputs. -/
  sideInputs : SideInputs
  /-- The number of workers of a join or an aggregate. -/
  parallelism : UInt64
  /-- The number of pairs that one join may combine, if it is bounded. -/
  fanoutLimit : Option UInt64
  /-- How the workers of the first, second, … operator of this round move. -/
  schedule : Nat → Schedule

namespace StepContext

/-- The number of the round, from zero. -/
def round (ctx : StepContext) : UInt32 :=
  ctx.workset.round

/-- The side input of a name; an unknown name is refused. -/
def sideInput (ctx : StepContext) (name : String) : Except Error SideInput :=
  match ctx.sideInputs.get? name with
  | some input => .ok input
  | none => .error (.invalidOperation (.unknownSideInput name))

/-- A join with the workers and the limit of the iteration. -/
def join (ctx : StepContext) (leftKey rightKey : KeySpec) : Join where
  leftKey := leftKey
  rightKey := rightKey
  fanoutLimit := ctx.fanoutLimit
  parallelism := ctx.parallelism

/-- An aggregate with the workers of the iteration. -/
def aggregate (ctx : StepContext) (key : KeySpec) (field : UInt64) (op : Reduction) : Aggregate where
  key := key
  field := field
  op := op
  parallelism := ctx.parallelism

/-- The solution set as an operand of a join. -/
def solutionOperand (ctx : StepContext) : Operand :=
  .keyed ctx.solution.toKeyed

end StepContext

/-! ## Answers -/

/-- What a round has produced. -/
structure StepOutput where
  /-- The records that the next round processes. -/
  next : List Record := []
  /-- The records written to the solution set. -/
  delta : List Record := []
deriving DecidableEq, Repr

/-- The output that changes the solution set and processes the changes next. -/
def StepOutput.unified (records : List Record) : StepOutput :=
  ⟨records, records⟩

/-- The answer of a step. -/
structure StepReply where
  /-- The output, or why there is none. -/
  outcome : Except Error StepOutput
  /-- Whether the iteration is asked to stop when the step returns. -/
  cancels : Bool := false

/-- What one round computes. -/
abbrev Step :=
  StepContext → StepReply

/-- A step that never cancels. -/
def Step.ofFunction (f : StepContext → Except Error StepOutput) : Step :=
  fun ctx => ⟨f ctx, false⟩

end WorksetIteration
