import WorksetIteration.Graph.Edges
import WorksetIteration.Iteration

/-!
# Connected components

The smallest vertex of every connected component, found by spreading labels.  Every vertex starts with itself as its
label.  In a round each vertex of the workset offers its label to its neighbours; the least offer to a vertex is kept
where it is below the label that the vertex has.  The vertices with a new label are the next workset.

Main definitions:

- `Graph.spreadLabels`: one round.
- `Graph.connectedComponents`: the iteration from a list of vertices and a list of edges.
-/

namespace WorksetIteration

namespace Graph

/-! ## One round -/

/-- Which operand of the last join of a round the solution set is. -/
inductive Position where
  | first
  | second
deriving DecidableEq, Repr

/-- The name that the edges are registered by. -/
def edgesName : String :=
  "edges"

/-- The offer of a labelled vertex to the vertex at the other end of an edge. -/
def offer (vertex edge : Record) : Option Record := do
  let neighbour ← edge.get? 1
  let label ← vertex.get? 1
  pure (.pair neighbour label)

/-- An offer, where it is below the label that the vertex has. -/
def improvement (current candidate : Record) : Option Record := do
  let new ← candidate.get? 1
  let old ← current.get? 1
  if new.isBelow old then pure candidate else none

/-- The offers of the workset to its neighbours. -/
def offers (ctx : StepContext) (edges : SideInput) : Except Error (List Record) :=
  (ctx.join (.field 0) (.field 0)).execute (ctx.schedule 0) ctx.workset.toOperand edges.toOperand offer

/-- The least offer to each vertex. -/
def leastOffers (ctx : StepContext) (candidates : List Record) : Except Error (List Record) :=
  (ctx.aggregate (.field 0) 1 .min).execute (ctx.schedule 1) candidates

/-- The offers that are below the labels of their vertices. -/
def improvements (position : Position) (ctx : StepContext) (best : List Record) : Except Error (List Record) :=
  let join := ctx.join (.field 0) (.field 0)
  match position with
  | .first => join.execute (ctx.schedule 2) ctx.solutionOperand (.records best) improvement
  | .second =>
      join.execute (ctx.schedule 2) (.records best) ctx.solutionOperand fun candidate current =>
        improvement current candidate

/-- One round: the new labels are written to the solution set and are the next workset. -/
def spreadLabels (position : Position) (ctx : StepContext) : Except Error StepOutput := do
  let edges ← ctx.sideInput edgesName
  let candidates ← offers ctx edges
  let best ← leastOffers ctx candidates
  let improved ← improvements position ctx best
  pure (.unified improved)

/-! ## The iteration -/

/-- The iteration over the given edges, taken in both directions. -/
def componentsIteration (edges : List Record) (config : Config) : Except Error Iteration := do
  let input ← SideInput.build edgesName (undirect edges) (.field 0)
  let it ← Iteration.new { config with key := .field 0 }
  it.withSideInput input

/-- The run that labels each vertex with the smallest vertex connected to it.  Ends of edges that are no listed vertices
contribute nothing; the key of the configuration is not looked at. -/
def connectedComponents (vs : List Int64) (edges : List Record) (config : Config) (position : Position)
    (schedules : UInt32 → Nat → Schedule) : Except Error RunResult := do
  let it ← componentsIteration edges config
  (it.runUnified (Step.ofFunction (spreadLabels position)) schedules (initialLabels vs)).outcome

end Graph

end WorksetIteration
