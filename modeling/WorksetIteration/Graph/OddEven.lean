import WorksetIteration.Graph.Edges
import WorksetIteration.Random.Xoshiro

/-!
# Odd and even vertices

Random graphs with two known components, the odd vertices and the even ones, and a check that a labelling has found
them.

Main definitions:

- `OddEven.edges`: a chain through each of the two components and random edges within them.
- `OddEven.check`: the first record of a labelling that breaks the rule, if there is one.
-/

namespace WorksetIteration

namespace OddEven

/-! ## Edges -/

/-- An edge between two numbered vertices. -/
def edge (source target : Nat) : Record :=
  Graph.vertexPair (Int64.ofNat source) (Int64.ofNat target)

/-- The edges from every vertex to the next one but one, up to the last of `n` vertices. -/
def chain (n : Nat) : List Record :=
  (List.range (n - 2)).map fun i => edge (i + 1) (i + 3)

/-- A vertex moved to the given parity: down by one, and from zero to two. -/
def moveTo (parity v : Nat) : Nat :=
  if v % 2 = parity then v
  else if v ≤ 1 then 2
  else v - 1

/-- A random edge within one of the components: the coin picks the component, two numbers pick the ends. -/
def randomEdge {σ : Type} (draws : Draws σ) (n : Nat) (s : σ) : Record × σ :=
  let (odd, s) := draws.coin s
  let parity := odd.toNat
  let (source, s) := draws.number n s
  let (target, s) := draws.number n s
  (edge (moveTo parity source) (moveTo parity target), s)

/-- Random edges, one after the other from one state. -/
def randomEdges {σ : Type} (draws : Draws σ) (n : Nat) : (count : Nat) → σ → List Record
  | 0, _ => []
  | count + 1, s =>
      let (e, s) := randomEdge draws n s
      e :: randomEdges draws n count s

/-- The chains of `n` vertices, and random edges until there are `count` edges; no edge for less than two vertices. -/
def edgesOf {σ : Type} (draws : Draws σ) (count n : Nat) (s : σ) : List Record :=
  if n < 2 then []
  else chain n ++ randomEdges draws n (count - (chain n).length) s

/-- The edges for a number of vertices, drawn by the generator with the given seed. -/
def edges (count : Nat) (n : Int64) (seed : UInt64) : List Record :=
  edgesOf Xoshiro.draws count n.toInt.toNat (.ofSeed seed)

@[simp]
theorem length_chain (n : Nat) : (chain n).length = n - 2 := by
  simp [chain]

@[simp]
theorem length_randomEdges {σ : Type} (draws : Draws σ) (n count : Nat) (s : σ) :
    (randomEdges draws n count s).length = count := by
  induction count generalizing s with
  | zero => rfl
  | succ count ih => simp [randomEdges, ih]

/-! ## Checking a labelling -/

/-- How a record breaks the rule. -/
inductive Violation where
  /-- It is no vertex with a label. -/
  | malformed (record : Record)
  /-- The vertex has a label other than the expected one. -/
  | wrongLabel (vertex label expected : Int64)
deriving DecidableEq, Repr

/-- The wording of a violation. -/
def Violation.message : Violation → String
  | .malformed record => "malformed vertex record " ++ record.text
  | .wrongLabel vertex label expected =>
      "vertex " ++ toString vertex.toInt ++ " has component " ++ toString label.toInt ++ ", expected " ++
        toString expected.toInt

/-- The label that a vertex must have: one if its remainder by two is one, and two otherwise.  The remainder has the
sign of the vertex. -/
def expectedLabel (vertex : Int64) : Int64 :=
  if vertex % 2 = 1 then 1 else 2

/-- Checks one record. -/
def checkRecord (r : Record) : Except Violation Unit :=
  match (r.get? 0).bind Value.asInt64?, (r.get? 1).bind Value.asInt64? with
  | some vertex, some label =>
      if label = expectedLabel vertex then .ok ()
      else .error (.wrongLabel vertex label (expectedLabel vertex))
  | _, _ => .error (.malformed r)

/-- Checks the records in order; the first one that breaks the rule is reported. -/
def check : List Record → Except Violation Unit
  | [] => .ok ()
  | r :: rest =>
      match checkRecord r with
      | .ok () => check rest
      | .error violation => .error violation

end OddEven

end WorksetIteration
