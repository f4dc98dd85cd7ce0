import WorksetIteration.Record

/-!
# Graphs as records

A vertex is an integer, an edge is a record of its two ends, and a labelled vertex is a record of the vertex and its
label.  Edges may hold more fields than these, or fewer.

Main definitions:

- `Graph.vertices`: the vertices from one to a number.
- `Graph.initialLabels`: every vertex labelled by itself.
- `Graph.undirect`: every edge in both directions.
-/

namespace WorksetIteration

namespace Graph

/-- The vertices from one to the given number; none if it is not positive. -/
def vertices (n : Int64) : List Int64 :=
  (List.range n.toInt.toNat).map fun i => Int64.ofNat (i + 1)

/-- A record of two vertices: an edge, or a vertex with its label. -/
def vertexPair (a b : Int64) : Record :=
  .pair (.int64 a) (.int64 b)

/-- Every vertex labelled by itself. -/
def initialLabels (vs : List Int64) : List Record :=
  vs.map fun v => vertexPair v v

/-- An edge with its ends exchanged; one with fewer than two fields stays as it is. -/
def reversed (edge : Record) : Record :=
  match edge.values with
  | source :: target :: rest => ⟨target :: source :: rest⟩
  | _ => edge

/-- Every edge, each followed by the same edge with its ends exchanged. -/
def undirect (edges : List Record) : List Record :=
  edges.flatMap fun edge => [edge, reversed edge]

@[simp]
theorem reversed_reversed (edge : Record) : reversed (reversed edge) = edge := by
  rcases edge with ⟨_ | ⟨_, _ | _⟩⟩ <;> rfl

@[simp]
theorem reversed_vertexPair (a b : Int64) : reversed (vertexPair a b) = vertexPair b a :=
  rfl

theorem mem_undirect {edges : List Record} {edge : Record} :
    edge ∈ undirect edges ↔ edge ∈ edges ∨ reversed edge ∈ edges := by
  simp only [undirect, List.mem_flatMap, List.mem_cons, List.not_mem_nil, or_false]
  constructor
  · rintro ⟨e, he, rfl | rfl⟩
    · exact .inl he
    · exact .inr (by rwa [reversed_reversed])
  · rintro (h | h)
    · exact ⟨edge, h, .inl rfl⟩
    · exact ⟨reversed edge, h, .inr (reversed_reversed edge).symm⟩

end Graph

end WorksetIteration
