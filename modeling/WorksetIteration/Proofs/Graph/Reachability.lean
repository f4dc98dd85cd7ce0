import Mathlib.Logic.Relation
import Mathlib.Order.Bounds.Basic
import WorksetIteration.Graph.Edges

/-!
# Paths and full relaxation

The graph of a list of vertices and a list of edge records.  Its labels are computed by full relaxation: in a round
every vertex takes the least label among its own and those of its neighbours.  After a number of rounds the label of a
vertex is the smallest vertex at most that many hops away, and labels that no longer change are the smallest connected
vertices.

Main results:

- `Adjacent`, `Within`, `Connected`: neighbours, paths of bounded length, paths.
- `relaxed`: the labels of full relaxation.
- `relaxed_isLeast`: they are least vertices within a number of hops.
- `relaxed_isLeast_connected`: stable labels are least connected vertices.
- `exists_fresh_neighbour`: a label that changes is taken from a neighbour whose label is new.
-/

namespace WorksetIteration

namespace Graph

section Paths

variable (vs : List Int64) (edges : List Record)

/-! ## Paths -/

/-- Two listed vertices are the ends of an edge, which may have either direction. -/
def Adjacent (u v : Int64) : Prop :=
  u ∈ vs ∧ v ∈ vs ∧ ∃ e ∈ edges,
    (e.get? 0 = some (.int64 u) ∧ e.get? 1 = some (.int64 v)) ∨
      (e.get? 0 = some (.int64 v) ∧ e.get? 1 = some (.int64 u))

instance (u v : Int64) : Decidable (Adjacent vs edges u v) :=
  inferInstanceAs (Decidable (_ ∧ _ ∧ _))

/-- One vertex is at most a number of hops away from another. -/
inductive Within : Nat → Int64 → Int64 → Prop
  | here (n : Nat) (v : Int64) : Within n v v
  | step {n : Nat} {u v w : Int64} : Within n u v → Adjacent vs edges v w → Within (n + 1) u w

/-- There is a path from one vertex to another. -/
def Connected : Int64 → Int64 → Prop :=
  Relation.ReflTransGen (Adjacent vs edges)

variable {vs edges}

theorem Within.connected {n : Nat} {u v : Int64} (h : Within vs edges n u v) : Connected vs edges u v := by
  induction h with
  | here n v => exact Relation.ReflTransGen.refl
  | step _ hedge ih => exact ih.tail hedge

/-- Within one hop more are the vertices within the hops so far and the neighbours of these. -/
theorem within_succ_iff {n : Nat} {u v : Int64} :
    Within vs edges (n + 1) u v ↔ Within vs edges n u v ∨ ∃ x, Within vs edges n u x ∧ Adjacent vs edges x v := by
  constructor
  · intro h
    cases h with
    | here => exact Or.inl (.here n u)
    | step hpath hedge => exact Or.inr ⟨_, hpath, hedge⟩
  · rintro (h | ⟨x, hpath, hedge⟩)
    · induction h with
      | here n v => exact .here _ v
      | step _ hedge ih => exact .step ih hedge
    · exact .step hpath hedge

end Paths

/-! ## Least labels -/

/-- The least of some labels, the first of which is always there. -/
def leastOf (c : Int64) (labels : List Int64) : Int64 :=
  labels.foldl (fun a b => if b < a then b else a) c

theorem leastOf_le (c : Int64) (labels : List Int64) :
    leastOf c labels ≤ c ∧ ∀ x ∈ labels, leastOf c labels ≤ x := by
  induction labels generalizing c with
  | nil => exact ⟨Int64.le_refl c, by simp⟩
  | cons y labels ih =>
      have hstep : leastOf c (y :: labels) = leastOf (if y < c then y else c) labels := rfl
      rcases ih (if y < c then y else c) with ⟨hinit, hrest⟩
      have hlower : (if y < c then y else c) ≤ c ∧ (if y < c then y else c) ≤ y := by
        split <;> rename_i h
        · exact ⟨Int64.le_of_lt h, Int64.le_refl y⟩
        · exact ⟨Int64.le_refl c, Int64.not_lt.1 h⟩
      rw [hstep]
      refine ⟨Int64.le_trans hinit hlower.1, ?_⟩
      intro x hx
      rcases List.mem_cons.1 hx with rfl | hx
      · exact Int64.le_trans hinit hlower.2
      · exact hrest x hx

theorem leastOf_mem (c : Int64) (labels : List Int64) : leastOf c labels = c ∨ leastOf c labels ∈ labels := by
  induction labels generalizing c with
  | nil => exact Or.inl rfl
  | cons y labels ih =>
      have hstep : leastOf c (y :: labels) = leastOf (if y < c then y else c) labels := rfl
      rw [hstep]
      rcases ih (if y < c then y else c) with h | h
      · rw [h]
        split <;> simp
      · exact Or.inr (List.mem_cons_of_mem _ h)

section Relaxation

variable (vs : List Int64) (edges : List Record)

/-- The neighbours of a vertex. -/
def neighbours (v : Int64) : List Int64 :=
  vs.filter fun u => decide (Adjacent vs edges u v)

/-- The label of a vertex after a number of rounds in which every vertex takes the least label among its own and those
of its neighbours. -/
def relaxed : Nat → Int64 → Int64
  | 0, v => v
  | n + 1, v => leastOf (relaxed n v) ((neighbours vs edges v).map (relaxed n))

variable {vs edges}

theorem mem_neighbours {u v : Int64} : u ∈ neighbours vs edges v ↔ Adjacent vs edges u v := by
  rw [neighbours, List.mem_filter, decide_eq_true_iff]
  exact and_iff_right_of_imp And.left

theorem relaxed_succ_le (n : Nat) (v : Int64) : relaxed vs edges (n + 1) v ≤ relaxed vs edges n v :=
  (leastOf_le _ _).1

theorem relaxed_succ_le_of_adjacent (n : Nat) {u v : Int64} (h : Adjacent vs edges u v) :
    relaxed vs edges (n + 1) v ≤ relaxed vs edges n u :=
  (leastOf_le _ _).2 _ (List.mem_map_of_mem (mem_neighbours.2 h))

/-- A label is kept or taken from a neighbour. -/
theorem relaxed_succ_eq (n : Nat) (v : Int64) :
    relaxed vs edges (n + 1) v = relaxed vs edges n v ∨
      ∃ u, Adjacent vs edges u v ∧ relaxed vs edges (n + 1) v = relaxed vs edges n u := by
  rcases leastOf_mem (relaxed vs edges n v) ((neighbours vs edges v).map (relaxed vs edges n)) with h | h
  · exact Or.inl h
  · rcases List.mem_map.1 h with ⟨u, hu, heq⟩
    exact Or.inr ⟨u, mem_neighbours.1 hu, heq.symm⟩

/-- After a number of rounds a vertex has the least label within that many hops. -/
theorem relaxed_isLeast (n : Nat) {v : Int64} (hv : v ∈ vs) :
    IsLeast {u | u ∈ vs ∧ Within vs edges n u v} (relaxed vs edges n v) := by
  induction n generalizing v with
  | zero =>
      refine ⟨⟨hv, .here 0 v⟩, ?_⟩
      rintro u ⟨_, hpath⟩
      cases hpath
      exact Int64.le_refl _
  | succ n ih =>
      constructor
      · rcases relaxed_succ_eq n v with h | ⟨u, hedge, h⟩
        · rw [h]
          exact ⟨(ih hv).1.1, within_succ_iff.2 (Or.inl (ih hv).1.2)⟩
        · rw [h]
          exact ⟨(ih hedge.1).1.1, within_succ_iff.2 (Or.inr ⟨u, (ih hedge.1).1.2, hedge⟩)⟩
      · rintro u ⟨hu, hpath⟩
        rcases within_succ_iff.1 hpath with hpath | ⟨x, hpath, hedge⟩
        · exact Int64.le_trans (relaxed_succ_le n v) ((ih hv).2 ⟨hu, hpath⟩)
        · exact Int64.le_trans (relaxed_succ_le_of_adjacent n hedge) ((ih hedge.1).2 ⟨hu, hpath⟩)

/-! ## Changes -/

/-- A round that changes a label lowers it. -/
theorem relaxed_succ_eq_of_not_lt {n : Nat} {v : Int64} (h : ¬ relaxed vs edges (n + 1) v < relaxed vs edges n v) :
    relaxed vs edges (n + 1) v = relaxed vs edges n v :=
  Int64.le_antisymm (relaxed_succ_le n v) (Int64.not_lt.1 h)

variable (vs edges) in
/-- The vertices whose labels are new after a number of rounds: all of them at first, and then those that the last
round has changed. -/
def fresh : Nat → List Int64
  | 0 => vs
  | n + 1 => vs.filter fun v => decide (relaxed vs edges (n + 1) v < relaxed vs edges n v)

theorem mem_of_mem_fresh {n : Nat} {v : Int64} (h : v ∈ fresh vs edges n) : v ∈ vs := by
  cases n with
  | zero => exact h
  | succ n => exact (List.mem_filter.1 h).1

theorem mem_fresh_succ {n : Nat} {v : Int64} :
    v ∈ fresh vs edges (n + 1) ↔ v ∈ vs ∧ relaxed vs edges (n + 1) v < relaxed vs edges n v := by
  rw [fresh, List.mem_filter, decide_eq_true_iff]

theorem nodup_fresh (hvs : vs.Nodup) (n : Nat) : (fresh vs edges n).Nodup := by
  cases n with
  | zero => exact hvs
  | succ n => exact hvs.filter _

/-- A neighbour without a new label changes nothing: its label has been taken already.  So a label that is lowered is
lowered to that of a neighbour whose label is new. -/
theorem exists_fresh_neighbour {n : Nat} {v : Int64} (h : relaxed vs edges (n + 1) v < relaxed vs edges n v) :
    ∃ u ∈ fresh vs edges n, Adjacent vs edges u v ∧ relaxed vs edges (n + 1) v = relaxed vs edges n u := by
  rcases relaxed_succ_eq n v with heq | ⟨u, hedge, heq⟩
  · rw [heq] at h
    exact Int64.lt_irrefl.elim h
  · refine ⟨u, ?_, hedge, heq⟩
    cases n with
    | zero => exact hedge.1
    | succ n =>
        by_contra hold
        have hsame : relaxed vs edges (n + 1) u = relaxed vs edges n u :=
          relaxed_succ_eq_of_not_lt fun hlt => hold (mem_fresh_succ.2 ⟨hedge.1, hlt⟩)
        rw [heq, hsame] at h
        exact Int64.not_lt.2 (relaxed_succ_le_of_adjacent n hedge) h

/-- If no label is new, no further round changes one. -/
theorem relaxed_stable_of_fresh_eq_nil {n : Nat} (h : fresh vs edges n = []) (v : Int64) :
    relaxed vs edges (n + 1) v = relaxed vs edges n v := by
  apply relaxed_succ_eq_of_not_lt
  intro hlt
  rcases exists_fresh_neighbour hlt with ⟨u, hu, _⟩
  rw [h] at hu
  cases hu

/-- Labels that a round does not change are the least connected vertices. -/
theorem relaxed_isLeast_connected {n : Nat}
    (hstable : ∀ v ∈ vs, relaxed vs edges (n + 1) v = relaxed vs edges n v) {v : Int64} (hv : v ∈ vs) :
    IsLeast {u | u ∈ vs ∧ Connected vs edges u v} (relaxed vs edges n v) := by
  have hleast : IsLeast {u | u ∈ vs ∧ Within vs edges n u v} (relaxed vs edges n v) := relaxed_isLeast n hv
  refine ⟨⟨hleast.1.1, hleast.1.2.connected⟩, ?_⟩
  rintro u ⟨hu, hpath⟩
  induction hpath with
  | refl => exact (relaxed_isLeast n hu).2 ⟨hu, .here n u⟩
  | tail hpath hedge ih =>
      have hstep := relaxed_succ_le_of_adjacent n hedge
      rw [hstable _ hedge.2.1] at hstep
      exact Int64.le_trans hstep (ih hedge.1 (relaxed_isLeast n hedge.1))

end Relaxation

end Graph

end WorksetIteration
