import Mathlib.Data.Finset.Max
import WorksetIteration.Proofs.Graph.Convergence
import WorksetIteration.Proofs.Graph.Descent

/-!
# How large worksets are

The workset holds the vertices whose label was lowered in the last round.  It may grow from one round to the next: a
vertex with a new label hands it on to all of its neighbours.  But it does not hand it back to the one that it was taken
from, so a workset grows only where some vertex has more than two neighbours.  And the labels handed on have left a
trail of vertices that will not be lowered any more, one more with every round, so there is less and less room.

Main results:

- `length_fresh_le`: after a number of rounds there are at most as many new labels as vertices off a trail.
- `length_fresh_succ_le`: there are as many new labels for each one of the round before as vertices have neighbours,
  less one.
- `labelled_of_completes`: completed rounds have the labels of full relaxation, whatever the limit on joins is.
- `connectedComponents_worksets`: how many records the workset of a run has after each round.
- `not_connectedComponents_worksets_shrink`: a workset that grows.
-/

namespace WorksetIteration

namespace Graph

section Frontiers

variable {vs : List Int64} {edges : List Record}

/-! ## Room for new labels -/

/-- The vertices on the way of the least of the new labels have a smaller one by now, so none of them is new. -/
theorem length_fresh_add_le (hvs : vs.Nodup) {n : Nat} (h : fresh vs edges n ≠ []) :
    (fresh vs edges n).length + n ≤ vs.length := by
  cases n with
  | zero => exact Nat.le_refl _
  | succ n =>
      rcases Finset.exists_min_image (fresh vs edges (n + 1)).toFinset (fun v => (relaxed vs edges (n + 1) v).toInt)
        (List.toFinset_nonempty_iff _ |>.2 h) with ⟨v, hv, hleast⟩
      rw [List.mem_toFinset] at hv
      -- the way of the least new label; what is on it had a label as small before the last round
      rcases exists_fresh_neighbour (mem_fresh_succ.1 hv).2 with ⟨u, hu, _, heq⟩
      rcases exists_trail hu with ⟨trail, hlength, hnodup, hsubset, hlabels⟩
      have hdisjoint : trail.Disjoint (fresh vs edges (n + 1)) := by
        intro x htrail hx
        have hlt : relaxed vs edges (n + 1) x < relaxed vs edges n x := (mem_fresh_succ.1 hx).2
        have hle : relaxed vs edges n x ≤ relaxed vs edges (n + 1) v := heq ▸ hlabels x htrail
        have hmin : relaxed vs edges (n + 1) v ≤ relaxed vs edges (n + 1) x :=
          Int64.le_iff_toInt_le.2 (hleast x (List.mem_toFinset.2 hx))
        exact Int64.not_lt.2 (Int64.le_trans hle hmin) hlt
      have hall : trail ++ fresh vs edges (n + 1) ⊆ vs :=
        List.append_subset.2 ⟨hsubset, fun _ hx => mem_of_mem_fresh hx⟩
      have hle := ((hnodup.append (nodup_fresh hvs (n + 1)) hdisjoint).subperm hall).length_le
      rw [List.length_append, hlength] at hle
      omega

/-- After `n` rounds there are no more new labels than vertices off a trail of `n` vertices. -/
theorem length_fresh_le (hvs : vs.Nodup) (n : Nat) : (fresh vs edges n).length ≤ vs.length - n := by
  by_cases h : fresh vs edges n = []
  · simp [h]
  · have := length_fresh_add_le hvs h
    omega

/-! ## Labels handed on -/

theorem Adjacent.symm {u v : Int64} (h : Adjacent vs edges u v) : Adjacent vs edges v u := by
  rcases h with ⟨hu, hv, e, he, hends⟩
  exact ⟨hv, hu, e, he, hends.symm⟩

variable (vs edges) in
/-- The other vertices that a vertex is adjacent to. -/
def others (v : Int64) : List Int64 :=
  (neighbours vs edges v).filter fun u => u ≠ v

theorem mem_others {u v : Int64} : u ∈ others vs edges v ↔ Adjacent vs edges u v ∧ u ≠ v := by
  rw [others, List.mem_filter, mem_neighbours, decide_eq_true_iff]

variable (vs edges) in
/-- The vertices that take a label from a vertex in a round. -/
def takers (n : Nat) (v : Int64) : List Int64 :=
  (others vs edges v).filter fun u =>
    relaxed vs edges (n + 1) u = relaxed vs edges n v ∧ relaxed vs edges (n + 1) u < relaxed vs edges n u

/-- Every label that is new is taken from a vertex whose label was new before. -/
theorem fresh_succ_subset (n : Nat) :
    fresh vs edges (n + 1) ⊆ (fresh vs edges n).flatMap (takers vs edges n) := by
  intro u hu
  have hlt : relaxed vs edges (n + 1) u < relaxed vs edges n u := (mem_fresh_succ.1 hu).2
  rcases exists_fresh_neighbour hlt with ⟨v, hv, hedge, heq⟩
  have hne : u ≠ v := by
    rintro rfl
    exact Int64.lt_irrefl.elim (heq ▸ hlt)
  refine List.mem_flatMap.2 ⟨v, hv, List.mem_filter.2 ⟨mem_others.2 ⟨hedge.symm, hne⟩, ?_⟩⟩
  exact decide_eq_true ⟨heq, hlt⟩

/-- A vertex with a new label hands it on to fewer vertices than it is adjacent to: the one that it has taken the label
from has it already. -/
theorem length_takers_lt {n : Nat} {v : Int64} (h : v ∈ fresh vs edges (n + 1)) :
    (takers vs edges (n + 1) v).length < (others vs edges v).length := by
  have hlt : relaxed vs edges (n + 1) v < relaxed vs edges n v := (mem_fresh_succ.1 h).2
  rcases exists_fresh_neighbour hlt with ⟨u, _, hedge, heq⟩
  have hne : u ≠ v := by
    rintro rfl
    exact Int64.lt_irrefl.elim (heq ▸ hlt)
  -- `u` is a neighbour too, but its label is not lowered to one that it has had before
  refine List.length_filter_lt_length_iff_exists.2 ⟨u, mem_others.2 ⟨hedge, hne⟩, ?_⟩
  rw [decide_eq_true_iff]
  rintro ⟨htaken, hbelow⟩
  rw [htaken, heq] at hbelow
  exact Int64.not_lt.2 (relaxed_succ_le n u) hbelow

theorem length_flatMap_le {α β : Type} {f : α → List β} {d : Nat} {xs : List α} (h : ∀ x ∈ xs, (f x).length ≤ d) :
    (xs.flatMap f).length ≤ d * xs.length := by
  induction xs with
  | nil => exact Nat.zero_le _
  | cons x xs ih =>
      rw [List.forall_mem_cons] at h
      rw [List.flatMap_cons, List.length_append, List.length_cons, Nat.mul_succ, Nat.add_comm]
      exact Nat.add_le_add (ih h.2) h.1

/-- If vertices are adjacent to at most one more than `d` others, there are at most `d` new labels for each one that was
new before. -/
theorem length_fresh_succ_le (hvs : vs.Nodup) {d : Nat} (hd : 1 ≤ d)
    (hdegree : ∀ v ∈ vs, (others vs edges v).length ≤ d + 1) (n : Nat) :
    (fresh vs edges (n + 1)).length ≤ d * (fresh vs edges n).length := by
  cases n with
  | zero =>
      calc (fresh vs edges 1).length ≤ vs.length := List.length_filter_le _ _
        _ ≤ d * vs.length := Nat.le_mul_of_pos_left _ hd
  | succ n =>
      have htakers : ∀ v ∈ fresh vs edges (n + 1), (takers vs edges (n + 1) v).length ≤ d := by
        intro v hv
        have hlt := length_takers_lt hv
        have hle := hdegree v (mem_of_mem_fresh hv)
        omega
      calc (fresh vs edges (n + 2)).length
          ≤ ((fresh vs edges (n + 1)).flatMap (takers vs edges (n + 1))).length :=
            ((nodup_fresh hvs (n + 2)).subperm (fresh_succ_subset (n + 1))).length_le
        _ ≤ d * (fresh vs edges (n + 1)).length := length_flatMap_le htakers

end Frontiers

/-! ## The iteration -/

section Runs

variable {vs : List Int64} {edges : List Record} {config : Config}

/-- Rounds that were completed lead from the labels of full relaxation to later ones, whatever the limit on joins is. -/
theorem labelled_of_completes (hvs : vs.Nodup) {env : Surroundings} {position : Position} {m n : Nat}
    {s s' : SolutionSet} {w w' : Workset} {stats : List RoundStats} (h : Labelled vs edges m s w)
    (hreads : Reads (env.context s w) (undirect edges))
    (hcompletes : Completes env (.ofFunction (spreadLabels position)) n s w stats s' w') :
    Labelled vs edges (m + n) s' w' ∧ ∀ i (hi : i < stats.length), CountsFresh vs edges (m + i) (stats[i]) := by
  induction hcompletes generalizing m with
  | none s w => exact ⟨h, fun i hi => absurd hi (Nat.not_lt_zero i)⟩
  | @round n s s₁ s' w w' out summary stats hwork hout hdelta hrest ih =>
      -- the round has returned, so it was within its limits, and its delta is what it improves
      have hstep : spreadLabels position (env.context s w) = .ok out := congrArg StepReply.outcome hout
      rcases improves_of_spreadLabels hreads hstep with ⟨improved, rfl, himproves⟩
      rcases h.completed (h.improved_perm hvs rfl rfl himproves) with ⟨_, _, hdelta', hnext, hcounts⟩
      obtain ⟨rfl, rfl⟩ := Prod.mk.inj (Except.ok.inj (hdelta'.symm.trans hdelta))
      rcases ih hnext (hreads.next hdelta _) with ⟨hend, hrounds⟩
      refine ⟨by rwa [Nat.add_right_comm, Nat.add_assoc] at hend, ?_⟩
      rintro (_ | i) hi
      · exact hcounts
      · have := hrounds i (by simpa using hi)
        rwa [Nat.add_right_comm, Nat.add_assoc] at this

/-- Whatever the limit on joins is, a run that returns has the labels of full relaxation, and has counted the new ones
of them. -/
theorem labelled_of_connectedComponents (hvs : vs.Nodup) {position : Position}
    {schedules : UInt32 → Nat → Schedule} {r : RunResult}
    (h : connectedComponents vs edges config position schedules = .ok r) :
    ∃ s w, Labelled vs edges r.stats.length s w ∧ r.solution = s.records ∧
      ∀ i (hi : i < r.stats.length), CountsFresh vs edges i (r.stats[i]) := by
  rcases exists_iteration_of_connectedComponents h with ⟨input, it, hindex, hconfig, hinput, hrun⟩
  have hkey : it.config.key = .field 0 := by rw [hconfig]
  rcases Iteration.completes_of_outcome hrun with ⟨s, n, s', w', hseed, _, hcompletes, _, hr⟩
  rw [hkey] at hseed
  rcases labelled_seed edges hvs with ⟨_, hseed', hlabelled⟩
  obtain rfl := Except.ok.inj (hseed'.symm.trans hseed)
  rcases labelled_of_completes hvs hlabelled (reads_seed hinput hindex hseed _) hcompletes with ⟨hend, hcounts⟩
  rw [← hcompletes.length_stats] at hend
  simp only [Nat.zero_add] at hend hcounts
  exact ⟨s', w', hend, congrArg RunResult.solution hr, hcounts⟩

/-- After each completed round the workset is the delta of the round.  It holds no more records than there are vertices,
less one for every completed round, so it keeps under a bound that shrinks with every round.  Where no vertex is
adjacent to more than one more than `d` others, it has not grown by more than a factor of `d`; so on paths and cycles,
whatever the numbers of their vertices are, it never grows. -/
theorem connectedComponents_worksets (hvs : vs.Nodup) {position : Position} {schedules : UInt32 → Nat → Schedule}
    {r : RunResult} (h : connectedComponents vs edges config position schedules = .ok r) :
    ∀ i (hi : i < r.stats.length), (r.stats[i]).nextWorksetLength = (r.stats[i]).deltaLength ∧
      (r.stats[i]).nextWorksetLength ≤ vs.length - (i + 1) ∧
      ∀ d, 1 ≤ d → (∀ v ∈ vs, (others vs edges v).length ≤ d + 1) →
        (r.stats[i]).nextWorksetLength ≤ d * (r.stats[i]).worksetLength := by
  intro i hi
  rcases labelled_of_connectedComponents hvs h with ⟨_, _, _, _, hcounts⟩
  rcases hcounts i hi with ⟨hworkset, hdelta, hnext⟩
  rw [hworkset, hdelta, hnext]
  exact ⟨rfl, length_fresh_le hvs (i + 1), fun d hd hdegree => length_fresh_succ_le hvs hd hdegree i⟩

/-- What is read off a run that returns. -/
theorem exists_of_map_toOption {β : Type} {outcome : Except Error RunResult} {f : RunResult → β} {b : β}
    (h : outcome.toOption.map f = some b) : ∃ r, outcome = .ok r ∧ f r = b := by
  cases outcome with
  | error e => cases h
  | ok r => exact ⟨r, rfl, Option.some.inj h⟩

/-- On a path whose ends have the smallest and the greatest number the workset does not grow. -/
theorem connectedComponents_worksets_on_path :
    let vs : List Int64 := [4, 2, 3, 1]
    let edges : List Record := [vertexPair 1 3, vertexPair 3 2, vertexPair 2 4]
    let config : Config := { maxRounds := 9, parallelism := 2, fanoutLimit := some 6 }
    ∃ r, connectedComponents vs edges config .second (fun _ _ => .inOrder) = .ok r ∧
      r.stats.map RoundStats.nextWorksetLength = [2, 1, 1, 0] ∧
      ∀ i (hi : i < r.stats.length), (r.stats[i]).nextWorksetLength ≤ 1 * (r.stats[i]).worksetLength := by
  intro vs edges config
  have hlengths : (connectedComponents vs edges config .second fun _ _ => .inOrder).toOption.map
      (fun r => r.stats.map RoundStats.nextWorksetLength) = some [2, 1, 1, 0] := by
    decide +kernel
  rcases exists_of_map_toOption hlengths with ⟨r, hr, hlengths⟩
  have hdegree : ∀ v ∈ vs, (others vs edges v).length ≤ 1 + 1 := by
    simp only [vs, List.forall_mem_cons]
    exact ⟨by decide, by decide, by decide, by decide, List.forall_mem_nil _⟩
  refine ⟨r, hr, hlengths, ?_⟩
  intro i hi
  exact (connectedComponents_worksets (by decide) hr i hi).2.2 1 (by decide) hdegree

/-- The edges of a star whose centre has the greatest number. -/
def starEdges : List Record :=
  [vertexPair 1 4, vertexPair 2 4, vertexPair 3 4]

/-- A workset may grow: the centre of a star hands on the label that it has taken from the first vertex to all the other
ones. -/
theorem not_connectedComponents_worksets_shrink :
    ¬ ∀ (vs : List Int64) (edges : List Record) (config : Config) (position : Position)
        (schedules : UInt32 → Nat → Schedule) (r : RunResult), vs.Nodup →
      connectedComponents vs edges config position schedules = .ok r →
        ∀ i (hi : i < r.stats.length), (r.stats[i]).nextWorksetLength ≤ (r.stats[i]).worksetLength := by
  intro h
  have hlengths : (connectedComponents [1, 2, 3, 4] starEdges (.ofMaxRounds 10) .first fun _ _ => .inOrder).toOption.map
      (fun r => r.stats.map fun st => (st.worksetLength, st.nextWorksetLength)) = some [(4, 1), (1, 2), (2, 0)] := by
    decide +kernel
  rcases exists_of_map_toOption hlengths with ⟨r, hr, hlengths⟩
  have hgrows : (1, 2) ∈ r.stats.map fun st => (st.worksetLength, st.nextWorksetLength) := by
    rw [hlengths]
    decide
  rcases List.mem_map.1 hgrows with ⟨_, hst, hpair⟩
  rcases List.getElem_of_mem hst with ⟨i, hi, rfl⟩
  have hle := h [1, 2, 3, 4] starEdges _ _ _ r (by decide) hr i hi
  rw [(Prod.mk.inj hpair).1, (Prod.mk.inj hpair).2] at hle
  exact absurd hle (by decide)

end Runs

end Graph

end WorksetIteration
