import WorksetIteration.Proofs.Accounting
import WorksetIteration.Proofs.Graph.Components

/-!
# How soon connected components converge

A label that is new after a number of rounds has come a long way: it was handed on once a round, each time to a vertex
that had a greater one until then.  So the vertices on its way differ, and as there are no more of them than listed
ones, no label is new after as many rounds as there are vertices.

Main results:

- `exists_trail`: the way of a label that is new.
- `lt_length_of_mem_fresh`: labels are new for fewer rounds than there are vertices.
- `remaining_eq_length_fresh`: what a run leaves in the workset.
- `solution_of_bound`: the labels of a run that may take as many rounds as there are vertices.
- `connectedComponents_converges`: a run that may take as many rounds as there are vertices converges.
-/

namespace WorksetIteration

namespace Graph

section Trails

variable {vs : List Int64} {edges : List Record}

/-! ## The way of a label -/

/-- A label that is new after `n` rounds has passed through `n + 1` different vertices.  All of them have it or a
smaller one by now, which is why it cannot come to one of them again. -/
theorem exists_trail {n : Nat} {v : Int64} (h : v ∈ fresh vs edges n) :
    ∃ trail : List Int64, trail.length = n + 1 ∧ trail.Nodup ∧ trail ⊆ vs ∧
      ∀ x ∈ trail, relaxed vs edges n x ≤ relaxed vs edges n v := by
  induction n generalizing v with
  | zero =>
      refine ⟨[v], rfl, List.nodup_singleton v, List.cons_subset.2 ⟨h, List.nil_subset _⟩, ?_⟩
      intro x hx
      rw [List.mem_singleton.1 hx]
      exact Int64.le_refl _
  | succ n ih =>
      rcases mem_fresh_succ.1 h with ⟨hv, hlt⟩
      rcases exists_fresh_neighbour hlt with ⟨u, hu, _, heq⟩
      rcases ih hu with ⟨trail, hlength, hnodup, hsubset, hlabels⟩
      have hnew : v ∉ trail := by
        intro hmem
        have hle : relaxed vs edges n v ≤ relaxed vs edges n u := hlabels v hmem
        rw [← heq] at hle
        exact Int64.not_lt.2 hle hlt
      refine ⟨v :: trail, ?_, List.nodup_cons.2 ⟨hnew, hnodup⟩, List.cons_subset.2 ⟨hv, hsubset⟩, ?_⟩
      · rw [List.length_cons, hlength]
      · intro x hx
        rcases List.mem_cons.1 hx with rfl | hx
        · exact Int64.le_refl _
        · rw [heq]
          exact Int64.le_trans (relaxed_succ_le n x) (hlabels x hx)

/-- Labels are new for fewer rounds than there are vertices. -/
theorem lt_length_of_mem_fresh {n : Nat} {v : Int64} (h : v ∈ fresh vs edges n) : n < vs.length := by
  rcases exists_trail h with ⟨trail, hlength, hnodup, hsubset, _⟩
  have hle : trail.length ≤ vs.length := (hnodup.subperm hsubset).length_le
  omega

theorem lt_length_of_length_fresh_pos {n : Nat} (h : 0 < (fresh vs edges n).length) : n < vs.length := by
  rcases List.length_pos_iff_exists_mem.1 h with ⟨v, hv⟩
  exact lt_length_of_mem_fresh hv

end Trails

/-! ## The iteration -/

section Runs

variable {vs : List Int64} {edges : List Record} {config : Config} {r : RunResult}

/-- Connected components are the outcome of a run of an iteration that is not cancelled. -/
theorem connectedComponents_eq_outcome (hedges : ∀ e ∈ edges, 1 ≤ e.arity) (hvalid : config.validate = .ok ())
    (vs : List Int64) (position : Position) (schedules : UInt32 → Nat → Schedule) :
    ∃ it : Iteration, it.config = { config with key := .field 0 } ∧
      connectedComponents vs edges config position schedules =
        (it.runUnified (.ofFunction (spreadLabels position)) schedules (initialLabels vs)).outcome := by
  rcases componentsIteration_spec hedges hvalid with ⟨input, it, _, hit, hconfig, _, _⟩
  refine ⟨it, hconfig, ?_⟩
  rw [connectedComponents, hit]
  rfl

/-- What a run leaves in the workset are the new labels after its rounds. -/
theorem remaining_eq_length_fresh (haccounted : r.Accounted config vs.length vs.length)
    (hcounts : ∀ i (hi : i < r.stats.length), CountsFresh vs edges i (r.stats[i])) :
    r.remaining = (fresh vs edges r.stats.length).length := by
  rw [haccounted.remaining_eq]
  cases hlength : r.stats.length with
  | zero =>
      rw [List.length_eq_zero_iff.1 hlength]
      rfl
  | succ n =>
      have hn : n < r.stats.length := by omega
      have hlast : r.stats.getLast? = some (r.stats[n]) := by
        rw [List.getLast?_eq_getElem?, List.getElem?_eq_some_iff]
        exact ⟨by omega, by simp [hlength]⟩
      rw [hlast]
      exact (hcounts n hn).2.2

/-- With at least one worker, one round and no limit a configuration is valid. -/
theorem validate_eq_ok (hworkers : 1 ≤ config.parallelism) (hrounds : 1 ≤ config.maxRounds.toNat)
    (hlimit : config.fanoutLimit = none) : config.validate = .ok () := by
  have hmax : config.maxRounds ≠ 0 := by
    intro hzero
    rw [hzero] at hrounds
    exact absurd hrounds (by decide)
  have hparallelism : config.parallelism ≠ 0 := by
    intro hzero
    rw [hzero] at hworkers
    exact absurd hworkers (by decide)
  rw [Config.validate, if_neg hmax, if_neg hparallelism, hlimit, if_neg (by simp)]

/-- The counts of a result are those of a run that starts with all vertices in the workset. -/
theorem accounted_of_connectedComponents {position : Position} {schedules : UInt32 → Nat → Schedule}
    (h : connectedComponents vs edges config position schedules = .ok r) :
    r.Accounted { config with key := .field 0 } vs.length vs.length := by
  rcases exists_iteration_of_connectedComponents h with ⟨_, it, _, hconfig, _, hrun⟩
  have haccounted := Iteration.accounted_of_outcome hrun
  rwa [hconfig, initialLabels, List.length_map] at haccounted

/-- A run that may take as many rounds as there are vertices ends with the least connected vertices as labels. -/
theorem solution_of_bound (hvs : vs.Nodup) (hedges : ∀ e ∈ edges, 1 ≤ e.arity) (hvalid : config.validate = .ok ())
    (hlimit : config.fanoutLimit = none) (hbound : vs.length ≤ config.maxRounds.toNat) (position : Position)
    (schedules : UInt32 → Nat → Schedule) {component : Int64 → Int64}
    (hleast : ∀ v ∈ vs, IsLeast {u | u ∈ vs ∧ Connected vs edges u v} (component v)) :
    ∃ r, connectedComponents vs edges config position schedules = .ok r ∧ r.termination = .converged ∧
      r.solution.Perm (vs.map fun v => vertexPair v (component v)) := by
  rcases connectedComponents_spec hvs hedges hvalid hlimit position schedules with
    ⟨r, _, _, hr, hlabelled, hsolution, hlength, hend, hcounts⟩
  have haccounted := accounted_of_connectedComponents hr
  have hremaining := remaining_eq_length_fresh haccounted hcounts
  rw [hlength] at hremaining
  have hempty : r.remaining = 0 := by
    rcases hend with ⟨hconverged, _⟩ | ⟨_, hmax⟩
    · exact haccounted.converged_iff.1 hconverged
    · by_contra hne
      rw [hremaining, hmax] at hne
      have hlt : config.maxRounds.toNat < vs.length := lt_length_of_length_fresh_pos (Nat.pos_of_ne_zero hne)
      omega
  have hfresh : fresh vs edges r.rounds.toNat = [] := List.length_eq_zero_iff.1 (hremaining.symm.trans hempty)
  have hlabels : ∀ v ∈ vs, labelled vs edges r.rounds.toNat v = vertexPair v (component v) := by
    intro v hv
    have hrelaxed : IsLeast {u | u ∈ vs ∧ Connected vs edges u v} (relaxed vs edges r.rounds.toNat v) :=
      relaxed_isLeast_connected (fun x _ => relaxed_stable_of_fresh_eq_nil hfresh x) hv
    rw [labelled, Int64.le_antisymm (hrelaxed.2 (hleast v hv).1) ((hleast v hv).2 hrelaxed.1)]
  refine ⟨r, hr, haccounted.converged_iff.2 hempty, ?_⟩
  rw [hsolution, ← List.map_congr_left hlabels]
  exact hlabelled.records_perm hvs

/-- A run that may take as many rounds as there are vertices converges, and takes no more. -/
theorem connectedComponents_converges (hvs : vs.Nodup) (hedges : ∀ e ∈ edges, 1 ≤ e.arity)
    (hworkers : 1 ≤ config.parallelism) (hlimit : config.fanoutLimit = none)
    (hbound : max vs.length 1 ≤ config.maxRounds.toNat) (position : Position)
    (schedules : UInt32 → Nat → Schedule) :
    ∃ r, connectedComponents vs edges config position schedules = .ok r ∧ r.termination = .converged ∧
      r.rounds.toNat ≤ vs.length ∧ r.remaining = 0 := by
  have hvalid : config.validate = .ok () := validate_eq_ok hworkers (by omega) hlimit
  rcases connectedComponents_spec hvs hedges hvalid hlimit position schedules with
    ⟨r, _, _, hr, _, _, hlength, hend, hcounts⟩
  rcases connectedComponents_eq_outcome hedges hvalid vs position schedules with ⟨it, hconfig, hrun⟩
  have houtcome := hrun.symm.trans hr
  have haccounted : r.Accounted { config with key := .field 0 } vs.length vs.length := by
    have h := Iteration.accounted_of_outcome houtcome
    rwa [hconfig, initialLabels, List.length_map] at h
  have hremaining := remaining_eq_length_fresh haccounted hcounts
  -- A round was completed only if there was a new label before it.
  have hrounds : r.rounds.toNat ≤ vs.length := by
    rcases Iteration.completes_of_outcome houtcome with ⟨s, n, s', w', _, _, hcompletes, _⟩
    rw [← hlength]
    by_contra hmore
    have hlast : vs.length < r.stats.length := by omega
    have hpos : 0 < (r.stats[vs.length]).worksetLength := hcompletes.worksetLength_pos _ (List.getElem_mem hlast)
    rw [(hcounts vs.length hlast).1] at hpos
    exact Nat.lt_irrefl _ (lt_length_of_length_fresh_pos hpos)
  have hconverged : r.termination = .converged := by
    rcases hend with ⟨h, _⟩ | ⟨hreached, hmax⟩
    · exact h
    · have hpos : 0 < r.remaining := (haccounted.maxRoundsReached_iff.1 hreached).1
      rw [hremaining, hlength, hmax] at hpos
      have hlt : config.maxRounds.toNat < vs.length := lt_length_of_length_fresh_pos hpos
      omega
  exact ⟨r, hr, hconverged, hrounds, haccounted.converged_iff.1 hconverged⟩

/-- A chain of three vertices takes all of its three rounds. -/
theorem connectedComponents_converges_on_chain :
    let vs : List Int64 := [1, 2, 3]
    let edges : List Record := [vertexPair 1 2, vertexPair 2 3]
    ∃ r, connectedComponents vs edges (.ofMaxRounds 3) .first (fun _ _ => .inOrder) = .ok r ∧
      r.termination = .converged ∧ r.rounds.toNat = vs.length ∧ r.remaining = 0 := by
  intro vs edges
  rcases @connectedComponents_converges vs edges (.ofMaxRounds 3) (by decide) (by decide) (by decide) rfl (by decide)
    .first (fun _ _ => .inOrder) with ⟨r, hr, hconverged, hrounds, hremaining⟩
  have hall : (match connectedComponents vs edges (.ofMaxRounds 3) .first (fun _ _ => .inOrder) with
      | .ok r => decide (vs.length ≤ r.rounds.toNat)
      | .error _ => false) = true := by
    decide +kernel
  rw [hr] at hall
  exact ⟨r, hr, hconverged, Nat.le_antisymm hrounds (of_decide_eq_true hall), hremaining⟩

/-- A worker is needed: settings without one are refused, and no run is begun. -/
theorem not_connectedComponents_converges_without_worker :
    ¬ ∀ (vs : List Int64) (edges : List Record) (config : Config) (position : Position)
        (schedules : UInt32 → Nat → Schedule), vs.Nodup → (∀ e ∈ edges, 1 ≤ e.arity) → config.fanoutLimit = none →
      max vs.length 1 ≤ config.maxRounds.toNat →
        ∃ r, connectedComponents vs edges config position schedules = .ok r ∧ r.termination = .converged ∧
          r.rounds.toNat ≤ vs.length ∧ r.remaining = 0 := by
  intro h
  rcases h [1, 2] [vertexPair 1 2] { Config.ofMaxRounds 2 with parallelism := 0 } .first (fun _ _ => .inOrder)
    (by decide) (by decide) rfl (by decide) with ⟨r, hr, _⟩
  have hrefused : connectedComponents [1, 2] [vertexPair 1 2] { Config.ofMaxRounds 2 with parallelism := 0 } .first
      (fun _ _ => .inOrder) = .error (.invalidConfig .noWorkers) := rfl
  rw [hrefused] at hr
  cases hr

end Runs

end Graph

end WorksetIteration
