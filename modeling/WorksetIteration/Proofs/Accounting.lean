import WorksetIteration.Proofs.Rounds

/-!
# The accounts of a run

What the counts of a run have to do with each other, with its seed records and with the reason it stopped for.  Each
round processes what the one before has left, every record written is counted as new or as a replacement, and the
number of a round is never beyond the range of its type, whatever the step answers and whenever it cancels.

Main results:

- `Completes.linked`: each completed round processes what the one before has left.
- `Completes.size_eq`: the solution set grows by the records counted as new.
- `RunResult.Accounted`: the accounts of a result.
- `Iteration.run_accounted`: every result has its accounts in order, and no run exhausts the numbers of rounds.
-/

namespace WorksetIteration

/-! ## Completed rounds -/

namespace Completes

variable {env : Surroundings} {step : Step} {n : Nat} {s s' : SolutionSet} {w w' : Workset} {stats : List RoundStats}

/-- The rounds are numbered one after the other. -/
theorem toNat_round_getElem (h : Completes env step n s w stats s' w') (hcount : w.round.toNat + n < 2 ^ 32) (i : Nat)
    (hi : i < stats.length) : (stats[i]).round.toNat = w.round.toNat + i := by
  induction h generalizing i with
  | none s w => exact absurd hi (Nat.not_lt_zero i)
  | @round n s₁ s₂ sEnd w₁ wEnd out summary stats hwork hout hdelta hrest ih =>
      cases i with
      | zero => rfl
      | succ i =>
          have hnext : (w₁.replace out.next).round.toNat = w₁.round.toNat + 1 := toNat_round_replace (by omega) _
          have hround := ih (by omega) i (by simpa using hi)
          rw [List.getElem_cons_succ, hround]
          omega

/-- The first of some completed rounds processes the workset that they start with. -/
theorem worksetLength_head? (h : Completes env step n s w stats s' w') :
    ∀ st ∈ stats.head?, st.worksetLength = w.size := by
  cases h with
  | none s w => simp
  | @round n s₁ s₂ sEnd w₁ wEnd out summary stats hwork hout hdelta hrest =>
      intro st hst
      obtain rfl := Option.some.inj hst
      rfl

/-- Every completed round has something to process. -/
theorem worksetLength_pos (h : Completes env step n s w stats s' w') : ∀ st ∈ stats, 0 < st.worksetLength := by
  induction h with
  | none s w => simp
  | @round n s₁ s₂ sEnd w₁ wEnd out summary stats hwork hout hdelta hrest ih =>
      intro st hst
      rcases List.mem_cons.1 hst with rfl | hst
      · exact List.length_pos_iff.2 (List.isEmpty_eq_false_iff.1 hwork)
      · exact ih st hst

/-- Each completed round processes what the one before has left, and that is something. -/
theorem linked (h : Completes env step n s w stats s' w') :
    stats.IsChain fun a b => a.nextWorksetLength = b.worksetLength ∧ 0 < a.nextWorksetLength := by
  induction h with
  | none s w => exact List.isChain_nil
  | @round n s₁ s₂ sEnd w₁ wEnd out summary stats hwork hout hdelta hrest ih =>
      refine List.isChain_cons.2 ⟨?_, ih⟩
      intro st hst
      have hlength : st.worksetLength = out.next.length := hrest.worksetLength_head? st hst
      have hpos : 0 < st.worksetLength := hrest.worksetLength_pos st (List.mem_of_head? hst)
      exact ⟨hlength.symm, hpos.trans_eq hlength⟩

/-- The last of some completed rounds leaves the workset that they end with. -/
theorem size_workset_eq (h : Completes env step n s w stats s' w') :
    w'.size = (stats.getLast?.map RoundStats.nextWorksetLength).getD w.size := by
  induction h with
  | none s w => rfl
  | @round n s₁ s₂ sEnd w₁ wEnd out summary stats hwork hout hdelta hrest ih =>
      rw [ih, List.getLast?_cons]
      cases stats.getLast? <;> rfl

/-- Every record written is counted as new or as a replacement. -/
theorem inserted_add_updated (h : Completes env step n s w stats s' w') :
    ∀ st ∈ stats, st.summary.inserted + st.summary.updated = st.deltaLength := by
  induction h with
  | none s w => simp
  | @round n s₁ s₂ sEnd w₁ wEnd out summary stats hwork hout hdelta hrest ih =>
      intro st hst
      rcases List.mem_cons.1 hst with rfl | hst
      · exact (SolutionSet.applyDelta_counts hdelta).2
      · exact ih st hst

/-- The solution set grows by the records counted as new. -/
theorem size_eq (h : Completes env step n s w stats s' w') :
    s'.size = s.size + (stats.map fun st => st.summary.inserted).sum := by
  induction h with
  | none s w => rfl
  | @round n s₁ s₂ sEnd w₁ wEnd out summary stats hwork hout hdelta hrest ih =>
      rw [ih, (SolutionSet.applyDelta_counts hdelta).1, List.map_cons, List.sum_cons, Nat.add_assoc]
      rfl

end Completes

/-! ## Reasons to stop -/

section Reasons

variable {env : Surroundings} {step : Step} {left n : Nat} {cancelled : Bool} {s : SolutionSet} {w : Workset}
  {t : Termination}

theorem Workset.isEmpty_iff_size (w : Workset) : w.isEmpty = true ↔ w.size = 0 :=
  List.isEmpty_iff.trans List.length_eq_zero_iff.symm

theorem Workset.isEmpty_eq_false_iff_size (w : Workset) : w.isEmpty = false ↔ 0 < w.size := by
  rw [← Bool.not_eq_true, w.isEmpty_iff_size, Nat.pos_iff_ne_zero]

/-- What is left in the workset and how many rounds were completed tell why a run has stopped. -/
theorem StopsFor.termination_iff (h : StopsFor env step left n cancelled s w t) :
    (t = .converged ↔ w.size = 0) ∧ (t = .maxRoundsReached ↔ 0 < w.size ∧ n = left) ∧
      (t = .cancelled ↔ 0 < w.size ∧ n < left) := by
  cases t with
  | converged =>
      have hsize : w.size = 0 := w.isEmpty_iff_size.1 h
      simp [hsize]
  | maxRoundsReached =>
      have hsize : 0 < w.size := w.isEmpty_eq_false_iff_size.1 h.1
      simp [hsize, hsize.ne', h.2]
  | cancelled =>
      have hsize : 0 < w.size := w.isEmpty_eq_false_iff_size.1 h.1
      simp [hsize, hsize.ne', h.2.1, h.2.1.ne]

end Reasons

/-! ## Results -/

/-- The accounts of a result: what its counts have to do with the settings, with the numbers of seed records and with
each other. -/
structure RunResult.Accounted (r : RunResult) (config : Config) (solution workset : Nat) : Prop where
  /-- The bound on the rounds is kept. -/
  rounds_le : r.rounds ≤ config.maxRounds
  /-- Every completed round is counted. -/
  length_stats : r.stats.length = r.rounds.toNat
  /-- The rounds are numbered from zero. -/
  round_eq : ∀ i (hi : i < r.stats.length), (r.stats[i]).round.toNat = i
  /-- The first round processes the seed workset. -/
  first : ∀ hpos : 0 < r.stats.length, (r.stats[0]).worksetLength = workset
  /-- Every other round processes what the one before has left, and that is something. -/
  linked : ∀ i (hi : i + 1 < r.stats.length),
    (r.stats[i]).nextWorksetLength = (r.stats[i + 1]).worksetLength ∧ 0 < (r.stats[i]).nextWorksetLength
  /-- What the last round has left remains, and the seed workset if there was no round. -/
  remaining_eq : r.remaining = (r.stats.getLast?.map RoundStats.nextWorksetLength).getD workset
  /-- Every record written is counted as new or as a replacement. -/
  inserted_add_updated : ∀ st ∈ r.stats, st.summary.inserted + st.summary.updated = st.deltaLength
  /-- The solution has grown by the records counted as new. -/
  length_solution : r.solution.length = solution + (r.stats.map fun st => st.summary.inserted).sum
  /-- A run has converged just if nothing remains. -/
  converged_iff : r.termination = .converged ↔ r.remaining = 0
  /-- It has stopped at its bound just if something remains after as many rounds. -/
  maxRoundsReached_iff : r.termination = .maxRoundsReached ↔ 0 < r.remaining ∧ r.rounds = config.maxRounds
  /-- It was cancelled just if something remains after fewer rounds. -/
  cancelled_iff : r.termination = .cancelled ↔ 0 < r.remaining ∧ r.rounds < config.maxRounds

namespace Iteration

variable {it : Iteration} {step : Step} {schedules : UInt32 → Nat → Schedule} {solution workset : List Record}

/-- Wherever a step is called, there is a number for the following round. -/
theorem toNat_round_replace_of_called {inv : Invocation}
    (h : inv ∈ (it.run step schedules solution workset).invocations) (next : List Record) :
    (inv.context.workset.replace next).round.toNat = inv.context.round.toNat + 1 := by
  have hlt : inv.context.round.toNat < it.config.maxRounds.toNat := UInt32.lt_iff_toNat_lt.1 (round_lt_of_called h)
  have hmax := it.config.maxRounds.toNat_lt
  have hnext : inv.context.workset.round.toNat + 1 < 2 ^ 32 := Nat.lt_of_le_of_lt hlt hmax
  exact toNat_round_replace hnext next

/-- The accounts of a result are in order. -/
theorem accounted_of_outcome {r : RunResult} (h : (it.run step schedules solution workset).outcome = .ok r) :
    r.Accounted it.config solution.length workset.length := by
  rcases completes_of_outcome h with ⟨s, n, s', w', hseed, hn, hcompletes, hstops, hresult⟩
  have hcount : (Workset.seed workset).round.toNat + n < 2 ^ 32 := toNat_round_seed_add hn workset
  have hrounds : w'.round.toNat = n := (hcompletes.toNat_round hcount).trans (Nat.zero_add n)
  have hround : r.rounds = w'.round := by rw [hresult]
  have hremaining : r.remaining = w'.size := by rw [hresult]
  have hreasons := hstops.termination_iff
  rw [← hremaining, ← hrounds, ← hround, UInt32.toNat_inj, ← UInt32.lt_iff_toNat_lt] at hreasons
  constructor
  case rounds_le =>
    rw [UInt32.le_iff_toNat_le, hround, hrounds]
    exact hn
  case length_stats => rw [hcompletes.length_stats, hround, hrounds]
  case round_eq =>
    intro i hi
    exact (hcompletes.toNat_round_getElem hcount i hi).trans (Nat.zero_add i)
  case first =>
    intro hpos
    exact hcompletes.worksetLength_head? _ (List.head?_eq_getElem? ▸ List.getElem?_eq_getElem hpos)
  case linked => exact List.isChain_iff_getElem.1 hcompletes.linked
  case remaining_eq =>
    rw [hremaining]
    exact hcompletes.size_workset_eq
  case inserted_add_updated => exact hcompletes.inserted_add_updated
  case length_solution =>
    have hsolution : r.solution.length = s'.size := by rw [hresult, SolutionSet.length_records]
    rw [hsolution, hcompletes.size_eq, SolutionSet.size_of_seed hseed]
  case converged_iff => exact hreasons.1
  case maxRoundsReached_iff => exact hreasons.2.1
  case cancelled_iff => exact hreasons.2.2

/-- No run exhausts the numbers of rounds, and every run with a result has its accounts in order, whatever its step
answers and whenever it cancels. -/
theorem run_accounted (it : Iteration) (step : Step) (schedules : UInt32 → Nat → Schedule)
    (solution workset : List Record) :
    (∀ inv ∈ (it.run step schedules solution workset).invocations, ∀ next,
      (inv.context.workset.replace next).round.toNat = inv.context.round.toNat + 1) ∧
    ∀ r, (it.run step schedules solution workset).outcome = .ok r →
      r.Accounted it.config solution.length workset.length :=
  ⟨fun _ => toNat_round_replace_of_called, fun _ => accounted_of_outcome⟩

/-- A step that writes one key twice and cancels in the last round that is allowed. -/
theorem run_accounted_of_cancelled_last :
    let it : Iteration := { config := .ofMaxRounds 2 }
    let step : Step := fun ctx => ⟨.ok ⟨ctx.workset.records, [.pair (.int64 2) .null, .pair (.int64 2) .null]⟩,
      ctx.round = 1⟩
    let seed : List Record := [.pair (.int64 1) .null]
    let run := it.run step (fun _ _ => .inOrder) seed seed
    (∃ inv ∈ run.invocations, inv.context.round = 1 ∧ ∀ next, (inv.context.workset.replace next).round.toNat = 2) ∧
      ∃ r, run.outcome = .ok r ∧ r.termination = .cancelled ∧ r.stats.length = 1 ∧
        r.Accounted it.config seed.length seed.length := by
  intro it step seed run
  have h := run_accounted it step (fun _ _ => .inOrder) seed seed
  constructor
  · have hcalled := h.1 _ (List.mem_cons_of_mem _ List.mem_cons_self)
    exact ⟨_, List.mem_cons_of_mem _ List.mem_cons_self, rfl, fun next => hcalled next⟩
  · exact ⟨_, rfl, rfl, rfl, h.2 _ rfl⟩

end Iteration

end WorksetIteration
