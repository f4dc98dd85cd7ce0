import WorksetIteration.Iteration.Interruption
import WorksetIteration.Proofs.Rounds

/-!
# Interrupted runs

What it takes to set the flag of an iteration from outside while it runs.  The rounds are those of a run with a smaller
bound, and so are the calls of the step and what is written; the run only says that it was cancelled where the other one
says that it has reached its bound.

Main results:

- `runRounds_add`: rounds that are left at a bound can be taken up again.
- `Rounds.CutShort`: rounds that the flag has stopped where others have stopped at their bound.
- `cutShort_of_interruption`: interrupted rounds are those of a smaller bound, cut short.
- `Iteration.completes_of_converged`: what a run that has converged has come to.
-/

namespace WorksetIteration

section Rounds

variable {env : Surroundings} {step : Step}

/-- What is done before some rounds does not matter to taking them up again. -/
theorem Rounds.resume_cons (inv : Invocation) (st : RoundStats) (rounds : Rounds)
    (more : SolutionSet → Workset → Bool → Rounds) :
    Rounds.resume ⟨inv :: rounds.invocations, st :: rounds.stats, rounds.ending, rounds.cancelled⟩ more =
      ⟨inv :: (rounds.resume more).invocations, st :: (rounds.resume more).stats, (rounds.resume more).ending,
        (rounds.resume more).cancelled⟩ := by
  rcases rounds with ⟨invs, stats, ⟨t, s, w⟩ | ⟨round, e⟩, cancelled⟩
  · cases t <;> rfl
  · rfl

/-- Rounds that are left at a bound and taken up again go on as if they had not been left. -/
theorem runRounds_add (n left : Nat) (s : SolutionSet) (w : Workset) (cancelled : Bool) :
    runRounds env step (n + left) s w cancelled =
      (runRounds env step n s w cancelled).resume (runRounds env step left) := by
  fun_induction runRounds env step n s w cancelled with
  | case1 n s w cancelled hwork => exact runRounds_empty hwork cancelled
  | case2 s w cancelled hwork =>
      rw [Nat.zero_add]
      rfl
  | case3 s w hwork n =>
      rw [Nat.succ_add]
      unfold runRounds
      rw [if_neg hwork]
      rfl
  | case4 s w cancelled hwork n hflag context reply e hout =>
      rw [Nat.succ_add]
      unfold runRounds
      rw [if_neg hwork]
      simp only [if_neg hflag, hout, Rounds.resume, context, reply]
  | case5 s w cancelled hwork n hflag context reply out hout hcancels =>
      rw [Nat.succ_add]
      unfold runRounds
      simp [hwork, hflag, hout, hcancels, Rounds.resume, context, reply]
  | case6 s w cancelled hwork n hflag context reply out hout hcancels e hdelta =>
      rw [Nat.succ_add]
      unfold runRounds
      simp [hwork, hflag, hout, hcancels, hdelta, Rounds.resume, context, reply]
  | case7 s w cancelled hwork n hflag context reply out hout hcancels s' summary hdelta stats rest ih =>
      rw [Nat.succ_add, Rounds.resume_cons, ← ih]
      conv => lhs; unfold runRounds
      simp [hwork, hflag, hout, hcancels, hdelta, context, reply, stats]

/-- Rounds with the flag set do not call the step. -/
theorem runRounds_flagged (left : Nat) {w : Workset} (hwork : w.isEmpty = false) (s : SolutionSet) :
    ∃ t, runRounds env step left s w true = ⟨[], [], .stopped t s w, true⟩ ∧
      (t = .cancelled ∨ t = .maxRoundsReached) := by
  cases left with
  | zero => exact ⟨_, runRounds_bound hwork true, Or.inr rfl⟩
  | succ left =>
      refine ⟨.cancelled, ?_, Or.inl rfl⟩
      unfold runRounds
      rw [if_neg (by simp [hwork])]
      rfl

/-! ## Interruptions -/

/-- Rounds that do the same as others, but that the flag may have stopped where the others have reached their bound. -/
structure Rounds.CutShort (rounds bounded : Rounds) : Prop where
  /-- They call the step in the same way. -/
  invocations_eq : rounds.invocations = bounded.invocations
  /-- The same rounds are completed. -/
  stats_eq : rounds.stats = bounded.stats
  /-- They end in the same way, or because of the flag where the others have reached their bound. -/
  ending_cases : rounds.ending = bounded.ending ∨
    ∃ s w, bounded.ending = .stopped .maxRoundsReached s w ∧ rounds.ending = .stopped .cancelled s w

namespace Rounds.CutShort

variable {rounds bounded : Rounds}

theorem refl (rounds : Rounds) : rounds.CutShort rounds :=
  ⟨rfl, rfl, Or.inl rfl⟩

/-- What has been written when they stop. -/
theorem stopped (h : rounds.CutShort bounded) {t : Termination} {s : SolutionSet} {w : Workset}
    (hending : rounds.ending = .stopped t s w) : ∃ t', bounded.ending = .stopped t' s w := by
  rcases h.ending_cases with hsame | ⟨s', w', hbound, hcancelled⟩
  · exact ⟨t, hsame.symm.trans hending⟩
  · obtain ⟨_, rfl, rfl⟩ := Ending.stopped.inj (hcancelled.symm.trans hending)
    exact ⟨_, hbound⟩

/-- A failure is not due to the flag. -/
theorem failed (h : rounds.CutShort bounded) {round : UInt32} {e : Error}
    (hending : rounds.ending = .failed round e) : bounded.ending = .failed round e := by
  rcases h.ending_cases with hsame | ⟨s, w, _, hcancelled⟩
  · exact hsame.symm.trans hending
  · cases hcancelled.symm.trans hending

/-- An end other than at the bound is not changed by the flag. -/
theorem ended (h : rounds.CutShort bounded) {ending : Ending} (hending : bounded.ending = ending)
    (hother : ∀ s w, ending ≠ .stopped .maxRoundsReached s w) : rounds.ending = ending := by
  rcases h.ending_cases with hsame | ⟨s, w, hbound, _⟩
  · exact hsame.trans hending
  · exact absurd (hending.symm.trans hbound) (hother s w)

/-- Rounds that are taken up again with the flag set go no further. -/
theorem resume {n : Nat} {s : SolutionSet} {w : Workset} {cancelled : Bool} (left : Nat) :
    ((runRounds env step n s w cancelled).resume fun s w _ => runRounds env step left s w true).CutShort
      (runRounds env step n s w cancelled) := by
  cases hending : (runRounds env step n s w cancelled).ending with
  | failed round e =>
      rw [Rounds.resume, hending]
      exact refl _
  | stopped t s' w' =>
      cases t with
      | converged | cancelled =>
          rw [Rounds.resume, hending]
          exact refl _
      | maxRoundsReached =>
          rcases completes_of_stopped hending with ⟨_, _, _, hwork, _⟩
          rcases @runRounds_flagged env step left w' hwork s' with ⟨t, hflagged, ht⟩
          rw [Rounds.resume, hending]
          simp only [hflagged, List.append_nil]
          refine ⟨rfl, rfl, ?_⟩
          rcases ht with rfl | rfl
          · exact Or.inr ⟨s', w', hending, rfl⟩
          · exact Or.inl hending.symm

end Rounds.CutShort

/-- Interrupted rounds are those of a smaller bound, cut short. -/
theorem cutShort_of_interruption (env : Surroundings) (step : Step) (interruption : Option Nat) (left : Nat)
    (s : SolutionSet) (w : Workset) (cancelled : Bool) :
    ∃ n ≤ left, (∀ m, interruption = some m → n ≤ m) ∧
      (runRoundsInterrupted env step interruption left s w cancelled).CutShort
        (runRounds env step n s w cancelled) := by
  cases interruption with
  | none => exact ⟨left, Nat.le_refl left, by simp, .refl _⟩
  | some n =>
      rw [runRoundsInterrupted]
      by_cases hle : n ≤ left
      · rw [if_pos hle]
        exact ⟨n, hle, by simp, .resume (left - n)⟩
      · rw [if_neg hle]
        exact ⟨left, Nat.le_refl left, by simpa using Nat.le_of_not_le hle, .refl _⟩

end Rounds

/-- What a run that has converged has come to: its rounds are completed, and nothing is left to process. -/
theorem Iteration.completes_of_converged {it : Iteration} {interruption : Option Nat} {step : Step}
    {schedules : UInt32 → Nat → Schedule} {solution workset : List Record} {r : RunResult}
    (hrun : (it.runInterrupted interruption step schedules solution workset).outcome = .ok r)
    (hconverged : r.termination = .converged) :
    ∃ s n stats s' w', SolutionSet.seed solution it.config.key = .ok s ∧ n ≤ it.config.maxRounds.toNat ∧
      Completes (it.surroundings schedules) step n s (.seed workset) stats s' w' ∧ w'.isEmpty = true ∧
      r.solution = s'.records := by
  rcases stopped_of_outcome hrun with ⟨s, t, s', w', hseed, hending, rfl⟩
  obtain rfl : t = .converged := hconverged
  rcases cutShort_of_interruption (it.surroundings schedules) step interruption it.config.maxRounds.toNat s
    (.seed workset) it.cancelled with ⟨m, hm, _, hcut⟩
  have hbounded : (runRounds (it.surroundings schedules) step m s (.seed workset) it.cancelled).ending =
      .stopped .converged s' w' := by
    rcases hcut.ending_cases with hsame | ⟨_, _, _, hcancelled⟩
    · exact hsame.symm.trans hending
    · cases hcancelled.symm.trans hending
  rcases completes_of_stopped hbounded with ⟨n, hn, hcompletes, hstops⟩
  exact ⟨s, n, _, s', w', hseed, hn.trans hm, hcompletes, hstops, rfl⟩

end WorksetIteration
