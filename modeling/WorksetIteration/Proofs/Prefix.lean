import WorksetIteration.Proofs.Rounds

/-!
# Runs cut short

A run that is cancelled while its step computes a round has done what a run bounded by that round does, and a run with
a smaller bound has done the first rounds of one with a larger bound.  Runs are compared under their own schedules; the
step must answer alike under them.

Main results:

- `Iteration.AnswersAlike`: a step function answers alike under two schedules.
- `Completes.of_answersAlike`: such a step function completes the same rounds.
- `Iteration.run_cut_short`: cancelled, bounded and longer runs agree on their common rounds.
-/

namespace WorksetIteration

namespace Iteration

/-- The iteration with another bound on its rounds. -/
def withMaxRounds (it : Iteration) (maxRounds : UInt32) : Iteration :=
  { it with config := { it.config with maxRounds := maxRounds } }

/-- A step function answers alike under two schedules of an iteration.  It does so under any two if it depends on the
records and settings it reads only, and every step function does so under one schedule. -/
def AnswersAlike (it : Iteration) (f : StepContext → Except Error StepOutput)
    (schedules schedules' : UInt32 → Nat → Schedule) : Prop :=
  ∀ s w, f ((it.surroundings schedules').context s w) = f ((it.surroundings schedules).context s w)

theorem AnswersAlike.symm {it : Iteration} {f : StepContext → Except Error StepOutput}
    {schedules schedules' : UInt32 → Nat → Schedule} (h : it.AnswersAlike f schedules schedules') :
    it.AnswersAlike f schedules' schedules :=
  fun s w => (h s w).symm

end Iteration

/-- The step that asks for the iteration to be cancelled in the given round. -/
def Step.cancellingAt (k : UInt32) (f : StepContext → Except Error StepOutput) : Step :=
  fun ctx => ⟨f ctx, ctx.round = k⟩

section Comparison

variable {it : Iteration} {f : StepContext → Except Error StepOutput} {schedules schedules' : UInt32 → Nat → Schedule}
  {n : Nat} {s s' : SolutionSet} {w w' : Workset} {stats : List RoundStats}

/-- Under schedules that make no difference the same rounds are completed. -/
theorem Completes.of_answersAlike (halike : it.AnswersAlike f schedules schedules')
    (hcount : w.round.toNat + n < 2 ^ 32)
    (h : Completes (it.surroundings schedules') (.ofFunction f) n s w stats s' w') :
    Completes (it.surroundings schedules) (.ofFunction f) n s w stats s' w' := by
  apply h.congr hcount
  intro s₁ w₁ _
  rw [Step.ofFunction, Step.ofFunction, halike s₁ w₁]

/-- Before the round it cancels in, the step completes the same rounds. -/
theorem Completes.cancellingAt {k : UInt32} (halike : it.AnswersAlike f schedules schedules')
    (hcount : w.round.toNat + n < 2 ^ 32) (hk : w.round.toNat + n ≤ k.toNat)
    (h : Completes (it.surroundings schedules) (.ofFunction f) n s w stats s' w') :
    Completes (it.surroundings schedules') (.cancellingAt k f) n s w stats s' w' := by
  apply h.congr hcount
  intro s₁ w₁ hw₁
  have hne : w₁.round ≠ k := by
    rintro rfl
    omega
  rw [Step.cancellingAt, Step.ofFunction, halike s₁ w₁]
  congr 1
  exact decide_eq_false hne

/-- A run that is not cancelled stops because its workset is empty or its bound is reached. -/
theorem StopsFor.uncancelled {env : Surroundings} {left : Nat} {t : Termination}
    (h : StopsFor env (.ofFunction f) left n false s w t) :
    (t = .converged ∧ w.isEmpty = true) ∨ (t = .maxRoundsReached ∧ w.isEmpty = false ∧ n = left) := by
  cases t with
  | converged => exact Or.inl ⟨rfl, h⟩
  | maxRoundsReached => exact Or.inr ⟨rfl, h⟩
  | cancelled =>
      rcases h with ⟨_, _, ⟨_, hfalse⟩ | ⟨out, hout⟩⟩
      · cases hfalse
      · cases congrArg StepReply.cancels hout

end Comparison

namespace Iteration

section Prefixes

variable {it : Iteration} {f : StepContext → Except Error StepOutput}
  {schedules schedules' schedules'' : UInt32 → Nat → Schedule} {solution workset : List Record}

/-- A run cancelled in a round that its step would answer, and the run bounded by that round. -/
theorem run_cancelled_of_called (hflag : it.cancelled = false) (halike' : it.AnswersAlike f schedules schedules')
    (halike'' : it.AnswersAlike f schedules schedules'') {k m bound : UInt32} (hk : k < m) {inv : Invocation}
    (hinv : inv ∈ ((it.withMaxRounds bound).run (.ofFunction f) schedules solution workset).invocations)
    (hround : inv.context.round = k) {out : StepOutput} (hout : inv.reply.outcome = .ok out) :
    ∃ r : RunResult, ((it.withMaxRounds m).run (.cancellingAt k f) schedules' solution workset).outcome =
        .ok { r with termination := .cancelled } ∧
      ((it.withMaxRounds k).run (.ofFunction f) schedules'' solution workset).outcome =
        .ok { r with termination := .maxRoundsReached } ∧ r.rounds = k := by
  rcases mem_invocations hinv with ⟨s, hseed, hcalled⟩
  rcases completes_of_mem_invocations hcalled with ⟨n, hn, stats, s', w', hcompletes, hwork, rfl⟩
  have hcount : (Workset.seed workset).round.toNat + n < 2 ^ 32 := toNat_round_seed_add (Nat.le_of_lt hn) workset
  have hrounds : w'.round.toNat = 0 + n := hcompletes.toNat_round hcount
  have hw' : w'.round = k := hround
  have hkn : k.toNat = n := by
    rw [← hw', hrounds, Nat.zero_add]
  have hm : n < m.toNat := by
    rw [← hkn]
    exact UInt32.lt_iff_toNat_lt.1 hk
  refine ⟨⟨s'.records, .cancelled, w'.round, stats, w'.size⟩, ?_, ?_, hround⟩
  · have hanswer : Step.cancellingAt k f ((it.surroundings schedules').context s' w') = ⟨.ok out, true⟩ := by
      rw [Step.cancellingAt, halike' s' w']
      congr 1
      exact decide_eq_true hround
    apply outcome_of_completes (it.withMaxRounds m) hseed hflag
      (hcompletes.cancellingAt halike' hcount (by simp [Workset.seed, hkn])) (Nat.le_of_lt hm)
    exact ⟨hwork, hm, Or.inr ⟨out, hanswer⟩⟩
  · apply outcome_of_completes (it.withMaxRounds k) hseed hflag (hcompletes.congr hcount ?_) hkn.ge
    · exact ⟨hwork, hkn.symm⟩
    · intro s₁ w₁ _
      change Step.ofFunction f ((it.surroundings schedules'').context s₁ w₁) =
        Step.ofFunction f ((it.surroundings schedules).context s₁ w₁)
      rw [Step.ofFunction, Step.ofFunction, halike'' s₁ w₁]

/-- A run with a smaller bound has the first counts of a run with a larger one. -/
theorem stats_prefix_of_le (hflag : it.cancelled = false) (halike : it.AnswersAlike f schedules schedules')
    {m m' : UInt32} (hle : m ≤ m') {r r' : RunResult}
    (hr : ((it.withMaxRounds m).run (.ofFunction f) schedules solution workset).outcome = .ok r)
    (hr' : ((it.withMaxRounds m').run (.ofFunction f) schedules' solution workset).outcome = .ok r') :
    r.stats <+: r'.stats := by
  rcases completes_of_outcome hr with ⟨s, n, sEnd, wEnd, hseed, hn, hcompletes, _, _⟩
  rcases completes_of_outcome hr' with ⟨s', n', sEnd', wEnd', hseed', hn', hcompletes', hstops', _⟩
  obtain rfl : s = s' := Except.ok.inj (hseed.symm.trans hseed')
  have hsame : Completes (it.surroundings schedules) (.ofFunction f) n' s (.seed workset) r'.stats sEnd' wEnd' :=
    hcompletes'.of_answersAlike halike (toNat_round_seed_add hn' workset)
  have hle' : m.toNat ≤ m'.toNat := UInt32.le_iff_toNat_le.1 hle
  have hstops' : StopsFor (it.surroundings schedules') (.ofFunction f) m'.toNat n' false sEnd' wEnd'
      r'.termination := by
    rw [← hflag]
    exact hstops'
  have hn : n ≤ m.toNat := hn
  apply hcompletes.prefix_of_le hsame
  rcases hstops'.uncancelled with ⟨_, hempty'⟩ | ⟨_, _, hbound'⟩
  · exact hsame.le_of_isEmpty hempty' hcompletes
  · omega

/-- A run that has converged has the same result with a larger bound. -/
theorem run_of_converged (hflag : it.cancelled = false) (halike : it.AnswersAlike f schedules schedules')
    {m m' : UInt32} (hle : m ≤ m') {r : RunResult}
    (hr : ((it.withMaxRounds m).run (.ofFunction f) schedules solution workset).outcome = .ok r)
    (hconverged : r.termination = .converged) :
    ((it.withMaxRounds m').run (.ofFunction f) schedules' solution workset).outcome = .ok r := by
  rcases completes_of_outcome hr with ⟨s, n, sEnd, wEnd, hseed, hn, hcompletes, hstops, hresult⟩
  rw [hconverged] at hstops
  have hempty : wEnd.isEmpty = true := hstops
  have hcount : (Workset.seed workset).round.toNat + n < 2 ^ 32 := toNat_round_seed_add hn workset
  have hn' : n ≤ m'.toNat := hn.trans (UInt32.le_iff_toNat_le.1 hle)
  have hsame : Completes (it.surroundings schedules') (.ofFunction f) n s (.seed workset) r.stats sEnd wEnd :=
    hcompletes.of_answersAlike halike.symm hcount
  rw [hresult, hconverged]
  exact outcome_of_completes (it.withMaxRounds m') hseed hflag hsame hn' hempty

/-- The law of runs cut short.  A run cancelled while its step computes round `k`, with a larger bound, and a run with
the bound `k` both have results, which count `k` rounds and differ in the reason to stop only, if some longer run calls
the step in round `k` and is answered.  A run with a smaller bound has the first counts of a run with a larger one, and
if it has converged, the run with the larger bound has its result. -/
theorem run_cut_short (hflag : it.cancelled = false) (halike' : it.AnswersAlike f schedules schedules')
    (halike'' : it.AnswersAlike f schedules schedules'') (solution workset : List Record) :
    (∀ k m bound : UInt32, k < m →
      (∃ inv ∈ ((it.withMaxRounds bound).run (.ofFunction f) schedules solution workset).invocations,
        inv.context.round = k ∧ ∃ out, inv.reply.outcome = .ok out) →
      ∃ r : RunResult, ((it.withMaxRounds m).run (.cancellingAt k f) schedules' solution workset).outcome =
          .ok { r with termination := .cancelled } ∧
        ((it.withMaxRounds k).run (.ofFunction f) schedules'' solution workset).outcome =
          .ok { r with termination := .maxRoundsReached } ∧ r.rounds = k) ∧
    ∀ (m m' : UInt32) (r : RunResult), m ≤ m' →
      ((it.withMaxRounds m).run (.ofFunction f) schedules solution workset).outcome = .ok r →
      (∀ r', ((it.withMaxRounds m').run (.ofFunction f) schedules' solution workset).outcome = .ok r' →
        r.stats <+: r'.stats) ∧
      (r.termination = .converged →
        ((it.withMaxRounds m').run (.ofFunction f) schedules' solution workset).outcome = .ok r) := by
  constructor
  · rintro k m bound hk ⟨inv, hinv, hround, out, hout⟩
    exact run_cancelled_of_called hflag halike' halike'' hk hinv hround hout
  · intro m m' r hle hr
    exact ⟨fun _ hr' => stats_prefix_of_le hflag halike' hle hr hr', run_of_converged hflag halike' hle hr⟩

/-- A step that writes a record under the number of each round and hands its workset on for ever, under three schedules.
Cancelled in round two of at most four, the run keeps what the rounds zero and one have written over the seed records,
as the run with the bound two does, and drops the delta of round two, which a longer run writes. -/
theorem run_cut_short_of_endless :
    let it : Iteration := { config := {} }
    let f : StepContext → Except Error StepOutput := fun ctx =>
      .ok ⟨ctx.workset.records, [.pair (.int64 (.ofNat ctx.round.toNat)) (.int64 7)]⟩
    let others : UInt32 → Nat → Schedule := fun round _ => ⟨fun tick => tick + round.toNat, fun _ => 0⟩
    let solution : List Record := [.pair (.int64 1) (.int64 5)]
    let workset : List Record := [.pair (.int64 1) (.int64 2)]
    (∃ r : RunResult, ((it.withMaxRounds 4).run (.cancellingAt 2 f) others solution workset).outcome =
        .ok { r with termination := .cancelled } ∧
      ((it.withMaxRounds 2).run (.ofFunction f) (fun _ _ => .inOrder) solution workset).outcome =
        .ok { r with termination := .maxRoundsReached } ∧ r.rounds = 2 ∧
      r.solution = [.pair (.int64 0) (.int64 7), .pair (.int64 1) (.int64 7)]) ∧
    ((it.withMaxRounds 4).run (.ofFunction f) others solution workset).outcome.map RunResult.solution =
      .ok ([0, 1, 2, 3].map fun n => .pair (.int64 n) (.int64 7)) ∧
    ∀ (m m' : UInt32) (r : RunResult), m ≤ m' →
      ((it.withMaxRounds m).run (.ofFunction f) (fun _ _ => .inOrder) solution workset).outcome = .ok r →
      (∀ r', ((it.withMaxRounds m').run (.ofFunction f) others solution workset).outcome = .ok r' →
        r.stats <+: r'.stats) ∧
      (r.termination = .converged →
        ((it.withMaxRounds m').run (.ofFunction f) others solution workset).outcome = .ok r) := by
  intro it f others solution workset
  have h := @run_cut_short it f (fun _ _ => .inOrder) others (fun _ _ => .inOrder) rfl (fun _ _ => rfl)
    (fun _ _ => rfl) solution workset
  have hcalled : ∃ inv ∈ ((it.withMaxRounds 4).run (.ofFunction f) (fun _ _ => .inOrder) solution
      workset).invocations, inv.context.round = 2 ∧ ∃ out, inv.reply.outcome = .ok out :=
    ⟨_, List.mem_cons_of_mem _ (List.mem_cons_of_mem _ List.mem_cons_self), rfl, _, rfl⟩
  have hbounded : ((it.withMaxRounds 2).run (.ofFunction f) (fun _ _ => .inOrder) solution
      workset).outcome.map RunResult.solution =
      .ok [.pair (.int64 0) (.int64 7), .pair (.int64 1) (.int64 7)] := by
    decide +kernel
  rcases h.1 2 4 4 (by decide) hcalled with ⟨r, hcancelled, hreached, hrounds⟩
  rw [hreached] at hbounded
  exact ⟨⟨r, hcancelled, hreached, hrounds, Except.ok.inj hbounded⟩, by decide +kernel, h.2⟩

end Prefixes

end Iteration

end WorksetIteration
