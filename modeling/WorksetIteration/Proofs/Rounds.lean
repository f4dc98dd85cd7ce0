import WorksetIteration.Iteration
import WorksetIteration.Proofs.SolutionSet

/-!
# Completed rounds

The rounds of a run as a relation: a number of rounds completed one after the other, with their counts and with the
state they lead to.  A run completes some rounds and then stops, and why it stops depends only on the state it has
come to, on the bound and on the flag.

Main results:

- `Completes`: some rounds completed one after the other.
- `Completes.runRounds_eq`: the rounds of a run split into completed ones and the rest.
- `completes_of_mem_invocations`: a step is called after the rounds before it have been completed.
- `completes_of_stopped`: what has been completed when a run stops.
- `completes_of_invariant`: an invariant that every round establishes anew carries a run to its end.
- `Iteration.runWith_cases`: what a run can do.
- `Iteration.completes_of_outcome`, `Iteration.outcome_of_completes`: the completed rounds of a run with a result.
-/

namespace WorksetIteration

/-! ## One round -/

section OneRound

variable {env : Surroundings} {step : Step} {left : Nat} {s : SolutionSet} {w : Workset}

/-- The counts of a completed round. -/
def RoundStats.of (w : Workset) (out : StepOutput) (summary : DeltaSummary) : RoundStats :=
  ⟨w.round, w.size, out.delta.length, out.next.length, summary⟩

theorem runRounds_empty (h : w.isEmpty = true) (cancelled : Bool) :
    runRounds env step left s w cancelled = ⟨[], [], .stopped .converged s w, cancelled⟩ := by
  unfold runRounds
  rw [if_pos h]

theorem runRounds_bound (h : w.isEmpty = false) (cancelled : Bool) :
    runRounds env step 0 s w cancelled = ⟨[], [], .stopped .maxRoundsReached s w, cancelled⟩ := by
  unfold runRounds
  rw [if_neg (by simp [h])]

/-- A round that is cancelled while the step computes leaves everything as it was. -/
theorem runRounds_discarded (h : w.isEmpty = false) {out : StepOutput}
    (hout : step (env.context s w) = ⟨.ok out, true⟩) :
    runRounds env step (left + 1) s w false =
      ⟨[⟨env.context s w, ⟨.ok out, true⟩⟩], [], .stopped .cancelled s w, true⟩ := by
  unfold runRounds
  simp [h, hout]

/-- A round whose step fails ends the run. -/
theorem runRounds_failed (h : w.isEmpty = false) {e : Error} (hout : step (env.context s w) = ⟨.error e, false⟩) :
    runRounds env step (left + 1) s w false =
      ⟨[⟨env.context s w, ⟨.error e, false⟩⟩], [], .failed w.round e, false⟩ := by
  unfold runRounds
  simp [h, hout]

/-- A completed round writes its delta and hands its next workset on. -/
theorem runRounds_completed (h : w.isEmpty = false) {out : StepOutput}
    (hout : step (env.context s w) = ⟨.ok out, false⟩) {s' : SolutionSet} {summary : DeltaSummary}
    (hdelta : s.applyDelta out.delta = .ok (s', summary)) :
    runRounds env step (left + 1) s w false =
      let rest := runRounds env step left s' (w.replace out.next) false
      ⟨⟨env.context s w, ⟨.ok out, false⟩⟩ :: rest.invocations, RoundStats.of w out summary :: rest.stats,
        rest.ending, rest.cancelled⟩ := by
  conv => lhs; unfold runRounds
  simp [h, hout, hdelta, RoundStats.of]

theorem toNat_round_replace (h : w.round.toNat + 1 < 2 ^ 32) (next : List Record) :
    (w.replace next).round.toNat = w.round.toNat + 1 := by
  rw [Workset.round_replace, UInt32.toNat_add]
  exact Nat.mod_eq_of_lt h

end OneRound

/-- From the first round on as many rounds are counted as a bound allows. -/
theorem toNat_round_seed_add {n : Nat} {m : UInt32} (h : n ≤ m.toNat) (workset : List Record) :
    (Workset.seed workset).round.toNat + n < 2 ^ 32 := by
  have := m.toNat_lt
  simp only [Workset.seed, UInt32.toNat_zero]
  omega

/-! ## Some rounds -/

/-- A number of rounds completed one after the other: their counts, and the solution set and the workset that they lead
to. -/
inductive Completes (env : Surroundings) (step : Step) :
    Nat → SolutionSet → Workset → List RoundStats → SolutionSet → Workset → Prop
  | none (s : SolutionSet) (w : Workset) : Completes env step 0 s w [] s w
  | round {n : Nat} {s s' sEnd : SolutionSet} {w wEnd : Workset} {out : StepOutput} {summary : DeltaSummary}
      {stats : List RoundStats} (hwork : w.isEmpty = false) (hout : step (env.context s w) = ⟨.ok out, false⟩)
      (hdelta : s.applyDelta out.delta = .ok (s', summary))
      (hrest : Completes env step n s' (w.replace out.next) stats sEnd wEnd) :
      Completes env step (n + 1) s w (RoundStats.of w out summary :: stats) sEnd wEnd

namespace Completes

variable {env : Surroundings} {step : Step} {n : Nat} {s s' : SolutionSet} {w w' : Workset} {stats : List RoundStats}

/-- The rounds of a run split into completed ones and the rest. -/
theorem runRounds_eq (h : Completes env step n s w stats s' w') (left : Nat) :
    (runRounds env step (n + left) s w false).stats = stats ++ (runRounds env step left s' w' false).stats ∧
      (runRounds env step (n + left) s w false).ending = (runRounds env step left s' w' false).ending := by
  induction h with
  | none s w =>
      rw [Nat.zero_add]
      exact ⟨rfl, rfl⟩
  | @round n s₁ s₂ sEnd w₁ wEnd out summary stats hwork hout hdelta hrest ih =>
      have hsucc : n + 1 + left = (n + left) + 1 := by omega
      rw [hsucc, runRounds_completed hwork hout hdelta]
      exact ⟨congrArg (RoundStats.of w₁ out summary :: ·) ih.1, ih.2⟩

theorem length_stats (h : Completes env step n s w stats s' w') : stats.length = n := by
  induction h with
  | none s w => rfl
  | round hwork hout hdelta hrest ih => rw [List.length_cons, ih]

/-- The rounds are counted. -/
theorem toNat_round (h : Completes env step n s w stats s' w') (hcount : w.round.toNat + n < 2 ^ 32) :
    w'.round.toNat = w.round.toNat + n := by
  induction h with
  | none s w => rfl
  | @round n s₁ s₂ sEnd w₁ wEnd out summary stats hwork hout hdelta hrest ih =>
      have hnext : (w₁.replace out.next).round.toNat = w₁.round.toNat + 1 := toNat_round_replace (by omega) _
      rw [ih (by omega)]
      omega

/-- Another step that answers alike in these rounds completes them too. -/
theorem congr {env' : Surroundings} {step' : Step} (h : Completes env step n s w stats s' w')
    (hcount : w.round.toNat + n < 2 ^ 32)
    (halike : ∀ s₁ w₁, w₁.round.toNat < w.round.toNat + n → step' (env'.context s₁ w₁) = step (env.context s₁ w₁)) :
    Completes env' step' n s w stats s' w' := by
  induction h with
  | none s w => exact .none s w
  | @round n s₁ s₂ sEnd w₁ wEnd out summary stats hwork hout hdelta hrest ih =>
      have hnext : (w₁.replace out.next).round.toNat = w₁.round.toNat + 1 := toNat_round_replace (by omega) _
      refine .round hwork ((halike s₁ w₁ (by omega)).trans hout) hdelta (ih (by omega) ?_)
      intro s₃ w₃ hw₃
      exact halike s₃ w₃ (by omega)

end Completes

/-! ## Runs -/

section Runs

variable {env : Surroundings} {step : Step} {s : SolutionSet} {w : Workset}

/-- A step is called after the rounds before it have been completed, on the state that they lead to. -/
theorem completes_of_mem_invocations {left : Nat} {cancelled : Bool} {inv : Invocation}
    (h : inv ∈ (runRounds env step left s w cancelled).invocations) :
    ∃ n < left, ∃ stats s' w', Completes env step n s w stats s' w' ∧ w'.isEmpty = false ∧
      inv = ⟨env.context s' w', step (env.context s' w')⟩ := by
  fun_induction runRounds env step left s w cancelled with
  | case1 | case2 | case3 => cases h
  | case4 s w cancelled hwork left | case5 s w cancelled hwork left | case6 s w cancelled hwork left =>
      exact ⟨0, Nat.succ_pos _, [], s, w, .none s w, Bool.eq_false_iff.2 hwork, List.mem_singleton.1 h⟩
  | case7 s w cancelled hwork left hflag context reply out hout hcancels s' summary hdelta stats rest ih =>
      have hreply : step (env.context s w) = ⟨.ok out, false⟩ := by
        rw [← hout, ← Bool.eq_false_iff.2 hcancels]
      rcases List.mem_cons.1 h with rfl | h
      · exact ⟨0, Nat.succ_pos _, [], s, w, .none s w, Bool.eq_false_iff.2 hwork, rfl⟩
      · rcases ih h with ⟨n, hn, stats, s₁, w₁, hcompletes, hwork₁, hinv⟩
        exact ⟨n + 1, Nat.succ_lt_succ hn, _, s₁, w₁,
          .round (Bool.eq_false_iff.2 hwork) hreply hdelta hcompletes, hwork₁, hinv⟩

/-- Why a run stops after some of the rounds it was allowed: its workset is empty, its bound is reached, or it was
cancelled before a round or while the step computed. -/
def StopsFor (env : Surroundings) (step : Step) (left n : Nat) (cancelled : Bool) (s : SolutionSet) (w : Workset) :
    Termination → Prop
  | .converged => w.isEmpty = true
  | .maxRoundsReached => w.isEmpty = false ∧ n = left
  | .cancelled => w.isEmpty = false ∧ n < left ∧
      (n = 0 ∧ cancelled = true ∨ ∃ out, step (env.context s w) = ⟨.ok out, true⟩)

/-- A run that stops has completed the rounds it counts, and has a reason to stop. -/
theorem completes_of_stopped {left : Nat} {cancelled : Bool} {t : Termination} {s' : SolutionSet} {w' : Workset}
    (h : (runRounds env step left s w cancelled).ending = .stopped t s' w') :
    ∃ n ≤ left, Completes env step n s w (runRounds env step left s w cancelled).stats s' w' ∧
      StopsFor env step left n cancelled s' w' t := by
  fun_induction runRounds env step left s w cancelled with
  | case1 left s w cancelled hwork =>
      cases h
      exact ⟨0, Nat.zero_le _, .none _ _, hwork⟩
  | case2 s w cancelled hwork =>
      cases h
      exact ⟨0, Nat.le_refl _, .none _ _, Bool.eq_false_iff.2 hwork, rfl⟩
  | case3 s w hwork left =>
      cases h
      exact ⟨0, Nat.zero_le _, .none _ _, Bool.eq_false_iff.2 hwork, Nat.succ_pos _, Or.inl ⟨rfl, rfl⟩⟩
  | case4 | case6 => cases h
  | case5 s w cancelled hwork left hflag context reply out hout hcancels =>
      cases h
      refine ⟨0, Nat.zero_le _, .none _ _, Bool.eq_false_iff.2 hwork, Nat.succ_pos _, Or.inr ⟨out, ?_⟩⟩
      rw [← hout, ← hcancels]
  | case7 s w cancelled hwork left hflag context reply out hout hcancels s₁ summary hdelta stats rest ih =>
      have hreply : step (env.context s w) = ⟨.ok out, false⟩ := by
        rw [← hout, ← Bool.eq_false_iff.2 hcancels]
      rcases ih h with ⟨n, hn, hcompletes, hstops⟩
      refine ⟨n + 1, Nat.succ_le_succ hn, .round (Bool.eq_false_iff.2 hwork) hreply hdelta hcompletes, ?_⟩
      cases t with
      | converged => exact hstops
      | maxRoundsReached => exact ⟨hstops.1, congrArg (· + 1) hstops.2⟩
      | cancelled =>
          rcases hstops with ⟨hwork', hlt, ⟨_, hfalse⟩ | hout⟩
          · cases hfalse
          · exact ⟨hwork', Nat.succ_lt_succ hlt, Or.inr hout⟩

/-- The reason to stop decides how the rounds end after some have been completed. -/
theorem Completes.ending_eq {left n : Nat} {t : Termination} {stats : List RoundStats} {s' : SolutionSet} {w' : Workset}
    (h : Completes env step n s w stats s' w') (hle : n ≤ left) (hstops : StopsFor env step left n false s' w' t) :
    (runRounds env step left s w false).stats = stats ∧
      (runRounds env step left s w false).ending = .stopped t s' w' := by
  obtain ⟨more, rfl⟩ := Nat.exists_eq_add_of_le hle
  rcases h.runRounds_eq more with ⟨hstats, hending⟩
  rw [hstats, hending]
  cases t with
  | converged =>
      rw [runRounds_empty hstops]
      exact ⟨List.append_nil _, rfl⟩
  | maxRoundsReached =>
      obtain rfl : more = 0 := by have := hstops.2; omega
      rw [runRounds_bound hstops.1]
      exact ⟨List.append_nil _, rfl⟩
  | cancelled =>
      rcases hstops with ⟨hwork, hlt, ⟨_, hfalse⟩ | ⟨out, hout⟩⟩
      · cases hfalse
      · obtain ⟨more, rfl⟩ : ∃ k, more = k + 1 := Nat.exists_eq_succ_of_ne_zero (by omega)
        rw [runRounds_discarded hwork hout]
        exact ⟨List.append_nil _, rfl⟩

/-! ## Comparing completed rounds -/

/-- The first of some completed rounds is the one that the step answers and the delta is written in. -/
theorem Completes.tail {n : Nat} {stats : List RoundStats} {s₁ s' : SolutionSet} {w' : Workset} {out : StepOutput}
    {summary : DeltaSummary} (h : Completes env step (n + 1) s w stats s' w')
    (hout : step (env.context s w) = ⟨.ok out, false⟩) (hdelta : s.applyDelta out.delta = .ok (s₁, summary)) :
    ∃ more, stats = RoundStats.of w out summary :: more ∧
      Completes env step n s₁ (w.replace out.next) more s' w' := by
  cases h with
  | round hwork hout' hdelta' hrest =>
      obtain rfl := Except.ok.inj (congrArg StepReply.outcome (hout.symm.trans hout'))
      obtain ⟨rfl, rfl⟩ := Prod.mk.inj (Except.ok.inj (hdelta.symm.trans hdelta'))
      exact ⟨_, rfl, hrest⟩

/-- The counts of fewer rounds are a prefix of those of more rounds. -/
theorem Completes.prefix_of_le {m n : Nat} {stats stats' : List RoundStats} {s' s'' : SolutionSet} {w' w'' : Workset}
    (h : Completes env step m s w stats s' w') (h' : Completes env step n s w stats' s'' w'') (hle : m ≤ n) :
    stats <+: stats' := by
  induction h generalizing n stats' with
  | none s w => exact List.nil_prefix
  | round hwork hout hdelta hrest ih =>
      obtain ⟨n, rfl⟩ : ∃ k, n = k + 1 := Nat.exists_eq_succ_of_ne_zero (by omega)
      rcases h'.tail hout hdelta with ⟨more, rfl, hrest'⟩
      exact (List.prefix_cons_inj _).2 (ih hrest' (by omega))

/-- No round is completed once the workset is empty. -/
theorem Completes.le_of_isEmpty {m n : Nat} {stats stats' : List RoundStats} {s' s'' : SolutionSet} {w' w'' : Workset}
    (h : Completes env step m s w stats s' w') (hempty : w'.isEmpty = true)
    (h' : Completes env step n s w stats' s'' w'') : n ≤ m := by
  induction h generalizing n stats' with
  | none s w =>
      cases h' with
      | none => exact Nat.le_refl _
      | round hwork => exact absurd hempty (Bool.eq_false_iff.1 hwork)
  | round hwork hout hdelta hrest ih =>
      cases n with
      | zero => exact Nat.zero_le _
      | succ n =>
          rcases h'.tail hout hdelta with ⟨more, rfl, hrest'⟩
          exact Nat.succ_le_succ (ih hempty hrest')

/-! ## Invariants -/

/-- An invariant that is strong enough for every round to be completed, and that every round establishes anew, carries
a run to its end: rounds are completed until the workset is empty or the bound is reached. -/
theorem completes_of_invariant {Inv : Nat → SolutionSet → Workset → Prop} {Counts : Nat → RoundStats → Prop}
    (hround : ∀ i s w, Inv i s w → w.isEmpty = false → ∃ out s' summary,
      step (env.context s w) = ⟨.ok out, false⟩ ∧ s.applyDelta out.delta = .ok (s', summary) ∧
        Inv (i + 1) s' (w.replace out.next) ∧ Counts i (RoundStats.of w out summary))
    (left i : Nat) (h : Inv i s w) :
    ∃ n ≤ left, ∃ stats s' w', Completes env step n s w stats s' w' ∧ Inv (i + n) s' w' ∧
      (w'.isEmpty = false → n = left) ∧ ∀ j (hj : j < stats.length), Counts (i + j) (stats[j]) := by
  induction left generalizing i s w with
  | zero =>
      refine ⟨0, Nat.le_refl _, [], s, w, .none s w, h, fun _ => rfl, ?_⟩
      intro j hj
      exact absurd hj (Nat.not_lt_zero j)
  | succ left ih =>
      cases hwork : w.isEmpty with
      | true =>
          refine ⟨0, Nat.zero_le _, [], s, w, .none s w, h, by simp [hwork], ?_⟩
          intro j hj
          exact absurd hj (Nat.not_lt_zero j)
      | false =>
          rcases hround i s w h hwork with ⟨out, s₁, summary, hout, hdelta, hinv, hcounts⟩
          rcases ih (i + 1) hinv with ⟨n, hn, stats, s', w', hcompletes, hinv', hend, hstats⟩
          refine ⟨n + 1, Nat.succ_le_succ hn, _, s', w', .round hwork hout hdelta hcompletes, ?_, ?_, ?_⟩
          · rwa [Nat.add_right_comm, Nat.add_assoc] at hinv'
          · exact fun hwork' => congrArg (· + 1) (hend hwork')
          · intro j hj
            cases j with
            | zero => exact hcounts
            | succ j =>
                have := hstats j (by simpa using hj)
                rwa [Nat.add_right_comm, Nat.add_assoc] at this

end Runs

/-! ## Iterations -/

/-- From the first round on the step is called in rounds that a bound allows. -/
theorem round_lt_of_mem_invocations {env : Surroundings} {step : Step} {left : Nat} {m : UInt32} (hle : left ≤ m.toNat)
    {s : SolutionSet} {workset : List Record} {cancelled : Bool} {inv : Invocation}
    (h : inv ∈ (runRounds env step left s (.seed workset) cancelled).invocations) : inv.context.round < m := by
  rcases completes_of_mem_invocations h with ⟨n, hn, stats, s', w', hcompletes, _, rfl⟩
  have hrounds : w'.round.toNat = 0 + n := hcompletes.toNat_round (toNat_round_seed_add (hn.le.trans hle) workset)
  change w'.round < m
  rw [UInt32.lt_iff_toNat_lt]
  omega

namespace Iteration

variable {it : Iteration} {step : Step} {schedules : UInt32 → Nat → Schedule} {solution workset : List Record}

/-- A run whose seed records are refused calls no step; otherwise its calls and its result are those of its rounds. -/
theorem runWith_cases (it : Iteration) (rounds : SolutionSet → Rounds) (solution : List Record) :
    (∃ e, SolutionSet.seed solution it.config.key = .error e ∧
        it.runWith rounds solution = ⟨.error e, [], { it with state := .seedingFailed }⟩) ∨
      ∃ s, SolutionSet.seed solution it.config.key = .ok s ∧
        ((∃ t s' w', (rounds s).ending = .stopped t s' w' ∧
          it.runWith rounds solution =
            ⟨.ok ⟨s'.records, t, w'.round, (rounds s).stats, w'.size⟩, (rounds s).invocations,
              { it with state := .ofTermination t w'.round, cancelled := (rounds s).cancelled }⟩) ∨
        ∃ round e, (rounds s).ending = .failed round e ∧
          it.runWith rounds solution =
            ⟨.error (.stepFailed round e), (rounds s).invocations,
              { it with state := .failed round, cancelled := (rounds s).cancelled }⟩) := by
  cases hseed : SolutionSet.seed solution it.config.key with
  | error e =>
      refine Or.inl ⟨e, rfl, ?_⟩
      rw [runWith, hseed]
  | ok s =>
      refine Or.inr ⟨s, rfl, ?_⟩
      cases hending : (rounds s).ending with
      | stopped t s' w' => exact Or.inl ⟨t, s', w', rfl, by simp only [runWith, hseed, hending]⟩
      | failed round e => exact Or.inr ⟨round, e, rfl, by simp only [runWith, hseed, hending]⟩

/-- A run that has seeded its solution set calls the step in its rounds. -/
theorem invocations_runWith {s : SolutionSet} (hseed : SolutionSet.seed solution it.config.key = .ok s)
    (rounds : SolutionSet → Rounds) : (it.runWith rounds solution).invocations = (rounds s).invocations := by
  rcases it.runWith_cases rounds solution with
    ⟨e, hrefused, _⟩ | ⟨s', hseed', ⟨_, _, _, _, hrun⟩ | ⟨_, _, _, hrun⟩⟩
  · cases hseed.symm.trans hrefused
  · obtain rfl := Except.ok.inj (hseed.symm.trans hseed')
    rw [hrun]
  · obtain rfl := Except.ok.inj (hseed.symm.trans hseed')
    rw [hrun]

/-- A result of a run is what the rounds have stopped with that follow its seeding. -/
theorem stopped_of_outcome {rounds : SolutionSet → Rounds} {r : RunResult}
    (h : (it.runWith rounds solution).outcome = .ok r) :
    ∃ s t s' w', SolutionSet.seed solution it.config.key = .ok s ∧ (rounds s).ending = .stopped t s' w' ∧
      r = ⟨s'.records, t, w'.round, (rounds s).stats, w'.size⟩ := by
  rcases it.runWith_cases rounds solution with
    ⟨e, _, hrun⟩ | ⟨s, hseed, ⟨t, s', w', hending, hrun⟩ | ⟨_, _, _, hrun⟩⟩
  · rw [hrun] at h
    cases h
  · rw [hrun] at h
    exact ⟨s, t, s', w', hseed, hending, (Except.ok.inj h).symm⟩
  · rw [hrun] at h
    cases h

/-- A run calls the step in its rounds only, after its solution set was seeded. -/
theorem mem_invocations {inv : Invocation} (h : inv ∈ (it.run step schedules solution workset).invocations) :
    ∃ s, SolutionSet.seed solution it.config.key = .ok s ∧
      inv ∈ (runRounds (it.surroundings schedules) step it.config.maxRounds.toNat s (.seed workset)
        it.cancelled).invocations := by
  rw [run] at h
  rcases it.runWith_cases _ solution with ⟨e, _, hrun⟩ | ⟨s, hseed, _⟩
  · rw [hrun] at h
    cases h
  · rw [invocations_runWith hseed] at h
    exact ⟨s, hseed, h⟩

/-- A step is called in a round that the bound allows. -/
theorem round_lt_of_called {inv : Invocation} (h : inv ∈ (it.run step schedules solution workset).invocations) :
    inv.context.round < it.config.maxRounds := by
  rcases mem_invocations h with ⟨s, _, hcalled⟩
  exact round_lt_of_mem_invocations le_rfl hcalled

/-- A run that has a result has seeded its solution set, completed the rounds it counts and then had a reason to
stop. -/
theorem completes_of_outcome {r : RunResult} (h : (it.run step schedules solution workset).outcome = .ok r) :
    ∃ s n s' w', SolutionSet.seed solution it.config.key = .ok s ∧ n ≤ it.config.maxRounds.toNat ∧
      Completes (it.surroundings schedules) step n s (.seed workset) r.stats s' w' ∧
      StopsFor (it.surroundings schedules) step it.config.maxRounds.toNat n it.cancelled s' w' r.termination ∧
      r = ⟨s'.records, r.termination, w'.round, r.stats, w'.size⟩ := by
  rw [run] at h
  rcases stopped_of_outcome h with ⟨s, t, s', w', hseed, hending, rfl⟩
  rcases completes_of_stopped hending with ⟨n, hn, hcompletes, hstops⟩
  exact ⟨s, n, s', w', hseed, hn, hcompletes, hstops, rfl⟩

/-- A run that completes some rounds and then has a reason to stop has a result. -/
theorem outcome_of_completes (it : Iteration) {s s' : SolutionSet} {n : Nat} {w' : Workset}
    {stats : List RoundStats} {t : Termination}
    (hseed : SolutionSet.seed solution it.config.key = .ok s) (hflag : it.cancelled = false)
    (hcompletes : Completes (it.surroundings schedules) step n s (.seed workset) stats s' w')
    (hle : n ≤ it.config.maxRounds.toNat)
    (hstops : StopsFor (it.surroundings schedules) step it.config.maxRounds.toNat n false s' w' t) :
    (it.run step schedules solution workset).outcome = .ok ⟨s'.records, t, w'.round, stats, w'.size⟩ := by
  rcases hcompletes.ending_eq hle hstops with ⟨hstats, hending⟩
  simp only [run, runWith, hseed, hflag, hending, hstats]

end Iteration

end WorksetIteration
