import WorksetIteration.Proofs.Rounds

/-!
# Runs that agree

Two runs that differ only in how their operators are carried out have solution sets that find the same records and
worksets that are permutations of each other.  As long as each round takes such states to such states, or fails in both
runs for reasons of one kind, the runs have one result or fail in the same round.

Main results:

- `Agree`: two outcomes that are both results, in a given relation, or both errors of one kind.
- `SolutionSet.Alike.applyDelta`: deltas that are permutations of each other, without repeated keys, do the same.
- `runRounds_agree`: rounds that agree one by one agree as a whole.
- `Iteration.runWith_agree`, `Iteration.run_agree`: so do runs.
-/

namespace WorksetIteration

/-! ## Outcomes -/

/-- The round that an error is reported from. -/
def Error.round? : Error → Option UInt32
  | .stepFailed round _ => some round
  | _ => none

/-- Two errors say the same up to the keys they name: they are of one kind and, where a round has failed, from the same
round and with reasons of one kind. -/
structure Error.Alike (e e' : Error) : Prop where
  /-- They are of one kind. -/
  kind_eq : e.kind = e'.kind
  /-- They are from the same round. -/
  round_eq : e.round? = e'.round?
  /-- Their reasons are of one kind. -/
  cause_eq : e.cause?.map Error.kind = e'.cause?.map Error.kind

namespace Error.Alike

theorem refl (e : Error) : e.Alike e :=
  ⟨rfl, rfl, rfl⟩

theorem stepFailed {e e' : Error} (h : e.Alike e') (round : UInt32) :
    (Error.stepFailed round e).Alike (.stepFailed round e') :=
  ⟨rfl, rfl, congrArg some h.kind_eq⟩

theorem fanoutExceeded (limit limit' : UInt64) (k k' : Key) :
    (Error.fanoutExceeded limit k).Alike (.fanoutExceeded limit' k') :=
  ⟨rfl, rfl, rfl⟩

end Error.Alike

/-- Two outcomes agree: both are results, in the given relation, or both are errors that are alike. -/
inductive Agree {α β : Type} (R : α → β → Prop) : Except Error α → Except Error β → Prop
  | ok {a : α} {b : β} (h : R a b) : Agree R (.ok a) (.ok b)
  | error {e e' : Error} (h : e.Alike e') : Agree R (.error e) (.error e')

namespace Agree

variable {α β γ δ : Type} {R : α → β → Prop} {S : γ → δ → Prop}

theorem cases {x : Except Error α} {y : Except Error β} (h : Agree R x y) :
    (∃ a b, x = .ok a ∧ y = .ok b ∧ R a b) ∨ ∃ e e', x = .error e ∧ y = .error e' ∧ e.Alike e' := by
  cases h with
  | ok h => exact .inl ⟨_, _, rfl, rfl, h⟩
  | error h => exact .inr ⟨_, _, rfl, rfl, h⟩

theorem imp {S : α → β → Prop} {x : Except Error α} {y : Except Error β} (h : Agree R x y)
    (himp : ∀ a b, R a b → S a b) : Agree S x y := by
  cases h with
  | ok h => exact .ok (himp _ _ h)
  | error h => exact .error h

/-- Computations agree that go on alike from outcomes that agree. -/
theorem bind {x : Except Error α} {y : Except Error β} {f : α → Except Error γ} {g : β → Except Error δ}
    (h : Agree R x y) (hnext : ∀ a b, R a b → Agree S (f a) (g b)) : Agree S (x >>= f) (y >>= g) := by
  cases h with
  | ok h => exact hnext _ _ h
  | error h => exact .error h

end Agree

/-! ## States -/

namespace SolutionSet

/-- Two solution sets, each made by seeding and by deltas, that find the same records. -/
structure Alike (s s' : SolutionSet) : Prop where
  /-- The first one was made by seeding and by deltas. -/
  reachable_left : s.Reachable
  /-- So was the other. -/
  reachable_right : s'.Reachable
  /-- They are stored by one key. -/
  key_eq : s.key = s'.key
  /-- They find the same records. -/
  probe_eq : ∀ k, s.probe k = s'.probe k

namespace Alike

variable {s s' : SolutionSet}

theorem refl (h : s.Reachable) : s.Alike s :=
  ⟨h, h, rfl, fun _ => rfl⟩

/-- They have the same records. -/
theorem records_perm (h : s.Alike s') : s.records.Perm s'.records := by
  rcases h.reachable_left.stores with ⟨written, hs⟩
  rcases h.reachable_right.stores with ⟨written', hs'⟩
  rw [List.perm_ext_iff_of_nodup hs.nodup_records hs'.nodup_records]
  intro r
  simp only [SolutionSet.mem_records, h.probe_eq]

theorem size_eq (h : s.Alike s') : s.size = s'.size := by
  rw [← length_records, ← length_records, h.records_perm.length_eq]

end Alike

/-- Where no key is repeated, a key finds the same records in every permutation of a list. -/
theorem withKey_eq_of_perm {key : KeySpec} {rs rs' : List Record} (hperm : rs.Perm rs')
    (hdistinct : rs.Pairwise fun a b => key.extract a ≠ key.extract b) (k : Key) :
    key.withKey k rs = key.withKey k rs' := by
  by_cases hk : ∃ r ∈ rs, key.extract r = .ok k
  · rcases hk with ⟨r, hr, hextract⟩
    have hdistinct' := (hperm.pairwise_iff fun hne => Ne.symm hne).1 hdistinct
    rw [KeySpec.withKey_eq_singleton hdistinct hr hextract,
      KeySpec.withKey_eq_singleton hdistinct' (hperm.mem_iff.1 hr) hextract]
  · have hnone : ∀ r ∈ rs, key.extract r ≠ .ok k := fun r hr hextract => hk ⟨r, hr, hextract⟩
    rw [KeySpec.withKey_eq_nil hnone, KeySpec.withKey_eq_nil fun r hr => hnone r (hperm.mem_iff.2 hr)]

/-- Deltas that are permutations of each other, without repeated keys, do the same to solution sets that are alike. -/
theorem Alike.applyDelta {s s' : SolutionSet} {delta delta' : List Record} (h : s.Alike s')
    (hperm : delta.Perm delta') (hcovers : s.key.Covers delta)
    (hdistinct : delta.Pairwise fun a b => s.key.extract a ≠ s.key.extract b) :
    ∃ t t' summary, s.applyDelta delta = .ok (t, summary) ∧ s'.applyDelta delta' = .ok (t', summary) ∧ t.Alike t' := by
  have hcovers' : s'.key.Covers delta' := h.key_eq ▸ hcovers.perm hperm
  rcases applyDelta_of_covers hcovers with ⟨t, summary, hdelta⟩
  rcases applyDelta_of_covers hcovers' with ⟨t', summary', hdelta'⟩
  have halike : t.Alike t' := by
    refine ⟨h.reachable_left.applyDelta hdelta, h.reachable_right.applyDelta hdelta', ?_, ?_⟩
    · rw [key_applyDelta hdelta, key_applyDelta hdelta', h.key_eq]
    · intro k
      rw [probe_applyDelta hdelta, probe_applyDelta hdelta', withKey_eq_of_perm hperm hdistinct, h.key_eq, h.probe_eq]
  have hsummary : summary = summary' := by
    rcases applyDelta_counts hdelta with ⟨hsize, hcount⟩
    rcases applyDelta_counts hdelta' with ⟨hsize', hcount'⟩
    have hbefore := h.size_eq
    have hafter := halike.size_eq
    have hlength := hperm.length_eq
    rcases summary with ⟨inserted, updated⟩
    rcases summary' with ⟨inserted', updated'⟩
    simp only [DeltaSummary.mk.injEq] at *
    omega
  exact ⟨t, t', summary, hdelta, hsummary ▸ hdelta', halike⟩

end SolutionSet

/-- The states of two runs between the same rounds: solution sets that are alike, and the same records to process. -/
structure StatesAlike (s : SolutionSet) (w : Workset) (s' : SolutionSet) (w' : Workset) : Prop where
  /-- The solution sets are alike. -/
  solution : s.Alike s'
  /-- The worksets feed one round. -/
  round_eq : w.round = w'.round
  /-- They have the same records. -/
  workset_perm : w.records.Perm w'.records

namespace StatesAlike

variable {s s' : SolutionSet} {w w' : Workset}

theorem size_eq (h : StatesAlike s w s' w') : w.size = w'.size :=
  h.workset_perm.length_eq

theorem isEmpty_eq (h : StatesAlike s w s' w') : w.isEmpty = w'.isEmpty :=
  h.workset_perm.isEmpty_eq

end StatesAlike

/-! ## Rounds -/

/-- The rounds of two runs have ended alike: for one reason and in states that are alike, or by failing in the same
round with errors that are alike. -/
inductive Ending.Alike : Ending → Ending → Prop
  | stopped {t : Termination} {s s' : SolutionSet} {w w' : Workset} (h : StatesAlike s w s' w') :
      Alike (.stopped t s w) (.stopped t s' w')
  | failed {round : UInt32} {e e' : Error} (h : e.Alike e') : Alike (.failed round e) (.failed round e')

/-- The rounds of two runs are alike: their counts are equal, and they have ended alike. -/
structure Rounds.Alike (r r' : Rounds) : Prop where
  /-- The counts are equal. -/
  stats_eq : r.stats = r'.stats
  /-- They have ended alike. -/
  ending : r.ending.Alike r'.ending

/-- What two rounds return is written to the solution sets with the same counts, and leads to states in the given
relation. -/
def WrittenAlike (Related : SolutionSet → Workset → SolutionSet → Workset → Prop) (s : SolutionSet) (w : Workset)
    (s' : SolutionSet) (w' : Workset) (out out' : StepOutput) : Prop :=
  out.delta.length = out'.delta.length ∧
    ∃ t t' summary, s.applyDelta out.delta = .ok (t, summary) ∧ s'.applyDelta out'.delta = .ok (t', summary) ∧
      Related t (w.replace out.next) t' (w'.replace out'.next)

section Rounds

variable {env env' : Surroundings} {f f' : StepContext → Except Error StepOutput}

/-- With nothing left to process both runs have converged. -/
theorem runRounds_alike_of_isEmpty {s s' : SolutionSet} {w w' : Workset} (h : StatesAlike s w s' w')
    (hwork : w.isEmpty = true) (left : Nat) :
    (runRounds env (.ofFunction f) left s w false).Alike (runRounds env' (.ofFunction f') left s' w' false) := by
  rw [runRounds_empty hwork, runRounds_empty (h.isEmpty_eq.symm.trans hwork)]
  exact ⟨rfl, .stopped h⟩

/-- Rounds agree as a whole if they agree one by one: from states in a relation that makes them alike, the steps answer
alike and lead to states in the relation. -/
theorem runRounds_agree (Related : SolutionSet → Workset → SolutionSet → Workset → Prop)
    (halike : ∀ s w s' w', Related s w s' w' → StatesAlike s w s' w')
    (hround : ∀ s w s' w', Related s w s' w' →
      Agree (WrittenAlike Related s w s' w') (f (env.context s w)) (f' (env'.context s' w')))
    (left : Nat) {s s' : SolutionSet} {w w' : Workset} (h : Related s w s' w') :
    (runRounds env (.ofFunction f) left s w false).Alike (runRounds env' (.ofFunction f') left s' w' false) := by
  induction left generalizing s s' w w' with
  | zero =>
      have hstates := halike s w s' w' h
      cases hwork : w.isEmpty with
      | true => exact runRounds_alike_of_isEmpty hstates hwork 0
      | false =>
          rw [runRounds_bound hwork, runRounds_bound (hstates.isEmpty_eq.symm.trans hwork)]
          exact ⟨rfl, .stopped hstates⟩
  | succ left ih =>
      have hstates := halike s w s' w' h
      cases hwork : w.isEmpty with
      | true => exact runRounds_alike_of_isEmpty hstates hwork (left + 1)
      | false =>
          have hwork' := hstates.isEmpty_eq.symm.trans hwork
          rcases (hround s w s' w' h).cases with
            ⟨out, out', hout, hout', hdeltas, t, t', summary, hdelta, hdelta', hrelated⟩ | ⟨e, e', hout, hout', herror⟩
          · have hrest := ih hrelated
            have hnexts : out.next.length = out'.next.length := (halike _ _ _ _ hrelated).size_eq
            have hcounts : RoundStats.of w out summary = RoundStats.of w' out' summary := by
              rw [RoundStats.of, RoundStats.of, hstates.round_eq, hstates.size_eq, hdeltas, hnexts]
            rw [runRounds_completed hwork (congrArg (StepReply.mk · false) hout) hdelta,
              runRounds_completed hwork' (congrArg (StepReply.mk · false) hout') hdelta']
            exact ⟨List.cons_eq_cons.2 ⟨hcounts, hrest.stats_eq⟩, hrest.ending⟩
          · rw [runRounds_failed hwork (congrArg (StepReply.mk · false) hout),
              runRounds_failed hwork' (congrArg (StepReply.mk · false) hout'), hstates.round_eq]
            exact ⟨rfl, .failed herror⟩

end Rounds

/-! ## Runs -/

/-- Two results are equal up to the order of the records. -/
structure RunResult.Alike (r r' : RunResult) : Prop where
  /-- The solutions have the same records. -/
  solution_perm : r.solution.Perm r'.solution
  /-- The runs have stopped for one reason. -/
  termination_eq : r.termination = r'.termination
  /-- They have completed as many rounds. -/
  rounds_eq : r.rounds = r'.rounds
  /-- The counts of the rounds are equal. -/
  stats_eq : r.stats = r'.stats
  /-- As many records are left in the worksets. -/
  remaining_eq : r.remaining = r'.remaining

namespace Iteration

variable {it it' : Iteration} {solution workset : List Record}

/-- Runs agree if the rounds that follow their seeding are alike. -/
theorem runWith_agree {rounds rounds' : SolutionSet → Rounds} (hkey : it.config.key = it'.config.key)
    (h : ∀ s, SolutionSet.seed solution it.config.key = .ok s → (rounds s).Alike (rounds' s)) :
    Agree RunResult.Alike (it.runWith rounds solution).outcome (it'.runWith rounds' solution).outcome := by
  rw [runWith, runWith, ← hkey]
  cases hseed : SolutionSet.seed solution it.config.key with
  | error e => exact .error (.refl e)
  | ok s =>
      rcases h s hseed with ⟨hstats, hending⟩
      dsimp only
      generalize rounds s = r at hstats hending ⊢
      generalize rounds' s = r' at hstats hending ⊢
      rcases r with ⟨invocations, stats, ending, cancelled⟩
      rcases r' with ⟨invocations', stats', ending', cancelled'⟩
      cases hending with
      | stopped h => exact .ok ⟨h.solution.records_perm, rfl, h.round_eq, hstats, h.size_eq⟩
      | failed h => exact .error (h.stepFailed _)

/-- Runs agree if they start from states in a relation that their rounds preserve. -/
theorem run_agree {f f' : StepContext → Except Error StepOutput} {schedules schedules' : UInt32 → Nat → Schedule}
    (Related : SolutionSet → Workset → SolutionSet → Workset → Prop)
    (hkey : it.config.key = it'.config.key) (hbound : it.config.maxRounds = it'.config.maxRounds)
    (hflag : it.cancelled = false) (hflag' : it'.cancelled = false)
    (hseed : ∀ s, SolutionSet.seed solution it.config.key = .ok s → Related s (.seed workset) s (.seed workset))
    (halike : ∀ s w s' w', Related s w s' w' → StatesAlike s w s' w')
    (hround : ∀ s w s' w', Related s w s' w' → Agree (WrittenAlike Related s w s' w')
      (f ((it.surroundings schedules).context s w)) (f' ((it'.surroundings schedules').context s' w'))) :
    Agree RunResult.Alike (it.run (.ofFunction f) schedules solution workset).outcome
      (it'.run (.ofFunction f') schedules' solution workset).outcome := by
  apply runWith_agree hkey
  intro s hseeded
  rw [hflag, hflag', ← hbound]
  exact runRounds_agree Related halike hround it.config.maxRounds.toNat (hseed s hseeded)

end Iteration

end WorksetIteration
