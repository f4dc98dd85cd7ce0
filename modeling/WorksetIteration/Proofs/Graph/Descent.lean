import WorksetIteration.Proofs.Isolation
import WorksetIteration.Proofs.Graph.LabelSpreading

/-!
# Labels only descend

Whatever the edges and the seed records are, a round that spreads labels replaces records of the solution set by records
with lower labels, and does nothing else.  So no vertex comes or goes over a run, and no label rises.

Main results:

- `LabelBelow`, `Descends`: records and solution sets whose labels have become lower.
- `Relabels`: what an answer that only lowers labels does to a solution set.
- `relabels_of_spreadLabels`: a round that succeeds only lowers labels.
- `descends_of_completes`: so do any number of completed rounds.
- `RunDescends`, `runInterrupted_descends`: every run only lowers labels, whoever cancels it.
-/

namespace WorksetIteration

namespace Graph

/-! ## Lower labels -/

/-- A record has a lower label than another. -/
def LabelBelow (r current : Record) : Prop :=
  ∃ new old, r.get? 1 = some new ∧ current.get? 1 = some old ∧ new.isBelow old = true

theorem LabelBelow.trans {a b c : Record} (hab : LabelBelow a b) (hbc : LabelBelow b c) : LabelBelow a c := by
  rcases hab with ⟨la, lb, ha, hb, hlt⟩
  rcases hbc with ⟨lb', lc, hb', hc, hlt'⟩
  obtain rfl := Option.some.inj (hb.symm.trans hb')
  exact ⟨la, lc, ha, hc, Value.isBelow_trans hlt hlt'⟩

/-- A solution set has the keys of another, and finds under each of them the same record or one with a lower label. -/
structure Descends (s s' : SolutionSet) : Prop where
  /-- No key comes or goes. -/
  isSome_probe : ∀ k, (s'.probe k).isSome = (s.probe k).isSome
  /-- What a key finds is the same, or has a lower label. -/
  record_cases : ∀ k r r', s.probe k = some r → s'.probe k = some r' → r' = r ∨ LabelBelow r' r

namespace Descends

variable {s s' s'' : SolutionSet}

theorem refl (s : SolutionSet) : Descends s s where
  isSome_probe _ := rfl
  record_cases _ _ _ hr hr' := Or.inl (Option.some.inj (hr'.symm.trans hr))

theorem exists_probe (h : Descends s s') {k : Key} {r : Record} (hr : s.probe k = some r) :
    ∃ r', s'.probe k = some r' := by
  rw [← Option.isSome_iff_exists, h.isSome_probe, hr]
  rfl

theorem trans (h : Descends s s') (h' : Descends s' s'') : Descends s s'' where
  isSome_probe k := (h'.isSome_probe k).trans (h.isSome_probe k)
  record_cases k r r'' hr hr'' := by
    rcases h.exists_probe hr with ⟨r', hr'⟩
    rcases h.record_cases k r r' hr hr' with rfl | hlt
    · exact h'.record_cases k r' r'' hr' hr''
    · rcases h'.record_cases k r' r'' hr' hr'' with rfl | hlt'
      · exact Or.inr hlt
      · exact Or.inr (hlt'.trans hlt)

end Descends

/-! ## One round -/

/-- An answer relabels a solution set: it replaces records by records with lower labels, and hands these on. -/
structure Relabels (s : SolutionSet) (out : StepOutput) : Prop where
  /-- The solution set is stored by vertex. -/
  key_eq : s.key = .field 0
  /-- The next workset is the delta. -/
  next_eq : out.next = out.delta
  /-- The keys of the delta differ. -/
  distinct : out.delta.Pairwise fun a b => s.key.extract a ≠ s.key.extract b
  /-- Each of them finds a record, which has a greater label. -/
  lowers : ∀ r ∈ out.delta, ∃ k current, s.key.extract r = .ok k ∧ s.probe k = some current ∧ LabelBelow r current
  /-- The delta is written without inserting anything, and other keys find what they have found before. -/
  written : ∃ s', s.applyDelta out.delta = .ok (s', ⟨0, out.delta.length⟩) ∧
    (∀ r ∈ out.delta, ∀ k, s.key.extract r = .ok k → s'.probe k = some r) ∧
    ∀ k, (∀ r ∈ out.delta, s.key.extract r ≠ .ok k) → s'.probe k = s.probe k

/-- Once such an answer is written, the solution set has descended. -/
theorem Relabels.descends {s s' : SolutionSet} {out : StepOutput} {summary : DeltaSummary} (h : Relabels s out)
    (hdelta : s.applyDelta out.delta = .ok (s', summary)) :
    summary = ⟨0, out.delta.length⟩ ∧ Descends s s' := by
  rcases h.written with ⟨_, hdelta', hreplaced, hkept⟩
  obtain ⟨rfl, rfl⟩ := Prod.mk.inj (Except.ok.inj (hdelta'.symm.trans hdelta))
  refine ⟨rfl, ?_, ?_⟩
  · intro k
    by_cases hk : ∃ r ∈ out.delta, s.key.extract r = .ok k
    · rcases hk with ⟨r, hr, hextract⟩
      rcases h.lowers r hr with ⟨k', current, hextract', hcurrent, _⟩
      obtain rfl : k = k' := Except.ok.inj (hextract.symm.trans hextract')
      rw [hreplaced r hr k hextract, hcurrent]
      rfl
    · rw [hkept k fun r hr hextract => hk ⟨r, hr, hextract⟩]
  · intro k r r' hr hr'
    by_cases hk : ∃ x ∈ out.delta, s.key.extract x = .ok k
    · rcases hk with ⟨x, hx, hextract⟩
      rcases h.lowers x hx with ⟨k', current, hextract', hcurrent, hbelow⟩
      obtain rfl : k = k' := Except.ok.inj (hextract.symm.trans hextract')
      obtain rfl := Option.some.inj (hcurrent.symm.trans hr)
      obtain rfl := Option.some.inj ((hreplaced x hx k hextract).symm.trans hr')
      exact Or.inr hbelow
    · rw [hkept k fun x hx hextract => hk ⟨x, hx, hextract⟩] at hr'
      exact Or.inl (Option.some.inj (hr'.symm.trans hr))

/-- After an answer is written, what is stored is its delta and the records whose keys it does not have. -/
theorem Relabels.mem_records {s s' : SolutionSet} {out : StepOutput} {summary : DeltaSummary} (h : Relabels s out)
    (hreach : s.Reachable) (hdelta : s.applyDelta out.delta = .ok (s', summary)) {r : Record} :
    r ∈ s'.records ↔ r ∈ out.delta ∨ r ∈ s.records ∧ ∀ x ∈ out.delta, s.key.extract x ≠ s.key.extract r := by
  rcases h.written with ⟨_, hdelta', hreplaced, hkept⟩
  obtain ⟨rfl, rfl⟩ := Prod.mk.inj (Except.ok.inj (hdelta'.symm.trans hdelta))
  rcases hreach.stores with ⟨written, hs⟩
  rw [SolutionSet.mem_records]
  constructor
  · rintro ⟨k, hk⟩
    by_cases hwritten : ∃ x ∈ out.delta, s.key.extract x = .ok k
    · rcases hwritten with ⟨x, hx, hextract⟩
      obtain rfl := Option.some.inj ((hreplaced x hx k hextract).symm.trans hk)
      exact Or.inl hx
    · rw [hkept k fun x hx hextract => hwritten ⟨x, hx, hextract⟩] at hk
      refine Or.inr ⟨SolutionSet.mem_records.2 ⟨k, hk⟩, ?_⟩
      intro x hx hextract
      exact hwritten ⟨x, hx, hextract.trans (hs.extract_of_probe hk)⟩
  · rintro (hr | ⟨hr, hother⟩)
    · rcases h.lowers r hr with ⟨k, _, hk, _⟩
      exact ⟨k, hreplaced r hr k hk⟩
    · rcases SolutionSet.mem_records.1 hr with ⟨k, hk⟩
      refine ⟨k, ?_⟩
      rw [hkept k fun x hx hextract => hother x hx (hextract.trans (hs.extract_of_probe hk).symm)]
      exact hk

section Round

variable {ctx : StepContext} {edges improved : List Record}

/-- What a round improves has vertices. -/
theorem Improves.covers (h : Improves ctx edges improved) : (KeySpec.field 0).Covers improved := by
  apply KeySpec.covers_of_pairs
  intro r hr
  rcases (h.mem_iff r).1 hr with ⟨n, m, heq, _⟩
  exact ⟨n, m, heq⟩

/-- It only lowers labels. -/
theorem Improves.relabels (hkey : ctx.solution.key = .field 0) (h : Improves ctx edges improved) :
    Relabels ctx.solution (.unified improved) := by
  have hdistinct : improved.Pairwise fun a b => ctx.solution.key.extract a ≠ ctx.solution.key.extract b := by
    rw [hkey]
    exact pairwise_extract_of_vertices h.covers h.distinct
  have hlowers : ∀ r ∈ improved, ∃ k current, ctx.solution.key.extract r = .ok k ∧
      ctx.solution.probe k = some current ∧ LabelBelow r current := by
    intro r hr
    rcases (h.mem_iff r).1 hr with ⟨n, m, rfl, _, _, _, current, old, hprobe, hold, hlt⟩
    refine ⟨⟨[n]⟩, current, ?_, hprobe, m, old, rfl, hold, hlt⟩
    rw [hkey]
    exact KeySpec.extract_field_eq_ok_iff.2 ⟨n, rfl, rfl⟩
  refine ⟨hkey, rfl, hdistinct, hlowers, SolutionSet.applyDelta_of_stored hdistinct ?_⟩
  intro r hr
  rcases hlowers r hr with ⟨k, current, hk, hprobe, _⟩
  exact ⟨k, hk, Option.isSome_iff_exists.2 ⟨current, hprobe⟩⟩

/-- A round that succeeds returns its improvements. -/
theorem improves_of_spreadLabels {position : Position} {out : StepOutput} (hreads : Reads ctx edges)
    (h : spreadLabels position ctx = .ok out) : ∃ improved, out = .unified improved ∧ Improves ctx edges improved := by
  rcases spreadLabels_of_withinLimits position hreads (withinLimits_of_spreadLabels hreads h) with
    ⟨improved, hstep, himproves⟩
  exact ⟨improved, Except.ok.inj (h.symm.trans hstep), himproves⟩

/-- A round that succeeds only lowers labels. -/
theorem relabels_of_spreadLabels {position : Position} {out : StepOutput} (hreads : Reads ctx edges)
    (h : spreadLabels position ctx = .ok out) : Relabels ctx.solution out := by
  rcases improves_of_spreadLabels hreads h with ⟨improved, rfl, himproves⟩
  exact himproves.relabels hreads.key_eq

end Round

/-! ## Rounds -/

/-- The step that spreads labels, with calls that others may cancel. -/
def labelStep (position : Position) (cancels : StepContext → Bool) : Step :=
  fun ctx => ⟨spreadLabels position ctx, cancels ctx⟩

section Rounds

variable {env : Surroundings} {edges : List Record} {position : Position} {cancels : StepContext → Bool}
  {s s' : SolutionSet} {w w' : Workset}

theorem reads_seed {input : SideInput} {solution : List Record} (hinput : env.sideInputs.get? edgesName = some input)
    (hindex : Index.build edges (.field 0) = .ok input.index)
    (hseed : SolutionSet.seed solution (.field 0) = .ok s) (w : Workset) : Reads (env.context s w) edges :=
  ⟨⟨input, sideInput_eq_ok hinput, hindex⟩, .seed hseed, (SolutionSet.stores_of_seed hseed).1⟩

/-- The next round reads the same edges, and a solution set that is stored by vertex again. -/
theorem Reads.next (h : Reads (env.context s w) edges) {delta : List Record} {summary : DeltaSummary}
    (hdelta : s.applyDelta delta = .ok (s', summary)) (w' : Workset) : Reads (env.context s' w') edges :=
  ⟨h.registered, h.reachable.applyDelta hdelta, (SolutionSet.key_applyDelta hdelta).trans h.key_eq⟩

/-- An answer of the step relabels the solution set that it has read. -/
theorem relabels_of_labelStep {out : StepOutput} {cancelled : Bool} (hreads : Reads (env.context s w) edges)
    (hout : labelStep position cancels (env.context s w) = ⟨.ok out, cancelled⟩) : Relabels s out :=
  relabels_of_spreadLabels hreads (congrArg StepReply.outcome hout)

/-- Over any number of completed rounds the solution set descends. -/
theorem descends_of_completes {n : Nat} {stats : List RoundStats} (hreads : Reads (env.context s w) edges)
    (h : Completes env (labelStep position cancels) n s w stats s' w') :
    Reads (env.context s' w') edges ∧ Descends s s' := by
  induction h with
  | none s w => exact ⟨hreads, .refl s⟩
  | round hwork hout hdelta hrest ih =>
      rcases ih (hreads.next hdelta _) with ⟨hend, hdescends⟩
      exact ⟨hend, ((relabels_of_labelStep hreads hout).descends hdelta).2.trans hdescends⟩

/-- The solution sets that the calls of a run read descend from the one it starts with. -/
theorem pairwise_descends_of_calls {invs : List Invocation} (hreads : Reads (env.context s w) edges)
    (h : Calls env (labelStep position cancels) s w invs) :
    (s :: invs.map fun inv => inv.context.solution).Pairwise Descends ∧ ∀ inv ∈ invs, Reads inv.context edges := by
  induction h with
  | none s w => exact ⟨List.pairwise_singleton _ _, by simp⟩
  | @last s w hwork => exact ⟨List.pairwise_pair.2 (.refl s), List.forall_mem_singleton.2 hreads⟩
  | @round s s' w out summary invs hwork hout hdelta hrest ih =>
      rcases ih (hreads.next hdelta _) with ⟨hpairwise, hall⟩
      have hround : Descends s s' := ((relabels_of_labelStep hreads hout).descends hdelta).2
      have hlater : ∀ t ∈ invs.map fun inv => inv.context.solution, Descends s t :=
        fun t ht => hround.trans (List.rel_of_pairwise_cons hpairwise ht)
      refine ⟨?_, List.forall_mem_cons.2 ⟨hreads, hall⟩⟩
      rw [List.map_cons, List.pairwise_cons, List.pairwise_cons]
      exact ⟨List.forall_mem_cons.2 ⟨.refl s, hlater⟩, hlater, hpairwise.of_cons⟩

/-- Every answer of a run relabels the solution set that its call has read. -/
theorem relabels_of_calls {invs : List Invocation} (hreads : Reads (env.context s w) edges)
    (h : Calls env (labelStep position cancels) s w invs) :
    ∀ inv ∈ invs, ∀ out, inv.reply.outcome = .ok out → Relabels inv.context.solution out := by
  intro inv hinv out hout
  rw [(h.called inv hinv).2.1] at hout
  exact relabels_of_spreadLabels ((pairwise_descends_of_calls hreads h).2 inv hinv) hout

/-- Behind a call that is followed by another its delta is written, which inserts nothing, and is the next workset. -/
theorem delta_of_calls {invs : List Invocation} (hreads : Reads (env.context s w) edges)
    (h : Calls env (labelStep position cancels) s w invs) (i : Nat) (hi : i < invs.length)
    (hnext : i + 1 < invs.length) :
    ∃ out, (invs[i]).reply = ⟨.ok out, false⟩ ∧
      (invs[i]).context.solution.applyDelta out.delta =
        .ok ((invs[i + 1]).context.solution, ⟨0, out.delta.length⟩) ∧
      (invs[i + 1]).context.workset.records = out.delta := by
  rcases h.getElem_succ i hnext with ⟨out, summary, hreply, hdelta, hworkset⟩
  have hrelabels : Relabels (invs[i]).context.solution out :=
    relabels_of_calls hreads h _ (List.getElem_mem hi) out (congrArg StepReply.outcome hreply)
  obtain rfl := (hrelabels.descends hdelta).1
  refine ⟨out, hreply, hdelta, ?_⟩
  rw [hworkset, Workset.records_replace, hrelabels.next_eq]

/-- When a run stops, its solution set has descended from all that its calls have read. -/
theorem descends_of_stopped {left : Nat} {cancelled : Bool} {t : Termination} (hreads : Reads (env.context s w) edges)
    (h : (runRounds env (labelStep position cancels) left s w cancelled).ending = .stopped t s' w') :
    Descends s s' ∧ ∀ inv ∈ (runRounds env (labelStep position cancels) left s w cancelled).invocations,
      Descends inv.context.solution s' := by
  fun_induction runRounds env (labelStep position cancels) left s w cancelled with
  | case1 | case2 | case3 =>
      cases h
      exact ⟨.refl _, by simp⟩
  | case4 | case6 => cases h
  | case5 =>
      cases h
      exact ⟨.refl _, List.forall_mem_singleton.2 (.refl _)⟩
  | case7 s w cancelled hwork left hflag context reply out hout hcancels s₁ summary hdelta stats rest ih =>
      rcases ih (hreads.next hdelta _) h with ⟨hend, hall⟩
      have hround : Descends s s₁ := ((relabels_of_spreadLabels hreads hout).descends hdelta).2
      exact ⟨hround.trans hend, List.forall_mem_cons.2 ⟨hround.trans hend, hall⟩⟩

/-- The counts of a completed round are those of the answer to its call, which inserts nothing. -/
theorem stats_of_runRounds {left : Nat} {cancelled : Bool} (hreads : Reads (env.context s w) edges) :
    ∀ (i : Nat) st, (runRounds env (labelStep position cancels) left s w cancelled).stats[i]? = some st →
      ∃ inv out, (runRounds env (labelStep position cancels) left s w cancelled).invocations[i]? = some inv ∧
        inv.reply = ⟨.ok out, false⟩ ∧ st = RoundStats.of inv.context.workset out ⟨0, out.delta.length⟩ := by
  fun_induction runRounds env (labelStep position cancels) left s w cancelled with
  | case1 | case2 | case3 | case4 | case5 | case6 => simp
  | case7 s w cancelled hwork left hflag context reply out hout hcancels s₁ summary hdelta stats rest ih =>
      rintro (_ | i) st hst
      · obtain rfl : stats = st := Option.some.inj hst
        obtain rfl := ((relabels_of_spreadLabels hreads hout).descends hdelta).1
        refine ⟨⟨context, reply⟩, out, rfl, ?_, rfl⟩
        change reply = _
        rw [← hout, ← Bool.eq_false_iff.2 hcancels]
      · exact ih (hreads.next hdelta _) i st hst

end Rounds

/-! ## Runs -/

/-- A run from a seeded solution set only lowers labels. -/
structure RunDescends (run : Run) (seeded : SolutionSet) : Prop where
  /-- Every answer relabels the solution set that its call has read. -/
  relabels : ∀ inv ∈ run.invocations, ∀ out, inv.reply.outcome = .ok out → Relabels inv.context.solution out
  /-- The first call reads the seeded solution set. -/
  first : ∀ hpos : 0 < run.invocations.length, (run.invocations[0]).context.solution = seeded
  /-- Behind a call that is followed by another its delta is written, which inserts nothing, and is the next workset. -/
  next : ∀ i (hi : i + 1 < run.invocations.length), ∃ out, (run.invocations[i]).reply = ⟨.ok out, false⟩ ∧
    (run.invocations[i]).context.solution.applyDelta out.delta =
      .ok ((run.invocations[i + 1]).context.solution, ⟨0, out.delta.length⟩) ∧
    (run.invocations[i + 1]).context.workset.records = out.delta
  /-- The solution sets that the calls read descend. -/
  descends : (seeded :: run.invocations.map fun inv => inv.context.solution).Pairwise Descends
  /-- A result descends from all of them. -/
  result_descends : ∀ r, run.outcome = .ok r → ∃ s : SolutionSet, r.solution = s.records ∧ Descends seeded s ∧
    ∀ inv ∈ run.invocations, Descends inv.context.solution s
  /-- The counts of a completed round are those of the answer to its call, with nothing inserted. -/
  result_stats : ∀ r, run.outcome = .ok r → ∀ (i : Nat) st, r.stats[i]? = some st → ∃ inv out,
    run.invocations[i]? = some inv ∧ inv.reply = ⟨.ok out, false⟩ ∧
      st = RoundStats.of inv.context.workset out ⟨0, out.delta.length⟩

/-- For all edges and all seed records, and for either position of the solution set, a run only lowers labels: in every
completed round each record of the delta replaces a record with a greater label, nothing else changes, and the delta is
the next workset.  So no key comes or goes over the run, and no label rises. -/
theorem runInterrupted_descends {it : Iteration} {input : SideInput} {edges : List Record}
    (hkey : it.config.key = .field 0) (hinput : it.sideInputs.get? edgesName = some input)
    (hindex : Index.build edges (.field 0) = .ok input.index) (position : Position) (cancels : StepContext → Bool)
    (interruption : Option Nat) (schedules : UInt32 → Nat → Schedule) {solution : List Record} {seeded : SolutionSet}
    (hseed : SolutionSet.seed solution (.field 0) = .ok seeded) (workset : List Record) :
    RunDescends (it.runInterrupted interruption (labelStep position cancels) schedules solution workset) seeded := by
  rcases cutShort_of_interruption (it.surroundings schedules) (labelStep position cancels) interruption
    it.config.maxRounds.toNat seeded (.seed workset) it.cancelled with ⟨n, _, _, hcut⟩
  have hseed' : SolutionSet.seed solution it.config.key = .ok seeded := hkey ▸ hseed
  have hreads : Reads ((it.surroundings schedules).context seeded (.seed workset)) edges :=
    reads_seed hinput hindex hseed _
  have hinvs : (it.runInterrupted interruption (labelStep position cancels) schedules solution workset).invocations =
      (runRounds (it.surroundings schedules) (labelStep position cancels) n seeded (.seed workset)
        it.cancelled).invocations :=
    (Iteration.invocations_runWith hseed' _).trans hcut.invocations_eq
  have hcalls : Calls (it.surroundings schedules) (labelStep position cancels) seeded (.seed workset)
      (it.runInterrupted interruption (labelStep position cancels) schedules solution workset).invocations :=
    Iteration.calls_runInterrupted hseed'
  constructor
  case relabels => exact relabels_of_calls hreads hcalls
  case first =>
    intro hpos
    rw [hcalls.context_getElem_zero hpos]
    rfl
  case next => exact fun i hi => delta_of_calls hreads hcalls i (Nat.lt_of_succ_lt hi) hi
  case descends => exact (pairwise_descends_of_calls hreads hcalls).1
  case result_descends =>
    intro r hr
    rcases Iteration.stopped_of_outcome hr with ⟨_, t, s, w, hsame, hending, rfl⟩
    obtain rfl := Except.ok.inj (hseed'.symm.trans hsame)
    rcases hcut.stopped hending with ⟨t', hbounded⟩
    rw [hinvs]
    exact ⟨s, rfl, descends_of_stopped hreads hbounded⟩
  case result_stats =>
    intro r hr
    rcases Iteration.stopped_of_outcome hr with ⟨_, t, s, w, hsame, _, rfl⟩
    obtain rfl := Except.ok.inj (hseed'.symm.trans hsame)
    rw [hinvs, hcut.stats_eq]
    exact stats_of_runRounds hreads

/-- Labels of several types, a vertex without a label, a missing vertex, an edge without an end, and a workset in which
a record is repeated: two labels are lowered in the first round and none in the second. -/
theorem runInterrupted_descends_mixed :
    let edges : List Record :=
      [.pair (.int64 1) (.string "b"), .pair (.int64 1) (.int32 2), .pair (.string "b") (.int64 1),
        .pair (.int32 2) .null, .pair .null (.int64 1), ⟨[.int64 1]⟩]
    let solution : List Record :=
      [.pair (.int64 1) (.boolean true), .pair (.string "b") (.string "z"), .pair (.int32 2) (.int64 9),
        .pair .null (.int64 4), ⟨[.int64 7]⟩]
    let workset : List Record := [.pair (.int64 1) (.boolean true), .pair (.int64 1) (.boolean true), .pair .null .null]
    let index := (Index.build edges (.field 0)).toOption.getD (.empty (.field 0))
    let it : Iteration :=
      { config := { parallelism := 2, fanoutLimit := some 6 }, sideInputs := ⟨[⟨edgesName, index⟩]⟩ }
    let run := it.runInterrupted none (labelStep .second fun _ => false) (fun _ _ => .inOrder) solution workset
    Index.build edges (.field 0) = .ok index ∧
      (∃ seeded, SolutionSet.seed solution (.field 0) = .ok seeded ∧ RunDescends run seeded) ∧
      run.outcome.toOption.map (fun r => r.stats.map RoundStats.deltaLength) = some [2, 0] := by
  intro edges solution workset index it run
  have hcovers : (KeySpec.field 0).Covers solution :=
    .cons rfl (.cons rfl (.cons rfl (.cons rfl (.cons rfl (KeySpec.covers_nil _)))))
  rcases SolutionSet.seed_spec hcovers (by decide) with ⟨seeded, hseed, _⟩
  have hindex : Index.build edges (.field 0) = .ok index := rfl
  have hrun : RunDescends run seeded := runInterrupted_descends rfl rfl hindex .second _ none _ hseed workset
  exact ⟨hindex, ⟨seeded, hseed, hrun⟩, by decide +kernel⟩

end Graph

end WorksetIteration
