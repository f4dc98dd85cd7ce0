import WorksetIteration.Proofs.Graph.Descent

/-!
# Converged labels

A record with a new label is in the workset until its label has been offered along every edge that starts at its vertex.
So an edge to a vertex with a greater label has its start in the workset, and when the workset is empty there is no such
edge.  A run that starts from such labels improves nothing.  Its joins have as many pairs as those in the first round of
the run that has led to the labels, as these depend on the vertices only, so it keeps within any limit that the other
one has kept within.

Main results:

- `WithinLimits.of_keys`: rounds on the same vertices are within the same limits.
- `Stable`: records with no edge along which a label would be accepted.
- `Spreading`, `Spreading.round`: what every round establishes anew of the labels and the workset.
- `run_of_stable`: a run from stable labels changes nothing.
- `rerun_of_converged`: a run that has converged has stable labels, and a second run from them changes nothing.
-/

namespace WorksetIteration

namespace Graph

/-! ## Rounds on the same vertices -/

section Keys

variable {ctx ctx' : StepContext} {workset workset' edges best best' : List Record}

/-- With labels in all records, a vertex is offered one just if an edge leads to it from a vertex in the workset. -/
theorem exists_offered_iff (hlabels : ∀ r ∈ workset, ∃ c, r.get? 1 = some c) (n : Value) :
    (∃ c, Offered workset edges n c) ↔ ∃ e ∈ edges, ∃ v, v.isNull = false ∧ e.get? 0 = some v ∧ e.get? 1 = some n ∧
      .ok ⟨[v]⟩ ∈ workset.map (KeySpec.field 0).extract := by
  constructor
  · rintro ⟨c, w, hw, e, he, v, hnull, hwv, hev, hn, _⟩
    exact ⟨e, he, v, hnull, hev, hn, List.mem_map.2 ⟨w, hw, KeySpec.extract_field_eq_ok_iff.2 ⟨v, hwv, rfl⟩⟩⟩
  · rintro ⟨e, he, v, hnull, hev, hn, hmem⟩
    rcases List.mem_map.1 hmem with ⟨w, hw, hextract⟩
    rcases KeySpec.extract_field_eq_ok_iff.1 hextract with ⟨v', hwv, hv⟩
    cases hv
    rcases hlabels w hw with ⟨c, hc⟩
    exact ⟨c, w, hw, e, he, v, hnull, hwv, hev, hn, hc⟩

/-- Among the offers to a vertex there is a least one. -/
theorem exists_leastAmong_offered (workset edges : List Record) (n : Value) :
    ∃ m, Value.LeastAmong (Offered workset edges n) m := by
  have hmem : ∀ c, Offered workset edges n c → c ∈ workset.filterMap (Record.get? · 1) := by
    rintro c ⟨w, hw, _, _, _, _, _, _, _, hc⟩
    exact List.mem_filterMap.2 ⟨w, hw, hc⟩
  exact Reduction.exists_leastAmong hmem

/-- The vertices of the least offers are those that are offered a label. -/
theorem BestOffers.mem_map_extract (h : BestOffers workset edges best) {x : Except Error Key} :
    x ∈ best.map (KeySpec.field 0).extract ↔ ∃ n, x = .ok ⟨[n]⟩ ∧ ∃ c, Offered workset edges n c := by
  rw [List.mem_map]
  constructor
  · rintro ⟨r, hr, rfl⟩
    rcases (h.mem_iff r).1 hr with ⟨n, m, rfl, hoffered, _⟩
    exact ⟨n, KeySpec.extract_field_eq_ok_iff.2 ⟨n, rfl, rfl⟩, hoffered⟩
  · rintro ⟨n, rfl, hoffered⟩
    rcases exists_leastAmong_offered workset edges n with ⟨m, hleast⟩
    exact ⟨.pair n m, (h.mem_iff _).2 ⟨n, m, rfl, hoffered, hleast⟩, KeySpec.extract_field_eq_ok_iff.2 ⟨n, rfl, rfl⟩⟩

/-- Where the same vertices are offered labels, the least offers are to the same vertices. -/
theorem BestOffers.map_extract_perm (h : BestOffers workset edges best) (h' : BestOffers workset' edges best')
    (hsame : ∀ n, (∃ c, Offered workset edges n c) ↔ ∃ c, Offered workset' edges n c) :
    (best.map (KeySpec.field 0).extract).Perm (best'.map (KeySpec.field 0).extract) := by
  have hnodup := List.pairwise_map.2 (pairwise_extract_of_vertices h.covers h.distinct)
  have hnodup' := List.pairwise_map.2 (pairwise_extract_of_vertices h'.covers h'.distinct)
  rw [List.perm_ext_iff_of_nodup hnodup hnodup']
  intro x
  rw [h.mem_map_extract, h'.mem_map_extract]
  simp only [hsame]

/-- The least offers of a round whose first join is within the limit. -/
theorem WithinLimits.exists_bestOffers (hreads : Reads ctx edges) (h : WithinLimits ctx edges) :
    ∃ best, BestOffers ctx.workset.records edges best := by
  rcases hreads.registered with ⟨input, _, hindex⟩
  rcases offers_of_not_overruns hindex h.covers h.offered with ⟨candidates, _, hoffered⟩
  rcases leastOffers_of_offered ctx hoffered with ⟨best, _, hbest⟩
  exact ⟨best, hbest⟩

/-- Rounds with one limit, on the same edges and with the same vertices in their worksets and in their solution sets,
are within their limits together. -/
theorem WithinLimits.of_keys (hreads : Reads ctx edges) (h : WithinLimits ctx edges)
    (hlimit : ctx.fanoutLimit = ctx'.fanoutLimit)
    (hworkset : (ctx.workset.records.map (KeySpec.field 0).extract).Perm
      (ctx'.workset.records.map (KeySpec.field 0).extract))
    (hsolution : (ctx.solution.records.map (KeySpec.field 0).extract).Perm
      (ctx'.solution.records.map (KeySpec.field 0).extract))
    (hlabels : ∀ r ∈ ctx.workset.records, ∃ c, r.get? 1 = some c)
    (hlabels' : ∀ r ∈ ctx'.workset.records, ∃ c, r.get? 1 = some c) : WithinLimits ctx' edges := by
  have hoffers : offerPairs ctx edges = offerPairs ctx' edges :=
    Join.length_pairsByLeft_of_keys _ hworkset (List.Perm.refl _)
  refine ⟨?_, ?_, ?_⟩
  · intro r hr
    have hmem := hworkset.mem_iff.2 (List.mem_map_of_mem hr)
    rcases List.mem_map.1 hmem with ⟨w, hw, hextract⟩
    rcases h.covers w hw with ⟨k, hk⟩
    exact ⟨k, hextract.symm.trans hk⟩
  · exact mt (overruns_iff_of_limit hlimit hoffers).2 h.offered
  · intro best' hbest'
    rcases h.exists_bestOffers hreads with ⟨best, hbest⟩
    have hsame : ∀ n, (∃ c, Offered ctx.workset.records edges n c) ↔ ∃ c, Offered ctx'.workset.records edges n c := by
      intro n
      rw [exists_offered_iff hlabels, exists_offered_iff hlabels']
      simp only [hworkset.mem_iff]
    have hstored : storedPairs ctx best = storedPairs ctx' best' :=
      Join.length_pairsByLeft_of_keys _ (hbest.map_extract_perm hbest' hsame) hsolution
    exact mt (overruns_iff_of_limit hlimit hstored).2 (h.stored best hbest)

end Keys

/-! ## Stable labels -/

/-- A record has a label. -/
def HasLabel (r : Record) : Prop :=
  ∃ c, r.get? 1 = some c ∧ c.isNull = false

theorem HasLabel.exists_get? {r : Record} (h : HasLabel r) : ∃ c, r.get? 1 = some c :=
  h.imp fun _ => And.left

/-- An edge leads from the vertex of a record to that of another; neither of them is missing. -/
def Leads (edges : List Record) (a b : Record) : Prop :=
  ∃ e ∈ edges, ∃ u v, u.isNull = false ∧ v.isNull = false ∧ e.get? 0 = some u ∧ e.get? 1 = some v ∧
    a.get? 0 = some u ∧ b.get? 0 = some v

/-- It matters where an edge leads to only. -/
theorem Leads.congr {edges : List Record} {a b b' : Record} (h : Leads edges a b) (heq : b.get? 0 = b'.get? 0) :
    Leads edges a b' := by
  rcases h with ⟨e, he, u, v, hu, hv, heu, hev, hau, hbv⟩
  exact ⟨e, he, u, v, hu, hv, heu, hev, hau, heq.symm.trans hbv⟩

theorem Leads.end_eq {edges : List Record} {a b : Record} (h : Leads edges a b) :
    ∃ n, n.isNull = false ∧ b.get? 0 = some n := by
  rcases h with ⟨_, _, _, n, _, hnull, _, _, _, hn⟩
  exact ⟨n, hnull, hn⟩

/-- No edge leads from a record to one with a greater label. -/
def Stable (edges rs : List Record) : Prop :=
  ∀ a ∈ rs, ∀ b ∈ rs, Leads edges a b → ¬LabelBelow a b

theorem Stable.perm {edges rs rs' : List Record} (h : Stable edges rs) (hperm : rs.Perm rs') : Stable edges rs' :=
  fun a ha b hb => h a (hperm.mem_iff.2 ha) b (hperm.mem_iff.2 hb)

/-- Along an edge between stable records the label does not rise. -/
theorem Stable.label_le {edges rs : List Record} (h : Stable edges rs) (hlabels : ∀ r ∈ rs, HasLabel r) {a b : Record}
    (ha : a ∈ rs) (hb : b ∈ rs) (hleads : Leads edges a b) :
    ∃ la lb, a.get? 1 = some la ∧ b.get? 1 = some lb ∧ (compare lb la).isLE = true := by
  rcases hlabels a ha with ⟨la, hla, _⟩
  rcases hlabels b hb with ⟨lb, hlb, _⟩
  refine ⟨la, lb, hla, hlb, (Value.isBelow_eq_false_iff lb la).1 ?_⟩
  rw [Bool.eq_false_iff]
  intro hlt
  exact h a ha b hb hleads ⟨la, lb, hla, hlb, hlt⟩

/-! ## The invariant -/

/-- What holds between the rounds: an edge to a record with a greater label starts at a record of the workset. -/
structure Spreading (edges : List Record) (s : SolutionSet) (w : Workset) : Prop where
  /-- Every record stored has a label. -/
  labelled : ∀ r ∈ s.records, HasLabel r
  /-- The records of the workset are stored. -/
  stored : ∀ r ∈ w.records, r ∈ s.records
  /-- An edge leads to no greater label, unless it starts at a record of the workset. -/
  pending : ∀ a ∈ s.records, ∀ b ∈ s.records, Leads edges a b → a ∈ w.records ∨ ¬LabelBelow a b

/-- With an empty workset the labels are stable. -/
theorem Spreading.stable {edges : List Record} {s : SolutionSet} {w : Workset} (h : Spreading edges s w)
    (hempty : w.isEmpty = true) : Stable edges s.records := by
  intro a ha b hb hleads
  refine (h.pending a ha b hb hleads).resolve_left ?_
  rw [List.isEmpty_iff.1 hempty]
  exact List.not_mem_nil

/-- It holds before the first round if the seed records have labels. -/
theorem Spreading.seed {edges seed : List Record} {s : SolutionSet} (hlabels : ∀ r ∈ seed, HasLabel r)
    (hseed : SolutionSet.seed seed (.field 0) = .ok s) : Spreading edges s (.seed seed) := by
  have hperm := SolutionSet.records_perm_of_seed hseed
  exact ⟨fun r hr => hlabels r (hperm.mem_iff.1 hr), fun r hr => hperm.mem_iff.2 hr,
    fun a ha _ _ _ => Or.inl (hperm.mem_iff.1 ha)⟩

section Round

variable {env : Surroundings} {edges improved : List Record} {s s' : SolutionSet} {w : Workset}
  {summary : DeltaSummary}

/-- A vertex finds the record stored that is about it. -/
theorem probe_vertex_iff (hreach : s.Reachable) (hkey : s.key = .field 0) {n : Value} {r : Record} :
    s.probe ⟨[n]⟩ = some r ↔ r ∈ s.records ∧ r.get? 0 = some n := by
  rcases hreach.stores with ⟨written, hs⟩
  have hextract : ∀ k, s.probe k = some r → ∃ v, r.get? 0 = some v ∧ k = ⟨[v]⟩ := by
    intro k hk
    have h := hs.extract_of_probe hk
    rw [hkey] at h
    exact KeySpec.extract_field_eq_ok_iff.1 h
  constructor
  · intro hprobe
    rcases hextract _ hprobe with ⟨v, hv, hkv⟩
    cases hkv
    exact ⟨SolutionSet.mem_records.2 ⟨_, hprobe⟩, hv⟩
  · rintro ⟨hr, hn⟩
    rcases SolutionSet.mem_records.1 hr with ⟨k, hk⟩
    rcases hextract k hk with ⟨v, hv, rfl⟩
    obtain rfl := Option.some.inj (hn.symm.trans hv)
    exact hk

/-- A record of the workset at the start of an edge offers its label to the end. -/
theorem offered_of_leads {workset : List Record} {a b : Record} {n c : Value} (ha : a ∈ workset)
    (hleads : Leads edges a b) (hn : b.get? 0 = some n) (hc : a.get? 1 = some c) : Offered workset edges n c := by
  rcases hleads with ⟨e, he, u, v, hu, _, heu, hev, hau, hbv⟩
  obtain rfl := Option.some.inj (hbv.symm.trans hn)
  exact ⟨a, ha, e, he, u, hu, hau, heu, hev, hc⟩

/-- What is offered is a label. -/
theorem Spreading.isNull_of_offered (h : Spreading edges s w) {n c : Value} (hc : Offered w.records edges n c) :
    c.isNull = false := by
  rcases hc with ⟨r, hr, _, _, _, _, _, _, _, hrc⟩
  rcases h.labelled r (h.stored r hr) with ⟨c', hc', hnull⟩
  obtain rfl := Option.some.inj (hrc.symm.trans hc')
  exact hnull

/-- A label that is offered is not below the least offer. -/
theorem Spreading.least_le (h : Spreading edges s w) {n c m : Value} (hc : Offered w.records edges n c)
    (hleast : Value.LeastAmong (Offered w.records edges n) m) : m.isNull = false ∧ c.isBelow m = false :=
  hleast.le c hc (h.isNull_of_offered hc)

/-- An offer below the label of a record stored leads to an improvement of that record. -/
theorem Spreading.exists_improved (h : Spreading edges s w) (hreads : Reads (env.context s w) edges)
    (himproves : Improves (env.context s w) edges improved) {a b : Record} (ha : a ∈ w.records) (hb : b ∈ s.records)
    (hleads : Leads edges a b) (hbelow : LabelBelow a b) :
    ∃ r ∈ improved, s.key.extract r = s.key.extract b := by
  have hkey : s.key = .field 0 := hreads.key_eq
  rcases hbelow with ⟨la, lb, hla, hlb, hlt⟩
  rcases hleads.end_eq with ⟨n, hnull, hn⟩
  have hoffered : Offered w.records edges n la := offered_of_leads ha hleads hn hla
  rcases exists_leastAmong_offered w.records edges n with ⟨m, hleast⟩
  have hbest : m.isBelow lb = true := by
    by_contra hnot
    have hge := Value.isBelow_eq_false_trans (Bool.eq_false_iff.2 hnot) (h.least_le hoffered hleast).2
    rw [hlt] at hge
    cases hge
  have hprobe : s.probe ⟨[n]⟩ = some b := (probe_vertex_iff hreads.reachable hkey).2 ⟨hb, hn⟩
  refine ⟨.pair n m,
    (himproves.mem_iff _).2 ⟨n, m, rfl, hnull, ⟨la, hoffered⟩, hleast, b, lb, hprobe, hlb, hbest⟩, ?_⟩
  rw [hkey, KeySpec.extract_field_eq_ok_iff.2 ⟨n, rfl, rfl⟩, KeySpec.extract_field_eq_ok_iff.2 ⟨n, hn, rfl⟩]

/-- No edge leads to an improvement from a record that is kept and has a lower label. -/
theorem Spreading.not_below_improved (h : Spreading edges s w) (hreads : Reads (env.context s w) edges)
    (himproves : Improves (env.context s w) edges improved) {a b : Record} (ha : a ∈ s.records) (hb : b ∈ improved)
    (hleads : Leads edges a b) : ¬LabelBelow a b := by
  intro hbelow
  rcases (himproves.mem_iff b).1 hb with ⟨n, m, rfl, _, _, hleast, current, old, hprobe, hold, hlt⟩
  rcases (probe_vertex_iff hreads.reachable hreads.key_eq).1 hprobe with ⟨hcurrent, hn⟩
  rcases h.pending a ha current hcurrent (hleads.congr hn.symm) with hw | hnot
  · rcases hbelow with ⟨la, lb, hla, hlb, hlt'⟩
    cases hlb
    have hle := (h.least_le (offered_of_leads hw hleads rfl hla) hleast).2
    rw [hlt'] at hle
    cases hle
  · exact hnot (hbelow.trans ⟨m, old, rfl, hold, hlt⟩)

/-- A round establishes it anew. -/
theorem Spreading.round (h : Spreading edges s w) (hreads : Reads (env.context s w) edges)
    (himproves : Improves (env.context s w) edges improved) (hdelta : s.applyDelta improved = .ok (s', summary)) :
    Spreading edges s' (w.replace improved) := by
  have hmem : ∀ r, r ∈ s'.records ↔ r ∈ improved ∨ r ∈ s.records ∧ ∀ x ∈ improved, s.key.extract x ≠ s.key.extract r :=
    fun r => (himproves.relabels hreads.key_eq).mem_records hreads.reachable hdelta
  refine ⟨?_, fun r hr => (hmem r).2 (Or.inl hr), ?_⟩
  · intro r hr
    rcases (hmem r).1 hr with hr | ⟨hr, _⟩
    · rcases (himproves.mem_iff r).1 hr with ⟨n, m, rfl, _, ⟨c, hc⟩, hleast, _⟩
      exact ⟨m, rfl, (h.least_le hc hleast).1⟩
    · exact h.labelled r hr
  · intro a ha b hb hleads
    rcases (hmem a).1 ha with ha | ⟨ha, _⟩
    · exact Or.inl ha
    rcases (hmem b).1 hb with hb | ⟨hb, hother⟩
    · exact Or.inr (h.not_below_improved hreads himproves ha hb hleads)
    · -- an offer along the edge would have led to an improvement of `b`
      rcases h.pending a ha b hb hleads with hw | hnot
      · refine Or.inr fun hbelow => ?_
        rcases h.exists_improved hreads himproves hw hb hleads hbelow with ⟨x, hx, hextract⟩
        exact hother x hx hextract
      · exact Or.inr hnot

/-- So do any number of completed rounds. -/
theorem Spreading.completes {position : Position} {cancels : StepContext → Bool} {n : Nat} {stats : List RoundStats}
    {w' : Workset} (h : Spreading edges s w) (hreads : Reads (env.context s w) edges)
    (hcompletes : Completes env (labelStep position cancels) n s w stats s' w') : Spreading edges s' w' := by
  induction hcompletes with
  | none s w => exact h
  | round hwork hout hdelta hrest ih =>
      rcases improves_of_spreadLabels hreads (congrArg StepReply.outcome hout) with ⟨improved, rfl, himproves⟩
      exact ih (h.round hreads himproves hdelta) (hreads.next hdelta _)

end Round

/-! ## Runs from stable labels -/

/-- From stable labels a round improves nothing. -/
theorem improves_eq_nil {ctx : StepContext} {edges improved : List Record} (hreads : Reads ctx edges)
    (hspreading : Spreading edges ctx.solution ctx.workset) (hstable : Stable edges ctx.solution.records)
    (h : Improves ctx edges improved) : improved = [] := by
  rw [List.eq_nil_iff_forall_not_mem]
  intro r hr
  rcases (h.mem_iff r).1 hr with ⟨n, m, rfl, hnull, ⟨c, hc⟩, hleast, current, old, hprobe, hold, hlt⟩
  rcases (probe_vertex_iff hreads.reachable hreads.key_eq).1 hprobe with ⟨hcurrent, hn⟩
  -- the least offer is made by a record, as it is not missing
  have hm : m.isNull = false := (hspreading.least_le hc hleast).1
  rcases hleast.mem with rfl | ⟨a, ha, e, he, u, hu, hau, heu, hev, hlabel⟩
  · cases hm
  · exact hstable a (hspreading.stored a ha) current hcurrent ⟨e, he, u, n, hu, hnull, heu, hev, hau, hn⟩
      ⟨m, old, hlabel, hold, hlt⟩

section Runs

variable {it : Iteration} {input : SideInput} {edges : List Record}

/-- A run from stable labels changes nothing: it converges after one round, if that is within its limits, and without
any if there is nothing to process. -/
theorem run_of_stable (hkey : it.config.key = .field 0) (hinput : it.sideInputs.get? edgesName = some input)
    (hindex : Index.build edges (.field 0) = .ok input.index) (hflag : it.cancelled = false) (position : Position)
    (schedules : UInt32 → Nat → Schedule) {seed : List Record} {s : SolutionSet}
    (hseed : SolutionSet.seed seed (.field 0) = .ok s) (hlabels : ∀ r ∈ seed, HasLabel r)
    (hstable : Stable edges seed)
    (hwithin : seed ≠ [] → 1 ≤ it.config.maxRounds.toNat ∧
      WithinLimits ((it.surroundings schedules).context s (.seed seed)) edges) :
    (it.runUnified (.ofFunction (spreadLabels position)) schedules seed).outcome =
      .ok ⟨s.records, .converged, if seed.isEmpty then 0 else 1,
        if seed.isEmpty then [] else [⟨0, seed.length, 0, 0, ⟨0, 0⟩⟩], 0⟩ := by
  have hseed' : SolutionSet.seed seed it.config.key = .ok s := hkey ▸ hseed
  cases hempty : seed.isEmpty with
  | true =>
      obtain rfl : seed = [] := List.isEmpty_iff.1 hempty
      have hwork : (Workset.seed []).isEmpty = true := rfl
      exact Iteration.outcome_of_completes it hseed' hflag (t := .converged) (.none s _) (Nat.zero_le _) hwork
  | false =>
      rcases hwithin (List.isEmpty_eq_false_iff.1 hempty) with ⟨hbound, hlimits⟩
      have hreads : Reads ((it.surroundings schedules).context s (.seed seed)) edges := reads_seed hinput hindex hseed _
      rcases spreadLabels_of_withinLimits position hreads hlimits with ⟨improved, hstep, himproves⟩
      have hrecords := SolutionSet.records_perm_of_seed hseed
      obtain rfl := improves_eq_nil hreads (.seed hlabels hseed) (hstable.perm hrecords.symm) himproves
      have hwork : (Workset.seed seed).isEmpty = false := hempty
      have hout : Step.ofFunction (spreadLabels position) ((it.surroundings schedules).context s (.seed seed)) =
          ⟨.ok (.unified []), false⟩ := congrArg (StepReply.mk · false) hstep
      have hdelta : s.applyDelta (StepOutput.unified []).delta = .ok (s, ⟨0, 0⟩) := rfl
      have hcompletes := Completes.round hwork hout hdelta (.none s _)
      exact Iteration.outcome_of_completes it hseed' hflag (t := .converged) hcompletes hbound rfl

/-- A run that has something to process and converges has completed its first round, which was within the limits. -/
theorem withinLimits_of_completes {env : Surroundings} {position : Position} {cancels : StepContext → Bool} {n : Nat}
    {stats : List RoundStats} {s s' : SolutionSet} {w w' : Workset} (hreads : Reads (env.context s w) edges)
    (h : Completes env (labelStep position cancels) n s w stats s' w') (hwork : w.isEmpty = false)
    (hempty : w'.isEmpty = true) : 1 ≤ n ∧ WithinLimits (env.context s w) edges := by
  cases h with
  | none =>
      rw [hwork] at hempty
      cases hempty
  | round _ hout _ _ =>
      exact ⟨Nat.succ_pos _, withinLimits_of_spreadLabels hreads (congrArg StepReply.outcome hout)⟩

/-- A run that has converged has stable labels: no edge between two vertices stored leads to a greater label.  A second
run from its solution, in any order, changes nothing: it converges after one round, or without any if the solution is
empty, and never comes to a limit that the first one has kept within. -/
theorem rerun_of_converged (hkey : it.config.key = .field 0) (hinput : it.sideInputs.get? edgesName = some input)
    (hindex : Index.build edges (.field 0) = .ok input.index) {seed : List Record}
    (hlabels : ∀ r ∈ seed, HasLabel r) {position : Position} {cancels : StepContext → Bool}
    {interruption : Option Nat} {schedules : UInt32 → Nat → Schedule} {r : RunResult}
    (hrun : (it.runInterrupted interruption (labelStep position cancels) schedules seed seed).outcome = .ok r)
    (hconverged : r.termination = .converged) :
    (∀ a ∈ r.solution, ∀ b ∈ r.solution, Leads edges a b →
      ∃ la lb, a.get? 1 = some la ∧ b.get? 1 = some lb ∧ (compare lb la).isLE = true) ∧
    ∀ it' : Iteration, it'.config = it.config → it'.sideInputs = it.sideInputs → it'.cancelled = false →
      ∀ (position' : Position) (schedules' : UInt32 → Nat → Schedule) (seed' : List Record), seed'.Perm r.solution →
        ∃ solution : List Record, solution.Perm r.solution ∧
          (it'.runUnified (.ofFunction (spreadLabels position')) schedules' seed').outcome =
            .ok ⟨solution, .converged, if seed'.isEmpty then 0 else 1,
              if seed'.isEmpty then [] else [⟨0, seed'.length, 0, 0, ⟨0, 0⟩⟩], 0⟩ := by
  rcases Iteration.completes_of_converged hrun hconverged with
    ⟨s, n, stats, s', w', hseed, hn, hcompletes, hempty, hsolution⟩
  rw [hkey] at hseed
  rw [hsolution]
  have hreads : Reads ((it.surroundings schedules).context s (.seed seed)) edges := reads_seed hinput hindex hseed _
  have hspreading : Spreading edges s' w' := (Spreading.seed hlabels hseed).completes hreads hcompletes
  have hstable : Stable edges s'.records := hspreading.stable hempty
  rcases descends_of_completes hreads hcompletes with ⟨hreads', hdescends⟩
  refine ⟨fun a ha b hb hleads => hstable.label_le hspreading.labelled ha hb hleads, ?_⟩
  intro it' hconfig hinputs hflag position' schedules' seed' hperm
  rcases hreads.reachable.stores with ⟨written, hs⟩
  rcases hreads'.reachable.stores with ⟨written', hs'⟩
  have hkey₁ : s.key = .field 0 := hreads.key_eq
  have hkey₂ : s'.key = .field 0 := hreads'.key_eq
  rcases hs'.exists_seed hperm with ⟨t, hreseed, hrecords⟩
  have hseed' : SolutionSet.seed seed' (.field 0) = .ok t := hkey₂ ▸ hreseed
  have hlabels' : ∀ x ∈ seed', HasLabel x := fun x hx => hspreading.labelled x (hperm.mem_iff.1 hx)
  refine ⟨t.records, hrecords, run_of_stable (hconfig ▸ hkey) (hinputs ▸ hinput) hindex hflag position' schedules'
    hseed' hlabels' (hstable.perm hperm.symm) ?_⟩
  intro hne
  -- the vertices are those that the first round of the first run has processed
  have hvertices : (s.records.map (KeySpec.field 0).extract).Perm (s'.records.map (KeySpec.field 0).extract) :=
    hkey₁ ▸ hs.map_extract_perm hs' (hkey₂.trans hkey₁.symm) hdescends.isSome_probe
  have hprocessed : (seed.map (KeySpec.field 0).extract).Perm (seed'.map (KeySpec.field 0).extract) :=
    ((SolutionSet.records_perm_of_seed hseed).map _).symm.trans (hvertices.trans (hperm.map _).symm)
  have hwork : (Workset.seed seed).isEmpty = false := by
    refine List.isEmpty_eq_false_iff.2 fun (hnil : seed = []) => hne ?_
    rw [hnil] at hprocessed
    exact List.map_eq_nil_iff.1 (List.nil_perm.1 hprocessed)
  rcases withinLimits_of_completes hreads hcompletes hwork hempty with ⟨hpos, hwithin⟩
  rw [hconfig]
  refine ⟨hpos.trans hn, hwithin.of_keys hreads (congrArg Config.fanoutLimit hconfig.symm) hprocessed
    (hvertices.trans (hrecords.symm.map _)) (fun x hx => (hlabels x hx).exists_get?) ?_⟩
  exact fun x hx => (hlabels' x hx).exists_get?

/-- Labels of several types over directed edges, of which one starts at a missing vertex and another ends at one, with a
limit that the first round uses up: three labels are lowered, one of them twice. -/
theorem rerun_of_converged_at_limit :
    let edges : List Record :=
      [.pair (.int64 1) (.string "b"), .pair (.string "b") (.int32 2), .pair (.int32 2) (.boolean true),
        .pair (.boolean true) .null, .pair .null (.int64 1)]
    let seed : List Record :=
      [.pair (.int64 1) (.int32 0), .pair (.string "b") (.string "b"), .pair (.int32 2) (.string "c"),
        .pair (.boolean true) (.float64 1.5), .pair .null (.boolean false)]
    let index := (Index.build edges (.field 0)).toOption.getD (.empty (.field 0))
    let it : Iteration :=
      { config := { parallelism := 2, fanoutLimit := some 4 }, sideInputs := ⟨[⟨edgesName, index⟩]⟩ }
    ∃ r, (it.runUnified (.ofFunction (spreadLabels .first)) (fun _ _ => .inOrder) seed).outcome = .ok r ∧
      r.termination = .converged ∧ r.stats.map RoundStats.deltaLength = [2, 1, 1, 0] ∧
      (∀ a ∈ r.solution, ∀ b ∈ r.solution, Leads edges a b →
        ∃ la lb, a.get? 1 = some la ∧ b.get? 1 = some lb ∧ (compare lb la).isLE = true) ∧
      ∃ solution : List Record, solution.Perm r.solution ∧
        (it.reset.runUnified (.ofFunction (spreadLabels .second)) (fun _ _ => .inOrder) r.solution).outcome =
          .ok ⟨solution, .converged, 1, [⟨0, 5, 0, 0, ⟨0, 0⟩⟩], 0⟩ := by
  intro edges seed index it
  have hlabels : ∀ x ∈ seed, HasLabel x := by
    intro x hx
    simp only [seed, List.mem_cons, List.not_mem_nil, or_false] at hx
    rcases hx with rfl | rfl | rfl | rfl | rfl <;> exact ⟨_, rfl, rfl⟩
  have hfacts : (match (it.runUnified (.ofFunction (spreadLabels .first)) (fun _ _ => .inOrder) seed).outcome with
      | .ok r => decide (r.termination = .converged ∧ r.stats.map RoundStats.deltaLength = [2, 1, 1, 0] ∧
          r.solution.length = 5)
      | .error _ => false) = true := by
    decide +kernel
  cases hrun : (it.runUnified (.ofFunction (spreadLabels .first)) (fun _ _ => .inOrder) seed).outcome with
  | error e =>
      rw [hrun] at hfacts
      cases hfacts
  | ok r =>
      rw [hrun] at hfacts
      rcases of_decide_eq_true hfacts with ⟨hconverged, hdeltas, hlength⟩
      rcases @rerun_of_converged it ⟨edgesName, index⟩ edges rfl rfl rfl seed hlabels .first (fun _ => false) none
        (fun _ _ => .inOrder) r hrun hconverged with ⟨hstable, hrerun⟩
      rcases hrerun it.reset rfl rfl rfl .second (fun _ _ => .inOrder) r.solution (List.Perm.refl _) with
        ⟨solution, hperm, hresult⟩
      have hsome : r.solution.isEmpty = false := by
        rw [List.isEmpty_eq_false_iff, ← List.length_pos_iff, hlength]
        decide
      rw [hsome, hlength] at hresult
      exact ⟨r, rfl, hconverged, hdeltas, hstable, solution, hperm, hresult⟩

end Runs

end Graph

end WorksetIteration
