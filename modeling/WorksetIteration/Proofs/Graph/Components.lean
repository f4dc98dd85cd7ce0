import WorksetIteration.Proofs.Graph.LabelSpreading
import WorksetIteration.Proofs.Graph.Reachability
import WorksetIteration.Proofs.Rounds

/-!
# Connected components and full relaxation

The iteration that spreads labels from changed vertices only has the same labels after every round as full relaxation.
So its labels are least vertices within as many hops as rounds were completed, and when it converges they are least
connected vertices.

Main results:

- `Labelled`: the state after a number of rounds.
- `Labelled.round`: a round leads from one such state to the next.
- `exists_iteration_of_connectedComponents`: what a run that returns was a run of.
- `connectedComponents_spec`: every run has a result, with the labels of full relaxation.
- `connectedComponents_of_converged`: the labels of a run that has converged.
- `connectedComponents_rounds`: the labels and the counts of a run with any number of rounds.
-/

namespace WorksetIteration

namespace Graph

/-! ## Edges in both directions -/

theorem get?_zero_reversed {e : Record} {v : Value} (h : e.get? 1 = some v) : (reversed e).get? 0 = some v := by
  rcases e with ⟨_ | ⟨a, _ | ⟨b, rest⟩⟩⟩
  · cases h
  · cases h
  · exact h

theorem get?_one_reversed {e : Record} {u v : Value} (h : e.get? 0 = some u) (h' : e.get? 1 = some v) :
    (reversed e).get? 1 = some u := by
  rcases e with ⟨_ | ⟨a, _ | ⟨b, rest⟩⟩⟩
  · cases h
  · cases h'
  · exact h

/-- Adjacent vertices are the start and the end of an edge taken in one of its directions. -/
theorem adjacent_iff_undirect {vs : List Int64} {edges : List Record} {u v : Int64} (hu : u ∈ vs) (hv : v ∈ vs) :
    Adjacent vs edges u v ↔
      ∃ e ∈ undirect edges, e.get? 0 = some (.int64 u) ∧ e.get? 1 = some (.int64 v) := by
  constructor
  · rintro ⟨_, _, e, he, ⟨h0, h1⟩ | ⟨h0, h1⟩⟩
    · exact ⟨e, mem_undirect.2 (Or.inl he), h0, h1⟩
    · refine ⟨reversed e, mem_undirect.2 (Or.inr ?_), get?_zero_reversed h1, get?_one_reversed h0 h1⟩
      rwa [reversed_reversed]
  · rintro ⟨e, he, h0, h1⟩
    rcases mem_undirect.1 he with he | he
    · exact ⟨hu, hv, e, he, Or.inl ⟨h0, h1⟩⟩
    · exact ⟨hu, hv, reversed e, he, Or.inr ⟨get?_zero_reversed h1, get?_one_reversed h0 h1⟩⟩

theorem covers_of_arity {rs : List Record} (h : ∀ r ∈ rs, 1 ≤ r.arity) : (KeySpec.field 0).Covers rs := by
  intro r hr
  rcases r with ⟨_ | ⟨v, rest⟩⟩
  · exact absurd (h _ hr) (by decide)
  · exact ⟨⟨[v]⟩, rfl⟩

theorem covers_undirect {edges : List Record} (h : ∀ e ∈ edges, 1 ≤ e.arity) :
    (KeySpec.field 0).Covers (undirect edges) := by
  apply covers_of_arity
  intro e he
  rcases mem_undirect.1 he with he | he
  · exact h e he
  · have := h _ he
    rcases e with ⟨_ | ⟨a, _ | ⟨b, rest⟩⟩⟩
    · exact this
    · exact this
    · simp [Record.arity]

/-! ## Labels -/

section Labels

variable (vs : List Int64) (edges : List Record)

/-- A vertex with its label after a number of rounds of full relaxation. -/
def labelled (n : Nat) (v : Int64) : Record :=
  vertexPair v (relaxed vs edges n v)

/-- The state of an iteration after a number of rounds: the solution set has the labels of full relaxation, and the
workset has the new ones of them. -/
structure Labelled (n : Nat) (s : SolutionSet) (w : Workset) : Prop where
  /-- The solution set was made by seeding and by deltas. -/
  reachable : s.Reachable
  /-- It is stored by vertex. -/
  key_eq : s.key = .field 0
  /-- Each vertex has its label. -/
  probe_eq : ∀ v ∈ vs, s.probe ⟨[.int64 v]⟩ = some (labelled vs edges n v)
  /-- Nothing else is stored. -/
  vertex_of_probe : ∀ k r, s.probe k = some r → ∃ v ∈ vs, k = ⟨[.int64 v]⟩
  /-- The workset has the new labels. -/
  workset_perm : w.records.Perm ((fresh vs edges n).map (labelled vs edges n))

variable {vs edges} {n : Nat} {s : SolutionSet} {w : Workset}

theorem isBelow_int64 (a b : Int64) : (Value.int64 a).isBelow (.int64 b) = decide (a < b) := by
  have hcompare : Ord.compare (Value.int64 a) (.int64 b) = Ord.compare a.toInt b.toInt := by
    change (Ord.compare a.toInt b.toInt).then (Ord.compare (Value.int64 b).typeRank (Value.int64 b).typeRank) = _
    rw [Std.ReflOrd.compare_self, Ordering.then_eq]
  rw [Value.isBelow, hcompare, Bool.eq_iff_iff, decide_eq_true_iff, Int64.lt_iff_toInt_lt, Ordering.isLT_iff_eq_lt]
  exact Int.compare_eq_lt

/-- A label is offered to a vertex by a neighbour whose label is new. -/
theorem Labelled.offered_iff (h : Labelled vs edges n s w) {v : Int64} (hv : v ∈ vs) (c : Value) :
    Offered w.records (undirect edges) (.int64 v) c ↔
      ∃ u ∈ fresh vs edges n, Adjacent vs edges u v ∧ c = .int64 (relaxed vs edges n u) := by
  constructor
  · rintro ⟨r, hr, e, he, x, _, hrx, hex, hev, hrc⟩
    rcases List.mem_map.1 (h.workset_perm.mem_iff.1 hr) with ⟨u, hu, rfl⟩
    cases hrx
    cases hrc
    exact ⟨u, hu, (adjacent_iff_undirect (mem_of_mem_fresh hu) hv).2 ⟨e, he, hex, hev⟩, rfl⟩
  · rintro ⟨u, hu, hedge, rfl⟩
    rcases (adjacent_iff_undirect (mem_of_mem_fresh hu) hv).1 hedge with ⟨e, he, hex, hev⟩
    refine ⟨labelled vs edges n u, ?_, e, he, .int64 u, rfl, rfl, hex, hev, rfl⟩
    exact h.workset_perm.mem_iff.2 (List.mem_map_of_mem hu)

/-- The least offer to a vertex is below its label just if full relaxation lowers the label, and then it is the new
label. -/
theorem Labelled.least_offer_iff (h : Labelled vs edges n s w) {v : Int64} (hv : v ∈ vs) (m : Value) :
    ((∃ c, Offered w.records (undirect edges) (.int64 v) c) ∧
        Value.LeastAmong (Offered w.records (undirect edges) (.int64 v)) m ∧
        m.isBelow (.int64 (relaxed vs edges n v)) = true) ↔
      v ∈ fresh vs edges (n + 1) ∧ m = .int64 (relaxed vs edges (n + 1) v) := by
  constructor
  · rintro ⟨⟨c, hc⟩, hleast, hbelow⟩
    rcases (h.offered_iff hv c).1 hc with ⟨x, _, _, rfl⟩
    have hm : m.isNull = false := (hleast.le _ hc rfl).1
    rcases hleast.mem with rfl | hoffered
    · cases hm
    rcases (h.offered_iff hv m).1 hoffered with ⟨u, hu, hedge, rfl⟩
    rw [isBelow_int64, decide_eq_true_iff] at hbelow
    have hle : relaxed vs edges (n + 1) v ≤ relaxed vs edges n u := relaxed_succ_le_of_adjacent n hedge
    have hlt : relaxed vs edges (n + 1) v < relaxed vs edges n v := Int64.lt_of_le_of_lt hle hbelow
    rcases exists_fresh_neighbour hlt with ⟨u', hu', hedge', heq⟩
    have hle' := (hleast.le _ ((h.offered_iff hv _).2 ⟨u', hu', hedge', rfl⟩) rfl).2
    rw [isBelow_int64, decide_eq_false_iff_not, ← heq, Int64.not_lt] at hle'
    exact ⟨mem_fresh_succ.2 ⟨hv, hlt⟩, by rw [Int64.le_antisymm hle hle']⟩
  · rintro ⟨hfresh, rfl⟩
    have hlt := (mem_fresh_succ.1 hfresh).2
    rcases exists_fresh_neighbour hlt with ⟨u, hu, hedge, heq⟩
    have hoffered : Offered w.records (undirect edges) (.int64 v) (.int64 (relaxed vs edges (n + 1) v)) :=
      (h.offered_iff hv _).2 ⟨u, hu, hedge, by rw [heq]⟩
    refine ⟨⟨_, hoffered⟩, ⟨Or.inr hoffered, ?_⟩, ?_⟩
    · intro c hc _
      rcases (h.offered_iff hv c).1 hc with ⟨u', _, hedge', rfl⟩
      refine ⟨rfl, ?_⟩
      rw [isBelow_int64, decide_eq_false_iff_not, Int64.not_lt]
      exact relaxed_succ_le_of_adjacent n hedge'
    · rw [isBelow_int64, decide_eq_true_iff]
      exact hlt

/-! ## One round -/

theorem labelled_ne {n : Nat} {u v : Int64} (h : u ≠ v) : labelled vs edges n u ≠ labelled vs edges n v := by
  intro heq
  cases heq
  exact h rfl

theorem nodup_map_labelled {us : List Int64} (h : us.Nodup) (n : Nat) : (us.map (labelled vs edges n)).Nodup := by
  rw [List.nodup_map_iff_inj_on h]
  intro u _ v _ heq
  by_contra hne
  exact labelled_ne hne heq

/-- What a round improves are the labels that full relaxation lowers. -/
theorem Labelled.improved_perm (hvs : vs.Nodup) (h : Labelled vs edges n s w) {ctx : StepContext}
    (hsolution : ctx.solution = s) (hworkset : ctx.workset = w) {improved : List Record}
    (himproves : Improves ctx (undirect edges) improved) :
    improved.Perm ((fresh vs edges (n + 1)).map (labelled vs edges (n + 1))) := by
  subst hsolution hworkset
  rw [List.perm_ext_iff_of_nodup (nodup_of_vertices himproves.distinct)
    (nodup_map_labelled (nodup_fresh hvs (n + 1)) (n + 1))]
  intro r
  rw [himproves.mem_iff, List.mem_map]
  constructor
  · rintro ⟨x, m, rfl, _, hoffer, hleast, current, old, hprobe, hold, hbelow⟩
    rcases h.vertex_of_probe _ _ hprobe with ⟨v, hv, hx⟩
    cases hx
    cases (h.probe_eq v hv).symm.trans hprobe
    cases hold
    rcases (h.least_offer_iff hv m).1 ⟨hoffer, hleast, hbelow⟩ with ⟨hfresh, rfl⟩
    exact ⟨v, hfresh, rfl⟩
  · rintro ⟨v, hfresh, rfl⟩
    have hv := mem_of_mem_fresh hfresh
    rcases (h.least_offer_iff hv _).2 ⟨hfresh, rfl⟩ with ⟨hoffer, hleast, hbelow⟩
    exact ⟨_, _, rfl, rfl, hoffer, hleast, _, _, h.probe_eq v hv, rfl, hbelow⟩

/-- A round returns the labels that full relaxation lowers. -/
theorem Labelled.spreadLabels_eq (hvs : vs.Nodup) (h : Labelled vs edges n s w) (position : Position)
    {ctx : StepContext} (hsolution : ctx.solution = s) (hworkset : ctx.workset = w)
    (hready : Ready ctx (undirect edges)) :
    ∃ improved, spreadLabels position ctx = .ok (.unified improved) ∧
      improved.Perm ((fresh vs edges (n + 1)).map (labelled vs edges (n + 1))) := by
  rcases spreadLabels_spec position hready with ⟨improved, hstep, hdistinct, hmem⟩
  exact ⟨improved, hstep, h.improved_perm hvs hsolution hworkset ⟨hdistinct, hmem⟩⟩

/-- Among some labelled vertices a key finds those with its vertex. -/
theorem mem_withKey_labelled {us : List Int64} {rs : List Record} (hperm : rs.Perm (us.map (labelled vs edges n)))
    {k : Key} {r : Record} :
    r ∈ (KeySpec.field 0).withKey k rs ↔ ∃ v ∈ us, k = ⟨[.int64 v]⟩ ∧ r = labelled vs edges n v := by
  rw [KeySpec.mem_withKey, hperm.mem_iff, List.mem_map]
  constructor
  · rintro ⟨⟨v, hv, rfl⟩, hk⟩
    exact ⟨v, hv, (Except.ok.inj hk).symm, rfl⟩
  · rintro ⟨v, hv, rfl, rfl⟩
    exact ⟨⟨v, hv, rfl⟩, rfl⟩

theorem getLast?_withKey_labelled {us : List Int64} {rs : List Record}
    (hperm : rs.Perm (us.map (labelled vs edges n))) (v : Int64) :
    ((KeySpec.field 0).withKey ⟨[.int64 v]⟩ rs).getLast? = if v ∈ us then some (labelled vs edges n v) else none := by
  cases hlast : ((KeySpec.field 0).withKey ⟨[.int64 v]⟩ rs).getLast? with
  | none =>
      rw [List.getLast?_eq_none_iff] at hlast
      rw [if_neg]
      intro hv
      have hmem := (mem_withKey_labelled hperm).2 ⟨v, hv, rfl, rfl⟩
      rw [hlast] at hmem
      cases hmem
  | some r =>
      rcases (mem_withKey_labelled hperm).1 (List.mem_of_getLast? hlast) with ⟨u, hu, hk, rfl⟩
      cases hk
      rw [if_pos hu]

theorem covers_labelled {us : List Int64} {rs : List Record} (hperm : rs.Perm (us.map (labelled vs edges n))) :
    (KeySpec.field 0).Covers rs := by
  intro r hr
  rcases List.mem_map.1 (hperm.mem_iff.1 hr) with ⟨v, _, rfl⟩
  exact ⟨⟨[.int64 v]⟩, rfl⟩

/-- The lowered labels are written and are the next workset. -/
theorem Labelled.applyDelta (h : Labelled vs edges n s w) {improved : List Record}
    (hperm : improved.Perm ((fresh vs edges (n + 1)).map (labelled vs edges (n + 1)))) :
    ∃ s' summary, s.applyDelta improved = .ok (s', summary) ∧ Labelled vs edges (n + 1) s' (w.replace improved) := by
  have hcovers : s.key.Covers improved := by
    rw [h.key_eq]
    exact covers_labelled hperm
  rcases SolutionSet.applyDelta_of_covers hcovers with ⟨s', summary, hdelta⟩
  have hprobe := SolutionSet.probe_applyDelta hdelta
  rw [h.key_eq] at hprobe
  refine ⟨s', summary, hdelta, h.reachable.applyDelta hdelta, (SolutionSet.key_applyDelta hdelta).trans h.key_eq,
    ?_, ?_, hperm⟩
  · intro v hv
    rw [hprobe, getLast?_withKey_labelled hperm, h.probe_eq v hv]
    by_cases hfresh : v ∈ fresh vs edges (n + 1)
    · rw [if_pos hfresh]
      rfl
    · have hsame : relaxed vs edges (n + 1) v = relaxed vs edges n v :=
        relaxed_succ_eq_of_not_lt fun hlt => hfresh (mem_fresh_succ.2 ⟨hv, hlt⟩)
      rw [if_neg hfresh, Option.none_or, labelled, labelled, hsame]
  · intro k r hr
    rw [hprobe, Option.or_eq_some_iff] at hr
    rcases hr with hr | ⟨_, hr⟩
    · rcases (mem_withKey_labelled hperm).1 (List.mem_of_getLast? hr) with ⟨v, hv, rfl, _⟩
      exact ⟨v, mem_of_mem_fresh hv, rfl⟩
    · exact h.vertex_of_probe k r hr

variable (edges) in
/-- The seed records are the labels before the first round. -/
theorem labelled_seed (hvs : vs.Nodup) :
    ∃ s, SolutionSet.seed (initialLabels vs) (.field 0) = .ok s ∧
      Labelled vs edges 0 s (.seed (initialLabels vs)) := by
  have hperm : (initialLabels vs).Perm (vs.map (labelled vs edges 0)) := List.Perm.refl _
  have hdistinct : (initialLabels vs).Pairwise fun a b =>
      (KeySpec.field 0).extract a ≠ (KeySpec.field 0).extract b := by
    rw [initialLabels, List.pairwise_map]
    apply hvs.imp
    intro u v hne heq
    cases heq
    exact hne rfl
  rcases SolutionSet.seed_spec (covers_labelled hperm) hdistinct with ⟨s, hseed, hkey, hstores⟩
  have hprobe := hstores.probe_eq
  rw [hkey] at hprobe
  refine ⟨s, hseed, .seed hseed, hkey, ?_, ?_, hperm⟩
  · intro v hv
    rw [hprobe, getLast?_withKey_labelled hperm, if_pos hv]
  · intro k r hr
    rw [hprobe] at hr
    rcases (mem_withKey_labelled hperm).1 (List.mem_of_getLast? hr) with ⟨v, hv, rfl, _⟩
    exact ⟨v, hv, rfl⟩

/-- All records of a solution set are the labels of the vertices. -/
theorem Labelled.records_perm (hvs : vs.Nodup) (h : Labelled vs edges n s w) :
    s.records.Perm (vs.map (labelled vs edges n)) := by
  rcases h.reachable.stores with ⟨written, hwritten⟩
  rw [List.perm_ext_iff_of_nodup hwritten.nodup_records (nodup_map_labelled hvs n)]
  intro r
  rw [SolutionSet.mem_records, List.mem_map]
  constructor
  · rintro ⟨k, hk⟩
    rcases h.vertex_of_probe k r hk with ⟨v, hv, rfl⟩
    exact ⟨v, hv, Option.some.inj ((h.probe_eq v hv).symm.trans hk)⟩
  · rintro ⟨v, hv, rfl⟩
    exact ⟨_, h.probe_eq v hv⟩

end Labels

/-! ## The iteration -/

theorem validate_withKey {config : Config} (h : config.validate = .ok ()) (key : KeySpec) :
    { config with key := key }.validate = .ok () :=
  h

/-- The iteration over edges that have a field each is set up with the edges in both directions. -/
theorem componentsIteration_spec {edges : List Record} {config : Config} (hedges : ∀ e ∈ edges, 1 ≤ e.arity)
    (hvalid : config.validate = .ok ()) :
    ∃ input it, Index.build (undirect edges) (.field 0) = .ok input.index ∧
      componentsIteration edges config = .ok it ∧ it.config = { config with key := .field 0 } ∧
      it.cancelled = false ∧ it.sideInputs.get? edgesName = some input := by
  rcases Index.build_of_covers (covers_undirect hedges) with ⟨index, hindex⟩
  refine ⟨⟨edgesName, index⟩, ⟨{ config with key := .field 0 }, ⟨[⟨edgesName, index⟩]⟩, .seeding, false⟩, hindex,
    ?_, rfl, rfl, ?_⟩
  · rw [componentsIteration, SideInput.build, hindex]
    change (Iteration.new { config with key := .field 0 } >>= fun it => it.withSideInput ⟨edgesName, index⟩) = _
    rw [Iteration.new, validate_withKey hvalid]
    rfl
  · simp [SideInputs.get?]

section Runs

variable {vs : List Int64} {edges : List Record} {config : Config}

/-- A run that returns has set up an iteration with the edges in both directions. -/
theorem exists_iteration_of_connectedComponents {position : Position} {schedules : UInt32 → Nat → Schedule}
    {r : RunResult} (h : connectedComponents vs edges config position schedules = .ok r) :
    ∃ (input : SideInput) (it : Iteration), Index.build (undirect edges) (.field 0) = .ok input.index ∧
      it.config = { config with key := .field 0 } ∧ it.sideInputs.get? edgesName = some input ∧
      (it.runUnified (.ofFunction (spreadLabels position)) schedules (initialLabels vs)).outcome = .ok r := by
  simp only [connectedComponents, componentsIteration, SideInput.build, Iteration.new, bind_eq_ok_iff] at h
  rcases h with ⟨it, ⟨input, ⟨index, hindex, hinput⟩, new, ⟨_, _, hnew⟩, hit⟩, hrun⟩
  cases hinput
  cases hnew
  cases hit
  exact ⟨⟨edgesName, index⟩, _, hindex, rfl, rfl, hrun⟩

/-- What is counted in a round: the new labels before it, and those after it, which are written and left to the next
round. -/
def CountsFresh (vs : List Int64) (edges : List Record) (i : Nat) (stats : RoundStats) : Prop :=
  stats.worksetLength = (fresh vs edges i).length ∧ stats.deltaLength = (fresh vs edges (i + 1)).length ∧
    stats.nextWorksetLength = (fresh vs edges (i + 1)).length

/-- Once the lowered labels are written, the state is that of the next round, and the new labels before and after the
round have been counted. -/
theorem Labelled.completed {n : Nat} {s : SolutionSet} {w : Workset} (h : Labelled vs edges n s w)
    {improved : List Record} (hperm : improved.Perm ((fresh vs edges (n + 1)).map (labelled vs edges (n + 1)))) :
    ∃ s' summary, s.applyDelta improved = .ok (s', summary) ∧ Labelled vs edges (n + 1) s' (w.replace improved) ∧
      CountsFresh vs edges n (RoundStats.of w (.unified improved) summary) := by
  rcases h.applyDelta hperm with ⟨s', summary, hdelta, hnext⟩
  have hlength : improved.length = (fresh vs edges (n + 1)).length := by rw [hperm.length_eq, List.length_map]
  refine ⟨s', summary, hdelta, hnext, ?_, hlength, hlength⟩
  rw [← List.length_map (labelled vs edges n), ← h.workset_perm.length_eq]
  rfl

/-- A round of the iteration is completed and leads from the labels of full relaxation to the next ones. -/
theorem Labelled.round (hvs : vs.Nodup) {env : Surroundings} {input : SideInput}
    (hinput : env.sideInputs.get? edgesName = some input)
    (hindex : Index.build (undirect edges) (.field 0) = .ok input.index) (hlimit : env.fanoutLimit = none)
    (position : Position) {n : Nat} {s : SolutionSet} {w : Workset} (h : Labelled vs edges n s w) :
    ∃ out s' summary, Step.ofFunction (spreadLabels position) (env.context s w) = ⟨.ok out, false⟩ ∧
      s.applyDelta out.delta = .ok (s', summary) ∧ Labelled vs edges (n + 1) s' (w.replace out.next) ∧
      CountsFresh vs edges n (RoundStats.of w out summary) := by
  have hready : Ready (env.context s w) (undirect edges) := by
    exact ⟨⟨input, sideInput_eq_ok hinput, hindex⟩, hlimit, h.reachable, h.key_eq, covers_labelled h.workset_perm⟩
  rcases h.spreadLabels_eq hvs position rfl rfl hready with ⟨improved, hstep, hperm⟩
  rcases h.completed hperm with ⟨s', summary, hdelta, hnext, hcounts⟩
  refine ⟨.unified improved, s', summary, ?_, hdelta, hnext, hcounts⟩
  rw [Step.ofFunction, hstep]

/-- Every run has a result, with the labels of full relaxation after as many rounds as it has completed. -/
theorem connectedComponents_spec (hvs : vs.Nodup) (hedges : ∀ e ∈ edges, 1 ≤ e.arity)
    (hvalid : config.validate = .ok ()) (hlimit : config.fanoutLimit = none) (position : Position)
    (schedules : UInt32 → Nat → Schedule) :
    ∃ r s w, connectedComponents vs edges config position schedules = .ok r ∧
      Labelled vs edges r.rounds.toNat s w ∧ r.solution = s.records ∧ r.stats.length = r.rounds.toNat ∧
      (r.termination = .converged ∧ w.isEmpty = true ∨
        r.termination = .maxRoundsReached ∧ r.rounds = config.maxRounds) ∧
      ∀ i (hi : i < r.stats.length), CountsFresh vs edges i (r.stats[i]) := by
  rcases componentsIteration_spec hedges hvalid with ⟨input, it, hindex, hit, hconfig, hflag, hinput⟩
  rcases labelled_seed edges hvs with ⟨s, hseed, hlabelled⟩
  have hround : ∀ i s w, Labelled vs edges i s w → w.isEmpty = false → ∃ out s' summary,
      Step.ofFunction (spreadLabels position) ((it.surroundings schedules).context s w) = ⟨.ok out, false⟩ ∧
        s.applyDelta out.delta = .ok (s', summary) ∧ Labelled vs edges (i + 1) s' (w.replace out.next) ∧
        CountsFresh vs edges i (RoundStats.of w out summary) :=
    fun i s w h _ => h.round hvs hinput hindex (by rw [Iteration.surroundings, hconfig]; exact hlimit) position
  rcases completes_of_invariant hround it.config.maxRounds.toNat 0 hlabelled with
    ⟨n, hn, stats, s', w', hcompletes, hlabelled', hend, hcounts⟩
  have hrounds : w'.round.toNat = n :=
    (hcompletes.toNat_round (toNat_round_seed_add hn (initialLabels vs))).trans (Nat.zero_add n)
  have hmax : it.config.maxRounds = config.maxRounds := by rw [hconfig]
  have hseed' : SolutionSet.seed (initialLabels vs) it.config.key = .ok s := by
    rw [hconfig]
    exact hseed
  simp only [Nat.zero_add] at hlabelled' hcounts
  rw [← hrounds] at hlabelled'
  have hresult : ∀ t, StopsFor (it.surroundings schedules) (.ofFunction (spreadLabels position))
      it.config.maxRounds.toNat n false s' w' t →
      connectedComponents vs edges config position schedules = .ok ⟨s'.records, t, w'.round, stats, w'.size⟩ := by
    intro t hstops
    rw [connectedComponents, hit]
    exact it.outcome_of_completes hseed' hflag hcompletes hn hstops
  cases hwork : w'.isEmpty with
  | true =>
      exact ⟨_, s', w', hresult .converged hwork, hlabelled', rfl, hcompletes.length_stats.trans hrounds.symm,
        Or.inl ⟨rfl, hwork⟩, hcounts⟩
  | false =>
      refine ⟨_, s', w', hresult .maxRoundsReached ⟨hwork, hend hwork⟩, hlabelled', rfl,
        hcompletes.length_stats.trans hrounds.symm, Or.inr ⟨rfl, ?_⟩, hcounts⟩
      rw [← hmax]
      exact UInt32.toNat_inj.1 (hrounds.trans (hend hwork))

/-- Every run has a result, and if it has converged each vertex has one record, which labels it with the smallest vertex
that it is connected to. -/
theorem connectedComponents_of_converged (hvs : vs.Nodup) (hedges : ∀ e ∈ edges, 1 ≤ e.arity)
    (hvalid : config.validate = .ok ()) (hlimit : config.fanoutLimit = none) (position : Position)
    (schedules : UInt32 → Nat → Schedule) :
    ∃ r, connectedComponents vs edges config position schedules = .ok r ∧
      (r.termination = .converged → ∃ component : Int64 → Int64,
        (∀ v ∈ vs, IsLeast {u | u ∈ vs ∧ Connected vs edges u v} (component v)) ∧
          r.solution.Perm (vs.map fun v => vertexPair v (component v))) := by
  rcases connectedComponents_spec hvs hedges hvalid hlimit position schedules with
    ⟨r, s, w, hr, hlabelled, hsolution, _, hend, _⟩
  refine ⟨r, hr, ?_⟩
  intro hconverged
  have hempty : w.isEmpty = true := by
    rcases hend with ⟨_, hempty⟩ | ⟨hreached, _⟩
    · exact hempty
    · rw [hconverged] at hreached
      cases hreached
  have hfresh : fresh vs edges r.rounds.toNat = [] := by
    have hperm := hlabelled.workset_perm
    rw [List.isEmpty_iff.1 hempty, List.nil_perm, List.map_eq_nil_iff] at hperm
    exact hperm
  refine ⟨relaxed vs edges r.rounds.toNat, fun v hv => ?_, ?_⟩
  · exact relaxed_isLeast_connected (fun x _ => relaxed_stable_of_fresh_eq_nil hfresh x) hv
  · rw [hsolution]
    exact hlabelled.records_perm hvs

/-- A chain from three to one, a loop, an edge to no listed vertex, one without an end and one to nothing. -/
def sampleEdges : List Record :=
  [vertexPair 3 2, vertexPair 2 1, vertexPair 2 2, vertexPair 1 9, ⟨[.int64 5]⟩, .pair (.int64 5) .null]

/-- The run over these edges converges. -/
theorem connectedComponents_of_converged_sample :
    ∃ r, connectedComponents [3, 5, 2, 1] sampleEdges {} .second (fun _ _ => .inOrder) = .ok r ∧
      r.termination = .converged ∧ ∃ component : Int64 → Int64,
        (∀ v ∈ [3, 5, 2, 1], IsLeast {u | u ∈ [3, 5, 2, 1] ∧ Connected [3, 5, 2, 1] sampleEdges u v} (component v)) ∧
          r.solution.Perm ([3, 5, 2, 1].map fun v => vertexPair v (component v)) := by
  rcases @connectedComponents_of_converged [3, 5, 2, 1] sampleEdges {} (by decide) (by decide) rfl rfl .second
    (fun _ _ => .inOrder) with ⟨r, hr, hconverged⟩
  have hend : (match connectedComponents [3, 5, 2, 1] sampleEdges {} .second (fun _ _ => .inOrder) with
      | .ok r => decide (r.termination = .converged)
      | .error _ => false) = true := by
    decide +kernel
  rw [hr] at hend
  exact ⟨r, hr, of_decide_eq_true hend, hconverged (of_decide_eq_true hend)⟩

/-- Every run has the labels of full relaxation after as many rounds as it has completed, which are the least vertices
within that many hops.  Each completed round writes as many records as there are vertices whose least vertex within one
hop more is smaller, and leaves as many to the next round. -/
theorem connectedComponents_rounds (hvs : vs.Nodup) (hedges : ∀ e ∈ edges, 1 ≤ e.arity)
    (hvalid : config.validate = .ok ()) (hlimit : config.fanoutLimit = none) (position : Position)
    (schedules : UInt32 → Nat → Schedule) :
    (∀ n, ∀ v ∈ vs, IsLeast {u | u ∈ vs ∧ Within vs edges n u v} (relaxed vs edges n v)) ∧
    ∃ r, connectedComponents vs edges config position schedules = .ok r ∧ r.termination ≠ .cancelled ∧
      r.solution.Perm (vs.map fun v => vertexPair v (relaxed vs edges r.rounds.toNat v)) ∧
      r.stats.length = r.rounds.toNat ∧
      ∀ i (hi : i < r.stats.length),
        (r.stats[i]).deltaLength =
            vs.countP (fun v => decide (relaxed vs edges (i + 1) v < relaxed vs edges i v)) ∧
          (r.stats[i]).nextWorksetLength =
            vs.countP (fun v => decide (relaxed vs edges (i + 1) v < relaxed vs edges i v)) := by
  refine ⟨fun n v hv => relaxed_isLeast n hv, ?_⟩
  rcases connectedComponents_spec hvs hedges hvalid hlimit position schedules with
    ⟨r, s, w, hr, hlabelled, hsolution, hlength, hend, hcounts⟩
  refine ⟨r, hr, ?_, ?_, hlength, ?_⟩
  · intro hcancelled
    rcases hend with ⟨h, _⟩ | ⟨h, _⟩
    · rw [hcancelled] at h
      cases h
    · rw [hcancelled] at h
      cases h
  · rw [hsolution]
    exact hlabelled.records_perm hvs
  · intro i hi
    rcases hcounts i hi with ⟨_, hdelta, hnext⟩
    rw [fresh, ← List.countP_eq_length_filter] at hdelta hnext
    exact ⟨hdelta, hnext⟩

/-- A chain of four vertices cut short after two rounds. -/
theorem connectedComponents_rounds_cut_short :
    let vs : List Int64 := [1, 2, 3, 4]
    let edges : List Record := [vertexPair 1 2, vertexPair 2 3, vertexPair 3 4]
    (∀ n, ∀ v ∈ vs, IsLeast {u | u ∈ vs ∧ Within vs edges n u v} (relaxed vs edges n v)) ∧
    ∃ r, connectedComponents vs edges (.ofMaxRounds 2) .first (fun _ _ => .inOrder) = .ok r ∧
      r.termination ≠ .cancelled ∧
      r.solution.Perm (vs.map fun v => vertexPair v (relaxed vs edges r.rounds.toNat v)) ∧
      r.stats.length = r.rounds.toNat ∧
      ∀ i (hi : i < r.stats.length),
        (r.stats[i]).deltaLength =
            vs.countP (fun v => decide (relaxed vs edges (i + 1) v < relaxed vs edges i v)) ∧
          (r.stats[i]).nextWorksetLength =
            vs.countP (fun v => decide (relaxed vs edges (i + 1) v < relaxed vs edges i v)) :=
  connectedComponents_rounds (by decide) (by decide) rfl rfl .first _

end Runs

end Graph

end WorksetIteration
