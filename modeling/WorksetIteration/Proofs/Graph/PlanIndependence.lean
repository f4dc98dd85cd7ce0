import WorksetIteration.Proofs.Agreement
import WorksetIteration.Proofs.Graph.LabelSpreading

/-!
# Connected components by other plans

The position of the solution set in the last join of a round, the number of workers, the way in which keys are dealt to
them and the moves of the workers have no part in the outcome of a run.  They reorder the offers and the worksets of
all later rounds, and no operator of a round looks at more than the records in them: how many pairs match, which offer
to a vertex is the least, and whether it is accepted.

Main results:

- `Comparable`: two rounds on the same records.
- `spreadLabels_agree`: two such rounds return the same records, or both exceed the limit of a join.
- `connectedComponents_planIndependent`: two runs have one result, or fail in one round for reasons of one kind.
-/

namespace WorksetIteration

namespace Graph

/-! ## Two rounds -/

/-- Two rounds on the same records: they read the same edges and have one limit, their solution sets are alike, and
their worksets are permutations of each other. -/
structure Comparable (ctx ctx' : StepContext) (edges : List Record) (input : SideInput) : Prop where
  /-- The first round reads the edges. -/
  registered_left : ctx.sideInput edgesName = .ok input
  /-- So does the other. -/
  registered_right : ctx'.sideInput edgesName = .ok input
  /-- The edges are stored by their start. -/
  build_eq : Index.build edges (.field 0) = .ok input.index
  /-- The joins have one limit. -/
  limit_eq : ctx.fanoutLimit = ctx'.fanoutLimit
  /-- The solution sets are alike. -/
  solution : ctx.solution.Alike ctx'.solution
  /-- They are stored by vertex. -/
  key_eq : ctx.solution.key = .field 0
  /-- The worksets have the same records. -/
  workset_perm : ctx.workset.records.Perm ctx'.workset.records
  /-- Every record of them has a vertex. -/
  covers : (KeySpec.field 0).Covers ctx.workset.records

section Operators

variable {ctx ctx' : StepContext} {edges : List Record} {input : SideInput}

theorem Comparable.overruns_iff (h : Comparable ctx ctx' edges input) {pairs pairs' : Nat} (heq : pairs = pairs') :
    (ctx.join (.field 0) (.field 0)).Overruns pairs ↔ (ctx'.join (.field 0) (.field 0)).Overruns pairs' :=
  overruns_iff_of_limit h.limit_eq heq

/-- Joins agree that exceed their limits together and otherwise return outputs in the given relation. -/
theorem agree_of_overruns {exceeds exceeds' : Prop} (hiff : exceeds ↔ exceeds') {x y : Except Error (List Record)}
    {R : List Record → List Record → Prop} {A B : List Record → Prop}
    (hx : exceeds → ∃ limit k, x = .error (.fanoutExceeded limit k))
    (hy : exceeds' → ∃ limit k, y = .error (.fanoutExceeded limit k))
    (hx' : ¬exceeds → ∃ out, x = .ok out ∧ A out) (hy' : ¬exceeds' → ∃ out, y = .ok out ∧ B out)
    (hout : ∀ out out', A out → B out' → R out out') : Agree R x y := by
  by_cases h : exceeds
  · rcases hx h with ⟨limit, k, rfl⟩
    rcases hy (hiff.1 h) with ⟨limit', k', rfl⟩
    exact .error (.fanoutExceeded limit limit' k k')
  · rcases hx' h with ⟨out, rfl, ha⟩
    rcases hy' (mt hiff.2 h) with ⟨out', rfl, hb⟩
    exact .ok (hout out out' ha hb)

/-- The first joins return the same offers, or both exceed the limit. -/
theorem offers_agree (h : Comparable ctx ctx' edges input) :
    Agree (fun candidates candidates' => candidates.Perm candidates' ∧ ∀ r ∈ candidates, ∃ n c, r = .pair n c)
      (offers ctx input) (offers ctx' input) := by
  have hpairs := (ctx.join (.field 0) (.field 0)).pairsByLeft_perm h.workset_perm (List.Perm.refl edges)
  have hleft : ctx.workset.toOperand.Has (.field 0) ctx.workset.records := .records h.covers
  have hleft' : ctx'.workset.toOperand.Has (.field 0) ctx'.workset.records := .records (h.covers.perm h.workset_perm)
  have hright : input.toOperand.Has (.field 0) edges := .index h.build_eq
  have hlimits := h.overruns_iff hpairs.length_eq
  refine agree_of_overruns hlimits (fun hover => Join.execute_of_overruns hleft hright hover (ctx.schedule 0) offer)
    (fun hover => Join.execute_of_overruns hleft' hright hover (ctx'.schedule 0) offer)
    (fun hover => Join.execute_of_not_overruns hleft hright hover (ctx.schedule 0) offer)
    (fun hover => Join.execute_of_not_overruns hleft' hright hover (ctx'.schedule 0) offer) ?_
  intro candidates candidates' hperm hperm'
  refine ⟨hperm.trans ((hpairs.filterMap _).trans hperm'.symm), ?_⟩
  intro r hr
  rcases List.mem_filterMap.1 (hperm.mem_iff.1 hr) with ⟨pair, _, hoffer⟩
  rcases offer_eq_some_iff.1 hoffer with ⟨n, c, _, _, rfl⟩
  exact ⟨n, c, rfl⟩

/-- The aggregates return the same least offers, of which each is to another vertex. -/
theorem leastOffers_agree (ctx ctx' : StepContext) {candidates candidates' : List Record}
    (hperm : candidates.Perm candidates') (hpairs : ∀ r ∈ candidates, ∃ n c, r = .pair n c) :
    Agree (fun best best' => best.Perm best' ∧ (best.Pairwise fun a b => a.get? 0 ≠ b.get? 0) ∧
        ∀ r ∈ best, ∃ n c, r = .pair n c)
      (leastOffers ctx candidates) (leastOffers ctx' candidates') := by
  have hpairs' : ∀ r ∈ candidates', ∃ n c, r = .pair n c := fun r hr => hpairs r (hperm.mem_iff.2 hr)
  rcases @leastOffers_spec ctx candidates hpairs with ⟨best, hbest, hdistinct, hmem⟩
  rcases @leastOffers_spec ctx' candidates' hpairs' with ⟨best', hbest', hdistinct', hmem'⟩
  rw [hbest, hbest']
  refine .ok ⟨?_, hdistinct, ?_⟩
  · rw [List.perm_ext_iff_of_nodup (nodup_of_vertices hdistinct) (nodup_of_vertices hdistinct')]
    intro r
    rw [hmem, hmem']
    simp only [hperm.mem_iff]
  · intro r hr
    rcases (hmem r).1 hr with ⟨n, m, rfl, _⟩
    exact ⟨n, m, rfl⟩

theorem accepted_congr {s s' : SolutionSet} (h : s.Alike s') (candidate : Record) :
    Accepted s candidate ↔ Accepted s' candidate := by
  unfold Accepted
  simp only [h.probe_eq]

/-- The second joins return the same accepted offers, or both exceed the limit, for any positions of the solution
sets. -/
theorem improvements_agree (position position' : Position) (h : Comparable ctx ctx' edges input)
    {best best' : List Record} (hperm : best.Perm best') (hbest : (KeySpec.field 0).Covers best) :
    Agree (fun improved improved' => improved.Perm improved' ∧ ∃ chosen : List Record, improved.Perm chosen ∧
        chosen.Sublist best)
      (improvements position ctx best) (improvements position' ctx' best') := by
  classical
  have hbest' := hbest.perm hperm
  have hkey' : ctx'.solution.key = .field 0 := h.solution.key_eq.symm.trans h.key_eq
  have hcount : storedPairs ctx best = storedPairs ctx' best' :=
    (Join.pairsByLeft_perm _ hperm h.solution.records_perm).length_eq
  have hsolution := h.solution.reachable_left
  have hsolution' := h.solution.reachable_right
  refine agree_of_overruns (h.overruns_iff hcount) (improvements_of_overruns position hsolution h.key_eq hbest)
    (improvements_of_overruns position' hsolution' hkey' hbest')
    (improvements_of_not_overruns position hsolution h.key_eq hbest)
    (improvements_of_not_overruns position' hsolution' hkey' hbest') ?_
  intro improved improved' hchosen hchosen'
  refine ⟨?_, _, hchosen, List.filter_sublist⟩
  simp only [← accepted_congr h.solution] at hchosen'
  exact hchosen.trans ((hperm.filter _).trans hchosen'.symm)

/-- Two rounds on the same records return the same records, of which each is about another vertex, or both exceed the
limit of a join. -/
theorem spreadLabels_agree (position position' : Position) (h : Comparable ctx ctx' edges input) :
    Agree (fun out out' => ∃ improved improved' : List Record, out = .unified improved ∧ out' = .unified improved' ∧
        improved.Perm improved' ∧ (KeySpec.field 0).Covers improved ∧
        improved.Pairwise fun a b => (KeySpec.field 0).extract a ≠ (KeySpec.field 0).extract b)
      (spreadLabels position ctx) (spreadLabels position' ctx') := by
  rw [spreadLabels, spreadLabels, h.registered_left, h.registered_right]
  refine (offers_agree h).bind ?_
  rintro candidates candidates' ⟨hcandidates, hpairs⟩
  refine (leastOffers_agree ctx ctx' hcandidates hpairs).bind ?_
  rintro best best' ⟨hbest, hdistinct, hbestPairs⟩
  refine (improvements_agree position position' h hbest (KeySpec.covers_of_pairs hbestPairs)).bind ?_
  rintro improved improved' ⟨himproved, chosen, hchosen, hsublist⟩
  have hmem : ∀ r ∈ improved, ∃ n c, r = .pair n c := fun r hr => hbestPairs r (hsublist.subset (hchosen.mem_iff.1 hr))
  have hvertices : improved.Pairwise fun a b => a.get? 0 ≠ b.get? 0 :=
    (hchosen.pairwise_iff fun hne => hne.symm).2 (hdistinct.sublist hsublist)
  have hcovers : (KeySpec.field 0).Covers improved := KeySpec.covers_of_pairs hmem
  exact .ok ⟨improved, improved', rfl, rfl, himproved, hcovers, pairwise_extract_of_vertices hcovers hvertices⟩

end Operators

/-! ## Two runs -/

/-- The states of two runs between the same rounds: they are alike, and have the vertex as their key. -/
structure BetweenRounds (s : SolutionSet) (w : Workset) (s' : SolutionSet) (w' : Workset) : Prop extends
    StatesAlike s w s' w' where
  /-- The solution sets are stored by vertex. -/
  key_eq : s.key = .field 0
  /-- Every record of the worksets has a vertex. -/
  covers : (KeySpec.field 0).Covers w.records

theorem covers_initialLabels (vs : List Int64) : (KeySpec.field 0).Covers (initialLabels vs) := by
  apply KeySpec.covers_of_pairs
  intro r hr
  rcases List.mem_map.1 hr with ⟨v, _, rfl⟩
  exact ⟨_, _, rfl⟩

/-- Two runs start alike from the labels of the vertices. -/
theorem betweenRounds_seed {vs : List Int64} {s : SolutionSet}
    (h : SolutionSet.seed (initialLabels vs) (.field 0) = .ok s) :
    BetweenRounds s (.seed (initialLabels vs)) s (.seed (initialLabels vs)) where
  solution := .refl (.seed h)
  round_eq := rfl
  workset_perm := List.Perm.refl _
  key_eq := (SolutionSet.stores_of_seed h).1
  covers := covers_initialLabels vs

/-- What two rounds return is written alike, and leads to states alike. -/
theorem BetweenRounds.next {s s' : SolutionSet} {w w' : Workset} (h : BetweenRounds s w s' w')
    {improved improved' : List Record} (hperm : improved.Perm improved') (hcovers : (KeySpec.field 0).Covers improved)
    (hdistinct : improved.Pairwise fun a b => (KeySpec.field 0).extract a ≠ (KeySpec.field 0).extract b) :
    ∃ t t' summary, s.applyDelta improved = .ok (t, summary) ∧ s'.applyDelta improved' = .ok (t', summary) ∧
      BetweenRounds t (w.replace improved) t' (w'.replace improved') := by
  rcases h.solution.applyDelta hperm (h.key_eq ▸ hcovers) (h.key_eq ▸ hdistinct) with
    ⟨t, t', summary, hdelta, hdelta', halike⟩
  refine ⟨t, t', summary, hdelta, hdelta', ⟨halike, ?_, hperm⟩, ?_, hcovers⟩
  · rw [Workset.round_replace, Workset.round_replace, h.round_eq]
  · rw [SolutionSet.key_applyDelta hdelta, h.key_eq]

/-- An iteration with another number of workers. -/
def withParallelism (it : Iteration) (parallelism : UInt64) : Iteration :=
  { it with config := { it.config with parallelism := parallelism } }

theorem validate_withParallelism (config : Config) {p q : UInt64} (hp : 1 ≤ p) (hq : 1 ≤ q) :
    { config with parallelism := p }.validate = { config with parallelism := q }.validate := by
  have hp' : p ≠ 0 := by rintro rfl; exact absurd hp (by decide)
  have hq' : q ≠ 0 := by rintro rfl; exact absurd hq (by decide)
  simp only [Config.validate, hp', hq', if_false]

/-- Iterations over the same edges are set up alike with any number of workers, or refused alike. -/
theorem componentsIteration_agree (edges : List Record) (config : Config) {p q : UInt64} (hp : 1 ≤ p) (hq : 1 ≤ q) :
    Agree (fun it it' => it' = withParallelism it q ∧ it.config.key = .field 0 ∧ it.cancelled = false ∧
        ∃ input, it.sideInputs.get? edgesName = some input ∧ Index.build (undirect edges) (.field 0) = .ok input.index)
      (componentsIteration edges { config with parallelism := p })
      (componentsIteration edges { config with parallelism := q }) := by
  rw [componentsIteration, componentsIteration, SideInput.build]
  cases hindex : Index.build (undirect edges) (.field 0) with
  | error e => exact .error (.refl e)
  | ok index =>
      have hvalidate := validate_withParallelism { config with key := .field 0 } hp hq
      change Agree _ (Iteration.new { config with key := .field 0, parallelism := p } >>= fun it =>
          it.withSideInput ⟨edgesName, index⟩)
        (Iteration.new { config with key := .field 0, parallelism := q } >>= fun it =>
          it.withSideInput ⟨edgesName, index⟩)
      rw [Iteration.new, Iteration.new, ← hvalidate]
      cases Config.validate { config with key := .field 0, parallelism := p } with
      | error e => exact .error (.refl e)
      | ok _ => exact .ok ⟨rfl, rfl, rfl, ⟨edgesName, index⟩, by simp [SideInputs.get?], rfl⟩

/-- Two runs over the same vertices and edges agree, whichever positions the solution set has, however many workers
there are and however they are dealt keys and move: they have one result up to the order of its records, or both fail
with errors of one kind, in one round and for reasons of one kind if a round has failed. -/
theorem connectedComponents_planIndependent (vs : List Int64) (edges : List Record) (config : Config)
    (position position' : Position) {p q : UInt64} (hp : 1 ≤ p) (hq : 1 ≤ q)
    (schedules schedules' : UInt32 → Nat → Schedule) :
    Agree RunResult.Alike (connectedComponents vs edges { config with parallelism := p } position schedules)
      (connectedComponents vs edges { config with parallelism := q } position' schedules') := by
  rw [connectedComponents, connectedComponents]
  refine (componentsIteration_agree edges config hp hq).bind ?_
  rintro it _ ⟨rfl, hkey, hflag, input, hinput, hindex⟩
  refine Iteration.run_agree BetweenRounds ?key ?bound hflag hflag ?seed ?alike ?round
  case key => rfl
  case bound => rfl
  case seed =>
    intro s hseed
    rw [hkey] at hseed
    exact betweenRounds_seed hseed
  case alike => exact fun s w s' w' h => h.toStatesAlike
  case round =>
    intro s w s' w' h
    have hcomparable : Comparable ((it.surroundings schedules).context s w)
        (((withParallelism it q).surroundings schedules').context s' w') (undirect edges) input :=
      ⟨sideInput_eq_ok hinput, sideInput_eq_ok hinput, hindex, rfl, h.solution, h.key_eq, h.workset_perm, h.covers⟩
    refine (spreadLabels_agree position position' hcomparable).imp ?_
    rintro _ _ ⟨improved, improved', rfl, rfl, hperm, hcovers, hdistinct⟩
    exact ⟨hperm.length_eq, h.next hperm hcovers hdistinct⟩

/-- A path of three vertices cut short after one round, within the limit of its joins and beyond it, with one worker and
with three of which the last moves first. -/
theorem connectedComponents_planIndependent_of_limits :
    let edges : List Record := [vertexPair 1 2, vertexPair 2 3]
    let config (limit : UInt64) : Config := { maxRounds := 1, fanoutLimit := some limit }
    let mixed : UInt32 → Nat → Schedule := fun _ _ => ⟨fun _ => 2, fun k => k.code / 3⟩
    let single (limit : UInt64) :=
      connectedComponents [1, 2, 3] edges { config limit with parallelism := 1 } .first fun _ _ => .inOrder
    let shared (limit : UInt64) :=
      connectedComponents [1, 2, 3] edges { config limit with parallelism := 3 } .second mixed
    (single 4).isOk = true ∧ Agree RunResult.Alike (single 4) (shared 4) ∧
      (single 3).isOk = false ∧ Agree RunResult.Alike (single 3) (shared 3) := by
  intro edges config mixed single shared
  exact ⟨by decide +kernel, connectedComponents_planIndependent _ _ (config 4) _ _ (by decide) (by decide) _ _,
    by decide +kernel, connectedComponents_planIndependent _ _ (config 3) _ _ (by decide) (by decide) _ _⟩

end Graph

end WorksetIteration
