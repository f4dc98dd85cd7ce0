import WorksetIteration.Graph.Components
import WorksetIteration.Proofs.Aggregate
import WorksetIteration.Proofs.Outcome

/-!
# One round of spreading labels

What a round computes for any records whatever: the workset offers labels along the edges, each vertex keeps the least
offer, and the offers below the labels of the solution set are the output.  A round that succeeds has not come to the
limit of its two joins, and what it computes does not depend on the limit.

Main results:

- `Offered`: the offers of a round.
- `offers_of_not_overruns`, `leastOffers_spec`, `improvements_of_not_overruns`: what the three operators of a round
  return.
- `WithinLimits`: a round whose joins are within the limit.
- `spreadLabels_of_withinLimits`, `withinLimits_of_spreadLabels`: such a round succeeds, with its improvements, and no
  other one does.
- `spreadLabels_spec`: what a round without a limit returns.
-/

namespace WorksetIteration

namespace Graph

/-! ## Offers -/

/-- A label is offered to a vertex: by a record of the workset that has it, along an edge that starts at the vertex of
that record. -/
def Offered (workset edges : List Record) (n c : Value) : Prop :=
  ∃ w ∈ workset, ∃ e ∈ edges, ∃ v, v.isNull = false ∧ w.get? 0 = some v ∧ e.get? 0 = some v ∧
    e.get? 1 = some n ∧ w.get? 1 = some c

/-- What a round relies on: the edges are registered, joins have no limit, and the solution set and the workset have
the vertex as their key. -/
structure Ready (ctx : StepContext) (edges : List Record) : Prop where
  /-- The edges are registered by their start. -/
  registered : ∃ input, ctx.sideInput edgesName = .ok input ∧ Index.build edges (.field 0) = .ok input.index
  /-- Joins have no limit. -/
  unlimited : ctx.fanoutLimit = none
  /-- The solution set was made by seeding and by deltas. -/
  reachable : ctx.solution.Reachable
  /-- It is stored by vertex. -/
  key_eq : ctx.solution.key = .field 0
  /-- Every record of the workset has a vertex. -/
  covers : (KeySpec.field 0).Covers ctx.workset.records

theorem sideInput_eq_ok {ctx : StepContext} {name : String} {input : SideInput}
    (h : ctx.sideInputs.get? name = some input) : ctx.sideInput name = .ok input := by
  rw [StepContext.sideInput, h]

/-- Joins with one limit exceed it together where they have as many pairs. -/
theorem overruns_iff_of_limit {ctx ctx' : StepContext} (hlimit : ctx.fanoutLimit = ctx'.fanoutLimit)
    {pairs pairs' : Nat} (heq : pairs = pairs') :
    (ctx.join (.field 0) (.field 0)).Overruns pairs ↔ (ctx'.join (.field 0) (.field 0)).Overruns pairs' := by
  unfold Join.Overruns StepContext.join
  rw [hlimit, heq]

/-- Records match in the joins of a round if they have one vertex, and it is not missing. -/
theorem matched_field_iff {ctx : StepContext} {l r : Record} :
    (ctx.join (.field 0) (.field 0)).matched l r = true ↔
      ∃ v : Value, v.isNull = false ∧ l.get? 0 = some v ∧ r.get? 0 = some v := by
  rw [Join.matched_iff]
  constructor
  · rintro ⟨k, hl, hr, hk⟩
    rcases KeySpec.extract_field_eq_ok_iff.1 hl with ⟨v, hlv, rfl⟩
    rcases KeySpec.extract_field_eq_ok_iff.1 hr with ⟨w, hrw, hvw⟩
    cases hvw
    rw [Key.hasNull_singleton] at hk
    exact ⟨v, hk, hlv, hrw⟩
  · rintro ⟨v, hv, hl, hr⟩
    rw [← Key.hasNull_singleton] at hv
    exact ⟨⟨[v]⟩, KeySpec.extract_field_eq_ok_iff.2 ⟨v, hl, rfl⟩, KeySpec.extract_field_eq_ok_iff.2 ⟨v, hr, rfl⟩, hv⟩

theorem offer_eq_some_iff {vertex edge r : Record} :
    offer vertex edge = some r ↔ ∃ n c, edge.get? 1 = some n ∧ vertex.get? 1 = some c ∧ r = .pair n c := by
  unfold offer
  cases edge.get? 1 with
  | none => simp
  | some n => cases vertex.get? 1 <;> simp [eq_comm]

/-- The number of pairs of the first join of a round. -/
def offerPairs (ctx : StepContext) (edges : List Record) : Nat :=
  ((ctx.join (.field 0) (.field 0)).pairsByLeft ctx.workset.records edges).length

/-- The first join of a round returns the offers, unless it has more pairs than the limit allows. -/
theorem offers_of_not_overruns {ctx : StepContext} {edges : List Record} {input : SideInput}
    (hindex : Index.build edges (.field 0) = .ok input.index) (hcovers : (KeySpec.field 0).Covers ctx.workset.records)
    (h : ¬(ctx.join (.field 0) (.field 0)).Overruns (offerPairs ctx edges)) :
    ∃ candidates, offers ctx input = .ok candidates ∧
      ∀ r, r ∈ candidates ↔ ∃ n c, Offered ctx.workset.records edges n c ∧ r = .pair n c := by
  rcases Join.execute_of_not_overruns (.records hcovers) (.index hindex) h (ctx.schedule 0) offer with
    ⟨candidates, hcandidates, hperm⟩
  refine ⟨candidates, hcandidates, ?_⟩
  intro r
  rw [hperm.mem_iff, List.mem_filterMap]
  constructor
  · rintro ⟨⟨w, e⟩, hpair, hr⟩
    rw [Join.mem_pairsByLeft, matched_field_iff] at hpair
    rcases hpair with ⟨⟨hw, he⟩, v, hnull, hwv, hev⟩
    rcases offer_eq_some_iff.1 hr with ⟨n, c, hn, hc, rfl⟩
    exact ⟨n, c, ⟨w, hw, e, he, v, hnull, hwv, hev, hn, hc⟩, rfl⟩
  · rintro ⟨n, c, ⟨w, hw, e, he, v, hnull, hwv, hev, hn, hc⟩, rfl⟩
    refine ⟨⟨w, e⟩, ?_, offer_eq_some_iff.2 ⟨n, c, hn, hc, rfl⟩⟩
    rw [Join.mem_pairsByLeft, matched_field_iff]
    exact ⟨⟨hw, he⟩, v, hnull, hwv, hev⟩

/-- If it returns, each record of the workset has a vertex, and the pairs are within the limit. -/
theorem not_overruns_of_offers {ctx : StepContext} {edges candidates : List Record} {input : SideInput}
    (hindex : Index.build edges (.field 0) = .ok input.index) (h : offers ctx input = .ok candidates) :
    (KeySpec.field 0).Covers ctx.workset.records ∧
      ¬(ctx.join (.field 0) (.field 0)).Overruns (offerPairs ctx edges) := by
  have hcovers : (KeySpec.field 0).Covers ctx.workset.records := (Join.fits_of_execute h).1
  refine ⟨hcovers, ?_⟩
  intro hover
  rcases Join.execute_of_overruns (.records hcovers) (.index hindex) hover (ctx.schedule 0) offer with
    ⟨limit, k, hexceeded⟩
  cases h.symm.trans hexceeded

/-! ## Least offers -/

section LeastOffers

variable {ctx : StepContext} {candidates : List Record}

/-- What the aggregate of a round makes of the offers to one vertex. -/
theorem summaryOf_eq_some_iff (hpairs : ∀ r ∈ candidates, ∃ n c, r = .pair n c) (k : Key) (r : Record) :
    (ctx.aggregate (.field 0) 1 .min).summaryOf candidates k = some r ↔
      ∃ n m, k = ⟨[n]⟩ ∧ r = .pair n m ∧ (∃ c, Record.pair n c ∈ candidates) ∧
        Value.LeastAmong (fun c => .pair n c ∈ candidates) m := by
  have hfield : ∀ k, ∀ x ∈ (KeySpec.field 0).withKey k candidates, ∃ v, x.get? 1 = some v := by
    intro k x hx
    rcases hpairs x (KeySpec.mem_withKey.1 hx).1 with ⟨n, c, rfl⟩
    exact ⟨c, rfl⟩
  have hwith : ∀ n c, Record.pair n c ∈ (KeySpec.field 0).withKey ⟨[n]⟩ candidates ↔ Record.pair n c ∈ candidates :=
    fun n c => KeySpec.mem_withKey.trans (and_iff_left rfl)
  cases hk : (KeySpec.field 0).withKey k candidates with
  | nil =>
      have hempty : (ctx.aggregate (.field 0) 1 .min).enterAll none ((KeySpec.field 0).withKey k candidates) =
          .ok none := by
        rw [hk]
        rfl
      have hsummary : (ctx.aggregate (.field 0) 1 .min).summaryOf candidates k = none :=
        Aggregate.summaryOf_of_enterAll hempty
      rw [hsummary]
      constructor
      · rintro ⟨⟩
      · rintro ⟨n, m, rfl, _, ⟨c, hc⟩, _⟩
        rw [← hwith, hk] at hc
        cases hc
  | cons first rest =>
      have hfirst := KeySpec.mem_withKey.1 (hk ▸ List.mem_cons_self : first ∈ (KeySpec.field 0).withKey k candidates)
      rcases hpairs first hfirst.1 with ⟨n, c, rfl⟩
      obtain rfl : ⟨[n]⟩ = k := Except.ok.inj hfirst.2
      rcases Aggregate.enterAll_none_min (a := ctx.aggregate (.field 0) 1 .min) rfl (hk ▸ hfield ⟨[n]⟩) with
        ⟨m, hm, hleast⟩
      have hvalue : ∀ v, (∃ x ∈ Record.pair n c :: rest, x.get? 1 = some v) ↔ .pair n v ∈ candidates := by
        intro v
        rw [← hk, ← hwith]
        constructor
        · rintro ⟨x, hx, hv⟩
          have hmem := KeySpec.mem_withKey.1 hx
          rcases hpairs x hmem.1 with ⟨n', c', rfl⟩
          cases hmem.2
          cases hv
          exact hx
        · intro hv
          exact ⟨_, hv, rfl⟩
      have hamong : Value.LeastAmong (fun c => .pair n c ∈ candidates) m :=
        ⟨hleast.mem.imp_right (hvalue m).1, fun v hv => hleast.le v ((hvalue v).2 hv)⟩
      rw [← hk] at hm
      have hsummary : (ctx.aggregate (.field 0) 1 .min).summaryOf candidates ⟨[n]⟩ = some (.pair n m) :=
        Aggregate.summaryOf_of_enterAll hm
      rw [hsummary, Option.some.injEq]
      constructor
      · rintro rfl
        exact ⟨n, m, rfl, rfl, ⟨c, hfirst.1⟩, hamong⟩
      · rintro ⟨n', m', hn, rfl, _, hamong'⟩
        cases hn
        rw [hamong.unique hamong']

/-- The aggregate of a round returns the least offer to each vertex that has one. -/
theorem leastOffers_spec (hpairs : ∀ r ∈ candidates, ∃ n c, r = .pair n c) :
    ∃ best, leastOffers ctx candidates = .ok best ∧ (best.Pairwise fun a b => a.get? 0 ≠ b.get? 0) ∧
      ∀ r, r ∈ best ↔ ∃ n m, r = .pair n m ∧ (∃ c, Record.pair n c ∈ candidates) ∧
        Value.LeastAmong (fun c => .pair n c ∈ candidates) m := by
  have hcovers : (KeySpec.field 0).Covers candidates := KeySpec.covers_of_pairs hpairs
  have hfield : ∀ r ∈ candidates, ∃ v, r.get? 1 = some v := by
    intro r hr
    rcases hpairs r hr with ⟨n, c, rfl⟩
    exact ⟨c, rfl⟩
  rcases Aggregate.execute_spec (a := ctx.aggregate (.field 0) 1 .min) (ctx.schedule 1) hcovers
    (Aggregate.completable_min rfl hfield) with ⟨best, hbest, keys, hnodup, hmem, rfl⟩
  refine ⟨_, hbest, ?_, ?_⟩
  · rw [List.pairwise_filterMap]
    apply hnodup.imp
    intro k k' hne r hr r' hr' heq
    rcases (summaryOf_eq_some_iff hpairs k r).1 hr with ⟨n, m, rfl, rfl, _⟩
    rcases (summaryOf_eq_some_iff hpairs k' r').1 hr' with ⟨n', m', rfl, rfl, _⟩
    simp only [Record.get?_pair_zero, Option.some.injEq] at heq
    exact hne (by rw [heq])
  · intro r
    rw [List.mem_filterMap]
    constructor
    · rintro ⟨k, _, hr⟩
      rcases (summaryOf_eq_some_iff hpairs k r).1 hr with ⟨n, m, rfl, hrest⟩
      exact ⟨n, m, hrest⟩
    · rintro ⟨n, m, rfl, ⟨c, hc⟩, hleast⟩
      refine ⟨⟨[n]⟩, (hmem _).2 ?_, (summaryOf_eq_some_iff hpairs _ _).2 ⟨n, m, rfl, rfl, ⟨c, hc⟩, hleast⟩⟩
      exact List.ne_nil_of_mem (KeySpec.mem_withKey.2 ⟨hc, rfl⟩)

end LeastOffers

/-- Some records are the least offers to the vertices that have one. -/
structure BestOffers (workset edges best : List Record) : Prop where
  /-- Each of them is to another vertex. -/
  distinct : best.Pairwise fun a b => a.get? 0 ≠ b.get? 0
  /-- They are the least offers. -/
  mem_iff : ∀ r, r ∈ best ↔ ∃ n m, r = .pair n m ∧ (∃ c, Offered workset edges n c) ∧
    Value.LeastAmong (Offered workset edges n) m

theorem BestOffers.covers {workset edges best : List Record} (h : BestOffers workset edges best) :
    (KeySpec.field 0).Covers best := by
  apply KeySpec.covers_of_pairs
  intro r hr
  rcases (h.mem_iff r).1 hr with ⟨n, m, heq, _⟩
  exact ⟨n, m, heq⟩

/-- From the offers the aggregate of a round makes the least ones. -/
theorem leastOffers_of_offered (ctx : StepContext) {workset edges candidates : List Record}
    (hoffered : ∀ r, r ∈ candidates ↔ ∃ n c, Offered workset edges n c ∧ r = .pair n c) :
    ∃ best, leastOffers ctx candidates = .ok best ∧ BestOffers workset edges best := by
  have hpairs : ∀ r ∈ candidates, ∃ n c, r = .pair n c := by
    intro r hr
    rcases (hoffered r).1 hr with ⟨n, c, _, rfl⟩
    exact ⟨n, c, rfl⟩
  have hoffered' : ∀ n c, Record.pair n c ∈ candidates ↔ Offered workset edges n c := by
    intro n c
    rw [hoffered]
    constructor
    · rintro ⟨n', c', hoffer, heq⟩
      cases heq
      exact hoffer
    · intro hoffer
      exact ⟨n, c, hoffer, rfl⟩
  rcases @leastOffers_spec ctx candidates hpairs with ⟨best, hbest, hdistinct, hmem⟩
  simp only [hoffered'] at hmem
  exact ⟨best, hbest, hdistinct, hmem⟩

/-- Records about different vertices are different. -/
theorem nodup_of_vertices {rs : List Record} (h : rs.Pairwise fun a b => a.get? 0 ≠ b.get? 0) : rs.Nodup :=
  h.imp fun hne heq => hne (congrArg (Record.get? · 0) heq)

/-- Records about different vertices have different keys. -/
theorem pairwise_extract_of_vertices {rs : List Record} (hcovers : (KeySpec.field 0).Covers rs)
    (h : rs.Pairwise fun a b => a.get? 0 ≠ b.get? 0) :
    rs.Pairwise fun a b => (KeySpec.field 0).extract a ≠ (KeySpec.field 0).extract b := by
  refine h.imp_of_mem ?_
  intro a b ha _ hne heq
  rcases hcovers a ha with ⟨k, hk⟩
  rcases KeySpec.extract_field_eq_ok_iff.1 hk with ⟨v, hav, rfl⟩
  rcases KeySpec.extract_field_eq_ok_iff.1 (heq.symm.trans hk) with ⟨v', hbv, hv⟩
  cases hv
  exact hne (hav.trans hbv.symm)

/-- There is one list of least offers, up to order. -/
theorem BestOffers.perm {workset edges best best' : List Record} (h : BestOffers workset edges best)
    (h' : BestOffers workset edges best') : best.Perm best' := by
  rw [List.perm_ext_iff_of_nodup (nodup_of_vertices h.distinct) (nodup_of_vertices h'.distinct)]
  intro r
  rw [h.mem_iff, h'.mem_iff]

/-! ## Improvements -/

theorem improvement_eq_some_iff {current candidate r : Record} :
    improvement current candidate = some r ↔
      r = candidate ∧ ∃ new old, candidate.get? 1 = some new ∧ current.get? 1 = some old ∧ new.isBelow old = true := by
  unfold improvement
  cases candidate.get? 1 with
  | none => simp
  | some new =>
      cases current.get? 1 with
      | none => simp
      | some old =>
          change (if new.isBelow old = true then some candidate else none) = some r ↔ _
          by_cases h : new.isBelow old = true
          · rw [if_pos h, Option.some.injEq]
            constructor
            · rintro rfl
              exact ⟨rfl, new, old, rfl, rfl, h⟩
            · rintro ⟨rfl, _⟩
              rfl
          · rw [if_neg h]
            constructor
            · rintro ⟨⟩
            · rintro ⟨_, new', old', hnew, hold, hlt⟩
              cases hnew
              cases hold
              exact absurd hlt h

/-- An offer is accepted if the vertex is stored with a label that the offer is below. -/
def Accepted (s : SolutionSet) (candidate : Record) : Prop :=
  ∃ v current, v.isNull = false ∧ candidate.get? 0 = some v ∧ s.probe ⟨[v]⟩ = some current ∧
    improvement current candidate = some candidate

/-- What the records stored for the vertex of an offer make of it. -/
theorem filterMap_improvement {s : SolutionSet} (hs : s.Reachable) (hkey : s.key = .field 0) {candidate : Record}
    {v : Value} (hv : candidate.get? 0 = some v) [Decidable (Accepted s candidate)] :
    (if Key.hasNull ⟨[v]⟩ then [] else (KeySpec.field 0).withKey ⟨[v]⟩ s.records).filterMap
        (fun current => improvement current candidate) =
      if Accepted s candidate then [candidate] else [] := by
  rcases hs.stores with ⟨written, hwritten⟩
  have hwith := hwritten.withKey_records ⟨[v]⟩
  rw [hkey] at hwith
  rw [hwith, Key.hasNull_singleton]
  by_cases haccepted : Accepted s candidate
  · rw [if_pos haccepted]
    rcases haccepted with ⟨v', current, hnull', hv', hprobe, himprove⟩
    cases hv.symm.trans hv'
    rw [if_neg (Bool.eq_false_iff.1 hnull'), hprobe, Option.toList_some, List.filterMap_cons, himprove]
    rfl
  · rw [if_neg haccepted]
    by_cases hnull' : v.isNull = true
    · rw [if_pos hnull']
      rfl
    · rw [if_neg hnull']
      cases hprobe : s.probe ⟨[v]⟩ with
      | none => rfl
      | some current =>
          cases himprove : improvement current candidate with
          | none => simp [himprove]
          | some r =>
              obtain rfl := (improvement_eq_some_iff.1 himprove).1
              exact absurd ⟨v, current, Bool.eq_false_iff.2 hnull', hv, hprobe, himprove⟩ haccepted

theorem flatMap_ite_singleton {α : Type} (p : α → Prop) [DecidablePred p] (xs : List α) :
    (xs.flatMap fun x => if p x then [x] else []) = xs.filter fun x => decide (p x) := by
  induction xs with
  | nil => rfl
  | cons x xs ih =>
      rw [List.flatMap_cons, ih]
      by_cases h : p x <;> simp [h]

/-- The number of pairs of the second join of a round. -/
def storedPairs (ctx : StepContext) (best : List Record) : Nat :=
  ((ctx.join (.field 0) (.field 0)).pairsByLeft best ctx.solution.records).length

section Stored

variable {ctx : StepContext} {best : List Record}

theorem length_pairs_solution_first (ctx : StepContext) (best : List Record) :
    ((ctx.join (.field 0) (.field 0)).pairsByLeft ctx.solution.records best).length = storedPairs ctx best := by
  rw [← (Join.pairsByRight_perm _ ctx.solution.records best).length_eq, Join.pairsByRight_eq_map_swap rfl,
    List.length_map, storedPairs]

open Classical in
/-- Each offer is paired with the record stored for its vertex, and is returned if it is accepted. -/
theorem filterMap_pairs_improvement (hreach : ctx.solution.Reachable) (hkey : ctx.solution.key = .field 0)
    (hbest : (KeySpec.field 0).Covers best) :
    (((ctx.join (.field 0) (.field 0)).pairsByLeft best ctx.solution.records).filterMap fun pair =>
        improvement pair.2 pair.1) =
      best.filter fun candidate => decide (Accepted ctx.solution candidate) := by
  rw [Join.pairsByLeft_eq_flatMap, List.filterMap_flatMap, ← flatMap_ite_singleton]
  apply List.flatMap_congr
  intro candidate hcandidate
  rcases hbest candidate hcandidate with ⟨k, hk⟩
  rcases KeySpec.extract_field_eq_ok_iff.1 hk with ⟨v, hv, rfl⟩
  rw [Join.filter_matched_right (j := ctx.join (.field 0) (.field 0)) hk, List.filterMap_map,
    ← filterMap_improvement hreach hkey hv]
  rfl

/-- The second join of a round fails where it has more pairs than the limit allows, for either position of the solution
set. -/
theorem improvements_of_overruns (position : Position) (hreach : ctx.solution.Reachable)
    (hkey : ctx.solution.key = .field 0) (hbest : (KeySpec.field 0).Covers best)
    (h : (ctx.join (.field 0) (.field 0)).Overruns (storedPairs ctx best)) :
    ∃ limit k, improvements position ctx best = .error (.fanoutExceeded limit k) := by
  have hsolution : ctx.solutionOperand.Has (.field 0) ctx.solution.records := .solution hreach hkey
  cases position with
  | first =>
      rw [← length_pairs_solution_first] at h
      exact Join.execute_of_overruns hsolution (.records hbest) h (ctx.schedule 2) improvement
  | second => exact Join.execute_of_overruns (.records hbest) hsolution h (ctx.schedule 2) _

open Classical in
/-- Otherwise it returns the accepted offers, for either position of the solution set. -/
theorem improvements_of_not_overruns (position : Position) (hreach : ctx.solution.Reachable)
    (hkey : ctx.solution.key = .field 0) (hbest : (KeySpec.field 0).Covers best)
    (h : ¬(ctx.join (.field 0) (.field 0)).Overruns (storedPairs ctx best)) :
    ∃ improved, improvements position ctx best = .ok improved ∧
      improved.Perm (best.filter fun candidate => decide (Accepted ctx.solution candidate)) := by
  have hsolution : ctx.solutionOperand.Has (.field 0) ctx.solution.records := .solution hreach hkey
  rw [← filterMap_pairs_improvement hreach hkey hbest]
  cases position with
  | first =>
      rw [← length_pairs_solution_first] at h
      rcases Join.execute_of_not_overruns hsolution (.records hbest) h (ctx.schedule 2) improvement with
        ⟨improved, himproved, hperm⟩
      refine ⟨improved, himproved, hperm.trans ?_⟩
      have hright := ((ctx.join (.field 0) (.field 0)).pairsByRight_perm ctx.solution.records best).symm
      rw [Join.pairsByRight_eq_map_swap rfl] at hright
      have hswapped := hright.filterMap fun pair => improvement pair.1 pair.2
      rwa [List.filterMap_map] at hswapped
  | second => exact Join.execute_of_not_overruns (.records hbest) hsolution h (ctx.schedule 2) _

end Stored

/-! ## The round -/

/-- A round reads the given edges, and a solution set that is stored by vertex. -/
structure Reads (ctx : StepContext) (edges : List Record) : Prop where
  /-- The edges are registered by their start. -/
  registered : ∃ input, ctx.sideInput edgesName = .ok input ∧ Index.build edges (.field 0) = .ok input.index
  /-- The solution set was made by seeding and by deltas. -/
  reachable : ctx.solution.Reachable
  /-- It is stored by vertex. -/
  key_eq : ctx.solution.key = .field 0

/-- The joins of a round are within the limit. -/
structure WithinLimits (ctx : StepContext) (edges : List Record) : Prop where
  /-- Every record of the workset has a vertex. -/
  covers : (KeySpec.field 0).Covers ctx.workset.records
  /-- The first join has no more pairs than the limit allows. -/
  offered : ¬(ctx.join (.field 0) (.field 0)).Overruns (offerPairs ctx edges)
  /-- Neither has the second one, for the least offers in any order. -/
  stored : ∀ best, BestOffers ctx.workset.records edges best →
    ¬(ctx.join (.field 0) (.field 0)).Overruns (storedPairs ctx best)

/-- Some records are what a round improves: for each vertex that is stored and is offered a label, the least offer, if
it is below the label that is stored. -/
structure Improves (ctx : StepContext) (edges improved : List Record) : Prop where
  /-- Each of them is about another vertex. -/
  distinct : improved.Pairwise fun a b => a.get? 0 ≠ b.get? 0
  /-- They are the least offers that are below the labels stored. -/
  mem_iff : ∀ r, r ∈ improved ↔ ∃ n m, r = .pair n m ∧ n.isNull = false ∧
    (∃ c, Offered ctx.workset.records edges n c) ∧ Value.LeastAmong (Offered ctx.workset.records edges n) m ∧
    ∃ current old, ctx.solution.probe ⟨[n]⟩ = some current ∧ current.get? 1 = some old ∧ m.isBelow old = true

section Round

variable {ctx : StepContext} {edges : List Record}

/-- What a round returns is what its three operators return one after the other. -/
theorem spreadLabels_eq_ok_iff {position : Position} {input : SideInput} {out : StepOutput}
    (hinput : ctx.sideInput edgesName = .ok input) :
    spreadLabels position ctx = .ok out ↔ ∃ candidates best improved, offers ctx input = .ok candidates ∧
      leastOffers ctx candidates = .ok best ∧ improvements position ctx best = .ok improved ∧
      out = .unified improved := by
  rw [spreadLabels, hinput]
  change (offers ctx input >>= _) = _ ↔ _
  simp only [bind_eq_ok_iff]
  constructor
  · rintro ⟨candidates, hcandidates, best, hbest, improved, himproved, hout⟩
    exact ⟨candidates, best, improved, hcandidates, hbest, himproved, (Except.ok.inj hout).symm⟩
  · rintro ⟨candidates, best, improved, hcandidates, hbest, himproved, rfl⟩
    exact ⟨candidates, hcandidates, best, hbest, improved, himproved, rfl⟩

open Classical in
/-- The least offers that are accepted are what a round improves. -/
theorem improves_of_perm {best improved : List Record} (hbest : BestOffers ctx.workset.records edges best)
    (hperm : improved.Perm (best.filter fun candidate => decide (Accepted ctx.solution candidate))) :
    Improves ctx edges improved := by
  refine ⟨(hperm.pairwise_iff fun hne => hne.symm).2 (hbest.distinct.filter _), ?_⟩
  intro r
  rw [hperm.mem_iff, List.mem_filter, decide_eq_true_iff, hbest.mem_iff]
  constructor
  · rintro ⟨⟨n, m, rfl, hoffer, hleast⟩, v, current, hnull, hv, hprobe, himprove⟩
    cases hv
    rcases improvement_eq_some_iff.1 himprove with ⟨_, new, old, hnew, hold, hlt⟩
    cases hnew
    exact ⟨n, m, rfl, hnull, hoffer, hleast, current, old, hprobe, hold, hlt⟩
  · rintro ⟨n, m, rfl, hnull, hoffer, hleast, current, old, hprobe, hold, hlt⟩
    refine ⟨⟨n, m, rfl, hoffer, hleast⟩, n, current, hnull, rfl, hprobe, ?_⟩
    exact improvement_eq_some_iff.2 ⟨rfl, m, old, rfl, hold, hlt⟩

/-- A round within its limits succeeds, with what it improves. -/
theorem spreadLabels_of_withinLimits (position : Position) (hreads : Reads ctx edges) (h : WithinLimits ctx edges) :
    ∃ improved, spreadLabels position ctx = .ok (.unified improved) ∧ Improves ctx edges improved := by
  rcases hreads.registered with ⟨input, hinput, hindex⟩
  rcases offers_of_not_overruns hindex h.covers h.offered with ⟨candidates, hcandidates, hoffered⟩
  rcases leastOffers_of_offered ctx hoffered with ⟨best, hbest, hleast⟩
  rcases improvements_of_not_overruns position hreads.reachable hreads.key_eq hleast.covers (h.stored best hleast) with
    ⟨improved, himproved, hperm⟩
  exact ⟨improved, (spreadLabels_eq_ok_iff hinput).2 ⟨candidates, best, improved, hcandidates, hbest, himproved, rfl⟩,
    improves_of_perm hleast hperm⟩

/-- A round that succeeds is within its limits. -/
theorem withinLimits_of_spreadLabels {position : Position} {out : StepOutput} (hreads : Reads ctx edges)
    (h : spreadLabels position ctx = .ok out) : WithinLimits ctx edges := by
  rcases hreads.registered with ⟨input, hinput, hindex⟩
  rcases (spreadLabels_eq_ok_iff hinput).1 h with ⟨candidates, best, improved, hcandidates, hbest, himproved, _⟩
  rcases not_overruns_of_offers hindex hcandidates with ⟨hcovers, hwithin⟩
  refine ⟨hcovers, hwithin, ?_⟩
  intro best' hleast' hover
  rcases offers_of_not_overruns hindex hcovers hwithin with ⟨_, hsame, hoffered⟩
  obtain rfl := Except.ok.inj (hcandidates.symm.trans hsame)
  rcases leastOffers_of_offered ctx hoffered with ⟨_, hsame, hleast⟩
  obtain rfl := Except.ok.inj (hbest.symm.trans hsame)
  have hcount : storedPairs ctx best = storedPairs ctx best' :=
    (Join.pairsByLeft_perm _ (hleast.perm hleast') (List.Perm.refl _)).length_eq
  rw [← hcount] at hover
  rcases improvements_of_overruns position hreads.reachable hreads.key_eq hleast.covers hover with
    ⟨limit, k, hexceeded⟩
  cases himproved.symm.trans hexceeded

theorem Ready.withinLimits (h : Ready ctx edges) : WithinLimits ctx edges :=
  ⟨h.covers, Join.not_overruns h.unlimited _, fun _ _ => Join.not_overruns h.unlimited _⟩

/-- A round returns, for each vertex that is stored and is offered a label, the least offer, if it is below the label
that is stored.  The output has at most one record of a vertex; it is the delta and the next workset. -/
theorem spreadLabels_spec (position : Position) (h : Ready ctx edges) :
    ∃ improved, spreadLabels position ctx = .ok (.unified improved) ∧
      (improved.Pairwise fun a b => a.get? 0 ≠ b.get? 0) ∧
      ∀ r, r ∈ improved ↔ ∃ n m, r = .pair n m ∧ n.isNull = false ∧
        (∃ c, Offered ctx.workset.records edges n c) ∧ Value.LeastAmong (Offered ctx.workset.records edges n) m ∧
        ∃ current old, ctx.solution.probe ⟨[n]⟩ = some current ∧ current.get? 1 = some old ∧
          m.isBelow old = true := by
  rcases spreadLabels_of_withinLimits position ⟨h.registered, h.reachable, h.key_eq⟩ h.withinLimits with
    ⟨improved, hstep, himproves⟩
  exact ⟨improved, hstep, himproves.distinct, himproves.mem_iff⟩

end Round

end Graph

end WorksetIteration
