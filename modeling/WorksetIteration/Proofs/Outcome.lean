import WorksetIteration.Proofs.Budget

/-!
# When a join returns

A join returns a result just if its operands fit their sides and the matching pairs are within the limit.  A record
without a key is noticed while an index is built or when it probes, perhaps after the budget has run out, but it is
always noticed; so neither the side that is stored nor the order of the operands has a part in the success.

Main results:

- `Operand.Fits`, `Operand.Contains`: what a join asks of an operand, and the records that an operand has in it.
- `Probe.execute_isOk_iff`, `Probe.run_of_lt`: when probing returns, and where one worker runs out of its budget.
- `Join.fits_of_execute`: a join that returns was given operands that fit.
- `Join.execute_outcome`: when a join returns, and at which record it exceeds its limit.
-/

namespace WorksetIteration

/-! ## Operands of any key -/

namespace Operand

/-- An operand fits a side with the given key: it is a list of records that have the key, or a collection stored by the
key. -/
def Fits (spec : KeySpec) : Operand → Prop
  | .records rs => spec.Covers rs
  | .keyed stored => stored.key = spec

/-- The records in an operand: those of a list, those that an index was built from by any key, or those of a solution
set that seeding and deltas have made.  A collection stored by key lists its records in an order of its own. -/
inductive Contains : Operand → List Record → Prop
  | records (rs : List Record) : Contains (.records rs) rs
  | index {index : Index} {rs order : List Record} {spec : KeySpec} (hindex : Index.build rs spec = .ok index)
      (horder : order.Perm index.records) : Contains (.keyed { index.toKeyed with records := order }) rs
  | solution {s : SolutionSet} {order : List Record} (hreach : s.Reachable) (horder : order.Perm s.records) :
      Contains (.keyed { s.toKeyed with records := order }) s.records

/-- A collection stored by key holds what it held if it lists its records in another order. -/
theorem holds_reordered {stored : KeyedRecords} {rs order : List Record} (h : stored.Holds rs)
    (horder : order.Perm stored.records) : { stored with records := order }.Holds rs :=
  ⟨h.covers, h.size_eq, h.lookup_eq, horder.trans h.records_perm⟩

/-- An operand that fits a side serves it. -/
theorem Contains.serves {spec : KeySpec} {operand : Operand} {rs : List Record} (h : operand.Contains rs)
    (hfits : operand.Fits spec) : operand.Serves spec rs := by
  cases h with
  | records => exact .records hfits
  | index hindex horder =>
      rcases Index.holds_of_build hindex with ⟨_, hholds⟩
      exact .keyed hfits (holds_reordered hholds horder)
  | solution hreach horder =>
      rcases hreach.stores with ⟨written, hwritten⟩
      exact .keyed hfits (holds_reordered hwritten.holds horder)

end Operand

/-! ## Probing -/

namespace Probe

variable {p : Probe} {rs : List Record}

/-- Any number of workers returns a result just if every record has a key and the budget holds all pairs. -/
theorem execute_isOk_iff (p : Probe) (schedule : Schedule) (parallelism : UInt64) (rs : List Record) :
    (∃ out, p.execute schedule parallelism rs = .ok out) ↔ p.Admits 0 rs := by
  constructor
  · rintro ⟨out, hout⟩
    exact admits_of_run (fun _ _ => Nat.zero_le _) (execute_eq_ok_iff.1 hout)
  · intro hadmits
    exact ⟨_, execute_of_admits hadmits⟩

/-- One worker with a budget that is too small for records with keys fails at the first of them whose pairs, together
with those before, exceed it. -/
theorem run_of_lt {limit : UInt64} {used : Nat} (hlimit : p.limit = some limit) (hcovers : p.key.Covers rs)
    (hused : used ≤ limit.toNat) (hlt : limit.toNat < used + p.pairCount rs) :
    ∃ before r after k, rs = before ++ r :: after ∧ p.key.extract r = .ok k ∧
      used + p.pairCount before ≤ limit.toNat ∧ limit.toNat < used + p.pairCount (before ++ [r]) ∧
      p.run used rs = .error (.fanoutExceeded limit k) := by
  induction rs generalizing used with
  | nil =>
      rw [pairCount_nil] at hlt
      omega
  | cons r rs ih =>
      rcases hcovers r List.mem_cons_self with ⟨k, hk⟩
      rw [pairCount_cons] at hlt
      rcases p.step_cases used r with ⟨e, he, _⟩ | ⟨k', hk', ⟨limit', hlimit', hexceeds, hstep⟩ | ⟨hwithin, hstep⟩⟩
      · cases he.symm.trans hk
      · obtain rfl : limit = limit' := Option.some.inj (hlimit.symm.trans hlimit')
        exact ⟨[], r, rs, k', rfl, hk', by simpa using hused, by simpa using hexceeds, run_cons_of_error hstep rs⟩
      · have hcharged : used + (p.found r).length ≤ limit.toNat := by
          rcases hwithin with hnone | hwithin
          · simpa [hnone] using hused
          · exact hwithin limit hlimit
        rcases ih hcovers.of_cons hcharged (by omega) with ⟨before, x, after, kx, rfl, hkx, hbefore, hafter, hrun⟩
        refine ⟨r :: before, x, after, kx, rfl, hkx, ?_, ?_, ?_⟩
        · rw [pairCount_cons]
          omega
        · rw [List.cons_append, pairCount_cons]
          omega
        · rw [run_cons_of_ok hstep, hrun]
          rfl

end Probe

/-! ## Joins -/

namespace Join

theorem key_eq_of_checkStoredKey {side : Side} {spec : KeySpec} {stored : KeyedRecords}
    (h : checkStoredKey side spec (.keyed stored) = .ok ()) : stored.key = spec := by
  by_contra hne
  rw [checkStoredKey, if_neg hne] at h
  cases h

/-- Two lists are joined by storing one of them, whose records have keys if the plan is made. -/
theorem plan_records {j : Join} {ls rs : List Record} {p : JoinPlan}
    (h : j.plan (.records ls) (.records rs) = .ok p) :
    (j.leftKey.Covers ls ∧ p.probeKey = j.rightKey ∧ p.probing = rs) ∨
      (j.rightKey.Covers rs ∧ p.probeKey = j.leftKey ∧ p.probing = ls) := by
  rw [plan] at h
  split at h
  · rcases bind_eq_ok_iff.1 h with ⟨index, hindex, hp⟩
    cases hp
    exact Or.inl ⟨Index.covers_of_addMatchable hindex, rfl, rfl⟩
  · rcases bind_eq_ok_iff.1 h with ⟨index, hindex, hp⟩
    cases hp
    exact Or.inr ⟨Index.covers_of_addMatchable hindex, rfl, rfl⟩

/-- A join that returns a result was given operands that fit. -/
theorem fits_of_execute {j : Join} {schedule : Schedule} {left right : Operand}
    {combine : Record → Record → Option Record} {out : List Record}
    (h : j.execute schedule left right combine = .ok out) : left.Fits j.leftKey ∧ right.Fits j.rightKey := by
  rcases execute_eq_ok_iff.1 h with ⟨hleft, hright, p, hplan, hout⟩
  -- the probing records have keys because probing has returned
  have hcovers : p.probeKey.Covers p.probing :=
    (((j.probe p combine).execute_isOk_iff schedule j.parallelism p.probing).1 ⟨out, hout⟩).covers
  cases left with
  | keyed l =>
      cases right with
      | keyed r => exact ⟨key_eq_of_checkStoredKey hleft, key_eq_of_checkStoredKey hright⟩
      | records rs =>
          obtain rfl := Except.ok.inj hplan
          exact ⟨key_eq_of_checkStoredKey hleft, hcovers⟩
  | records ls =>
      cases right with
      | keyed r =>
          obtain rfl := Except.ok.inj hplan
          exact ⟨hcovers, key_eq_of_checkStoredKey hright⟩
      | records rs =>
          rcases plan_records hplan with ⟨hls, hkey, hprobing⟩ | ⟨hrs, hkey, hprobing⟩
          · rw [hkey, hprobing] at hcovers
            exact ⟨hls, hcovers⟩
          · rw [hkey, hprobing] at hcovers
            exact ⟨hcovers, hrs⟩

/-- The join of the exchanged operands: each side has the key of the other one. -/
def exchanged (j : Join) : Join :=
  { j with leftKey := j.rightKey, rightKey := j.leftKey }

/-- Exchanged operands have the same pairs, the other way round. -/
theorem length_pairsByLeft_exchanged (j : Join) (ls rs : List Record) :
    (j.exchanged.pairsByLeft rs ls).length = (j.pairsByLeft ls rs).length := by
  have hmatched : ∀ r, j.exchanged.matched r = fun l => j.matched l r := by
    intro r
    funext l
    rw [Bool.eq_iff_iff, matched_iff, matched_iff]
    exact exists_congr fun _ => and_left_comm
  rw [← (j.pairsByRight_perm ls rs).length_eq, pairsByLeft_eq_flatMap, pairsByRight_eq_flatMap,
    List.length_flatMap, List.length_flatMap]
  simp only [List.length_map, hmatched]

section Outcome

variable {j : Join} {left right : Operand} {ls rs : List Record}

/-- A join of operands that serve their sides returns a result just if the matching pairs are within the limit. -/
theorem execute_isOk_iff_of_serves (hleft : left.Serves j.leftKey ls) (hright : right.Serves j.rightKey rs)
    (schedule : Schedule) (combine : Record → Record → Option Record) :
    (∃ out, j.execute schedule left right combine = .ok out) ↔ ¬j.Overruns (j.pairsByLeft ls rs).length := by
  rcases exists_probe hleft hright combine with ⟨p, hexecute, hlimit, _, hcovers, hcount, _⟩
  rw [hexecute, p.execute_isOk_iff, ← pairsOfPart_probing hleft hright, ← hcount _ hcovers, Overruns, ← hlimit]
  constructor
  · rintro ⟨_, hwithin⟩ ⟨limit, hsome, hlt⟩
    have hle := hwithin limit hsome
    omega
  · intro hnot
    refine ⟨hcovers, fun limit hsome => ?_⟩
    rw [Nat.zero_add]
    exact Nat.le_of_not_lt fun hlt => hnot ⟨limit, hsome, hlt⟩

/-- A join of any operands returns a result just if they fit their sides and the pairs are within the limit. -/
theorem execute_isOk_iff (hleft : left.Contains ls) (hright : right.Contains rs) (schedule : Schedule)
    (combine : Record → Record → Option Record) :
    (∃ out, j.execute schedule left right combine = .ok out) ↔
      left.Fits j.leftKey ∧ right.Fits j.rightKey ∧ ¬j.Overruns (j.pairsByLeft ls rs).length := by
  constructor
  · rintro ⟨out, hout⟩
    rcases fits_of_execute hout with ⟨hfitsLeft, hfitsRight⟩
    have hserves := execute_isOk_iff_of_serves (hleft.serves hfitsLeft) (hright.serves hfitsRight) schedule combine
    exact ⟨hfitsLeft, hfitsRight, hserves.1 ⟨out, hout⟩⟩
  · rintro ⟨hfitsLeft, hfitsRight, hlimit⟩
    have hserves := execute_isOk_iff_of_serves (hleft.serves hfitsLeft) (hright.serves hfitsRight) schedule combine
    exact hserves.2 hlimit

/-- One worker that exceeds the limit says so at the first probing record at which the pairs found so far exceed it. -/
theorem execute_first_excess (hleft : left.Serves j.leftKey ls) (hright : right.Serves j.rightKey rs)
    (hworkers : j.parallelism ≤ 1) {limit : UInt64} (hlimit : j.fanoutLimit = some limit)
    (hlt : limit.toNat < (j.pairsByLeft ls rs).length) (schedule : Schedule)
    (combine : Record → Record → Option Record) :
    ∃ before r after k, j.probing left right = before ++ r :: after ∧
      (j.probingKey left right).extract r = .ok k ∧
      j.pairsOfPart left right ls rs before ≤ limit.toNat ∧
      limit.toNat < j.pairsOfPart left right ls rs (before ++ [r]) ∧
      j.execute schedule left right combine = .error (.fanoutExceeded limit k) := by
  rcases exists_probe hleft hright combine with ⟨p, hexecute, hplimit, hkey, hcovers, hcount, _⟩
  rw [← pairsOfPart_probing hleft hright, ← hcount _ hcovers] at hlt
  rcases p.run_of_lt (hplimit.trans hlimit) hcovers (Nat.zero_le _) (by omega) with
    ⟨before, r, after, k, hprobing, hk, hbefore, hafter, hrun⟩
  have hsplit : p.key.Covers ((before ++ [r]) ++ after) := by
    rw [List.append_assoc, List.singleton_append, ← hprobing]
    exact hcovers
  have hpart : p.key.Covers (before ++ [r]) := fun x hx => hsplit x (List.mem_append_left after hx)
  have hpart' : p.key.Covers before := fun x hx => hpart x (List.mem_append_left [r] hx)
  rw [Nat.zero_add, hcount _ hpart'] at hbefore
  rw [Nat.zero_add, hcount _ hpart] at hafter
  refine ⟨before, r, after, k, hprobing, hkey ▸ hk, hbefore, hafter, ?_⟩
  rw [hexecute, Probe.execute, if_pos (Or.inl hworkers)]
  exact hrun

/-- A join returns a result just if both operands fit their sides and the matching pairs, counted before they are
combined, are no more than the limit allows.  So the side to store has no part in that, and neither has the order in
which the operands and their keys are given.  If the operands fit and the limit is exceeded, one worker reports the key
of the first probing record at which the pairs found so far are more than the limit. -/
theorem execute_outcome (j : Join) (hleft : left.Contains ls) (hright : right.Contains rs) :
    (∀ schedule combine, (∃ out, j.execute schedule left right combine = .ok out) ↔
      left.Fits j.leftKey ∧ right.Fits j.rightKey ∧ ¬j.Overruns (j.pairsByLeft ls rs).length) ∧
    (∀ side schedule schedule' combine combine',
      (∃ out, { j with buildSide := side }.execute schedule' left right combine' = .ok out) ↔
        ∃ out, j.execute schedule left right combine = .ok out) ∧
    (∀ schedule schedule' combine combine',
      (∃ out, j.exchanged.execute schedule' right left combine' = .ok out) ↔
        ∃ out, j.execute schedule left right combine = .ok out) ∧
    (j.parallelism ≤ 1 → left.Fits j.leftKey → right.Fits j.rightKey →
      ∀ limit, j.fanoutLimit = some limit → limit.toNat < (j.pairsByLeft ls rs).length →
      ∀ schedule combine, ∃ before r after k, j.probing left right = before ++ r :: after ∧
        (j.probingKey left right).extract r = .ok k ∧
        j.pairsOfPart left right ls rs before ≤ limit.toNat ∧
        limit.toNat < j.pairsOfPart left right ls rs (before ++ [r]) ∧
        j.execute schedule left right combine = .error (.fanoutExceeded limit k)) := by
  refine ⟨execute_isOk_iff hleft hright, ?side, ?exchanged, ?excess⟩
  case side =>
    intro side schedule schedule' combine combine'
    rw [execute_isOk_iff hleft hright, execute_isOk_iff hleft hright]
    exact Iff.rfl
  case exchanged =>
    intro schedule schedule' combine combine'
    rw [execute_isOk_iff hright hleft, execute_isOk_iff hleft hright, length_pairsByLeft_exchanged]
    exact and_left_comm
  case excess =>
    intro hworkers hfitsLeft hfitsRight limit hlimit hlt schedule combine
    exact execute_first_excess (hleft.serves hfitsLeft) (hright.serves hfitsRight) hworkers hlimit hlt schedule combine

/-- A list probes an index of two records with one key: the first match uses the limit up, the second one exceeds it. -/
theorem execute_outcome_past_limit :
    let j : Join := ⟨.field 0, .field 0, .auto, some 2, 1⟩
    let stored (n : Int64) : Record := .pair (.int64 7) (.int64 n)
    let index : Index := ((Index.empty (.field 0)).push ⟨[.int64 7]⟩ (stored 1)).push ⟨[.int64 7]⟩ (stored 2)
    let probing : List Record := [.pair .null .null, .pair (.int64 7) .null, .pair (.int64 7) (.int64 3)]
    let combine : Record → Record → Option Record := fun _ _ => none
    (∀ schedule, ¬∃ out, j.execute schedule (.keyed index.toKeyed) (.records probing) combine = .ok out) ∧
    ∀ schedule, ∃ before r after k, probing = before ++ r :: after ∧ (KeySpec.field 0).extract r = .ok k ∧
      (j.pairsByLeft [stored 1, stored 2] before).length ≤ 2 ∧
      2 < (j.pairsByLeft [stored 1, stored 2] (before ++ [r])).length ∧
      j.execute schedule (.keyed index.toKeyed) (.records probing) combine = .error (.fanoutExceeded 2 k) := by
  intro j stored index probing combine
  have hbuild : Index.build [stored 1, stored 2] (.field 0) = .ok index := rfl
  have hleft : (Operand.keyed index.toKeyed).Contains [stored 1, stored 2] := .index hbuild (List.Perm.refl _)
  have hcovers : (KeySpec.field 0).Covers probing :=
    .cons rfl (.cons rfl (.cons rfl (KeySpec.covers_nil _)))
  have hpairs : (j.pairsByLeft [stored 1, stored 2] probing).length = 4 := by decide
  rcases execute_outcome j hleft (.records probing) with ⟨hok, _, _, hexcess⟩
  constructor
  · intro schedule hreturns
    exact ((hok schedule combine).1 hreturns).2.2 ⟨2, rfl, by rw [hpairs]; decide⟩
  · intro schedule
    exact hexcess (by decide) rfl hcovers 2 rfl (by rw [hpairs]; decide) schedule combine

end Outcome

end Join

end WorksetIteration
