import Mathlib.Data.Multiset.Bind
import WorksetIteration.Join
import WorksetIteration.Proofs.Interleaving
import WorksetIteration.Proofs.SolutionSet

/-!
# Joins and nested loops

The second definition of a join runs through all pairs of a left and a right record and keeps those whose keys are
equal and have no missing value.  Whatever the operands are and whichever side is stored, the join combines exactly
these pairs, each of them once.

Main results:

- `Operand.Has`: an operand with the records in it.
- `Join.pairsByLeft`, `Join.pairsByRight`: the matching pairs in the two orders of the loops.
- `Operand.Serves`: an operand that fits its side, whatever made it.
- `Join.plan_of_probesLeft`, `Join.plan_of_probesRight`: what a plan stores and what it probes with.
- `Join.execute_nestedLoop`: a join without a limit combines the pairs of the nested loops.
-/

namespace WorksetIteration

/-! ## Operands with their records -/

/-- An operand for a side with the given key, and the records in it: a list, an index built from a list, or a solution
set that seeding and deltas have made. -/
inductive Operand.Has (spec : KeySpec) : Operand → List Record → Prop
  | records {rs : List Record} : spec.Covers rs → Has spec (.records rs) rs
  | index {index : Index} {rs : List Record} : Index.build rs spec = .ok index → Has spec (.keyed index.toKeyed) rs
  | solution {s : SolutionSet} : s.Reachable → s.key = spec → Has spec (.keyed s.toKeyed) s.records

/-- An operand serves a side with the given key: it is a list of records that have the key, or a collection stored by
the key that holds the records. -/
inductive Operand.Serves (spec : KeySpec) : Operand → List Record → Prop
  | records {rs : List Record} (hcovers : spec.Covers rs) : Serves spec (.records rs) rs
  | keyed {stored : KeyedRecords} {rs : List Record} (hkey : stored.key = spec) (hholds : stored.Holds rs) :
      Serves spec (.keyed stored) rs

theorem Operand.Has.serves {spec : KeySpec} {operand : Operand} {rs : List Record} (h : operand.Has spec rs) :
    operand.Serves spec rs := by
  cases h with
  | records hcovers => exact .records hcovers
  | index hindex =>
      rcases Index.holds_of_build hindex with ⟨hkey, hholds⟩
      exact .keyed hkey hholds
  | solution hreach hkey =>
      rcases hreach.stores with ⟨written, hwritten⟩
      exact .keyed hkey hwritten.holds

/-- Whether an operand is a list of records. -/
def Operand.isList : Operand → Bool
  | .records _ => true
  | .keyed _ => false

/-- The records of an operand in the order in which they probe. -/
def Operand.scan : Operand → List Record
  | .records rs => rs
  | .keyed stored => stored.records

namespace Operand.Serves

variable {spec : KeySpec} {operand : Operand} {rs : List Record}

theorem scan_perm (h : operand.Serves spec rs) : operand.scan.Perm rs := by
  cases h with
  | records => exact List.Perm.refl _
  | keyed hkey hholds => exact hholds.records_perm

theorem covers (h : operand.Serves spec rs) : spec.Covers rs := by
  cases h with
  | records hcovers => exact hcovers
  | keyed hkey hholds => exact hkey ▸ hholds.covers

theorem covers_scan (h : operand.Serves spec rs) : spec.Covers operand.scan :=
  h.covers.perm h.scan_perm.symm

theorem scan_eq (h : operand.Serves spec rs) (hlist : operand.isList = true) : operand.scan = rs := by
  cases h with
  | records => rfl
  | keyed => simp [isList] at hlist

end Operand.Serves

namespace Join

/-! ## Matching pairs -/

/-- Whether a left and a right record have one key, without missing values. -/
def matched (j : Join) (l r : Record) : Bool :=
  match j.leftKey.extract l, j.rightKey.extract r with
  | .ok a, .ok b => decide (a = b) && !a.hasNull
  | _, _ => false

theorem matched_iff {j : Join} {l r : Record} :
    j.matched l r = true ↔ ∃ k, j.leftKey.extract l = .ok k ∧ j.rightKey.extract r = .ok k ∧ k.hasNull = false := by
  unfold matched
  cases j.leftKey.extract l with
  | error e => simp
  | ok a =>
      cases j.rightKey.extract r with
      | error e => simp
      | ok b =>
          simp only [Bool.and_eq_true, decide_eq_true_iff, Bool.not_eq_true', Except.ok.injEq]
          constructor
          · rintro ⟨rfl, hnull⟩
            exact ⟨a, rfl, rfl, hnull⟩
          · rintro ⟨k, rfl, rfl, hnull⟩
            exact ⟨rfl, hnull⟩

theorem matched_iff_of_left {j : Join} {l r : Record} {k : Key} (h : j.leftKey.extract l = .ok k) :
    j.matched l r = true ↔ j.rightKey.extract r = .ok k ∧ k.hasNull = false := by
  rw [matched_iff]
  constructor
  · rintro ⟨k', hl, hr, hnull⟩
    obtain rfl : k = k' := Except.ok.inj (h.symm.trans hl)
    exact ⟨hr, hnull⟩
  · rintro ⟨hr, hnull⟩
    exact ⟨k, h, hr, hnull⟩

theorem matched_iff_of_right {j : Join} {l r : Record} {k : Key} (h : j.rightKey.extract r = .ok k) :
    j.matched l r = true ↔ j.leftKey.extract l = .ok k ∧ k.hasNull = false := by
  rw [matched_iff]
  constructor
  · rintro ⟨k', hl, hr, hnull⟩
    obtain rfl : k = k' := Except.ok.inj (h.symm.trans hr)
    exact ⟨hl, hnull⟩
  · rintro ⟨hl, hnull⟩
    exact ⟨k, hl, h, hnull⟩

/-- The matching pairs, left record by left record. -/
def pairsByLeft (j : Join) (ls rs : List Record) : List (Record × Record) :=
  (ls ×ˢ rs).filter fun pair => j.matched pair.1 pair.2

/-- The matching pairs, right record by right record; the left record still comes first in a pair. -/
def pairsByRight (j : Join) (ls rs : List Record) : List (Record × Record) :=
  ((rs ×ˢ ls).map Prod.swap).filter fun pair => j.matched pair.1 pair.2

theorem mem_pairsByLeft {j : Join} {ls rs : List Record} {pair : Record × Record} :
    pair ∈ j.pairsByLeft ls rs ↔ (pair.1 ∈ ls ∧ pair.2 ∈ rs) ∧ j.matched pair.1 pair.2 = true := by
  rw [pairsByLeft, List.mem_filter, List.mem_product]

/-- Both orders have the same pairs. -/
theorem pairsByRight_perm (j : Join) (ls rs : List Record) : (j.pairsByRight ls rs).Perm (j.pairsByLeft ls rs) := by
  have hswap := Multiset.map_swap_product (rs : Multiset Record) (ls : Multiset Record)
  rw [Multiset.coe_product, Multiset.coe_product, Multiset.map_coe, Multiset.coe_eq_coe] at hswap
  exact hswap.filter _

theorem matched_comm {j : Join} (hkey : j.leftKey = j.rightKey) (l r : Record) : j.matched l r = j.matched r l := by
  rw [Bool.eq_iff_iff, matched_iff, matched_iff, hkey]
  exact exists_congr fun _ => and_left_comm

/-- Where both sides have one key, the pairs do not depend on which side is which. -/
theorem pairsByRight_eq_map_swap {j : Join} (hkey : j.leftKey = j.rightKey) (ls rs : List Record) :
    j.pairsByRight ls rs = (j.pairsByLeft rs ls).map Prod.swap := by
  rw [pairsByRight, List.filter_map, pairsByLeft]
  congr 2
  funext pair
  exact matched_comm hkey pair.2 pair.1

theorem pairsByLeft_perm (j : Join) {ls ls' rs rs' : List Record} (hl : ls.Perm ls') (hr : rs.Perm rs') :
    (j.pairsByLeft ls rs).Perm (j.pairsByLeft ls' rs') :=
  (hl.product hr).filter _

theorem pairsByLeft_eq_flatMap (j : Join) (ls rs : List Record) :
    j.pairsByLeft ls rs = ls.flatMap fun l => (rs.filter (j.matched l)).map fun r => (l, r) := by
  change List.filter _ (ls.flatMap fun l => rs.map (Prod.mk l)) = _
  rw [List.filter_flatMap]
  apply List.flatMap_congr
  intro l _
  rw [List.filter_map]
  rfl

/-- Whether two sides have one key, without missing values. -/
def keysMatch : Except Error Key → Except Error Key → Bool
  | .ok a, .ok b => decide (a = b) && !a.hasNull
  | _, _ => false

theorem length_pairsByLeft (j : Join) (ls rs : List Record) :
    (j.pairsByLeft ls rs).length =
      ((ls.map j.leftKey.extract).map fun a => (rs.map j.rightKey.extract).countP (keysMatch a)).sum := by
  rw [pairsByLeft_eq_flatMap, List.length_flatMap, List.map_map]
  congr 1
  apply List.map_congr_left
  intro l _
  rw [List.length_map, ← List.countP_eq_length_filter, Function.comp_apply, List.countP_map]
  rfl

/-- How many pairs match depends on the keys only. -/
theorem length_pairsByLeft_of_keys (j : Join) {ls ls' rs rs' : List Record}
    (hl : (ls.map j.leftKey.extract).Perm (ls'.map j.leftKey.extract))
    (hr : (rs.map j.rightKey.extract).Perm (rs'.map j.rightKey.extract)) :
    (j.pairsByLeft ls rs).length = (j.pairsByLeft ls' rs').length := by
  have hcount : ∀ a, (rs.map j.rightKey.extract).countP (keysMatch a) =
      (rs'.map j.rightKey.extract).countP (keysMatch a) := fun a => hr.countP_eq _
  rw [length_pairsByLeft, length_pairsByLeft]
  simp only [hcount]
  exact (hl.map _).sum_eq

theorem pairsByRight_eq_flatMap (j : Join) (ls rs : List Record) :
    j.pairsByRight ls rs = rs.flatMap fun r => (ls.filter fun l => j.matched l r).map fun l => (l, r) := by
  change List.filter _ ((rs.flatMap fun r => ls.map (Prod.mk r)).map Prod.swap) = _
  rw [List.map_flatMap, List.filter_flatMap]
  apply List.flatMap_congr
  intro r _
  rw [List.map_map, List.filter_map]
  rfl

/-! ## Probing for pairs -/

/-- A lookup finds the records of every key without missing values. -/
def Finds (spec : KeySpec) (rs : List Record) (lookup : Key → Matches) : Prop :=
  ∀ k, k.hasNull = false → (lookup k).toList = spec.withKey k rs

/-- The records that satisfy a condition on their key alone, for one key without missing values. -/
theorem filter_eq_withKey {spec : KeySpec} {k : Key} {p : Record → Bool}
    (hp : ∀ r, p r = true ↔ spec.extract r = .ok k ∧ k.hasNull = false) (rs : List Record) :
    rs.filter p = if k.hasNull then [] else spec.withKey k rs := by
  by_cases hnull : k.hasNull
  · rw [if_pos hnull, List.filter_eq_nil_iff]
    intro r _ hr
    have hfalse := ((hp r).1 hr).2
    rw [hnull] at hfalse
    cases hfalse
  · rw [if_neg hnull]
    apply List.filter_congr
    intro r _
    rw [Bool.eq_iff_iff, hp, decide_eq_true_iff]
    exact and_iff_left (Bool.eq_false_iff.2 hnull)

theorem filter_matched_left {j : Join} {r : Record} {k : Key} (h : j.rightKey.extract r = .ok k) (ls : List Record) :
    (ls.filter fun l => j.matched l r) = if k.hasNull then [] else j.leftKey.withKey k ls :=
  filter_eq_withKey (fun _ => matched_iff_of_right h) ls

theorem filter_matched_right {j : Join} {l : Record} {k : Key} (h : j.leftKey.extract l = .ok k) (rs : List Record) :
    rs.filter (j.matched l) = if k.hasNull then [] else j.rightKey.withKey k rs :=
  filter_eq_withKey (fun _ => matched_iff_of_left h) rs

/-- What is found in a lookup that finds the records of every key. -/
theorem found_of_finds {p : Probe} {spec : KeySpec} {rs : List Record} (hfinds : Finds spec rs p.lookup) {r : Record}
    {k : Key} (hk : p.key.extract r = .ok k) : p.found r = if k.hasNull then [] else spec.withKey k rs := by
  rw [Probe.found_of_extract hk]
  by_cases hnull : k.hasNull
  · rw [if_pos hnull, if_pos hnull]
  · rw [if_neg hnull, if_neg hnull]
    exact hfinds k (Bool.eq_false_iff.2 hnull)

/-- What is found among the stored left records of a plan are those that match. -/
theorem found_storedLeft {j : Join} {lookup : Key → Matches} {ls probing : List Record}
    (hfinds : Finds j.leftKey ls lookup) (combine : Record → Record → Option Record) {r : Record} {k : Key}
    (hk : j.rightKey.extract r = .ok k) :
    (j.probe (j.planStoredLeft lookup probing) combine).found r = ls.filter fun l => j.matched l r := by
  rw [filter_matched_left hk]
  exact found_of_finds (p := j.probe (j.planStoredLeft lookup probing) combine) hfinds hk

/-- What is found among the stored right records of a plan are those that match. -/
theorem found_storedRight {j : Join} {lookup : Key → Matches} {rs probing : List Record}
    (hfinds : Finds j.rightKey rs lookup) (combine : Record → Record → Option Record) {l : Record} {k : Key}
    (hk : j.leftKey.extract l = .ok k) :
    (j.probe (j.planStoredRight lookup probing) combine).found l = rs.filter (j.matched l) := by
  rw [filter_matched_right hk]
  exact found_of_finds (p := j.probe (j.planStoredRight lookup probing) combine) hfinds hk

/-- Probing stored left records combines the matching pairs in the order of the right records. -/
theorem flatMap_contribution_storedLeft {j : Join} {lookup : Key → Matches} {ls probing : List Record}
    (hfinds : Finds j.leftKey ls lookup) (hprobing : j.rightKey.Covers probing)
    (combine : Record → Record → Option Record) :
    probing.flatMap (j.probe (j.planStoredLeft lookup probing) combine).contribution =
      (j.pairsByRight ls probing).filterMap fun pair => combine pair.1 pair.2 := by
  rw [pairsByRight_eq_flatMap, List.filterMap_flatMap]
  apply List.flatMap_congr
  intro r hr
  rcases hprobing r hr with ⟨k, hk⟩
  rw [Probe.contribution, found_storedLeft hfinds combine hk, List.filterMap_map]
  rfl

/-- Probing stored right records combines the matching pairs in the order of the left records. -/
theorem flatMap_contribution_storedRight {j : Join} {lookup : Key → Matches} {rs probing : List Record}
    (hfinds : Finds j.rightKey rs lookup) (hprobing : j.leftKey.Covers probing)
    (combine : Record → Record → Option Record) :
    probing.flatMap (j.probe (j.planStoredRight lookup probing) combine).contribution =
      (j.pairsByLeft probing rs).filterMap fun pair => combine pair.1 pair.2 := by
  rw [pairsByLeft_eq_flatMap, List.filterMap_flatMap]
  apply List.flatMap_congr
  intro l hl
  rcases hprobing l hl with ⟨k, hk⟩
  rw [Probe.contribution, found_storedRight hfinds combine hk, List.filterMap_map]
  rfl

/-! ## Plans -/

/-- Whether the left records probe the right ones: a list probes what is stored by key already, of two collections
stored by key the smaller one probes, and of two lists the one that is not stored. -/
def probesLeft (j : Join) : Operand → Operand → Bool
  | .records l, .records r => !j.buildSide.storesLeft l.length r.length
  | .records _, .keyed _ => true
  | .keyed _, .records _ => false
  | .keyed l, .keyed r => decide (l.size ≤ r.size)

theorem finds_of_holds {spec : KeySpec} {stored : KeyedRecords} {rs : List Record} (hkey : stored.key = spec)
    (h : stored.Holds rs) : Finds spec rs stored.lookup := by
  intro k _
  rw [h.lookup_eq, hkey]

theorem isList_of_probesLeft {j : Join} {left right : Operand} (h : j.probesLeft left right = true)
    (hlists : left.isList = true ∨ right.isList = true) : left.isList = true := by
  cases left <;> cases right <;> simp_all [probesLeft, Operand.isList]

theorem isList_of_probesRight {j : Join} {left right : Operand} (h : j.probesLeft left right = false)
    (hlists : left.isList = true ∨ right.isList = true) : right.isList = true := by
  cases left <;> cases right <;> simp_all [probesLeft, Operand.isList]

section Plans

variable {j : Join} {left right : Operand} {ls rs : List Record}

/-- Operands stored by the keys of their sides are accepted. -/
theorem checkStoredKey_of_serves {side : Side} {spec : KeySpec} {operand : Operand} (h : operand.Serves spec rs) :
    checkStoredKey side spec operand = .ok () := by
  cases h with
  | records => rfl
  | keyed hkey => rw [checkStoredKey, if_pos hkey]

/-- Where the left records probe, the right ones are stored and found. -/
theorem plan_of_probesLeft (hleft : left.Serves j.leftKey ls) (hright : right.Serves j.rightKey rs)
    (h : j.probesLeft left right = true) :
    ∃ lookup, j.plan left right = .ok (j.planStoredRight lookup left.scan) ∧ Finds j.rightKey rs lookup := by
  cases hright with
  | records hcovers =>
      cases hleft with
      | records =>
          rcases Index.lookup_of_buildMatchable hcovers with ⟨index, hindex, hlookup⟩
          have hstores : j.buildSide.storesLeft ls.length rs.length = false := by simpa [probesLeft] using h
          refine ⟨index.lookup, ?_, hlookup⟩
          rw [plan, hstores, hindex]
          rfl
      | keyed => simp [probesLeft] at h
  | @keyed r _ hkey hholds =>
      refine ⟨r.lookup, ?_, finds_of_holds hkey hholds⟩
      cases hleft with
      | records => rfl
      | keyed => rw [plan, if_pos (by simpa [probesLeft] using h), Operand.scan]

/-- Where the right records probe, the left ones are stored and found. -/
theorem plan_of_probesRight (hleft : left.Serves j.leftKey ls) (hright : right.Serves j.rightKey rs)
    (h : j.probesLeft left right = false) :
    ∃ lookup, j.plan left right = .ok (j.planStoredLeft lookup right.scan) ∧ Finds j.leftKey ls lookup := by
  cases hleft with
  | records hcovers =>
      cases hright with
      | records =>
          rcases Index.lookup_of_buildMatchable hcovers with ⟨index, hindex, hlookup⟩
          have hstores : j.buildSide.storesLeft ls.length rs.length = true := by simpa [probesLeft] using h
          refine ⟨index.lookup, ?_, hlookup⟩
          rw [plan, hstores, hindex]
          rfl
      | keyed => simp [probesLeft] at h
  | @keyed l _ hkey hholds =>
      refine ⟨l.lookup, ?_, finds_of_holds hkey hholds⟩
      cases hright with
      | records => rfl
      | keyed => rw [plan, if_neg (by simpa [probesLeft] using h), Operand.scan]

/-! ## Execution -/

/-- A join is carried out by its plan. -/
theorem execute_of_plan {schedule : Schedule} {combine : Record → Record → Option Record} {p : JoinPlan}
    (hleft : left.Serves j.leftKey ls) (hright : right.Serves j.rightKey rs) (hplan : j.plan left right = .ok p) :
    j.execute schedule left right combine = (j.probe p combine).execute schedule j.parallelism p.probing := by
  rw [execute, checkStoredKey_of_serves hleft, checkStoredKey_of_serves hright, hplan]
  rfl

theorem execute_of_probesLeft (hlimit : j.fanoutLimit = none) (hleft : left.Has j.leftKey ls)
    (hright : right.Has j.rightKey rs) (h : j.probesLeft left right = true) :
    ∃ probing, probing.Perm ls ∧ (left.isList = true → probing = ls) ∧ ∀ schedule combine,
      j.execute schedule left right combine =
        .ok ((j.pairsByLeft probing rs).filterMap fun pair => combine pair.1 pair.2) := by
  have hcovers := hleft.serves.covers_scan
  rcases plan_of_probesLeft hleft.serves hright.serves h with ⟨lookup, hplan, hfinds⟩
  refine ⟨left.scan, hleft.serves.scan_perm, hleft.serves.scan_eq, fun schedule combine => ?_⟩
  rw [execute_of_plan hleft.serves hright.serves hplan, ← flatMap_contribution_storedRight hfinds hcovers]
  exact Probe.execute_of_admits (.of_covers hlimit hcovers)

theorem execute_of_probesRight (hlimit : j.fanoutLimit = none) (hleft : left.Has j.leftKey ls)
    (hright : right.Has j.rightKey rs) (h : j.probesLeft left right = false) :
    ∃ probing, probing.Perm rs ∧ (right.isList = true → probing = rs) ∧ ∀ schedule combine,
      j.execute schedule left right combine =
        .ok ((j.pairsByRight ls probing).filterMap fun pair => combine pair.1 pair.2) := by
  have hcovers := hright.serves.covers_scan
  rcases plan_of_probesRight hleft.serves hright.serves h with ⟨lookup, hplan, hfinds⟩
  refine ⟨right.scan, hright.serves.scan_perm, hright.serves.scan_eq, fun schedule combine => ?_⟩
  rw [execute_of_plan hleft.serves hright.serves hplan, ← flatMap_contribution_storedLeft hfinds hcovers]
  exact Probe.execute_of_admits (.of_covers hlimit hcovers)

/-- A join without a limit combines pairs that do not depend on the combining function and on the moves of the workers:
those of the nested loops, each as often as it occurs there, and the left record first.  If one of the operands is a
list they come in the order of the probing records, and those of one probing record in the order of the stored ones. -/
theorem execute_nestedLoop (hlimit : j.fanoutLimit = none) (hleft : left.Has j.leftKey ls)
    (hright : right.Has j.rightKey rs) :
    ∃ pairs : List (Record × Record),
      (∀ schedule combine, j.execute schedule left right combine =
        .ok (pairs.filterMap fun pair => combine pair.1 pair.2)) ∧
      pairs.Perm (j.pairsByLeft ls rs) ∧
      (left.isList = true ∨ right.isList = true →
        pairs = if j.probesLeft left right then j.pairsByLeft ls rs else j.pairsByRight ls rs) := by
  cases hprobes : j.probesLeft left right with
  | true =>
      rcases execute_of_probesLeft hlimit hleft hright hprobes with ⟨probing, hperm, hlist, hexecute⟩
      refine ⟨j.pairsByLeft probing rs, hexecute, j.pairsByLeft_perm hperm (List.Perm.refl _), ?_⟩
      intro hlists
      rw [hlist (isList_of_probesLeft hprobes hlists), if_pos rfl]
  | false =>
      rcases execute_of_probesRight hlimit hleft hright hprobes with ⟨probing, hperm, hlist, hexecute⟩
      refine ⟨j.pairsByRight ls probing, hexecute, ?_, ?_⟩
      · exact (j.pairsByRight_perm ls probing).trans (j.pairsByLeft_perm (List.Perm.refl _) hperm)
      · intro hlists
        rw [hlist (isList_of_probesRight hprobes hlists), if_neg Bool.false_ne_true]

/-- A list with a doubled and a missing key probes an index on two workers. -/
theorem execute_nestedLoop_of_list_index :
    let j : Join := ⟨.field 0, .field 1, .auto, none, 2⟩
    let ls : List Record := [.pair (.int64 1) (.int64 10), .pair .null .null, .pair (.int64 1) (.int64 11)]
    let rs : List Record := [.pair (.int64 20) (.int64 1), .pair (.int64 21) (.int64 2)]
    let index : Index := ((Index.empty (.field 1)).push ⟨[.int64 1]⟩ (.pair (.int64 20) (.int64 1))).push
      ⟨[.int64 2]⟩ (.pair (.int64 21) (.int64 2))
    ∃ pairs : List (Record × Record),
      (∀ schedule combine, j.execute schedule (.records ls) (.keyed index.toKeyed) combine =
        .ok (pairs.filterMap fun pair => combine pair.1 pair.2)) ∧
      pairs.Perm (j.pairsByLeft ls rs) ∧
      ((Operand.records ls).isList = true ∨ (Operand.keyed index.toKeyed).isList = true →
        pairs = if j.probesLeft (.records ls) (.keyed index.toKeyed) then j.pairsByLeft ls rs
          else j.pairsByRight ls rs) := by
  intro j ls rs index
  have hls : j.leftKey.Covers ls := .cons rfl (.cons rfl (.cons rfl (KeySpec.covers_nil _)))
  have hrs : Index.build rs j.rightKey = .ok index := rfl
  exact execute_nestedLoop rfl (.records hls) (.index hrs)

end Plans

end Join

end WorksetIteration
