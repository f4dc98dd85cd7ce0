import WorksetIteration.Proofs.History
import WorksetIteration.Proofs.Lifecycle

/-!
# What a delta reports

A delta is refused just if one of its records lacks a key field, and otherwise reports how many of its records had a key
that was new and how many replaced another.  The writes are counted one after the other, and each of them sees those
before it; all of them together insert the keys of the delta that were absent, and whatever else there is updates.

Main results:

- `SolutionSet.keys_applyDelta_perm`: the keys of a set after a delta.
- `SolutionSet.inserted_eq`: the records inserted are as many as there are keys that were absent.
- `SolutionSet.share`, `SolutionSet.shares_eq`: what the records of each key add to the counts.
- `SolutionSet.applyDelta_exact`: when a delta is refused, why, and what it reports if it is not.
-/

namespace WorksetIteration

namespace SolutionSet

/-! ## What a delta inserts -/

/-- The keys of a delta that find no record yet, each of them once. -/
def newKeys (s : SolutionSet) (delta : List Record) : List Key :=
  (s.key.keysOf delta).filter fun k => s.probe k = none

theorem mem_newKeys {s : SolutionSet} {delta : List Record} {k : Key} :
    k ∈ s.newKeys delta ↔ k ∈ s.key.keysOf delta ∧ s.probe k = none := by
  simp [newKeys]

/-- A delta adds its new keys to those of the set. -/
theorem keys_applyDelta_perm {s s' : SolutionSet} {delta : List Record} {summary : DeltaSummary}
    (h : s.applyDelta delta = .ok (s', summary)) : s'.entries.keys.Perm (s.entries.keys ++ s.newKeys delta) := by
  have hnodup : (s.entries.keys ++ s.newKeys delta).Nodup := by
    refine Std.TreeMap.nodup_keys.append ((s.key.nodup_keysOf delta).filter _) ?_
    intro k hold hnew
    exact mem_keys.1 hold (mem_newKeys.1 hnew).2
  -- no key is listed twice on either side, so it is enough to compare which keys there are
  refine (List.perm_ext_iff_of_nodup Std.TreeMap.nodup_keys hnodup).2 fun k => ?_
  rw [List.mem_append, mem_keys, mem_keys, mem_newKeys, probe_applyDelta h, KeySpec.mem_keysOf_iff_getLast?]
  cases (s.key.withKey k delta).getLast? <;> cases s.probe k <;> simp

/-- As many records are inserted as there are keys that were absent. -/
theorem inserted_eq {s s' : SolutionSet} {delta : List Record} {summary : DeltaSummary}
    (h : s.applyDelta delta = .ok (s', summary)) : summary.inserted = (s.newKeys delta).length := by
  have hsize : s'.size = s.size + summary.inserted := (applyDelta_counts h).1
  -- the set has grown by its new keys, and by what was counted as inserted
  have hkeys : s'.size = s.size + (s.newKeys delta).length := by
    rw [size, ← Std.TreeMap.length_keys, (keys_applyDelta_perm h).length_eq, List.length_append,
      Std.TreeMap.length_keys, size]
  omega

/-! ## What each key adds -/

/-- What the records of one key add to the counts of a delta: the first of them inserts if the key was absent, and the
others replace one another. -/
def share (s : SolutionSet) (delta : List Record) (k : Key) : DeltaSummary where
  inserted := if s.probe k = none then 1 else 0
  updated := (s.key.withKey k delta).length - if s.probe k = none then 1 else 0

/-- Every record of a key that occurs is counted once. -/
theorem share_counts {s : SolutionSet} {delta : List Record} {k : Key} (h : k ∈ s.key.keysOf delta) :
    (s.share delta k).inserted + (s.share delta k).updated = (s.key.withKey k delta).length := by
  have hpos := KeySpec.length_withKey_pos h
  simp only [share]
  split <;> omega

theorem inserted_shares (s : SolutionSet) (delta : List Record) :
    ((s.key.keysOf delta).map fun k => (s.share delta k).inserted).sum = (s.newKeys delta).length := by
  simp [share, List.sum_map_ite, newKeys]

/-- What a delta reports is put together from the shares of its keys. -/
theorem shares_eq {s s' : SolutionSet} {delta : List Record} {summary : DeltaSummary}
    (h : s.applyDelta delta = .ok (s', summary)) :
    summary.inserted = ((s.key.keysOf delta).map fun k => (s.share delta k).inserted).sum ∧
      summary.updated = ((s.key.keysOf delta).map fun k => (s.share delta k).updated).sum := by
  have hinserted : summary.inserted = ((s.key.keysOf delta).map fun k => (s.share delta k).inserted).sum :=
    (inserted_eq h).trans (s.inserted_shares delta).symm
  refine ⟨hinserted, ?_⟩
  have hcovers : s.key.Covers delta := isOk_applyDelta_iff.1 (h ▸ rfl)
  have hshares : ((s.key.keysOf delta).map fun k => (s.share delta k).inserted).sum +
      ((s.key.keysOf delta).map fun k => (s.share delta k).updated).sum = delta.length := by
    rw [← List.sum_map_add, ← KeySpec.length_withKey_sum hcovers]
    exact congrArg List.sum (List.map_congr_left fun k hk => share_counts hk)
  have hcount := (applyDelta_counts h).2
  omega

/-! ## All about a delta -/

/-- A delta is refused just if one of its records lacks a key field, and for the first of these records.  What it reports
otherwise is exact: it inserts one record for each of its keys that was absent, by which the set grows, and all other
records update.  The records of one key are counted once each, and one of them as inserted just if the key was absent. -/
theorem applyDelta_exact (s : SolutionSet) (delta : List Record) :
    ((∃ e, s.applyDelta delta = .error e) ↔ ∃ r ∈ delta, ∃ i ∈ s.key.indices, r.get? i = none) ∧
    (∀ e, s.applyDelta delta = .error e → s.key.FirstMalformed delta e) ∧
    ∀ s' summary, s.applyDelta delta = .ok (s', summary) →
      summary.inserted = (s.newKeys delta).length ∧ s'.size = s.size + summary.inserted ∧
      summary.inserted + summary.updated = delta.length ∧
      summary.inserted = ((s.key.keysOf delta).map fun k => (s.share delta k).inserted).sum ∧
      summary.updated = ((s.key.keysOf delta).map fun k => (s.share delta k).updated).sum ∧
      ∀ k ∈ s.key.keysOf delta, (s.share delta k).inserted = (if s.probe k = none then 1 else 0) ∧
        (s.share delta k).inserted + (s.share delta k).updated = (s.key.withKey k delta).length := by
  refine ⟨?_, fun e => firstMalformed_of_applyDelta, ?_⟩
  · have hrefused : (∃ e, s.applyDelta delta = .error e) ↔ ¬(s.applyDelta delta).isOk = true := by
      cases s.applyDelta delta <;> simp [Except.isOk, Except.toBool]
    rw [hrefused, isOk_applyDelta_iff, KeySpec.Covers]
    simp only [KeySpec.exists_extract_iff, not_forall, not_not, exists_prop]
  · intro s' summary h
    rcases applyDelta_counts h with ⟨hsize, hcount⟩
    rcases shares_eq h with ⟨hinserted, hupdated⟩
    exact ⟨inserted_eq h, hsize, hcount, hinserted, hupdated, fun k hk => ⟨rfl, share_counts hk⟩⟩

/-- A delta that writes a new key three times, and one with a record that has no key behind one that has. -/
theorem applyDelta_exact_repeated :
    let key : KeySpec := .field 1
    let row (k v : Int64) : Record := .pair (.int64 v) (.int64 k)
    let s := (empty key).write (⟨[.int64 1]⟩, row 1 0)
    let delta : List Record := [row 2 0, row 1 5, row 2 1, row 2 2]
    let malformed : List Record := [row 3 0, ⟨[.null]⟩, ⟨[]⟩]
    (∃ s', s.applyDelta delta = .ok (s', ⟨1, 3⟩) ∧ (s.newKeys delta).length = 1 ∧ s'.size = s.size + 1) ∧
      s.applyDelta malformed = .error (.missingKeyField 1 1) ∧ key.FirstMalformed malformed (.missingKeyField 1 1) := by
  intro key row s delta malformed
  obtain ⟨s', hok⟩ : ∃ s', s.applyDelta delta = .ok (s', ⟨1, 3⟩) := ⟨_, rfl⟩
  have hrefused : s.applyDelta malformed = .error (.missingKeyField 1 1) := rfl
  rcases applyDelta_exact s delta with ⟨_, _, hcounts⟩
  rcases hcounts _ _ hok with ⟨hinserted, hsize, _⟩
  exact ⟨⟨s', hok, hinserted.symm, hsize⟩, hrefused, (applyDelta_exact s malformed).2.1 _ hrefused⟩

end SolutionSet

end WorksetIteration
