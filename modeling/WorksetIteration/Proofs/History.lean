import WorksetIteration.SolutionSet.InPlace
import WorksetIteration.Proofs.SolutionSet

/-!
# Histories of a solution set

A solution set that is kept in place through deltas of which some fail.  It refines a finite map in which the last
writer of a key wins: what was written is the seed and the deltas that did not fail, and a delta that fails is as if it
had never come.

Main results:

- `SolutionSet.upsert_eq`: a delta in place does what `applyDelta` does, or nothing.
- `SolutionSet.isOk_upsert_iff`: which deltas are written.
- `SolutionSet.upsertAll_spec`: what a history has written.
- `SolutionSet.Refines`: a solution set as the map of the last record written under each key.
- `SolutionSet.upsertAll_refines`: after every history of a seeded set it is that map, no key was lost, and the deltas
  that fail leave it unchanged.
-/

namespace WorksetIteration

namespace SolutionSet

/-! ## One delta in place -/

/-- Writing in place leaves the set that `writeAll` makes, and its counts are added to those made so far. -/
theorem run_writeEach (s : SolutionSet) (summary : DeltaSummary) (entries : List (Key × Record)) :
    (writeEach summary entries).run s =
      (.ok ⟨summary.inserted + (s.writeAll entries).2.inserted, summary.updated + (s.writeAll entries).2.updated⟩,
        (s.writeAll entries).1) := by
  induction entries generalizing s summary with
  | nil => rfl
  | cons entry entries ih =>
      have hstep : (writeEach summary (entry :: entries)).run s =
          (writeEach (if s.entries.contains entry.1 then { summary with updated := summary.updated + 1 }
            else { summary with inserted := summary.inserted + 1 }) entries).run (s.write entry) := rfl
      rw [hstep, ih, writeAll]
      cases s.entries.contains entry.1 with
      | true => simp only [if_true, Nat.add_right_comm, ← Nat.add_assoc]
      | false => simp only [Bool.false_eq_true, if_false, Nat.add_right_comm, ← Nat.add_assoc]

theorem run_upsert (s : SolutionSet) (delta : List Record) :
    (upsert delta).run s =
      match keyed s.key delta with
      | .ok entries => (writeEach ⟨0, 0⟩ entries).run s
      | .error e => (.error e, s) := by
  change ((MonadExcept.ofExcept (keyed s.key delta) : Update _) >>= writeEach ⟨0, 0⟩).run s = _
  cases keyed s.key delta <;> rfl

/-- A delta in place does what `applyDelta` does, and one that fails does nothing. -/
theorem upsert_eq (s : SolutionSet) (delta : List Record) :
    (upsert delta).run s =
      match s.applyDelta delta with
      | .ok (s', summary) => (.ok summary, s')
      | .error e => (.error e, s) := by
  rw [run_upsert, applyDelta]
  cases keyed s.key delta with
  | error e => rfl
  | ok entries =>
      simp only [run_writeEach, Nat.zero_add]
      rfl

/-- A delta in place succeeds just if every record of it has a key. -/
theorem isOk_upsert_iff (s : SolutionSet) (delta : List Record) :
    ((upsert delta).run s).1.isOk = true ↔ s.key.Covers delta := by
  rw [upsert_eq, ← isOk_applyDelta_iff]
  cases s.applyDelta delta <;> rfl

/-! ## Histories -/

theorem upsertAll_cons (s : SolutionSet) (delta : List Record) (rest : List (List Record)) :
    upsertAll (delta :: rest) s =
      (((upsert delta).run s).1 :: (upsertAll rest ((upsert delta).run s).2).1,
        (upsertAll rest ((upsert delta).run s).2).2) :=
  rfl

/-- What a history has written behind what was written before it: the deltas that did not fail. -/
theorem upsertAll_spec {s : SolutionSet} {written : List Record} (hs : s.Stores written) (deltas : List (List Record)) :
    (upsertAll deltas s).2.key = s.key ∧
      (upsertAll deltas s).2.Stores (written ++ accepted deltas (upsertAll deltas s).1) := by
  induction deltas generalizing s written with
  | nil =>
      have hnone : accepted [] (upsertAll [] s).1 = [] := rfl
      rw [hnone, List.append_nil]
      exact ⟨rfl, hs⟩
  | cons delta rest ih =>
      rw [upsertAll_cons, upsert_eq]
      cases hdelta : s.applyDelta delta with
      | error e => exact ih hs
      | ok out =>
          obtain ⟨s', summary⟩ := out
          rcases ih (hs.applyDelta hdelta) with ⟨hkey, hstores⟩
          refine ⟨hkey.trans (key_applyDelta hdelta), ?_⟩
          rw [accepted, ← List.append_assoc]
          exact hstores

/-- A key that was written once finds a record whatever is written later. -/
theorem Stores.isSome_probe_of_append {s s' : SolutionSet} {written more : List Record} (hs : s.Stores written)
    (hs' : s'.Stores (written ++ more)) (hkey : s'.key = s.key) {k : Key} (hk : (s.probe k).isSome) :
    (s'.probe k).isSome := by
  rw [hs.probe_eq, List.getLast?_isSome] at hk
  rw [hs'.probe_eq, List.getLast?_isSome, hkey, KeySpec.withKey, List.filter_append]
  exact List.append_ne_nil_of_left_ne_nil hk _

/-! ## The map of the last writers -/

/-- A solution set refines the finite map of the last record written under each key. -/
structure Refines (s : SolutionSet) (key : KeySpec) (written : List Record) : Prop where
  /-- The last record written with a key is the one that is found. -/
  probe_eq : ∀ k, s.probe k = (key.withKey k written).getLast?
  /-- A record is stored under the key that it has. -/
  extract_eq : ∀ k r, s.probe k = some r → key.extract r = .ok k
  /-- A key is looked up as the list of its record. -/
  lookup_eq : ∀ k, (s.lookup k).toList = (s.probe k).toList
  /-- The records listed are those that the keys find. -/
  mem_records : ∀ r, r ∈ s.records ↔ ∃ k, s.probe k = some r
  /-- The keys of the records listed differ. -/
  distinct : s.records.Pairwise fun a b => key.extract a ≠ key.extract b
  /-- As many records are listed as there are. -/
  length_records : s.records.length = s.size
  /-- There are as many as keys were written. -/
  size_eq : s.size = (key.keysOf written).length

/-- The keys of a set are those that were written. -/
theorem Stores.mem_keys {s : SolutionSet} {written : List Record} (h : s.Stores written) {k : Key} :
    k ∈ s.entries.keys ↔ k ∈ s.key.keysOf written := by
  rw [SolutionSet.mem_keys, h.probe_eq, KeySpec.mem_keysOf_iff_getLast?]

theorem Stores.size_eq {s : SolutionSet} {written : List Record} (h : s.Stores written) :
    s.size = (s.key.keysOf written).length := by
  have hperm : s.entries.keys.Perm (s.key.keysOf written) :=
    (List.perm_ext_iff_of_nodup Std.TreeMap.nodup_keys (s.key.nodup_keysOf written)).2 fun _ => h.mem_keys
  rw [size, ← hperm.length_eq, Std.TreeMap.length_keys]

/-- The records listed have different keys. -/
theorem Stores.pairwise_records {s : SolutionSet} {written : List Record} (h : s.Stores written) :
    s.records.Pairwise fun a b => s.key.extract a ≠ s.key.extract b := by
  rw [records, List.pairwise_map]
  refine List.Pairwise.imp_of_mem ?_ Std.TreeMap.distinct_keys_toList
  rintro ⟨k, r⟩ ⟨k', r'⟩ hr hr' hne hextract
  rw [Std.TreeMap.mem_toList_iff_getElem?_eq_some] at hr hr'
  rw [h.extract_of_probe hr, h.extract_of_probe hr'] at hextract
  exact hne (Std.LawfulEqOrd.compare_eq_iff_eq.2 (Except.ok.inj hextract))

/-- Sets stored by one key in which the same keys find records have records with the same keys. -/
theorem Stores.map_extract_perm {s s' : SolutionSet} {written written' : List Record} (hs : s.Stores written)
    (hs' : s'.Stores written') (hkey : s'.key = s.key) (h : ∀ k, (s'.probe k).isSome = (s.probe k).isSome) :
    (s.records.map s.key.extract).Perm (s'.records.map s.key.extract) := by
  have hdistinct' := hs'.pairwise_records
  have hmem' := fun k => hs'.mem_map_extract (k := k)
  have hcovers' := hs'.holds.covers
  change s'.key.Covers s'.records at hcovers'
  rw [hkey] at hdistinct' hmem' hcovers'
  refine (List.perm_ext_iff_of_nodup (List.pairwise_map.2 hs.pairwise_records) (List.pairwise_map.2 hdistinct')).2 ?_
  rintro (e | k)
  · have hnone : ∀ rs, s.key.Covers rs → Except.error e ∉ rs.map s.key.extract := by
      intro rs hrs hmem
      rcases List.mem_map.1 hmem with ⟨r, hr, herror⟩
      rcases hrs r hr with ⟨k, hk⟩
      cases hk.symm.trans herror
    exact iff_of_false (hnone _ hs.holds.covers) (hnone _ hcovers')
  · rw [hs.mem_map_extract, hmem', h]

/-- The records of a set, in any order, are accepted as seed records, and are what the seeded set has. -/
theorem Stores.exists_seed {s : SolutionSet} {written rs : List Record} (h : s.Stores written)
    (hperm : rs.Perm s.records) : ∃ t, seed rs s.key = .ok t ∧ t.records.Perm s.records := by
  have hcovers : s.key.Covers s.records := h.holds.covers
  rcases seed_spec (hcovers.perm hperm.symm) ((hperm.pairwise_iff fun hne => hne.symm).2 h.pairwise_records) with
    ⟨t, ht, _⟩
  exact ⟨t, ht, (records_perm_of_seed ht).trans hperm⟩

/-- The outcome of some writes is the map of the last writers. -/
theorem Stores.refines {s : SolutionSet} {written : List Record} (h : s.Stores written) : s.Refines s.key written where
  probe_eq := h.probe_eq
  extract_eq _ _ hr := h.extract_of_probe hr
  lookup_eq k := by
    rw [lookup]
    cases s.probe k <;> rfl
  mem_records _ := SolutionSet.mem_records
  distinct := h.pairwise_records
  length_records := s.length_records
  size_eq := h.size_eq

/-- After every history of a seeded set, with deltas that fail among the others, the set is the map of the last
writers.  Whatever follows loses none of its keys, and a delta that fails leaves it exactly as it was. -/
theorem upsertAll_refines {seeds : List Record} {key : KeySpec} {s after : SolutionSet} {deltas : List (List Record)}
    {replies : List (Except Error DeltaSummary)} (hseed : seed seeds key = .ok s)
    (hrun : upsertAll deltas s = (replies, after)) :
    after.Refines key (seeds ++ accepted deltas replies) ∧
      (∀ more k, (after.probe k).isSome → ((upsertAll more after).2.probe k).isSome) ∧
      ∀ delta e, ((upsert delta).run after).1 = .error e → ((upsert delta).run after).2 = after := by
  rcases stores_of_seed hseed with ⟨hkey, hs⟩
  have hhistory := upsertAll_spec hs deltas
  rw [hrun] at hhistory
  rcases hhistory with ⟨hafter, hstores⟩
  refine ⟨?_, ?_, ?_⟩
  · have hrefines := hstores.refines
    rwa [hafter, hkey] at hrefines
  · intro more k hk
    rcases upsertAll_spec hstores more with ⟨hlater, hmore⟩
    exact hstores.isSome_probe_of_append hmore hlater hk
  · intro delta e herror
    rw [upsert_eq] at herror ⊢
    cases hdelta : after.applyDelta delta with
    | error e => rfl
    | ok out =>
        rw [hdelta] at herror
        cases herror

/-- A delta with a record that has no key, and behind it one that writes a key twice. -/
theorem upsertAll_refines_past_malformed :
    let key : KeySpec := .field 0
    let seeds : List Record := [.pair (.int64 1) .null]
    let deltas : List (List Record) :=
      [[.pair (.int64 1) (.int64 0), ⟨[]⟩], [.pair (.int64 2) (.int64 6), .pair (.int64 2) (.int64 7)]]
    let written : List Record := [.pair (.int64 1) .null, .pair (.int64 2) (.int64 6), .pair (.int64 2) (.int64 7)]
    ∃ s after, seed seeds key = .ok s ∧
      upsertAll deltas s = ([.error (.missingKeyField 0 0), .ok ⟨1, 1⟩], after) ∧ after.Refines key written ∧
      (after.probe ⟨[.int64 2]⟩).isSome ∧ ((upsertAll [[.pair (.int64 4) .null]] after).2.probe ⟨[.int64 2]⟩).isSome ∧
      ((upsert [⟨[]⟩]).run after).1 = .error (.missingKeyField 0 0) ∧ ((upsert [⟨[]⟩]).run after).2 = after := by
  intro key seeds deltas written
  refine ⟨_, _, rfl, rfl, ?_⟩
  rcases @upsertAll_refines seeds key _ _ deltas _ rfl rfl with ⟨hrefines, hkept, hfailed⟩
  exact ⟨hrefines, rfl, hkept _ _ rfl, rfl, hfailed _ _ rfl⟩

end SolutionSet

end WorksetIteration
