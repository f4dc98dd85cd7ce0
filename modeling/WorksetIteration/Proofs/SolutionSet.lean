import WorksetIteration.SolutionSet
import WorksetIteration.Proofs.Index

/-!
# What a solution set stores

A solution set is described by the records that were ever written to it, in the order of the writes: a key finds the
last one of them that has it.  Seeds and deltas extend that list, and every stored record has the key it is stored by.

Main results:

- `SolutionSet.Stores`: a solution set as the outcome of a list of writes.
- `SolutionSet.probe_applyDelta`, `SolutionSet.Stores.applyDelta`: what a delta does to it.
- `SolutionSet.isOk_applyDelta_iff`: which deltas are written.
- `SolutionSet.applyDelta_counts`: what a delta adds to the number of records.
- `SolutionSet.applyDelta_of_stored`: a delta that only replaces records.
- `SolutionSet.Stores.holds`: as an operand of a join, the set holds its own records.
- `SolutionSet.seed_spec`: records with keys that differ are accepted as seed records.
-/

namespace WorksetIteration

namespace SolutionSet

/-! ## One write -/

@[simp]
theorem key_write (s : SolutionSet) (entry : Key × Record) : (s.write entry).key = s.key :=
  rfl

@[simp]
theorem probe_empty (key : KeySpec) (k : Key) : (empty key).probe k = none := by
  simp [probe, empty]

/-- A written record is found under its key, and other keys find what they have found before. -/
theorem probe_write (s : SolutionSet) (key k : Key) (r : Record) :
    (s.write (key, r)).probe k = if key = k then some r else s.probe k := by
  simp only [probe, write, Std.TreeMap.getElem?_insert, Std.LawfulEqOrd.compare_eq_iff_eq]

/-- The keys of a set are those that find a record. -/
theorem mem_keys {s : SolutionSet} {k : Key} : k ∈ s.entries.keys ↔ s.probe k ≠ none := by
  rw [Std.TreeMap.mem_keys, Std.TreeMap.mem_iff_isSome_getElem?, Option.isSome_iff_ne_none]
  rfl

theorem contains_eq_isSome_probe (s : SolutionSet) (k : Key) : s.entries.contains k = (s.probe k).isSome :=
  Std.TreeMap.contains_eq_isSome_getElem?

theorem contains_eq_false {s : SolutionSet} {k : Key} (h : s.probe k = none) : s.entries.contains k = false := by
  rw [contains_eq_isSome_probe, h]
  rfl

/-- The last record of a key wins, also against one that is written before. -/
theorem getLast?_or_probe_write {s : SolutionSet} {r : Record} {key : Key} (h : s.key.extract r = .ok key) (k : Key)
    (rs : List Record) :
    (s.key.withKey k rs).getLast?.or ((s.write (key, r)).probe k) =
      (s.key.withKey k (r :: rs)).getLast?.or (s.probe k) := by
  rw [probe_write, KeySpec.withKey_cons h]
  by_cases hk : key = k
  · rw [if_pos hk, if_pos hk, List.getLast?_cons]
    cases (s.key.withKey k rs).getLast? <;> rfl
  · rw [if_neg hk, if_neg hk]

/-! ## Deltas -/

theorem keyed_cons {key : KeySpec} {r : Record} {k : Key} {rs : List Record} {entries : List (Key × Record)}
    (hr : key.extract r = .ok k) (hrs : keyed key rs = .ok entries) :
    keyed key (r :: rs) = .ok ((k, r) :: entries) := by
  rw [keyed, hr, hrs]
  rfl

/-- The keys of a delta are extracted where every record has one. -/
theorem keyed_of_covers {key : KeySpec} {rs : List Record} (h : key.Covers rs) :
    ∃ entries, keyed key rs = .ok entries := by
  induction rs with
  | nil => exact ⟨[], rfl⟩
  | cons r rs ih =>
      rcases h r List.mem_cons_self with ⟨k, hk⟩
      rcases ih h.of_cons with ⟨entries, hentries⟩
      exact ⟨_, keyed_cons hk hentries⟩

theorem keyed_cons_inv {key : KeySpec} {r : Record} {rs : List Record} {entries : List (Key × Record)}
    (h : keyed key (r :: rs) = .ok entries) :
    ∃ k more, key.extract r = .ok k ∧ keyed key rs = .ok more ∧ entries = (k, r) :: more := by
  cases hk : key.extract r with
  | error e =>
      rw [keyed, hk] at h
      cases h
  | ok k =>
      cases hmore : keyed key rs with
      | error e =>
          rw [keyed, hk, hmore] at h
          cases h
      | ok more =>
          rw [keyed_cons hk hmore] at h
          exact ⟨k, more, rfl, rfl, (Except.ok.inj h).symm⟩

theorem covers_of_keyed {key : KeySpec} {rs : List Record} {entries : List (Key × Record)}
    (h : keyed key rs = .ok entries) : key.Covers rs := by
  induction rs generalizing entries with
  | nil => exact KeySpec.covers_nil key
  | cons r rs ih =>
      rcases keyed_cons_inv h with ⟨k, more, hk, hmore, _⟩
      exact KeySpec.Covers.cons hk (ih hmore)

theorem length_keyed {key : KeySpec} {rs : List Record} {entries : List (Key × Record)}
    (h : keyed key rs = .ok entries) : entries.length = rs.length := by
  induction rs generalizing entries with
  | nil =>
      obtain rfl : [] = entries := Except.ok.inj h
      rfl
  | cons r rs ih =>
      rcases keyed_cons_inv h with ⟨k, more, _, hmore, rfl⟩
      rw [List.length_cons, List.length_cons, ih hmore]

theorem writeAll_fst_cons (s : SolutionSet) (entry : Key × Record) (entries : List (Key × Record)) :
    (s.writeAll (entry :: entries)).1 = ((s.write entry).writeAll entries).1 :=
  rfl

@[simp]
theorem key_writeAll (s : SolutionSet) (entries : List (Key × Record)) : (s.writeAll entries).1.key = s.key := by
  induction entries generalizing s with
  | nil => rfl
  | cons entry entries ih => rw [writeAll_fst_cons, ih, key_write]

theorem probe_writeAll {s : SolutionSet} {rs : List Record} {entries : List (Key × Record)}
    (h : keyed s.key rs = .ok entries) (k : Key) :
    (s.writeAll entries).1.probe k = (s.key.withKey k rs).getLast?.or (s.probe k) := by
  induction rs generalizing s entries with
  | nil =>
      obtain rfl : [] = entries := Except.ok.inj h
      rfl
  | cons r rs ih =>
      rcases keyed_cons_inv h with ⟨key, more, hkey, hmore, rfl⟩
      rw [writeAll_fst_cons, ih (s := s.write (key, r)) hmore, key_write, getLast?_or_probe_write hkey]

theorem applyDelta_eq_ok {s s' : SolutionSet} {delta : List Record} {summary : DeltaSummary}
    (h : s.applyDelta delta = .ok (s', summary)) :
    ∃ entries, keyed s.key delta = .ok entries ∧ s.writeAll entries = (s', summary) := by
  cases hentries : keyed s.key delta with
  | error e =>
      rw [applyDelta, hentries] at h
      cases h
  | ok entries =>
      rw [applyDelta, hentries] at h
      exact ⟨entries, rfl, Except.ok.inj h⟩

/-- A delta whose records all have keys is written. -/
theorem applyDelta_of_covers {s : SolutionSet} {delta : List Record} (h : s.key.Covers delta) :
    ∃ s' summary, s.applyDelta delta = .ok (s', summary) := by
  rcases keyed_of_covers h with ⟨entries, hentries⟩
  refine ⟨(s.writeAll entries).1, (s.writeAll entries).2, ?_⟩
  rw [applyDelta, hentries]
  rfl

/-- A delta is written just if every record of it has a key. -/
theorem isOk_applyDelta_iff {s : SolutionSet} {delta : List Record} :
    (s.applyDelta delta).isOk = true ↔ s.key.Covers delta := by
  constructor
  · intro hok
    cases hdelta : s.applyDelta delta with
    | error e =>
        rw [hdelta] at hok
        cases hok
    | ok out =>
        rcases applyDelta_eq_ok hdelta with ⟨entries, hentries, _⟩
        exact covers_of_keyed hentries
  · intro hcovers
    rcases applyDelta_of_covers hcovers with ⟨s', summary, hdelta⟩
    rw [hdelta]
    rfl

theorem key_applyDelta {s s' : SolutionSet} {delta : List Record} {summary : DeltaSummary}
    (h : s.applyDelta delta = .ok (s', summary)) : s'.key = s.key := by
  rcases applyDelta_eq_ok h with ⟨entries, _, hwrite⟩
  have := key_writeAll s entries
  rwa [hwrite] at this

/-- After a delta a key finds the last record of the delta that has it, and without one what it has found before. -/
theorem probe_applyDelta {s s' : SolutionSet} {delta : List Record} {summary : DeltaSummary}
    (h : s.applyDelta delta = .ok (s', summary)) (k : Key) :
    s'.probe k = (s.key.withKey k delta).getLast?.or (s.probe k) := by
  rcases applyDelta_eq_ok h with ⟨entries, hentries, hwrite⟩
  have := probe_writeAll hentries k
  rwa [hwrite] at this

theorem size_write (s : SolutionSet) (entry : Key × Record) :
    (s.write entry).size = if s.entries.contains entry.1 then s.size else s.size + 1 :=
  Std.TreeMap.size_insert

/-- Every write is counted once, and the set grows by the writes under new keys. -/
theorem writeAll_counts (s : SolutionSet) (entries : List (Key × Record)) :
    (s.writeAll entries).1.size = s.size + (s.writeAll entries).2.inserted ∧
      (s.writeAll entries).2.inserted + (s.writeAll entries).2.updated = entries.length := by
  induction entries generalizing s with
  | nil => exact ⟨rfl, rfl⟩
  | cons entry entries ih =>
      rcases ih (s.write entry) with ⟨hsize, hcount⟩
      rw [size_write] at hsize
      simp only [writeAll, List.length_cons]
      cases hold : s.entries.contains entry.1 with
      | true =>
          rw [hold, if_pos rfl] at hsize
          simp only [if_true]
          omega
      | false =>
          rw [hold, if_neg Bool.false_ne_true] at hsize
          simp only [Bool.false_eq_true, if_false]
          omega

/-- The counts of a delta: each of its records is counted once, and the set grows by those under new keys. -/
theorem applyDelta_counts {s s' : SolutionSet} {delta : List Record} {summary : DeltaSummary}
    (h : s.applyDelta delta = .ok (s', summary)) :
    s'.size = s.size + summary.inserted ∧ summary.inserted + summary.updated = delta.length := by
  rcases applyDelta_eq_ok h with ⟨entries, hentries, hwrite⟩
  have hcounts := s.writeAll_counts entries
  rwa [hwrite, length_keyed hentries] at hcounts

/-- Writes under keys that are there insert nothing. -/
theorem inserted_writeAll_of_stored {s : SolutionSet} {entries : List (Key × Record)}
    (h : ∀ entry ∈ entries, (s.probe entry.1).isSome) : (s.writeAll entries).2.inserted = 0 := by
  induction entries generalizing s with
  | nil => rfl
  | cons entry entries ih =>
      have hentry : s.entries.contains entry.1 = true := by
        rw [contains_eq_isSome_probe]
        exact h entry List.mem_cons_self
      have hrest : ∀ e ∈ entries, ((s.write entry).probe e.1).isSome := by
        intro e he
        rw [probe_write]
        split
        · rfl
        · exact h e (List.mem_cons_of_mem _ he)
      rw [writeAll]
      simp only [hentry, if_true]
      exact ih hrest

theorem mem_of_keyed {key : KeySpec} {rs : List Record} {entries : List (Key × Record)}
    (h : keyed key rs = .ok entries) {entry : Key × Record} (hmem : entry ∈ entries) :
    entry.2 ∈ rs ∧ key.extract entry.2 = .ok entry.1 := by
  induction rs generalizing entries with
  | nil =>
      obtain rfl : [] = entries := Except.ok.inj h
      cases hmem
  | cons r rs ih =>
      rcases keyed_cons_inv h with ⟨k, more, hk, hmore, rfl⟩
      rcases List.mem_cons.1 hmem with rfl | hmem
      · exact ⟨List.mem_cons_self, hk⟩
      · rcases ih hmore hmem with ⟨hin, hextract⟩
        exact ⟨List.mem_cons_of_mem _ hin, hextract⟩

/-- A delta without repeated keys whose keys are all there replaces the records found under them, and nothing else. -/
theorem applyDelta_of_stored {s : SolutionSet} {delta : List Record}
    (hdistinct : delta.Pairwise fun a b => s.key.extract a ≠ s.key.extract b)
    (hstored : ∀ r ∈ delta, ∃ k, s.key.extract r = .ok k ∧ (s.probe k).isSome) :
    ∃ s', s.applyDelta delta = .ok (s', ⟨0, delta.length⟩) ∧
      (∀ r ∈ delta, ∀ k, s.key.extract r = .ok k → s'.probe k = some r) ∧
      ∀ k, (∀ r ∈ delta, s.key.extract r ≠ .ok k) → s'.probe k = s.probe k := by
  have hcovers : s.key.Covers delta := by
    intro r hr
    rcases hstored r hr with ⟨k, hk, _⟩
    exact ⟨k, hk⟩
  rcases applyDelta_of_covers hcovers with ⟨s', ⟨inserted, updated⟩, hdelta⟩
  have hinserted : inserted = 0 := by
    rcases applyDelta_eq_ok hdelta with ⟨entries, hentries, hwrite⟩
    have hzero : (s.writeAll entries).2.inserted = 0 := by
      apply inserted_writeAll_of_stored
      intro entry hentry
      rcases mem_of_keyed hentries hentry with ⟨hmem, hextract⟩
      rcases hstored _ hmem with ⟨k, hk, hsome⟩
      cases hextract.symm.trans hk
      exact hsome
    rwa [hwrite] at hzero
  have hupdated : updated = delta.length := by
    have hcount : inserted + updated = delta.length := (applyDelta_counts hdelta).2
    omega
  refine ⟨s', ?_, ?_, ?_⟩
  · rw [hdelta, hinserted, hupdated]
  · intro r hr k hk
    rw [probe_applyDelta hdelta, KeySpec.withKey_eq_singleton hdistinct hr hk]
    rfl
  · intro k hk
    rw [probe_applyDelta hdelta, KeySpec.withKey_eq_nil hk]
    rfl

/-! ## Seeding -/

theorem insertNew_cons {s : SolutionSet} {r : Record} {k : Key} (hk : s.key.extract r = .ok k)
    (hnew : s.probe k = none) (rs : List Record) : s.insertNew (r :: rs) = (s.write (k, r)).insertNew rs := by
  rw [insertNew, hk]
  change (if s.entries.contains k then _ else _) = _
  rw [contains_eq_false hnew]
  rfl

theorem insertNew_cons_inv {s out : SolutionSet} {r : Record} {rs : List Record}
    (h : s.insertNew (r :: rs) = .ok out) :
    ∃ k, s.key.extract r = .ok k ∧ s.probe k = none ∧ (s.write (k, r)).insertNew rs = .ok out := by
  cases hk : s.key.extract r with
  | error e =>
      rw [insertNew, hk] at h
      cases h
  | ok k =>
      refine ⟨k, rfl, ?_⟩
      cases hprobe : s.probe k with
      | none => exact ⟨rfl, insertNew_cons hk hprobe rs ▸ h⟩
      | some old =>
          have hcontains : s.entries.contains k = true := by
            rw [contains_eq_isSome_probe, hprobe]
            rfl
          rw [insertNew, hk] at h
          change (if s.entries.contains k then _ else _) = _ at h
          rw [hcontains] at h
          cases h

/-- Seed records are written one after the other. -/
theorem insertNew_spec {s out : SolutionSet} {rs : List Record} (h : s.insertNew rs = .ok out) :
    out.key = s.key ∧ s.key.Covers rs ∧
      ∀ k, out.probe k = (s.key.withKey k rs).getLast?.or (s.probe k) := by
  induction rs generalizing s with
  | nil =>
      obtain rfl : s = out := Except.ok.inj h
      exact ⟨rfl, KeySpec.covers_nil _, fun k => rfl⟩
  | cons r rs ih =>
      rcases insertNew_cons_inv h with ⟨key, hkey, _, hrest⟩
      rcases ih hrest with ⟨hspec, hcovers, hprobe⟩
      refine ⟨hspec, KeySpec.Covers.cons hkey hcovers, ?_⟩
      intro k
      rw [hprobe, key_write, getLast?_or_probe_write hkey]

theorem size_of_insertNew {s out : SolutionSet} {rs : List Record} (h : s.insertNew rs = .ok out) :
    out.size = s.size + rs.length := by
  induction rs generalizing s with
  | nil =>
      obtain rfl : s = out := Except.ok.inj h
      rfl
  | cons r rs ih =>
      rcases insertNew_cons_inv h with ⟨k, _, hnew, hrest⟩
      rw [ih hrest, size_write, contains_eq_false hnew, List.length_cons]
      simp only [Bool.false_eq_true, if_false]
      omega

/-- A seeded set has as many records as it was given. -/
theorem size_of_seed {rs : List Record} {key : KeySpec} {s : SolutionSet} (h : seed rs key = .ok s) :
    s.size = rs.length :=
  (size_of_insertNew h).trans (by simp [size, empty])

/-- Records whose keys are there, differ and are new are accepted. -/
theorem insertNew_of_pairwise {s : SolutionSet} {rs : List Record} (hcovers : s.key.Covers rs)
    (hdistinct : rs.Pairwise fun a b => s.key.extract a ≠ s.key.extract b)
    (hnew : ∀ r ∈ rs, ∀ k, s.key.extract r = .ok k → s.probe k = none) : ∃ out, s.insertNew rs = .ok out := by
  induction rs generalizing s with
  | nil => exact ⟨s, rfl⟩
  | cons r rs ih =>
      rcases hcovers r List.mem_cons_self with ⟨k, hk⟩
      rw [List.pairwise_cons] at hdistinct
      rw [insertNew_cons hk (hnew r List.mem_cons_self k hk)]
      refine ih (s := s.write (k, r)) hcovers.of_cons hdistinct.2 ?_
      intro x hx key hkey
      have hne : k ≠ key := by
        rintro rfl
        exact hdistinct.1 x hx (hk.trans hkey.symm)
      rw [probe_write, if_neg hne]
      exact hnew x (List.mem_cons_of_mem _ hx) key hkey

/-! ## Writes as a list -/

/-- A solution set is the outcome of writing a list of records: a key finds the last one that has it. -/
structure Stores (s : SolutionSet) (written : List Record) : Prop where
  /-- Every record had a key. -/
  covers : s.key.Covers written
  /-- The last record of a key stays. -/
  probe_eq : ∀ k, s.probe k = (s.key.withKey k written).getLast?

/-- A stored record has the key it is stored by. -/
theorem Stores.extract_of_probe {s : SolutionSet} {written : List Record} (h : s.Stores written) {k : Key}
    {r : Record} (hr : s.probe k = some r) : s.key.extract r = .ok k := by
  rw [h.probe_eq] at hr
  exact (KeySpec.mem_withKey.1 (List.mem_of_getLast? hr)).2

/-- A delta is written behind what was written before. -/
theorem Stores.applyDelta {s s' : SolutionSet} {written delta : List Record} {summary : DeltaSummary}
    (hs : s.Stores written) (h : s.applyDelta delta = .ok (s', summary)) : s'.Stores (written ++ delta) := by
  rcases applyDelta_eq_ok h with ⟨entries, hentries, _⟩
  have hdelta : s.key.Covers delta := covers_of_keyed hentries
  have hkey : s'.key = s.key := key_applyDelta h
  constructor
  · rw [hkey]
    exact hs.covers.append hdelta
  · intro k
    rw [probe_applyDelta h, hs.probe_eq, hkey, KeySpec.withKey, KeySpec.withKey, KeySpec.withKey,
      List.filter_append, List.getLast?_append]

/-- A seeded set stores the seed records. -/
theorem stores_of_seed {rs : List Record} {key : KeySpec} {s : SolutionSet} (h : seed rs key = .ok s) :
    s.key = key ∧ s.Stores rs := by
  rcases insertNew_spec h with ⟨hkey, hcovers, hprobe⟩
  have hkey : s.key = key := hkey
  refine ⟨hkey, ?_, ?_⟩
  · rw [hkey]
    exact hcovers
  · intro k
    rw [hprobe, probe_empty, Option.or_none, hkey]
    rfl

/-- Seed records are accepted where they have keys that differ, and they are what the set stores. -/
theorem seed_spec {rs : List Record} {key : KeySpec} (hcovers : key.Covers rs)
    (hdistinct : rs.Pairwise fun a b => key.extract a ≠ key.extract b) :
    ∃ s, seed rs key = .ok s ∧ s.key = key ∧ s.Stores rs := by
  rcases insertNew_of_pairwise (s := empty key) hcovers hdistinct fun _ _ k _ => probe_empty key k with ⟨s, hs⟩
  exact ⟨s, hs, stores_of_seed hs⟩

/-- A solution set as an iteration has it: made by seeding and by writing deltas. -/
inductive Reachable : SolutionSet → Prop
  | seed {rs : List Record} {key : KeySpec} {s : SolutionSet} : SolutionSet.seed rs key = .ok s → Reachable s
  | applyDelta {s s' : SolutionSet} {delta : List Record} {summary : DeltaSummary} :
      Reachable s → s.applyDelta delta = .ok (s', summary) → Reachable s'

theorem Reachable.stores {s : SolutionSet} (h : s.Reachable) : ∃ written, s.Stores written := by
  induction h with
  | seed h => exact ⟨_, (stores_of_seed h).2⟩
  | applyDelta _ hdelta ih =>
      rcases ih with ⟨written, hwritten⟩
      exact ⟨_, hwritten.applyDelta hdelta⟩

/-! ## All records -/

theorem mem_records {s : SolutionSet} {r : Record} : r ∈ s.records ↔ ∃ k, s.probe k = some r := by
  simp only [records, List.mem_map, Prod.exists, probe, Std.TreeMap.mem_toList_iff_getElem?_eq_some,
    exists_eq_right]

@[simp]
theorem length_records (s : SolutionSet) : s.records.length = s.size := by
  rw [records, List.length_map, Std.TreeMap.length_toList, size]

/-- Among all records, those of a key are the one that the key finds. -/
theorem Stores.withKey_records {s : SolutionSet} {written : List Record} (h : s.Stores written) (k : Key) :
    s.key.withKey k s.records = (s.probe k).toList := by
  have hentry : ∀ entry ∈ s.entries.toList, s.key.extract entry.2 = .ok entry.1 := by
    rintro ⟨key, r⟩ hentry
    exact h.extract_of_probe (Std.TreeMap.mem_toList_iff_getElem?_eq_some.1 hentry)
  have hfilter : s.entries.toList.filter ((fun r => decide (s.key.extract r = .ok k)) ∘ Prod.snd) =
      s.entries.toList.filter fun entry => decide (entry.1 = k) := by
    apply List.filter_congr
    intro entry hmem
    simp [hentry entry hmem]
  have hperm : (s.entries.toList.filter fun entry => decide (entry.1 = k)).Perm
      ((s.probe k).toList.map fun r => (k, r)) := by
    have hnodup : s.entries.toList.Nodup := by
      have hkeys : s.entries.keys.Nodup := Std.TreeMap.nodup_keys
      rw [← Std.TreeMap.map_fst_toList_eq_keys] at hkeys
      exact List.Nodup.of_map _ hkeys
    apply (List.perm_ext_iff_of_nodup (hnodup.filter _) ?_).2
    · rintro ⟨key, r⟩
      simp only [List.mem_filter, Std.TreeMap.mem_toList_iff_getElem?_eq_some, decide_eq_true_eq, List.mem_map,
        Option.mem_toList, Prod.mk.injEq, probe]
      constructor
      · rintro ⟨hr, rfl⟩
        exact ⟨r, hr, rfl, rfl⟩
      · rintro ⟨r', hr, rfl, rfl⟩
        exact ⟨hr, rfl⟩
    · cases s.probe k <;> simp
  rw [KeySpec.withKey, records, List.filter_map, hfilter]
  cases hprobe : s.probe k with
  | none =>
      rw [hprobe] at hperm
      rw [List.perm_nil.1 hperm]
      rfl
  | some r =>
      rw [hprobe] at hperm
      rw [List.perm_singleton.1 hperm]
      rfl

/-- No record is stored twice. -/
theorem Stores.nodup_records {s : SolutionSet} {written : List Record} (h : s.Stores written) : s.records.Nodup := by
  rw [List.nodup_iff_count_le_one]
  intro r
  by_cases hr : r ∈ s.records
  · rcases mem_records.1 hr with ⟨k, hk⟩
    have hkey : decide (s.key.extract r = .ok k) = true := decide_eq_true (h.extract_of_probe hk)
    have hwith := h.withKey_records k
    rw [KeySpec.withKey, hk] at hwith
    rw [← List.count_filter (p := fun r => decide (s.key.extract r = .ok k)) hkey, hwith]
    exact List.count_le_length
  · rw [List.count_eq_zero_of_not_mem hr]
    exact Nat.zero_le 1

/-- A seeded set has the records it was given. -/
theorem records_perm_of_seed {rs : List Record} {key : KeySpec} {s : SolutionSet} (h : seed rs key = .ok s) :
    s.records.Perm rs := by
  have hs : s.Stores rs := (stores_of_seed h).2
  have hsubset : s.records ⊆ rs := by
    intro r hr
    rcases mem_records.1 hr with ⟨k, hk⟩
    rw [hs.probe_eq] at hk
    exact (KeySpec.mem_withKey.1 (List.mem_of_getLast? hk)).1
  have hlength : rs.length ≤ s.records.length := by rw [length_records, size_of_seed h]
  exact (hs.nodup_records.subperm hsubset).perm_of_length_le hlength

/-- The keys of the records are those that find one. -/
theorem Stores.mem_map_extract {s : SolutionSet} {written : List Record} (h : s.Stores written) {k : Key} :
    .ok k ∈ s.records.map s.key.extract ↔ (s.probe k).isSome := by
  rw [List.mem_map, Option.isSome_iff_exists]
  constructor
  · rintro ⟨r, hr, hextract⟩
    rcases mem_records.1 hr with ⟨k', hk'⟩
    cases (h.extract_of_probe hk').symm.trans hextract
    exact ⟨r, hk'⟩
  · rintro ⟨r, hr⟩
    exact ⟨r, mem_records.2 ⟨k, hr⟩, h.extract_of_probe hr⟩

/-- As a collection stored by key, a solution set holds its own records. -/
theorem Stores.holds {s : SolutionSet} {written : List Record} (h : s.Stores written) :
    s.toKeyed.Holds s.records where
  covers := by
    intro r hr
    rcases mem_records.1 hr with ⟨k, hk⟩
    exact ⟨k, h.extract_of_probe hk⟩
  size_eq := by
    simp [toKeyed, size, records]
  lookup_eq := by
    intro k
    change (s.lookup k).toList = s.key.withKey k s.records
    rw [h.withKey_records k, lookup]
    cases s.probe k <;> rfl
  records_perm := List.Perm.refl _

end SolutionSet

end WorksetIteration
