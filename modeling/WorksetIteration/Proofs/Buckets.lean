import WorksetIteration.Proofs.Index

/-!
# Buckets of an index

An index has one bucket for each key that occurs in its list of records.  It is refused just if a record of the list has
no key, and then for the first such record; otherwise its counts are those of the list: the records, the different keys,
and the most records of one key.  An index for a join is refused for the same lists, and differs in the buckets of keys
with missing values, which it leaves out.

Main results:

- `Index.addAll_eq_error_iff`, `Index.addMatchable_eq_error_iff`: why an index is refused.
- `Index.keys_perm_of_build`: the keys of the buckets are those that occur in the list.
- `Index.build_exact`: which lists have an index, what it finds and what it counts, with and without missing values.
-/

namespace WorksetIteration

namespace Index

/-! ## Refused records -/

/-- Records are refused for the first of them without a key. -/
theorem addAll_eq_error_iff {index : Index} {rs : List Record} {e : Error} :
    index.addAll rs = .error e ↔ index.key.FirstMalformed rs e := by
  induction rs generalizing index with
  | nil => exact iff_of_false nofun (KeySpec.not_firstMalformed_nil _ e)
  | cons r rs ih =>
      rw [addAll]
      exact KeySpec.bind_extract_eq_error_iff fun k => ih

/-- Missing key values make no difference to that. -/
theorem addMatchable_eq_error_iff {index : Index} {rs : List Record} {e : Error} :
    index.addMatchable rs = .error e ↔ index.key.FirstMalformed rs e := by
  induction rs generalizing index with
  | nil => exact iff_of_false nofun (KeySpec.not_firstMalformed_nil _ e)
  | cons r rs ih =>
      rw [addMatchable]
      refine KeySpec.bind_extract_eq_error_iff fun k => ?_
      split
      · exact ih
      · exact ih

/-! ## Keys with a bucket -/

theorem mem_buckets_push {index : Index} {key k : Key} {r : Record} :
    k ∈ (index.push key r).buckets ↔ key = k ∨ k ∈ index.buckets := by
  simp only [push, Std.TreeMap.mem_alter, Std.LawfulEqOrd.compare_eq_iff_eq]
  by_cases h : key = k <;> simp [h]

/-- Adding records makes a bucket for each key that occurs among them. -/
theorem mem_buckets_of_addAll {index out : Index} {rs : List Record} (h : index.addAll rs = .ok out) (k : Key) :
    k ∈ out.buckets ↔ k ∈ index.key.keysOf rs ∨ k ∈ index.buckets := by
  induction rs generalizing index with
  | nil =>
      obtain rfl : index = out := Except.ok.inj h
      simp [KeySpec.mem_keysOf]
  | cons r rs ih =>
      rcases bind_eq_ok_iff.1 h with ⟨key, hkey, hrest⟩
      rw [ih hrest, mem_buckets_push, KeySpec.mem_keysOf, KeySpec.mem_keysOf, List.exists_mem_cons_iff, hkey]
      simp only [key_push, Except.ok.injEq]
      rw [or_left_comm, or_assoc]

/-- The keys of the buckets are the keys that occur. -/
theorem keys_perm_of_build {rs : List Record} {key : KeySpec} {index : Index} (h : build rs key = .ok index) :
    index.buckets.keys.Perm (key.keysOf rs) := by
  refine (List.perm_ext_iff_of_nodup Std.TreeMap.nodup_keys (key.nodup_keysOf rs)).2 fun k => ?_
  rw [Std.TreeMap.mem_keys, mem_buckets_of_addAll h]
  simp [empty]

/-- There are as many buckets as keys that occur. -/
theorem keyCount_of_build {rs : List Record} {key : KeySpec} {index : Index} (h : build rs key = .ok index) :
    index.keyCount = (key.keysOf rs).length := by
  rw [keyCount, ← Std.TreeMap.length_keys, (keys_perm_of_build h).length_eq]

/-- A bucket has the records of its key. -/
theorem toList_bucket {index : Index} {entry : Key × Array Record} (h : entry ∈ index.buckets.toList) :
    entry.2.toList = (index.lookup entry.1).toList := by
  obtain ⟨k, bucket⟩ := entry
  rw [Std.TreeMap.mem_toList_iff_getElem?_eq_some] at h
  rw [lookup, h]

/-- The longest bucket has as many records as there are of one key at most. -/
theorem maxBucketLength_of_build {rs : List Record} {key : KeySpec} {index : Index} (h : build rs key = .ok index) :
    index.maxBucketLength = ((key.keysOf rs).map fun k => (key.withKey k rs).length).max?.getD 0 := by
  rcases holds_of_build h with ⟨hkey, hholds⟩
  have hlengths : (index.buckets.toList.map fun bucket => bucket.2.size) =
      index.buckets.keys.map fun k => (key.withKey k rs).length := by
    rw [← Std.TreeMap.map_fst_toList_eq_keys, List.map_map]
    refine List.map_congr_left fun entry hentry => ?_
    have hfound : (index.lookup entry.1).toList = index.key.withKey entry.1 rs := hholds.lookup_eq entry.1
    rw [← Array.length_toList, toList_bucket hentry, hfound, hkey]
    rfl
  -- the greatest length does not depend on the order of the keys
  rw [maxBucketLength, hlengths, ((keys_perm_of_build h).map _).foldl_eq, List.foldl_max, Nat.zero_max]

/-! ## All about an index -/

/-- A list has an index just if every record of it has all key fields; otherwise the first record that lacks one is
reported.  A key finds its records in the order of the list, all records are those of the list, and the counts are the
number of records, of different keys, and of the records of the most frequent key.  For a join the same lists are
indexed and the same errors reported, all records are counted, and a key finds the same records unless it has a missing
value, in which case it finds none. -/
theorem build_exact (rs : List Record) (key : KeySpec) :
    ((∃ index, build rs key = .ok index) ↔ ∀ r ∈ rs, ∀ i ∈ key.indices, r.get? i ≠ none) ∧
    (∀ e, build rs key = .error e ↔ key.FirstMalformed rs e) ∧
    (∀ index, build rs key = .ok index →
      (∀ k, (index.lookup k).toList = key.withKey k rs) ∧ index.records.Perm rs ∧ index.size = rs.length ∧
        index.keyCount = (key.keysOf rs).length ∧
        index.maxBucketLength = ((key.keysOf rs).map fun k => (key.withKey k rs).length).max?.getD 0) ∧
    ((∃ index, buildMatchable rs key = .ok index) ↔ ∃ index, build rs key = .ok index) ∧
    (∀ e, buildMatchable rs key = .error e ↔ build rs key = .error e) ∧
    ∀ index, buildMatchable rs key = .ok index →
      index.size = rs.length ∧ ∀ k, (index.lookup k).toList = if k.hasNull then [] else key.withKey k rs := by
  have hbuild : (∃ index, build rs key = .ok index) ↔ key.Covers rs :=
    ⟨fun ⟨_, h⟩ => covers_of_addAll h, build_of_covers⟩
  have hmatchable : (∃ index, buildMatchable rs key = .ok index) ↔ key.Covers rs :=
    ⟨fun ⟨_, h⟩ => covers_of_addMatchable h, fun h => (buildMatchable_spec h).imp fun _ h => h.1⟩
  refine ⟨hbuild.trans key.covers_iff, fun e => addAll_eq_error_iff, ?built, hmatchable.trans hbuild.symm, ?errors,
    ?join⟩
  case built =>
    intro index h
    rcases holds_of_build h with ⟨hkey, hholds⟩
    refine ⟨fun k => ?_, hholds.records_perm, hholds.size_eq, keyCount_of_build h, maxBucketLength_of_build h⟩
    rw [← hkey]
    exact hholds.lookup_eq k
  case errors => exact fun e => addMatchable_eq_error_iff.trans addAll_eq_error_iff.symm
  case join =>
    intro index h
    rcases buildMatchable_spec (hmatchable.1 ⟨index, h⟩) with ⟨out, hout, hsize, hlookup⟩
    obtain rfl : out = index := Except.ok.inj (hout.symm.trans h)
    exact ⟨hsize, hlookup⟩

/-- A key with two records and a missing one with a single record, and a list whose second record has no key. -/
theorem build_exact_with_missing_values :
    let key : KeySpec := .field 1
    let row (k : Value) (n : Int64) : Record := .pair (.int64 n) k
    let rs : List Record := [row (.int64 7) 1, row .null 2, row (.int64 7) 3]
    let malformed : List Record := [row .null 1, ⟨[.null]⟩, ⟨[]⟩]
    (∃ index, build rs key = .ok index ∧ (index.lookup ⟨[.int64 7]⟩).toList = [row (.int64 7) 1, row (.int64 7) 3] ∧
      (index.lookup ⟨[.null]⟩).toList = [row .null 2] ∧ index.size = 3 ∧ index.keyCount = 2 ∧
      index.maxBucketLength = 2) ∧
    (∃ index, buildMatchable rs key = .ok index ∧ index.size = 3 ∧
      (index.lookup ⟨[.int64 7]⟩).toList = [row (.int64 7) 1, row (.int64 7) 3] ∧
      (index.lookup ⟨[.null]⟩).toList = []) ∧
    build malformed key = .error (.missingKeyField 1 1) ∧
    buildMatchable malformed key = .error (.missingKeyField 1 1) := by
  intro key row rs malformed
  rcases build_exact rs key with ⟨_, _, hbuilt, _, _, hjoin⟩
  rcases build_exact malformed key with ⟨_, _, _, _, herrors, _⟩
  obtain ⟨index, hindex⟩ : ∃ index, build rs key = .ok index := ⟨_, rfl⟩
  obtain ⟨forJoin, hforJoin⟩ : ∃ index, buildMatchable rs key = .ok index := ⟨_, rfl⟩
  rcases hbuilt index hindex with ⟨hlookup, _, hsize, hkeys, hlength⟩
  rcases hjoin forJoin hforJoin with ⟨hsize', hlookup'⟩
  exact ⟨⟨index, hindex, hlookup _, hlookup _, hsize, hkeys, hlength⟩,
    ⟨forJoin, hforJoin, hsize', hlookup' _, hlookup' _⟩, rfl, (herrors _).2 rfl⟩

end Index

end WorksetIteration
