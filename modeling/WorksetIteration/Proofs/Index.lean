import Std.Data.TreeMap.Lemmas
import WorksetIteration.Index
import WorksetIteration.Proofs.Key
import WorksetIteration.Proofs.Order.Total

/-!
# What an index finds

What a collection stored by key has to do with the list of records it was built from: each key finds the records that
have it, in the order of the list, and all records together are those of the list.

Main results:

- `KeyedRecords.Holds`: a collection stored by key holds the records of a list.
- `Index.holds_of_build`: an index holds the records it is built from.
- `Index.buildMatchable_spec`: an index for a join finds the same records under keys without missing values.
-/

namespace WorksetIteration

/-- A computation in two parts succeeds just if both parts do. -/
theorem bind_eq_ok_iff {α β : Type} {x : Except Error α} {f : α → Except Error β} {b : β} :
    (x >>= f) = .ok b ↔ ∃ a, x = .ok a ∧ f a = .ok b := by
  cases x with
  | ok a => exact ⟨fun h => ⟨a, rfl, h⟩, fun ⟨_, hx, hf⟩ => Except.ok.inj hx ▸ hf⟩
  | error e => exact ⟨nofun, nofun⟩

/-- It fails just if the first part does, or the second part after the first. -/
theorem bind_eq_error_iff {α β : Type} {x : Except Error α} {f : α → Except Error β} {e : Error} :
    (x >>= f) = .error e ↔ x = .error e ∨ ∃ a, x = .ok a ∧ f a = .error e := by
  cases x with
  | ok a => simp [bind, Except.bind]
  | error e' => simp [bind, Except.bind]

/-- Where the second part cannot fail, the first one does. -/
theorem bind_pure_eq_error_iff {α β : Type} {x : Except Error α} {f : α → β} {e : Error} :
    (x >>= fun a => pure (f a)) = .error e ↔ x = .error e := by
  rw [bind_eq_error_iff]
  exact or_iff_left fun ⟨_, _, h⟩ => nomatch h

/-- What goes on from the key of a record reports the first record without a key, if it does so for the records after
it. -/
theorem KeySpec.bind_extract_eq_error_iff {β : Type} {spec : KeySpec} {r : Record} {rs : List Record}
    {f : Key → Except Error β} {e : Error} (h : ∀ k, f k = .error e ↔ spec.FirstMalformed rs e) :
    (spec.extract r >>= f) = .error e ↔ spec.FirstMalformed (r :: rs) e := by
  rw [firstMalformed_cons_iff, bind_eq_error_iff, ← exists_and_right]
  exact or_congr_right (exists_congr fun k => and_congr_right fun _ => h k)

/-! ## Collections stored by key -/

/-- A collection stored by key holds the records of a list: a key finds the records that have it, in the order of the
list, and all records are those of the list. -/
structure KeyedRecords.Holds (stored : KeyedRecords) (rs : List Record) : Prop where
  /-- Every record has a key. -/
  covers : stored.key.Covers rs
  /-- The records are counted. -/
  size_eq : stored.size = rs.length
  /-- A key finds its records. -/
  lookup_eq : ∀ k, (stored.lookup k).toList = stored.key.withKey k rs
  /-- No record is lost or doubled. -/
  records_perm : stored.records.Perm rs

namespace Index

theorem addAll_cons {index : Index} {r : Record} {k : Key} (h : index.key.extract r = .ok k) (rs : List Record) :
    index.addAll (r :: rs) = (index.push k r).addAll rs := by
  rw [addAll, h]
  rfl

theorem addMatchable_cons {index : Index} {r : Record} {k : Key} (h : index.key.extract r = .ok k)
    (rs : List Record) :
    index.addMatchable (r :: rs) = (if k.hasNull then index.skip else index.push k r).addMatchable rs := by
  rw [addMatchable, h]
  rfl

@[simp]
theorem key_push (index : Index) (k : Key) (r : Record) : (index.push k r).key = index.key :=
  rfl

@[simp]
theorem size_push (index : Index) (k : Key) (r : Record) : (index.push k r).size = index.size + 1 :=
  rfl

@[simp]
theorem key_skip (index : Index) : index.skip.key = index.key :=
  rfl

@[simp]
theorem size_skip (index : Index) : index.skip.size = index.size + 1 :=
  rfl

@[simp]
theorem lookup_skip (index : Index) (k : Key) : index.skip.lookup k = index.lookup k :=
  rfl

@[simp]
theorem toList_lookup_empty (key : KeySpec) (k : Key) : ((empty key).lookup k).toList = [] := by
  simp [lookup, empty]

/-- A record is found behind those of its key, and other keys find what they have found before. -/
theorem toList_lookup_push (index : Index) (key k : Key) (r : Record) :
    ((index.push key r).lookup k).toList =
      if key = k then (index.lookup k).toList ++ [r] else (index.lookup k).toList := by
  simp only [lookup, push, Std.TreeMap.getElem?_alter, Std.LawfulEqOrd.compare_eq_iff_eq]
  by_cases h : key = k
  · subst h
    cases index.buckets[key]? <;> simp
  · simp [h]

/-- What an index finds after records were added: what it has found before, and the added records of the key. -/
theorem addAll_spec (index : Index) {rs : List Record} (h : index.key.Covers rs) :
    ∃ out, index.addAll rs = .ok out ∧ out.key = index.key ∧ out.size = index.size + rs.length ∧
      ∀ k, (out.lookup k).toList = (index.lookup k).toList ++ index.key.withKey k rs := by
  induction rs generalizing index with
  | nil => exact ⟨index, rfl, rfl, rfl, by simp⟩
  | cons r rs ih =>
      rcases h r List.mem_cons_self with ⟨key, hkey⟩
      rcases ih (index.push key r) h.of_cons with ⟨out, hout, hspec, hsize, hlookup⟩
      refine ⟨out, (addAll_cons hkey rs).trans hout, hspec, ?_, ?_⟩
      · rw [hsize, size_push, List.length_cons]
        omega
      · intro k
        rw [hlookup, toList_lookup_push, key_push, KeySpec.withKey_cons hkey]
        split <;> simp

/-- The same where records with missing key values are passed over: they are counted, and no key finds them. -/
theorem addMatchable_spec (index : Index) {rs : List Record} (h : index.key.Covers rs) :
    ∃ out, index.addMatchable rs = .ok out ∧ out.key = index.key ∧ out.size = index.size + rs.length ∧
      ∀ k, (out.lookup k).toList =
        (index.lookup k).toList ++ if k.hasNull then [] else index.key.withKey k rs := by
  induction rs generalizing index with
  | nil => exact ⟨index, rfl, rfl, rfl, by simp⟩
  | cons r rs ih =>
      rcases h r List.mem_cons_self with ⟨key, hkey⟩
      rw [addMatchable_cons hkey]
      by_cases hnull : key.hasNull
      · rcases ih index.skip h.of_cons with ⟨out, hout, hspec, hsize, hlookup⟩
        refine ⟨out, by rwa [if_pos hnull], hspec, ?_, fun k => ?_⟩
        · rw [hsize, size_skip, List.length_cons]
          omega
        · rw [hlookup, lookup_skip, key_skip]
          by_cases hk : k.hasNull
          · rw [if_pos hk, if_pos hk]
          · have hne : key ≠ k := fun heq => hk (heq ▸ hnull)
            rw [if_neg hk, if_neg hk, KeySpec.withKey_cons hkey, if_neg hne]
      · rcases ih (index.push key r) h.of_cons with ⟨out, hout, hspec, hsize, hlookup⟩
        refine ⟨out, by rwa [if_neg hnull], hspec, ?_, fun k => ?_⟩
        · rw [hsize, size_push, List.length_cons]
          omega
        · rw [hlookup, toList_lookup_push, key_push]
          by_cases hk : k.hasNull
          · have hne : key ≠ k := fun heq => hnull (heq ▸ hk)
            rw [if_pos hk, if_pos hk, if_neg hne]
          · rw [if_neg hk, if_neg hk, KeySpec.withKey_cons hkey]
            split <;> simp

/-- An index is only built where every record has a key. -/
theorem covers_of_addAll {index out : Index} {rs : List Record} (h : index.addAll rs = .ok out) :
    index.key.Covers rs := by
  induction rs generalizing index with
  | nil => exact KeySpec.covers_nil _
  | cons r rs ih =>
      rcases bind_eq_ok_iff.1 h with ⟨key, hkey, hrest⟩
      have hcovers : (index.push key r).key.Covers rs := ih hrest
      exact KeySpec.Covers.cons hkey hcovers

theorem covers_of_addMatchable {index out : Index} {rs : List Record} (h : index.addMatchable rs = .ok out) :
    index.key.Covers rs := by
  induction rs generalizing index with
  | nil => exact KeySpec.covers_nil _
  | cons r rs ih =>
      rcases bind_eq_ok_iff.1 h with ⟨key, hkey, hrest⟩
      have hcovers : (if key.hasNull then index.skip else index.push key r).key.Covers rs := ih hrest
      refine KeySpec.Covers.cons hkey ?_
      split at hcovers
      · exact hcovers
      · exact hcovers

/-- All records of an index, where every key finds the records that have it. -/
theorem records_perm_of_lookup {index : Index} {rs : List Record} (hcovers : index.key.Covers rs)
    (hlookup : ∀ k, (index.lookup k).toList = index.key.withKey k rs) : index.records.Perm rs := by
  have hbucket : ∀ entry ∈ index.buckets.toList, entry.2.toList = index.key.withKey entry.1 rs := by
    rintro ⟨k, bucket⟩ hentry
    rw [Std.TreeMap.mem_toList_iff_getElem?_eq_some] at hentry
    simpa [lookup, hentry] using hlookup k
  have hrecords : index.records = index.buckets.keys.flatMap fun k => index.key.withKey k rs := by
    rw [records, List.flatMap_congr hbucket, ← Std.TreeMap.map_fst_toList_eq_keys, List.flatMap_map]
  rw [hrecords]
  apply KeySpec.flatMap_withKey_perm Std.TreeMap.nodup_keys
  intro r hr
  rcases hcovers r hr with ⟨k, hk⟩
  refine ⟨k, ?_, hk⟩
  rw [Std.TreeMap.mem_keys, Std.TreeMap.mem_iff_isSome_getElem?]
  by_contra hnone
  have hmem : r ∈ (index.lookup k).toList := by
    rw [hlookup k]
    exact KeySpec.mem_withKey.2 ⟨hr, hk⟩
  rw [Bool.not_eq_true, Option.isSome_eq_false_iff, Option.isNone_iff_eq_none] at hnone
  simp [lookup, hnone] at hmem

/-- An index holds the records it is built from. -/
theorem holds_of_build {rs : List Record} {key : KeySpec} {index : Index} (h : build rs key = .ok index) :
    index.key = key ∧ index.toKeyed.Holds rs := by
  have hcovers : key.Covers rs := covers_of_addAll h
  rcases addAll_spec (empty key) hcovers with ⟨out, hout, hkey, hsize, hlookup⟩
  obtain rfl : out = index := Except.ok.inj (hout.symm.trans h)
  have hkey : out.key = key := hkey
  have hcovers' : out.key.Covers rs := by rwa [hkey]
  have hlookup' : ∀ k, (out.lookup k).toList = out.key.withKey k rs := by
    intro k
    rw [hlookup, toList_lookup_empty, List.nil_append, hkey]
    rfl
  refine ⟨hkey, hcovers', hsize.trans (Nat.zero_add _), hlookup', records_perm_of_lookup hcovers' hlookup'⟩

/-- An index is built where every record has a key. -/
theorem build_of_covers {rs : List Record} {key : KeySpec} (h : key.Covers rs) : ∃ index, build rs key = .ok index := by
  rcases addAll_spec (empty key) h with ⟨index, hindex, _⟩
  exact ⟨index, hindex⟩

/-- An index for a join counts the records it is given, and finds those of every key without missing values. -/
theorem buildMatchable_spec {rs : List Record} {key : KeySpec} (h : key.Covers rs) :
    ∃ index, buildMatchable rs key = .ok index ∧ index.size = rs.length ∧
      ∀ k, (index.lookup k).toList = if k.hasNull then [] else key.withKey k rs := by
  rcases addMatchable_spec (empty key) h with ⟨index, hindex, _, hsize, hlookup⟩
  refine ⟨index, hindex, hsize.trans (Nat.zero_add _), fun k => ?_⟩
  rw [hlookup, toList_lookup_empty, List.nil_append]
  rfl

theorem lookup_of_buildMatchable {rs : List Record} {key : KeySpec} (h : key.Covers rs) :
    ∃ index, buildMatchable rs key = .ok index ∧
      ∀ k, k.hasNull = false → (index.lookup k).toList = key.withKey k rs := by
  rcases buildMatchable_spec h with ⟨index, hindex, _, hlookup⟩
  refine ⟨index, hindex, fun k hk => ?_⟩
  rw [hlookup, hk]
  rfl

end Index

end WorksetIteration
