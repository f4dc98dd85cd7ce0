import WorksetIteration.Partition
import WorksetIteration.Proofs.Index

/-!
# What buckets hold

A bucket of a partition by key holds the records whose keys are dealt to it, in the order in which they stood.  However
keys are dealt, the buckets divide the records: none is lost or doubled, and those of one key stay together.

Main results:

- `collectBuckets_eq`: the buckets as filters of the assigned records.
- `partitionByKey_eq`: the buckets as filters of the records.
- `covers_of_partitionByKey`: records are dealt to several buckets only if they all have keys.
- `withKey_bucket`: a bucket has all records of the keys dealt to it, and none of another key.
- `KeySpec.Divides`, `partitionByKey_exact`: which lists are divided, into what, and what is reported of the others.
-/

namespace WorksetIteration

/-! ## Collecting -/

/-- What a bucket holds after records were pushed: what it held before, and the records assigned to it. -/
theorem getElem?_foldl_push (assigned : List (Nat × Record)) (bs : Array (Array Record)) (i : Nat) :
    (assigned.foldl (fun bs a => bs.modify a.1 (·.push a.2)) bs)[i]?.map Array.toList =
      bs[i]?.map fun b => b.toList ++ (assigned.filter fun a => decide (a.1 = i)).map (·.2) := by
  induction assigned generalizing bs with
  | nil => simp
  | cons a assigned ih =>
      rw [List.foldl_cons, ih, Array.getElem?_modify]
      by_cases h : a.1 = i
      · simp [h, Function.comp_def]
      · simp [h]

/-- Each bucket holds the records assigned to it, in order. -/
theorem collectBuckets_eq (buckets : Nat) (assigned : List (Nat × Record)) :
    collectBuckets buckets assigned =
      (List.range buckets).map fun i => (assigned.filter fun a => decide (a.1 = i)).map (·.2) := by
  apply List.ext_getElem?
  intro i
  have h := getElem?_foldl_push assigned (Array.replicate buckets #[]) i
  rw [collectBuckets, List.getElem?_map, Array.getElem?_toList, h, List.getElem?_map]
  by_cases hi : i < buckets
  · simp [hi]
  · simp [hi]

/-! ## Dealing -/

/-- The bucket that a record is dealt to by its key. -/
def bucketOf (place : Key → UInt64) (key : KeySpec) (buckets : UInt64) (r : Record) : Nat :=
  match key.extract r with
  | .ok k => (place k % buckets).toNat
  | .error _ => 0

theorem bucketOf_of_extract {place : Key → UInt64} {key : KeySpec} {buckets : UInt64} {r : Record} {k : Key}
    (h : key.extract r = .ok k) : bucketOf place key buckets r = (place k % buckets).toNat := by
  rw [bucketOf, h]

theorem assignBuckets_of_covers {place : Key → UInt64} {key : KeySpec} {buckets : UInt64} {rs : List Record}
    (h : key.Covers rs) :
    assignBuckets place key buckets rs = .ok (rs.map fun r => (bucketOf place key buckets r, r)) := by
  induction rs with
  | nil => rfl
  | cons r rs ih =>
      rcases h r List.mem_cons_self with ⟨k, hk⟩
      rw [assignBuckets, hk, ih h.of_cons, List.map_cons, bucketOf_of_extract hk]
      rfl

/-- Records are dealt to buckets only if they all have keys. -/
theorem covers_of_assignBuckets {place : Key → UInt64} {key : KeySpec} {buckets : UInt64} {rs : List Record}
    {assigned : List (Nat × Record)} (h : assignBuckets place key buckets rs = .ok assigned) : key.Covers rs := by
  induction rs generalizing assigned with
  | nil => exact key.covers_nil
  | cons r rs ih =>
      simp only [assignBuckets, bind_eq_ok_iff] at h
      rcases h with ⟨k, hk, rest, hrest, _⟩
      exact (ih hrest).cons hk

/-- Otherwise the first record without a key is reported. -/
theorem assignBuckets_eq_error_iff {place : Key → UInt64} {key : KeySpec} {buckets : UInt64} {rs : List Record}
    {e : Error} : assignBuckets place key buckets rs = .error e ↔ key.FirstMalformed rs e := by
  induction rs with
  | nil => exact iff_of_false nofun (key.not_firstMalformed_nil e)
  | cons r rs ih =>
      rw [assignBuckets]
      exact KeySpec.bind_extract_eq_error_iff fun k => bind_pure_eq_error_iff.trans ih

/-! ## Several buckets -/

section SeveralBuckets

variable {place : Key → UInt64} {key : KeySpec} {partitions : UInt64} {rs : List Record}

theorem toNat_mod_lt (hpartitions : 1 < partitions) (code : UInt64) :
    (code % partitions).toNat < partitions.toNat := by
  have hpos := UInt64.lt_iff_toNat_lt.1 hpartitions
  rw [UInt64.toNat_mod]
  exact Nat.mod_lt _ (by omega)

theorem partitionByKey_of_one_lt (hpartitions : 1 < partitions) :
    partitionByKey place key partitions rs =
      assignBuckets place key partitions rs >>= fun assigned => pure (collectBuckets partitions.toNat assigned) := by
  have hmax : max partitions 1 = partitions := if_neg (UInt64.not_le.2 hpartitions)
  have hne : partitions ≠ 1 := by
    rintro rfl
    exact absurd hpartitions (by decide)
  rw [partitionByKey, hmax, if_neg hne]

/-- Several buckets hold the records dealt to them, in order. -/
theorem partitionByKey_eq (hpartitions : 1 < partitions) (h : key.Covers rs) :
    partitionByKey place key partitions rs =
      .ok ((List.range partitions.toNat).map fun i =>
        rs.filter fun r => decide (bucketOf place key partitions r = i)) := by
  rw [partitionByKey_of_one_lt hpartitions, assignBuckets_of_covers h]
  change Except.ok (collectBuckets _ _) = _
  rw [collectBuckets_eq]
  congr 1
  apply List.map_congr_left
  intro i _
  rw [List.filter_map, List.map_map]
  exact List.map_id _

theorem covers_of_partitionByKey {buckets : List (List Record)} (hpartitions : 1 < partitions)
    (h : partitionByKey place key partitions rs = .ok buckets) : key.Covers rs := by
  rw [partitionByKey_of_one_lt hpartitions, bind_eq_ok_iff] at h
  rcases h with ⟨assigned, hassigned, _⟩
  exact covers_of_assignBuckets hassigned

/-- A list is not divided for the first of its records without a key. -/
theorem partitionByKey_eq_error_iff (hpartitions : 1 < partitions) {e : Error} :
    partitionByKey place key partitions rs = .error e ↔ key.FirstMalformed rs e := by
  rw [partitionByKey_of_one_lt hpartitions, bind_pure_eq_error_iff, assignBuckets_eq_error_iff]

end SeveralBuckets

/-! ## One bucket -/

/-- A single bucket takes all records as they are. -/
theorem partitionByKey_of_le_one {place : Key → UInt64} {key : KeySpec} {partitions : UInt64} {rs : List Record}
    (hpartitions : partitions ≤ 1) : partitionByKey place key partitions rs = .ok [rs] :=
  if_pos (if_pos hpartitions)

/-! ## The records of a key -/

/-- A bucket has all records of the keys dealt to it, and none of another key. -/
theorem withKey_bucket (place : Key → UInt64) (buckets : UInt64) (key : KeySpec) (rs : List Record) (i : Nat)
    (k : Key) :
    key.withKey k (rs.filter fun r => decide (bucketOf place key buckets r = i)) =
      if (place k % buckets).toNat = i then key.withKey k rs else [] := by
  rw [KeySpec.withKey, List.filter_filter]
  by_cases hi : (place k % buckets).toNat = i
  · rw [if_pos hi]
    apply List.filter_congr
    intro r _
    by_cases hr : key.extract r = .ok k
    · simp [hr, bucketOf_of_extract hr, hi]
    · simp [hr]
  · rw [if_neg hi, List.filter_eq_nil_iff]
    intro r _
    by_cases hr : key.extract r = .ok k
    · simpa [hr, bucketOf_of_extract hr] using hi
    · simp [hr]

/-! ## Divisions -/

/-- Buckets divide a list of records by key. -/
structure KeySpec.Divides (key : KeySpec) (rs : List Record) (buckets : List (List Record)) : Prop where
  /-- No record is lost or doubled. -/
  perm : buckets.flatten.Perm rs
  /-- Every bucket keeps the order of the list. -/
  sublist : ∀ bucket ∈ buckets, bucket.Sublist rs
  /-- One bucket has all records of a key, and the others have none of them. -/
  together : ∀ k, ∃ i, i < buckets.length ∧ ∀ j bucket, buckets[j]? = some bucket →
    key.withKey k bucket = if i = j then key.withKey k rs else []

theorem KeySpec.divides_singleton (key : KeySpec) (rs : List Record) : key.Divides rs [rs] where
  perm := by rw [List.flatten_singleton]
  sublist := fun bucket hbucket => by rw [List.mem_singleton.1 hbucket]
  together := fun k => by
    refine ⟨0, Nat.zero_lt_one, fun j bucket hbucket => ?_⟩
    rw [List.getElem?_singleton, Option.ite_none_right_eq_some] at hbucket
    rcases hbucket with ⟨rfl, hbucket⟩
    rw [if_pos rfl, Option.some.inj hbucket]

/-- The buckets of records that all have keys. -/
theorem KeySpec.divides_buckets {place : Key → UInt64} {key : KeySpec} {partitions : UInt64} {rs : List Record}
    (hpartitions : 1 < partitions) (h : key.Covers rs) :
    key.Divides rs ((List.range partitions.toNat).map fun i =>
      rs.filter fun r => decide (bucketOf place key partitions r = i)) where
  perm := by
    rw [← List.flatMap_def]
    refine flatMap_filter_perm (bucketOf place key partitions) List.nodup_range fun r hr => ?_
    rcases h r hr with ⟨k, hk⟩
    rw [bucketOf_of_extract hk, List.mem_range]
    exact toNat_mod_lt hpartitions (place k)
  sublist := by
    intro bucket hbucket
    rcases List.mem_map.1 hbucket with ⟨i, _, rfl⟩
    exact List.filter_sublist
  together := by
    intro k
    refine ⟨(place k % partitions).toNat, ?_, fun j bucket hbucket => ?_⟩
    · rw [List.length_map, List.length_range]
      exact toNat_mod_lt hpartitions (place k)
    · rw [List.getElem?_map, Option.map_eq_some_iff] at hbucket
      rcases hbucket with ⟨i, hi, rfl⟩
      obtain rfl : j = i := (List.getElem?_eq_some_iff.1 hi).2 ▸ (List.getElem_range _).symm
      exact withKey_bucket place partitions key rs j k

/-- A list is divided into as many buckets as are asked for, or into one if none is asked for.  That fails just if there
are several buckets and a record has no key, and the first such record is reported; a single bucket takes all records
without looking at their keys. -/
theorem partitionByKey_exact (place : Key → UInt64) (key : KeySpec) (partitions : UInt64) (rs : List Record) :
    ((∃ buckets, partitionByKey place key partitions rs = .ok buckets) ↔ partitions ≤ 1 ∨ key.Covers rs) ∧
    (∀ e, partitionByKey place key partitions rs = .error e ↔ 1 < partitions ∧ key.FirstMalformed rs e) ∧
    ∀ buckets, partitionByKey place key partitions rs = .ok buckets →
      buckets.length = (max partitions 1).toNat ∧ key.Divides rs buckets := by
  by_cases hpartitions : partitions ≤ 1
  · have hone : max partitions 1 = 1 := if_pos hpartitions
    rw [partitionByKey_of_le_one hpartitions, hone]
    refine ⟨iff_of_true ⟨_, rfl⟩ (.inl hpartitions), fun e => iff_of_false nofun ?_, ?_⟩
    · rintro ⟨hseveral, _⟩
      exact UInt64.not_le.2 hseveral hpartitions
    · rintro buckets hbuckets
      obtain rfl := Except.ok.inj hbuckets
      exact ⟨rfl, key.divides_singleton rs⟩
  · have hseveral : 1 < partitions := UInt64.not_le.1 hpartitions
    have hmax : max partitions 1 = partitions := if_neg hpartitions
    refine ⟨?succeeds, fun e => ?fails, fun buckets hbuckets => ?divides⟩
    case succeeds =>
      rw [or_iff_right hpartitions]
      exact ⟨fun ⟨_, h⟩ => covers_of_partitionByKey hseveral h, fun h => ⟨_, partitionByKey_eq hseveral h⟩⟩
    case fails =>
      rw [partitionByKey_eq_error_iff hseveral, and_iff_right hseveral]
    case divides =>
      have hcovers := covers_of_partitionByKey hseveral hbuckets
      rw [partitionByKey_eq hseveral hcovers] at hbuckets
      obtain rfl := Except.ok.inj hbuckets
      refine ⟨?_, KeySpec.divides_buckets hseveral hcovers⟩
      rw [hmax, List.length_map, List.length_range]

/-- Two records of one key around one with a missing key value, which go to two buckets of three, and a list whose last
record has no key, which only a single bucket takes. -/
theorem partitionByKey_exact_of_repeated_key :
    let key : KeySpec := .field 0
    let place : Key → UInt64 := fun k => if k.hasNull then 9 else 17
    let row (k : Value) (n : Int64) : Record := .pair k (.int64 n)
    let rs : List Record := [row (.int64 7) 1, row .null 2, row (.int64 7) 3]
    let malformed : List Record := [row .null 1, ⟨[]⟩]
    let buckets : List (List Record) := [[row .null 2], [], [row (.int64 7) 1, row (.int64 7) 3]]
    (partitionByKey place key 3 rs = .ok buckets ∧ buckets.length = 3 ∧ key.Divides rs buckets) ∧
      (partitionByKey place key 3 malformed = .error (.missingKeyField 0 0) ∧
        key.FirstMalformed malformed (.missingKeyField 0 0)) ∧
      partitionByKey place key 0 malformed = .ok [malformed] ∧ key.Divides malformed [malformed] := by
  intro key place row rs malformed buckets
  rcases partitionByKey_exact place key 3 rs with ⟨_, _, hdivides⟩
  rcases partitionByKey_exact place key 3 malformed with ⟨_, herrors, _⟩
  rcases partitionByKey_exact place key 0 malformed with ⟨_, _, hsingle⟩
  have hbuckets : partitionByKey place key 3 rs = .ok buckets := by decide +kernel
  have hrefused : partitionByKey place key 3 malformed = .error (.missingKeyField 0 0) := rfl
  have hone : partitionByKey place key 0 malformed = .ok [malformed] := rfl
  exact ⟨⟨hbuckets, hdivides buckets hbuckets⟩, ⟨hrefused, ((herrors _).1 hrefused).2⟩, hone, (hsingle _ hone).2⟩

end WorksetIteration
