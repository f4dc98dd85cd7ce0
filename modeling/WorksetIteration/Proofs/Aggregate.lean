import WorksetIteration.Aggregate
import WorksetIteration.Proofs.Partition
import WorksetIteration.Proofs.Reduction

/-!
# Groups key by key

An aggregate treats each key on its own: what it returns for a key depends on the records of that key and their order
only.  It returns just if all records have their keys and the group of each key can be completed, and this does not
depend on the number of workers.  Several workers return the same records as one, in another order.

Main results:

- `KeySpec.keysInOrder`: the keys of records in the order in which they first appear.
- `Aggregate.enterAll`: the records of one key folded into one group.
- `Aggregate.enterAll_none`: the first record of the group and what its values come to.
- `Aggregate.executeGroup_eq_ok_iff`: when one worker returns, and what.
- `Aggregate.execute_spec`, `Aggregate.of_execute_eq_ok`: the same for any number of workers, up to the order of keys.
-/

namespace WorksetIteration

/-! ## Keys in order -/

theorem nodup_eraseDups {α : Type} [DecidableEq α] : ∀ xs : List α, xs.eraseDups.Nodup
  | [] => List.nodup_nil
  | x :: xs => by
      rw [List.eraseDups_cons, List.nodup_cons]
      constructor
      · simp
      · exact nodup_eraseDups (xs.filter fun y => !y == x)
termination_by xs => xs.length
decreasing_by
  exact Nat.lt_succ_of_le (List.length_filter_le _ _)

namespace KeySpec

/-- The keys of records in the order in which they first appear. -/
def keysInOrder (spec : KeySpec) (rs : List Record) : List Key :=
  (rs.filterMap fun r => (spec.extract r).toOption).eraseDups

theorem nodup_keysInOrder (spec : KeySpec) (rs : List Record) : (spec.keysInOrder rs).Nodup :=
  nodup_eraseDups _

theorem mem_keysInOrder {spec : KeySpec} {rs : List Record} {k : Key} :
    k ∈ spec.keysInOrder rs ↔ ∃ r ∈ rs, spec.extract r = .ok k := by
  rw [keysInOrder, List.mem_eraseDups, List.mem_filterMap]
  refine exists_congr fun r => and_congr_right fun _ => ?_
  cases spec.extract r <;> simp [Except.toOption]

theorem mem_keysInOrder_iff_withKey {spec : KeySpec} {rs : List Record} {k : Key} :
    k ∈ spec.keysInOrder rs ↔ spec.withKey k rs ≠ [] := by
  simp [mem_keysInOrder, withKey, List.filter_eq_nil_iff]

end KeySpec

/-! ## Groups under way -/

namespace Groups

/-- The keys are listed once each, and they are the keys with a group. -/
structure WellFormed (gs : Groups) : Prop where
  /-- No key is listed twice. -/
  nodup : gs.keys.Nodup
  /-- The listed keys have groups. -/
  mem_iff : ∀ k, k ∈ gs.keys ↔ (gs.find? k).isSome = true

@[simp]
theorem find?_empty (k : Key) : empty.find? k = none := by
  simp [find?, empty]

theorem wellFormed_empty : empty.WellFormed where
  nodup := List.nodup_nil
  mem_iff := by simp [empty, find?]

theorem find?_put (gs : Groups) (key k : Key) (g : Group) :
    (gs.put key g).find? k = if key = k then some g else gs.find? k := by
  simp only [find?, put, Std.TreeMap.getElem?_insert, Std.LawfulEqOrd.compare_eq_iff_eq]

theorem keys_put (gs : Groups) (key : Key) (g : Group) :
    (gs.put key g).keys = if (gs.find? key).isSome then gs.keys else key :: gs.keys := by
  rw [put, Std.TreeMap.contains_eq_isSome_getElem?]
  rfl

theorem WellFormed.put {gs : Groups} (h : gs.WellFormed) (key : Key) (g : Group) : (gs.put key g).WellFormed := by
  constructor
  · rw [keys_put]
    split
    · exact h.nodup
    · rename_i hnew
      exact List.nodup_cons.2 ⟨fun hmem => hnew ((h.mem_iff key).1 hmem), h.nodup⟩
  · intro k
    rw [find?_put, keys_put]
    by_cases hk : key = k
    · subst hk
      by_cases hold : (gs.find? key).isSome = true
      · simp [hold, h.mem_iff]
      · simp [hold]
    · have hk' : ¬ k = key := fun heq => hk heq.symm
      by_cases hold : (gs.find? key).isSome = true
      · simp [hold, hk, h.mem_iff]
      · simp [hold, hk, hk', h.mem_iff]

end Groups

namespace Aggregate

/-! ## One group -/

/-- A record folded into the group of its key, or into a new group if there is none yet. -/
def enter (a : Aggregate) (group? : Option Group) (r : Record) : Except Error Group :=
  match r.get? a.field with
  | none => .error (.invalidOperation (.aggregateFieldMissing a.field r.arity))
  | some v =>
      let group := group?.getD ⟨r, .null⟩
      match a.op.fold a.field group.acc v with
      | .ok acc => .ok { group with acc := acc }
      | .error e => .error e

/-- Records of one key folded into its group in order. -/
def enterAll (a : Aggregate) : Option Group → List Record → Except Error (Option Group)
  | group?, [] => .ok group?
  | group?, r :: rest =>
      match a.enter group? r with
      | .ok group => a.enterAll (some group) rest
      | .error e => .error e

theorem enterAll_cons {a : Aggregate} {group? : Option Group} {r : Record} {group : Group}
    (h : a.enter group? r = .ok group) (rs : List Record) :
    a.enterAll group? (r :: rs) = a.enterAll (some group) rs := by
  rw [enterAll, h]

/-- All records of the list have the reduced field. -/
def HasField (a : Aggregate) (rs : List Record) : Prop :=
  ∀ r ∈ rs, ∃ v, r.get? a.field = some v

/-- The values of the reduced field in order. -/
def values (a : Aggregate) (rs : List Record) : List Value :=
  rs.filterMap (·.get? a.field)

/-- The values of the reduced field in the records of a key. -/
def valuesOf (a : Aggregate) (rs : List Record) (k : Key) : List Value :=
  a.values (a.key.withKey k rs)

/-- The first record of a group stays, and the values are folded one after the other. -/
theorem enterAll_some {a : Aggregate} {rs : List Record} (hfield : a.HasField rs) (g : Group) :
    a.enterAll (some g) rs =
      ((a.values rs).foldlM (a.op.fold a.field) g.acc).map fun acc => some ⟨g.first, acc⟩ := by
  induction rs generalizing g with
  | nil => rfl
  | cons r rs ih =>
      rcases hfield r List.mem_cons_self with ⟨v, hv⟩
      have hvalues : a.values (r :: rs) = v :: a.values rs := List.filterMap_cons_some hv
      have henter : a.enter (some g) r = (a.op.fold a.field g.acc v).map fun acc => ⟨g.first, acc⟩ := by
        unfold enter
        rw [hv]
        dsimp only [Option.getD_some]
        cases a.op.fold a.field g.acc v <;> rfl
      rw [hvalues, List.foldlM_cons, enterAll, henter]
      cases hfold : a.op.fold a.field g.acc v with
      | error e => rfl
      | ok acc => exact ih (fun x hx => hfield x (List.mem_cons_of_mem _ hx)) ⟨g.first, acc⟩

/-- The group of some records has the first of them and what their values come to. -/
theorem enterAll_none {a : Aggregate} {r : Record} {rs : List Record} (hfield : a.HasField (r :: rs)) :
    a.enterAll none (r :: rs) = (a.op.reduce a.field (a.values (r :: rs))).map fun m => some ⟨r, m⟩ := by
  have henter : a.enter none r = a.enter (some ⟨r, .null⟩) r := rfl
  rw [Reduction.reduce, ← enterAll_some hfield ⟨r, .null⟩, enterAll, enterAll, henter]

/-- What the records of a key come to, as one record. -/
def summaryOf (a : Aggregate) (rs : List Record) (k : Key) : Option Record :=
  match a.enterAll none (a.key.withKey k rs) with
  | .ok group? => group?.map a.summary
  | .error _ => none

theorem summaryOf_of_enterAll {a : Aggregate} {rs : List Record} {k : Key} {group? : Option Group}
    (h : a.enterAll none (a.key.withKey k rs) = .ok group?) : a.summaryOf rs k = group?.map a.summary := by
  rw [summaryOf, h]

/-! ## All groups -/

/-- A record is added to the group of its key, and to no other. -/
theorem addRecord_eq_ok_iff {a : Aggregate} {gs gs' : Groups} {r : Record} :
    a.addRecord gs r = .ok gs' ↔
      ∃ k group, a.key.extract r = .ok k ∧ a.enter (gs.find? k) r = .ok group ∧ gs' = gs.put k group := by
  unfold addRecord enter
  cases hv : r.get? a.field with
  | none => simp
  | some v =>
      simp only [bind_eq_ok_iff]
      constructor
      · rintro ⟨k, hk, acc, hacc, hput⟩
        refine ⟨k, _, hk, ?_, (Except.ok.inj hput).symm⟩
        rw [hacc]
      · rintro ⟨k, group, hk, hgroup, rfl⟩
        refine ⟨k, hk, ?_⟩
        cases hacc : a.op.fold a.field ((gs.find? k).getD ⟨r, .null⟩).acc v with
        | error e =>
            rw [hacc] at hgroup
            cases hgroup
        | ok acc =>
            rw [hacc] at hgroup
            cases hgroup
            exact ⟨acc, rfl, rfl⟩

theorem addAll_cons_eq_ok_iff {a : Aggregate} {gs out : Groups} {r : Record} {rs : List Record} :
    a.addAll gs (r :: rs) = .ok out ↔
      ∃ k group, a.key.extract r = .ok k ∧ a.enter (gs.find? k) r = .ok group ∧
        a.addAll (gs.put k group) rs = .ok out := by
  rw [addAll, bind_eq_ok_iff]
  simp only [addRecord_eq_ok_iff]
  constructor
  · rintro ⟨_, ⟨k, group, hk, hgroup, rfl⟩, hrest⟩
    exact ⟨k, group, hk, hgroup, hrest⟩
  · rintro ⟨k, group, hk, hgroup, hrest⟩
    exact ⟨_, ⟨k, group, hk, hgroup, rfl⟩, hrest⟩

/-- After the first record the other groups are as before, and its own one is a record further. -/
theorem enterAll_put {a : Aggregate} {gs : Groups} {r : Record} {key : Key} {group : Group}
    (hkey : a.key.extract r = .ok key) (henter : a.enter (gs.find? key) r = .ok group) (rs : List Record) (k : Key) :
    a.enterAll (gs.find? k) (a.key.withKey k (r :: rs)) =
      a.enterAll ((gs.put key group).find? k) (a.key.withKey k rs) := by
  rw [KeySpec.withKey_cons hkey, Groups.find?_put]
  by_cases hk : key = k
  · subst hk
    rw [if_pos rfl, if_pos rfl, enterAll_cons henter]
  · rw [if_neg hk, if_neg hk]

/-- All records are folded into their groups if each group can be completed as if it were the only one. -/
theorem exists_addAll {a : Aggregate} {gs : Groups} {rs : List Record} (hcovers : a.key.Covers rs)
    (hgroups : ∀ k, ∃ group?, a.enterAll (gs.find? k) (a.key.withKey k rs) = .ok group?) :
    ∃ out, a.addAll gs rs = .ok out := by
  induction rs generalizing gs with
  | nil => exact ⟨gs, rfl⟩
  | cons r rs ih =>
      rcases hcovers r List.mem_cons_self with ⟨key, hkey⟩
      rcases hgroups key with ⟨group?, hgroup⟩
      rw [KeySpec.withKey_cons hkey, if_pos rfl] at hgroup
      cases henter : a.enter (gs.find? key) r with
      | error e =>
          rw [enterAll, henter] at hgroup
          cases hgroup
      | ok group =>
          simp only [enterAll_put hkey henter] at hgroups
          rcases ih hcovers.of_cons hgroups with ⟨out, hout⟩
          exact ⟨out, addAll_cons_eq_ok_iff.2 ⟨key, group, hkey, henter, hout⟩⟩

/-- What is known once all records are in their groups: they have keys, and each group is as if it were the only one. -/
theorem addAll_spec {a : Aggregate} {gs out : Groups} {rs : List Record} (h : a.addAll gs rs = .ok out) :
    a.key.Covers rs ∧ ∀ k, a.enterAll (gs.find? k) (a.key.withKey k rs) = .ok (out.find? k) := by
  induction rs generalizing gs with
  | nil =>
      cases h
      exact ⟨KeySpec.covers_nil _, fun _ => rfl⟩
  | cons r rs ih =>
      rcases addAll_cons_eq_ok_iff.1 h with ⟨key, group, hkey, henter, hrest⟩
      rcases ih hrest with ⟨hcovers, hgroups⟩
      refine ⟨hcovers.cons hkey, fun k => ?_⟩
      rw [enterAll_put hkey henter, hgroups]

/-- The keys that are new are listed after the ones that were there, in the order in which they first appear. -/
theorem keys_addAll {a : Aggregate} {gs out : Groups} {rs : List Record} (hwf : gs.WellFormed)
    (h : a.addAll gs rs = .ok out) :
    out.keys.reverse = gs.keys.reverse ++
      ((rs.filterMap fun r => (a.key.extract r).toOption).filter fun k => decide (k ∉ gs.keys)).eraseDups := by
  induction rs generalizing gs with
  | nil =>
      cases h
      simp
  | cons r rs ih =>
      rcases addAll_cons_eq_ok_iff.1 h with ⟨key, group, hkey, _, hrest⟩
      rw [ih (hwf.put key group) hrest, Groups.keys_put, List.filterMap_cons_some (by rw [hkey]; rfl)]
      by_cases hold : (gs.find? key).isSome = true
      · have hmem : key ∈ gs.keys := (hwf.mem_iff key).2 hold
        simp [hold, hmem]
      · have hmem : key ∉ gs.keys := fun hmem => hold ((hwf.mem_iff key).1 hmem)
        simp [hold, hmem, List.eraseDups_cons, List.filter_filter, beq_eq_decide]

/-- All groups of a list can be completed. -/
def Completable (a : Aggregate) (rs : List Record) : Prop :=
  ∀ k, ∃ group?, a.enterAll none (a.key.withKey k rs) = .ok group?

section Values

variable {a : Aggregate} {rs : List Record}

theorem HasField.withKey (h : a.HasField rs) (k : Key) : a.HasField (a.key.withKey k rs) :=
  fun r hr => h r (KeySpec.mem_withKey.1 hr).1

/-- Groups can be completed just if their values can be reduced. -/
theorem completable_iff (hfield : a.HasField rs) :
    a.Completable rs ↔ ∀ k, ∃ m, a.op.reduce a.field (a.valuesOf rs k) = .ok m := by
  refine forall_congr' fun k => ?_
  have hfield' := hfield.withKey k
  unfold valuesOf
  cases hrs : a.key.withKey k rs with
  | nil => exact ⟨fun _ => ⟨.null, rfl⟩, fun _ => ⟨none, rfl⟩⟩
  | cons r rest =>
      rw [hrs] at hfield'
      rw [enterAll_none hfield']
      cases a.op.reduce a.field (a.values (r :: rest)) with
      | ok m => exact ⟨fun _ => ⟨m, rfl⟩, fun _ => ⟨_, rfl⟩⟩
      | error e => exact ⟨nofun, nofun⟩

end Values

/-- A list of records has one record for each key of another list, made of the records of that key. -/
def Summarizes (a : Aggregate) (rs out : List Record) : Prop :=
  ∃ keys : List Key, keys.Nodup ∧ (∀ k, k ∈ keys ↔ a.key.withKey k rs ≠ []) ∧ out = keys.filterMap (a.summaryOf rs)

/-- One worker returns if all records have keys and all groups can be completed: one record for each key, in the order
in which the keys first appear. -/
theorem executeGroup_eq_ok_iff {a : Aggregate} {rs out : List Record} :
    a.executeGroup rs = .ok out ↔
      a.key.Covers rs ∧ a.Completable rs ∧ out = (a.key.keysInOrder rs).filterMap (a.summaryOf rs) := by
  have hspec : ∀ gs, a.addAll .empty rs = .ok gs →
      a.key.Covers rs ∧ a.Completable rs ∧
        gs.toList.map a.summary = (a.key.keysInOrder rs).filterMap (a.summaryOf rs) := by
    intro gs hgs
    rcases addAll_spec hgs with ⟨hcovers, hfind⟩
    simp only [Groups.find?_empty] at hfind
    refine ⟨hcovers, fun k => ⟨_, hfind k⟩, ?_⟩
    have hkeys : gs.keys.reverse = a.key.keysInOrder rs := by
      rw [keys_addAll Groups.wellFormed_empty hgs, KeySpec.keysInOrder]
      simp [Groups.empty]
    rw [Groups.toList, List.map_filterMap, hkeys]
    apply List.filterMap_congr
    intro k _
    rw [summaryOf, hfind k]
  rw [executeGroup, bind_eq_ok_iff]
  constructor
  · rintro ⟨gs, hgs, hout⟩
    rw [← Except.ok.inj hout]
    exact hspec gs hgs
  · rintro ⟨hcovers, hgroups, rfl⟩
    have hgroups' : ∀ k, ∃ group?, a.enterAll (Groups.empty.find? k) (a.key.withKey k rs) = .ok group? := by
      intro k
      rw [Groups.find?_empty]
      exact hgroups k
    rcases exists_addAll hcovers hgroups' with ⟨gs, hgs⟩
    exact ⟨gs, hgs, congrArg Except.ok (hspec gs hgs).2.2⟩

/-- One worker returns one record for each key. -/
theorem executeGroup_spec {a : Aggregate} {rs : List Record} (hcovers : a.key.Covers rs) (hgroups : a.Completable rs) :
    ∃ out, a.executeGroup rs = .ok out ∧ a.Summarizes rs out :=
  ⟨_, executeGroup_eq_ok_iff.2 ⟨hcovers, hgroups, rfl⟩, _, a.key.nodup_keysInOrder rs,
    fun _ => KeySpec.mem_keysInOrder_iff_withKey, rfl⟩

/-! ## Several workers -/

section Buckets

variable (place : Key → UInt64) (buckets : UInt64)

/-- One bucket gives the records of the keys dealt to it. -/
theorem executeGroup_bucket {a : Aggregate} {rs : List Record} (hcovers : a.key.Covers rs)
    (hgroups : a.Completable rs) (i : Nat) :
    ∃ keys : List Key, keys.Nodup ∧ (∀ k, k ∈ keys ↔ (place k % buckets).toNat = i ∧ a.key.withKey k rs ≠ []) ∧
      a.executeGroup (rs.filter fun r => decide (bucketOf place a.key buckets r = i)) =
        .ok (keys.filterMap (a.summaryOf rs)) := by
  have hbucket : ∀ k, a.key.withKey k (rs.filter fun r => decide (bucketOf place a.key buckets r = i)) =
      if (place k % buckets).toNat = i then a.key.withKey k rs else [] :=
    withKey_bucket place buckets a.key rs i
  have hcovers' : a.key.Covers (rs.filter fun r => decide (bucketOf place a.key buckets r = i)) :=
    fun r hr => hcovers r (List.mem_of_mem_filter hr)
  have hgroups' : a.Completable (rs.filter fun r => decide (bucketOf place a.key buckets r = i)) := by
    intro k
    rw [hbucket]
    split
    · exact hgroups k
    · exact ⟨none, rfl⟩
  rcases executeGroup_spec hcovers' hgroups' with ⟨out, hout, keys, hnodup, hmem, rfl⟩
  have hkeys : ∀ k, k ∈ keys ↔ (place k % buckets).toNat = i ∧ a.key.withKey k rs ≠ [] := by
    intro k
    rw [hmem, hbucket]
    split <;> simp_all
  refine ⟨keys, hnodup, hkeys, ?_⟩
  rw [hout]
  congr 1
  apply List.filterMap_congr
  intro k hk
  rw [summaryOf, summaryOf, hbucket, if_pos ((hkeys k).1 hk).1]

/-- Buckets of different numbers together give the records of the keys dealt to one of them. -/
theorem executeBuckets_spec {a : Aggregate} {rs : List Record} (hcovers : a.key.Covers rs)
    (hgroups : a.Completable rs) {numbers : List Nat} (hnumbers : numbers.Nodup) :
    ∃ keys : List Key, keys.Nodup ∧
      (∀ k, k ∈ keys ↔ (place k % buckets).toNat ∈ numbers ∧ a.key.withKey k rs ≠ []) ∧
      a.executeBuckets (numbers.map fun i => rs.filter fun r => decide (bucketOf place a.key buckets r = i)) =
        .ok (keys.filterMap (a.summaryOf rs)) := by
  induction numbers with
  | nil => exact ⟨[], List.nodup_nil, by simp, rfl⟩
  | cons i numbers ih =>
      rw [List.nodup_cons] at hnumbers
      rcases executeGroup_bucket place buckets hcovers hgroups i with
        ⟨keys, hnodup, hmem, hout⟩
      rcases ih hnumbers.2 with ⟨more, hnodup', hmem', hout'⟩
      refine ⟨keys ++ more, ?_, ?_, ?_⟩
      · refine List.nodup_append.2 ⟨hnodup, hnodup', ?_⟩
        rintro k hk k' hk' rfl
        exact hnumbers.1 (((hmem k).1 hk).1 ▸ ((hmem' k).1 hk').1)
      · intro k
        rw [List.mem_append, hmem, hmem', List.mem_cons]
        tauto
      · rw [List.map_cons, executeBuckets, hout, hout', List.filterMap_append]
        rfl

end Buckets

/-- Buckets are put together only if each of them can be completed. -/
theorem exists_executeGroup_of_executeBuckets {a : Aggregate} {buckets : List (List Record)} {out : List Record}
    (h : a.executeBuckets buckets = .ok out) : ∀ bucket ∈ buckets, ∃ out, a.executeGroup bucket = .ok out := by
  induction buckets generalizing out with
  | nil => simp
  | cons bucket buckets ih =>
      rw [executeBuckets] at h
      simp only [bind_eq_ok_iff] at h
      rcases h with ⟨first, hfirst, more, hmore, _⟩
      intro b hb
      rcases List.mem_cons.1 hb with rfl | hb
      · exact ⟨first, hfirst⟩
      · exact ih hmore b hb

/-- Any number of workers returns one record for each key, made of the records of that key. -/
theorem execute_spec {a : Aggregate} (schedule : Schedule) {rs : List Record} (hcovers : a.key.Covers rs)
    (hgroups : a.Completable rs) : ∃ out, a.execute schedule rs = .ok out ∧ a.Summarizes rs out := by
  unfold execute
  split
  · exact executeGroup_spec hcovers hgroups
  · rename_i hseveral
    have hparallelism : 1 < a.parallelism := UInt64.not_le.1 hseveral
    rcases executeBuckets_spec schedule.place a.parallelism hcovers hgroups
      List.nodup_range with ⟨keys, hnodup, hmem, hout⟩
    refine ⟨keys.filterMap (a.summaryOf rs), ?_, keys, hnodup, ?_, rfl⟩
    · rw [partitionByKey_eq hparallelism hcovers]
      exact hout
    · intro k
      rw [hmem, List.mem_range]
      exact ⟨And.right, And.intro (toNat_mod_lt hparallelism (schedule.place k))⟩

/-- Any number of workers returns only if all records have keys and all groups can be completed. -/
theorem of_execute_eq_ok {a : Aggregate} {schedule : Schedule} {rs out : List Record}
    (h : a.execute schedule rs = .ok out) : a.key.Covers rs ∧ a.Completable rs := by
  unfold execute at h
  split at h
  · rcases executeGroup_eq_ok_iff.1 h with ⟨hcovers, hgroups, _⟩
    exact ⟨hcovers, hgroups⟩
  · rename_i hseveral
    have hparallelism : 1 < a.parallelism := UInt64.not_le.1 hseveral
    rcases bind_eq_ok_iff.1 h with ⟨buckets, hbuckets, hout⟩
    have hcovers := covers_of_partitionByKey hparallelism hbuckets
    refine ⟨hcovers, fun k => ?_⟩
    -- the group of a key is completed by the worker to which the key is dealt
    rw [partitionByKey_eq hparallelism hcovers] at hbuckets
    obtain rfl := Except.ok.inj hbuckets
    have hmem := List.mem_range.2 (toNat_mod_lt hparallelism (schedule.place k))
    rcases exists_executeGroup_of_executeBuckets hout _ (List.mem_map_of_mem hmem) with ⟨bucket, hbucket⟩
    have hgroup := (executeGroup_eq_ok_iff.1 hbucket).2.1 k
    rwa [withKey_bucket, if_pos rfl] at hgroup

/-- What any number of workers returns has one record for each key, made of the records of that key. -/
theorem summarizes_of_execute {a : Aggregate} {schedule : Schedule} {rs out : List Record}
    (h : a.execute schedule rs = .ok out) : a.Summarizes rs out := by
  rcases of_execute_eq_ok h with ⟨hcovers, hgroups⟩
  rcases execute_spec schedule hcovers hgroups with ⟨out', hout', hsummarizes⟩
  rwa [← Except.ok.inj (hout'.symm.trans h)]

/-! ## Groups of least values -/

/-- The group of some records has the first of them and the least of their values. -/
theorem enterAll_none_min {a : Aggregate} (hop : a.op = .min) {r : Record} {rs : List Record}
    (hfield : a.HasField (r :: rs)) :
    ∃ m, a.enterAll none (r :: rs) = .ok (some ⟨r, m⟩) ∧
      Value.LeastAmong (fun v => ∃ x ∈ r :: rs, x.get? a.field = some v) m := by
  rcases Reduction.reduce_min a.field (a.values (r :: rs)) with ⟨m, hm, hleast⟩
  refine ⟨m, ?_, by simpa only [values, List.mem_filterMap] using hleast⟩
  rw [enterAll_none hfield, hop, hm]
  rfl

/-- The least values of all groups can be found where all records have the field. -/
theorem completable_min {a : Aggregate} (hop : a.op = .min) {rs : List Record} (hfield : a.HasField rs) :
    a.Completable rs := by
  rw [completable_iff hfield, hop]
  intro k
  rcases Reduction.reduce_min a.field (a.valuesOf rs k) with ⟨m, hm, _⟩
  exact ⟨m, hm⟩

end Aggregate

end WorksetIteration
