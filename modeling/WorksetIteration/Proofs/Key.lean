import Mathlib.Algebra.Ring.Nat
import Mathlib.Data.List.Dedup
import Mathlib.Data.List.Nodup
import Mathlib.Data.List.Perm.Basic
import WorksetIteration.Key.Extraction

/-!
# Records and their keys

A list of records is seen through a key specification: which of its records have a key, which keys occur, and which
records have a given one.  A record without a key is reported by the first key field that it lacks, and a list by the
first of its records without a key.

Main results:

- `KeySpec.Covers`, `KeySpec.withKey`, `KeySpec.keysOf`: lists in which every record has a key, the records of a key,
  and the keys that occur.
- `KeySpec.flatMap_withKey_perm`: a list is put together from its parts of one key each.
- `KeySpec.exists_extract_iff`, `KeySpec.extract_eq_error_iff`: which records have a key, and what is reported of the
  others.
- `KeySpec.FirstMalformed`: an error that reports the first record without a key.
-/

namespace WorksetIteration

/-! ## The first element that fails -/

/-- The first element of a list with one property, where those before it have another: it is the head, or the head has
the other property and it is in the tail. -/
theorem exists_first_cons_iff {α : Type} {p q : α → Prop} {a : α} {as : List α} :
    (∃ before x after, a :: as = before ++ x :: after ∧ (∀ y ∈ before, p y) ∧ q x) ↔
      q a ∨ p a ∧ ∃ before x after, as = before ++ x :: after ∧ (∀ y ∈ before, p y) ∧ q x := by
  constructor
  · rintro ⟨_ | ⟨b, before⟩, x, after, hsplit, hbefore, hx⟩
    · cases hsplit
      exact .inl hx
    · cases hsplit
      rw [List.forall_mem_cons] at hbefore
      exact .inr ⟨hbefore.1, before, x, after, rfl, hbefore.2, hx⟩
  · rintro (ha | ⟨ha, before, x, after, rfl, hbefore, hx⟩)
    · exact ⟨[], a, as, rfl, by simp, ha⟩
    · exact ⟨a :: before, x, after, rfl, List.forall_mem_cons.2 ⟨ha, hbefore⟩, hx⟩

/-! ## Lists taken apart by a label -/

section Labels

variable {α κ : Type} [DecidableEq κ]

/-- A list is a permutation of its parts of one label each, if every label that occurs is listed once. -/
theorem flatMap_filter_perm (label : α → κ) {labels : List κ} (hnodup : labels.Nodup) {xs : List α}
    (hmem : ∀ x ∈ xs, label x ∈ labels) :
    (labels.flatMap fun l => xs.filter fun x => label x = l).Perm xs := by
  induction labels generalizing xs with
  | nil =>
      have hnil : xs = [] := List.eq_nil_iff_forall_not_mem.2 fun x hx => by simpa using hmem x hx
      simp [hnil]
  | cons l labels ih =>
      rw [List.nodup_cons] at hnodup
      rw [List.flatMap_cons]
      have hrest : (labels.flatMap fun l' => xs.filter fun x => label x = l') =
          labels.flatMap fun l' => (xs.filter fun x => !decide (label x = l)).filter fun x => label x = l' := by
        apply List.flatMap_congr
        intro l' hl'
        rw [List.filter_filter]
        apply List.filter_congr
        intro x _
        by_cases h : label x = l'
        · have hne : l' ≠ l := fun heq => hnodup.1 (heq ▸ hl')
          simp [h, hne]
        · simp [h]
      rw [hrest]
      refine List.Perm.trans (List.Perm.append_left _ (ih hnodup.2 ?_)) (List.filter_append_perm _ xs)
      intro x hx
      rw [List.mem_filter] at hx
      rcases List.mem_cons.1 (hmem x hx.1) with h | h
      · simp [h] at hx
      · exact h

end Labels

/-! ## Records of a key -/

@[simp]
theorem Key.hasNull_singleton (v : Value) : Key.hasNull ⟨[v]⟩ = v.isNull :=
  Bool.or_false _

namespace KeySpec

/-- The key of a single field is the value of that field. -/
theorem extract_field (i : UInt64) (r : Record) :
    (field i).extract r =
      match r.get? i with
      | some v => .ok ⟨[v]⟩
      | none => .error (.missingKeyField i r.arity) := by
  rw [extract, indices_field, extractFields]
  cases r.get? i <;> rfl

theorem extract_field_eq_ok_iff {i : UInt64} {r : Record} {k : Key} :
    (field i).extract r = .ok k ↔ ∃ v, r.get? i = some v ∧ k = ⟨[v]⟩ := by
  rw [extract_field]
  cases r.get? i with
  | none => simp
  | some v => simp [eq_comm]

/-- Every record of the list has all key fields. -/
def Covers (spec : KeySpec) (rs : List Record) : Prop :=
  ∀ r ∈ rs, ∃ k, spec.extract r = .ok k

theorem covers_of_pairs {rs : List Record} (h : ∀ r ∈ rs, ∃ n c, r = .pair n c) : (field 0).Covers rs := by
  intro r hr
  rcases h r hr with ⟨n, c, rfl⟩
  exact ⟨⟨[n]⟩, rfl⟩

/-- The records of a list that have a given key, in order. -/
def withKey (spec : KeySpec) (k : Key) (rs : List Record) : List Record :=
  rs.filter fun r => decide (spec.extract r = .ok k)

@[simp]
theorem withKey_nil (spec : KeySpec) (k : Key) : spec.withKey k [] = [] :=
  rfl

theorem mem_withKey {spec : KeySpec} {k : Key} {rs : List Record} {r : Record} :
    r ∈ spec.withKey k rs ↔ r ∈ rs ∧ spec.extract r = .ok k := by
  simp [withKey]

theorem withKey_cons {spec : KeySpec} {r : Record} {key : Key} (h : spec.extract r = .ok key) (k : Key)
    (rs : List Record) :
    spec.withKey k (r :: rs) = if key = k then r :: spec.withKey k rs else spec.withKey k rs := by
  simp [withKey, List.filter_cons, h]

/-- Where no key is repeated, a key finds the one record that has it. -/
theorem withKey_eq_singleton {spec : KeySpec} {rs : List Record}
    (hdistinct : rs.Pairwise fun a b => spec.extract a ≠ spec.extract b) {r : Record} (hr : r ∈ rs) {k : Key}
    (hk : spec.extract r = .ok k) : spec.withKey k rs = [r] := by
  have hmem : r ∈ spec.withKey k rs := mem_withKey.2 ⟨hr, hk⟩
  have hpair : (spec.withKey k rs).Pairwise fun a b => spec.extract a ≠ spec.extract b := hdistinct.filter _
  have hkeys : ∀ x ∈ spec.withKey k rs, spec.extract x = .ok k := fun x hx => (mem_withKey.1 hx).2
  generalize spec.withKey k rs = found at hmem hpair hkeys ⊢
  rcases found with _ | ⟨a, _ | ⟨b, rest⟩⟩
  · cases hmem
  · rw [List.mem_singleton.1 hmem]
  · have hne := (List.pairwise_cons.1 hpair).1 b List.mem_cons_self
    exact absurd ((hkeys a List.mem_cons_self).trans (hkeys b (by simp)).symm) hne

/-- A key that no record has finds none. -/
theorem withKey_eq_nil {spec : KeySpec} {rs : List Record} {k : Key} (h : ∀ r ∈ rs, spec.extract r ≠ .ok k) :
    spec.withKey k rs = [] :=
  List.filter_eq_nil_iff.2 fun r hr => by simpa using h r hr

theorem covers_nil (spec : KeySpec) : spec.Covers [] :=
  fun _ hr => absurd hr List.not_mem_nil

theorem Covers.cons {spec : KeySpec} {r : Record} {k : Key} (hk : spec.extract r = .ok k) {rs : List Record}
    (h : spec.Covers rs) : spec.Covers (r :: rs) := by
  intro x hx
  rcases List.mem_cons.1 hx with rfl | hx
  · exact ⟨k, hk⟩
  · exact h x hx

theorem Covers.append {spec : KeySpec} {rs rs' : List Record} (h : spec.Covers rs) (h' : spec.Covers rs') :
    spec.Covers (rs ++ rs') := by
  intro x hx
  rcases List.mem_append.1 hx with hx | hx
  · exact h x hx
  · exact h' x hx

theorem Covers.of_cons {spec : KeySpec} {r : Record} {rs : List Record} (h : spec.Covers (r :: rs)) :
    spec.Covers rs :=
  fun x hx => h x (List.mem_cons_of_mem _ hx)

theorem Covers.perm {spec : KeySpec} {rs rs' : List Record} (h : spec.Covers rs) (hperm : rs.Perm rs') :
    spec.Covers rs' :=
  fun r hr => h r (hperm.mem_iff.2 hr)

/-- A list is a permutation of its records key by key, if every key that occurs is listed once. -/
theorem flatMap_withKey_perm {spec : KeySpec} {keys : List Key} (hnodup : keys.Nodup) {rs : List Record}
    (hmem : ∀ r ∈ rs, ∃ k ∈ keys, spec.extract r = .ok k) :
    (keys.flatMap fun k => spec.withKey k rs).Perm rs := by
  have hlabels : (keys.map (Except.ok (ε := Error))).Nodup :=
    hnodup.map fun a b hab => Except.ok.inj hab
  have hlisted : ∀ r ∈ rs, spec.extract r ∈ keys.map (Except.ok (ε := Error)) := by
    intro r hr
    rcases hmem r hr with ⟨k, hk, hr⟩
    exact hr ▸ List.mem_map_of_mem hk
  have hperm := flatMap_filter_perm spec.extract hlabels hlisted
  rwa [List.flatMap_map] at hperm

/-! ## Keys that occur -/

/-- The keys of the records of a list, each of them once. -/
def keysOf (spec : KeySpec) (rs : List Record) : List Key :=
  (rs.filterMap fun r => (spec.extract r).toOption).dedup

theorem mem_keysOf {spec : KeySpec} {rs : List Record} {k : Key} :
    k ∈ spec.keysOf rs ↔ ∃ r ∈ rs, spec.extract r = .ok k := by
  rw [keysOf, List.mem_dedup, List.mem_filterMap]
  refine exists_congr fun r => and_congr_right fun _ => ?_
  cases spec.extract r <;> simp [Except.toOption]

/-- The keys of a list are those with a last record. -/
theorem mem_keysOf_iff_getLast? {spec : KeySpec} {rs : List Record} {k : Key} :
    k ∈ spec.keysOf rs ↔ (spec.withKey k rs).getLast? ≠ none := by
  rw [mem_keysOf, Ne, List.getLast?_eq_none_iff, List.eq_nil_iff_forall_not_mem, not_forall_not]
  exact exists_congr fun r => mem_withKey.symm

theorem nodup_keysOf (spec : KeySpec) (rs : List Record) : (spec.keysOf rs).Nodup :=
  List.nodup_dedup _

/-- Every record with a key is found by one of the keys. -/
theorem length_withKey_sum {spec : KeySpec} {rs : List Record} (h : spec.Covers rs) :
    ((spec.keysOf rs).map fun k => (spec.withKey k rs).length).sum = rs.length := by
  rw [← List.length_flatMap]
  refine (flatMap_withKey_perm (spec.nodup_keysOf rs) fun r hr => ?_).length_eq
  rcases h r hr with ⟨k, hk⟩
  exact ⟨k, mem_keysOf.2 ⟨r, hr, hk⟩, hk⟩

theorem length_withKey_pos {spec : KeySpec} {rs : List Record} {k : Key} (h : k ∈ spec.keysOf rs) :
    0 < (spec.withKey k rs).length := by
  rcases mem_keysOf.1 h with ⟨r, hr, hk⟩
  exact List.length_pos_of_mem (mem_withKey.2 ⟨hr, hk⟩)

/-! ## Fields read and fields missing -/

/-- The values of the listed fields are read off where all of these fields are there. -/
theorem extractFields_eq_ok_iff {r : Record} {indices : List UInt64} {values : List Value} :
    extractFields r indices = .ok values ↔ indices.map r.get? = values.map some := by
  induction indices generalizing values with
  | nil => cases values <;> simp [extractFields]
  | cons i rest ih =>
      rw [extractFields]
      cases hget : r.get? i with
      | none => cases values <;> simp [hget]
      | some v =>
          cases values with
          | nil => cases extractFields r rest <;> simp
          | cons w ws =>
              rw [List.map_cons, List.map_cons, hget, List.cons.injEq, Option.some_inj, ← ih]
              cases extractFields r rest <;> simp

/-- Otherwise the first of them that is missing is reported. -/
theorem extractFields_eq_error_iff {r : Record} {indices : List UInt64} {e : Error} :
    extractFields r indices = .error e ↔
      ∃ before i after, indices = before ++ i :: after ∧ (∀ j ∈ before, r.get? j ≠ none) ∧
        r.get? i = none ∧ e = .missingKeyField i r.arity := by
  induction indices with
  | nil => simp [extractFields]
  | cons i rest ih =>
      rw [exists_first_cons_iff, ← ih, extractFields]
      cases r.get? i with
      | none => simp [eq_comm]
      | some v => cases extractFields r rest <;> simp

/-- A key is made of the values of the key fields. -/
theorem extract_eq_ok_iff {spec : KeySpec} {r : Record} {k : Key} :
    spec.extract r = .ok k ↔ spec.indices.map r.get? = k.values.map some := by
  rw [← extractFields_eq_ok_iff, extract]
  obtain ⟨values⟩ := k
  cases extractFields r spec.indices <;> simp

/-- An error reports the first key field, in key order, that a record lacks. -/
def FirstMissing (spec : KeySpec) (r : Record) (e : Error) : Prop :=
  ∃ before i after, spec.indices = before ++ i :: after ∧ (∀ j ∈ before, r.get? j ≠ none) ∧
    r.get? i = none ∧ e = .missingKeyField i r.arity

theorem extract_eq_error_iff {spec : KeySpec} {r : Record} {e : Error} :
    spec.extract r = .error e ↔ spec.FirstMissing r e := by
  rw [FirstMissing, ← extractFields_eq_error_iff, extract]
  cases extractFields r spec.indices <;> simp

theorem extract_eq_error {spec : KeySpec} {r : Record} {e : Error} (h : spec.extract r = .error e) :
    ∃ i ∈ spec.indices, r.get? i = none ∧ e = .missingKeyField i r.arity := by
  rcases extract_eq_error_iff.1 h with ⟨before, i, after, hsplit, _, hnone, heq⟩
  exact ⟨i, by simp [hsplit], hnone, heq⟩

/-- A record has a key just if it has all key fields. -/
theorem exists_extract_iff {spec : KeySpec} {r : Record} :
    (∃ k, spec.extract r = .ok k) ↔ ∀ i ∈ spec.indices, r.get? i ≠ none := by
  constructor
  · rintro ⟨k, hk⟩ i hi hnone
    have hmem : r.get? i ∈ k.values.map some := extract_eq_ok_iff.1 hk ▸ List.mem_map_of_mem hi
    simp [hnone] at hmem
  · intro h
    cases hk : spec.extract r with
    | ok k => exact ⟨k, rfl⟩
    | error e =>
        rcases extract_eq_error hk with ⟨i, hi, hnone, _⟩
        exact absurd hnone (h i hi)

/-- Every record of a list has a key just if every record has all key fields. -/
theorem covers_iff (spec : KeySpec) {rs : List Record} :
    spec.Covers rs ↔ ∀ r ∈ rs, ∀ i ∈ spec.indices, r.get? i ≠ none :=
  forall₂_congr fun _ _ => exists_extract_iff

/-! ## The first record without a key -/

/-- An error reports the first record of a list that lacks a key field, by a field that it lacks. -/
def FirstMalformed (spec : KeySpec) (rs : List Record) (e : Error) : Prop :=
  ∃ before r after, rs = before ++ r :: after ∧ spec.Covers before ∧ spec.extract r = .error e ∧
    ∃ i ∈ spec.indices, r.get? i = none ∧ e = .missingKeyField i r.arity

theorem not_firstMalformed_nil (spec : KeySpec) (e : Error) : ¬spec.FirstMalformed [] e := by
  simp [FirstMalformed]

theorem firstMalformed_cons_iff {spec : KeySpec} {r : Record} {rs : List Record} {e : Error} :
    spec.FirstMalformed (r :: rs) e ↔
      spec.extract r = .error e ∨ (∃ k, spec.extract r = .ok k) ∧ spec.FirstMalformed rs e := by
  unfold FirstMalformed Covers
  rw [exists_first_cons_iff, and_iff_left_of_imp extract_eq_error]

end KeySpec

end WorksetIteration
