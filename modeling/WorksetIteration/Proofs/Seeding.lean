import WorksetIteration.Proofs.History
import WorksetIteration.Proofs.Order.BitPattern

/-!
# Seeding a solution set

A list of records is accepted as a seed if each of them has all key fields and no two have the same values in these.
What counts as the same is strict in the type, takes a missing value for the same as another one, and takes all
floating-point numbers that denote no number for one.  A list that is not accepted is reported by its first record at
fault, whichever of the two faults that is.

Main results:

- `Value.same_iff`: values are equal just if they are the same.
- `KeySpec.sharesKey_iff`: records share a key just if one key is extracted from both.
- `SolutionSet.exists_seed_iff`: which lists are accepted.
- `SolutionSet.seed_eq_error_iff`: which record of another list is reported, and how.
- `SolutionSet.seed_exact`: all about seeding, with what a seeded set holds.
-/

namespace WorksetIteration

/-! ## The same value -/

/-- Values are the same if they have one type and one payload.  Floating-point numbers are taken by their bit patterns,
and all patterns that denote no number are the same. -/
inductive Value.Same : Value → Value → Prop
  | null : Same .null .null
  | boolean (b : Bool) : Same (.boolean b) (.boolean b)
  | int32 (n : Int32) : Same (.int32 n) (.int32 n)
  | int64 (n : Int64) : Same (.int64 n) (.int64 n)
  | float64 {x y : UInt64} (h : x = y ∨ Reading.ofBits x = .nan ∧ Reading.ofBits y = .nan) :
      Same (.float64 (.ofBits x)) (.float64 (.ofBits y))
  | string (s : String) : Same (.string s) (.string s)

theorem Value.same_iff {v w : Value} : v.Same w ↔ v = w := by
  constructor
  · rintro (_ | _ | _ | _ | h | _)
    case float64 => exact congrArg _ ((BitPattern.ofBits_eq_ofBits_iff _ _).2 h)
    all_goals rfl
  · rintro rfl
    cases v with
    | null => exact .null
    | boolean b => exact .boolean b
    | int32 n => exact .int32 n
    | int64 n => exact .int64 n
    | float64 x =>
        rw [← Float.ofBits_toBits x]
        exact .float64 (.inl rfl)
    | string s => exact .string s

/-! ## Records of one key -/

namespace KeySpec

/-- Two records have the same values in all key fields. -/
def SharesKey (spec : KeySpec) (a b : Record) : Prop :=
  ∀ i ∈ spec.indices, ∃ v w, a.get? i = some v ∧ b.get? i = some w ∧ v.Same w

/-- Records share a key just if one key is extracted from both. -/
theorem sharesKey_iff {spec : KeySpec} {a b : Record} :
    spec.SharesKey a b ↔ ∃ k, spec.extract a = .ok k ∧ spec.extract b = .ok k := by
  constructor
  · intro h
    have hfields : ∀ i ∈ spec.indices, a.get? i ≠ none ∧ b.get? i = a.get? i := by
      intro i hi
      rcases h i hi with ⟨v, w, ha, hb, hsame⟩
      obtain rfl := Value.same_iff.1 hsame
      exact ⟨by simp [ha], hb.trans ha.symm⟩
    rcases exists_extract_iff.2 fun i hi => (hfields i hi).1 with ⟨k, hk⟩
    refine ⟨k, hk, extract_eq_ok_iff.2 ?_⟩
    rw [List.map_congr_left fun i hi => (hfields i hi).2]
    exact extract_eq_ok_iff.1 hk
  · rintro ⟨k, ha, hb⟩ i hi
    have hfields : spec.indices.map a.get? = spec.indices.map b.get? :=
      (extract_eq_ok_iff.1 ha).trans (extract_eq_ok_iff.1 hb).symm
    rcases Option.ne_none_iff_exists'.1 (exists_extract_iff.1 ⟨k, ha⟩ i hi) with ⟨v, hv⟩
    exact ⟨v, v, hv, (List.map_inj_left.1 hfields i hi).symm.trans hv, Value.same_iff.2 rfl⟩

/-- The records of a list have all key fields, and no two of them share their key. -/
structure Distinct (spec : KeySpec) (rs : List Record) : Prop where
  /-- No key field is missing. -/
  complete : ∀ r ∈ rs, ∀ i ∈ spec.indices, r.get? i ≠ none
  /-- No key is repeated. -/
  pairwise : rs.Pairwise fun a b => ¬spec.SharesKey a b

theorem distinct_iff {spec : KeySpec} {rs : List Record} :
    spec.Distinct rs ↔ spec.Covers rs ∧ rs.Pairwise fun a b => spec.extract a ≠ spec.extract b := by
  have hshares : spec.Covers rs → ∀ {a b}, a ∈ rs → b ∈ rs →
      (¬spec.SharesKey a b ↔ spec.extract a ≠ spec.extract b) := by
    intro hcovers a b ha _
    rcases hcovers a ha with ⟨k, hk⟩
    rw [sharesKey_iff, hk, not_iff_not]
    exact ⟨fun ⟨k', hk', hb⟩ => hk'.trans hb.symm, fun hb => ⟨k, rfl, hb.symm⟩⟩
  constructor
  · rintro ⟨hcomplete, hpairwise⟩
    have hcovers := spec.covers_iff.2 hcomplete
    exact ⟨hcovers, (List.Pairwise.iff_of_mem (hshares hcovers)).1 hpairwise⟩
  · rintro ⟨hcovers, hpairwise⟩
    exact ⟨spec.covers_iff.1 hcovers, (List.Pairwise.iff_of_mem (hshares hcovers)).2 hpairwise⟩

/-- An error reports the first record of a list that lacks a key field, by the first field that it lacks, or that shares
its key with an earlier record, by this key. -/
def FirstRefused (spec : KeySpec) (rs : List Record) (e : Error) : Prop :=
  ∃ before r after, rs = before ++ r :: after ∧ spec.Distinct before ∧
    (spec.FirstMissing r e ∨
      ∃ k, spec.extract r = .ok k ∧ (∃ b ∈ before, spec.SharesKey b r) ∧ e = .duplicateKey k)

end KeySpec

namespace SolutionSet

/-! ## Accepted seeds -/

/-- A list is accepted just if its records have keys that differ. -/
theorem exists_seed_iff {rs : List Record} {key : KeySpec} : (∃ s, seed rs key = .ok s) ↔ key.Distinct rs := by
  rw [KeySpec.distinct_iff]
  constructor
  · rintro ⟨s, hs⟩
    rcases stores_of_seed hs with ⟨hkey, hstores⟩
    have hcovers := hstores.covers
    have hpairwise := hstores.pairwise_records
    rw [hkey] at hcovers hpairwise
    exact ⟨hcovers, ((records_perm_of_seed hs).pairwise_iff fun hne => hne.symm).1 hpairwise⟩
  · rintro ⟨hcovers, hpairwise⟩
    rcases seed_spec hcovers hpairwise with ⟨s, hs, _⟩
    exact ⟨s, hs⟩

/-- In a seeded set every key finds the seed record that has it. -/
theorem probe_of_seed {rs : List Record} {key : KeySpec} {s : SolutionSet} (h : seed rs key = .ok s) {r : Record}
    (hr : r ∈ rs) {k : Key} (hk : key.extract r = .ok k) : s.probe k = some r := by
  rcases stores_of_seed h with ⟨rfl, hstores⟩
  have hpairwise := (KeySpec.distinct_iff.1 (exists_seed_iff.1 ⟨s, h⟩)).2
  rw [hstores.probe_eq, KeySpec.withKey_eq_singleton hpairwise hr hk]
  rfl

/-! ## Refused seeds -/

theorem insertNew_append (s : SolutionSet) (before after : List Record) :
    s.insertNew (before ++ after) = s.insertNew before >>= fun t => t.insertNew after := by
  induction before generalizing s with
  | nil => rfl
  | cons r before ih =>
      rw [List.cons_append, insertNew, insertNew]
      cases s.key.extract r with
      | error e => rfl
      | ok k =>
          change (if s.entries.contains k then _ else _) = (if s.entries.contains k then _ else _) >>= _
          split
          · rfl
          · exact ih _

/-- Records are refused for the first of them that is refused after those before it. -/
theorem insertNew_eq_error_iff {s : SolutionSet} {rs : List Record} {e : Error} :
    s.insertNew rs = .error e ↔
      ∃ before r after, rs = before ++ r :: after ∧ ∃ t, s.insertNew before = .ok t ∧ t.insertNew [r] = .error e := by
  constructor
  · intro h
    induction rs generalizing s with
    | nil => cases h
    | cons r rs ih =>
        rw [← List.singleton_append, insertNew_append, bind_eq_error_iff] at h
        rcases h with hr | ⟨t, ht, hrs⟩
        · exact ⟨[], r, rs, rfl, s, rfl, hr⟩
        · rcases ih hrs with ⟨before, r', after, rfl, u, hu, hr'⟩
          refine ⟨r :: before, r', after, rfl, u, ?_, hr'⟩
          rw [← List.singleton_append, insertNew_append, ht]
          exact hu
  · rintro ⟨before, r, after, rfl, t, ht, hr⟩
    rw [insertNew_append, ht, ← List.singleton_append]
    change t.insertNew ([r] ++ after) = .error e
    rw [insertNew_append, hr]
    rfl

/-- A single record is refused if it has no key, and if its key is there. -/
theorem insertNew_singleton_eq_error_iff {s : SolutionSet} {r : Record} {e : Error} :
    s.insertNew [r] = .error e ↔
      s.key.extract r = .error e ∨ ∃ k, s.key.extract r = .ok k ∧ s.probe k ≠ none ∧ e = .duplicateKey k := by
  rw [insertNew, bind_eq_error_iff]
  refine or_congr_right (exists_congr fun k => and_congr_right fun _ => ?_)
  rw [contains_eq_isSome_probe]
  cases s.probe k <;> simp [insertNew, eq_comm]

/-- The keys that are there after seeding are those of the seed records. -/
theorem probe_of_seed_ne_none_iff {rs : List Record} {key : KeySpec} {s : SolutionSet} (h : seed rs key = .ok s)
    {k : Key} : s.probe k ≠ none ↔ ∃ r ∈ rs, key.extract r = .ok k := by
  rcases stores_of_seed h with ⟨rfl, hstores⟩
  rw [hstores.probe_eq, ← KeySpec.mem_keysOf_iff_getLast?, KeySpec.mem_keysOf]

/-- A list is refused for its first record that lacks a key field or repeats a key. -/
theorem seed_eq_error_iff {rs : List Record} {key : KeySpec} {e : Error} :
    seed rs key = .error e ↔ key.FirstRefused rs e := by
  have hstep : ∀ {before t r}, seed before key = .ok t → (t.insertNew [r] = .error e ↔
      key.FirstMissing r e ∨
        ∃ k, key.extract r = .ok k ∧ (∃ b ∈ before, key.SharesKey b r) ∧ e = .duplicateKey k) := by
    intro before t r ht
    obtain rfl : t.key = key := (stores_of_seed ht).1
    rw [insertNew_singleton_eq_error_iff, KeySpec.extract_eq_error_iff]
    refine or_congr_right (exists_congr fun k => and_congr_right fun hk => and_congr_left fun _ => ?_)
    rw [probe_of_seed_ne_none_iff ht]
    refine exists_congr fun b => and_congr_right fun _ => ?_
    rw [KeySpec.sharesKey_iff, hk]
    exact ⟨fun hb => ⟨k, hb, rfl⟩, fun ⟨k', hb, hk'⟩ => Except.ok.inj hk' ▸ hb⟩
  rw [seed, insertNew_eq_error_iff]
  refine exists_congr fun before => exists_congr fun r => exists_congr fun after => and_congr_right fun _ => ?_
  rw [← exists_seed_iff, ← exists_and_right]
  exact exists_congr fun t => and_congr_right fun ht => hstep ht

/-! ## All about seeding -/

/-- A list is accepted as a seed just if every record of it has all key fields and no two share their key.  Then the set
holds exactly the records of the list, and each key finds its own; otherwise the first record at fault is reported. -/
theorem seed_exact (rs : List Record) (key : KeySpec) :
    ((∃ s, seed rs key = .ok s) ↔ key.Distinct rs) ∧
    (∀ s, seed rs key = .ok s → s.key = key ∧ s.records.Perm rs ∧ s.size = rs.length ∧
      ∀ r ∈ rs, ∀ k, key.extract r = .ok k → s.probe k = some r) ∧
    ∀ e, seed rs key = .error e ↔ key.FirstRefused rs e := by
  refine ⟨exists_seed_iff, ?_, fun e => seed_eq_error_iff⟩
  intro s h
  exact ⟨(stores_of_seed h).1, records_perm_of_seed h, size_of_seed h, fun r hr k hk => probe_of_seed h hr hk⟩

/-- The number one in its three types, the two zeros, and the key of a missing value and of no number, in two patterns,
which is repeated before a record without any field. -/
theorem seed_exact_of_special_values :
    let key : KeySpec := ⟨[1, 0], by decide⟩
    let row (bits : UInt64) : Record := .pair (.float64 (.ofBits bits)) .null
    let ones : List Record := [.pair (.int32 1) .null, .pair (.int64 1) .null, row 0x3ff0000000000000]
    let zeros : List Record := [row 0, row 0x8000000000000000]
    let refused : List Record := [row 0x7ff8000000000000, row 0xfff0000000000001, ⟨[]⟩]
    (∃ s, seed (ones ++ zeros) key = .ok s ∧ s.records.Perm (ones ++ zeros) ∧ s.size = 5) ∧
      seed refused key = .error (.duplicateKey ⟨[.null, .float64 (.ofBits 0xfff0000000000001)]⟩) := by
  intro key row ones zeros refused
  rcases seed_exact (ones ++ zeros) key with ⟨_, hseeded, _⟩
  rcases seed_exact refused key with ⟨_, _, herrors⟩
  obtain ⟨s, hs⟩ : ∃ s, seed (ones ++ zeros) key = .ok s := ⟨_, rfl⟩
  rcases hseeded s hs with ⟨_, hperm, hsize, _⟩
  refine ⟨⟨s, hs, hperm, hsize⟩, (herrors _).2 ⟨[row 0x7ff8000000000000], _, _, rfl, ⟨?_, ?_⟩, .inr ⟨_, rfl, ?_, rfl⟩⟩⟩
  · intro r hr i hi
    obtain rfl := List.mem_singleton.1 hr
    rcases List.mem_pair.1 hi with rfl | rfl
    · exact Option.some_ne_none _
    · exact Option.some_ne_none _
  · exact List.pairwise_singleton _ _
  · refine ⟨_, List.mem_singleton_self _, fun i hi => ?_⟩
    rcases List.mem_pair.1 hi with rfl | rfl
    · exact ⟨_, _, rfl, rfl, .null⟩
    · exact ⟨_, _, rfl, rfl, .float64 (.inr ⟨by decide, by decide⟩)⟩

end SolutionSet

end WorksetIteration
