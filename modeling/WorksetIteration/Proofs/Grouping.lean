import Mathlib.Data.List.Forall2
import WorksetIteration.Proofs.Aggregate

/-!
# What an aggregate returns

One worker returns one record for each key, in the order in which the keys first appear: the first record of the key
with the reduced field replaced.  The least and the greatest values are always found.  Any number of workers returns
the same records in some order, or fails as one worker does.

Main results:

- `Aggregate.Emits`: records that stand for the groups of a list, in order.
- `Aggregate.execute_groups`: what one worker returns.
- `SameRecords`: two outcomes with the same records, or two failures.
- `Aggregate.execute_workers`: the number of workers and the way keys are dealt to them do not matter.
-/

namespace WorksetIteration

/-! ## Replacing a field -/

namespace Record

theorem exists_withField? {r : Record} {field : UInt64} {v : Value} (h : r.get? field = some v) (m : Value) :
    ∃ o, r.withField? field m = some o := by
  have hlt : field.toNat < r.arity := (List.getElem?_eq_some_iff.1 h).1
  exact ⟨_, if_pos hlt⟩

section WithField

variable {r o : Record} {field : UInt64} {m : Value}

theorem arity_withField? (h : r.withField? field m = some o) : o.arity = r.arity := by
  rcases Option.ite_none_right_eq_some.1 h with ⟨_, ho⟩
  rw [← Option.some.inj ho, arity, List.length_set, arity]

theorem get?_withField? (h : r.withField? field m = some o) {i : UInt64} (hi : field ≠ i) : o.get? i = r.get? i := by
  rcases Option.ite_none_right_eq_some.1 h with ⟨_, ho⟩
  rw [← Option.some.inj ho, get?, List.getElem?_set_ne fun heq => hi (UInt64.toNat_inj.1 heq), get?]

/-- Replacing a field that is none of the key's leaves the key as it is. -/
theorem extract_withField? (h : r.withField? field m = some o) {spec : KeySpec} (hspec : field ∉ spec.indices) :
    spec.extract o = spec.extract r := by
  have hfields : ∀ indices : List UInt64, field ∉ indices →
      KeySpec.extractFields o indices = KeySpec.extractFields r indices := by
    intro indices hindices
    induction indices with
    | nil => rfl
    | cons i rest ih =>
        rw [List.mem_cons, not_or] at hindices
        rw [KeySpec.extractFields, KeySpec.extractFields, get?_withField? h hindices.1, arity_withField? h,
          ih hindices.2]
  rw [KeySpec.extract, KeySpec.extract, hfields spec.indices hspec]

end WithField

end Record

namespace Aggregate

/-! ## Records that stand for groups -/

/-- A record stands for the group of a key with a value: it is the first record of the key, with the reduced field
replaced by the value. -/
def Represents (a : Aggregate) (rs : List Record) (k : Key) (m : Value) (o : Record) : Prop :=
  ∃ first, (a.key.withKey k rs).head? = some first ∧ first.withField? a.field m = some o

/-- Records stand for the groups of a list one by one, in the order in which the keys first appear, each with a value
that suits its key. -/
def Emits (a : Aggregate) (rs : List Record) (value : Key → Value → Prop) (out : List Record) : Prop :=
  List.Forall₂ (fun k o => ∃ m, value k m ∧ a.Represents rs k m o) (a.key.keysInOrder rs) out

theorem Emits.imp {a : Aggregate} {rs out : List Record} {value value' : Key → Value → Prop} (h : a.Emits rs value out)
    (himp : ∀ k m, value k m → value' k m) : a.Emits rs value' out :=
  List.Forall₂.imp (fun k _ ⟨m, hm, ho⟩ => ⟨m, himp k m hm, ho⟩) h

theorem Represents.extract {a : Aggregate} {rs : List Record} {k : Key} {m : Value} {o : Record}
    (h : a.Represents rs k m o) (hfield : a.field ∉ a.key.indices) : a.key.extract o = .ok k := by
  rcases h with ⟨first, hfirst, ho⟩
  rw [Record.extract_withField? ho hfield]
  exact (KeySpec.mem_withKey.1 (List.mem_of_head? hfirst)).2

/-- Where the reduced field is none of the key's, the records have the keys that they stand for. -/
theorem Emits.map_extract {a : Aggregate} {rs out : List Record} {value : Key → Value → Prop}
    (h : a.Emits rs value out) (hfield : a.field ∉ a.key.indices) :
    out.map a.key.extract = (a.key.keysInOrder rs).map .ok := by
  unfold Emits at h
  generalize a.key.keysInOrder rs = keys at h ⊢
  induction h with
  | nil => rfl
  | cons hhead _ ih =>
      rcases hhead with ⟨m, _, hrepresents⟩
      rw [List.map_cons, List.map_cons, hrepresents.extract hfield, ih]

section Groups

variable {a : Aggregate} {rs : List Record}

/-- The record made of the records of a key stands for its group, with what its values come to. -/
theorem exists_summaryOf (hfield : a.HasField rs) {k : Key} (hk : k ∈ a.key.keysInOrder rs) {m : Value}
    (hm : a.op.reduce a.field (a.valuesOf rs k) = .ok m) :
    ∃ o, a.summaryOf rs k = some o ∧ a.Represents rs k m o := by
  have hfield' := hfield.withKey k
  rw [KeySpec.mem_keysInOrder_iff_withKey] at hk
  unfold valuesOf at hm
  unfold Represents summaryOf
  cases hrs : a.key.withKey k rs with
  | nil => exact absurd hrs hk
  | cons first rest =>
      rw [hrs] at hfield' hm
      rcases hfield' first List.mem_cons_self with ⟨v, hv⟩
      rcases Record.exists_withField? hv m with ⟨o, ho⟩
      refine ⟨o, ?_, first, rfl, ho⟩
      rw [enterAll_none hfield', hm]
      change some (a.summary ⟨first, m⟩) = some o
      rw [summary, ho, Option.getD_some]

theorem forall₂_filterMap {α β : Type} {R : α → β → Prop} {f : α → Option β} {xs : List α}
    (h : ∀ x ∈ xs, ∃ y, f x = some y ∧ R x y) : List.Forall₂ R xs (xs.filterMap f) := by
  induction xs with
  | nil => exact .nil
  | cons x xs ih =>
      rcases h x List.mem_cons_self with ⟨y, hy, hR⟩
      rw [List.filterMap_cons_some hy]
      exact .cons hR (ih fun x' hx' => h x' (List.mem_cons_of_mem x hx'))

/-- One worker returns records that stand for the groups, with what their values come to. -/
theorem emits_of_executeGroup (hfield : a.HasField rs) {out : List Record} (h : a.executeGroup rs = .ok out) :
    a.Emits rs (fun k m => a.op.reduce a.field (a.valuesOf rs k) = .ok m) out := by
  rcases executeGroup_eq_ok_iff.1 h with ⟨_, hgroups, rfl⟩
  apply forall₂_filterMap
  intro k hk
  rcases (completable_iff hfield).1 hgroups k with ⟨m, hm⟩
  rcases exists_summaryOf hfield hk hm with ⟨o, ho, hrepresents⟩
  exact ⟨o, ho, m, hm, hrepresents⟩

/-- One worker returns where all values can be reduced, with values of which something is known. -/
theorem exists_emits_executeGroup (hcovers : a.key.Covers rs) (hfield : a.HasField rs)
    (value : List Value → Value → Prop) (hreduce : ∀ vs, ∃ m, a.op.reduce a.field vs = .ok m ∧ value vs m) :
    ∃ out, a.executeGroup rs = .ok out ∧ a.Emits rs (fun k => value (a.valuesOf rs k)) out := by
  have hgroups : a.Completable rs := by
    rw [completable_iff hfield]
    intro k
    rcases hreduce (a.valuesOf rs k) with ⟨m, hm, _⟩
    exact ⟨m, hm⟩
  have hout := executeGroup_eq_ok_iff.2 ⟨hcovers, hgroups, rfl⟩
  refine ⟨_, hout, (emits_of_executeGroup hfield hout).imp ?_⟩
  intro k m hm
  rcases hreduce (a.valuesOf rs k) with ⟨m', hm', hvalue⟩
  rwa [Except.ok.inj (hm.symm.trans hm')]

end Groups

/-! ## One worker -/

/-- One worker returns a record for each key that occurs, in the order in which the keys first appear: the first record
of the key with the reduced field replaced by what the values of the key come to.  If the reduced field is none of the
key's, the records have these keys.  The least and the greatest values that are there are found for any values. -/
theorem execute_groups (a : Aggregate) (hsequential : a.parallelism ≤ 1) (schedule : Schedule) {rs : List Record}
    (hcovers : a.key.Covers rs) (hfield : a.HasField rs) :
    (a.key.keysInOrder rs).Nodup ∧
      (∀ k, k ∈ a.key.keysInOrder rs ↔ ∃ r ∈ rs, a.key.extract r = .ok k) ∧
      (∀ out, a.execute schedule rs = .ok out →
        a.Emits rs (fun k m => a.op.reduce a.field (a.valuesOf rs k) = .ok m) out ∧
          (a.field ∉ a.key.indices → out.map a.key.extract = (a.key.keysInOrder rs).map .ok)) ∧
      (a.op = .min → ∃ out, a.execute schedule rs = .ok out ∧
        a.Emits rs (fun k => Value.LeastAmong (· ∈ a.valuesOf rs k)) out) ∧
      (a.op = .max → ∃ out, a.execute schedule rs = .ok out ∧
        a.Emits rs (fun k => Value.GreatestAmong (· ∈ a.valuesOf rs k)) out) := by
  have hexecute : a.execute schedule rs = a.executeGroup rs := if_pos hsequential
  rw [hexecute]
  refine ⟨a.key.nodup_keysInOrder rs, fun _ => KeySpec.mem_keysInOrder, ?_, ?_, ?_⟩
  · intro out hout
    have hemits := emits_of_executeGroup hfield hout
    exact ⟨hemits, hemits.map_extract⟩
  · intro hop
    apply exists_emits_executeGroup hcovers hfield fun vs => Value.LeastAmong (· ∈ vs)
    rw [hop]
    exact Reduction.reduce_min a.field
  · intro hop
    apply exists_emits_executeGroup hcovers hfield fun vs => Value.GreatestAmong (· ∈ vs)
    rw [hop]
    exact Reduction.reduce_max a.field

/-- Missing values are passed over where they come first, last or alone, and the types of the others may differ. -/
theorem execute_groups_mixed :
    let a : Aggregate := ⟨.field 0, 1, .min, 1⟩
    let rs : List Record :=
      [.pair (.int32 1) .null, .pair .null .null, .pair (.int32 1) (.string "a"), .pair (.int32 1) (.int64 5),
        .pair .null (.boolean true), .pair (.int64 1) .null]
    a.parallelism ≤ 1 ∧ a.key.Covers rs ∧ a.HasField rs ∧
      ∃ out, a.execute .inOrder rs = .ok out ∧
        a.Emits rs (fun k => Value.LeastAmong (· ∈ a.valuesOf rs k)) out := by
  intro a rs
  have hcovers : a.key.Covers rs :=
    .cons rfl (.cons rfl (.cons rfl (.cons rfl (.cons rfl (.cons rfl (KeySpec.covers_nil _))))))
  have hfield : a.HasField rs := by
    intro r hr
    simp only [rs, List.mem_cons, List.not_mem_nil, or_false] at hr
    rcases hr with rfl | rfl | rfl | rfl | rfl | rfl <;> exact ⟨_, rfl⟩
  exact ⟨by decide, hcovers, hfield, (execute_groups a (by decide) .inOrder hcovers hfield).2.2.2.1 rfl⟩

end Aggregate

/-! ## Any number of workers -/

/-- Two outcomes with the same records, in any order, or two failures. -/
inductive SameRecords : Except Error (List Record) → Except Error (List Record) → Prop
  | ok {out out' : List Record} (h : out.Perm out') : SameRecords (.ok out) (.ok out')
  | error (e e' : Error) : SameRecords (.error e) (.error e')

/-- Outcomes that are permutations of each other where both are results have the same records just if they are results
together. -/
theorem SameRecords.iff_of_perm {x y : Except Error (List Record)}
    (hperm : ∀ out out', x = .ok out → y = .ok out' → out.Perm out') :
    SameRecords x y ↔ ((∃ out, x = .ok out) ↔ ∃ out, y = .ok out) := by
  constructor
  · intro h
    cases h with
    | ok _ => exact ⟨fun _ => ⟨_, rfl⟩, fun _ => ⟨_, rfl⟩⟩
    | error e e' => exact ⟨nofun, nofun⟩
  · intro hok
    cases x with
    | ok out =>
        rcases hok.1 ⟨out, rfl⟩ with ⟨out', rfl⟩
        exact .ok (hperm out out' rfl rfl)
    | error e =>
        cases y with
        | ok out' => exact absurd (hok.2 ⟨out', rfl⟩) (fun ⟨_, h⟩ => nomatch h)
        | error e' => exact .error e e'

namespace Aggregate

/-- Lists with the same keys, whose records come to the same for each key, are summarized by the same records. -/
theorem Summarizes.perm {a : Aggregate} {rs rs' out out' : List Record} (h : a.Summarizes rs out)
    (h' : a.Summarizes rs' out') (hkeys : ∀ k, k ∈ a.key.keysInOrder rs ↔ k ∈ a.key.keysInOrder rs')
    (hsummary : ∀ k ∈ a.key.keysInOrder rs, a.summaryOf rs k = a.summaryOf rs' k) : out.Perm out' := by
  simp only [KeySpec.mem_keysInOrder_iff_withKey] at hkeys hsummary
  rcases h with ⟨keys, hnodup, hmem, rfl⟩
  rcases h' with ⟨keys', hnodup', hmem', rfl⟩
  rw [List.filterMap_congr fun k hk => hsummary k ((hmem k).1 hk)]
  apply List.Perm.filterMap
  rw [List.perm_ext_iff_of_nodup hnodup hnodup']
  intro k
  rw [hmem, hkeys, hmem']

section Workers

variable (a : Aggregate) (n : UInt64)

theorem enterAll_workers (group? : Option Group) (rs : List Record) :
    enterAll { a with parallelism := n } group? rs = a.enterAll group? rs := by
  induction rs generalizing group? with
  | nil => rfl
  | cons r rs ih =>
      have henter : enter { a with parallelism := n } group? r = a.enter group? r := rfl
      simp only [enterAll, henter, ih]

theorem completable_workers (rs : List Record) :
    Completable { a with parallelism := n } rs ↔ a.Completable rs := by
  simp only [Completable, enterAll_workers]

theorem summarizes_workers (rs out : List Record) :
    Summarizes { a with parallelism := n } rs out ↔ a.Summarizes rs out := by
  have hsummary : summaryOf { a with parallelism := n } rs = a.summaryOf rs := by
    funext k
    simp only [summaryOf, enterAll_workers]
    rfl
  rw [Summarizes, Summarizes, hsummary]

end Workers

/-- Any number of workers, however the keys are dealt to them, returns the records that one worker returns, or fails as
one worker does. -/
theorem execute_workers (a : Aggregate) (n : UInt64) (schedule schedule' : Schedule) (rs : List Record) :
    SameRecords ({ a with parallelism := n }.execute schedule rs)
      ({ a with parallelism := 1 }.execute schedule' rs) := by
  have hok : ∀ (m : UInt64) (s : Schedule), (∃ out, execute { a with parallelism := m } s rs = .ok out) ↔
      a.key.Covers rs ∧ a.Completable rs := by
    intro m s
    rw [← completable_workers a m]
    constructor
    · rintro ⟨out, hout⟩
      exact of_execute_eq_ok hout
    · rintro ⟨hcovers, hgroups⟩
      rcases execute_spec (a := { a with parallelism := m }) s hcovers hgroups with ⟨out, hout, _⟩
      exact ⟨out, hout⟩
  refine (SameRecords.iff_of_perm ?_).2 ((hok n schedule).trans (hok 1 schedule').symm)
  intro out out' hout hout'
  exact ((summarizes_workers a n rs out).1 (summarizes_of_execute hout)).perm
    ((summarizes_workers a 1 rs out').1 (summarizes_of_execute hout')) (fun _ => Iff.rfl) fun _ _ => rfl

end Aggregate

end WorksetIteration
