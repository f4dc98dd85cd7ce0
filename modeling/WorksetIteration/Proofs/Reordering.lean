import WorksetIteration.Proofs.Grouping

/-!
# Records in another order

An aggregate of records with a key and an integer returns the same records for any order of its input, if it returns.
The least and the greatest value are found in any order.  A sum, however, is lost as soon as one of the sums on the
way leaves the range of its type, so that it can be lost in one order and found in another.

Main results:

- `Aggregate.SumsFit`: no sum on the way leaves the range of its type.
- `Aggregate.execute_reordered`: when an aggregate returns the same for two orders of its input.
- `Aggregate.not_sameRecords_of_early_overflow`: two orders for which it does not.
-/

namespace WorksetIteration

/-- The records have two fields, a key and an integer, which may be missing. -/
def IntegerPairs (rs : List Record) : Prop :=
  ∀ r ∈ rs, ∃ k v, r = .pair k v ∧ v.IsIntegral

namespace KeySpec

theorem keysInOrder_perm {spec : KeySpec} {rs rs' : List Record} (h : rs.Perm rs') (k : Key) :
    k ∈ spec.keysInOrder rs ↔ k ∈ spec.keysInOrder rs' := by
  simp only [mem_keysInOrder, h.mem_iff]

end KeySpec

namespace Aggregate

/-- For no key does a sum on the way leave the range of its type. -/
def SumsFit (a : Aggregate) (rs : List Record) : Prop :=
  ∀ k, Value.SumsFit (a.valuesOf rs k)

theorem valuesOf_perm (a : Aggregate) {rs rs' : List Record} (h : rs.Perm rs') (k : Key) :
    (a.valuesOf rs k).Perm (a.valuesOf rs' k) :=
  (h.filter _).filterMap _

section Pairs

variable {a : Aggregate} (hkey : a.key = .field 0) (hfield : a.field = 1) {rs rs' : List Record}

include hkey in
theorem covers_of_integerPairs (hrs : IntegerPairs rs) : a.key.Covers rs := by
  rw [hkey]
  apply KeySpec.covers_of_pairs
  intro r hr
  rcases hrs r hr with ⟨k, v, rfl, _⟩
  exact ⟨k, v, rfl⟩

include hfield in
theorem hasField_of_integerPairs (hrs : IntegerPairs rs) : a.HasField rs := by
  intro r hr
  rcases hrs r hr with ⟨k, v, rfl, _⟩
  rw [hfield]
  exact ⟨v, rfl⟩

include hfield in
theorem isIntegral_of_integerPairs (hrs : IntegerPairs rs) (k : Key) : ∀ v ∈ a.valuesOf rs k, v.IsIntegral := by
  intro v hv
  rcases List.mem_filterMap.1 hv with ⟨r, hr, hrv⟩
  rcases hrs r (KeySpec.mem_withKey.1 hr).1 with ⟨key, w, rfl, hw⟩
  rw [hfield, Record.get?_pair_one] at hrv
  rwa [← Option.some.inj hrv]

include hkey hfield in
/-- The record made for a key has the key and what its values come to. -/
theorem summaryOf_of_integerPairs (hrs : IntegerPairs rs) {k : Key} (hk : k ∈ a.key.keysInOrder rs) {m : Value}
    (hm : a.op.reduce a.field (a.valuesOf rs k) = .ok m) : ∃ n, k = ⟨[n]⟩ ∧ a.summaryOf rs k = some (.pair n m) := by
  rcases exists_summaryOf (hasField_of_integerPairs hfield hrs) hk hm with ⟨o, ho, first, hfirst, hreplaced⟩
  have hmem := KeySpec.mem_withKey.1 (List.mem_of_head? hfirst)
  rcases hrs first hmem.1 with ⟨n, v, rfl, _⟩
  rw [hkey] at hmem
  rw [hfield] at hreplaced
  refine ⟨n, (Except.ok.inj hmem.2).symm, ?_⟩
  rw [ho, ← hreplaced]
  rfl

include hkey hfield in
/-- An aggregate returns unless a sum on the way leaves the range of its type. -/
theorem exists_execute_iff (hrs : IntegerPairs rs) (schedule : Schedule) :
    (∃ out, a.execute schedule rs = .ok out) ↔ (a.op = .sum → a.SumsFit rs) := by
  have hcompletable : a.Completable rs ↔ (a.op = .sum → a.SumsFit rs) := by
    rw [completable_iff (hasField_of_integerPairs hfield hrs)]
    unfold SumsFit
    rw [forall_comm]
    exact forall_congr' fun k => Reduction.exists_reduce_iff a.op a.field (isIntegral_of_integerPairs hfield hrs k)
  rw [← hcompletable]
  constructor
  · rintro ⟨out, hout⟩
    exact (of_execute_eq_ok hout).2
  · intro hgroups
    rcases execute_spec schedule (covers_of_integerPairs hkey hrs) hgroups with ⟨out, hout, _⟩
    exact ⟨out, hout⟩

include hkey hfield in
/-- Where an aggregate returns for two orders of its input, it returns the same records. -/
theorem perm_of_execute (hrs : IntegerPairs rs) (hperm : rs.Perm rs') {schedule schedule' : Schedule}
    {out out' : List Record} (h : a.execute schedule rs = .ok out) (h' : a.execute schedule' rs' = .ok out') :
    out.Perm out' := by
  have hrs' : IntegerPairs rs' := fun r hr => hrs r (hperm.mem_iff.2 hr)
  refine (summarizes_of_execute h).perm (summarizes_of_execute h') (KeySpec.keysInOrder_perm hperm) ?_
  intro k hk
  have hgroup := (completable_iff (hasField_of_integerPairs hfield hrs)).1 (of_execute_eq_ok h).2
  have hgroup' := (completable_iff (hasField_of_integerPairs hfield hrs')).1 (of_execute_eq_ok h').2
  rcases hgroup k with ⟨m, hm⟩
  rcases hgroup' k with ⟨m', hm'⟩
  rcases summaryOf_of_integerPairs hkey hfield hrs hk hm with ⟨n, rfl, hsummary⟩
  rcases summaryOf_of_integerPairs hkey hfield hrs' ((KeySpec.keysInOrder_perm hperm _).1 hk) hm' with
    ⟨n', hn, hsummary'⟩
  cases hn
  have heq : m = m' := Reduction.eq_of_reduce_of_perm (isIntegral_of_integerPairs hfield hrs _)
    (a.valuesOf_perm hperm _) hm hm'
  rw [hsummary, hsummary', heq]

/-- An aggregate of records with a key and an integer has the same outcome for two orders of its input just if, where
it adds up, the sums on the way fit in both orders or in neither. -/
theorem execute_reordered (hkey : a.key = .field 0) (hfield : a.field = 1) (hrs : IntegerPairs rs)
    (hperm : rs.Perm rs') (schedule schedule' : Schedule) :
    SameRecords (a.execute schedule rs) (a.execute schedule' rs') ↔
      (a.op = .sum → (a.SumsFit rs ↔ a.SumsFit rs')) := by
  have hrs' : IntegerPairs rs' := fun r hr => hrs r (hperm.mem_iff.2 hr)
  have hok := exists_execute_iff hkey hfield hrs schedule
  have hok' := exists_execute_iff hkey hfield hrs' schedule'
  rw [SameRecords.iff_of_perm fun out out' h h' => perm_of_execute hkey hfield hrs hperm h h', hok, hok']
  constructor
  · intro h hop
    exact ⟨fun hfit => h.1 (fun _ => hfit) hop, fun hfit => h.2 (fun _ => hfit) hop⟩
  · exact imp_congr_right

end Pairs

/-! ## A sum lost on the way -/

/-- One key with the greatest integer before one and minus one. -/
def greatestFirst : List Record :=
  [.pair (.int64 1) (.int64 Int64.maxValue), .pair (.int64 1) (.int64 1), .pair (.int64 1) (.int64 (-1))]

/-- One key with the greatest integer after one and minus one. -/
def greatestLast : List Record :=
  [.pair (.int64 1) (.int64 1), .pair (.int64 1) (.int64 (-1)), .pair (.int64 1) (.int64 Int64.maxValue)]

theorem greatestFirst_perm : greatestFirst.Perm greatestLast :=
  (List.perm_append_singleton _ _).symm

theorem integerPairs_greatestFirst : IntegerPairs greatestFirst := by
  intro r hr
  simp only [greatestFirst, List.mem_cons, List.not_mem_nil, or_false] at hr
  rcases hr with rfl | rfl | rfl <;> exact ⟨_, _, rfl, rfl⟩

theorem execute_greatestFirst :
    Aggregate.execute ⟨.field 0, 1, .sum, 1⟩ .inOrder greatestFirst = .error (.numericOverflow 1) := by
  rfl

theorem execute_greatestLast :
    Aggregate.execute ⟨.field 0, 1, .sum, 1⟩ .inOrder greatestLast =
      .ok [.pair (.int64 1) (.int64 Int64.maxValue)] := by
  rfl

/-- The sums on the way fit in one of these orders only. -/
theorem execute_reordered_greatest :
    let a : Aggregate := ⟨.field 0, 1, .sum, 1⟩
    IntegerPairs greatestFirst ∧ greatestFirst.Perm greatestLast ∧
      (SameRecords (a.execute .inOrder greatestFirst) (a.execute .inOrder greatestLast) ↔
        (a.op = .sum → (a.SumsFit greatestFirst ↔ a.SumsFit greatestLast))) ∧
      ¬(a.SumsFit greatestFirst ↔ a.SumsFit greatestLast) := by
  intro a
  have hiff := execute_reordered (a := a) rfl rfl integerPairs_greatestFirst greatestFirst_perm .inOrder .inOrder
  refine ⟨integerPairs_greatestFirst, greatestFirst_perm, hiff, fun hfit => ?_⟩
  have hsame := hiff.2 fun _ => hfit
  rw [execute_greatestFirst, execute_greatestLast] at hsame
  cases hsame

/-- A sum that would come back into range is lost in one order, and found in another. -/
theorem not_sameRecords_of_early_overflow :
    IntegerPairs greatestFirst ∧ greatestFirst.Perm greatestLast ∧
      ¬SameRecords (Aggregate.execute ⟨.field 0, 1, .sum, 1⟩ .inOrder greatestFirst)
        (Aggregate.execute ⟨.field 0, 1, .sum, 1⟩ .inOrder greatestLast) := by
  refine ⟨integerPairs_greatestFirst, greatestFirst_perm, ?_⟩
  rw [execute_greatestFirst, execute_greatestLast]
  rintro ⟨⟩

end Aggregate

end WorksetIteration
