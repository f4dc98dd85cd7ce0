import WorksetIteration.Proofs.Grouping

/-!
# Sums of integers by key

One worker that adds up integers by key is exact.  A key without a value that is there comes to nothing, and another
one to the mathematical sum of its values, in thirty-two bits as long as all of them have thirty-two bits and in
sixty-four bits as soon as one of them has.  It fails just if, for some key, the first values that are there already
have a sum outside the range of their type, whatever values come after them.

Main results:

- `Value.IsExactSum`: the sum of the integers among some values, in its type.
- `Value.Overflows`: some first values have a sum outside the range of their type.
- `Value.sumsFit_iff`: the sums on the way fit just if the values do not overflow.
- `Aggregate.exists_enterAll_of_addAll_error`: records cannot be grouped because one of the groups fails.
- `Aggregate.execute_sum`: what one worker that adds up integers returns, and when it fails.
-/

namespace WorksetIteration

/-! ## Exact sums -/

namespace Value

/-- The values that are there. -/
def present (vs : List Value) : List Value :=
  vs.filter fun v => !v.isNull

/-- Whether all values are integers of thirty-two bits. -/
def allInt32 (vs : List Value) : Bool :=
  vs.all fun v => v.asInt32?.isSome

/-- The exact sum of some integers is in the range of its type: thirty-two bits where all of them have thirty-two bits,
and sixty-four bits elsewhere. -/
def SumInRange (vs : List Value) : Prop :=
  if allInt32 vs then Int32.minValue.toInt ≤ exactSum vs ∧ exactSum vs ≤ Int32.maxValue.toInt
  else Int64.minValue.toInt ≤ exactSum vs ∧ exactSum vs ≤ Int64.maxValue.toInt

instance (vs : List Value) : Decidable (SumInRange vs) :=
  inferInstanceAs (Decidable (if allInt32 vs then _ else _))

/-- The first of the values that are there have a sum outside the range of its type. -/
def Overflows (vs : List Value) : Prop :=
  ∃ initial, initial <+: present vs ∧ ¬ SumInRange initial

/-- A value is the exact sum of the integers among some values. -/
structure IsExactSum (vs : List Value) (m : Value) : Prop where
  /-- Without an integer it is missing. -/
  null : present vs = [] → m = .null
  /-- Integers of thirty-two bits have a sum of thirty-two bits. -/
  int32 : present vs ≠ [] → allInt32 (present vs) = true → ∃ n, m = .int32 n ∧ n.toInt = exactSum (present vs)
  /-- Integers one of which has sixty-four bits have a sum of sixty-four bits. -/
  int64 : (∃ n, .int64 n ∈ vs) → ∃ n, m = .int64 n ∧ n.toInt = exactSum (present vs)

theorem present_cons_null (vs : List Value) : present (.null :: vs) = present vs :=
  rfl

theorem present_cons {v : Value} (h : v.isNull = false) (vs : List Value) : present (v :: vs) = v :: present vs :=
  List.filter_cons_of_pos (by rw [h]; rfl)

theorem mem_present {vs : List Value} {v : Value} : v ∈ present vs ↔ v ∈ vs ∧ v.isNull = false := by
  rw [present, List.mem_filter, Bool.not_eq_true']

theorem prefix_present {vs initial : List Value} :
    initial <+: present vs ↔ ∃ first, first <+: vs ∧ initial = present first :=
  List.prefix_filter_iff

/-- Missing values do not count for a sum. -/
theorem exactSum_present (vs : List Value) : exactSum (present vs) = exactSum vs := by
  induction vs with
  | nil => rfl
  | cons v vs ih =>
      by_cases hv : v.isNull = true
      · rw [eq_null_of_isNull hv, present_cons_null, ih]
        exact (Int.zero_add _).symm
      · rw [present_cons (Bool.eq_false_iff.2 hv)]
        exact congrArg (v.integer + ·) ih

section Integral

variable {vs : List Value} (hvs : ∀ v ∈ vs, v.IsIntegral)

include hvs in
theorem allInt32_present_iff : allInt32 (present vs) = true ↔ ∀ n, .int64 n ∉ vs := by
  rw [allInt32, List.all_eq_true]
  constructor
  · intro hall n hn
    exact absurd (hall _ (mem_present.2 ⟨hn, rfl⟩)) nofun
  · intro hnone v hv
    rcases mem_present.1 hv with ⟨hv, hnull⟩
    rcases isIntegral_cases (hvs v hv) with rfl | ⟨n, rfl⟩ | ⟨n, rfl⟩
    · cases hnull
    · rfl
    · exact absurd hv (hnone n)

theorem any_asInt64?_iff (vs : List Value) : (vs.any fun v => v.asInt64?.isSome) = true ↔ ∃ n, .int64 n ∈ vs := by
  rw [List.any_eq_true]
  constructor
  · rintro ⟨v, hv, hsome⟩
    cases v <;> first | exact ⟨_, hv⟩ | cases hsome
  · rintro ⟨n, hn⟩
    exact ⟨_, hn, rfl⟩

theorem any_asInt32?_iff (hall : allInt32 (present vs) = true) :
    (vs.any fun v => v.asInt32?.isSome) = true ↔ present vs ≠ [] := by
  rw [List.any_eq_true]
  constructor
  · rintro ⟨v, hv, hsome⟩
    apply List.ne_nil_of_mem (mem_present.2 ⟨hv, _⟩)
    cases v <;> first | rfl | cases hsome
  · intro hpresent
    rcases List.exists_mem_of_ne_nil _ hpresent with ⟨v, hv⟩
    exact ⟨v, (mem_present.1 hv).1, List.all_eq_true.1 hall v hv⟩

include hvs in
/-- The widest type of some integers is the one that their sum has. -/
theorem widestType?_eq_present :
    widestType? vs =
      if allInt32 (present vs) then (if present vs = [] then none else some .int32) else some .int64 := by
  unfold widestType?
  by_cases hall : allInt32 (present vs) = true
  · have hwide : ¬ ((vs.any fun v => v.asInt64?.isSome) = true) := by
      rw [any_asInt64?_iff, not_exists]
      exact (allInt32_present_iff hvs).1 hall
    rw [if_neg hwide, if_pos hall]
    simp only [any_asInt32?_iff hall, ne_eq, ite_not]
  · have hwide : (vs.any fun v => v.asInt64?.isSome) = true := by
      rw [any_asInt64?_iff]
      rw [allInt32_present_iff hvs] at hall
      exact not_forall_not.1 hall
    rw [if_pos hwide, if_neg hall]

include hvs in
/-- The sum fits just if it is in the range of its type. -/
theorem isSome_total?_iff : (total? vs).isSome = true ↔ SumInRange (present vs) := by
  rw [total?, widestType?_eq_present hvs, ← exactSum_present, SumInRange]
  by_cases hall : allInt32 (present vs) = true
  · rw [if_pos hall, if_pos hall]
    by_cases hnil : present vs = []
    · rw [if_pos hnil, hnil]
      exact ⟨fun _ => by decide, fun _ => rfl⟩
    · rw [if_neg hnil, ofInteger?, Option.isSome_ite]
  · rw [if_neg hall, if_neg hall, ofInteger?, Option.isSome_ite]

include hvs in
/-- A sum that fits is exact. -/
theorem isExactSum_of_total? {m : Value} (h : total? vs = some m) : IsExactSum vs m := by
  rw [total?, widestType?_eq_present hvs, ← exactSum_present] at h
  constructor
  · intro hnil
    rw [hnil] at h
    exact (Option.some.inj h).symm
  · intro hsome hall
    rw [if_pos hall, if_neg hsome] at h
    rcases of_ofInteger? h with ⟨n, _, rfl, hn⟩ | ⟨n, ht, _⟩ | ⟨h32, _⟩
    · exact ⟨n, rfl, hn⟩
    · cases ht
    · exact absurd rfl h32
  · rintro ⟨n, hn⟩
    rw [if_neg fun hall => (allInt32_present_iff hvs).1 hall n hn] at h
    rcases of_ofInteger? h with ⟨n, ht, _⟩ | ⟨n, _, rfl, hn⟩ | ⟨_, h64, _⟩
    · cases ht
    · exact ⟨n, rfl, hn⟩
    · exact absurd rfl h64

include hvs in
/-- The sums of all initial parts fit just if no first values that are there have a sum outside the range of their
type. -/
theorem sumsFit_iff : SumsFit vs ↔ ¬ Overflows vs := by
  have hfits : ∀ initial, initial <+: vs → ((total? initial).isSome = true ↔ SumInRange (present initial)) :=
    fun initial hinitial => isSome_total?_iff fun v hv => hvs v (hinitial.subset hv)
  constructor
  · rintro hsums ⟨_, hprefix, hout⟩
    rcases prefix_present.1 hprefix with ⟨first, hfirst, rfl⟩
    exact hout ((hfits first hfirst).1 (hsums first hfirst))
  · intro hnone initial hinitial
    rw [hfits initial hinitial]
    by_contra hout
    exact hnone ⟨present initial, prefix_present.2 ⟨initial, hinitial, rfl⟩, hout⟩

end Integral

end Value

/-- Integers come to their exact sum, or overflow. -/
theorem Reduction.reduce_sum_eq_ok {vs : List Value} (hvs : ∀ v ∈ vs, v.IsIntegral) {field : UInt64} {m : Value}
    (h : Reduction.sum.reduce field vs = .ok m) : Value.IsExactSum vs m := by
  rcases reduce_sum_cases hvs field with ⟨_, m', htotal, hreduce⟩ | ⟨_, herror⟩
  · rw [Except.ok.inj (h.symm.trans hreduce)]
    exact Value.isExactSum_of_total? hvs htotal
  · cases h.symm.trans herror

theorem Reduction.reduce_sum_eq_error_iff {vs : List Value} (hvs : ∀ v ∈ vs, v.IsIntegral) {field : UInt64}
    {e : Error} :
    Reduction.sum.reduce field vs = .error e ↔ e = .numericOverflow field ∧ Value.Overflows vs := by
  rcases reduce_sum_cases hvs field with ⟨hfit, m, _, hreduce⟩ | ⟨hfit, herror⟩
  · rw [Value.sumsFit_iff hvs] at hfit
    rw [hreduce]
    exact ⟨nofun, fun h => absurd h.2 hfit⟩
  · rw [Value.sumsFit_iff hvs, not_not] at hfit
    rw [herror]
    exact ⟨fun h => ⟨(Except.error.inj h).symm, hfit⟩, fun h => by rw [h.1]⟩

namespace Aggregate

/-! ## Failing groups -/

/-- The reduced field of all records has an integer, which may be missing. -/
def HasIntegers (a : Aggregate) (rs : List Record) : Prop :=
  ∀ r ∈ rs, ∃ v, r.get? a.field = some v ∧ v.IsIntegral

section Failures

variable {a : Aggregate} {rs : List Record}

theorem HasIntegers.hasField (h : a.HasIntegers rs) : a.HasField rs := by
  intro r hr
  rcases h r hr with ⟨v, hv, _⟩
  exact ⟨v, hv⟩

theorem HasIntegers.isIntegral (h : a.HasIntegers rs) (k : Key) : ∀ v ∈ a.valuesOf rs k, v.IsIntegral := by
  intro v hv
  rcases List.mem_filterMap.1 hv with ⟨r, hr, hrv⟩
  rcases h r (KeySpec.mem_withKey.1 hr).1 with ⟨w, hw, hintegral⟩
  rwa [← Option.some.inj (hw.symm.trans hrv)]

/-- A record with a key is added by way of its group. -/
theorem addRecord_of_extract {r : Record} {key : Key} (hkey : a.key.extract r = .ok key) (gs : Groups) :
    a.addRecord gs r = (a.enter (gs.find? key) r).map (gs.put key) := by
  unfold addRecord enter
  cases r.get? a.field with
  | none => rfl
  | some v =>
      dsimp only
      rw [hkey]
      change (a.op.fold a.field _ v >>= _) = _
      cases a.op.fold a.field ((gs.find? key).getD ⟨r, .null⟩).acc v <;> rfl

/-- If records with keys cannot be grouped, the error is that of one of the groups. -/
theorem exists_enterAll_of_addAll_error {gs : Groups} {e : Error} (hcovers : a.key.Covers rs)
    (h : a.addAll gs rs = .error e) : ∃ k, a.enterAll (gs.find? k) (a.key.withKey k rs) = .error e := by
  induction rs generalizing gs with
  | nil => cases h
  | cons r rs ih =>
      rcases hcovers r List.mem_cons_self with ⟨key, hkey⟩
      rw [addAll, addRecord_of_extract hkey] at h
      cases henter : a.enter (gs.find? key) r with
      | error e' =>
          rw [henter] at h
          refine ⟨key, ?_⟩
          rw [KeySpec.withKey_cons hkey, if_pos rfl, enterAll, henter]
          cases h
          rfl
      | ok group =>
          rw [henter] at h
          rcases ih hcovers.of_cons h with ⟨k, hk⟩
          exact ⟨k, (enterAll_put hkey henter rs k).trans hk⟩

/-- If one worker fails although all records have their keys and the field, the values of one of the keys cannot be
reduced. -/
theorem exists_reduce_of_executeGroup_error {e : Error} (hcovers : a.key.Covers rs) (hfield : a.HasField rs)
    (h : a.executeGroup rs = .error e) : ∃ k, a.op.reduce a.field (a.valuesOf rs k) = .error e := by
  have hadd : a.addAll .empty rs = .error e := by
    unfold executeGroup at h
    cases hgs : a.addAll .empty rs with
    | ok gs =>
        rw [hgs] at h
        cases h
    | error e' =>
        rw [hgs] at h
        cases h
        rfl
  rcases exists_enterAll_of_addAll_error hcovers hadd with ⟨k, hk⟩
  have hfield' := hfield.withKey k
  rw [Groups.find?_empty] at hk
  refine ⟨k, ?_⟩
  unfold valuesOf
  cases hrs : a.key.withKey k rs with
  | nil =>
      rw [hrs] at hk
      cases hk
  | cons r rest =>
      rw [hrs] at hfield' hk
      rw [enterAll_none hfield'] at hk
      cases hreduce : a.op.reduce a.field (a.values (r :: rest)) with
      | ok m =>
          rw [hreduce] at hk
          cases hk
      | error e' =>
          rw [hreduce] at hk
          cases hk
          rfl

end Failures

/-! ## Sums of one worker -/

/-- One worker that adds up integers returns the exact sum of each key in its type, and it fails just if the first
values of some key have a sum outside the range of their type; then the error names the field. -/
theorem execute_sum (a : Aggregate) (hop : a.op = .sum) (hsequential : a.parallelism ≤ 1) (schedule : Schedule)
    {rs : List Record} (hcovers : a.key.Covers rs) (hintegers : a.HasIntegers rs) :
    (∀ out, a.execute schedule rs = .ok out →
      a.Emits rs (fun k => Value.IsExactSum (a.valuesOf rs k)) out) ∧
    (∀ e, a.execute schedule rs = .error e ↔
      e = .numericOverflow a.field ∧ ∃ k, Value.Overflows (a.valuesOf rs k)) := by
  have hexecute : a.execute schedule rs = a.executeGroup rs := if_pos hsequential
  have hfield := hintegers.hasField
  rw [hexecute]
  constructor
  · intro out hout
    refine (emits_of_executeGroup hfield hout).imp fun k m hm => ?_
    rw [hop] at hm
    exact Reduction.reduce_sum_eq_ok (hintegers.isIntegral k) hm
  · have hfails : ∀ e, a.executeGroup rs = .error e →
        e = .numericOverflow a.field ∧ ∃ k, Value.Overflows (a.valuesOf rs k) := by
      intro e he
      rcases exists_reduce_of_executeGroup_error hcovers hfield he with ⟨k, hk⟩
      rw [hop, Reduction.reduce_sum_eq_error_iff (hintegers.isIntegral k)] at hk
      exact ⟨hk.1, k, hk.2⟩
    refine fun e => ⟨hfails e, ?_⟩
    rintro ⟨rfl, k, hk⟩
    cases hout : a.executeGroup rs with
    | ok out =>
        -- a result would need the sum of the key that overflows
        rcases (completable_iff hfield).1 (executeGroup_eq_ok_iff.1 hout).2.1 k with ⟨m, hm⟩
        rw [hop, (Reduction.reduce_sum_eq_error_iff (hintegers.isIntegral k)).2 ⟨rfl, hk⟩] at hm
        cases hm
    | error e => rw [(hfails e hout).1]

/-- A sum is widened by the integer that needs it, and it is lost if the integer comes too late. -/
theorem execute_sum_widened_late :
    let a : Aggregate := ⟨.field 0, 1, .sum, 1⟩
    let early : List Record :=
      [.pair (.string "a") .null, .pair (.int32 1) .null, .pair (.int32 1) (.int32 Int32.maxValue),
        .pair (.int32 1) (.int64 1), .pair (.int32 1) (.int32 1)]
    let late : List Record :=
      [.pair (.int32 1) (.int32 Int32.maxValue), .pair (.int32 1) .null, .pair (.int32 1) (.int32 1),
        .pair (.int32 1) (.int64 1)]
    (a.op = .sum ∧ a.parallelism ≤ 1 ∧ a.key.Covers early ∧ a.HasIntegers early ∧
      ∃ out, a.execute .inOrder early = .ok out ∧
        a.Emits early (fun k => Value.IsExactSum (a.valuesOf early k)) out) ∧
      a.key.Covers late ∧ a.HasIntegers late ∧ a.execute .inOrder late = .error (.numericOverflow 1) := by
  intro a early late
  have hearly : a.key.Covers early := .cons rfl (.cons rfl (.cons rfl (.cons rfl (.cons rfl (KeySpec.covers_nil _)))))
  have hlate : a.key.Covers late := .cons rfl (.cons rfl (.cons rfl (.cons rfl (KeySpec.covers_nil _))))
  have hearly' : a.HasIntegers early := by
    intro r hr
    simp only [early, List.mem_cons, List.not_mem_nil, or_false] at hr
    rcases hr with rfl | rfl | rfl | rfl | rfl <;> exact ⟨_, rfl, rfl⟩
  have hlate' : a.HasIntegers late := by
    intro r hr
    simp only [late, List.mem_cons, List.not_mem_nil, or_false] at hr
    rcases hr with rfl | rfl | rfl | rfl <;> exact ⟨_, rfl, rfl⟩
  have hout : a.execute .inOrder early =
      .ok [.pair (.string "a") .null, .pair (.int32 1) (.int64 2147483649)] := by rfl
  refine ⟨⟨rfl, by decide, hearly, hearly', _, hout, ?_⟩, hlate, hlate', ?_⟩
  · exact (execute_sum a rfl (by decide) .inOrder hearly hearly').1 _ hout
  · refine ((execute_sum a rfl (by decide) .inOrder hlate hlate').2 _).2 ⟨rfl, ⟨[.int32 1]⟩, ?_⟩
    exact ⟨[.int32 Int32.maxValue, .int32 1], ⟨[.int64 1], rfl⟩, by decide⟩

end Aggregate

end WorksetIteration
