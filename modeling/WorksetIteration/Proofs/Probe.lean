import Mathlib.Data.List.Perm.Basic
import WorksetIteration.Join.Probe
import WorksetIteration.Proofs.Index

/-!
# What probing finds

Each probing record is paired with the stored records of its key, and contributes what the pairs combine to.  One worker
returns the contributions of its records in order, if every record has a key and the budget holds all pairs, and it
fails otherwise.

Main results:

- `Probe.step_cases`: what looking up a record can do.
- `Probe.run_of_admits`, `Probe.admits_of_run`: when one worker returns a result, and which.
- `Probe.run_eq_error`: one worker fails at one of its records.
-/

namespace WorksetIteration

namespace Probe

/-! ## Pairs and contributions -/

/-- The stored records that a probing record is paired with. -/
def found (p : Probe) (r : Record) : List Record :=
  match p.key.extract r with
  | .ok k => if k.hasNull then [] else (p.lookup k).toList
  | .error _ => []

/-- What a probing record contributes to the output. -/
def contribution (p : Probe) (r : Record) : List Record :=
  (p.found r).filterMap fun stored => p.combine stored r

/-- The number of pairs of some probing records. -/
def pairCount (p : Probe) (rs : List Record) : Nat :=
  (rs.map fun r => (p.found r).length).sum

@[simp]
theorem pairCount_nil (p : Probe) : p.pairCount [] = 0 :=
  rfl

@[simp]
theorem pairCount_cons (p : Probe) (r : Record) (rs : List Record) :
    p.pairCount (r :: rs) = (p.found r).length + p.pairCount rs := by
  simp [pairCount]

@[simp]
theorem pairCount_append (p : Probe) (rs rs' : List Record) :
    p.pairCount (rs ++ rs') = p.pairCount rs + p.pairCount rs' := by
  simp [pairCount]

theorem pairCount_perm (p : Probe) {rs rs' : List Record} (h : rs.Perm rs') : p.pairCount rs = p.pairCount rs' :=
  (h.map _).sum_nat

theorem found_of_extract {p : Probe} {r : Record} {k : Key} (h : p.key.extract r = .ok k) :
    p.found r = if k.hasNull then [] else (p.lookup k).toList := by
  rw [found, h]

/-- Probing can look up the records when `used` pairs have been charged: all have keys, and the pairs they make do not
exceed the limit. -/
structure Admits (p : Probe) (used : Nat) (rs : List Record) : Prop where
  /-- Every record has a key. -/
  covers : p.key.Covers rs
  /-- The budget holds all pairs. -/
  within : ∀ limit, p.limit = some limit → used + p.pairCount rs ≤ limit.toNat

namespace Admits

variable {p : Probe} {used : Nat}

/-- Without a limit only the keys matter. -/
theorem of_covers {rs : List Record} (hlimit : p.limit = none) (h : p.key.Covers rs) : p.Admits used rs where
  covers := h
  within := by simp [hlimit]

/-- After some records the others are admitted with their pairs charged. -/
theorem of_append {rs rs' : List Record} (h : p.Admits used (rs ++ rs')) : p.Admits (used + p.pairCount rs) rs' where
  covers := fun r hr => h.covers r (List.mem_append_right rs hr)
  within := by
    intro limit hlimit
    have hle := h.within limit hlimit
    rw [pairCount_append] at hle
    omega

/-- After one record the others are admitted with its pairs charged. -/
theorem of_cons {r : Record} {rs : List Record} (h : p.Admits used (r :: rs)) :
    p.Admits (used + (p.found r).length) rs := by
  have hsplit : p.Admits used ([r] ++ rs) := h
  have hrest := hsplit.of_append
  rwa [pairCount_cons, pairCount_nil, Nat.add_zero] at hrest

/-- A record with a key is admitted in front of others, if it finds nothing or its pairs are. -/
theorem cons {r : Record} {k : Key} (hk : p.key.extract r = .ok k) {rs : List Record}
    (h : p.Admits (used + (p.found r).length) rs) : p.Admits used (r :: rs) where
  covers := .cons hk h.covers
  within := by
    intro limit hlimit
    have hle := h.within limit hlimit
    rw [pairCount_cons]
    omega

theorem perm {rs rs' : List Record} (h : p.Admits used rs) (hperm : rs.Perm rs') : p.Admits used rs' where
  covers := h.covers.perm hperm
  within := by
    rw [← p.pairCount_perm hperm]
    exact h.within

end Admits

/-! ## One record -/

theorem exceeded?_eq_some {p : Probe} {pairs : Nat} {limit : UInt64} (h : p.exceeded? pairs = some limit) :
    p.limit = some limit ∧ limit.toNat < pairs := by
  rw [exceeded?, Option.filter_eq_some_iff] at h
  exact ⟨h.1, of_decide_eq_true h.2⟩

theorem exceeded?_eq_none {p : Probe} {pairs : Nat} (h : p.exceeded? pairs = none) :
    ∀ limit, p.limit = some limit → pairs ≤ limit.toNat := by
  intro limit hlimit
  rw [exceeded?, Option.filter_eq_none_iff] at h
  exact Nat.le_of_not_lt fun hlt => h limit hlimit (decide_eq_true hlt)

/-- What looking up a record can do.  It fails without a key, or with more pairs than the limit allows, which are
charged.  Otherwise its pairs are charged and it contributes what they combine to; the limit is looked at only if there
are any. -/
theorem step_cases (p : Probe) (used : Nat) (r : Record) :
    (∃ e, p.key.extract r = .error e ∧ p.step used r = (used, .error e)) ∨
      ∃ k, p.key.extract r = .ok k ∧
        ((∃ limit, p.limit = some limit ∧ limit.toNat < used + (p.found r).length ∧
            p.step used r = (used + (p.found r).length, .error (.fanoutExceeded limit k))) ∨
          (p.found r = [] ∨ ∀ limit, p.limit = some limit → used + (p.found r).length ≤ limit.toNat) ∧
            p.step used r = (used + (p.found r).length, .ok (p.contribution r))) := by
  cases hk : p.key.extract r with
  | error e =>
      refine Or.inl ⟨e, rfl, ?_⟩
      rw [step, hk]
  | ok k =>
      refine Or.inr ⟨k, rfl, ?_⟩
      unfold step contribution
      rw [found_of_extract hk, hk]
      by_cases hnull : k.hasNull
      · simp [hnull]
      by_cases hnone : (p.lookup k).toList = []
      · simp [hnone]
      cases hexceeded : p.exceeded? (used + (p.lookup k).toList.length) with
      | some limit =>
          rcases exceeded?_eq_some hexceeded with ⟨hlimit, hlt⟩
          exact Or.inl ⟨limit, hlimit, by simpa [hnull] using hlt, by simp [hnull, hnone, hexceeded]⟩
      | none =>
          refine Or.inr ⟨Or.inr ?_, by simp [hnull, hnone, hexceeded]⟩
          simpa [hnull] using exceeded?_eq_none hexceeded

/-- One admitted record is charged its pairs and contributes what they combine to. -/
theorem step_of_admits {p : Probe} {used : Nat} {r : Record} {rs : List Record} (h : p.Admits used (r :: rs)) :
    p.step used r = (used + (p.found r).length, .ok (p.contribution r)) := by
  rcases p.step_cases used r with ⟨e, he, _⟩ | ⟨k, _, ⟨limit, hlimit, hlt, _⟩ | ⟨_, hstep⟩⟩
  · rcases h.covers r List.mem_cons_self with ⟨k, hk⟩
    cases he.symm.trans hk
  · have hle := h.within limit hlimit
    rw [pairCount_cons] at hle
    omega
  · exact hstep

/-- What a record that does not fail has done. -/
theorem step_eq_ok {p : Probe} {used charged : Nat} {r : Record} {out : List Record}
    (h : p.step used r = (charged, .ok out)) :
    (∃ k, p.key.extract r = .ok k) ∧ charged = used + (p.found r).length ∧ out = p.contribution r ∧
      (p.found r = [] ∨ ∀ limit, p.limit = some limit → charged ≤ limit.toNat) := by
  rcases p.step_cases used r with ⟨e, _, hstep⟩ | ⟨k, hk, ⟨limit, _, _, hstep⟩ | ⟨hwithin, hstep⟩⟩
  · cases hstep.symm.trans h
  · cases hstep.symm.trans h
  · obtain ⟨rfl, hout⟩ := Prod.mk.inj (hstep.symm.trans h)
    exact ⟨⟨k, hk⟩, rfl, (Except.ok.inj hout).symm, hwithin⟩

/-- Why a record fails; it may be charged nevertheless. -/
theorem step_eq_error {p : Probe} {used charged : Nat} {r : Record} {e : Error}
    (h : p.step used r = (charged, .error e)) :
    used ≤ charged ∧ (p.key.extract r = .error e ∨
      ∃ k limit, p.key.extract r = .ok k ∧ p.limit = some limit ∧ limit.toNat < charged ∧
        e = .fanoutExceeded limit k) := by
  rcases p.step_cases used r with ⟨e', he', hstep⟩ | ⟨k, hk, ⟨limit, hlimit, hlt, hstep⟩ | ⟨_, hstep⟩⟩
  · obtain ⟨rfl, he⟩ := Prod.mk.inj (hstep.symm.trans h)
    obtain rfl := Except.error.inj he
    exact ⟨Nat.le_refl _, Or.inl he'⟩
  · obtain ⟨rfl, he⟩ := Prod.mk.inj (hstep.symm.trans h)
    exact ⟨Nat.le_add_right _ _, Or.inr ⟨k, limit, hk, hlimit, hlt, (Except.error.inj he).symm⟩⟩
  · cases hstep.symm.trans h

/-! ## One worker -/

theorem run_cons_of_ok {p : Probe} {used charged : Nat} {r : Record} {out : List Record}
    (h : p.step used r = (charged, .ok out)) (rs : List Record) :
    p.run used (r :: rs) = p.run charged rs >>= fun more => pure (out ++ more) := by
  rw [run, h]

/-- A worker returns the contributions of its records in order. -/
theorem run_of_admits {p : Probe} {used : Nat} {rs : List Record} (h : p.Admits used rs) :
    p.run used rs = .ok (rs.flatMap p.contribution) := by
  induction rs generalizing used with
  | nil => rfl
  | cons r rs ih =>
      rw [run_cons_of_ok (step_of_admits h), ih h.of_cons]
      rfl

theorem run_cons_of_error {p : Probe} {used charged : Nat} {r : Record} {e : Error}
    (h : p.step used r = (charged, .error e)) (rs : List Record) : p.run used (r :: rs) = .error e := by
  rw [run, h]

/-- A worker that returns a result was admitted, if its budget was not used up before. -/
theorem admits_of_run {p : Probe} {used : Nat} {rs out : List Record}
    (hused : ∀ limit, p.limit = some limit → used ≤ limit.toNat) (h : p.run used rs = .ok out) :
    p.Admits used rs := by
  induction rs generalizing used out with
  | nil => exact ⟨KeySpec.covers_nil _, by simpa using hused⟩
  | cons r rs ih =>
      rcases hstep : p.step used r with ⟨charged, e | found⟩
      · rw [run_cons_of_error hstep] at h
        cases h
      · rcases step_eq_ok hstep with ⟨⟨k, hk⟩, rfl, _, hwithin⟩
        cases hrest : p.run (used + (p.found r).length) rs with
        | error e =>
            rw [run_cons_of_ok hstep, hrest] at h
            cases h
        | ok more =>
            refine .cons hk (ih ?_ hrest)
            rcases hwithin with hnone | hwithin
            · rw [hnone]
              exact hused
            · exact hwithin

/-- A worker that fails does so at one of its records. -/
theorem run_eq_error {p : Probe} {used : Nat} {rs : List Record} {e : Error} (h : p.run used rs = .error e) :
    ∃ r ∈ rs, ∃ used' charged, p.step used' r = (charged, .error e) := by
  induction rs generalizing used with
  | nil => cases h
  | cons r rs ih =>
      rcases hstep : p.step used r with ⟨charged, e' | found⟩
      · rw [run_cons_of_error hstep] at h
        obtain rfl := Except.error.inj h
        exact ⟨r, List.mem_cons_self, used, charged, hstep⟩
      · cases hrest : p.run charged rs with
        | error e' =>
            rw [run_cons_of_ok hstep, hrest] at h
            obtain rfl := Except.error.inj h
            rcases ih hrest with ⟨r', hr', hfails⟩
            exact ⟨r', List.mem_cons_of_mem _ hr', hfails⟩
        | ok more =>
            rw [run_cons_of_ok hstep, hrest] at h
            cases h

end Probe

end WorksetIteration
