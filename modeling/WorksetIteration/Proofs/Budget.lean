import WorksetIteration.Proofs.Join

/-!
# The budget of a join

A join with a limit fails just if more pairs match than the limit allows.  Neither the side that probes nor the moves
of the workers have a part in that: each of them may run out of the budget at another record, but all do or none does.

Main results:

- `Join.exists_probe`: the records that probe, and what they are charged.
- `Probe.execute_of_lt`: any number of workers runs out of a budget that is too small.
- `Join.execute_of_overruns`, `Join.execute_of_not_overruns`: a join with more pairs than its limit allows, and with as
  many at most.
-/

namespace WorksetIteration

namespace Probe

/-- Any number of workers runs out of a budget that is too small for records with keys. -/
theorem execute_of_lt {p : Probe} {limit : UInt64} {rs : List Record} (hlimit : p.limit = some limit)
    (hcovers : p.key.Covers rs) (hlt : limit.toNat < p.pairCount rs) (schedule : Schedule) (parallelism : UInt64) :
    ∃ k, p.execute schedule parallelism rs = .error (.fanoutExceeded limit k) := by
  cases hexecute : p.execute schedule parallelism rs with
  | ok out =>
      have hadmits : p.Admits 0 rs := admits_of_run (fun _ _ => Nat.zero_le _) (execute_eq_ok_iff.1 hexecute)
      have hle := hadmits.within limit hlimit
      omega
  | error e =>
      rcases execute_eq_error hexecute with ⟨r, hr, used, charged, hstep⟩
      rcases (step_eq_error hstep).2 with hmissing | ⟨k, limit', _, hlimit', _, rfl⟩
      · rcases hcovers r hr with ⟨k, hk⟩
        cases hmissing.symm.trans hk
      · obtain rfl : limit = limit' := Option.some.inj (hlimit.symm.trans hlimit')
        exact ⟨k, rfl⟩

end Probe

namespace Join

/-! ## Pairs of a plan -/

section Plans

variable {j : Join} {left right : Operand} {ls rs : List Record}

theorem pairCount_storedLeft {lookup : Key → Matches} {probing : List Record} (hfinds : Finds j.leftKey ls lookup)
    (combine : Record → Record → Option Record) {part : List Record} (hpart : j.rightKey.Covers part) :
    (j.probe (j.planStoredLeft lookup probing) combine).pairCount part = (j.pairsByRight ls part).length := by
  rw [pairsByRight_eq_flatMap, List.length_flatMap, Probe.pairCount]
  congr 1
  apply List.map_congr_left
  intro r hr
  rcases hpart r hr with ⟨k, hk⟩
  rw [found_storedLeft hfinds combine hk, List.length_map]

theorem pairCount_storedRight {lookup : Key → Matches} {probing : List Record} (hfinds : Finds j.rightKey rs lookup)
    (combine : Record → Record → Option Record) {part : List Record} (hpart : j.leftKey.Covers part) :
    (j.probe (j.planStoredRight lookup probing) combine).pairCount part = (j.pairsByLeft part rs).length := by
  rw [pairsByLeft_eq_flatMap, List.length_flatMap, Probe.pairCount]
  congr 1
  apply List.map_congr_left
  intro l hl
  rcases hpart l hl with ⟨k, hk⟩
  rw [found_storedRight hfinds combine hk, List.length_map]

/-- The records that probe, in order. -/
def probing (j : Join) (left right : Operand) : List Record :=
  if j.probesLeft left right then left.scan else right.scan

/-- The key by which they probe. -/
def probingKey (j : Join) (left right : Operand) : KeySpec :=
  if j.probesLeft left right then j.leftKey else j.rightKey

/-- The number of matching pairs of a part of the probing records with all records of the other operand. -/
def pairsOfPart (j : Join) (left right : Operand) (ls rs part : List Record) : Nat :=
  if j.probesLeft left right then (j.pairsByLeft part rs).length else (j.pairsByLeft ls part).length

/-- All probing records make all pairs. -/
theorem pairsOfPart_probing (hleft : left.Serves j.leftKey ls) (hright : right.Serves j.rightKey rs) :
    j.pairsOfPart left right ls rs (j.probing left right) = (j.pairsByLeft ls rs).length := by
  unfold pairsOfPart probing
  split
  · exact (j.pairsByLeft_perm hleft.scan_perm (List.Perm.refl rs)).length_eq
  · exact (j.pairsByLeft_perm (List.Perm.refl ls) hright.scan_perm).length_eq

/-- However a join is carried out, its probing is charged the matching pairs and contributes what they combine to. -/
theorem exists_probe (hleft : left.Serves j.leftKey ls) (hright : right.Serves j.rightKey rs)
    (combine : Record → Record → Option Record) :
    ∃ p : Probe,
      (∀ schedule, j.execute schedule left right combine =
        p.execute schedule j.parallelism (j.probing left right)) ∧
      p.limit = j.fanoutLimit ∧ p.key = j.probingKey left right ∧ p.key.Covers (j.probing left right) ∧
      (∀ part, p.key.Covers part → p.pairCount part = j.pairsOfPart left right ls rs part) ∧
      ((j.probing left right).flatMap p.contribution).Perm
        ((j.pairsByLeft ls rs).filterMap fun pair => combine pair.1 pair.2) := by
  unfold probing probingKey pairsOfPart
  cases hprobes : j.probesLeft left right with
  | true =>
      have hcovers := hleft.covers_scan
      rcases plan_of_probesLeft hleft hright hprobes with ⟨lookup, hplan, hfinds⟩
      refine ⟨_, fun schedule => execute_of_plan hleft hright hplan, rfl, rfl, hcovers, ?_, ?_⟩
      · exact fun part hpart => pairCount_storedRight hfinds combine hpart
      · rw [if_pos rfl, flatMap_contribution_storedRight hfinds hcovers]
        exact (j.pairsByLeft_perm hleft.scan_perm (List.Perm.refl rs)).filterMap _
  | false =>
      have hcovers := hright.covers_scan
      rcases plan_of_probesRight hleft hright hprobes with ⟨lookup, hplan, hfinds⟩
      refine ⟨_, fun schedule => execute_of_plan hleft hright hplan, rfl, rfl, hcovers, ?_, ?_⟩
      · intro part hpart
        rw [pairCount_storedLeft hfinds combine hpart]
        exact (j.pairsByRight_perm ls part).length_eq
      · rw [if_neg Bool.false_ne_true, flatMap_contribution_storedLeft hfinds hcovers]
        exact ((j.pairsByRight_perm ls right.scan).trans
          (j.pairsByLeft_perm (List.Perm.refl ls) hright.scan_perm)).filterMap _

/-! ## Limits -/

/-- A number of pairs is more than the limit of a join allows. -/
def Overruns (j : Join) (pairs : Nat) : Prop :=
  ∃ limit, j.fanoutLimit = some limit ∧ limit.toNat < pairs

theorem not_overruns (hlimit : j.fanoutLimit = none) (pairs : Nat) : ¬j.Overruns pairs := by
  rintro ⟨limit, hsome, _⟩
  rw [hlimit] at hsome
  cases hsome

/-- A join with more matching pairs than its limit allows fails for that reason. -/
theorem execute_of_overruns (hleft : left.Has j.leftKey ls) (hright : right.Has j.rightKey rs)
    (h : j.Overruns (j.pairsByLeft ls rs).length) (schedule : Schedule) (combine : Record → Record → Option Record) :
    ∃ limit k, j.execute schedule left right combine = .error (.fanoutExceeded limit k) := by
  rcases exists_probe hleft.serves hright.serves combine with ⟨p, hexecute, hlimit, _, hcovers, hcount, _⟩
  rcases h with ⟨limit, hsome, hlt⟩
  rw [← pairsOfPart_probing hleft.serves hright.serves, ← hcount _ hcovers] at hlt
  rcases Probe.execute_of_lt (hlimit.trans hsome) hcovers hlt schedule j.parallelism with ⟨k, hk⟩
  exact ⟨limit, k, (hexecute schedule).trans hk⟩

/-- A join with no more matching pairs than its limit allows combines them, in an order of its own. -/
theorem execute_of_not_overruns (hleft : left.Has j.leftKey ls) (hright : right.Has j.rightKey rs)
    (h : ¬j.Overruns (j.pairsByLeft ls rs).length) (schedule : Schedule) (combine : Record → Record → Option Record) :
    ∃ out, j.execute schedule left right combine = .ok out ∧
      out.Perm ((j.pairsByLeft ls rs).filterMap fun pair => combine pair.1 pair.2) := by
  rcases exists_probe hleft.serves hright.serves combine with ⟨p, hexecute, hlimit, _, hcovers, hcount, hperm⟩
  have hadmits : p.Admits 0 (j.probing left right) := by
    refine ⟨hcovers, fun limit hsome => ?_⟩
    rw [hcount _ hcovers, pairsOfPart_probing hleft.serves hright.serves, Nat.zero_add]
    exact Nat.le_of_not_lt fun hlt => h ⟨limit, hlimit.symm.trans hsome, hlt⟩
  exact ⟨_, (hexecute schedule).trans (Probe.execute_of_admits hadmits), hperm⟩

end Plans

end Join

end WorksetIteration
