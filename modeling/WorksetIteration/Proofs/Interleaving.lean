import Mathlib.Logic.Relation
import WorksetIteration.Join
import WorksetIteration.Proofs.Chunks
import WorksetIteration.Proofs.Probe

/-!
# Interleavings of workers

Workers that share a budget look up the records of their chunks in any order among each other.  Nothing is shared but
the number of charged pairs, and it is changed by one addition a record, so looking up a record is one move.  A worker
stops at its first error; the others may go on, or be given up with records left.

Main results:

- `Probe.Moves`: one worker of a crew looks up its next record.
- `Probe.Interleaved`: what a crew may have come to.
- `Probe.wellFounded_moves`: every run of moves ends.
- `Probe.Crew.Sound`, `Probe.sound_of_interleaved`: what holds of a crew at any time.
- `Probe.Crew.Sound.returns_iff`: a crew returns a result just if one worker does, and then the same.
- `Probe.exists_interleaved`: workers that a schedule moves come to what a crew may come to.
- `Join.execute_interleaved`: joins do not depend on the interleaving, and none combines more pairs than its limit.
-/

namespace WorksetIteration

namespace Probe

/-! ## Workers in a list -/

/-- What a worker will have contributed in the end: its output so far and the contributions of the records left. -/
def Worker.total (p : Probe) (w : Worker) : List Record :=
  w.output.toList ++ w.pending.flatMap p.contribution

/-- The records that the workers have not looked up yet. -/
def pendingOf (workers : List Worker) : List Record :=
  workers.flatMap Worker.pending

/-- What the workers will have contributed in the end, chunk by chunk. -/
def totalOf (p : Probe) (workers : List Worker) : List Record :=
  workers.flatMap (Worker.total p)

/-- The number of pairs that the workers have combined. -/
def pairedOf (workers : List Worker) : Nat :=
  (workers.map Worker.paired).sum

@[simp]
theorem pendingOf_cons (w : Worker) (workers : List Worker) :
    pendingOf (w :: workers) = w.pending ++ pendingOf workers :=
  List.flatMap_cons

@[simp]
theorem pendingOf_append (workers others : List Worker) :
    pendingOf (workers ++ others) = pendingOf workers ++ pendingOf others :=
  List.flatMap_append

@[simp]
theorem totalOf_cons (p : Probe) (w : Worker) (workers : List Worker) :
    p.totalOf (w :: workers) = w.total p ++ p.totalOf workers :=
  List.flatMap_cons

@[simp]
theorem totalOf_append (p : Probe) (workers others : List Worker) :
    p.totalOf (workers ++ others) = p.totalOf workers ++ p.totalOf others :=
  List.flatMap_append

@[simp]
theorem pairedOf_cons (w : Worker) (workers : List Worker) : pairedOf (w :: workers) = w.paired + pairedOf workers :=
  rfl

@[simp]
theorem pairedOf_append (workers others : List Worker) :
    pairedOf (workers ++ others) = pairedOf workers + pairedOf others := by
  simp [pairedOf]

theorem pendingOf_start (pieces : List (List Record)) : pendingOf (pieces.map Worker.start) = pieces.flatten := by
  induction pieces with
  | nil => rfl
  | cons piece pieces ih =>
      rw [List.map_cons, pendingOf_cons, ih]
      rfl

theorem totalOf_start (p : Probe) (pieces : List (List Record)) :
    p.totalOf (pieces.map Worker.start) = pieces.flatten.flatMap p.contribution := by
  induction pieces with
  | nil => rfl
  | cons piece pieces ih =>
      rw [List.map_cons, totalOf_cons, ih, List.flatten_cons, List.flatMap_append]
      rfl

theorem pairedOf_start (pieces : List (List Record)) : pairedOf (pieces.map Worker.start) = 0 := by
  induction pieces with
  | nil => rfl
  | cons piece pieces ih =>
      rw [List.map_cons, pairedOf_cons, ih]
      rfl

/-- Workers without records left have contributed everything. -/
theorem totalOf_of_pending_eq_nil (p : Probe) {workers : List Worker} (h : pendingOf workers = []) :
    p.totalOf workers = workers.flatMap fun w => w.output.toList := by
  apply List.flatMap_congr
  intro w hw
  rw [Worker.total, List.flatMap_eq_nil_iff.1 h w hw, List.flatMap_nil, List.append_nil]

/-! ## Crews -/

/-- Workers on one budget, of whom some may have stopped. -/
structure Crew where
  /-- The number of pairs charged. -/
  used : Nat
  /-- The workers in the order of their chunks.  One that has stopped has dropped the records that it had left. -/
  workers : List Worker
  /-- The errors of those that have stopped. -/
  failures : List Error

namespace Crew

/-- Workers that have not started on their chunks. -/
def start (pieces : List (List Record)) : Crew :=
  ⟨0, pieces.map Worker.start, []⟩

/-- The number of pairs combined. -/
def paired (c : Crew) : Nat :=
  pairedOf c.workers

/-- What a crew can return: the contributions of all records if they have been looked up, and an error of one of the
workers as soon as there is one. -/
inductive Returns : Crew → Except Error (List Record) → Prop
  | done {used : Nat} {workers : List Worker} (hpending : pendingOf workers = []) :
      Returns ⟨used, workers, []⟩ (.ok (workers.flatMap fun w => w.output.toList))
  | failed {c : Crew} {e : Error} (he : e ∈ c.failures) : Returns c (.error e)

end Crew

/-- One of the workers looks up its next record.  If this fails the worker stops, and what was charged remains
charged. -/
inductive Moves (p : Probe) : Crew → Crew → Prop
  | found {used charged paired : Nat} {before after : List Worker} {r : Record} {pending out : List Record}
      {output : Array Record} {failures : List Error} (hstep : p.step used r = (charged, .ok out)) :
      Moves p ⟨used, before ++ ⟨r :: pending, output, paired⟩ :: after, failures⟩
        ⟨charged, before ++ ⟨pending, output ++ out, paired + (p.found r).length⟩ :: after, failures⟩
  | stopped {used charged paired : Nat} {before after : List Worker} {r : Record} {pending : List Record}
      {output : Array Record} {failures : List Error} {e : Error} (hstep : p.step used r = (charged, .error e)) :
      Moves p ⟨used, before ++ ⟨r :: pending, output, paired⟩ :: after, failures⟩
        ⟨charged, before ++ ⟨[], output, paired⟩ :: after, e :: failures⟩

/-- What a crew on the given chunks may have come to. -/
def Interleaved (p : Probe) (pieces : List (List Record)) : Crew → Prop :=
  Relation.ReflTransGen p.Moves (.start pieces)

/-- A crew with records left can move. -/
theorem exists_moves (p : Probe) {c : Crew} (h : pendingOf c.workers ≠ []) : ∃ next, p.Moves c next := by
  rcases c with ⟨used, workers, failures⟩
  rcases List.exists_mem_of_ne_nil _ h with ⟨x, hx⟩
  rcases List.mem_flatMap.1 hx with ⟨⟨pending, output, paired⟩, hw, hpending⟩
  rcases List.append_of_mem hw with ⟨before, after, rfl⟩
  cases pending with
  | nil => cases hpending
  | cons r pending =>
      rcases hstep : p.step used r with ⟨charged, e | out⟩
      · exact ⟨_, .stopped hstep⟩
      · exact ⟨_, .found hstep⟩

/-- A move leaves fewer records. -/
theorem Moves.length_pending_lt {p : Probe} {c next : Crew} (h : p.Moves c next) :
    (pendingOf next.workers).length < (pendingOf c.workers).length := by
  cases h with
  | found =>
      simp only [pendingOf_append, pendingOf_cons, List.length_append, List.length_cons]
      omega
  | stopped =>
      simp only [pendingOf_append, pendingOf_cons, List.length_append, List.length_cons, List.length_nil]
      omega

/-- Every run of moves ends, whatever the workers and the records are. -/
theorem wellFounded_moves (p : Probe) : WellFounded fun next crew => p.Moves crew next :=
  Subrelation.wf Moves.length_pending_lt (measure fun crew : Crew => (pendingOf crew.workers).length).wf

/-! ## What holds at any time -/

/-- What holds of a crew on some records at any time. -/
structure Crew.Sound (p : Probe) (rs : List Record) (c : Crew) : Prop where
  /-- Only charged pairs are combined. -/
  paired_le : c.paired ≤ c.used
  /-- Not more pairs are combined than the limit allows. -/
  within : ∀ limit, p.limit = some limit → c.paired ≤ limit.toNat
  /-- The records left are some of those that there were. -/
  pending_subset : pendingOf c.workers ⊆ rs
  /-- While no worker has stopped, the records looked up were admitted, and their pairs are what was charged. -/
  admitted : c.failures = [] →
    ∃ done, (done ++ pendingOf c.workers).Perm rs ∧ p.Admits 0 done ∧ c.used = p.pairCount done
  /-- While no worker has stopped, all records will be contributed in the end, in their order. -/
  total_eq : c.failures = [] → p.totalOf c.workers = rs.flatMap p.contribution
  /-- No worker stops if all records are admitted. -/
  unfailed : p.Admits 0 rs → c.failures = []
  /-- A worker stops at one of the records. -/
  cause : ∀ e ∈ c.failures, ∃ r ∈ rs, ∃ used charged, p.step used r = (charged, .error e)

namespace Crew.Sound

variable {p : Probe} {rs : List Record} {c next : Crew}

theorem start (p : Probe) (pieces : List (List Record)) : (Crew.start pieces).Sound p pieces.flatten where
  paired_le := (pairedOf_start pieces).le
  within := by
    intro limit _
    rw [Crew.paired, Crew.start, pairedOf_start]
    exact Nat.zero_le _
  pending_subset := by
    rw [Crew.start, pendingOf_start]
    exact List.Subset.refl _
  admitted := by
    intro _
    refine ⟨[], ?_, ⟨KeySpec.covers_nil _, fun limit _ => Nat.zero_le _⟩, rfl⟩
    rw [List.nil_append, Crew.start, pendingOf_start]
  total_eq := fun _ => totalOf_start p pieces
  unfailed := fun _ => rfl
  cause := by simp [Crew.start]

/-- A record that is looked up without an error. -/
theorem found {used charged paired : Nat} {before after : List Worker} {r : Record} {pending out : List Record}
    {output : Array Record} {failures : List Error} (hstep : p.step used r = (charged, .ok out))
    (h : Crew.Sound p rs ⟨used, before ++ ⟨r :: pending, output, paired⟩ :: after, failures⟩) :
    Crew.Sound p rs
      ⟨charged, before ++ ⟨pending, output ++ out, paired + (p.found r).length⟩ :: after, failures⟩ := by
  rcases step_eq_ok hstep with ⟨⟨k, hk⟩, hcharged, hout, hwithin⟩
  have hpaired := h.paired_le
  simp only [Crew.paired, pairedOf_append, pairedOf_cons] at hpaired
  constructor
  case paired_le =>
    simp only [Crew.paired, pairedOf_append, pairedOf_cons]
    omega
  case within =>
    intro limit hlimit
    have hle := h.within limit hlimit
    simp only [Crew.paired, pairedOf_append, pairedOf_cons] at hle ⊢
    rcases hwithin with hnone | hwithin
    · rw [hnone, List.length_nil]
      exact hle
    · have hlimited := hwithin limit hlimit
      omega
  case pending_subset =>
    refine List.Subset.trans ?_ h.pending_subset
    intro x hx
    simp only [pendingOf_append, pendingOf_cons, List.mem_append, List.mem_cons] at hx ⊢
    tauto
  case admitted =>
    intro hnone
    rcases h.admitted hnone with ⟨done, hperm, hadmits, hused⟩
    have hused : used = p.pairCount done := hused
    refine ⟨r :: done, ?_, ⟨.cons hk hadmits.covers, ?_⟩, ?_⟩
    · have hnext : (done ++ (pendingOf before ++ (r :: pending ++ pendingOf after))).Perm
          (r :: (done ++ (pendingOf before ++ (pending ++ pendingOf after)))) := by
        rw [← List.append_assoc, ← List.append_assoc done]
        exact List.perm_middle
      rw [pendingOf_append, pendingOf_cons] at hperm ⊢
      exact hnext.symm.trans hperm
    · intro limit hlimit
      rw [pairCount_cons, ← hused, Nat.zero_add, Nat.add_comm, ← hcharged]
      rcases hwithin with hzero | hwithin
      · have hle := hadmits.within limit hlimit
        rw [hzero, List.length_nil] at hcharged
        omega
      · exact hwithin limit hlimit
    · rw [pairCount_cons, ← hused, Nat.add_comm _ used]
      exact hcharged
  case total_eq =>
    intro hnone
    rw [← h.total_eq hnone, hout]
    simp [Worker.total]
  case unfailed => exact h.unfailed
  case cause => exact h.cause

/-- A worker that stops. -/
theorem stopped {used charged paired : Nat} {before after : List Worker} {r : Record} {pending : List Record}
    {output : Array Record} {failures : List Error} {e : Error} (hstep : p.step used r = (charged, .error e))
    (h : Crew.Sound p rs ⟨used, before ++ ⟨r :: pending, output, paired⟩ :: after, failures⟩) :
    Crew.Sound p rs ⟨charged, before ++ ⟨[], output, paired⟩ :: after, e :: failures⟩ where
  paired_le := by
    have hle := h.paired_le.trans (step_eq_error hstep).1
    simpa [Crew.paired] using hle
  within := by
    intro limit hlimit
    have hle := h.within limit hlimit
    simpa [Crew.paired] using hle
  pending_subset := by
    refine List.Subset.trans ?_ h.pending_subset
    intro x hx
    simp only [pendingOf_append, pendingOf_cons, List.nil_append, List.mem_append, List.mem_cons] at hx ⊢
    tauto
  admitted := by simp
  total_eq := by simp
  unfailed := by
    intro hadmits
    rcases h.admitted (h.unfailed hadmits) with ⟨done, hperm, _, hused⟩
    have hused : used = p.pairCount done := hused
    have hnext : (pendingOf (before ++ ⟨r :: pending, output, paired⟩ :: after)).Perm
        (r :: (pendingOf before ++ (pending ++ pendingOf after))) := by
      rw [pendingOf_append, pendingOf_cons]
      exact List.perm_middle
    -- The record was admitted behind those looked up before, so it cannot have failed.
    have hrecord := (hadmits.perm hperm.symm).of_append.perm hnext
    rw [Nat.zero_add, ← hused] at hrecord
    cases hstep.symm.trans (step_of_admits hrecord)
  cause := by
    intro e' he'
    rcases List.mem_cons.1 he' with rfl | he'
    · exact ⟨r, h.pending_subset (by simp), used, charged, hstep⟩
    · exact h.cause e' he'

/-- What a crew returns is a result just if one worker returns it. -/
theorem returns_iff (h : c.Sound p rs) {reply : Except Error (List Record)} (hreply : c.Returns reply)
    (out : List Record) : reply = .ok out ↔ p.run 0 rs = .ok out := by
  cases hreply with
  | @done used workers hpending =>
      rcases h.admitted rfl with ⟨done, hperm, hadmits, _⟩
      have hpending' : pendingOf (Crew.mk used workers []).workers = [] := hpending
      rw [hpending', List.append_nil] at hperm
      rw [run_of_admits (hadmits.perm hperm), ← h.total_eq rfl, totalOf_of_pending_eq_nil p hpending]
  | @failed c e he =>
      refine ⟨fun hok => (by cases hok), ?_⟩
      intro hok
      have hadmits : p.Admits 0 rs := admits_of_run (fun _ _ => Nat.zero_le _) hok
      rw [h.unfailed hadmits] at he
      cases he

end Crew.Sound

/-- What holds of a crew at any time. -/
theorem sound_of_interleaved {p : Probe} {pieces : List (List Record)} {c : Crew} (h : p.Interleaved pieces c) :
    c.Sound p pieces.flatten := by
  induction h with
  | refl => exact .start p pieces
  | tail _ hmoves ih =>
      cases hmoves with
      | found hstep => exact ih.found hstep
      | stopped hstep => exact ih.stopped hstep

/-! ## Schedules -/

theorem countP_isBusy_cons (w : Worker) (workers : List Worker) :
    (w :: workers).countP Worker.isBusy = workers.countP Worker.isBusy + if w.pending = [] then 0 else 1 := by
  rw [List.countP_cons, Worker.isBusy]
  cases w.pending <;> rfl

/-- As long as records are left, a worker is busy. -/
theorem busy_of_pending {workers : List Worker} (h : pendingOf workers ≠ []) :
    0 < workers.countP Worker.isBusy := by
  rw [List.countP_pos_iff]
  rcases List.exists_mem_of_ne_nil _ h with ⟨r, hr⟩
  rcases List.mem_flatMap.1 hr with ⟨w, hw, hr⟩
  refine ⟨w, hw, ?_⟩
  rw [Worker.isBusy, List.isEmpty_eq_false_iff.2 (List.ne_nil_of_mem hr)]
  rfl

/-- A move of a busy worker looks up the next record of one of the workers. -/
theorem move_eq (p : Probe) {number : Nat} (used : Nat) {workers : List Worker}
    (hnumber : number < workers.countP Worker.isBusy) :
    ∃ before r pending output paired after, workers = before ++ ⟨r :: pending, output, paired⟩ :: after ∧
      p.move number used workers =
        match p.step used r with
        | (charged, .error e) => ⟨charged, workers, some e⟩
        | (charged, .ok out) =>
            ⟨charged, before ++ ⟨pending, output ++ out, paired + (charged - used)⟩ :: after, none⟩ := by
  induction workers generalizing number with
  | nil => simp at hnumber
  | cons w others ih =>
      rw [countP_isBusy_cons] at hnumber
      rcases w with ⟨pending, output, paired⟩
      cases pending with
      | nil =>
          rcases ih (by simpa using hnumber) with ⟨before, r, pending, output', paired', after, rfl, hmove⟩
          refine ⟨⟨[], output, paired⟩ :: before, r, pending, output', paired', after, rfl, ?_⟩
          simp only [move, hmove]
          rcases p.step used r with ⟨charged, e | out⟩ <;> rfl
      | cons x pending =>
          cases number with
          | zero =>
              refine ⟨[], x, pending, output, paired, others, rfl, ?_⟩
              simp only [move]
              rcases p.step used x with ⟨charged, e | out⟩ <;> rfl
          | succ number =>
              rcases ih (by simpa using hnumber) with ⟨before, r, pending', output', paired', after, rfl, hmove⟩
              refine ⟨⟨x :: pending, output, paired⟩ :: before, r, pending', output', paired', after, rfl, ?_⟩
              simp only [move, hmove]
              rcases p.step used r with ⟨charged, e | out⟩ <;> rfl

theorem paired_eq_pairedOf (t : Team) : t.paired = pairedOf t.workers := by
  rw [Team.paired]
  induction t.workers with
  | nil => rfl
  | cons w workers ih => rw [List.foldr_cons, ih, pairedOf_cons]

/-- Workers that move once for each record left come to what a crew may come to, whoever moves when. -/
theorem exists_moves_moveAll (p : Probe) (pick : Nat → Nat) {ticks : Nat} (tick used : Nat) {workers : List Worker}
    (hticks : (pendingOf workers).length = ticks) :
    ∃ c, Relation.ReflTransGen p.Moves ⟨used, workers, []⟩ c ∧
      c.Returns (p.moveAll pick ticks tick ⟨used, workers, none⟩).result ∧
      c.paired = (p.moveAll pick ticks tick ⟨used, workers, none⟩).paired := by
  induction ticks generalizing tick used workers with
  | zero =>
      rw [moveAll, paired_eq_pairedOf]
      exact ⟨_, .refl, .done (List.eq_nil_of_length_eq_zero hticks), rfl⟩
  | succ ticks ih =>
      have hbusy : 0 < workers.countP Worker.isBusy := by
        apply busy_of_pending
        intro hnil
        simp [hnil] at hticks
      rcases p.move_eq used (Nat.mod_lt (pick tick) hbusy) with ⟨before, r, pending, output, paired, after, rfl, hmove⟩
      rcases hstep : p.step used r with ⟨charged, e | out⟩
      · simp only [hstep] at hmove
        simp only [moveAll, Team.busyCount, hmove]
        refine ⟨_, .single (.stopped hstep), .failed (List.mem_singleton_self e), ?_⟩
        simp [paired_eq_pairedOf, Crew.paired]
      · simp only [hstep] at hmove
        have hpairs : charged - used = (p.found r).length := by
          rw [(step_eq_ok hstep).2.1, Nat.add_sub_cancel_left]
        simp only [moveAll, Team.busyCount, hmove, hpairs]
        have hleft : (pendingOf (before ++ ⟨pending, output ++ out, paired + (p.found r).length⟩ :: after)).length =
            ticks := by
          simp only [pendingOf_append, pendingOf_cons, List.length_append, List.length_cons] at hticks ⊢
          omega
        rcases ih (tick + 1) charged hleft with ⟨c, hmoves, hreturns, hpaired⟩
        exact ⟨c, .head (.found hstep) hmoves, hreturns, hpaired⟩

/-- The chunks of some records, one for each worker. -/
def pieces (parallelism : UInt64) (rs : List Record) : List (List Record) :=
  chunks (chunkLength rs.length.toUInt64 parallelism).toNat rs

/-- Workers that a schedule moves come to what a crew on the same chunks may come to. -/
theorem exists_interleaved (p : Probe) (pick : Nat → Nat) (parallelism : UInt64) (rs : List Record) :
    ∃ c, p.Interleaved (pieces parallelism rs) c ∧
      c.Returns (p.runWorkers pick parallelism rs) ∧ c.paired = (p.teamOn pick parallelism rs).paired := by
  apply p.exists_moves_moveAll
  rw [pendingOf_start, pieces, flatten_chunks]

theorem sound_of_pieces {p : Probe} {parallelism : UInt64} {rs : List Record} {c : Crew}
    (h : p.Interleaved (pieces parallelism rs) c) : c.Sound p rs := by
  have hsound := sound_of_interleaved h
  rwa [pieces, flatten_chunks] at hsound

/-- Any number of workers returns a result just if one worker does, and then the same. -/
theorem execute_eq_ok_iff {p : Probe} {schedule : Schedule} {parallelism : UInt64} {rs out : List Record} :
    p.execute schedule parallelism rs = .ok out ↔ p.run 0 rs = .ok out := by
  unfold execute
  split
  · exact Iff.rfl
  · rcases p.exists_interleaved schedule.pick parallelism rs with ⟨c, hinterleaved, hreturns, _⟩
    exact (sound_of_pieces hinterleaved).returns_iff hreturns out

/-- Any number of workers returns the contributions of admitted records in order. -/
theorem execute_of_admits {p : Probe} {schedule : Schedule} {parallelism : UInt64} {rs : List Record}
    (h : p.Admits 0 rs) : p.execute schedule parallelism rs = .ok (rs.flatMap p.contribution) :=
  execute_eq_ok_iff.2 (run_of_admits h)

/-- Any number of workers fails at one of the records. -/
theorem execute_eq_error {p : Probe} {schedule : Schedule} {parallelism : UInt64} {rs : List Record} {e : Error}
    (h : p.execute schedule parallelism rs = .error e) :
    ∃ r ∈ rs, ∃ used charged, p.step used r = (charged, .error e) := by
  unfold execute at h
  split at h
  · exact run_eq_error h
  · rcases p.exists_interleaved schedule.pick parallelism rs with ⟨c, hinterleaved, hreturns, _⟩
    rw [h] at hreturns
    cases hreturns with
    | failed he => exact (sound_of_pieces hinterleaved).cause e he

end Probe

/-! ## Joins -/

namespace Join

theorem checkStoredKey_cases (side : Side) (declared : KeySpec) (operand : Operand) :
    checkStoredKey side declared operand = .ok () ∨ ∃ e, checkStoredKey side declared operand = .error e := by
  cases checkStoredKey side declared operand with
  | ok _ => exact Or.inl rfl
  | error e => exact Or.inr ⟨e, rfl⟩

/-- A join returns what the probing of its plan does, where its operands are stored by the declared keys. -/
theorem execute_eq_ok_iff {j : Join} {schedule : Schedule} {left right : Operand}
    {combine : Record → Record → Option Record} {out : List Record} :
    j.execute schedule left right combine = .ok out ↔
      checkStoredKey .left j.leftKey left = .ok () ∧ checkStoredKey .right j.rightKey right = .ok () ∧
        ∃ plan, j.plan left right = .ok plan ∧
          (j.probe plan combine).execute schedule j.parallelism plan.probing = .ok out := by
  unfold execute
  rcases checkStoredKey_cases .left j.leftKey left with hleft | ⟨e, hleft⟩
  · rcases checkStoredKey_cases .right j.rightKey right with hright | ⟨e, hright⟩
    · rw [hleft, hright]
      cases hplan : j.plan left right with
      | error e => simp [bind, Except.bind]
      | ok plan => simp [bind, Except.bind]
    · rw [hleft, hright]
      simp [bind, Except.bind]
  · rw [hleft]
    simp [bind, Except.bind]

theorem plan_withParallelism (j : Join) (parallelism : UInt64) (left right : Operand) :
    { j with parallelism := parallelism }.plan left right = j.plan left right := by
  cases left <;> cases right <;> rfl

/-- A join returns a result with any number of workers and under any schedule just if it does so with one worker, and
then the same.  More generally every interleaving of the workers on the chunks of the probing records ends, keeps the
limit, goes on until it returns something, and returns a result just if one worker does, and then the same. -/
theorem execute_interleaved (j : Join) (combine : Record → Record → Option Record) :
    (∀ schedule schedule' left right out,
      j.execute schedule left right combine = .ok out ↔
        { j with parallelism := 1 }.execute schedule' left right combine = .ok out) ∧
    (∀ plan : JoinPlan, WellFounded fun next crew => (j.probe plan combine).Moves crew next) ∧
    ∀ (plan : JoinPlan) (crew : Probe.Crew),
      (j.probe plan combine).Interleaved (Probe.pieces j.parallelism plan.probing) crew →
        (∀ limit, j.fanoutLimit = some limit → crew.paired ≤ limit.toNat) ∧
        ((∃ reply, crew.Returns reply) ∨ ∃ next, (j.probe plan combine).Moves crew next) ∧
        ∀ reply, crew.Returns reply → ∀ schedule out, reply = .ok out ↔
          (j.probe plan combine).execute schedule 1 plan.probing = .ok out := by
  refine ⟨?_, fun plan => Probe.wellFounded_moves _, ?_⟩
  · intro schedule schedule' left right out
    rw [execute_eq_ok_iff, execute_eq_ok_iff, plan_withParallelism]
    simp only [Probe.execute_eq_ok_iff]
    rfl
  · intro plan crew hinterleaved
    have hsound := Probe.sound_of_pieces hinterleaved
    refine ⟨hsound.within, ?_, ?_⟩
    · by_cases hpending : Probe.pendingOf crew.workers = []
      · rcases crew with ⟨used, workers, _ | ⟨e, failures⟩⟩
        · exact Or.inl ⟨_, .done hpending⟩
        · exact Or.inl ⟨_, .failed List.mem_cons_self⟩
      · exact Or.inr (Probe.exists_moves _ hpending)
    · intro reply hreply schedule out
      rw [Probe.execute_eq_ok_iff]
      exact hsound.returns_iff hreply out

/-- A worker whose record has no key stops, and the other one goes on to the end of its chunk. -/
theorem execute_interleaved_past_failure :
    let j : Join := ⟨.field 0, .field 0, .auto, some 1, 2⟩
    let stored : Record := .pair (.int64 1) (.int64 9)
    let probing : List Record := [⟨[]⟩, .pair (.int64 1) (.int64 5)]
    let plan : JoinPlan := ⟨.left, fun k => if k = ⟨[.int64 1]⟩ then .one stored else .empty, .field 0, probing⟩
    let crew : Probe.Crew := ⟨1, [⟨[], #[], 0⟩, ⟨[], #[stored], 1⟩], [.missingKeyField 0 0]⟩
    let combine : Record → Record → Option Record := fun l _ => some l
    (j.probe plan combine).Interleaved (Probe.pieces j.parallelism plan.probing) crew ∧
      crew.paired ≤ (1 : UInt64).toNat ∧ crew.Returns (.error (.missingKeyField 0 0)) ∧
      ∀ schedule out, (j.probe plan combine).execute schedule 1 plan.probing ≠ .ok out := by
  intro j stored probing plan crew combine
  have hpieces : Probe.pieces j.parallelism plan.probing = [[⟨[]⟩], [.pair (.int64 1) (.int64 5)]] := by
    have hlength : (chunkLength plan.probing.length.toUInt64 j.parallelism).toNat = 1 := by decide
    rw [Probe.pieces, hlength]
    simp [plan, probing, chunks]
  have hinterleaved : (j.probe plan combine).Interleaved (Probe.pieces j.parallelism plan.probing) crew := by
    rw [hpieces]
    refine .tail (.single (@Probe.Moves.stopped (j.probe plan combine) 0 0 0 [] _ ⟨[]⟩ [] #[] [] _ rfl)) ?_
    exact @Probe.Moves.found (j.probe plan combine) 0 1 0 [⟨[], #[], 0⟩] [] _ [] [stored] #[] _ rfl
  rcases (execute_interleaved j combine).2.2 plan crew hinterleaved with ⟨hwithin, _, hreturns⟩
  have hfailed : crew.Returns (.error (.missingKeyField 0 0)) := .failed List.mem_cons_self
  refine ⟨hinterleaved, hwithin 1 rfl, hfailed, ?_⟩
  intro schedule out hok
  cases (hreturns _ hfailed schedule out).2 hok

end Join

end WorksetIteration
