import WorksetIteration.Index
import WorksetIteration.Partition

/-!
# Probing

A join looks up each record of one operand, the probing one, among the stored records of the other.  The pairs found
are charged to a budget before they are combined; workers that share the probing records share the budget too.

Main definitions:

- `Probe.step`: what one probing record does to the budget and contributes to the output.
- `Probe.run`: one worker.
- `Probe.runWorkers`: several workers on one budget, in the order that a schedule gives.
-/

namespace WorksetIteration

/-- What probing needs to know. -/
structure Probe where
  /-- The key of the probing records. -/
  key : KeySpec
  /-- The stored records of a key. -/
  lookup : Key → Matches
  /-- The number of pairs allowed, if it is bounded. -/
  limit : Option UInt64
  /-- What a stored and a probing record contribute. -/
  combine : Record → Record → Option Record

namespace Probe

/-! ## One record -/

/-- The limit, where a number of pairs is more than it allows. -/
def exceeded? (p : Probe) (pairs : Nat) : Option UInt64 :=
  p.limit.filter fun limit => decide (limit.toNat < pairs)

/-- Looks up one record when `used` pairs have been charged: the number charged afterwards, and the combined records.
A key with a missing value finds nothing, and pairs are charged even where they exceed the limit. -/
def step (p : Probe) (used : Nat) (r : Record) : Nat × Except Error (List Record) :=
  match p.key.extract r with
  | .error e => (used, .error e)
  | .ok k =>
      let found := (p.lookup k).toList
      if k.hasNull || found.isEmpty then (used, .ok [])
      else
        let used := used + found.length
        match p.exceeded? used with
        | some limit => (used, .error (.fanoutExceeded limit k))
        | none => (used, .ok (found.filterMap fun stored => p.combine stored r))

/-! ## One worker -/

/-- Looks up the records in order; the first error ends the work. -/
def run (p : Probe) (used : Nat) : List Record → Except Error (List Record)
  | [] => .ok []
  | r :: rest =>
      match p.step used r with
      | (_, .error e) => .error e
      | (used, .ok out) => do
          let more ← p.run used rest
          pure (out ++ more)

/-! ## Several workers -/

/-- A worker in the middle of its chunk. -/
structure Worker where
  /-- The probing records still to be looked up. -/
  pending : List Record
  /-- What the records looked up so far have contributed. -/
  output : Array Record
  /-- The number of pairs combined so far. -/
  paired : Nat

namespace Worker

/-- A worker that has not started on its chunk. -/
def start (chunk : List Record) : Worker :=
  ⟨chunk, #[], 0⟩

/-- Whether records are left. -/
def isBusy (w : Worker) : Bool :=
  !w.pending.isEmpty

end Worker

/-- The workers on one budget. -/
structure Team where
  /-- The number of pairs charged. -/
  used : Nat
  /-- The workers in the order of their chunks. -/
  workers : List Worker
  /-- The error that has ended the work. -/
  failure : Option Error

namespace Team

/-- Workers that have not started on their chunks. -/
def start (pieces : List (List Record)) : Team :=
  ⟨0, pieces.map Worker.start, none⟩

/-- The number of workers with records left. -/
def busyCount (t : Team) : Nat :=
  t.workers.countP Worker.isBusy

/-- The number of pairs combined. -/
def paired (t : Team) : Nat :=
  t.workers.foldr (fun w pairs => w.paired + pairs) 0

/-- What the workers have contributed, chunk by chunk, unless an error has ended their work. -/
def result (t : Team) : Except Error (List Record) :=
  match t.failure with
  | some e => .error e
  | none => .ok (t.workers.flatMap fun w => w.output.toList)

end Team

/-- Lets the busy worker of the given number look up its next record. -/
def move (p : Probe) : (number used : Nat) → List Worker → Team
  | _, used, [] => ⟨used, [], none⟩
  | number, used, w :: others =>
      match w.pending, number with
      | [], number =>
          let rest := p.move number used others
          { rest with workers := w :: rest.workers }
      | _ :: _, number + 1 =>
          let rest := p.move number used others
          { rest with workers := w :: rest.workers }
      | r :: pending, 0 =>
          match p.step used r with
          | (charged, .error e) => ⟨charged, w :: others, some e⟩
          | (charged, .ok out) => ⟨charged, ⟨pending, w.output ++ out, w.paired + (charged - used)⟩ :: others, none⟩

/-- Lets busy workers move, one record a tick; the first error ends the work of all. -/
def moveAll (p : Probe) (pick : Nat → Nat) : (ticks tick : Nat) → Team → Team
  | 0, _, team => team
  | ticks + 1, tick, team =>
      let moved := p.move (pick tick % team.busyCount) team.used team.workers
      match moved.failure with
      | some _ => moved
      | none => p.moveAll pick ticks (tick + 1) moved

/-- The workers after they have looked up the records chunk by chunk, one worker a chunk. -/
def teamOn (p : Probe) (pick : Nat → Nat) (parallelism : UInt64) (records : List Record) : Team :=
  let length := chunkLength records.length.toUInt64 parallelism
  p.moveAll pick records.length 0 (.start (chunks length.toNat records))

/-- Looks up the records chunk by chunk, one worker a chunk, and joins their outputs in the order of the chunks. -/
def runWorkers (p : Probe) (pick : Nat → Nat) (parallelism : UInt64) (records : List Record) :
    Except Error (List Record) :=
  (p.teamOn pick parallelism records).result

/-- Looks up the records with as many workers as there are, or with one if there is nothing to share. -/
def execute (p : Probe) (schedule : Schedule) (parallelism : UInt64) (records : List Record) :
    Except Error (List Record) :=
  if parallelism ≤ 1 ∨ records.length < 2 then p.run 0 records
  else p.runWorkers schedule.pick parallelism records

end Probe

end WorksetIteration
