import WorksetIteration.Key.Extraction
import WorksetIteration.Schedule

/-!
# Splitting records among workers

Two ways to split a list of records: into consecutive chunks of one length, and into buckets so that records of one key
stay together.

Main definitions:

- `chunkLength`: the length of a chunk, in words.
- `chunks`: a list cut into consecutive parts.
- `partitionByKey`: records dealt to buckets by their key.
-/

namespace WorksetIteration

/-! ## Chunks -/

/-- The length of a chunk if `length` items go to `parallelism` workers: the quotient rounded up, at least one. -/
def chunkLength (length parallelism : UInt64) : UInt64 :=
  let workers := max parallelism 1
  max ((length + workers - 1) / workers) 1

/-- The consecutive parts of a list, each of the given length but the last; a length of zero counts as one. -/
def chunks {α : Type} (length : Nat) : List α → List (List α)
  | [] => []
  | x :: xs => (x :: xs.take (length - 1)) :: chunks length (xs.drop (length - 1))
termination_by xs => xs.length
decreasing_by
  simp only [List.length_drop, List.length_cons]
  omega

/-! ## Buckets -/

/-- Each record with the number of the bucket that its key is dealt to. -/
def assignBuckets (place : Key → UInt64) (key : KeySpec) (buckets : UInt64) :
    List Record → Except Error (List (Nat × Record))
  | [] => .ok []
  | r :: rest => do
      let k ← key.extract r
      let assigned ← assignBuckets place key buckets rest
      pure (((place k % buckets).toNat, r) :: assigned)

/-- The records of each bucket in the order in which they stood. -/
def collectBuckets (buckets : Nat) (assigned : List (Nat × Record)) : List (List Record) :=
  let collected := assigned.foldl (fun bs a => bs.modify a.1 (·.push a.2)) (Array.replicate buckets #[])
  collected.toList.map Array.toList

/-- The records dealt to buckets by key; a single bucket takes them all without looking at their keys. -/
def partitionByKey (place : Key → UInt64) (key : KeySpec) (partitions : UInt64) (records : List Record) :
    Except Error (List (List Record)) :=
  let buckets := max partitions 1
  if buckets = 1 then .ok [records]
  else do
    let assigned ← assignBuckets place key buckets records
    pure (collectBuckets buckets.toNat assigned)

end WorksetIteration
