import Mathlib.Algebra.Ring.Nat
import Mathlib.Data.List.Perm.Basic
import WorksetIteration.Partition

/-!
# Chunks for workers

The length of a chunk is a quotient rounded up, so that no more chunks than workers hold all items and no shorter ones
would do.  It is rounded up by a sum, and words bound that sum: where it leaves them the quotient is lost and the length
is one, which is right only if there is a worker for each item.

Main results:

- `flatten_chunks`, `length_of_mem_chunks`, `length_chunks_le_iff`: what a list is cut into.
- `toNat_chunkLength`: the length of a chunk as a number.
- `isChunkLength_chunkLength_iff`: when it is right.
- `chunkLength_exact`: all about the length of a chunk, and the lists cut by it.
-/

namespace WorksetIteration

/-! ## Cutting a list -/

section Chunks

variable {α : Type}

/-- The chunks of a list put together give the list. -/
theorem flatten_chunks (length : Nat) (xs : List α) : (chunks length xs).flatten = xs := by
  fun_induction chunks length xs with
  | case1 => rfl
  | case2 x xs ih => rw [List.flatten_cons, ih, List.cons_append, List.take_append_drop]

/-- No chunk is empty or longer than it may be. -/
theorem length_of_mem_chunks {length : Nat} (hlength : 1 ≤ length) {xs chunk : List α}
    (h : chunk ∈ chunks length xs) : 1 ≤ chunk.length ∧ chunk.length ≤ length := by
  fun_induction chunks length xs with
  | case1 => cases h
  | case2 x xs ih =>
      rcases List.mem_cons.1 h with rfl | h
      · rw [List.length_cons, List.length_take]
        omega
      · exact ih h

/-- As many chunks are needed as hold the list. -/
theorem length_chunks_le_iff {length : Nat} (hlength : 1 ≤ length) (xs : List α) (n : Nat) :
    (chunks length xs).length ≤ n ↔ xs.length ≤ length * n := by
  fun_induction chunks length xs generalizing n with
  | case1 => simp
  | case2 x xs ih =>
      rw [List.length_cons, List.length_cons]
      cases n with
      | zero => simp
      | succ n =>
          rw [Nat.add_le_add_iff_right, ih, List.length_drop, Nat.mul_succ]
          omega

end Chunks

/-! ## Numbers of items -/

/-- A number of items a chunk that lets the workers share a list: chunks are not empty, as many as there are workers
hold the list, and with one item less they would not. -/
structure IsChunkLength (length workers chunk : Nat) : Prop where
  /-- A chunk has an item. -/
  pos : 1 ≤ chunk
  /-- The workers' chunks hold the list. -/
  covers : length ≤ chunk * workers
  /-- Shorter chunks do not. -/
  least : 0 < length → (chunk - 1) * workers < length

/-- The quotient rounded up is such a number. -/
theorem isChunkLength_quotient {length workers : Nat} (hworkers : 1 ≤ workers) :
    IsChunkLength length workers (max ((length + workers - 1) / workers) 1) where
  pos := Nat.le_max_right _ _
  covers := by
    have hbelow : length + workers - 1 < (length + workers - 1) / workers * workers + workers :=
      Nat.lt_div_mul_add hworkers
    have hmax : (length + workers - 1) / workers * workers ≤ max ((length + workers - 1) / workers) 1 * workers :=
      Nat.mul_le_mul_right _ (Nat.le_max_left _ _)
    omega
  least := by
    intro hlength
    have hone : 1 ≤ (length + workers - 1) / workers := (Nat.one_le_div_iff hworkers).2 (by omega)
    have hle : (length + workers - 1) / workers * workers ≤ length + workers - 1 := Nat.div_mul_le_self _ _
    rw [Nat.max_eq_left hone, Nat.sub_mul, Nat.one_mul]
    omega

/-- One item a chunk is enough just if there is a worker for each item. -/
theorem isChunkLength_one_iff {length workers : Nat} : IsChunkLength length workers 1 ↔ length ≤ workers :=
  ⟨fun h => by simpa using h.covers, fun h => ⟨Nat.le_refl 1, by simpa using h, fun hpos => by simpa using hpos⟩⟩

/-! ## Lengths in words -/

/-- The sum of two words, unless it leaves the words. -/
def checkedSum? (a b : UInt64) : Option UInt64 :=
  if a.toNat + b.toNat < 2 ^ 64 then some (a + b) else none

/-- The length of a chunk, if the sum that is rounded up stays in the words. -/
def chunkLength? (length parallelism : UInt64) : Option UInt64 :=
  let workers := max parallelism 1
  (checkedSum? length workers).map fun total => max ((total - 1) / workers) 1

section Words

variable {length parallelism : UInt64}

theorem chunkLength?_eq_some_iff {chunk : UInt64} :
    chunkLength? length parallelism = some chunk ↔
      length.toNat + max parallelism.toNat 1 < 2 ^ 64 ∧ chunkLength length parallelism = chunk := by
  have hworkers : (max parallelism 1).toNat = max parallelism.toNat 1 := UInt64.toNat_max _ _
  rw [chunkLength?, checkedSum?, hworkers]
  split
  case isTrue hfits => rw [and_iff_right hfits, Option.map_some, Option.some_inj, chunkLength]
  case isFalse hfits => exact iff_of_false nofun fun h => hfits h.1

/-- The length of a chunk as a number, with the words' sum of items and workers. -/
theorem toNat_chunkLength :
    (chunkLength length parallelism).toNat =
      max ((2 ^ 64 - 1 + (length.toNat + max parallelism.toNat 1) % 2 ^ 64) % 2 ^ 64 / max parallelism.toNat 1) 1 := by
  rw [chunkLength, UInt64.toNat_max, UInt64.toNat_div, UInt64.toNat_sub, UInt64.toNat_add, UInt64.toNat_max]
  rfl

/-- As long as the items and all workers but one are within the words, the length of a chunk is right. -/
theorem isChunkLength_of_le (hfits : length.toNat + max parallelism.toNat 1 ≤ 2 ^ 64) :
    IsChunkLength length.toNat (max parallelism.toNat 1) (chunkLength length parallelism).toNat := by
  have hone : 1 ≤ max parallelism.toNat 1 := Nat.le_max_right _ _
  have hsum : (2 ^ 64 - 1 + (length.toNat + max parallelism.toNat 1) % 2 ^ 64) % 2 ^ 64 =
      length.toNat + max parallelism.toNat 1 - 1 := by omega
  rw [toNat_chunkLength, hsum]
  exact isChunkLength_quotient hone

/-- Otherwise it is one. -/
theorem chunkLength_of_lt (hleaves : 2 ^ 64 < length.toNat + max parallelism.toNat 1) :
    (chunkLength length parallelism).toNat = 1 := by
  have hlength : length.toNat < 2 ^ 64 := length.toNat_lt
  have hworkers : max parallelism.toNat 1 < 2 ^ 64 := Nat.max_lt.2 ⟨parallelism.toNat_lt, by decide⟩
  -- what is left of the sum lacks a whole round of the words, which is more than all items
  have hsum : (2 ^ 64 - 1 + (length.toNat + max parallelism.toNat 1) % 2 ^ 64) % 2 ^ 64 < max parallelism.toNat 1 := by
    omega
  rw [toNat_chunkLength, Nat.div_eq_of_lt hsum]
  rfl

/-- The workers' chunks hold all items just if there is a worker for each item, or the items and all workers but one
are within the words. -/
theorem le_chunkLength_mul_iff :
    length.toNat ≤ (chunkLength length parallelism).toNat * max parallelism.toNat 1 ↔
      length.toNat ≤ max parallelism.toNat 1 ∨ length.toNat + max parallelism.toNat 1 ≤ 2 ^ 64 := by
  by_cases hfits : length.toNat + max parallelism.toNat 1 ≤ 2 ^ 64
  · exact iff_of_true (isChunkLength_of_le hfits).covers (.inr hfits)
  · rw [chunkLength_of_lt (Nat.lt_of_not_le hfits), Nat.one_mul, or_iff_left hfits]

/-- So the length of a chunk is right just then. -/
theorem isChunkLength_chunkLength_iff :
    IsChunkLength length.toNat (max parallelism.toNat 1) (chunkLength length parallelism).toNat ↔
      length.toNat ≤ max parallelism.toNat 1 ∨ length.toNat + max parallelism.toNat 1 ≤ 2 ^ 64 := by
  refine ⟨fun h => le_chunkLength_mul_iff.1 h.covers, fun h => ?_⟩
  by_cases hfits : length.toNat + max parallelism.toNat 1 ≤ 2 ^ 64
  · exact isChunkLength_of_le hfits
  · rw [chunkLength_of_lt (Nat.lt_of_not_le hfits), isChunkLength_one_iff]
    exact h.resolve_right hfits

theorem one_le_chunkLength : 1 ≤ (chunkLength length parallelism).toNat := by
  rw [toNat_chunkLength]
  exact Nat.le_max_right _ _

end Words

/-- The length of a chunk is never zero, and its sum stays in the words just if there are fewer than 2^64 items and
workers together.  Whatever it is, a list cut by it is put together from its chunks, none of which is empty or longer.
It is right, and there are no more chunks than workers, just if there is a worker for each item or the items and all
workers but one are within the words; so it is for up to 2^63 items and any number of workers. -/
theorem chunkLength_exact (length parallelism : UInt64) :
    1 ≤ (chunkLength length parallelism).toNat ∧
    (chunkLength? length parallelism = some (chunkLength length parallelism) ↔
      length.toNat + max parallelism.toNat 1 < 2 ^ 64) ∧
    (IsChunkLength length.toNat (max parallelism.toNat 1) (chunkLength length parallelism).toNat ↔
      length.toNat ≤ max parallelism.toNat 1 ∨ length.toNat + max parallelism.toNat 1 ≤ 2 ^ 64) ∧
    (length.toNat ≤ 2 ^ 63 →
      IsChunkLength length.toNat (max parallelism.toNat 1) (chunkLength length parallelism).toNat) ∧
    ∀ xs : List Record, xs.length = length.toNat →
      (chunks (chunkLength length parallelism).toNat xs).flatten = xs ∧
        (∀ part ∈ chunks (chunkLength length parallelism).toNat xs,
          part ≠ [] ∧ part.length ≤ (chunkLength length parallelism).toNat) ∧
        ((chunks (chunkLength length parallelism).toNat xs).length ≤ max parallelism.toNat 1 ↔
          length.toNat ≤ max parallelism.toNat 1 ∨ length.toNat + max parallelism.toNat 1 ≤ 2 ^ 64) := by
  refine ⟨one_le_chunkLength, ?sum, isChunkLength_chunkLength_iff, ?short, ?lists⟩
  case sum => rw [chunkLength?_eq_some_iff, and_iff_left rfl]
  case short =>
    intro hshort
    refine isChunkLength_chunkLength_iff.2 ?_
    omega
  case lists =>
    intro xs hxs
    refine ⟨flatten_chunks _ xs, fun part hpart => ?_, ?_⟩
    · rcases length_of_mem_chunks one_le_chunkLength hpart with ⟨hpos, hle⟩
      exact ⟨List.ne_nil_of_length_pos hpos, hle⟩
    · rw [length_chunks_le_iff one_le_chunkLength, hxs]
      exact le_chunkLength_mul_iff

/-- Ten records for three workers, and a list of 2^63 items for as many workers as there can be, for which the sum
leaves the words. -/
theorem chunkLength_exact_of_many_workers :
    let xs : List Record := List.replicate 10 ⟨[]⟩
    (chunkLength 10 3 = 4 ∧ chunkLength? 10 3 = some 4 ∧ IsChunkLength 10 3 4 ∧
      (chunks 4 xs).flatten = xs ∧ (∀ part ∈ chunks 4 xs, part ≠ [] ∧ part.length ≤ 4) ∧ (chunks 4 xs).length ≤ 3) ∧
    chunkLength? 9223372036854775808 18446744073709551615 = none ∧
      IsChunkLength 9223372036854775808 18446744073709551615 1 := by
  intro xs
  rcases chunkLength_exact 10 3 with ⟨_, hsum, hright, _, hlists⟩
  rcases chunkLength_exact 9223372036854775808 18446744073709551615 with ⟨_, _, _, hshort, _⟩
  rcases hlists xs rfl with ⟨hflatten, hparts, hcount⟩
  have hfits : (10 : UInt64).toNat + max (3 : UInt64).toNat 1 ≤ 2 ^ 64 := by decide
  exact ⟨⟨by decide, hsum.2 (by decide), hright.2 (.inr hfits), hflatten, hparts, hcount.2 (.inr hfits)⟩, by decide,
    hshort (by decide)⟩

/-- At the end of the words the length of a chunk is wrong: two workers would need chunks of half of all items, and get
chunks of one.  And for two items the sum leaves the words already, if there are as many workers as there can be. -/
theorem not_isChunkLength_at_end_of_words :
    let length : UInt64 := 18446744073709551615
    (chunkLength length 2 = 1 ∧ ¬length.toNat ≤ (chunkLength length 2).toNat * (2 : UInt64).toNat ∧
      IsChunkLength length.toNat (2 : UInt64).toNat 9223372036854775808) ∧
    chunkLength? length 2 = none ∧ chunkLength? 2 length = none := by
  intro length
  exact ⟨⟨by decide, by decide, by decide, by decide, fun _ => by decide⟩, by decide, by decide⟩

end WorksetIteration
