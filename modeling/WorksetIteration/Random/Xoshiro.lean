import WorksetIteration.Random.Draws

/-!
# The xoshiro256++ generator

A state of four words gives a word and the next state.  A seed of one word is spread over the state by a permuted
congruential generator.  Numbers within a bound are the high halves of products, and products in the last, incomplete
part of the range are drawn again.

Main definitions:

- `Xoshiro.ofSeed`, `Xoshiro.next`: the state of a seed, and the next word.
- `Xoshiro.draws`: the generator as a source of coins and numbers.
-/

namespace WorksetIteration

/-- The state of the generator. -/
structure Xoshiro where
  /-- The first word. -/
  s0 : UInt64
  /-- The second word. -/
  s1 : UInt64
  /-- The third word. -/
  s2 : UInt64
  /-- The fourth word. -/
  s3 : UInt64
deriving DecidableEq, Repr

namespace Xoshiro

/-! ## Seeding -/

/-- The state of the seeding generator after the given one. -/
def nextSeed (state : UInt64) : UInt64 :=
  state * 6364136223846793005 + 11634580027462260723

/-- The output of the seeding generator in a state: folded high bits, rotated by the highest five. -/
def seedOutput (state : UInt64) : UInt32 :=
  let x := (((state >>> 18) ^^^ state) >>> 27).toUInt32
  let r := (state >>> 59).toUInt32
  (x >>> r) ||| (x <<< (32 - r))

/-- A word of two successive outputs, the low half first, and the seeding state after them. -/
def seedWord (state : UInt64) : UInt64 × UInt64 :=
  let low := nextSeed state
  let high := nextSeed low
  ((seedOutput low).toUInt64 ||| ((seedOutput high).toUInt64 <<< 32), high)

/-- The state of a seed. -/
def ofSeed (seed : UInt64) : Xoshiro :=
  let (s0, state) := seedWord seed
  let (s1, state) := seedWord state
  let (s2, state) := seedWord state
  let (s3, _) := seedWord state
  ⟨s0, s1, s2, s3⟩

/-! ## Words -/

/-- A word rotated to the left. -/
def rotateLeft (w amount : UInt64) : UInt64 :=
  (w <<< amount) ||| (w >>> (64 - amount))

/-- The word of a state. -/
def output (g : Xoshiro) : UInt64 :=
  rotateLeft (g.s0 + g.s3) 23 + g.s0

/-- The state after the given one. -/
def advance (g : Xoshiro) : Xoshiro :=
  let s2 := g.s2 ^^^ g.s0
  let s3 := g.s3 ^^^ g.s1
  ⟨g.s0 ^^^ s3, g.s1 ^^^ s2, s2 ^^^ (g.s1 <<< 17), rotateLeft s3 45⟩

/-- The next word, and the state after it. -/
def next (g : Xoshiro) : UInt64 × Xoshiro :=
  (g.output, g.advance)

/-! ## Coins and numbers -/

/-- A coin is the highest bit of a word, heads if it is clear. -/
def coin (g : Xoshiro) : Bool × Xoshiro :=
  (decide (g.output < 9223372036854775808), g.advance)

/-- The greatest low half of a product that is accepted: the range is cut down to the greatest multiple of the bound by
a power of two. -/
def acceptedLow (bound : Nat) : Nat :=
  bound * Nat.pow 2 (63 - bound.log2) - 1

/-- A number from one to the bound.  Words are drawn until one is accepted; the number of tries bounds the search, and
the last one is taken as it is. -/
def numberWithin (bound : Nat) : (tries : Nat) → Xoshiro → Nat × Xoshiro
  | 0, g => (1 + g.output.toNat * bound / UInt64.size, g.advance)
  | tries + 1, g =>
      let product := g.output.toNat * bound
      if product % UInt64.size ≤ acceptedLow bound then (1 + product / UInt64.size, g.advance)
      else numberWithin bound tries g.advance

/-- The number of states.  Advancing permutes them, so a search that has tried this many words has tried all it will
ever come to. -/
def stateCount : Nat :=
  Nat.pow 2 256

theorem one_le_numberWithin (bound tries : Nat) (g : Xoshiro) : 1 ≤ (numberWithin bound tries g).1 := by
  induction tries generalizing g with
  | zero => simp [numberWithin]
  | succ tries ih =>
      simp only [numberWithin]
      split
      · exact Nat.le_add_right 1 _
      · exact ih g.advance

theorem output_mul_div_lt (bound : Nat) (h : 1 ≤ bound) (g : Xoshiro) :
    g.output.toNat * bound / UInt64.size < bound :=
  (Nat.div_lt_iff_lt_mul (by decide)).2 <| by
    rw [Nat.mul_comm bound]
    exact Nat.mul_lt_mul_of_pos_right g.output.toNat_lt_size h

theorem numberWithin_le (bound tries : Nat) (h : 1 ≤ bound) (g : Xoshiro) :
    (numberWithin bound tries g).1 ≤ bound := by
  have high := output_mul_div_lt bound h
  induction tries generalizing g with
  | zero =>
      have := high g
      simp only [numberWithin]
      omega
  | succ tries ih =>
      simp only [numberWithin]
      split
      · have := high g
        dsimp only
        omega
      · exact ih g.advance

/-- The generator as a source of random choices. -/
def draws : Draws Xoshiro where
  coin := coin
  number bound g := numberWithin bound stateCount g
  one_le_number bound g := one_le_numberWithin bound stateCount g
  number_le bound g h := numberWithin_le bound stateCount h g

end Xoshiro

end WorksetIteration
