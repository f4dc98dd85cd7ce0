/-!
# Exact values of floating-point numbers

A floating-point number is read from its bit pattern as what it denotes: no number at all, an infinity, or the exact
value `±mantissa · 2 ^ exponent`.  Beside a word, an integer of sixty-four bits, it is not the word that is cast, for it
would be rounded, but the floating-point number, once it is known to lie among the words.

Main definitions:

- `Reading.ofFloat`: what a floating-point number denotes.
- `compareFloats`: the order of floating-point numbers, `-0` before `+0` and NaN last.
- `beyondWords?`: how all words stand to a floating-point number that does not lie among them.
- `truncateToWord` and `nearestFloat`: the casts between words and floating-point numbers.
- `compareWordFloat`: the exact order of a word and a floating-point number.
-/

namespace WorksetIteration

/-- What a floating-point number denotes. -/
inductive Reading where
  /-- Not a number. -/
  | nan
  /-- One of the two infinities. -/
  | infinite (negative : Bool)
  /-- The value `±mantissa · 2 ^ exponent`; a zero keeps its sign. -/
  | finite (negative : Bool) (mantissa : Nat) (exponent : Int)
deriving DecidableEq, Repr

namespace Reading

/-! ## Reading a bit pattern -/

/-- The number that a bit pattern of sign, eleven exponent bits and fifty-two fraction bits stands for. -/
def ofBits (bits : UInt64) : Reading :=
  let negative := decide (0x8000000000000000 ≤ bits.toNat)
  let biased : Nat := bits.toNat / 0x10000000000000 % 2048
  let fraction : Nat := bits.toNat % 0x10000000000000
  if biased = 2047 then
    if fraction = 0 then .infinite negative else .nan
  else if biased = 0 then
    .finite negative fraction (-1074)
  else
    .finite negative (0x10000000000000 + fraction) ((biased : Int) - 1075)

/-- What `x` denotes. -/
def ofFloat (x : Float) : Reading :=
  ofBits x.toBits

end Reading

/-! ## Order -/

/-- The place of a floating-point number among all of them: bit patterns grow with the magnitude, a negative number
stands below `-0`, which stands below `+0`, and NaN stands above everything. -/
def floatRank (x : Float) : Int :=
  let bits := x.toBits.toNat
  match Reading.ofFloat x with
  | .nan => 0x8000000000000000
  | _ => if 0x8000000000000000 ≤ bits then 0x7fffffffffffffff - (bits : Int) else bits

/-- The order of floating-point numbers, by rank. -/
def compareFloats (x y : Float) : Ordering :=
  compare (floatRank x) (floatRank y)

/-! ## Words beside floating-point numbers -/

/-- The number `2 ^ 63`, the first floating-point number above all words. -/
def wordLimit : Float :=
  9223372036854775808.0

/-- How all words stand to a floating-point number that is no number or beyond them; `none` for one among them. -/
def beyondWords? (x : Float) : Option Ordering :=
  if x.isNaN || wordLimit ≤ x then some .lt
  else if x < -wordLimit then some .gt
  else none

/-- The word to which a floating-point number is truncated.  A number beyond the words goes to the last one on its
side, and NaN to zero. -/
def truncateToWord (x : Float) : Int64 :=
  x.toModel.toInt64

/-- The floating-point number that is nearest to a word, the even one of two. -/
def nearestFloat (n : Int64) : Float :=
  .ofModel (.ofInt64 n)

/-- The order of a word and a floating-point number by their exact values, below every NaN.  A number among the words
is truncated and cast back; where the word is the truncated number, the part after the point decides. -/
def compareWordFloat (n : Int64) (x : Float) : Ordering :=
  match beyondWords? x with
  | some order => order
  | none =>
      let truncated := truncateToWord x
      let whole := nearestFloat truncated
      (compare n.toInt truncated.toInt).then
        (if whole < x then .lt else if x < whole then .gt else .eq)

end WorksetIteration
