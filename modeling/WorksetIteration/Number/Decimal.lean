import WorksetIteration.Number.Exact

/-!
# Shortest decimals

A floating-point number is written with the fewest decimal digits that still tell it apart from its neighbours, and
always positionally.  The digits are selected in exact arithmetic: on ever finer decimal grids the two neighbours of
the value are tested against the interval of reals that round to it.

Main definitions:

- `Decimal.readsBack`: a decimal lies among the reals that round to the given value.
- `Decimal.shortest`: the first decimal found, from coarse grids to fine ones.
- `Decimal.text`: its digits with the point where it belongs.
- `floatText`: the text of a floating-point number.
-/

namespace WorksetIteration

/-- The decimal `digits · 10 ^ exponent`. -/
structure Decimal where
  /-- The digits, read as one natural number. -/
  digits : Nat
  /-- The power of ten of the last digit. -/
  exponent : Int
deriving DecidableEq, Repr

namespace Decimal

/-! ## The rounding interval -/

/-- The numerator of `2 ^ binary / 10 ^ decimal` as a quotient of naturals. -/
def scaleUp (binary decimal : Int) : Nat :=
  Nat.pow 2 binary.toNat * Nat.pow 10 (-decimal).toNat

/-- The denominator of `2 ^ binary / 10 ^ decimal` as a quotient of naturals. -/
def scaleDown (binary decimal : Int) : Nat :=
  Nat.pow 2 (-binary).toNat * Nat.pow 10 decimal.toNat

/-- The lower end of the reals that round to `mantissa · 2 ^ exponent`, in quarters of its last place.  Below a power
of two the neighbour is only half as far away. -/
def lowerEnd (mantissa : Nat) (exponent : Int) : Nat :=
  if mantissa = 0x10000000000000 ∧ -1074 < exponent then 4 * mantissa - 1 else 4 * mantissa - 2

/-- The upper end of the reals that round to a value of this mantissa, in quarters of its last place. -/
def upperEnd (mantissa : Nat) : Nat :=
  4 * mantissa + 2

/-- Whether a decimal lies among the reals that round to `mantissa · 2 ^ exponent`; the two ends, halfway to the
neighbours, belong to the even mantissa. -/
def readsBack (mantissa : Nat) (exponent : Int) (d : Decimal) : Bool :=
  let candidate := 4 * d.digits * scaleDown exponent d.exponent
  let lower := lowerEnd mantissa exponent * scaleUp exponent d.exponent
  let upper := upperEnd mantissa * scaleUp exponent d.exponent
  if mantissa % 2 = 0 then
    decide (lower ≤ candidate) && decide (candidate ≤ upper)
  else
    decide (lower < candidate) && decide (candidate < upper)

/-! ## Selecting digits -/

/-- The decimal of the grid `10 ^ place` that reads back and is nearest to the value, the upper one on a tie. -/
def onGrid? (mantissa : Nat) (exponent place : Int) : Option Decimal :=
  let num := mantissa * scaleUp exponent place
  let den := scaleDown exponent place
  let below : Decimal := ⟨num / den, place⟩
  let above : Decimal := ⟨num / den + 1, place⟩
  match readsBack mantissa exponent below, readsBack mantissa exponent above with
  | true, true => if 2 * (num % den) < den then some below else some above
  | true, false => some below
  | false, true => some above
  | false, false => none

/-- The least power of ten above `mantissa · 2 ^ exponent`, for a value of at least `10 ^ (-340)`. -/
def leadingPlace (mantissa : Nat) (exponent : Int) : Int :=
  let scaled := mantissa * scaleUp exponent (-340) / scaleDown exponent (-340)
  ((Nat.toDigits 10 scaled).length : Int) - 340

/-- The value `mantissa · 2 ^ exponent` itself as a decimal. -/
def exact (mantissa : Nat) (exponent : Int) : Decimal :=
  if 0 ≤ exponent then ⟨mantissa * Nat.pow 2 exponent.toNat, 0⟩
  else ⟨mantissa * Nat.pow 5 (-exponent).toNat, exponent⟩

/-- Moves trailing zeros of the digits into the exponent; `fuel` bounds their number. -/
def stripZeros : (fuel : Nat) → Decimal → Decimal
  | 0, d => d
  | fuel + 1, d =>
      if d.digits ≠ 0 ∧ d.digits % 10 = 0 then stripZeros fuel ⟨d.digits / 10, d.exponent + 1⟩ else d

/-- The decimal with the fewest digits that reads back as the positive value `mantissa · 2 ^ exponent`. -/
def shortest (mantissa : Nat) (exponent : Int) : Decimal :=
  let top := leadingPlace mantissa exponent
  let found := (List.range 17).findSome? fun n => onGrid? mantissa exponent (top - 1 - (n : Nat))
  stripZeros 20 (found.getD (exact mantissa exponent))

/-! ## Layout -/

/-- The positional text of a decimal: no exponent, and no point in a whole number. -/
def text (d : Decimal) : String :=
  let digits := Nat.toDigits 10 d.digits
  let places := (-d.exponent).toNat
  if places = 0 then
    String.ofList (digits ++ List.replicate d.exponent.toNat '0')
  else
    let padded := List.replicate (places + 1 - digits.length) '0' ++ digits
    let point := padded.length - places
    String.ofList (padded.take point ++ '.' :: padded.drop point)

end Decimal

/-- The text of a floating-point number: the shortest decimal that reads back, `-` before a negative number and the
negative zero, and words for what is no finite number. -/
def floatText (x : Float) : String :=
  match Reading.ofFloat x with
  | .nan => "NaN"
  | .infinite negative => if negative then "-inf" else "inf"
  | .finite negative mantissa exponent =>
      let body := if mantissa = 0 then "0" else (Decimal.shortest mantissa exponent).text
      if negative then "-" ++ body else body

end WorksetIteration
