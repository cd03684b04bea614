import Scrawl.Decimal.Numeral
import Scrawl.Double

/-!
# Decimal/Shortest — the fewest digits that read back

Every real number between the midpoints to a double's two neighbours is read as that double; the
midpoints themselves are when the mantissa is even.  `shortest` looks for the coarsest decimal grid
with a point in that interval, and on it takes the point nearest to the double.
-/

namespace Scrawl.Decimal

open Double (twoPow)

/-- A number `digits · 10 ^ exponent`. -/
structure Scientific where
  digits : Nat
  exponent : Int
deriving DecidableEq, Repr

/-- Trailing zeros move from the digits to the exponent.  The first argument bounds their
number. -/
def Scientific.strip : Nat → Scientific → Scientific
  | 0, d => d
  | fuel + 1, d =>
    if d.digits ≠ 0 ∧ d.digits % 10 = 0 then
      Scientific.strip fuel ⟨d.digits / 10, d.exponent + 1⟩
    else d

/-- The least `k` with `num / den < 10 ^ k`, searched upwards from a bound given by the binary
logarithms. -/
def decimalWidth (num den : Nat) : Int :=
  let start := (((num.log2 : Int) - den.log2 - 1) * 30103).fdiv 100000
  let below (k : Int) : Bool := num * tenPow (-k).toNat < den * tenPow k.toNat
  ([start, start + 1, start + 2].find? below).getD (start + 3)

/-- The interval of a double in quarters of its last place: lower end, value, upper end. -/
def quarters (mantissa : Nat) (exponent : Int) : Nat × Nat × Nat :=
  let gap := if mantissa = twoPow 52 ∧ Double.leastExponent < exponent then 1 else 2
  (4 * mantissa - gap, 4 * mantissa, 4 * mantissa + 2)

/-- The point nearest to the double among its two neighbours on the grid of multiples of
`10 ^ place`, if one of them lies in the double's interval. -/
def onGrid? (mantissa : Nat) (exponent place : Int) : Option Scientific :=
  let (low, value, high) := quarters mantissa exponent
  let fine := twoPow (exponent - 2).toNat * tenPow (-place).toNat
  let step := tenPow place.toNat * twoPow (2 - exponent).toNat
  let below := value * fine / step
  let inside (n : Nat) : Bool :=
    if mantissa % 2 = 0 then low * fine ≤ n * step && n * step ≤ high * fine
    else low * fine < n * step && n * step < high * fine
  let twice := 2 * (value * fine % step)
  let upperNearer : Bool := step < twice || (step == twice && below % 2 == 1)
  match inside below, inside (below + 1) with
  | true, true => some ⟨if upperNearer then below + 1 else below, place⟩
  | true, false => some ⟨below, place⟩
  | false, true => some ⟨below + 1, place⟩
  | false, false => none

/-- **The shortest decimal that is read as `mantissa · 2 ^ exponent`**; 17 digits always do. -/
def shortest (mantissa : Nat) (exponent : Int) : Scientific :=
  let width := decimalWidth (mantissa * twoPow exponent.toNat) (twoPow (-exponent).toNat)
  let found := (List.range 17).findSome? fun n : Nat =>
    onGrid? mantissa exponent (width - (n + 1 : Nat))
  (found.getD ⟨0, 0⟩).strip 20

end Scrawl.Decimal
