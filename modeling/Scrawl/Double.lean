/-!
# Double — doubles as exact numbers

A finite double is `± mantissa · 2 ^ exponent` with natural `mantissa`.  `decode` reads that off
the bits, `ofRatio` goes back: the double nearest to a quotient of natural numbers, ties to the
even mantissa.  Everything that has to be exact about doubles — conversion, comparison with an
integer, decimal text — goes through these two.
-/

namespace Scrawl.Double

/-- A double taken apart. -/
inductive Parts where
  /-- Not a number. -/
  | nan
  /-- An infinity. -/
  | infinite (negative : Bool)
  /-- The number `± mantissa · 2 ^ exponent`. -/
  | finite (negative : Bool) (mantissa : Nat) (exponent : Int)
deriving DecidableEq, Repr

/-- The exponent of the smallest positive double, `2 ^ -1074`. -/
def leastExponent : Int := -1074

/-- A power of two. -/
def twoPow (n : Nat) : Nat := Nat.pow 2 n

/-- The parts that 64 bits encode. -/
def partsOfBits (bits : Nat) : Parts :=
  let negative := bits / twoPow 63 % 2 == 1
  let field := bits / twoPow 52 % twoPow 11
  let fraction := bits % twoPow 52
  if field = 2047 then if fraction = 0 then .infinite negative else .nan
  else if field = 0 then .finite negative fraction leastExponent
  else .finite negative (twoPow 52 + fraction) (leastExponent + (field - 1 : Nat))

/-- **The parts of a double.** -/
def decode (x : Float) : Parts := partsOfBits x.toBits.toNat

/-- The bits of positive infinity. -/
def infinityBits : Nat := 2047 * twoPow 52

/-- The bits of a nan. -/
def nanBits : Nat := infinityBits + twoPow 51

/-- A magnitude given by its bits, with a sign. -/
def ofMagnitude (negative : Bool) (bits : Nat) : Float :=
  Float.ofBits (UInt64.ofNat (if negative then twoPow 63 + bits else bits))

/-- The quotient rounded to the nearest integer, ties to even. -/
def roundDiv (num den : Nat) : Nat :=
  let quotient := num / den
  let twice := 2 * (num % den)
  if twice < den then quotient
  else if den < twice then quotient + 1
  else quotient + quotient % 2

/-- `num / den / 2 ^ exponent` as a quotient of natural numbers. -/
def scaled (num den : Nat) (exponent : Int) : Nat × Nat :=
  (num * twoPow (-exponent).toNat, den * twoPow exponent.toNat)

/-- The exponent at which the mantissa of `num / den` has 53 bits, or the least one. -/
def exponentFor (num den : Nat) : Int :=
  let guess : Int := (num.log2 : Int) - den.log2 - 52
  let (a, b) := scaled num den guess
  max leastExponent (if a / b < twoPow 52 then guess - 1 else guess)

/-- **The bits of the double nearest to `num / den`**, infinity when that is too large.  The bits of
a positive double grow with its exponent and, within one exponent, with its mantissa, so a mantissa
that is rounded up to the next power of two carries over by itself. -/
def ofRatio (num den : Nat) : Nat :=
  if num = 0 then 0
  else
    let exponent := exponentFor num den
    let (a, b) := scaled num den exponent
    min infinityBits ((exponent - leastExponent).toNat * twoPow 52 + roundDiv a b)

/-- **The double nearest to an integer**, if there is a finite one. -/
def ofInt? (n : Int) : Option Float :=
  let bits := ofRatio n.natAbs 1
  if bits < infinityBits then some (ofMagnitude (n < 0) bits) else none

/-- How two doubles compare; a nan does not. -/
def compareFloats (x y : Float) : Option Ordering :=
  if x < y then some .lt else if y < x then some .gt else if x == y then some .eq else none

/-- **How an integer compares with a double**, exactly. -/
def compareInt (n : Int) (x : Float) : Option Ordering :=
  match decode x with
  | .nan => none
  | .infinite negative => some (if negative then .gt else .lt)
  | .finite negative mantissa exponent =>
    let m : Int := if negative then -(mantissa : Int) else mantissa
    some (compare (n * twoPow (-exponent).toNat) (m * twoPow exponent.toNat))

end Scrawl.Double
