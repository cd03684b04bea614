import Scrawl.Decimal.Shortest

/-!
# Decimal/FloatText — doubles as text

A double is written with the fewest digits that read back: positionally when the first digit stands
for a power of ten from `10 ^ -4` to `10 ^ 15`, with an exponent otherwise.  It is read from a
numeral with an optional fraction and exponent, or from a word for an infinity or a nan, and is the
double nearest to the number written.
-/

namespace Scrawl.Decimal

open Text

/-! ## Writing -/

/-- Which powers of ten of the first digit are written without an exponent. -/
def isPositional (power : Int) : Bool := -4 ≤ power && power < 16

/-- Digits with the point after the first `point` of them. -/
def writePositional (digits : List Char) (point : Int) : List Char :=
  let count : Int := digits.length
  if point ≤ 0 then '0' :: '.' :: (List.replicate (-point).toNat '0' ++ digits)
  else if point < count then digits.take point.toNat ++ '.' :: digits.drop point.toNat
  else digits ++ List.replicate (point - count).toNat '0' ++ ['.', '0']

/-- Digits with the point after the first of them, and an exponent of at least two digits. -/
def writeExponent (digits : List Char) (power : Int) : List Char :=
  let fraction := if digits.length ≤ 1 then [] else '.' :: digits.drop 1
  let exponent := Nat.toDigits 10 power.natAbs
  digits.take 1 ++ fraction ++ 'e' :: (if power < 0 then '-' else '+') ::
    (List.replicate (2 - exponent.length) '0' ++ exponent)

/-- The text of a positive decimal. -/
def Scientific.write (d : Scientific) : List Char :=
  let digits := Nat.toDigits 10 d.digits
  let point := d.exponent + digits.length
  if isPositional (point - 1) then writePositional digits point
  else writeExponent digits (point - 1)

/-- **The text of a double.** -/
def writeFloat (x : Float) : String :=
  match Double.decode x with
  | .nan => "nan"
  | .infinite negative => if negative then "-inf" else "inf"
  | .finite negative mantissa exponent =>
    let magnitude :=
      if mantissa = 0 then ['0', '.', '0'] else (shortest mantissa exponent).write
    String.ofList (if negative then '-' :: magnitude else magnitude)

/-! ## Reading -/

/-- Beyond this power of ten on either side every number reads as an infinity or as zero. -/
def farPower : Int := 400

/-- The bits of the double nearest to `digits · 10 ^ exponent`. -/
def Scientific.toBits (d : Scientific) : Nat :=
  let power := d.exponent + (Nat.toDigits 10 d.digits).length
  if d.digits = 0 ∨ power < -farPower then 0
  else if farPower < power then Double.infinityBits
  else Double.ofRatio (d.digits * tenPow d.exponent.toNat) (tenPow (-d.exponent).toNat)

/-- Underscores stand only between two decimal digits.  The first argument says whether the
character before is a digit. -/
def underscoresBetween : Bool → List Char → Bool
  | _, [] => true
  | before, '_' :: rest => before && rest.head?.any isDecimal && underscoresBetween false rest
  | _, c :: rest => underscoresBetween (isDecimal c) rest

/-- An exponent mark, an optional sign and digits; or nothing. -/
def readExponent? : List Char → Option Int
  | [] => some 0
  | c :: rest =>
    if c = 'e' ∨ c = 'E' then
      let (negative, digits) := splitSign rest
      if digits ≠ [] && digits.all isDecimal then some (signed negative (digitsValue digits))
      else none
    else none

/-- Digits, an optional point with digits, and an optional exponent; a digit stands on at least one
side of the point. -/
def readDecimal? (cs : List Char) : Option Scientific :=
  let whole := cs.takeWhile isDecimal
  let rest := cs.dropWhile isDecimal
  let fraction := match rest with
    | '.' :: more => more.takeWhile isDecimal
    | _ => []
  let tail := match rest with
    | '.' :: more => more.dropWhile isDecimal
    | _ => rest
  if whole = [] ∧ fraction = [] then none
  else (readExponent? tail).map fun exponent =>
    ⟨digitsValue (whole ++ fraction), exponent - fraction.length⟩

/-- The bits of the magnitude that a text without sign stands for. -/
def readMagnitude? (cs : List Char) : Option Nat :=
  let word := String.ofList (cs.map Char.toLower)
  if word = "inf" ∨ word = "infinity" then some Double.infinityBits
  else if word = "nan" then some Double.nanBits
  else (readDecimal? cs).map Scientific.toBits

/-- **The double that a text stands for.** -/
def readFloat (text : String) : Except NumberError Float :=
  let cs := trimBlanks text.toList
  let (negative, body) := splitSign (cs.filter (· != '_'))
  match readMagnitude? body with
  | some bits =>
    if underscoresBetween false cs then .ok (Double.ofMagnitude negative bits)
    else .error (.notFloat text)
  | none => .error (.notFloat text)

end Scrawl.Decimal
