import Scrawl.Text.Blank
import Scrawl.Text.Quoted

/-!
# Decimal/Numeral — integers as text

Integers are unbounded, but their decimal text is not: at most `digitLimit` digits are read or
written.  A **numeral** is an optional sign and decimal digits of any script, with single
underscores between digits and blanks around the whole.  `writeInteger` and `readInteger` are the
two directions; `NumberError` holds every way in which a number and its text can fail to meet.
-/

namespace Scrawl.Decimal

open Text

/-- Why a number could not be read, written or converted. -/
inductive NumberError where
  /-- The text is no integer numeral. -/
  | notInteger (text : String)
  /-- The text is no numeral with a fraction or an exponent. -/
  | notFloat (text : String)
  /-- The numeral has more digits than the limit. -/
  | tooManyDigits (count : Nat)
  /-- The integer would take more digits than the limit. -/
  | tooLongToWrite
  /-- The integer lies beyond the largest double. -/
  | tooLargeForFloat
deriving DecidableEq, Repr

/-- The most decimal digits of an integer that are read or written. -/
def digitLimit : Nat := 4300

/-- The wording of a number error. -/
def NumberError.message : NumberError → String
  | .notInteger text =>
    "invalid literal for int() with base 10: " ++ String.ofList ((quoteChars text.toList).take 200)
  | .notFloat text => "could not convert string to float: " ++ quoted text
  | .tooManyDigits count =>
    s!"Exceeds the limit ({digitLimit} digits) for integer string conversion: value has {count} " ++
      "digits; use sys.set_int_max_str_digits() to increase the limit"
  | .tooLongToWrite =>
    s!"Exceeds the limit ({digitLimit} digits) for integer string conversion; " ++
      "use sys.set_int_max_str_digits() to increase the limit"
  | .tooLargeForFloat => "int too large to convert to float"

/-- A power of ten. -/
def tenPow (n : Nat) : Nat := Nat.pow 10 n

/-- **The decimal text of an integer**, within the digit limit. -/
def writeInteger (n : Int) : Except NumberError String :=
  if n.natAbs < tenPow digitLimit then .ok (toString n) else .error .tooLongToWrite

/-- The number that a list of decimal digits stands for. -/
def digitsValue (cs : List Char) : Nat :=
  cs.foldl (fun n c => 10 * n + (digitValue? c).getD 0) 0

/-- Underscores stand only between two digits. -/
def separatedDigits : List Char → Bool
  | [] => false
  | [c] => isDecimal c
  | c :: '_' :: rest => isDecimal c && separatedDigits rest
  | c :: rest => isDecimal c && separatedDigits rest

/-- An optional sign in front of the rest. -/
def splitSign : List Char → Bool × List Char
  | '-' :: rest => (true, rest)
  | '+' :: rest => (false, rest)
  | cs => (false, cs)

/-- A natural number with a sign. -/
def signed (negative : Bool) (n : Nat) : Int := if negative then -(n : Int) else n

/-- **The integer that a text stands for.**  A numeral that is too long is refused for its length
before anything behind it is looked at. -/
def readInteger (text : String) : Except NumberError Int :=
  let (negative, body) := splitSign (text.toList.dropWhile isBlank)
  let inNumeral := fun c => isDecimal c || c == '_'
  let numeral := body.takeWhile inNumeral
  let digits := numeral.filter isDecimal
  if !separatedDigits numeral then .error (.notInteger text)
  else if digits.length > digitLimit then .error (.tooManyDigits digits.length)
  else if (body.dropWhile inNumeral).all isBlank then .ok (signed negative (digitsValue digits))
  else .error (.notInteger text)

end Scrawl.Decimal
