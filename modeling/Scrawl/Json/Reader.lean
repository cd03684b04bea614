import Scrawl.Entries
import Scrawl.Json.Basic

/-!
# Json/Reader — JSON values from text

The reader goes through the characters from left to right and refuses a text at the first character
that cannot continue it.  Beyond the standard it takes `NaN` and the two infinities as numbers.
A text with a lone half of a pair in it has no characters here, and is refused at its end.  A
**spot** is a place in the text: what is left from there, and how many characters came before.
-/

namespace Scrawl.Json

open Text Decimal

/-- Why a text is no JSON value. -/
inductive Problem where
  | expectingValue
  | expectingName
  | expectingColon
  | expectingComma
  | extraData
  | unterminatedText
  | controlCharacter
  | badEscape
  | badUnicodeEscape
  | byteOrderMark
deriving DecidableEq, Repr

/-- The wording of a problem. -/
def Problem.wording : Problem → String
  | .expectingValue => "Expecting value"
  | .expectingName => "Expecting property name enclosed in double quotes"
  | .expectingColon => "Expecting ':' delimiter"
  | .expectingComma => "Expecting ',' delimiter"
  | .extraData => "Extra data"
  | .unterminatedText => "Unterminated string starting at"
  | .controlCharacter => "Invalid control character at"
  | .badEscape => "Invalid \\escape"
  | .badUnicodeEscape => "Invalid \\uXXXX escape"
  | .byteOrderMark => "Unexpected UTF-8 BOM (decode using utf-8-sig)"

/-- A text that could not be read: a problem at a place, or a number out of bounds. -/
inductive ReadError where
  | malformed (problem : Problem) (index : Nat)
  | number (error : NumberError)
  /-- An escape for half of a pair, without the other half. -/
  | loneHalf
  /-- The reader's steps ran out; there are always enough. -/
  | exhausted
deriving DecidableEq, Repr

/-- The wording of a read error, with the line and the column counted in the text. -/
def ReadError.message (text : String) : ReadError → String
  | .malformed problem index =>
    let before := text.toList.take index
    let line := before.count '\n' + 1
    let column := (before.reverse.takeWhile (· != '\n')).length + 1
    s!"{problem.wording}: line {line} column {column} (char {index})"
  | .number error => error.message
  | .loneHalf => "lone half of a pair"
  | .exhausted => "exhausted"

/-- A place in the text. -/
structure Spot where
  /-- The characters from here on. -/
  rest : List Char
  /-- How many characters came before. -/
  index : Nat

/-- The place some characters further on. -/
def Spot.skip (s : Spot) (n : Nat) : Spot := ⟨s.rest.drop n, s.index + n⟩

/-- White space between the parts of a text. -/
def isSpace (c : Char) : Bool := c == ' ' || c == '\t' || c == '\n' || c == '\r'

/-- The next place that is no white space. -/
def Spot.skipSpace (s : Spot) : Spot := s.skip (s.rest.takeWhile isSpace).length

/-! ## Texts -/

/-- The value of a hexadecimal digit. -/
def hexValue? (c : Char) : Option Nat :=
  if '0' ≤ c ∧ c ≤ '9' then some (c.toNat - '0'.toNat)
  else if 'a' ≤ c ∧ c ≤ 'f' then some (c.toNat - 'a'.toNat + 10)
  else if 'A' ≤ c ∧ c ≤ 'F' then some (c.toNat - 'A'.toNat + 10)
  else none

/-- The number that four hexadecimal digits stand for; some character has to follow them. -/
def hexCode? : List Char → Option Nat
  | a :: b :: c :: d :: _ :: _ => do
    return (((← hexValue? a) * 16 + (← hexValue? b)) * 16 + (← hexValue? c)) * 16 + (← hexValue? d)
  | _ => none

/-- The first half of a pair that stands for one character. -/
def isHighHalf (n : Nat) : Bool := 0xd800 ≤ n && n < 0xdc00

/-- The second half of such a pair. -/
def isLowHalf (n : Nat) : Bool := 0xdc00 ≤ n && n < 0xe000

/-- The character of a code; a half on its own stands for none. -/
def charOfCode? (n : Nat) : Option Char :=
  if isHighHalf n || isLowHalf n then none else some (Char.ofNat n)

/-- The escape behind a backslash: its character, if it stands for one, and its length, or a problem
and its place. -/
def readEscape (s : Spot) : Except ReadError (Option Char × Nat) :=
  match s.rest with
  | 'u' :: rest =>
    match hexCode? rest with
    | none => .error (.malformed .badUnicodeEscape s.index)
    | some code =>
      match isHighHalf code, rest.drop 4 with
      | true, '\\' :: 'u' :: more =>
        if more.length < 5 then .ok (charOfCode? code, 5)
        else match hexCode? more with
          | none => .error (.malformed .badUnicodeEscape (s.index + 6))
          | some low =>
            if isLowHalf low then
              .ok (some (Char.ofNat (0x10000 + (code - 0xd800) * 0x400 + (low - 0xdc00))), 11)
            else .ok (charOfCode? code, 5)
      | _, _ => .ok (charOfCode? code, 5)
  | '"' :: _ => .ok (some '"', 1)
  | '\\' :: _ => .ok (some '\\', 1)
  | '/' :: _ => .ok (some '/', 1)
  | 'b' :: _ => .ok (some '\x08', 1)
  | 'f' :: _ => .ok (some '\x0c', 1)
  | 'n' :: _ => .ok (some '\n', 1)
  | 'r' :: _ => .ok (some '\r', 1)
  | 't' :: _ => .ok (some '\t', 1)
  | _ => .error (.malformed .badEscape (s.index - 1))

/-- The text of some characters, last first; there is none with a lone half in it. -/
def finishText : Option (List Char) → Except ReadError String
  | some cs => .ok (String.ofList cs.reverse)
  | none => .error .loneHalf

/-- The rest of a text whose opening quote stands at `start`; `done` holds the characters read, last
first, unless a lone half was among them.  The first argument bounds the number of characters. -/
def readTextFrom (start : Nat) : Nat → Option (List Char) → Spot → Except ReadError (String × Spot)
  | 0, _, _ => .error .exhausted
  | fuel + 1, done, s =>
    match s.rest with
    | [] => .error (.malformed .unterminatedText start)
    | '"' :: _ => (finishText done).map (·, s.skip 1)
    | ['\\'] => .error (.malformed .unterminatedText start)
    | '\\' :: _ =>
      match readEscape (s.skip 1) with
      | .error e => .error e
      | .ok (c, length) =>
        readTextFrom start fuel (do return (← c) :: (← done)) (s.skip (1 + length))
    | c :: _ =>
      if c.toNat < 0x20 then .error (.malformed .controlCharacter s.index)
      else readTextFrom start fuel (done.map (c :: ·)) (s.skip 1)

/-- A text whose opening quote has just been read. -/
def readText (s : Spot) : Except ReadError (String × Spot) :=
  readTextFrom (s.index - 1) (s.rest.length + 1) (some []) s

/-! ## Numbers -/

/-- An ASCII digit. -/
def isAsciiDigit (c : Char) : Bool := '0' ≤ c && c ≤ '9'

/-- The digits before the point: a zero alone, or digits that start with none. -/
def wholePart : List Char → List Char
  | '0' :: _ => ['0']
  | cs => cs.takeWhile isAsciiDigit

/-- A point with at least one digit behind it. -/
def fractionPart : List Char → List Char
  | '.' :: rest =>
    match rest.takeWhile isAsciiDigit with
    | [] => []
    | digits => '.' :: digits
  | _ => []

/-- An exponent mark with an optional sign and at least one digit behind it. -/
def exponentPart : List Char → List Char
  | [] => []
  | mark :: rest =>
    if mark = 'e' ∨ mark = 'E' then
      let sign := rest.takeWhile (fun c => c == '-' || c == '+') |>.take 1
      match (rest.drop sign.length).takeWhile isAsciiDigit with
      | [] => []
      | digits => mark :: (sign ++ digits)
    else []

/-- **The number at a place**; integers keep within the digit limit, if there is one. -/
def readNumber (limit : Option Nat) (s : Spot) : Except ReadError (Json × Spot) :=
  let (negative, body) := match s.rest with
    | '-' :: rest => (true, rest)
    | cs => (false, cs)
  let whole := wholePart body
  if whole = [] then .error (.malformed .expectingValue s.index)
  else
    let fraction := fractionPart (body.drop whole.length)
    let exponent := exponentPart (body.drop (whole.length + fraction.length))
    let length := (if negative then 1 else 0) + whole.length + fraction.length + exponent.length
    if fraction = [] ∧ exponent = [] then
      if limit.any (· < whole.length) then .error (.number (.tooManyDigits whole.length))
      else .ok (.int (signed negative (digitsValue whole)), s.skip length)
    else
      match readDecimal? (whole ++ fraction ++ exponent) with
      | some d => .ok (.float (Double.ofMagnitude negative d.toBits), s.skip length)
      | none => .error (.malformed .expectingValue s.index)

/-! ## Values -/

/-- The constants and their spellings. -/
def constants : List (List Char × Json) :=
  [("null".toList, .null), ("true".toList, .bool true), ("false".toList, .bool false),
   ("NaN".toList, .float (Double.ofMagnitude false Double.nanBits)),
   ("Infinity".toList, .float (Double.ofMagnitude false Double.infinityBits)),
   ("-Infinity".toList, .float (Double.ofMagnitude true Double.infinityBits))]

/-- A constant or a number. -/
def readScalar (limit : Option Nat) (s : Spot) : Except ReadError (Json × Spot) :=
  match constants.find? fun (word, _) => word.isPrefixOf s.rest with
  | some (word, value) => .ok (value, s.skip word.length)
  | none => readNumber limit s

mutual

/-- **The value at a place.**  The fuel bounds the nesting and the number of items. -/
def readValue (limit : Option Nat) : Nat → Spot → Except ReadError (Json × Spot)
  | 0, _ => .error .exhausted
  | fuel + 1, s =>
    match s.rest with
    | '"' :: _ =>
      match readText (s.skip 1) with
      | .error e => .error e
      | .ok (t, s) => .ok (.text t, s)
    | '[' :: _ =>
      let s := (s.skip 1).skipSpace
      match s.rest with
      | ']' :: _ => .ok (.list [], s.skip 1)
      | _ => readItems limit fuel [] s
    | '\x7b' :: _ =>
      let s := (s.skip 1).skipSpace
      match s.rest with
      | '\x7d' :: _ => .ok (.object [], s.skip 1)
      | _ => readFields limit fuel [] s
    | _ => readScalar limit s

/-- An item and the ones behind it, up to the closing bracket; `done` holds those read, last
first. -/
def readItems (limit : Option Nat) : Nat → List Json → Spot → Except ReadError (Json × Spot)
  | 0, _, _ => .error .exhausted
  | fuel + 1, done, s =>
    match readValue limit fuel s with
    | .error e => .error e
    | .ok (item, s) =>
      let s := s.skipSpace
      match s.rest with
      | ']' :: _ => .ok (.list (item :: done).reverse, s.skip 1)
      | ',' :: _ => readItems limit fuel (item :: done) (s.skip 1).skipSpace
      | _ => .error (.malformed .expectingComma s.index)

/-- A field and the ones behind it, up to the closing brace; `done` holds those read. -/
def readFields (limit : Option Nat) :
    Nat → List (String × Json) → Spot → Except ReadError (Json × Spot)
  | 0, _, _ => .error .exhausted
  | fuel + 1, done, s =>
    match s.rest with
    | '"' :: _ =>
      match readText (s.skip 1) with
      | .error e => .error e
      | .ok (name, s) =>
        let s := s.skipSpace
        match s.rest with
        | ':' :: _ =>
          match readValue limit fuel (s.skip 1).skipSpace with
          | .error e => .error e
          | .ok (value, s) =>
            let s := s.skipSpace
            let done := putEntry name value done
            match s.rest with
            | '\x7d' :: _ => .ok (.object done, s.skip 1)
            | ',' :: _ => readFields limit fuel done (s.skip 1).skipSpace
            | _ => .error (.malformed .expectingComma s.index)
        | _ => .error (.malformed .expectingColon s.index)
    | _ => .error (.malformed .expectingName s.index)

end

/-- **A whole text as one value**, with a limit on the digits of an integer. -/
def readWithin (limit : Option Nat) (text : String) : Except ReadError Json :=
  let cs := text.toList
  if cs.head? = some '\ufeff' then .error (.malformed .byteOrderMark 0)
  else
    match readValue limit (2 * cs.length + 2) (Spot.skipSpace ⟨cs, 0⟩) with
    | .error e => .error e
    | .ok (value, s) =>
      let s := s.skipSpace
      if s.rest = [] then .ok value else .error (.malformed .extraData s.index)

/-- A whole text as one value, integers within the digit limit. -/
def read (text : String) : Except ReadError Json := readWithin (some digitLimit) text

end Scrawl.Json
