import Scrawl.Text.Quoted

/-!
# Text/Utf8 — text from bytes

`decodeUtf8` reads bytes as UTF-8 and refuses them at the first byte that starts no character.  The
error spans the bytes that could have been the start of one.
-/

namespace Scrawl.Text

/-- Why bytes are no text. -/
inductive Utf8Problem where
  | startByte
  | continuationByte
  | unexpectedEnd
deriving DecidableEq, Repr

/-- How messages write a problem. -/
def Utf8Problem.wording : Utf8Problem → String
  | .startByte => "invalid start byte"
  | .continuationByte => "invalid continuation byte"
  | .unexpectedEnd => "unexpected end of data"

/-- Bytes that are no text: the first of them, where it stands, and how many they are. -/
structure Utf8Error where
  problem : Utf8Problem
  byte : UInt8
  index : Nat
  length : Nat
deriving DecidableEq, Repr

/-- The wording of a decoding error. -/
def Utf8Error.message (e : Utf8Error) : String :=
  let place :=
    if e.length = 1 then
      s!"byte 0x{String.ofList (hexDigits 2 e.byte.toNat)} in position {e.index}"
    else s!"bytes in position {e.index}-{e.index + e.length - 1}"
  s!"'utf-8' codec can't decode {place}: {e.problem.wording}"

/-- A byte that continues a character. -/
def isContinuation (b : UInt8) : Bool := b &&& 0xc0 == 0x80

/-- A second byte that can follow a first one: no character has two encodings, none is a half of a
pair, and none lies beyond the last. -/
def isSecond (first b : UInt8) : Bool :=
  isContinuation b &&
    (if first = 0xe0 then 0xa0 ≤ b
    else if first = 0xed then b < 0xa0
    else if first = 0xf0 then 0x90 ≤ b
    else if first = 0xf4 then b < 0x90
    else true)

/-- How many bytes a character has that starts with a byte. -/
def characterLength? (first : UInt8) : Option Nat :=
  if first < 0x80 then some 1
  else if first < 0xc2 then none
  else if first < 0xe0 then some 2
  else if first < 0xf0 then some 3
  else if first < 0xf5 then some 4
  else none

/-- How many of the bytes behind a first one can belong to its character, at most so many. -/
def goodBytes (first : UInt8) (wanted : Nat) (rest : List UInt8) : Nat :=
  match rest.take wanted with
  | [] => 0
  | second :: more =>
    if isSecond first second then 1 + (more.takeWhile isContinuation).length else 0

/-- The bits of a character with the bits of its continuation bytes. -/
def joinBits (start : Nat) (continuation : List UInt8) : Nat :=
  continuation.foldl (fun n b => n * 64 + b.toNat % 64) start

/-- The bits of a first byte that belong to its character. -/
def startBits (first : UInt8) : Nat → Nat
  | 1 => first.toNat
  | 2 => first.toNat % 32
  | 3 => first.toNat % 16
  | _ => first.toNat % 8

/-- Reads the bytes from a place on; the fuel bounds their number and `done` holds the characters
read, last first. -/
def decodeFrom : Nat → Nat → List Char → List UInt8 → Except Utf8Error String
  | _, _, done, [] => .ok (String.ofList done.reverse)
  | 0, _, done, _ => .ok (String.ofList done.reverse)
  | fuel + 1, index, done, first :: rest =>
    match characterLength? first with
    | none => .error ⟨.startByte, first, index, 1⟩
    | some length =>
      let good := goodBytes first (length - 1) rest
      if good = length - 1 then
        let c := Char.ofNat (joinBits (startBits first length) (rest.take good))
        decodeFrom fuel (index + length) (c :: done) (rest.drop good)
      else if good = rest.length then .error ⟨.unexpectedEnd, first, index, 1 + good⟩
      else .error ⟨.continuationByte, first, index, 1 + good⟩

/-- **The text that bytes stand for.** -/
def decodeUtf8 (bytes : List UInt8) : Except Utf8Error String :=
  decodeFrom bytes.length 0 [] bytes

end Scrawl.Text
