import Scrawl.Json.Basic

/-!
# Json/Printer — JSON values as text

Inside a text only the quote, the backslash and the control characters below the space are escaped;
everything else is written as it is.  A `Layout` says what stands between the items: nothing, or a
new line with two spaces for each level.
-/

namespace Scrawl.Json

open Text Decimal

/-- One character inside a text. -/
def escapeChar (c : Char) : List Char :=
  if c = '"' then ['\\', '"']
  else if c = '\\' then ['\\', '\\']
  else if c = '\n' then ['\\', 'n']
  else if c = '\r' then ['\\', 'r']
  else if c = '\t' then ['\\', 't']
  else if c = '\x08' then ['\\', 'b']
  else if c = '\x0c' then ['\\', 'f']
  else if c.toNat < 0x20 then '\\' :: 'u' :: hexDigits 4 c.toNat
  else [c]

/-- A text between its quotes. -/
def renderText (s : String) : List Char := '"' :: (s.toList.flatMap escapeChar ++ ['"'])

/-- A double; the three that are no decimals have names. -/
def renderFloat (x : Float) : List Char :=
  match Double.decode x with
  | .nan => "NaN".toList
  | .infinite negative => if negative then "-Infinity".toList else "Infinity".toList
  | .finite .. => (writeFloat x).toList

/-- What stands around the items of lists and objects. -/
structure Layout where
  /-- Before an item at a nesting level. -/
  lineBreak : Nat → List Char
  /-- Between a name and its value. -/
  colon : List Char

/-- All on one line. -/
def Layout.compact : Layout := ⟨fun _ => [], [':']⟩

/-- An item a line, indented by two spaces for each level. -/
def Layout.indented : Layout :=
  ⟨fun level => '\n' :: List.replicate (2 * level) ' ', [':', ' ']⟩

mutual

/-- **A value as text**, at a nesting level, in front of a rest. -/
def renderOnto (layout : Layout) (level : Nat) : Json → List Char → List Char
  | .null, rest => "null".toList ++ rest
  | .bool b, rest => (if b then "true" else "false").toList ++ rest
  | .int n, rest => (toString n).toList ++ rest
  | .float x, rest => renderFloat x ++ rest
  | .text s, rest => renderText s ++ rest
  | .list [], rest => '[' :: ']' :: rest
  | .list (item :: items), rest =>
    '[' :: (layout.lineBreak (level + 1) ++ renderOnto layout (level + 1) item
      (renderItems layout (level + 1) items (layout.lineBreak level ++ ']' :: rest)))
  | .object [], rest => '\x7b' :: '\x7d' :: rest
  | .object ((name, value) :: fields), rest =>
    '\x7b' :: (layout.lineBreak (level + 1) ++ renderText name ++ layout.colon ++
      renderOnto layout (level + 1) value
        (renderFields layout (level + 1) fields (layout.lineBreak level ++ '\x7d' :: rest)))

/-- Items with a comma before each. -/
def renderItems (layout : Layout) (level : Nat) : List Json → List Char → List Char
  | [], rest => rest
  | item :: items, rest =>
    ',' :: (layout.lineBreak level ++
      renderOnto layout level item (renderItems layout level items rest))

/-- Fields with a comma before each. -/
def renderFields (layout : Layout) (level : Nat) : List (String × Json) → List Char → List Char
  | [], rest => rest
  | (name, value) :: fields, rest =>
    ',' :: (layout.lineBreak level ++ renderText name ++ layout.colon ++
      renderOnto layout level value (renderFields layout level fields rest))

end

/-- A value as text on lines of its own. -/
def pretty (j : Json) : String := String.ofList (renderOnto .indented 0 j [])

/-- A value as text on one line. -/
def compact (j : Json) : String := String.ofList (renderOnto .compact 0 j [])

end Scrawl.Json
