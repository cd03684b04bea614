import Scrawl.Value.Basic

/-!
# Value/Input — what a line of input stands for

A line with a digit in it is read as a number, as a double when a point follows a digit, and the
words for the two truth values are booleans.  Every other line, and every line that looks like a
number and is none, is the text itself.
-/

namespace Scrawl.Value

open Text Decimal

/-- A digit occurs in the line. -/
def hasDigit (cs : List Char) : Bool := cs.any isDigitLike

/-- A point occurs somewhere behind a digit. -/
def hasPointAfterDigit (cs : List Char) : Bool :=
  (cs.dropWhile (!isDigitLike ·)).contains '.'

/-- **The value that a line of input stands for.** -/
def ofInput (line : String) : Value :=
  let cs := line.toList
  if hasPointAfterDigit cs then
    match readFloat line with
    | .ok x => .float x
    | .error _ => .string line
  else if hasDigit cs then
    match readInteger line with
    | .ok n => .int n
    | .error _ => .string line
  else if line = "true" then .bool true
  else if line = "false" then .bool false
  else .string line

end Scrawl.Value
