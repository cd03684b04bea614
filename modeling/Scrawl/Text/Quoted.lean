import Scrawl.Text.Printable

/-!
# Text/Quoted — text shown between quotes

A text is shown between single quotes, or between double quotes when it holds a single quote and
no double quote.  The backslash and the quote in use are escaped, and so is every character that is
not printable, in the shortest of the three hexadecimal forms that fits.
-/

namespace Scrawl.Text

/-- The digits of a number in base sixteen, padded with zeros to a width. -/
def hexDigits (width n : Nat) : List Char :=
  let digits := Nat.toDigits 16 n
  List.replicate (width - digits.length) '0' ++ digits

/-- The quote that goes around a text. -/
def quoteFor (cs : List Char) : Char :=
  if cs.contains '\'' && !cs.contains '"' then '"' else '\''

/-- One character between quotes of the given kind. -/
def escapeFor (quote c : Char) : List Char :=
  if c = quote || c = '\\' then ['\\', c]
  else if c = '\n' then ['\\', 'n']
  else if c = '\r' then ['\\', 'r']
  else if c = '\t' then ['\\', 't']
  else if isPrintable c then [c]
  else if c.toNat < 0x100 then '\\' :: 'x' :: hexDigits 2 c.toNat
  else if c.toNat < 0x10000 then '\\' :: 'u' :: hexDigits 4 c.toNat
  else '\\' :: 'U' :: hexDigits 8 c.toNat

/-- **A text between quotes**, as a list of characters. -/
def quoteChars (cs : List Char) : List Char :=
  let quote := quoteFor cs
  quote :: (cs.flatMap (escapeFor quote) ++ [quote])

/-- **A text between quotes.** -/
def quoted (s : String) : String := String.ofList (quoteChars s.toList)

end Scrawl.Text
