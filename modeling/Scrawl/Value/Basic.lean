import Scrawl.Decimal.FloatText

/-!
# Value/Basic — the values that programs compute with

There are five sorts of value.  Every value has a text (`write`); that of an integer is bounded by
the digit limit, and that of the void value is empty.
-/

namespace Scrawl

/-- The sorts of value. -/
inductive ValueSort where
  | int | float | string | bool | void
deriving DecidableEq, Repr, Inhabited

/-- The name of a sort. -/
def ValueSort.name : ValueSort → String
  | .int => "int"
  | .float => "float"
  | .string => "string"
  | .bool => "bool"
  | .void => "void"

/-- **A value.** -/
inductive Value where
  | int (n : Int)
  | float (x : Float)
  | string (s : String)
  | bool (b : Bool)
  /-- What statements and calls without a result yield. -/
  | void
deriving Inhabited

namespace Value

open Decimal

/-- The sort of a value. -/
def sort : Value → ValueSort
  | .int _ => .int
  | .float _ => .float
  | .string _ => .string
  | .bool _ => .bool
  | .void => .void

/-- **The text of a value.** -/
def write : Value → Except NumberError String
  | .int n => writeInteger n
  | .float x => .ok (writeFloat x)
  | .string s => .ok s
  | .bool b => .ok (if b then "true" else "false")
  | .void => .ok ""

end Value

end Scrawl
