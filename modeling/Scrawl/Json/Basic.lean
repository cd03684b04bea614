import Scrawl.Decimal.FloatText

/-!
# Json/Basic — JSON values

Numbers keep the distinction between integers and doubles, and an object keeps its fields in the
order in which their names first came.  `display` shows a value inside a message, with a spelling
of its own for the constants.
-/

namespace Scrawl

/-- **A JSON value.** -/
inductive Json where
  | null
  | bool (b : Bool)
  | int (n : Int)
  | float (x : Float)
  | text (s : String)
  | list (items : List Json)
  | object (fields : List (String × Json))
deriving Inhabited

namespace Json

open Text Decimal

/-- What a message calls the sort of a value. -/
def sort : Json → String
  | .null => "NoneType"
  | .bool _ => "bool"
  | .int _ => "int"
  | .float _ => "float"
  | .text _ => "str"
  | .list _ => "list"
  | .object _ => "dict"

/-- Empty and zero values count as false. -/
def truthy : Json → Bool
  | .null => false
  | .bool b => b
  | .int n => n ≠ 0
  | .float x => x != 0
  | .text s => s ≠ ""
  | .list items => !items.isEmpty
  | .object fields => !fields.isEmpty

mutual

/-- **A value as a message shows it**, texts between quotes. -/
def display : Json → String
  | .null => "None"
  | .bool b => if b then "True" else "False"
  | .int n => toString n
  | .float x => writeFloat x
  | .text s => quoted s
  | .list items => "[" ++ displayItems items ++ "]"
  | .object fields => "\x7b" ++ displayFields fields ++ "\x7d"

/-- Items separated by commas. -/
def displayItems : List Json → String
  | [] => ""
  | [item] => display item
  | item :: rest => display item ++ ", " ++ displayItems rest

/-- Fields separated by commas. -/
def displayFields : List (String × Json) → String
  | [] => ""
  | [(name, value)] => quoted name ++ ": " ++ display value
  | (name, value) :: rest => quoted name ++ ": " ++ display value ++ ", " ++ displayFields rest

end

/-- A value as a message shows it, a text on its own without quotes. -/
def bareDisplay : Json → String
  | .text s => s
  | j => display j

end Json

end Scrawl
