import Scrawl.Token.Basic
import Scrawl.Value.Basic

/-!
# Node/Basic — syntax trees

A program is a tree of **nodes**.  Variables and functions serve two purposes each: a node that is a
definition introduces the name, one that is not refers to it or calls it.  Trees that come from a
document may be incomplete, so a place in the tree can be `absent` or hold a bare value; the trees
of parsed programs have neither, except for optional children and the contents of terminals.
-/

namespace Scrawl

/-- **A node of a syntax tree.** -/
inductive Node where
  /-- Nothing stands here. -/
  | absent
  /-- A value stands here by itself. -/
  | value (v : Value)
  /-- Statements in order. -/
  | block (statements : List Node)
  /-- A variable; a definition may have an initializer. -/
  | variable (name : String) (initializer : Node) (isDefinition : Bool)
  /-- A function definition with its parameters and body, or a call with its arguments. -/
  | function (name : String) (parameters : List Node) (body : Node) (isDefinition : Bool)
  /-- A literal; its content is a value. -/
  | terminal (content : Node)
  /-- An operator with its operand. -/
  | unary (operator : Token) (operand : Node)
  /-- An operator between its operands. -/
  | binary (operator : Token) (left right : Node)
  /-- A choice between two bodies, the second of which may be absent. -/
  | choice (condition whenTrue whenFalse : Node)
  /-- A loop with its condition. -/
  | whileLoop (condition body : Node)
  /-- A loop whose first three parts may be absent. -/
  | forLoop (initialization condition update body : Node)
deriving Inhabited

/-- The shape of a node: its outermost constructor, with the sort of a bare value. -/
inductive Shape where
  | absent
  | value (sort : ValueSort)
  | block | variable | function | terminal | unary | binary | choice | whileLoop | forLoop
deriving DecidableEq, Repr, Inhabited

/-- What messages call a shape. -/
def Shape.name : Shape → String
  | .absent => "NoneType"
  | .value .int => "IntValue"
  | .value .float => "FloatValue"
  | .value .string => "StringValue"
  | .value .bool => "BoolValue"
  | .value .void => "VoidValue"
  | .block => "Block"
  | .variable => "Variable"
  | .function => "Function"
  | .terminal => "Terminal"
  | .unary => "Unary"
  | .binary => "Binary"
  | .choice => "If"
  | .whileLoop => "While"
  | .forLoop => "For"

/-- The name of a shape with the family it belongs to. -/
def Shape.fullName : Shape → String
  | .absent => "NoneType"
  | .value sort => "scrawl.types." ++ (Shape.value sort).name
  | shape => "scrawl.ast." ++ shape.name

namespace Node

/-- The shape of a node. -/
def shape : Node → Shape
  | .absent => .absent
  | .value v => .value v.sort
  | .block .. => .block
  | .variable .. => .variable
  | .function .. => .function
  | .terminal .. => .terminal
  | .unary .. => .unary
  | .binary .. => .binary
  | .choice .. => .choice
  | .whileLoop .. => .whileLoop
  | .forLoop .. => .forLoop

/-- A literal with a value. -/
@[match_pattern] def literal (v : Value) : Node := .terminal (.value v)

/-- A reference to a variable. -/
@[match_pattern] def reference (name : String) : Node := .variable name .absent false

/-- A call. -/
@[match_pattern] def call (name : String) (arguments : List Node) : Node :=
  .function name arguments .absent false

/-- The name of the variable that a node refers to. -/
def referenced? : Node → Option String
  | .variable name _ false => some name
  | _ => none

/-- The name that a variable or a function carries. -/
def name? : Node → Option String
  | .variable name .. => some name
  | .function name .. => some name
  | _ => none

/-- A node that is there. -/
def isPresent : Node → Bool
  | .absent => false
  | _ => true

end Node

end Scrawl
