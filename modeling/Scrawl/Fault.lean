import Scrawl.Node.Basic

/-!
# Fault — what can go wrong while a program runs

A fault is a cause with the data that its message shows.  The first group are errors of the program;
the second come from numbers that outgrow their text or a double, and from trees that outgrow their
drawing; the last arise only for trees that no program parses to, and for frames popped out of turn.
-/

namespace Scrawl

/-- What a name was looked up as. -/
inductive NameSort where
  | variable | function
deriving DecidableEq, Repr, Inhabited

/-- How messages write a sort of name. -/
def NameSort.text : NameSort → String
  | .variable => "Variable"
  | .function => "Function"

/-- What was being done with a node. -/
inductive Activity where
  | visiting | evaluating | listing
deriving DecidableEq, Repr, Inhabited

/-- How messages write an activity. -/
def Activity.text : Activity → String
  | .visiting => "visit"
  | .evaluating => "evaluate"
  | .listing => "children"

/-- A part that a node may lack. -/
inductive Part where
  | label | text | sort | name
deriving DecidableEq, Repr, Inhabited

/-- How messages write a part. -/
def Part.word : Part → String
  | .label => "label"
  | .text => "to_string"
  | .sort => "type_name"
  | .name => "identifier"

/-- **Why a run failed.** -/
inductive Fault where
  /-- A name without a binding. -/
  | undefined (sort : NameSort) (name : String)
  /-- A call with the wrong number of arguments. -/
  | arity (name : String) (expected actual : Nat)
  /-- An operator on operands of the wrong sorts. -/
  | operands (symbol : String) (left : ValueSort) (right : Option ValueSort)
  | divisionByZero
  | moduloByZero
  /-- A choice on something else than a boolean. -/
  | condition (sort : ValueSort)
  /-- A return outside of every function. -/
  | strayReturn
  /-- An assignment to something else than a variable. -/
  | unassignable (operator : String)
  /-- A step up or down of something else than a variable. -/
  | unsteppable (operator : String)
  /-- A random number below something else than an integer. -/
  | boundSort (sort : ValueSort)
  /-- A random number below zero or less. -/
  | bound (n : Int)
  /-- Calls nested too deep. -/
  | callDepth
  | number (error : Decimal.NumberError)
  /-- A tree with too many levels to be drawn. -/
  | tooManyLevels
  /-- The global frame was to be popped. -/
  | globalFrame
  /-- A node of a shape that cannot be dealt with. -/
  | unexpected (activity : Activity) (shape : Shape)
  /-- A node without a part that was asked for. -/
  | lacking (shape : Shape) (part : Part)
deriving DecidableEq, Repr

/-- The wording of a fault. -/
def Fault.message : Fault → String
  | .undefined sort name => s!"{sort.text} {name} is not defined in this scope"
  | .arity name expected actual =>
    let amount := if actual < expected then "few" else "many"
    s!"Too {amount} arguments to function '{name}'. Expected: {expected}, Actual: {actual}"
  | .operands _ .void _ => "cannot evaluate type 'void'"
  | .operands symbol left none => s!"invalid operand for expression: {symbol}'{left.name}'"
  | .operands symbol left (some right) =>
    s!"invalid operands for expression: '{left.name}' {symbol} '{right.name}'"
  | .divisionByZero => "division by zero"
  | .moduloByZero => "modulo by zero"
  | .condition sort => s!"If condition must be a boolean expression, got '{sort.name}'"
  | .strayReturn => "Return is not allowed here"
  | .unassignable operator => s!"Left side of '{operator}' is not assignable"
  | .unsteppable operator => s!"Expression is not assignable with '{operator}'"
  | .boundSort sort => s!"Invalid parameter type. Expected: 'int', Actual: '{sort.name}'"
  | .bound n => s!"rand expects a positive bound, got {n}"
  | .callDepth | .tooManyLevels => "maximum recursion depth exceeded"
  | .number error => error.message
  | .globalFrame => "cannot pop the global frame"
  | .unexpected activity shape =>
    s!"{activity.text}: unexpected node type <class '{shape.fullName}'>"
  | .lacking shape part => s!"'{shape.name}' object has no attribute '{part.word}'"

/-- A number error is a fault. -/
def Fault.ofNumber {α : Type} : Except Decimal.NumberError α → Except Fault α
  | .ok a => .ok a
  | .error e => .error (.number e)

end Scrawl
