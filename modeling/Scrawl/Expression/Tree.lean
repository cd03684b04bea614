import Scrawl.Decimal.FloatText
import Scrawl.Node.Basic
import Scrawl.Parser.Cursor

/-!
# Expression/Tree — expression trees from operators behind operands

`buildTree` folds reordered tokens into a tree.  A literal becomes a terminal; a name or a call
takes the next node of a queue; an operator takes its operands off the stack.
-/

namespace Scrawl

open Decimal

/-- A number error is a parse error. -/
def ParseError.ofNumber {α : Type} : Except NumberError α → Except ParseError α
  | .ok a => .ok a
  | .error e => .error (.number e)

/-- **The value of a literal token.** -/
def Token.literal (t : Token) : Except ParseError Value :=
  match t.kind with
  | .int => (ParseError.ofNumber (readInteger t.lexeme)).map .int
  | .float => (ParseError.ofNumber (readFloat t.lexeme)).map .float
  | .string => .ok (.string t.lexeme)
  | .trueWord => .ok (.bool true)
  | .falseWord => .ok (.bool false)
  | _ => .error (.notLiteral t)

/-- The state of the folding. -/
structure Grove where
  /-- The trees built so far, last first. -/
  stack : List Node
  /-- The nodes for the names and calls to come. -/
  queue : List Node
deriving Inhabited

namespace Grove

/-- An operator without enough operands. -/
def missingOperand (t : Token) : ParseError :=
  .misplaced s!"Missing operand for '{t.lexeme}'" t.position

/-- **One token.** -/
def step (g : Grove) (t : Token) : Except ParseError Grove :=
  if t.kind = .identifier || t.kind = .functionWord then
    match g.queue with
    | [] => .error .noOperandLeft
    | n :: queue => .ok ⟨n :: g.stack, queue⟩
  else if t.kind.isOperand then
    t.literal.map fun v => { g with stack := .literal v :: g.stack }
  else if t.kind.isUnary then
    match g.stack with
    | [] => .error (missingOperand t)
    | n :: stack => .ok { g with stack := .unary t n :: stack }
  else
    match g.stack with
    | right :: left :: stack => .ok { g with stack := .binary t left right :: stack }
    | _ => .error (missingOperand t)

/-- The one tree at the end; none if there were no tokens. -/
def finish (tokens : List Token) (g : Grove) : Except ParseError Node :=
  match g.stack with
  | [] => .ok .absent
  | [n] => .ok n
  | _ =>
    .error (.misplaced "Missing operator in expression"
      ((tokens.head?.map Token.position).getD .none))

end Grove

/-- **The tree of reordered tokens**, and the nodes left in the queue. -/
def buildTree (tokens : List Token) (operands : List Node) :
    Except ParseError (Node × List Node) := do
  let g ← tokens.foldlM Grove.step ⟨[], operands⟩
  return (← g.finish tokens, g.queue)

end Scrawl
