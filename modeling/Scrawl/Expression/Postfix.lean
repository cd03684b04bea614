import Scrawl.Parser.Cursor

/-!
# Expression/Postfix — operators behind their operands

`toPostfix` reorders the tokens of an expression so that each operator comes behind its operands and
the parentheses are gone.  It keeps a **yard**: the tokens that are out, the operators and open
parentheses that wait, and whether the last token ended an operand, which decides if a step
stands behind an operand or before one.
-/

namespace Scrawl

/-- The state of the reordering. -/
structure Yard where
  /-- The tokens that are out, last first. -/
  out : List Token
  /-- The operators and open parentheses that wait, last first. -/
  waiting : List Token
  /-- The last token ended an operand. -/
  afterOperand : Bool
deriving DecidableEq, Repr, Inhabited

namespace Yard

/-- Before the first token. -/
def empty : Yard := ⟨[], [], false⟩

/-- Lets out the waiting tokens up to the first that fails a test. -/
def release (goes : Token → Bool) (y : Yard) : Yard :=
  { y with out := (y.waiting.takeWhile goes).reverse ++ y.out, waiting := y.waiting.dropWhile goes }

/-- A token that is no open parenthesis. -/
def isInside (t : Token) : Bool := t.kind != .leftParen

/-- A waiting operator that binds at least as tightly as a kind. -/
def bindsBefore (kind : Kind) (t : Token) : Bool :=
  isInside t && t.kind.precedence ≤ kind.precedence

/-- **One token.** -/
def step (y : Yard) (t : Token) : Except ParseError Yard :=
  if t.kind.isOperand || t.kind = .functionWord then
    .ok { y with out := t :: y.out, afterOperand := true }
  else if t.kind = .leftParen then
    .ok { y with waiting := t :: y.waiting, afterOperand := false }
  else if t.kind = .rightParen then
    let y := y.release isInside
    match y.waiting with
    | [] => .error (.misplaced "Unmatched ')'" t.position)
    | _ :: waiting => .ok { y with waiting := waiting, afterOperand := true }
  else if t.kind.isStep && y.afterOperand then
    .ok { y with out := t :: y.out }
  else if t.kind.isUnary then
    .ok { y with waiting := t :: y.waiting, afterOperand := false }
  else
    let y := y.release (bindsBefore t.kind)
    .ok { y with waiting := t :: y.waiting, afterOperand := false }

/-- The tokens in order at the end, when no parenthesis is left open. -/
def finish (y : Yard) : Except ParseError (List Token) :=
  let y := y.release isInside
  match y.waiting with
  | [] => .ok y.out.reverse
  | t :: _ => .error (.misplaced "Expected ')' to close '('" t.position)

end Yard

/-- **The tokens of an expression with each operator behind its operands.** -/
def toPostfix (tokens : List Token) : Except ParseError (List Token) := do
  (← tokens.foldlM Yard.step .empty).finish

end Scrawl
