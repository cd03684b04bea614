import Scrawl.Expression.Postfix
import Scrawl.Expression.Tree

/-!
# Expression/Scan — collecting the tokens of an expression

A scan holds the tokens of an expression up to now, with a node for each name and call.  A minus
sign where no operand has ended is a negation.  `Scan.tree` makes the tree once the tokens are all
there.
-/

namespace Scrawl

/-- **The part of an expression that was read.** -/
structure Scan where
  /-- How many parentheses are open. -/
  depth : Nat
  /-- The tokens, last first. -/
  recent : List Token
  /-- The nodes of the names and calls, last first. -/
  nodes : List Node
deriving Inhabited

/-- The tokens, last first, end with a complete operand.  A step closes an operand only when it
stands behind one. -/
def endsOperand (recent : List Token) : Bool :=
  match recent.dropWhile (·.kind.isStep) with
  | [] => false
  | t :: _ => t.kind.isOperand || t.kind = .functionWord || t.kind = .rightParen

namespace Scan

/-- Nothing read. -/
def empty : Scan := ⟨0, [], []⟩

/-- A kind that ends an expression with so many parentheses open. -/
def stopsAt (depth : Nat) : Kind → Bool
  | .endStatement | .endFile | .leftBrace | .rightBrace => true
  | .comma | .rightParen => depth = 0
  | _ => false

/-- A name or a call, with its node. -/
def operand (s : Scan) (t : Token) (n : Node) : Scan :=
  { s with recent := t :: s.recent, nodes := n :: s.nodes }

/-- A kind that cannot stand in an expression. -/
def isForeign (kind : Kind) : Bool :=
  kind = .returnWord || !(kind.isOperand || kind.isOperator)

/-- **One more token**, other than a name. -/
def push (s : Scan) (t : Token) : Except ParseError Scan :=
  if t.kind = .leftParen then .ok { s with depth := s.depth + 1, recent := t :: s.recent }
  else if t.kind = .rightParen then .ok { s with depth := s.depth - 1, recent := t :: s.recent }
  else if t.kind = .subtract && !endsOperand s.recent then
    .ok { s with recent := { t with kind := .negative } :: s.recent }
  else if isForeign t.kind then
    .error (.misplaced s!"Unexpected {t.describe} in expression" t.position)
  else .ok { s with recent := t :: s.recent }

/-- The tree of the tokens; none if there are none. -/
def tree (s : Scan) : Except ParseError Node := do
  if s.recent.isEmpty then return .absent
  return (← buildTree (← toPostfix s.recent.reverse) s.nodes.reverse).1

end Scan

end Scrawl
