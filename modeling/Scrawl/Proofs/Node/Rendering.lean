import Scrawl.Proofs.Expression.Grammar

/-!
# Proofs/Node/Rendering — the tokens that write a tree

`Node.programTokens` writes the tree of a program as tokens: each operator with its operands in
parentheses of its own, statements with their semicolons and braces.  The tokens of operators are
those of the tree, and `spell` gives the token of a literal's value.  `Node.unplaced` forgets where
the operators of a tree stood.
-/

namespace Scrawl

/-- The token that writes an operator: a negation is written as a minus sign. -/
def Token.asWritten (t : Token) : Token :=
  if t.kind = .negative then { t with kind := .subtract } else t

namespace Node

/-! ## Trees without places -/

mutual

/-- **The tree without the places of its operators.** -/
def unplaced : Node → Node
  | .absent => .absent
  | .value v => .value v
  | .block statements => .block (unplacedAll statements)
  | .variable name initializer isDefinition => .variable name initializer.unplaced isDefinition
  | .function name parameters body isDefinition =>
    .function name (unplacedAll parameters) body.unplaced isDefinition
  | .terminal content => .terminal content.unplaced
  | .unary operator operand => .unary operator.unplaced operand.unplaced
  | .binary operator left right => .binary operator.unplaced left.unplaced right.unplaced
  | .choice condition whenTrue whenFalse =>
    .choice condition.unplaced whenTrue.unplaced whenFalse.unplaced
  | .whileLoop condition body => .whileLoop condition.unplaced body.unplaced
  | .forLoop initialization condition update body =>
    .forLoop initialization.unplaced condition.unplaced update.unplaced body.unplaced

/-- …of every node of a list. -/
def unplacedAll : List Node → List Node
  | [] => []
  | n :: ns => n.unplaced :: unplacedAll ns

end

@[simp] theorem unplacedAll_eq_map : ∀ ns : List Node, unplacedAll ns = ns.map unplaced
  | [] => rfl
  | n :: ns => congrArg (n.unplaced :: ·) (unplacedAll_eq_map ns)

@[simp] theorem isPresent_unplaced (n : Node) : n.unplaced.isPresent = n.isPresent := by
  cases n <;> rfl

@[simp] theorem referenced?_unplaced (n : Node) : n.unplaced.referenced? = n.referenced? := by
  match n with
  | .variable _ _ true | .variable _ _ false => rfl
  | .absent | .value _ | .block _ | .function .. | .terminal _ | .unary .. | .binary ..
  | .choice .. | .whileLoop .. | .forLoop .. => rfl

/-! ## Expressions -/

variable (spell : Value → Token)

mutual

/-- **The tokens of an expression**; none for anything else. -/
def expressionTokens : Node → List Token
  | .terminal (.value v) => [spell v]
  | .variable name _ false => [.ofName name]
  | .function name arguments _ false =>
    .ofName name :: Kind.leftParen.token :: (argumentTokens arguments ++ [Kind.rightParen.token])
  | .unary operator operand =>
    Kind.leftParen.token :: operator.asWritten ::
      (operand.expressionTokens ++ [Kind.rightParen.token])
  | .binary operator left right =>
    Kind.leftParen.token :: (left.expressionTokens ++ operator ::
      (right.expressionTokens ++ [Kind.rightParen.token]))
  | _ => []

/-- The tokens of arguments, with commas between them. -/
def argumentTokens : List Node → List Token
  | [] => []
  | [n] => n.expressionTokens
  | n :: m :: ns => n.expressionTokens ++ Kind.comma.token :: argumentTokens (m :: ns)

end

/-! ## Statements -/

/-- The tokens of the initializer of a definition, which stands without parentheses. -/
def initializerTokens : Node → List Token
  | .binary operator left right =>
    left.expressionTokens spell ++ operator :: right.expressionTokens spell
  | n => n.expressionTokens spell

/-- The tokens of a returned expression; the void value is not written. -/
def returnedTokens : Node → List Token
  | .literal .void => []
  | n => n.expressionTokens spell

mutual

/-- **The tokens of a statement**, or of a block with its braces. -/
def statementTokens : Node → List Token
  | .block statements =>
    Kind.leftBrace.token :: (statementsTokens statements ++ [Kind.rightBrace.token])
  | .variable _ initializer true =>
    Kind.varWord.token :: (initializer.initializerTokens spell ++ [Kind.endStatement.token])
  | .function name parameters body true =>
    Kind.functionWord.token :: .ofName name :: Kind.leftParen.token ::
      (argumentTokens spell parameters ++ Kind.rightParen.token :: body.statementTokens)
  | .choice condition whenTrue whenFalse =>
    Kind.ifWord.token :: Kind.leftParen.token ::
      (condition.expressionTokens spell ++ Kind.rightParen.token ::
        (whenTrue.statementTokens ++
          if whenFalse.isPresent then Kind.elseWord.token :: whenFalse.statementTokens else []))
  | .whileLoop condition body =>
    Kind.whileWord.token :: Kind.leftParen.token ::
      (condition.expressionTokens spell ++ Kind.rightParen.token :: body.statementTokens)
  | .forLoop initialization condition update body =>
    Kind.forWord.token :: Kind.leftParen.token ::
      (initialization.statementTokens ++
        (condition.expressionTokens spell ++ Kind.endStatement.token ::
          (update.expressionTokens spell ++ Kind.rightParen.token :: body.statementTokens)))
  | .unary operator operand =>
    if operator.kind = .returnWord then
      operator :: (operand.returnedTokens spell ++ [Kind.endStatement.token])
    else (Node.unary operator operand).expressionTokens spell ++ [Kind.endStatement.token]
  | n => n.expressionTokens spell ++ [Kind.endStatement.token]

/-- The tokens of statements one after the other. -/
def statementsTokens : List Node → List Token
  | [] => []
  | n :: ns => n.statementTokens ++ statementsTokens ns

end

/-- **The tokens of a program.** -/
def programTokens : Node → List Token
  | .block statements => statementsTokens spell statements
  | _ => []

end Node

end Scrawl
