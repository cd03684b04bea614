/-!
# Token/Kind — the kinds of token, and which of them are operators

Every kind has a name and a spelling.  The **precedence ladder** `precedence?` gives operators a
level, lower binding tighter; a kind is an operator exactly when it stands on the ladder.
-/

namespace Scrawl

/-- **The kind of a token.** -/
inductive Kind where
  | ifWord | elseWord | whileWord | forWord | functionWord | varWord | returnWord
  | trueWord | falseWord
  | int | float | string
  | add | subtract | multiply | divide | modulo | negative | increment | decrement
  | leftParen | rightParen | leftBrace | rightBrace | comma
  | assign | assignAdd | assignSubtract | assignMultiply | assignDivide | assignModulo
  | equal | notEqual | greater | less | greaterEqual | lessEqual
  | and | or | not
  | endStatement | endFile | identifier
deriving DecidableEq, Repr, Inhabited

namespace Kind

/-- Every kind. -/
def all : List Kind := [
  ifWord, elseWord, whileWord, forWord, functionWord, varWord, returnWord, trueWord, falseWord,
  int, float, string, add, subtract, multiply, divide, modulo, negative, increment, decrement,
  leftParen, rightParen, leftBrace, rightBrace, comma,
  assign, assignAdd, assignSubtract, assignMultiply, assignDivide, assignModulo,
  equal, notEqual, greater, less, greaterEqual, lessEqual, and, or, not,
  endStatement, endFile, identifier]

/-- The name of a kind. -/
def name : Kind → String
  | ifWord => "IF"
  | elseWord => "ELSE"
  | whileWord => "WHILE"
  | forWord => "FOR"
  | functionWord => "FUNCTION"
  | varWord => "VAR"
  | returnWord => "RETURN"
  | trueWord => "TRUE"
  | falseWord => "FALSE"
  | int => "INT"
  | float => "FLOAT"
  | string => "STRING"
  | add => "ADD"
  | subtract => "SUBTRACT"
  | multiply => "MULTIPLY"
  | divide => "DIVIDE"
  | modulo => "MODULO"
  | negative => "NEGATIVE"
  | increment => "INCREMENT"
  | decrement => "DECREMENT"
  | leftParen => "LEFT_PARENTHESIS"
  | rightParen => "RIGHT_PARENTHESIS"
  | leftBrace => "LEFT_BRACKET"
  | rightBrace => "RIGHT_BRACKET"
  | comma => "COMMA"
  | assign => "ASSIGN"
  | assignAdd => "ASSIGN_ADD"
  | assignSubtract => "ASSIGN_SUBTRACT"
  | assignMultiply => "ASSIGN_MULTIPLY"
  | assignDivide => "ASSIGN_DIVIDE"
  | assignModulo => "ASSIGN_MODULO"
  | equal => "EQUAL"
  | notEqual => "NOT_EQUAL"
  | greater => "GREATER_THAN"
  | less => "LESS_THAN"
  | greaterEqual => "GREATER_THAN_OR_EQUAL"
  | lessEqual => "LESS_THAN_OR_EQUAL"
  | and => "AND"
  | or => "OR"
  | not => "NOT"
  | endStatement => "END_STATEMENT"
  | endFile => "END_FILE"
  | identifier => "IDENTIFIER"

/-- The kind with a name. -/
def ofName? (name : String) : Option Kind := all.find? (·.name = name)

/-- The keywords and their kinds. -/
def keywords : List (String × Kind) := [
  ("if", ifWord), ("else", elseWord), ("while", whileWord), ("for", forWord),
  ("function", functionWord), ("var", varWord), ("return", returnWord), ("true", trueWord),
  ("false", falseWord)]

/-- The kind of a keyword. -/
def ofKeyword? (word : String) : Option Kind := keywords.lookup word

/-- **The spelling of a kind whose tokens are all spelled alike.**  A negation shares its sign with
the subtraction. -/
def spelling? : Kind → Option String
  | ifWord => some "if"
  | elseWord => some "else"
  | whileWord => some "while"
  | forWord => some "for"
  | functionWord => some "function"
  | varWord => some "var"
  | returnWord => some "return"
  | trueWord => some "true"
  | falseWord => some "false"
  | add => some "+"
  | subtract => some "-"
  | multiply => some "*"
  | divide => some "/"
  | modulo => some "%"
  | negative => some "-"
  | increment => some "++"
  | decrement => some "--"
  | leftParen => some "("
  | rightParen => some ")"
  | leftBrace => some "\x7b"
  | rightBrace => some "\x7d"
  | comma => some ","
  | assign => some "="
  | assignAdd => some "+="
  | assignSubtract => some "-="
  | assignMultiply => some "*="
  | assignDivide => some "/="
  | assignModulo => some "%="
  | equal => some "=="
  | notEqual => some "!="
  | greater => some ">"
  | less => some "<"
  | greaterEqual => some ">="
  | lessEqual => some "<="
  | and => some "&&"
  | or => some "||"
  | not => some "!"
  | endStatement => some ";"
  | int | float | string | endFile | identifier => none

/-- What messages call a kind: its spelling, or else its name in small letters. -/
def symbol (k : Kind) : String :=
  k.spelling?.getD (String.ofList (k.name.toList.map Char.toLower))

/-- A name or a literal: a kind that is an operand on its own. -/
def isOperand : Kind → Bool
  | identifier | int | float | string | trueWord | falseWord => true
  | _ => false

/-- An operator with one operand. -/
def isUnary : Kind → Bool
  | not | negative | increment | decrement | returnWord => true
  | _ => false

/-- An operator that stores into its left operand. -/
def isAssign : Kind → Bool
  | assign | assignAdd | assignSubtract | assignMultiply | assignDivide | assignModulo => true
  | _ => false

/-- A step up or down, which may stand before or behind its operand. -/
def isStep : Kind → Bool
  | increment | decrement => true
  | _ => false

/-- **The precedence ladder**: lower levels bind tighter. -/
def precedence? : Kind → Option Nat
  | not | negative | increment | decrement | returnWord => some 1
  | multiply | divide | modulo => some 2
  | add | subtract => some 3
  | less | greater | lessEqual | greaterEqual => some 4
  | equal | notEqual => some 5
  | and => some 6
  | or => some 7
  | assign | assignAdd | assignSubtract | assignMultiply | assignDivide | assignModulo => some 8
  | _ => none

/-- A kind on the ladder. -/
def isOperator (k : Kind) : Bool := k.precedence?.isSome

/-- The level of a kind, `-1` off the ladder. -/
def precedence (k : Kind) : Int := (k.precedence?.map Int.ofNat).getD (-1)

end Kind

end Scrawl
