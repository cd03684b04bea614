import Scrawl.Decimal.Numeral
import Scrawl.Token.Basic

/-!
# Parser/Cursor — reading a list of tokens

A **cursor** holds the tokens not yet taken.  Behind the last one there is no end of end-of-input
tokens, placed where the last token stops.  A parser is a computation on a cursor that may fail;
the cursor stays where it was when it does.
-/

namespace Scrawl

/-- Why tokens are no program. -/
inductive ParseError where
  /-- Another token was wanted here. -/
  | unmet (expectation : String) (found : Token)
  /-- Something is wrong at a place. -/
  | misplaced (complaint : String) (position : Position)
  /-- A token that stands for no value. -/
  | notLiteral (token : Token)
  | number (error : Decimal.NumberError)
  /-- More names than nodes for them. -/
  | noOperandLeft
  /-- The parser's steps ran out; there are always enough. -/
  | exhausted
deriving DecidableEq, Repr

/-- The wording of a parse error. -/
def ParseError.message : ParseError → String
  | .unmet expectation found => s!"{expectation} at {found.position.text}, got {found.describe}"
  | .misplaced complaint position => s!"{complaint} at {position.text}"
  | .notLiteral token => s!"{token.describe} is not a literal"
  | .number error => error.message
  | .noOperandLeft => "pop from an empty deque"
  | .exhausted => "exhausted"

/-- **A place in a list of tokens.** -/
structure Cursor where
  /-- The tokens from here on. -/
  rest : List Token
  /-- How many tokens were taken. -/
  taken : Nat
  /-- What stands behind the last token. -/
  finish : Token
deriving DecidableEq, Repr, Inhabited

namespace Cursor

/-- The end-of-input token behind some tokens. -/
def finishOf (tokens : List Token) : Token :=
  ⟨.endFile, "", (tokens.getLast?.map Token.stop).getD .none⟩

/-- The start of a list of tokens. -/
def ofTokens (tokens : List Token) : Cursor := ⟨tokens, 0, finishOf tokens⟩

/-- The token some places ahead. -/
def ahead (c : Cursor) (offset : Nat) : Token := c.rest[offset]?.getD c.finish

/-- The next token. -/
def peek (c : Cursor) : Token := c.ahead 0

/-- The cursor behind the next token. -/
def next (c : Cursor) : Cursor := { c with rest := c.rest.drop 1, taken := c.taken + 1 }

end Cursor

/-- **A computation on a cursor that may fail.** -/
abbrev Parser := ExceptT ParseError (StateM Cursor)

namespace Parser

/-- All tokens are taken. -/
def atEnd : Parser Bool := do return (← get).rest.isEmpty

/-- The token some places ahead, left where it is. -/
def ahead (offset : Nat) : Parser Token := do return (← get).ahead offset

/-- The next token, left where it is. -/
def peek : Parser Token := ahead 0

/-- Takes the next token, unless all are taken. -/
def advance : Parser Token := do
  let c ← get
  unless c.rest.isEmpty do set c.next
  return c.peek

/-- Whether the next token is of a kind. -/
def check (kind : Kind) : Parser Bool := do return (← peek).kind = kind

/-- Takes a token of a kind, or fails with what was wanted. -/
def consume (kind : Kind) (expectation : String) : Parser Token := do
  let c ← get
  if c.peek.kind = kind then
    set c.next
    return c.peek
  else throw (.unmet expectation c.peek)

/-- A complaint about the next token. -/
def complaint (text : String) : Parser ParseError := do
  return .misplaced text (← peek).position

/-- Fails with a complaint about the next token. -/
def complain {α : Type} (text : String) : Parser α := do throw (← complaint text)

/-- An outcome computed without looking at the tokens. -/
def ofExcept {α : Type} : Except ParseError α → Parser α
  | .ok a => pure a
  | .error e => throw e

end Parser

end Scrawl
