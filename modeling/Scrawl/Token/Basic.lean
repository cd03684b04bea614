import Scrawl.Token.Kind
import Scrawl.Text.Quoted

/-!
# Token/Basic — tokens and their places

A token is a kind and a lexeme with the place where it starts.  Places only serve messages:
`unplaced` is what is left of a token without its own.
-/

namespace Scrawl

/-- A line and a column of a text, both counted from one; zero stands for nowhere. -/
structure Position where
  line : Nat
  column : Nat
deriving DecidableEq, Repr, Inhabited

/-- Nowhere. -/
def Position.none : Position := ⟨0, 0⟩

/-- Where a text starts. -/
def Position.start : Position := ⟨1, 1⟩

/-- The place behind a character. -/
def Position.after (p : Position) (c : Char) : Position :=
  if c = '\n' then ⟨p.line + 1, 1⟩ else ⟨p.line, p.column + 1⟩

/-- The place behind some characters. -/
def Position.advance (p : Position) (cs : List Char) : Position := cs.foldl Position.after p

/-- A place as messages give it. -/
def Position.text (p : Position) : String := s!"{p.line}:{p.column}"

/-- **A token.**  The lexeme of a string literal has no quotes. -/
structure Token where
  kind : Kind
  lexeme : String
  position : Position
deriving DecidableEq, Repr, Inhabited

namespace Token

/-- The token without its place. -/
def unplaced (t : Token) : Token := { t with position := .none }

/-- The place behind the lexeme, which is taken to stand on one line. -/
def stop (t : Token) : Position := ⟨t.position.line, t.position.column + t.lexeme.length⟩

/-- A token with the name of its kind. -/
def display (t : Token) : String := s!"Token({t.kind.name}, {Text.quoted t.lexeme})"

/-- What syntax errors call a token. -/
def describe (t : Token) : String :=
  if t.kind = .endFile then "end of input" else Text.quoted t.lexeme

end Token

end Scrawl
