import Scrawl.Text.Digit
import Scrawl.Token.Basic

/-!
# Token/Lexer — source text cut into tokens

`firstPiece` takes the first **piece** off a text: a run of white space, a comment, or a token.  Its
text is a nonempty start of the source (`firstPiece_text_ne_nil`), so `scan` ends; each token gets
the place that the text before it leads to.
-/

namespace Scrawl

/-- A character at which no piece starts, and its place. -/
structure LexError where
  found : Char
  position : Position
deriving DecidableEq, Repr

/-- The wording of a lexer error. -/
def LexError.message (e : LexError) : String :=
  s!"unexpected character {Text.quoted (String.singleton e.found)} at {e.position.text}"

namespace Lexer

open Text

/-- **A piece of source text.** -/
inductive Piece where
  /-- White space or a comment. -/
  | gap (text : List Char)
  /-- A token, with all its characters. -/
  | token (kind : Kind) (text : List Char)
deriving DecidableEq, Repr

/-- The characters of a piece. -/
def Piece.text : Piece → List Char
  | .gap text => text
  | .token _ text => text

/-- The lexeme of a token: a string literal loses its quotes. -/
def lexemeOf (kind : Kind) (text : List Char) : List Char :=
  if kind = .string then (text.drop 1).dropLast else text

/-- The token of a piece that starts at a place. -/
def Piece.token? (p : Position) : Piece → Option Token
  | .gap _ => none
  | .token kind text => some ⟨kind, String.ofList (lexemeOf kind text), p⟩

/-! ## The classes of characters -/

/-- White space between tokens. -/
def isSpace (c : Char) : Bool := c == ' ' || c == '\t' || c == '\x0c' || c == '\r' || c == '\n'

/-- A character that starts a word. -/
def isWordStart (c : Char) : Bool := c.isAlpha || c == '_'

/-- A character that goes on with a word. -/
def isWordPart (c : Char) : Bool := c.isAlphanum || c == '_'

/-- The spellings of operators and punctuation, the long ones first. -/
def symbols : List (List Char × Kind) := [
  (['+', '+'], .increment), (['-', '-'], .decrement), (['+', '='], .assignAdd),
  (['-', '='], .assignSubtract), (['*', '='], .assignMultiply), (['/', '='], .assignDivide),
  (['%', '='], .assignModulo), (['=', '='], .equal), (['!', '='], .notEqual),
  (['>', '='], .greaterEqual), (['<', '='], .lessEqual), (['&', '&'], .and), (['|', '|'], .or),
  (['+'], .add), (['-'], .subtract), (['*'], .multiply), (['/'], .divide), (['%'], .modulo),
  (['('], .leftParen), ([')'], .rightParen), (['\x7b'], .leftBrace), (['\x7d'], .rightBrace),
  ([','], .comma), (['='], .assign), (['>'], .greater), (['<'], .less), (['!'], .not),
  ([';'], .endStatement)]

/-! ## The first piece -/

/-- A word: a keyword or a name. -/
def wordPiece (cs : List Char) : Piece :=
  let text := cs.takeWhile isWordPart
  .token ((Kind.ofKeyword? (String.ofList text)).getD .identifier) text

/-- A number: digits, and a fraction if a point follows them. -/
def numberPiece (cs : List Char) : Piece :=
  let whole := cs.takeWhile isDecimal
  match cs.dropWhile isDecimal with
  | '.' :: rest => .token .float (whole ++ '.' :: rest.takeWhile isDecimal)
  | _ => .token .int whole

/-- A string literal, given what follows its opening quote; none without a closing quote. -/
def stringPiece? (rest : List Char) : Option Piece :=
  if rest.contains '"' then
    some (.token .string ('"' :: (rest.takeWhile (· != '"') ++ ['"'])))
  else none

/-- An operator or punctuation. -/
def symbolPiece? (cs : List Char) : Option Piece :=
  (symbols.find? fun (text, _) => text.isPrefixOf cs).map fun (text, kind) => .token kind text

/-- **The piece at the start of a text**, if there is one. -/
def firstPiece : List Char → Option Piece
  | [] => none
  | c :: rest =>
    if isWordStart c then some (wordPiece (c :: rest))
    else if isSpace c then some (.gap (c :: rest.takeWhile isSpace))
    else if c == '/' && rest.head? == some '/' then
      some (.gap (c :: rest.takeWhile (· != '\n')))
    else if isDecimal c then some (numberPiece (c :: rest))
    else if c == '"' then stringPiece? rest
    else symbolPiece? (c :: rest)

theorem symbols_ne_nil : ∀ s ∈ symbols, s.1 ≠ [] := by decide

theorem isWordPart_of_isWordStart {c : Char} (h : isWordStart c) : isWordPart c := by
  simp only [isWordStart, isWordPart, Char.isAlphanum, Bool.or_eq_true] at *
  rcases h with h | h <;> simp [h]

theorem wordPiece_text_ne_nil {c : Char} (h : isWordStart c) (rest : List Char) :
    (wordPiece (c :: rest)).text ≠ [] := by
  simp [wordPiece, Piece.text, isWordPart_of_isWordStart h]

theorem numberPiece_text_ne_nil {c : Char} (h : isDecimal c) (rest : List Char) :
    (numberPiece (c :: rest)).text ≠ [] := by
  unfold numberPiece
  split <;> simp [Piece.text, h]

theorem stringPiece?_text_ne_nil {rest : List Char} {p : Piece} (h : stringPiece? rest = some p) :
    p.text ≠ [] := by
  unfold stringPiece? at h
  split at h
  · cases h; simp [Piece.text]
  · cases h

theorem symbolPiece?_text_ne_nil {cs : List Char} {p : Piece} (h : symbolPiece? cs = some p) :
    p.text ≠ [] := by
  obtain ⟨s, hs, rfl⟩ := Option.map_eq_some_iff.1 h
  exact symbols_ne_nil s (List.mem_of_find?_eq_some hs)

/-- **A piece is not empty.** -/
theorem firstPiece_text_ne_nil {cs : List Char} {p : Piece} (h : firstPiece cs = some p) :
    p.text ≠ [] := by
  cases cs with
  | nil => cases h
  | cons c rest =>
    simp only [firstPiece] at h
    split at h
    · cases h; exact wordPiece_text_ne_nil ‹_› rest
    split at h
    · cases h; simp [Piece.text]
    split at h
    · cases h; simp [Piece.text]
    split at h
    · cases h; exact numberPiece_text_ne_nil ‹_› rest
    split at h
    · exact stringPiece?_text_ne_nil h
    · exact symbolPiece?_text_ne_nil h

/-! ## All pieces -/

/-- **The tokens of a text** that starts at a place. -/
def scan (cs : List Char) (p : Position) : Except LexError (List Token) :=
  match cs with
  | [] => .ok []
  | c :: rest =>
    match _h : firstPiece (c :: rest) with
    | none => .error ⟨c, p⟩
    | some piece =>
      match scan ((c :: rest).drop piece.text.length) (p.advance piece.text) with
      | .error e => .error e
      | .ok tokens => .ok ((piece.token? p).toList ++ tokens)
termination_by cs.length
decreasing_by
  have := List.length_pos_iff.2 (firstPiece_text_ne_nil _h)
  simp only [List.length_drop, List.length_cons]
  omega

end Lexer

/-- **The tokens of a source text.** -/
def tokenize (source : String) : Except LexError (List Token) :=
  Lexer.scan source.toList .start

end Scrawl
