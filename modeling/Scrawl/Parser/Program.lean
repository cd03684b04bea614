import Scrawl.Expression.Scan
import Scrawl.Token.Lexer

/-!
# Parser/Program — programs from tokens

Statements are parsed by the token they start with, down to expressions, which are scanned,
reordered and folded into trees.  The functions that call each other take **fuel**, a bound on the
length of the chain of calls; `Parser.fuelled` gives more than the tokens left can use up.
-/

namespace Scrawl

/-- The initializer of a definition is the name itself or an assignment to it. -/
def Node.defines (initializer : Node) (name : String) : Bool :=
  match initializer with
  | .binary operator left _ =>
    operator.kind = .assign && left.referenced? = some name
  | n => n.referenced? = some name

namespace Parser

/-- A variable reference. -/
def reference : Parser Node := do
  return .reference (← consume .identifier "Expected identifier").lexeme

/-- An expression that must not be empty. -/
def requireFrom (expression : Parser Node) (text : String) : Parser Node := do
  let n ← expression
  unless n.isPresent do complain text
  return n

mutual

/-- A statement; an expression statement may be empty. -/
def statementWith : Nat → Parser Node
  | 0 => throw .exhausted
  | fuel + 1 => do
    match (← peek).kind with
    | .ifWord => choiceWith fuel
    | .whileWord => whileWith fuel
    | .forWord => forWith fuel
    | .varWord => definitionWith fuel
    | .functionWord => functionWith fuel true
    | .returnWord => returnWith fuel
    | _ =>
      let n ← expressionWith fuel
      let _ ← consume .endStatement "Expected ';' after expression"
      return n

/-- Statements up to a closing brace, which is left where it is. -/
def statementsWith : Nat → Parser (List Node)
  | 0 => throw .exhausted
  | fuel + 1 => do
    if ← check .rightBrace then return []
    else if ← atEnd then complain "Expected '\x7d' to close block, reached end of input"
    else if ← check .endStatement then
      let _ ← advance
      statementsWith fuel
    else
      let n ← statementWith fuel
      return (if n.isPresent then [n] else []) ++ (← statementsWith fuel)

/-- Statements between braces. -/
def blockWith : Nat → Parser Node
  | 0 => throw .exhausted
  | fuel + 1 => do
    let _ ← consume .leftBrace "Expected '\x7b'"
    let statements ← statementsWith fuel
    let _ ← consume .rightBrace "Expected '\x7d'"
    return .block statements

/-- A choice, with another choice or a block behind `else`. -/
def choiceWith : Nat → Parser Node
  | 0 => throw .exhausted
  | fuel + 1 => do
    let _ ← consume .ifWord "Expected 'if'"
    let _ ← consume .leftParen "Expected '(' after 'if'"
    let condition ← requireFrom (expressionWith fuel) "Expected condition after 'if ('"
    let _ ← consume .rightParen "Expected ')' after 'if' condition"
    let whenTrue ← blockWith fuel
    if ← check .elseWord then
      let _ ← advance
      if ← check .ifWord then return .choice condition whenTrue (← choiceWith fuel)
      else return .choice condition whenTrue (← blockWith fuel)
    else return .choice condition whenTrue .absent

/-- A loop with a condition. -/
def whileWith : Nat → Parser Node
  | 0 => throw .exhausted
  | fuel + 1 => do
    let _ ← consume .whileWord "Expected 'while'"
    let _ ← consume .leftParen "Expected '(' after 'while'"
    let condition ← requireFrom (expressionWith fuel) "Expected condition after 'while ('"
    let _ ← consume .rightParen "Expected ')' after 'while' condition"
    return .whileLoop condition (← blockWith fuel)

/-- A loop with three clauses; the first is a statement and brings its own semicolon. -/
def forWith : Nat → Parser Node
  | 0 => throw .exhausted
  | fuel + 1 => do
    let _ ← consume .forWord "Expected 'for'"
    let _ ← consume .leftParen "Expected '(' after 'for'"
    let initialization ← statementWith fuel
    let condition ← expressionWith fuel
    let _ ← consume .endStatement "Expected ';' after 'for' condition"
    let update ← expressionWith fuel
    let _ ← consume .rightParen "Expected ')' after 'for' clauses"
    return .forLoop initialization condition update (← blockWith fuel)

/-- A variable definition. -/
def definitionWith : Nat → Parser Node
  | 0 => throw .exhausted
  | fuel + 1 => do
    let _ ← consume .varWord "Expected 'var'"
    let name ← peek
    unless name.kind = .identifier do complain "Expected variable name after 'var'"
    let initializer ← expressionWith fuel
    unless initializer.defines name.lexeme do
      throw (.misplaced s!"Invalid definition of variable '{name.lexeme}'" name.position)
    let _ ← consume .endStatement "Expected ';' after variable definition"
    return .variable name.lexeme initializer true

/-- A function definition, or a call. -/
def functionWith : Nat → Bool → Parser Node
  | 0, _ => throw .exhausted
  | fuel + 1, isDefinition => do
    if isDefinition then
      let _ ← consume .functionWord "Expected 'function'"
    let name ← consume .identifier "Expected function name"
    let _ ← consume .leftParen s!"Expected '(' after '{name.lexeme}'"
    let parameters ← parametersWith fuel name isDefinition
    let _ ← consume .rightParen s!"Expected ')' after parameters of '{name.lexeme}'"
    let body ← if isDefinition then blockWith fuel else pure .absent
    return .function name.lexeme parameters body isDefinition

/-- Parameters or arguments up to a closing parenthesis, which is left where it is. -/
def parametersWith : Nat → Token → Bool → Parser (List Node)
  | 0, _, _ => throw .exhausted
  | fuel + 1, name, isDefinition => do
    if ← check .rightParen then return []
    else
      let n ← requireFrom (expressionWith fuel) s!"Expected parameter in '{name.lexeme}'"
      if isDefinition && n.referenced?.isNone then
        throw (.misplaced s!"Function parameter must be an identifier in '{name.lexeme}'"
          name.position)
      if ← check .comma then
        let _ ← advance
      else unless ← check .rightParen do
        complain s!"Expected ',' or ')' in '{name.lexeme}'"
      return n :: (← parametersWith fuel name isDefinition)

/-- A return; without a value it returns the void value. -/
def returnWith : Nat → Parser Node
  | 0 => throw .exhausted
  | fuel + 1 => do
    let token ← consume .returnWord "Expected 'return'"
    let n ← expressionWith fuel
    let _ ← consume .endStatement "Expected ';' after return value"
    return .unary token (if n.isPresent then n else .literal .void)

/-- **An expression**, or nothing. -/
def expressionWith : Nat → Parser Node
  | 0 => throw .exhausted
  | fuel + 1 => do
    let scan ← scanWith fuel .empty
    unless scan.depth = 0 do complain "Expected ')' to close '('"
    ofExcept scan.tree

/-- The tokens up to the end of an expression, calls parsed on the way. -/
def scanWith : Nat → Scan → Parser Scan
  | 0, _ => throw .exhausted
  | fuel + 1, scan => do
    let token ← peek
    if Scan.stopsAt scan.depth token.kind then return scan
    else if token.kind = .identifier then
      if (← ahead 1).kind = .leftParen then
        let n ← functionWith fuel false
        scanWith fuel (scan.operand { token with kind := .functionWord } n)
      else
        let n ← reference
        scanWith fuel (scan.operand token n)
    else
      let _ ← advance
      let scan ← ofExcept (scan.push token)
      scanWith fuel scan

end

/-- Statements up to the end of the tokens. -/
def programWith : Nat → Parser (List Node)
  | 0 => throw .exhausted
  | fuel + 1 => do
    if ← atEnd then return []
    else if ← check .endStatement then
      let _ ← advance
      programWith fuel
    else
      let n ← statementWith fuel
      return (if n.isPresent then [n] else []) ++ (← programWith fuel)

/-- More fuel than a cursor's tokens can use up. -/
def fuelFor (c : Cursor) : Nat := 8 * c.rest.length + 8

/-- A parser with enough fuel. -/
def fuelled {α : Type} (p : Nat → Parser α) : Parser α := do p (fuelFor (← get))

/-- A statement. -/
def statement : Parser Node := fuelled statementWith

/-- A block. -/
def block : Parser Node := fuelled blockWith

/-- A choice. -/
def choice : Parser Node := fuelled choiceWith

/-- A loop with a condition. -/
def whileLoop : Parser Node := fuelled whileWith

/-- A loop with three clauses. -/
def forLoop : Parser Node := fuelled forWith

/-- A variable definition. -/
def definition : Parser Node := fuelled definitionWith

/-- A function definition, or a call. -/
def function (isDefinition : Bool) : Parser Node := fuelled (functionWith · isDefinition)

/-- A return. -/
def returnStatement : Parser Node := fuelled returnWith

/-- An expression, or nothing. -/
def expression : Parser Node := fuelled expressionWith

/-- An expression that must not be empty. -/
def require (text : String) : Parser Node := requireFrom expression text

/-- **A whole program.** -/
def program : Parser Node := do return .block (← fuelled programWith)

end Parser

/-- **The tree of a list of tokens.** -/
def parse (tokens : List Token) : Except ParseError Node :=
  (Parser.program.run (.ofTokens tokens)).1

/-- Why a source text is no program. -/
inductive SourceError where
  | lexer (error : LexError)
  | parser (error : ParseError)
deriving DecidableEq, Repr

/-- The wording of a source error. -/
def SourceError.message : SourceError → String
  | .lexer error => error.message
  | .parser error => error.message

/-- The tokens of a source text and their tree. -/
def parseSource (source : String) : Except SourceError (List Token × Node) :=
  match tokenize source with
  | .error e => .error (.lexer e)
  | .ok tokens =>
    match parse tokens with
    | .error e => .error (.parser e)
    | .ok program => .ok (tokens, program)

/-- **The tree of a source text.** -/
def parseProgram (source : String) : Except SourceError Node :=
  (parseSource source).map (·.2)

end Scrawl
