import Scrawl.Expression.Tree

/-!
# Proofs/Node/Formed — the trees of programs

Which nodes are expressions, statements and programs.  The classes take a parameter `L`, the values
that may stand as literals: `Value.IsLiteral` is the class of those that some token writes.
-/

namespace Scrawl

/-- An operator that stands before its operand in an expression. -/
def Kind.isLeading : Kind → Bool
  | not | negative | increment | decrement => true
  | _ => false

/-- An operator that stands between its operands. -/
def Kind.isInfix (k : Kind) : Bool := k.isOperator && !k.isUnary

/-- A literal token. -/
def Kind.isLiteral : Kind → Bool
  | int | float | string | trueWord | falseWord => true
  | _ => false

/-- **A literal token that stands for a value.** -/
structure Token.StandsFor (t : Token) (v : Value) : Prop where
  kind : t.kind.isLiteral
  literal : t.literal = .ok v

/-- A value that a literal token stands for. -/
def Value.IsLiteral (v : Value) : Prop := ∃ t : Token, t.StandsFor v

namespace Node

variable (L : Value → Prop)

/-- **The trees of expressions.** -/
inductive IsExpression : Node → Prop
  | literal {v : Value} (h : L v) : IsExpression (.literal v)
  | reference (name : String) : IsExpression (.reference name)
  | call (name : String) {arguments : List Node} (h : ∀ a ∈ arguments, IsExpression a) :
      IsExpression (.call name arguments)
  | unary {operator : Token} {operand : Node} (hk : operator.kind.isLeading)
      (h : IsExpression operand) : IsExpression (.unary operator operand)
  | binary {operator : Token} {left right : Node} (hk : operator.kind.isInfix)
      (hl : IsExpression left) (hr : IsExpression right) :
      IsExpression (.binary operator left right)

/-- **The trees of statements.** -/
inductive IsStatement : Node → Prop
  | expression {e : Node} (h : e.IsExpression L) : IsStatement e
  | declaration (name : String) : IsStatement (.variable name (.reference name) true)
  | definition (name : String) {operator : Token} {e : Node} (hk : operator.kind = .assign)
      (h : e.IsExpression L) :
      IsStatement (.variable name (.binary operator (.reference name) e) true)
  | function (name : String) {parameters body : List Node}
      (hp : ∀ p ∈ parameters, ∃ x, p = .reference x) (h : ∀ n ∈ body, IsStatement n) :
      IsStatement (.function name parameters (.block body) true)
  | returnVoid {operator : Token} (hk : operator.kind = .returnWord) :
      IsStatement (.unary operator (.literal .void))
  | returnValue {operator : Token} {e : Node} (hk : operator.kind = .returnWord)
      (h : e.IsExpression L) : IsStatement (.unary operator e)
  | choice {condition : Node} {whenTrue : List Node} (hc : condition.IsExpression L)
      (ht : ∀ n ∈ whenTrue, IsStatement n) :
      IsStatement (.choice condition (.block whenTrue) .absent)
  | choiceElse {condition : Node} {whenTrue whenFalse : List Node}
      (hc : condition.IsExpression L) (ht : ∀ n ∈ whenTrue, IsStatement n)
      (hf : ∀ n ∈ whenFalse, IsStatement n) :
      IsStatement (.choice condition (.block whenTrue) (.block whenFalse))
  | choiceChain {condition c t f : Node} {whenTrue : List Node}
      (hc : condition.IsExpression L) (ht : ∀ n ∈ whenTrue, IsStatement n)
      (hf : IsStatement (.choice c t f)) :
      IsStatement (.choice condition (.block whenTrue) (.choice c t f))
  | whileLoop {condition : Node} {body : List Node} (hc : condition.IsExpression L)
      (h : ∀ n ∈ body, IsStatement n) : IsStatement (.whileLoop condition (.block body))
  | forLoop {initialization condition update : Node} {body : List Node}
      (hi : initialization ≠ .absent → IsStatement initialization)
      (hc : condition ≠ .absent → condition.IsExpression L)
      (hu : update ≠ .absent → update.IsExpression L) (h : ∀ n ∈ body, IsStatement n) :
      IsStatement (.forLoop initialization condition update (.block body))

/-- **The trees of programs**: blocks of statements. -/
inductive IsProgram : Node → Prop
  | intro {statements : List Node} (h : ∀ n ∈ statements, n.IsStatement L) :
      IsProgram (.block statements)

/-! ## Other literals -/

section Mono

variable {L} {M : Value → Prop} (hLM : ∀ v, L v → M v) {n : Node}

include hLM

/-- An expression over some literals is one over more of them. -/
theorem IsExpression.mono (h : n.IsExpression L) : n.IsExpression M := by
  induction h with
  | literal h => exact .literal (hLM _ h)
  | reference name => exact .reference name
  | call name _ ih => exact .call name ih
  | unary hk _ ih => exact .unary hk ih
  | binary hk _ _ ihl ihr => exact .binary hk ihl ihr

theorem IsStatement.mono (h : n.IsStatement L) : n.IsStatement M := by
  induction h with
  | expression h => exact .expression (h.mono hLM)
  | declaration name => exact .declaration name
  | definition name hk h => exact .definition name hk (h.mono hLM)
  | function name hp _ ih => exact .function name hp ih
  | returnVoid hk => exact .returnVoid hk
  | returnValue hk h => exact .returnValue hk (h.mono hLM)
  | choice hc _ iht => exact .choice (hc.mono hLM) iht
  | choiceElse hc _ _ iht ihf => exact .choiceElse (hc.mono hLM) iht ihf
  | choiceChain hc _ _ iht ihf => exact .choiceChain (hc.mono hLM) iht ihf
  | whileLoop hc _ ih => exact .whileLoop (hc.mono hLM) ih
  | forLoop _ hc hu _ ihi ih =>
    exact .forLoop ihi (fun h => (hc h).mono hLM) (fun h => (hu h).mono hLM) ih

/-- …and a program is a program over more of them. -/
theorem IsProgram.mono (h : n.IsProgram L) : n.IsProgram M := by
  obtain @⟨statements, hs⟩ := h
  exact .intro fun n hn => (hs n hn).mono hLM

end Mono

end Node

end Scrawl
