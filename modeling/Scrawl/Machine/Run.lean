import Scrawl.Machine.Builtin
import Scrawl.Node.Outline
import Scrawl.Parser.Program

/-!
# Machine/Run — running programs

`visit` carries out a node for its effect and `evaluate` computes the value of one; the two call
each other.  A function yields the value of the first `return` among the statements of its body, and
a `return` nested deeper does nothing.  Loops have no bound of their own, so all of it takes
**fuel**, and running out of it is kept apart from every fault.
-/

namespace Scrawl

/-- A return statement. -/
def Node.isReturn : Node → Bool
  | .unary operator _ => operator.kind = .returnWord
  | _ => false

/-- The right side of an initializer that assigns. -/
def Node.assigned? : Node → Option Node
  | .binary operator _ right => if operator.kind = .assign then some right else none
  | _ => none

namespace Exec

/-- A message about a node, at the level that shows every node. -/
def announce (text : String) (n : Node) : Exec Unit :=
  sayLazily 3 fun _ => n.label.map (text ++ ·)

/-- Parameters take the values of the arguments, from left to right. -/
def bindParameters : List Node → List Value → Exec Unit
  | parameter :: parameters, v :: arguments => do
    match parameter.name? with
    | some name => declare name v
    | none => fail (.lacking parameter.shape .name)
    bindParameters parameters arguments
  | _, _ => pure ()

/-- A message about the sort and the text of a value. -/
def valueMessage (start : String) (v : Value) : Except Fault String :=
  (Fault.ofNumber v.write).map fun text => start ++ v.sort.name ++ " = " ++ Text.quoted text

mutual

/-- **Carries out a node.** -/
def visit : Nat → Node → Exec Unit
  | 0, _ => throw .exhausted
  | fuel + 1, n => do
    if n.isPresent then announce "Visiting: " n
    match n with
    | .absent => pure ()
    | .value v => fail (.unexpected .visiting (.value v.sort))
    | .block statements => visitAll fuel statements
    | .variable name initializer true => define fuel name initializer
    | .variable _ _ false => discard (evaluate fuel n)
    | .function name parameters body true =>
      modify fun m => { m with scope := m.scope.declareFunction name ⟨parameters, body⟩ }
      say 2 ("define function " ++ name)
    | .function _ _ _ false => discard (evaluate fuel n)
    | .terminal _ => pure ()
    | .unary operator operand =>
      if operator.kind = .returnWord then
        if (← get).callDepth = 0 then fail .strayReturn
      else if operator.kind.isStep then
        match operand.referenced? with
        | none => fail (.unsteppable operator.lexeme)
        | some name => assign name (← evaluate fuel n)
      else discard (evaluate fuel n)
    | .binary operator left right =>
      if operator.kind.isAssign then
        match left.referenced? with
        | none => fail (.unassignable operator.lexeme)
        | some name =>
          let current ← lookup name
          let v ← evaluate fuel right
          assign name (← ofFault (Value.apply operator.kind current (some v)))
      else discard (evaluate fuel n)
    | .choice condition whenTrue whenFalse =>
      match ← evaluate fuel condition with
      | .bool true => visit fuel whenTrue
      | .bool false => visit fuel whenFalse
      | v => fail (.condition v.sort)
    | .whileLoop condition body => inFrame (loop fuel condition .absent body)
    | .forLoop initialization condition update body => inFrame do
      visit fuel initialization
      loop fuel condition update body

/-- Carries out nodes one after the other. -/
def visitAll : Nat → List Node → Exec Unit
  | 0, _ => throw .exhausted
  | _ + 1, [] => pure ()
  | fuel + 1, n :: rest => do
    visit fuel n
    visitAll fuel rest

/-- Carries out a body and then an update as long as a condition holds. -/
def loop : Nat → Node → Node → Node → Exec Unit
  | 0, _, _, _ => throw .exhausted
  | fuel + 1, condition, update, body => do
    if ← test fuel condition then
      visit fuel body
      visit fuel update
      loop fuel condition update body

/-- Whether a loop goes on: its condition is absent or the boolean that is true. -/
def test : Nat → Node → Exec Bool
  | 0, _ => throw .exhausted
  | _ + 1, .absent => pure true
  | fuel + 1, condition => do
    match ← evaluate fuel condition with
    | .bool b => pure b
    | _ => pure false

/-- Defines a variable, void unless the initializer assigns a value. -/
def define : Nat → String → Node → Exec Unit
  | 0, _, _ => throw .exhausted
  | fuel + 1, name, initializer => do
    let v ← match initializer.assigned? with
      | some right => evaluate fuel right
      | none => pure .void
    declare name v
    sayLazily 2 fun _ => valueMessage ("declare " ++ name ++ ": ") v

/-- **The value of a node.** -/
def evaluate : Nat → Node → Exec Value
  | 0, _ => throw .exhausted
  | fuel + 1, n => do
    announce "Evaluating: " n
    match n with
    | .block statements => evaluateBlock fuel statements
    | .variable name _ false => lookup name
    | .terminal (.value v) => pure v
    | .terminal content => fail (.lacking content.shape .sort)
    | .unary operator operand =>
      let v ← evaluate fuel operand
      ofFault (Value.apply operator.kind v none)
    | .binary operator left right =>
      let v ← evaluate fuel left
      let w ← evaluate fuel right
      ofFault (Value.apply operator.kind v (some w))
    | .function name arguments _ false =>
      let values ← evaluateAll fuel arguments
      call fuel name values
    | n => fail (.unexpected .evaluating n.shape)

/-- The values of nodes, from left to right. -/
def evaluateAll : Nat → List Node → Exec (List Value)
  | 0, _ => throw .exhausted
  | _ + 1, [] => pure []
  | fuel + 1, n :: rest => do
    let v ← evaluate fuel n
    return v :: (← evaluateAll fuel rest)

/-- The value of the first return among statements; those before it are carried out. -/
def evaluateBlock : Nat → List Node → Exec Value
  | 0, _ => throw .exhausted
  | _ + 1, [] => pure .void
  | fuel + 1, n :: rest => do
    if n.isReturn then evaluate fuel n
    else
      visit fuel n
      evaluateBlock fuel rest

/-- **A call**; built-in functions come before those of the program. -/
def call : Nat → String → List Value → Exec Value
  | 0, _, _ => throw .exhausted
  | fuel + 1, name, arguments => do
    match Builtin.ofName? name with
    | some b => b.call fuel arguments
    | none =>
      match (← get).scope.getFunction? name with
      | none => fail (.undefined .function name)
      | some d =>
        unless d.parameters.length = arguments.length do
          fail (.arity name d.parameters.length arguments.length)
        let texts ← arguments.mapM write
        say 2 ("call " ++ name ++ "(" ++ ", ".intercalate texts ++ ")")
        let m ← get
        if m.limits.calls ≤ m.callDepth then fail .callDepth
        let v ← inCall do
          bindParameters d.parameters arguments
          sayLazily 3 fun m => m.scope.dump.map ("Scope:\n" ++ ·)
          evaluate fuel d.body
        say 2 (← ofFault (valueMessage ("return " ++ name ++ ": ") v))
        return v

end

/-- **Runs a program.**  Calls nested too deep leave nothing but the global frame, and the trace is
closed however the run ends. -/
def runProgram (fuel : Nat) (program : Node) : Exec Unit := ExceptT.mk fun m =>
  let (result, m) := (visit fuel program).run m
  let m := match result with
    | .error (.fault .callDepth) => m.unwind
    | _ => m
  (result, m.closeTrace)

/-- Runs a program with its tokens.  The trace shows them first, and then the tree; one with too
many levels to be drawn is not run. -/
def runTokens (fuel : Nat) (tokens : List Token) (program : Node) : Exec Unit := do
  sayLazily 1 fun _ => .ok ("Tokens: " ++ " ".intercalate (tokens.map Token.lexeme))
  sayLazily 1 fun m => (program.drawWithin m.limits.levels).map ("AST:\n" ++ ·)
  runProgram fuel program

end Exec

/-- **Runs a source text on a machine.**  The machine is asked for once the text is parsed, and
there may be none. -/
def runSource {ε : Type} (fuel : Nat) (source : String) (machine : Except ε Machine) :
    Except SourceError (Except ε (Except Stop Unit × Machine)) :=
  (parseSource source).map fun (tokens, program) =>
    machine.map (Exec.runTokens fuel tokens program).run

end Scrawl
