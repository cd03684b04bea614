import Scrawl.Machine.State
import Scrawl.Value.Input

/-!
# Machine/Builtin — the functions that are always there

`input` reads a line and takes it for the value it looks like, `output` prints a value, and `rand`
draws a number below a bound.
-/

namespace Scrawl

/-- **The built-in functions.** -/
inductive Builtin where
  | input | output | rand
deriving DecidableEq, Repr, Inhabited

namespace Builtin

/-- All of them, sorted by name. -/
def all : List Builtin := [.input, .output, .rand]

/-- The name of a built-in function. -/
def name : Builtin → String
  | .input => "input"
  | .output => "output"
  | .rand => "rand"

/-- The number of its arguments. -/
def arity : Builtin → Nat
  | .input => 0
  | .output => 1
  | .rand => 1

/-- A built-in function as it is shown. -/
def display (b : Builtin) : String := s!"<builtin {b.name}>"

/-- The built-in function with a name. -/
def ofName? (name : String) : Option Builtin := all.find? (·.name = name)

open Exec

/-- Reads a line; past the last one, lines are empty. -/
def readLine : Exec Value := do
  let m ← get
  set { m with input := m.input.drop 1 }
  return .ofInput (m.input.head?.getD "")

/-- Prints a value. -/
def printValue (v : Value) : Exec Value := do
  let text ← write v
  modify (·.print text)
  return .void

/-- Draws a number below a bound, within so many tries. -/
def drawBelow (tries : Nat) : Value → Exec Value
  | .int n => do
    if n ≤ 0 then
      let _ ← write (.int n)
      fail (.bound n)
    else
      match (← get).random.below? tries n.toNat with
      | none => throw .exhausted
      | some (drawn, random) =>
        modify ({ · with random := random })
        return .int drawn
  | v => fail (.boundSort v.sort)

/-- **A call of a built-in function**, which looks at the number of arguments first. -/
def call (fuel : Nat) (b : Builtin) (arguments : List Value) : Exec Value :=
  match b, arguments with
  | .input, [] => readLine
  | .output, [v] => printValue v
  | .rand, [v] => drawBelow fuel v
  | b, arguments => fail (.arity b.name b.arity arguments.length)

end Builtin

end Scrawl
