import Scrawl.Random
import Scrawl.Scope
import Scrawl.Value.Operator

/-!
# Machine/State — the state of a run

A machine holds the scope, how many calls are open, the console and the random numbers, and the
**trace**: messages with a level each, of which the verbosity lets some through.  While the trace is
closed they go to the console.  How far things may nest is up to the machine as well (`Limits`).  An
`Exec` is a computation on a machine that may stop; the machine stays as it is when it does.
-/

namespace Scrawl

/-- A message of the trace. -/
structure TraceEntry where
  level : Int
  text : String
deriving DecidableEq, Repr, Inhabited

/-- **How far things may nest.** -/
structure Limits where
  /-- How many calls may be open at a time. -/
  calls : Nat
  /-- How many levels a tree may have to be drawn. -/
  levels : Nat
deriving DecidableEq, Repr, Inhabited

/-- The limits of an ordinary computer. -/
def Limits.usual : Limits := ⟨1000, 970⟩

/-- **The state of a run.** -/
structure Machine where
  scope : Scope
  /-- How many calls are open. -/
  callDepth : Nat
  limits : Limits
  /-- The highest level of the messages that are traced. -/
  verbosity : Int
  /-- The trace takes messages. -/
  tracing : Bool
  trace : Array TraceEntry
  /-- The lines of input not yet read. -/
  input : List String
  /-- What was printed. -/
  output : String
  random : Generator
deriving Inhabited

/-- Why a run stopped early. -/
inductive Stop where
  | fault (fault : Fault)
  /-- The fuel ran out. -/
  | exhausted
deriving DecidableEq, Repr

/-- **A computation on a machine that may stop.** -/
abbrev Exec := ExceptT Stop (StateM Machine)

namespace Machine

/-- A machine before its run. -/
def start (limits : Limits) (verbosity seed : Int) (input : List String) : Machine where
  scope := .empty
  callDepth := 0
  limits := limits
  verbosity := verbosity
  tracing := 0 < verbosity
  trace := #[]
  input := input
  output := ""
  random := .ofSeed seed

/-- **A machine before its run, with a file for its trace.**  The file is opened only for a trace,
and opening it may fail. -/
def opened {ε : Type} (file : Except ε Unit) (limits : Limits) (verbosity seed : Int)
    (input : List String) : Except ε Machine :=
  if 0 < verbosity then file.map fun _ => start limits verbosity seed input
  else .ok (start limits verbosity seed input)

/-- A line printed on the console. -/
def print (text : String) (m : Machine) : Machine := { m with output := m.output ++ text ++ "\n" }

/-- **A message**, if the verbosity lets it through. -/
def say (level : Int) (text : String) (m : Machine) : Machine :=
  if m.verbosity < level then m
  else if m.tracing then { m with trace := m.trace.push ⟨level, text⟩ }
  else m.print text

/-- The trace as text, a line or more for each message. -/
def traceText (m : Machine) : String :=
  m.trace.foldl (fun text entry => text ++ entry.text ++ "\n") ""

/-- No more messages go to the trace. -/
def closeTrace (m : Machine) : Machine := { m with tracing := false }

/-- Back to the global frame, with no call open. -/
def unwind (m : Machine) : Machine := { m with scope := m.scope.unwind, callDepth := 0 }

end Machine

namespace Exec

/-- Stops with a fault. -/
def fail {α : Type} (f : Fault) : Exec α := throw (.fault f)

/-- An outcome computed without the machine. -/
def ofFault {α : Type} : Except Fault α → Exec α
  | .ok a => pure a
  | .error f => fail f

/-- The text of a value. -/
def write (v : Value) : Exec String := ofFault (Fault.ofNumber v.write)

/-- A message, if the verbosity lets it through. -/
def say (level : Int) (text : String) : Exec Unit := modify (·.say level text)

/-- A message whose text is only made when the verbosity lets it through, and may then fail. -/
def sayLazily (level : Int) (text : Machine → Except Fault String) : Exec Unit := do
  let m ← get
  if level ≤ m.verbosity then say level (← ofFault (text m))

/-- The value of a variable. -/
def lookup (name : String) : Exec Value := do ofFault ((← get).scope.get name)

/-- A new value for a variable. -/
def assign (name : String) (v : Value) : Exec Unit := do
  let scope ← ofFault ((← get).scope.set name v)
  modify ({ · with scope := scope })

/-- A variable in the innermost frame. -/
def declare (name : String) (v : Value) : Exec Unit :=
  modify fun m => { m with scope := (m.scope.declare name v).2 }

/-- **A computation in a frame of its own**, which is gone afterwards however the computation
ends. -/
def inFrame {α : Type} (body : Exec α) : Exec α := ExceptT.mk fun m =>
  let (result, m) := body.run { m with scope := m.scope.push }
  (result, { m with scope := m.scope.drop })

/-- A computation one call deeper, in a frame of its own. -/
def inCall {α : Type} (body : Exec α) : Exec α := ExceptT.mk fun m =>
  let (result, m) := (inFrame body).run { m with callDepth := m.callDepth + 1 }
  (result, { m with callDepth := m.callDepth - 1 })

end Exec

end Scrawl
