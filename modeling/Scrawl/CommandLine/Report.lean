import Scrawl.CommandLine.Arguments
import Scrawl.CommandLine.Directory
import Scrawl.Json.Printer
import Scrawl.Json.Reader
import Scrawl.Machine.Run
import Scrawl.Node.Document

/-!
# CommandLine/Report — what the program answers

`answer` takes the arguments, the files and the console input, and gives everything that can be
seen of a run: the two outputs, the files written and how it ended.  Most failures are reported on
the error output with status 1; some **escape** and are left to the caller.
-/

namespace Scrawl.CommandLine

/-- The usage of the program. -/
def usage : String :=
  "usage: scrawl [-h] [-v]\n" ++
  "              [--tree | --emit-ast SCRAWL_FILE | --ast AST_JSON_FILE]\n" ++
  "              [program]\n"

/-- The help on the program. -/
def help : String :=
  usage ++ "\n" ++
  "Scrawl language interpreter\n" ++ "\n" ++
  "positional arguments:\n" ++
  "  program               Scrawl program file (.scrawl) to execute\n" ++ "\n" ++
  "options:\n" ++
  "  -h, --help            show this help message and exit\n" ++
  "  -v                    increase debug verbosity (can be repeated)\n" ++
  "  --tree                print the parsed AST instead of running the program\n" ++
  "  --emit-ast SCRAWL_FILE\n" ++
  "                        emit AST JSON for the given .scrawl file\n" ++
  "  --ast AST_JSON_FILE   execute AST from a JSON file\n"

/-- **Why a run of the command line failed.** -/
inductive Failure where
  | file (error : FileError)
  | source (error : SourceError)
  | json (text : String) (error : Json.ReadError)
  | document (error : DocumentError)
  | stop (stop : Stop)
deriving DecidableEq, Repr

/-- How a failure shows. -/
inductive Showing where
  /-- A message under a heading, and status 1. -/
  | reported (heading : String)
  /-- Nothing; the failure goes to the caller. -/
  | escaped
deriving DecidableEq, Repr

/-- A number that is too large for a double is not expected anywhere. -/
def showNumber : Decimal.NumberError → Showing
  | .tooLargeForFloat => .escaped
  | _ => .reported "Error"

/-- Faults of the program are reported, those of the tree are not. -/
def showFault : Fault → Showing
  | .number error => showNumber error
  | .tooManyLevels | .globalFrame | .unexpected .. | .lacking .. => .escaped
  | _ => .reported "Runtime error"

/-- **How a failure shows.**  What a document holds that the readers do not take is left to the
caller. -/
def Failure.showing : Failure → Showing
  | .file _ => .reported "Error"
  | .source (.lexer _) => .reported "Lexer error"
  | .source (.parser (.number error)) => showNumber error
  | .source (.parser .noOperandLeft) | .source (.parser .exhausted) => .escaped
  | .source (.parser _) => .reported "Syntax error"
  | .json _ .loneHalf | .json _ .exhausted => .escaped
  | .json _ _ => .reported "Error"
  | .document (.number error) => showNumber error
  | .document (.payload _) => .escaped
  | .document _ => .reported "Error"
  | .stop (.fault f) => showFault f
  | .stop .exhausted => .escaped

/-- The wording of a failure. -/
def Failure.message : Failure → String
  | .file error => error.message
  | .source error => error.message
  | .json text error => error.message text
  | .document error => error.message
  | .stop (.fault f) => f.message
  | .stop .exhausted => "exhausted"

/-- **What can be seen of a run.** -/
structure Report where
  /-- The exit status, or the failure that escaped. -/
  ending : Except Failure Nat
  output : String
  errors : String
  /-- The files written, with their texts. -/
  written : List (Path × String)

namespace Report

/-- A run that ended well. -/
def success (output : String) (written : List (Path × String)) : Report :=
  ⟨.ok 0, output, "", written⟩

/-- A run that failed. -/
def failure (f : Failure) (output : String) (written : List (Path × String)) : Report :=
  match f.showing with
  | .reported heading => ⟨.ok 1, output, heading ++ ": " ++ f.message ++ "\n", written⟩
  | .escaped => ⟨.error f, output, "", written⟩

/-- Arguments that make no sense. -/
def misuse (e : UsageError) : Report :=
  ⟨.ok 2, "", usage ++ "scrawl: error: " ++ e.message ++ "\n", []⟩

/-- The outcome of a step that may fail before anything is printed. -/
def orFailure {α : Type} (step : Except Failure α) (next : α → Report) : Report :=
  match step with
  | .ok a => next a
  | .error f => failure f "" []

end Report

/-- Where the trace goes. -/
def tracePath : Path := ⟨"", ["debug.txt"]⟩

/-- The surroundings of a run. -/
structure Surroundings where
  files : Files
  /-- The lines of the console input. -/
  input : List String
  seed : Int
  /-- How far things may nest. -/
  limits : Limits
  /-- The fuel for running a program. -/
  fuel : Nat

namespace Surroundings

/-- The text of a file. -/
def read (s : Surroundings) (p : Path) : Except Failure String :=
  match s.files.readText p with
  | .ok text => .ok text
  | .error e => .error (.file e)

/-- A path that can be written to. -/
def checkWritable (s : Surroundings) (p : Path) : Except Failure Unit :=
  match s.files.checkWritable p with
  | .ok () => .ok ()
  | .error e => .error (.file e)

/-- A source error is a failure. -/
def ofSource {α : Type} : Except SourceError α → Except Failure α
  | .ok a => .ok a
  | .error e => .error (.source e)

/-- A fresh machine, with a file for its trace if there is one. -/
def machine (s : Surroundings) (verbosity : Nat) : Except Failure Machine :=
  Machine.opened (s.checkWritable tracePath) s.limits verbosity s.seed s.input

/-- **Runs something on a fresh machine**, and writes the trace if there is one. -/
def execute (s : Surroundings) (verbosity : Nat) (program : Exec Unit) : Report :=
  Report.orFailure (s.machine verbosity) fun m =>
    let (result, m) := program.run m
    let written := if 0 < verbosity then [(tracePath, m.traceText)] else []
    match result with
    | .ok () => .success m.output written
    | .error stop => .failure (.stop stop) m.output written

/-- Runs a program. -/
def runFile (s : Surroundings) (verbosity : Nat) (p : Path) : Report :=
  let parsed := do ofSource (parseSource (← s.read p))
  Report.orFailure parsed fun (tokens, program) =>
    s.execute verbosity (Exec.runTokens s.fuel tokens program)

/-- Draws the tree of a program. -/
def drawFile (s : Surroundings) (p : Path) : Report :=
  let drawn : Except Failure String := do
    match (← ofSource (parseProgram (← s.read p))).drawWithin s.limits.levels with
    | .ok drawing => return drawing
    | .error f => throw (.stop (.fault f))
  Report.orFailure drawn fun drawing => .success (drawing ++ "\n") []

/-- Where the tree of a program is written. -/
def treePath (p : Path) : Path := p.extend ".ast.json"

/-- Writes the tree of a program as a document. -/
def emitFile (s : Surroundings) (p : Path) : Report :=
  let emitted : Except Failure Node := do
    let program ← ofSource (parseProgram (← s.read p))
    s.checkWritable (treePath p)
    return program
  Report.orFailure emitted fun program =>
    .success ((treePath p).text ++ "\n") [(treePath p, program.toJson.pretty)]

/-- The tree of a document. -/
def readTree (text : String) : Except Failure Node :=
  match Json.read text with
  | .error e => .error (.json text e)
  | .ok j =>
    match Node.ofJson j with
    | .error e => .error (.document e)
    | .ok program => .ok program

/-- Runs the tree in a document. -/
def runTree (s : Surroundings) (verbosity : Nat) (p : Path) : Report :=
  Report.orFailure (do readTree (← s.read p)) fun program =>
    s.execute verbosity (Exec.runProgram s.fuel program)

/-- An option with an empty value counts as not given. -/
def given (value : Option String) : Option Path :=
  match value with
  | some text => if text = "" then none else some (.ofString text)
  | none => none

/-- The paths that the arguments may lead to, to read or to write. -/
def pathsOf (a : Arguments) : List Path :=
  let emitted := (given a.emitAst).toList
  tracePath :: (emitted ++ emitted.map treePath ++ (given a.ast).toList ++ (given a.program).toList)

/-- Does what the arguments ask for. -/
def perform (s : Surroundings) (a : Arguments) : Report :=
  match given a.emitAst, given a.ast, given a.program with
  | some p, _, _ => s.emitFile p
  | none, some p, _ => s.runTree a.verbosity p
  | none, none, none => .misuse .missingProgram
  | none, none, some p => if a.tree then s.drawFile p else s.runFile a.verbosity p

/-- **The answer to a list of arguments.** -/
def answer (s : Surroundings) (arguments : List String) : Report :=
  match readArguments arguments with
  | .error .help => .success help []
  | .error (.usage e) => .misuse e
  | .ok a => s.perform a

end Surroundings

end Scrawl.CommandLine
