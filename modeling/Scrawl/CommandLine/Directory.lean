import Scrawl.Text.Lines
import Scrawl.Text.Utf8

/-!
# CommandLine/Directory — paths and the files they name

A path is normalised as it is read: empty steps and single dots are dropped, double dots stay.  All
that matters about files is what each path leads to (`Files`).  A directory is one way to say that:
a list of named files and directories, where a name with steps in it stands inside the directories
that it goes through.  What lies outside of it is unknown, but for the fact that going up leads to a
directory.  Steps and whole paths have a greatest length, and a longer one is an error of its own.
-/

namespace Scrawl.CommandLine

/-! ## Paths -/

/-- **A path**: what it starts from, and its steps. -/
structure Path where
  /-- Empty, or the slashes of a path from the root. -/
  root : String
  steps : List String
deriving DecidableEq, Repr

namespace Path

/-- The root that a number of leading slashes stands for; exactly two have a meaning of their
own. -/
def rootOf (slashes : Nat) : String :=
  if slashes = 0 then "" else if slashes = 2 then "//" else "/"

/-- **The path that a text names.** -/
def ofString (text : String) : Path :=
  let cs := text.toList
  let steps := (Text.cutAt '/' cs).filter fun piece => piece ≠ [] && piece ≠ ['.']
  ⟨rootOf (cs.takeWhile (· == '/')).length, steps.map String.ofList⟩

/-- The text of a path. -/
def text (p : Path) : String :=
  if p.root = "" && p.steps.isEmpty then "." else p.root ++ "/".intercalate p.steps

/-- The path with each double dot taken together with the step that it takes back. -/
def collapsed (p : Path) : Path :=
  let climb (done : List String) (step : String) : List String :=
    match done with
    | [] => [step]
    | last :: before => if step = ".." && last ≠ ".." then before else step :: done
  { p with steps := (p.steps.foldl climb []).reverse }

/-- A path with something added to its last step. -/
def extend (p : Path) (ending : String) : Path :=
  { p with steps := p.steps.dropLast ++ [p.steps.getLast?.getD "" ++ ending] }

end Path

/-! ## Files -/

/-- What a path leads to. -/
inductive Entry where
  | file (bytes : List UInt8)
  | directory
deriving DecidableEq, Repr

/-- Why a path leads to nothing. -/
inductive Obstacle where
  | missing
  | tooLong
deriving DecidableEq, Repr

/-- **What each path leads to**, or why it leads to nothing. -/
abbrev Files := Path → Except Obstacle Entry

/-- The most bytes of one step. -/
def maxStepSize : Nat := 255

/-- The most bytes of a whole path. -/
def maxPathSize : Nat := 4095

/-- **The contents of a working directory**, by the steps that lead to them. -/
abbrev Directory := List (List String × Entry)

namespace Directory

/-- What stands at some steps below the working directory: a directory is also what leads to
something else. -/
def entryAt? (d : Directory) (steps : List String) : Option Entry :=
  if steps.isEmpty then some .directory
  else
    match d.lookup steps with
    | some entry => some entry
    | none => if d.any (fun (other, _) => steps.isPrefixOf other) then some .directory else none

/-- What goes wrong at a step to something that is not there. -/
def obstacleAt (step : String) : Obstacle :=
  if maxStepSize < step.utf8ByteSize then .tooLong else .missing

/-- Goes some steps on from a place below the working directory, or from outside of it. -/
def walk (d : Directory) : Option (List String) → List String → Except Obstacle Entry
  | none, [] => .ok .directory
  | none, step :: rest => if step = ".." then walk d none rest else .error (obstacleAt step)
  | some place, [] => (d.entryAt? place).elim (.error .missing) .ok
  | some place, step :: rest =>
    if d.entryAt? place ≠ some .directory then .error .missing
    else if step = ".." then walk d (if place.isEmpty then none else some place.dropLast) rest
    else if maxStepSize < step.utf8ByteSize then .error .tooLong
    else walk d (some (place ++ [step])) rest

/-- **The files of a working directory.**  A path with a null character names nothing, however long
it is. -/
def files (d : Directory) : Files := fun p =>
  if p.text.contains '\x00' then .error .missing
  else if maxPathSize < p.text.utf8ByteSize then .error .tooLong
  else walk d (if p.root = "" then some [] else none) p.steps

end Directory

/-! ## Reading and writing -/

/-- Why a file could not be used. -/
inductive FileError where
  | notFound (path : Path)
  | tooLong (path : Path)
  | isDirectory (path : Path)
  | undecodable (error : Text.Utf8Error)
deriving DecidableEq, Repr

/-- The wording of a file error. -/
def FileError.message : FileError → String
  | .notFound path => s!"file {path.text} not found"
  | .tooLong path => s!"[Errno 36] File name too long: {Text.quoted path.text}"
  | .isDirectory path => s!"[Errno 21] Is a directory: {Text.quoted path.text}"
  | .undecodable error => error.message

/-- **The text of a file**, with its line ends made line feeds. -/
def Files.readText (files : Files) (p : Path) : Except FileError String :=
  match files p with
  | .error .missing => .error (.notFound p)
  | .error .tooLong => .error (.tooLong p)
  | .ok .directory => .error (.isDirectory p)
  | .ok (.file bytes) =>
    match Text.decodeUtf8 bytes with
    | .error e => .error (.undecodable e)
    | .ok text => .ok (String.ofList (Text.unifyLineEnds text.toList))

/-- A path that can be written to. -/
def Files.checkWritable (files : Files) (p : Path) : Except FileError Unit :=
  match files p with
  | .error .tooLong => .error (.tooLong p)
  | .ok .directory => .error (.isDirectory p)
  | _ => .ok ()

end Scrawl.CommandLine
