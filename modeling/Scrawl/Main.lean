import Scrawl.CommandLine.Report

/-!
# Main — the command line

Reads the files that the arguments name and the console input, and carries out the report on them.
-/

namespace Scrawl.CommandLine

/-- The system's code for reading a directory as a file; a file on the way to one has another. -/
def directoryCode : UInt32 := 21

/-- What a path leads to on this computer. -/
def entryOnDisk (p : Path) : IO (Except Obstacle Entry) := do
  try
    return .ok (.file (← IO.FS.readBinFile p.text).toList)
  catch
    | .inappropriateType _ code _ =>
      return if code = directoryCode then .ok .directory else .error .missing
    | .invalidArgument .. =>
      return .error (if p.text.contains '\x00' then .missing else .tooLong)
    | _ => return .error .missing

/-- What some paths lead to on this computer. -/
def filesOnDisk (paths : List Path) : IO Files := do
  let entries ← paths.mapM fun p => return (p, ← entryOnDisk p)
  return fun p => (entries.lookup p).getD (.error .missing)

/-- More steps than any run takes. -/
def diskFuel : Nat := 1000000000000000000

/-- The answer to the arguments on this computer. -/
def answerOnDisk (arguments : List String) : IO Report := do
  match readArguments arguments with
  | .error _ => return Surroundings.answer ⟨fun _ => .error .missing, [], 0, .usual, 0⟩ arguments
  | .ok a =>
    let files ← filesOnDisk (Surroundings.pathsOf a)
    let input ← (← IO.getStdin).readToEnd
    let seed : Nat := (← IO.getRandomBytes 16).toList.foldl (fun n b => n * 256 + b.toNat) 0
    return Surroundings.answer ⟨files, Text.lines input, seed, .usual, diskFuel⟩ arguments

end Scrawl.CommandLine

open Scrawl.CommandLine

/-- The command line. -/
def main (arguments : List String) : IO UInt32 := do
  let report ← answerOnDisk arguments
  for (path, text) in report.written do
    IO.FS.writeFile path.text text
  IO.print report.output
  IO.eprint report.errors
  match report.ending with
  | .ok status => return status.toUInt32
  | .error f =>
    IO.eprintln f.message
    return 1
