import RhythmTree.CommandLine.Run

/-!
# The program

The command line outside of the pure library: it reads the file that the words ask for, writes the
score to the standard output and the journal to the standard error output.
-/

namespace RhythmTree.Main

open CommandLine

/-- How to call the program. -/
def usage : String := "usage: rhythm-tree [--debug] parse [--strict] [--summary] PATH"

/-- The content of the file at a path. -/
def content (path : Path) : IO (Except ReadFailure (List UInt8)) := do
  match path.fault? with
  | some fault => return .error (.path fault)
  | none =>
    try
      return .ok (← IO.FS.readBinFile path.text.display).toList
    catch
    | .inappropriateType .. => return .error .isDirectory
    | _ => return .error .absent

/-- Writes what a run of the program comes to, and gives its exit code. -/
def report (outcome : Outcome) : IO UInt32 := do
  match outcome with
  | .finished code output journal =>
    IO.print output
    for entry in journal do
      IO.eprintln (entry.importance.text ++ ": " ++ entry.text.display)
    return code.toUInt32
  | .crashed error =>
    IO.eprintln error.message.display
    return 1

/-- Runs the program on the words of a command line, and gives its exit code. -/
def run (words : List String) : IO UInt32 := do
  match Invocation.ofWords (words.map Text.ofString) with
  | .run request => report (request.run (← content request.path))
  | .help =>
    IO.println usage
    return 0
  | .misuse =>
    IO.eprintln usage
    return 2

end RhythmTree.Main

/-- The program. -/
def main (words : List String) : IO UInt32 := RhythmTree.Main.run words
