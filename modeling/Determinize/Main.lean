import Determinize.Program.Basic

/-!
# The command line

Reads the surroundings of the program, runs it, and prints what the run leaves behind. A word of the
command line that names a readable file makes the file known to the run.
-/

open Determinize

/-- The files that the words of the command line name. -/
def readFiles (words : List String) : IO (List (String × String)) :=
  words.filterMapM fun (word : String) =>
    try
      let text ← IO.FS.readFile word
      return some (word, text)
    catch _ => return none

/-- The environment of the process. -/
def readEnvironment : IO (List (String × String)) := do
  try
    let text ← IO.FS.readFile "/proc/self/environ"
    return (text.splitOn "\x00").map fun entry =>
      let cs := entry.toList
      (String.ofList (cs.takeWhile (· ≠ '=')), String.ofList ((cs.dropWhile (· ≠ '=')).drop 1))
  catch _ => return []

/-- Prints the records of the log that are at least of the given level. -/
def printLog (least : Level) (events : List Event) : IO Unit :=
  events.forM fun e => do
    if least.number ≤ e.level.number then IO.eprintln (e.level.name ++ " - " ++ e.message)

/-- Runs the program. -/
def main (words : List String) : IO UInt32 := do
  let surroundings : Surroundings :=
    { files := ← readFiles words, environment := ← readEnvironment }
  let run := Program.standard.run surroundings words
  printLog (.ofEnvironment surroundings.environment) run.log
  IO.print run.output
  IO.eprint run.errors
  match run.ending with
  | .returned => return 0
  | .exited status => return status.toUInt32
  | .failed e =>
    IO.eprintln (e.message?.getD "the document denotes no data")
    return 1
