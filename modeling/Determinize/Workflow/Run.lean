import Determinize.CommandLine.Parse
import Determinize.Config.Automaton
import Determinize.Config.Override
import Determinize.Program.Catalogue
import Determinize.Workflow.Parameter

/-!
# Runs of the program

A run of the program is determined by the command line and its surroundings: the files that it can
read, the environment, and what evaluates documents and builds configurations. It writes to the output, the error output and the log, and ends by
returning, with an exit status, or with a failure.

## Main definitions

* `Surroundings`, `Surroundings.file?`, `Failure`, `Ending`, `Run`.
-/

namespace Determinize

/-- What surrounds a run. -/
structure Surroundings where
  /-- The texts of the files by name. -/
  files : List (String × String)
  /-- The environment. -/
  environment : List (String × String)
  /-- What evaluates documents. -/
  evaluate : Evaluator := evaluateText?
  /-- What builds configurations. -/
  build? : Builder := AutomatonConfig.ofValue?

/-- The name of a file without the current directory before it. -/
def withoutCurrentDirectory (name : String) : String :=
  match name.toList.splitOn '/' with
  | ['.'] :: rest =>
    String.ofList (['/'].intercalate (rest.dropWhile fun part => part = ['.'] ∨ part = []))
  | _ => name

/-- The text of a file. -/
def Surroundings.file? (s : Surroundings) (name : String) : Option String :=
  (s.files.lookup name).or (s.files.lookup (withoutCurrentDirectory name))

/-- Why a run fails. -/
inductive Failure where
  | signature (e : SignatureError)
  /-- What is to be printed cannot be laid out. -/
  | layout (e : CommandLine.LayoutError)
  /-- An argument takes the place of the method, which cannot be called then. -/
  | notCallable (x : Value)
  | missingFile (name : String)
  | load (e : LoadError)
  | build (e : BuildError)
  | config (e : ConfigError)
  | importing (e : ImportFault)

/-- The text of a failure if it has one. -/
def Failure.message? : Failure → Option String
  | signature e => some e.message
  | layout e => some e.message
  | notCallable x => some ("'" ++ x.typeName ++ "' object is not callable")
  | missingFile name => some name
  | load (.document e) => e.message?
  | load (.override e) => some e.message
  | build e => some e.message
  | config e => some e.message
  | importing e => some e.message

/-- How a run ends. -/
inductive Ending where
  | returned
  | exited (status : Nat)
  | failed (e : Failure)

/-- What a run leaves behind. -/
structure Run where
  output : String
  errors : String
  log : List Event
  ending : Ending

namespace Run

/-- A run that prints a text and returns. -/
def printing (text : String) : Run := ⟨text, "", [], .returned⟩

/-- A run that prints a text and exits. -/
def leaving (text : String) (status : Nat) : Run := ⟨text, "", [], .exited status⟩

/-- A run that fails. -/
def failing (e : Failure) : Run := ⟨"", "", [], .failed e⟩

/-- A run that prints the help of a command. -/
def printingHelp (s : CommandLine.Signature) : Run :=
  match s.help? with
  | .ok help => printing help
  | .error e => failing (.layout e)

/-- A run that ends before anything is done. -/
def ofExit : CommandLine.Exit → Run
  | .leaves status output errors => ⟨output, errors, [], .exited status⟩
  | .fails e => failing (.layout e)

/-- A run that leaves a status instead of returning. -/
def exiting (r : Run) (status : Nat) : Run :=
  match r.ending with
  | .returned => { r with ending := .exited status }
  | _ => r

/-- A run with earlier events. -/
def logging (events : List Event) (r : Run) : Run := { r with log := events ++ r.log }

end Run

end Determinize
