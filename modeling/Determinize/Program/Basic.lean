import Determinize.Program.Registry
import Determinize.Workflow.Automaton

/-!
# The program

The program has subcommands. The subcommand `workflow` runs a workflow, which is found by the name
under which it is registered or by the name of the module that holds it, after packages were
imported. Every other subcommand prints its help.

## Main definitions

* `Subcommand`, `Program`, `Program.standard`.
* `Program.run`.
-/

namespace Determinize

open CommandLine

/-- What a subcommand does. -/
inductive SubcommandKind where
  | runsWorkflows
  | printsHelp
  deriving DecidableEq

/-- A subcommand of the program. -/
structure Subcommand where
  name : String
  description : Option String
  kind : SubcommandKind

/-- The registries of the program. -/
structure Program where
  workflows : Registry Workflow
  subcommands : Registry Subcommand

/-- The version of the program. -/
def programVersion : String := "0.1.0"

namespace Subcommand

/-- The arguments of a kind of subcommands. -/
def argumentsOf : SubcommandKind → List Argument
  | .printsHelp => []
  | .runsWorkflows => [
      .operand "workflow" .optional "workflow name to run",
      .operand "args" .rest "arguments to pass to the workflow",
      { spellings := ["--include-package"]
        key := "include_package"
        arity := .one
        effect := .append
        reading := .text
        choices := none
        required := false
        fallback := .list []
        description := some "additional packages to include"
        commands := [] }]

/-- The arguments of a subcommand under a name. -/
def signature (c : Subcommand) (name : String) : Signature :=
  ⟨programName ++ " " ++ name, none, none, .help :: argumentsOf c.kind⟩

end Subcommand

/-! ### Workflows by module -/

/-- The workflow without methods. -/
def plainWorkflow : Workflow where
  name := "Workflow"
  description := some ("Base class of command line workflows. Every public method of a subclass " ++
    "becomes a subcommand whose arguments are derived from its signature. Positional parameters " ++
    "become positional arguments and keyword-only parameters become `--options`.")
  methods := []

/-- What a name stands for in a module. -/
inductive Named where
  | workflow (w : Workflow)
  | other

/-- What a name stands for in a module. A name that is missing and a module that does not exist are
no fault; a name that names no module at all is one. -/
def findNamed? (moduleName name : String) : Except ImportFault (Option Named) :=
  match findModule? moduleName with
  | .ok m =>
    .ok (if !m.exposes name then none
      else if name = plainWorkflow.name then some (.workflow plainWorkflow)
      else if name = automatonWorkflow.name then some (.workflow automatonWorkflow)
      else some .other)
  | .error (.missing _) | .error (.notPackage ..) => .ok none
  | .error e => .error e

/-- A text up to its last colon and what follows it; none without a colon. -/
def splitAtLastColon? (s : String) : Option (String × String) :=
  let cs := s.toList.reverse
  if cs.contains ':' then
    some (String.ofList ((cs.dropWhile (· ≠ ':')).drop 1).reverse,
      String.ofList (cs.takeWhile (· ≠ ':')).reverse)
  else none

/-- The module that is meant if none is named. -/
def mainModule : String := "__main__"

/-! ### Runs -/

namespace Program

/-- The program with its own workflow and subcommand. -/
def standard : Program where
  workflows := .single "Workflow" true "automaton" automatonWorkflow
  subcommands := .single "Subcommand" false "workflow"
    ⟨"WorkflowCommand", some "run a workflow", .runsWorkflows⟩

/-- The subcommands. -/
def suite (p : Program) : Suite :=
  let entries := p.subcommands.entries.entries
  let selection := Argument.command (entries.map fun (name, c) => (name, c.description))
  ⟨⟨programName, some programName, none,
      [.help, .version (programName ++ " " ++ programVersion), selection]⟩,
    entries.map fun (name, c) => (name, c.signature name)⟩

/-- The run for a workflow that cannot be found. -/
def notFound (p : Program) (moduleName name : String) : Run :=
  .leaving (line ("Could not find workflow: " ++ moduleName ++ ":" ++ name) ++
    line ("Please choose from the following: " ++
      (Value.list (p.workflows.names.map .text)).quoted) ++
    line ("To use a workflow defined elsewhere, pass `--include-package` or give its path as " ++
      "module:Workflow")) 1

/-- Runs the workflow with the given name. -/
def runWorkflow (p : Program) (s : Surroundings) (name : String) (words : List String) : Run :=
  match p.workflows.byName? name with
  | .ok w => w.run s words
  | .error _ =>
    let (moduleName, className) := (splitAtLastColon? name).getD (mainModule, name)
    match findNamed? moduleName className with
    | .error e => .failing (.importing e)
    | .ok none => p.notFound moduleName className
    | .ok (some (.workflow w)) => w.run s words
    | .ok (some .other) => .leaving (line (name ++ " is not a subclass of Workflow")) 1

/-- Runs a workflow after packages were imported, as the arguments say. -/
def runArguments (p : Program) (s : Surroundings) (help : Run) (arguments : Bindings) : Run :=
  let name := arguments.text "workflow"
  let packages := arguments.texts "include_package"
  if name.isEmpty then help.exiting 1
  else
    let run := match packages.forM fun package => discard (findModule? package) with
      | .ok _ => p.runWorkflow s name (arguments.texts "args")
      | .error e => .failing (.importing e)
    if packages.isEmpty then run else run.logging [.importing packages]

/-- Runs the program. -/
def run (p : Program) (s : Surroundings) (words : List String) : Run :=
  match p.suite.parse? words with
  | .error e => .ofExit e
  | .ok none => .printingHelp p.suite.signature
  | .ok (some (name, arguments)) =>
    match p.subcommands.byName? name with
    | .error _ => .printingHelp p.suite.signature
    | .ok c =>
      let help := Run.printingHelp (c.signature name)
      match c.kind with
      | .printsHelp => help
      | .runsWorkflows => p.runArguments s help arguments

end Program

end Determinize
