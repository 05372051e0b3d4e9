import Determinize.Workflow.Run

/-!
# Workflows

A workflow is a set of methods that can be called from the command line. Every method whose name
does not begin with an underscore is a command, whose arguments are derived from its parameters. The
commands are in the order of their names; of several methods of one name the last one counts.

## Main definitions

* `Method`, `Workflow`.
* `Workflow.commands`, `Workflow.suite?`.
* `Workflow.call?`, `Workflow.run`.
-/

namespace Determinize

open CommandLine

/-- A method of a workflow. -/
structure Method where
  name : String
  description : Option String
  parameters : List Parameter
  /-- What a call with the given arguments does. -/
  action : Surroundings → Bindings → Run

/-- A set of methods that can be called from the command line. -/
structure Workflow where
  name : String
  description : Option String
  methods : List Method

/-- The name of the program. -/
def programName : String := "dfastack"

namespace Method

/-- The arguments of a method. -/
def signature? (m : Method) : Except SignatureError Signature := do
  let arguments ← argumentsOf? [.help] m.parameters
  return ⟨programName ++ " " ++ m.name, none, m.description, arguments⟩

end Method

namespace Workflow

/-- The methods without those after which there is another one of the same name. -/
def lastMethods : List Method → List Method
  | [] => []
  | m :: ms => if ms.any (·.name == m.name) then lastMethods ms else m :: lastMethods ms

/-- The methods that are commands. -/
def commands (w : Workflow) : List Method :=
  insertionSort (fun m n => decide (m.name < n.name))
    (lastMethods (w.methods.filter fun m => !m.name.startsWith "_"))

/-- The commands of a workflow. -/
def suite? (w : Workflow) : Except SignatureError Suite := do
  let commands ← w.commands.mapM fun m => do return (m.name, ← m.signature?)
  let selection := Argument.command (w.commands.map fun m => (m.name, m.description))
  return ⟨⟨programName, none, w.description, [.help, selection]⟩, commands⟩

/-- What the method is bound to among the arguments of a call. -/
def methodKey : String := "__func"

/-- The method and the arguments that a command line asks for; without words it asks for help. -/
def call? (w : Workflow) (words : List String) : Except Run (Method × Bindings) :=
  match w.suite? with
  | .error e => .error (.failing (.signature e))
  | .ok suite =>
    match suite.parse? (if words.isEmpty then ["--help"] else words) with
    | .error e => .error (.ofExit e)
    | .ok selected =>
      let found := selected.bind fun (name, arguments) =>
        (w.commands.find? (·.name == name)).map fun m => (m, arguments)
      match found with
      | some (m, arguments) =>
        match arguments.find? methodKey with
        | some x => .error (.failing (.notCallable x))
        | none => .ok (m, arguments)
      | none => .error (.leaving "" 0)

/-- Runs a workflow. -/
def run (w : Workflow) (s : Surroundings) (words : List String) : Run :=
  match w.call? words with
  | .error r => r
  | .ok (m, arguments) => m.action s arguments

end Workflow

end Determinize
