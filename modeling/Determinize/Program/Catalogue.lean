import Determinize.Text.Quoted

/-!
# The catalogue of modules

The program can be asked for something by the name of the module that holds it. The modules of the
program and the names in them are listed here. A module that holds other modules is a package.

## Main definitions

* `CatalogueEntry`, `modules` — the modules of the program.
* `CatalogueEntry.exposes` — whether a name can be found in a module.
* `findModule?`, `ImportFault`.
-/

namespace Determinize

/-- A module of the program. -/
structure CatalogueEntry where
  /-- The names of the packages around the module, and its own. -/
  path : List String
  isPackage : Bool
  /-- The names that are defined or imported in the module. -/
  names : List String

/-- Why a module cannot be imported. -/
inductive ImportFault where
  | emptyName
  /-- The name is relative to a package, and there is none. -/
  | relative (name : String)
  /-- There is no module of the name. -/
  | missing (name : String)
  /-- The name is below that of a module that is no package. -/
  | notPackage (name parent : String)

/-- The text of a fault. -/
def ImportFault.message : ImportFault → String
  | emptyName => "Empty module name"
  | relative name =>
    "the 'package' argument is required to perform a relative import for " ++ Text.quoted name
  | missing name => "No module named " ++ Text.quoted name
  | notPackage name parent =>
    "No module named " ++ Text.quoted name ++ "; " ++ Text.quoted parent ++ " is not a package"

/-! ### The modules -/

/-- The modules of the program. -/
def modules : List CatalogueEntry := [
  ⟨["dfastack"], true, ["__version__"]⟩,
  ⟨["dfastack", "__main__"], false, ["LEVEL", "level_name", "logging", "main", "os", "run"]⟩,
  ⟨["dfastack", "version"], false,
    ["VERSION", "VERSION_SHORT", "_MAJOR", "_MINOR", "_PATCH", "_SUFFIX"]⟩,
  ⟨["dfastack", "automaton"], true,
    ["AutomatonConfig", "AutomatonError", "ConversionConfig", "DFA", "DFAState", "EPSILON",
      "FrozenAutomatonError", "InvalidAlphabetError", "NFA", "NFAConfig", "SubsetConstruction",
      "UnknownStateError", "UnknownSymbolError", "convert", "dfa_to_json", "epsilon_closure",
      "format_dfa", "move"]⟩,
  ⟨["dfastack", "automaton", "closure"], false,
    ["FrozenSet", "Hashable", "Iterable", "List", "NFA", "Set", "State", "epsilon_closure",
      "move"]⟩,
  ⟨["dfastack", "automaton", "config"], false,
    ["Any", "AutomatonConfig", "ConversionConfig", "DFA", "EPSILON", "FromJsonnet", "NFA",
      "NFAConfig", "Optional", "Sequence", "WorklistDiscipline", "cast", "convert",
      "dataclasses"]⟩,
  ⟨["dfastack", "automaton", "construction"], false,
    ["DFA", "DFAState", "Deque", "Dict", "Generic", "InvalidAlphabetError", "Iterable", "List",
      "Literal", "NFA", "Optional", "State", "SubsetConstruction", "Symbol", "WorklistDiscipline",
      "convert", "deque", "epsilon_closure", "getLogger", "logger", "move"]⟩,
  ⟨["dfastack", "automaton", "dfa"], false,
    ["AbstractSet", "DFA", "DFAState", "Dict", "FrozenAutomatonError", "FrozenSet", "Generic",
      "Iterable", "Iterator", "List", "Mapping", "Optional", "Sequence", "Set", "State", "Symbol",
      "Tuple", "UnknownStateError", "UnknownSymbolError", "abc", "sort_symbols"]⟩,
  ⟨["dfastack", "automaton", "errors"], false,
    ["Any", "AutomatonError", "FrozenAutomatonError", "Hashable", "InvalidAlphabetError",
      "Optional", "UnknownStateError", "UnknownSymbolError"]⟩,
  ⟨["dfastack", "automaton", "nfa"], false,
    ["AbstractSet", "Dict", "EPSILON", "FrozenSet", "Generic", "Hashable", "Iterable", "NFA",
      "Optional", "Set", "State", "Symbol", "Tuple", "TypeVar", "_EMPTY", "defaultdict"]⟩,
  ⟨["dfastack", "automaton", "render"], false,
    ["AbstractSet", "Any", "DFA", "Dict", "Hashable", "List", "_sorted_state", "dfa_to_json",
      "format_dfa", "format_state", "sort_symbols"]⟩,
  ⟨["dfastack", "commands"], true,
    ["Subcommand", "__version__", "annotations", "argparse", "create_subcommand", "main"]⟩,
  ⟨["dfastack", "commands", "subcommand"], false,
    ["Callable", "ClassVar", "Dict", "Optional", "Sequence", "Subcommand", "Type", "argparse"]⟩,
  ⟨["dfastack", "commands", "workflow"], false,
    ["Any", "Subcommand", "Workflow", "WorkflowCommand", "argparse", "getLogger",
      "import_modules", "importlib", "logger"]⟩,
  ⟨["dfastack", "common"], true, ["FromJsonnet", "load_jsonnet"]⟩,
  ⟨["dfastack", "common", "jsonnet"], false,
    ["Any", "ClassVar", "Dict", "FromJsonnet", "Mapping", "Optional", "PathLike", "Type",
      "TypeVar", "Union", "_T_FromJsonnet", "_child_key", "_environment_variables",
      "apply_overrides", "colt", "copy", "evaluate_file", "evaluate_snippet", "json",
      "load_jsonnet", "os", "parse_overrides"]⟩,
  ⟨["dfastack", "workflows"], true, ["AutomatonWorkflow", "Workflow"]⟩,
  ⟨["dfastack", "workflows", "automaton"], false,
    ["AutomatonConfig", "AutomatonWorkflow", "Literal", "Optional", "Workflow", "dfa_to_json",
      "format_dfa", "format_state", "getLogger", "json", "load_jsonnet", "logger", "minato"]⟩,
  ⟨["dfastack", "workflows", "workflow"], false,
    ["Any", "Callable", "ClassVar", "Dict", "Iterator", "Literal", "Optional", "Sequence", "Type",
      "Union", "Workflow", "argparse", "inspect", "typing"]⟩
]

/-- The names that every module has. -/
def commonNames : List String := [
  "__annotations__", "__builtins__", "__cached__", "__class__", "__delattr__", "__dict__",
  "__dir__", "__doc__", "__eq__", "__file__", "__format__", "__ge__", "__getattribute__",
  "__getstate__", "__gt__", "__hash__", "__init__", "__init_subclass__", "__le__", "__loader__",
  "__lt__", "__name__", "__ne__", "__new__", "__package__", "__reduce__", "__reduce_ex__",
  "__repr__", "__setattr__", "__sizeof__", "__spec__", "__str__", "__subclasshook__"
]

namespace CatalogueEntry

/-- Whether a module lies directly in a package. -/
def isIn (m package : CatalogueEntry) : Bool := m.path.dropLast == package.path

/-- Whether a name can be found in a module: it is there, or it is that of a module in the
package. -/
def exposes (m : CatalogueEntry) (name : String) : Bool :=
  m.names.contains name || commonNames.contains name ||
    (m.isPackage && (name == "__path__" ||
      modules.any fun inner => inner.isIn m && inner.path.getLast? == some name))

end CatalogueEntry

/-! ### Finding modules -/

/-- The module with a path. -/
def moduleAt? (path : List String) : Option CatalogueEntry := modules.find? (·.path == path)

/-- The module to which names lead from a module. -/
def followPath? (m : CatalogueEntry) : List String → Except ImportFault CatalogueEntry
  | [] => .ok m
  | name :: rest =>
    let path := m.path ++ [name]
    match moduleAt? path with
    | some inner => followPath? inner rest
    | none =>
      .error (if m.isPackage then .missing (".".intercalate path)
        else .notPackage (".".intercalate path) (".".intercalate m.path))

/-- The module with a dotted name. -/
def findModule? (name : String) : Except ImportFault CatalogueEntry :=
  match (name.toList.splitOn '.').map String.ofList with
  | [] | [""] => .error .emptyName
  | "" :: _ => .error (.relative name)
  | first :: rest =>
    match moduleAt? [first] with
    | some m => followPath? m rest
    | none => .error (.missing first)

end Determinize
