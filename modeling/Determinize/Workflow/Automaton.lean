import Determinize.Dfa.Render
import Determinize.Json.Encode
import Determinize.Workflow.Basic

/-!
# The automaton workflow

The workflow reads a configuration from a file, with overrides, and prints the automaton that it
describes or its conversion, as text or as JSON.

## Main definitions

* `loadConfig?` — the configuration in a file.
* `Nfa.lines?` — the lines that show an automaton.
* `automatonWorkflow`.
-/

namespace Determinize

open CommandLine

/-- The configuration in a file after overrides. Without a description of an automaton the run ends
with a message. -/
def loadConfig? (s : Surroundings) (filename overrides : String) : Except Run AutomatonConfig := do
  match s.file? filename with
  | none => throw (.failing (.missingFile filename))
  | some text =>
    let config ← (load? s.evaluate s.environment text overrides).mapError fun e => .failing (.load e)
    match config with
    | .object fields =>
      if (fields.lookup "nfa").isNone then throw (.leaving "No nfa given.\n" 1)
      (s.build? config).mapError fun e => .failing (.build e)
    | _ => throw (.leaving "No nfa given.\n" 1)

/-- Uses the configuration that the arguments of a call name. -/
def withConfig (s : Surroundings) (arguments : Bindings) (use : AutomatonConfig → Run) : Run :=
  let filename := arguments.text "config_filename"
  let run := match loadConfig? s filename (arguments.text "overrides") with
    | .ok config => use config
    | .error run => run
  run.logging [.loading filename]

/-- The texts of the source, the symbol and the target of a transition, if they can be written. -/
def transitionTexts? [DigitLimit] : Value × Value × Value → Option (List String)
  | (source, symbol, target) => [source, symbol, target].mapM Value.display?

/-- The line of a transition with these texts. -/
def transitionText : List String → String
  | [source, symbol, target] => "  " ++ source ++ " --" ++ symbol ++ "--> " ++ target
  | _ => ""

/-- The lines that show the transitions of an automaton in the order of their texts. -/
def Nfa.transitionLines? [DigitLimit] (n : Nfa) : Option (List String) := do
  let texts ← n.transitions.mapM transitionTexts?
  return (insertionSort (fun x y => decide (x < y)) texts).map transitionText

/-- The lines that show an automaton: its start and accept states, and its transitions. The last one is
missing if it cannot be written. -/
def Nfa.lines? [DigitLimit] (n : Nfa) : List (Option String) :=
  [n.starts.render?.map ("Start states: " ++ ·), n.accepts.render?.map ("Accept states: " ++ ·)] ++
    match n.transitionLines? with
    | some lines => lines.map some
    | none => [none]

/-- Text that ends in a line feed. -/
def line (text : String) : String := text ++ "\n"

/-- Prints lines up to the first one that cannot be written, at which the run fails. -/
def printingLines : List (Option String) → Run
  | [] => .printing ""
  | none :: _ => .failing (.config (.automaton .tooManyDigits))
  | some text :: lines =>
    let rest := printingLines lines
    { rest with output := line text ++ rest.output }

/-- Prints the automaton that a configuration describes. -/
def AutomatonConfig.show [DigitLimit] (c : AutomatonConfig) : Run :=
  match c.nfa? with
  | .ok n => printingLines n.lines?
  | .error e => .failing (.config e)

/-- What a conversion prints: its text, or its data as a line of JSON. -/
def Conversion.printed? [DigitLimit] (conversion : Conversion) (asJson : Bool) :
    Except AutomatonError String :=
  if asJson then do orTooManyDigits (Json.render? (← conversion.dfa.toValue?))
  else conversion.dfa.render?

/-- Prints the conversion that a configuration describes. -/
def AutomatonConfig.convert [DigitLimit] (c : AutomatonConfig) (asJson : Bool) : Run :=
  match c.convert? with
  | .error e => .failing (.config e)
  | .ok conversion =>
    let run : Run := match conversion.printed? asJson with
      | .ok text => .printing (line text)
      | .error e => .failing (.config (.automaton e))
    run.logging conversion.events

/-- The parameters by which a configuration is given. -/
def filenameParameter : Parameter := ⟨"config_filename", false, .text, none⟩

/-- The parameter for overrides. -/
def overridesParameter : Parameter := ⟨"overrides", true, .optional .text, some .null⟩

/-- The parameter for the form of the output. -/
def formatParameter : Parameter :=
  ⟨"output_format", true, .choice [.text "text", .text "json"], some (.text "text")⟩

/-- The workflow that shows and converts automata. -/
def automatonWorkflow : Workflow where
  name := "AutomatonWorkflow"
  description := some "convert NFA descriptions into DFAs"
  methods := [
    { name := "convert"
      description := some "convert an NFA into a DFA and print its transition table"
      parameters := [filenameParameter, overridesParameter, formatParameter]
      action := fun s arguments =>
        withConfig s arguments fun c => c.convert (arguments.text "output_format" == "json") },
    { name := "show"
      description := some "print the NFA described by a config"
      parameters := [filenameParameter, overridesParameter]
      action := fun s arguments => withConfig s arguments AutomatonConfig.show }]

end Determinize
