import Determinize.Log.Level
import Determinize.Value.Set

/-!
# Log events

## Main definitions

* `Event`, `Event.level`, `Event.message`.
-/

namespace Determinize

/-- What is reported to the log. -/
inductive Event where
  /-- A construction found a new state. -/
  | discovered (state : ValueSet)
  /-- A construction is complete. -/
  | constructed (states accepting symbols : Nat)
  /-- A configuration is about to be loaded. -/
  | loading (filename : String)
  /-- Packages are about to be imported. -/
  | importing (packages : List String)

namespace Event

/-- The level of the record of an event. -/
def level : Event → Level
  | discovered _ => .debug
  | constructed .. | loading _ | importing _ => .info

/-- The text of the record of an event. The members of a new state are in the order of their texts;
what cannot be written is not reported. -/
def message : Event → String
  | discovered state =>
    let sorted := insertionSort (fun x y => decide (x.display < y.display)) state.toList
    "Discovered state " ++ (Value.list sorted).quoted
  | constructed states accepting symbols =>
    "Constructed DFA with " ++ toString states ++ " states (" ++ toString accepting ++
      " accepting) over " ++ toString symbols ++ " symbols"
  | loading filename => "Loading config from " ++ filename
  | importing packages =>
    "Importing packages: " ++ (Value.list (packages.map .text)).quoted

end Event

end Determinize
