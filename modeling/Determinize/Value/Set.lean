import Determinize.Collection.OrderedSet
import Determinize.Value.Order
import Determinize.Value.Shape

/-!
# Sets of values

States of deterministic automata, alphabets and sets of states are sets of values. A set is shown
with its members in the order of `sortSymbols`. As with values, there are texts whatever the number of
digits, and texts that fail if an integer has too many digits.

## Main definitions

* `ValueSet`, `ValueSet.ofItems?`, `ValueSet.ofValue?`.
* `ValueSet.sorted`, `ValueSet.render`, `ValueSet.quoted`, `ValueSet.quotedFrozen`.
* `ValueSet.writable`, `ValueSet.sorted?`, `ValueSet.render?`.
-/

namespace Determinize

/-- A set of values. -/
abbrev ValueSet := OrderedSet Value

namespace ValueSet

/-- The set of the given values, if all of them can be members of a set. -/
def ofItems? (xs : List Value) : Except ShapeError ValueSet := do
  xs.forM Value.requireHashable
  return OrderedSet.ofList xs

/-- The set of the items of a collection. -/
def ofValue? (x : Value) : Except ShapeError ValueSet := do
  ofItems? (← x.items?)

/-- The members in the order in which they are shown. -/
def sorted (s : ValueSet) : List Value := sortSymbols s.toList

/-- The members between braces, texts as they are. -/
def render (s : ValueSet) : String :=
  Value.openBrace ++ ", ".intercalate (s.sorted.map Value.display) ++ Value.closeBrace

/-- The members between braces, texts between quotes; `set()` without members. -/
def quoted (s : ValueSet) : String :=
  if s.isEmpty then "set()"
  else Value.openBrace ++ ", ".intercalate (s.sorted.map Value.quoted) ++ Value.closeBrace

/-- The text of a set that is itself a member of sets. -/
def quotedFrozen (s : ValueSet) : String :=
  if s.isEmpty then "frozenset()" else "frozenset(" ++ s.quoted ++ ")"

/-! ### Too many digits -/

variable [DigitLimit]

/-- Whether no integer in a set has too many digits to be written. -/
def writable (s : ValueSet) : Bool := s.toList.all Value.writable

/-- The members in the order in which they are shown, if the texts that this needs can be written. -/
def sorted? (s : ValueSet) : Option (List Value) := sortSymbols? s.toList

/-- The members between braces, if they can be written. -/
def render? (s : ValueSet) : Option String := do
  let texts ← (← s.sorted?).mapM Value.display?
  return Value.openBrace ++ ", ".intercalate texts ++ Value.closeBrace

/-- The members between braces, texts between quotes, if they can be written. -/
def quoted? (s : ValueSet) : Option String := if s.writable then some s.quoted else none

end ValueSet

end Determinize
