import Determinize.Value.Basic

/-!
# The shape of values

Where a collection is expected, a list, a tuple, a text (its characters) or an object (its keys)
serves; anything else is not iterable. Members of sets have to be hashable.

## Main definitions

* `ShapeError` — what a value of the wrong shape is reported as.
* `Value.items?`, `Value.triple?`, `Value.hashFault?`, `Value.requireHashable`.
-/

namespace Determinize

/-- What a value of the wrong shape is reported as. -/
inductive ShapeError where
  /-- A list or an object where a member of a set is expected. -/
  | unhashable (part : Value)
  /-- No collection where one is expected. -/
  | notIterable (x : Value)
  /-- No collection where a triple is expected. -/
  | notUnpackable (x : Value)
  /-- Fewer than three items where a triple is expected. -/
  | tooFewItems (count : Nat)
  /-- More than three items where a triple is expected. -/
  | tooManyItems

/-- The text of an error. -/
def ShapeError.message : ShapeError → String
  | unhashable part => "unhashable type: '" ++ part.typeName ++ "'"
  | notIterable x => "'" ++ x.typeName ++ "' object is not iterable"
  | notUnpackable x => "cannot unpack non-iterable " ++ x.typeName ++ " object"
  | tooFewItems count =>
    "not enough values to unpack (expected 3, got " ++ toString count ++ ")"
  | tooManyItems => "too many values to unpack (expected 3)"

namespace Value

/-- The items of a collection. -/
def itemList? : Value → Option (List Value)
  | tuple items => some items
  | list items => some items
  | text s => some (s.toList.map fun c => text (String.singleton c))
  | object fields => some (fields.map fun field => text field.1)
  | _ => none

/-- The items of a collection. -/
def items? (x : Value) : Except ShapeError (List Value) :=
  match x.itemList? with
  | some items => .ok items
  | none => .error (.notIterable x)

/-- The three items of a triple. -/
def triple? (x : Value) : Except ShapeError (Value × Value × Value) :=
  match x.itemList? with
  | none => .error (.notUnpackable x)
  | some [a, b, c] => .ok (a, b, c)
  | some items => .error (if items.length < 3 then .tooFewItems items.length else .tooManyItems)

/-- The fault of a value that cannot be a member of a set. -/
def hashFault? (x : Value) : Option ShapeError :=
  x.unhashablePart?.map .unhashable

/-- Fails if the value cannot be a member of a set. -/
def requireHashable (x : Value) : Except ShapeError Unit :=
  match x.hashFault? with
  | some fault => .error fault
  | none => .ok ()

end Value

end Determinize
