import Determinize.Value.Text

/-!
# The order of values

Numbers are compared by value, truth values being `0` and `1`; texts by the code points of their
characters; tuples with tuples and lists with lists by the first position with different items, and
if there is none by length. All other pairs of values are not comparable, and neither are tuples or
lists whose first different items are not.

`sortSymbols` sorts in ascending order if the comparisons that the sort makes are all possible, and
otherwise by the name of the type and the text. Both sorts are stable. The texts can be written only if
no integer has too many digits; `sortSymbols?` fails if they are needed and one has.

## Main definitions

* `Value.less?` — the order, where it is defined.
* `insertionSort`, `insertionSort?` — stable sorts by an order and by a partial order.
* `sortSymbols`, `sortSymbols?` — the order in which members of sets are shown.
* `sortSymbolsBy?` — the same with another way of sorting.
-/

namespace Determinize

namespace Value

/-- The number that a value stands for. -/
def number? : Value → Option Double
  | bool b => some (.finite b.toNat)
  | int n => some (.finite n)
  | real x => some x
  | _ => none

mutual

/-- Whether the first value is less than the second, if they are comparable. -/
def less? : Value → Value → Option Bool
  | text s, text t => some (decide (s < t))
  | tuple xs, tuple ys => lessItems? xs ys
  | list xs, list ys => lessItems? xs ys
  | x, y => do return (← x.number?).lt (← y.number?)

/-- Whether the first sequence is less than the second, if they are comparable. -/
def lessItems? : List Value → List Value → Option Bool
  | [], ys => some !ys.isEmpty
  | _ :: _, [] => some false
  | x :: xs, y :: ys => if x == y then lessItems? xs ys else less? x y

end

/-- Whether the first value comes before the second by the name of the type, then by the text. -/
def textLess (x y : Value) : Bool :=
  if x.typeName = y.typeName then decide (x.display < y.display)
  else decide (x.typeName < y.typeName)

end Value

/-! ### Stable sorts -/

section Sorting

variable {α : Type}

/-- Inserts `x` before the first item that is not less than `x`. -/
def insertBefore (less : α → α → Bool) (x : α) : List α → List α
  | [] => [x]
  | y :: ys => if less y x then y :: insertBefore less x ys else x :: y :: ys

/-- Sorts a list in ascending order, items that are not less than each other staying in order. -/
def insertionSort (less : α → α → Bool) : List α → List α
  | [] => []
  | x :: xs => insertBefore less x (insertionSort less xs)

/-- Inserts `x` before the first item that is not less than `x`, by a partial order. -/
def insertBefore? (less? : α → α → Option Bool) (x : α) : List α → Option (List α)
  | [] => some [x]
  | y :: ys => do
    if ← less? y x then return y :: (← insertBefore? less? x ys)
    else return x :: y :: ys

/-- Sorts a list by a partial order. No answer if a comparison on the way has none. -/
def insertionSort? (less? : α → α → Option Bool) : List α → Option (List α)
  | [] => some []
  | x :: xs => do insertBefore? less? x (← insertionSort? less? xs)

end Sorting

/-- The values in ascending order, or by the name of the type and the text if they are not
comparable, whatever the number of digits. -/
def sortSymbols (xs : List Value) : List Value :=
  (insertionSort? Value.less? xs).getD (insertionSort Value.textLess xs)

/-- The values, sorted in the given way: in ascending order if this succeeds, and otherwise by the name
of the type and the text, if the values can be written. -/
def sortSymbolsBy? [DigitLimit]
    (sort : (Value → Value → Option Bool) → List Value → Option (List Value)) (xs : List Value) :
    Option (List Value) :=
  match sort Value.less? xs with
  | some ys => some ys
  | none => if xs.all Value.writable then sort (fun x y => some (Value.textLess x y)) xs else none

/-- The values in ascending order, or by the name of the type and the text if they are not comparable
and can be written. -/
def sortSymbols? [DigitLimit] (xs : List Value) : Option (List Value) :=
  sortSymbolsBy? insertionSort? xs

end Determinize
