import Determinize.Number.Double

/-!
# Values

States and symbols of automata, configurations and arguments are *values*: dynamically typed data
with truth values, integers of any size, doubles, texts, tuples, lists and objects. Left out are
values of other types that can be members of sets, such as sets that cannot be changed, bytes and
complex numbers, and texts with lone surrogates.

Two values are equal as members of a set, `x == y`, when they agree up to the type of numbers: truth
values count as `0` and `1`, a double with a whole value as an integer, and an object that is not a
number equals itself only. This is decided on a canonical form (`Value.canonical`), so it is an
equivalence relation (`instEquivBEqValue`); it is coarser than equality of the data (`x = y`), which
tells `True`, `1` and `1.0` apart. Compared themselves, values that are not a number differ from
everything (`Value.differs`).

A value can be a member of a set or a key of a map when it is *hashable*, that is, when no list and
no object occurs in it.

## Main definitions

* `Value` — dynamically typed data.
* `Value.canonical` and the instance `BEq Value` — equality up to the type of numbers.
* `Value.differs` — direct comparison.
* `Value.unhashablePart?`, `Value.Hashable`.
* `Value.typeName`.
-/

namespace Determinize

/-- Dynamically typed data. The fields of an object are in insertion order. -/
inductive Value where
  | null
  | bool (b : Bool)
  | int (n : Int)
  | real (x : Double)
  | text (s : String)
  | tuple (items : List Value)
  | list (items : List Value)
  | object (fields : List (String × Value))

namespace Value

instance : Inhabited Value := ⟨null⟩

/-! ### Equality of the data -/

mutual

/-- Whether two values are the same data. -/
def decEq : (x y : Value) → Decidable (x = y)
  | null, null => isTrue rfl
  | bool a, bool b => decidable_of_iff (a = b) (by simp)
  | int a, int b => decidable_of_iff (a = b) (by simp)
  | real a, real b => decidable_of_iff (a = b) (by simp)
  | text a, text b => decidable_of_iff (a = b) (by simp)
  | tuple a, tuple b => @decidable_of_iff _ (a = b) (by simp) (decEqItems a b)
  | list a, list b => @decidable_of_iff _ (a = b) (by simp) (decEqItems a b)
  | object a, object b => @decidable_of_iff _ (a = b) (by simp) (decEqFields a b)
  | null, bool _ | null, int _ | null, real _ | null, text _ | null, tuple _ | null, list _
  | null, object _ => isFalse (by simp)
  | bool _, null | bool _, int _ | bool _, real _ | bool _, text _ | bool _, tuple _
  | bool _, list _ | bool _, object _ => isFalse (by simp)
  | int _, null | int _, bool _ | int _, real _ | int _, text _ | int _, tuple _ | int _, list _
  | int _, object _ => isFalse (by simp)
  | real _, null | real _, bool _ | real _, int _ | real _, text _ | real _, tuple _
  | real _, list _ | real _, object _ => isFalse (by simp)
  | text _, null | text _, bool _ | text _, int _ | text _, real _ | text _, tuple _
  | text _, list _ | text _, object _ => isFalse (by simp)
  | tuple _, null | tuple _, bool _ | tuple _, int _ | tuple _, real _ | tuple _, text _
  | tuple _, list _ | tuple _, object _ => isFalse (by simp)
  | list _, null | list _, bool _ | list _, int _ | list _, real _ | list _, text _
  | list _, tuple _ | list _, object _ => isFalse (by simp)
  | object _, null | object _, bool _ | object _, int _ | object _, real _ | object _, text _
  | object _, tuple _ | object _, list _ => isFalse (by simp)

/-- Whether two lists of values are the same data. -/
def decEqItems : (xs ys : List Value) → Decidable (xs = ys)
  | [], [] => isTrue rfl
  | x :: xs, y :: ys =>
    @decidable_of_iff _ (x = y ∧ xs = ys) (by simp)
      (@instDecidableAnd _ _ (decEq x y) (decEqItems xs ys))
  | [], _ :: _ | _ :: _, [] => isFalse (by simp)

/-- Whether two lists of fields are the same data. -/
def decEqFields : (xs ys : List (String × Value)) → Decidable (xs = ys)
  | [], [] => isTrue rfl
  | (k, x) :: xs, (l, y) :: ys =>
    @decidable_of_iff _ (k = l ∧ x = y ∧ xs = ys) (by simp [and_assoc])
      (@instDecidableAnd _ _ inferInstance
        (@instDecidableAnd _ _ (decEq x y) (decEqFields xs ys)))
  | [], _ :: _ | _ :: _, [] => isFalse (by simp)

end

instance : DecidableEq Value := decEq

/-! ### Equality up to the type of numbers -/

/-- The canonical form of a double: an integer if its value is whole. -/
def ofDouble (x : Double) : Value :=
  match x.toRat? with
  | some r => if r.den = 1 then int r.num else real x
  | none => real x

mutual

/-- The representative of a value under equality up to the type of numbers. -/
def canonical : Value → Value
  | null => null
  | bool b => int b.toNat
  | int n => int n
  | real x => ofDouble x
  | text s => text s
  | tuple items => tuple (canonicalItems items)
  | list items => list (canonicalItems items)
  | object fields => object (canonicalFields fields)

/-- The canonical forms of a list of values. -/
def canonicalItems : List Value → List Value
  | [] => []
  | x :: xs => canonical x :: canonicalItems xs

/-- Fields with the canonical forms of their values. -/
def canonicalFields : List (String × Value) → List (String × Value)
  | [] => []
  | (k, x) :: fields => (k, canonical x) :: canonicalFields fields

end

/-- Equality up to the type of numbers. -/
instance instBEqValue : BEq Value := ⟨fun x y => decide (x.canonical = y.canonical)⟩

theorem beq_iff_canonical {x y : Value} : (x == y) = true ↔ x.canonical = y.canonical :=
  decide_eq_true_iff

instance instEquivBEqValue : EquivBEq Value where
  rfl := beq_iff_canonical.mpr rfl
  symm h := beq_iff_canonical.mpr (beq_iff_canonical.mp h).symm
  trans h h' := beq_iff_canonical.mpr ((beq_iff_canonical.mp h).trans (beq_iff_canonical.mp h'))

/-! ### Types -/

/-- The name of the type of a value. -/
def typeName : Value → String
  | null => "NoneType"
  | bool _ => "bool"
  | int _ => "int"
  | real _ => "float"
  | text _ => "str"
  | tuple _ => "tuple"
  | list _ => "list"
  | object _ => "dict"

/-- Whether a value is an object that is not a number. -/
def isNaN : Value → Bool
  | real x => !x.isNumber
  | _ => false

/-- Whether two values differ when they are compared themselves and not as members of a set: what is not
a number differs from itself. -/
def differs (x y : Value) : Bool := x.isNaN || !(x == y)

mutual

/-- The first list or object that keeps a value from being a member of a set. -/
def unhashablePart? : Value → Option Value
  | list items => some (list items)
  | object fields => some (object fields)
  | tuple items => unhashableItem? items
  | null | bool _ | int _ | real _ | text _ => none

/-- The first list or object that keeps a list of values from being members of a set. -/
def unhashableItem? : List Value → Option Value
  | [] => none
  | x :: xs => (unhashablePart? x).or (unhashableItem? xs)

end

/-- Whether a value can be a member of a set. -/
def Hashable (x : Value) : Prop := x.unhashablePart? = none

instance (x : Value) : Decidable x.Hashable := inferInstanceAs (Decidable (_ = none))

end Value

end Determinize
