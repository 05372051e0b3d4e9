import Determinize.Collection.OrderedMap
import Determinize.Text.Quoted

/-!
# Registries

A registry holds things under names, in the order in which the names were registered. An open registry
answers requests for its names and for the thing under a name, and lets a name be taken again; any
other registry only takes new names.

## Main definitions

* `Registry`, `Registry.register?`, `Registry.byName?`, `Registry.names`.
* `Registry.requestRegister?`, `Registry.requestByName?`, `Registry.requestNames?` — requests.
-/

namespace Determinize

/-- Things under names. -/
structure Registry (α : Type) where
  /-- What the things are called in messages. -/
  noun : String
  /-- Whether all requests are answered. -/
  isOpen : Bool
  entries : OrderedMap String α

/-- What a registry refuses. -/
inductive RegistryError where
  | alreadyRegistered (noun name : String)
  | unknown (name : String)
  /-- The registry does not answer this request. -/
  | closed (noun request : String)
  /-- The registry does not let names be taken again. -/
  | irreplaceable (noun : String)

/-- The text of an error. -/
def RegistryError.message : RegistryError → String
  | alreadyRegistered noun name => noun ++ " '" ++ name ++ "' was already registered."
  | unknown name => Text.quoted name
  | closed noun request => "type object '" ++ noun ++ "' has no attribute '" ++ request ++ "'"
  | irreplaceable noun => noun ++ ".register() got an unexpected keyword argument 'exist_ok'"

namespace Registry

variable {α : Type}

/-- Puts a thing under a name. The name must be new unless `replace` is set. -/
def register? (r : Registry α) (name : String) (x : α) (replace : Bool) :
    Except RegistryError (Registry α) :=
  if !replace && r.entries.contains name then .error (.alreadyRegistered r.noun name)
  else .ok { r with entries := r.entries.insert name x }

/-- The thing under a name. -/
def byName? (r : Registry α) (name : String) : Except RegistryError α :=
  match r.entries.find? name with
  | some x => .ok x
  | none => .error (.unknown name)

/-- The names, in the order in which they were registered. -/
def names (r : Registry α) : List String := r.entries.entries.map (·.1)

/-- The registry with one name. -/
def single (noun : String) (isOpen : Bool) (name : String) (x : α) : Registry α :=
  ⟨noun, isOpen, OrderedMap.empty.insert name x⟩

/-! ### Requests -/

/-- Asks for a thing to be put under a name. Whether the name can be taken already can be left
unsaid. -/
def requestRegister? (r : Registry α) (name : String) (x : α) (replace? : Option Bool) :
    Except RegistryError (Registry α) :=
  if replace?.isSome && !r.isOpen then .error (.irreplaceable r.noun)
  else r.register? name x (replace?.getD false)

/-- Asks for the thing under a name. -/
def requestByName? (r : Registry α) (name : String) : Except RegistryError α :=
  if r.isOpen then r.byName? name else .error (.closed r.noun "by_name")

/-- Asks for the names. -/
def requestNames? (r : Registry α) : Except RegistryError (List String) :=
  if r.isOpen then .ok r.names else .error (.closed r.noun "available_names")

end Registry

end Determinize
