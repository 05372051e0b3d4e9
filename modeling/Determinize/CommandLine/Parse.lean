import Determinize.Collection.OrderedMap
import Determinize.CommandLine.Layout
import Determinize.CommandLine.Plan

/-!
# Reading a command line

The steps of the plan are carried out in turn: words are read and checked against the choices, and
bound to the key of their argument. A flag can end the program instead, by printing the help or the
version. At the end, required arguments must have been given, and the fallbacks of the others are
read if they are texts.

A fault ends the program with the usage and a message. Words that are left over are a fault only
after a selected command has read its own arguments.

## Main definitions

* `Bindings` — values by key.
* `Exit` — how a program ends without doing anything.
* `Signature.parse?` — the bindings of a command, and the words that are left over.
* `Suite`, `Suite.parse?` — commands under a common program.
-/

namespace Determinize.CommandLine

/-- Values by key. -/
abbrev Bindings := OrderedMap String Value

namespace Bindings

/-- The value of a key, `null` if there is none. -/
def value (b : Bindings) (key : String) : Value := (b.find? key).getD .null

/-- The items of a list, if they are texts. -/
def texts (b : Bindings) (key : String) : List String :=
  match b.value key with
  | .list items => items.filterMap fun x => match x with
    | .text s => some s
    | _ => none
  | _ => []

/-- The text of a key, empty if there is none. -/
def text (b : Bindings) (key : String) : String :=
  match b.value key with
  | .text s => s
  | _ => ""

end Bindings

/-- How a program ends without doing anything. -/
inductive Exit where
  /-- It prints something and leaves a status. -/
  | leaves (status : Nat) (output errors : String)
  /-- What is to be printed cannot be laid out. -/
  | fails (e : LayoutError)

namespace Signature

/-- The end of a program after its help was asked for. -/
def helpExit (s : Signature) : Exit :=
  match s.help? with
  | .ok help => .leaves 0 help ""
  | .error e => .fails e

/-- The end of a program after a fault. -/
def faultExit (s : Signature) (f : Fault) : Exit :=
  match s.usage? with
  | .ok usage => .leaves 2 "" (usage ++ "\n" ++ s.program ++ ": error: " ++ f.message ++ "\n")
  | .error e => .fails e

/-- A result, or the end of the program after a fault. -/
def orExit {α : Type} (s : Signature) (x : Except Fault α) : Except Exit α :=
  x.mapError s.faultExit

end Signature

namespace Argument

/-- Reads a word. -/
def read? (a : Argument) (word : String) : Except Fault Value :=
  match a.reading.read? word with
  | some x => .ok x
  | none => .error (.unreadable a word)

/-- Accepts a value that is one of the choices. -/
def requireChoice (a : Argument) (x : Value) : Except Fault Unit :=
  match a.choices with
  | none => .ok ()
  | some choices => if choices.contains x then .ok () else .error (.badChoice a x)

/-- Reads a word and accepts one of the choices. -/
def readChoice? (a : Argument) (word : String) : Except Fault Value := do
  let x ← a.read? word
  a.requireChoice x
  return x

/-- The value of words that an argument takes. A separator among them does not count, unless all that
are left are taken. -/
def valueOf? (a : Argument) (words : List String) : Except Fault Value := do
  match a.arity with
  | .rest => return .list (← words.mapM a.read?)
  | .command =>
    let xs ← words.mapM a.read?
    match xs with
    | x :: _ => a.requireChoice x
    | [] => pure ()
    return .list xs
  | arity =>
    match words.erase separatorText, arity, a.fallback with
    | [word], _, _ => a.readChoice? word
    | [], .optional, .text word => a.readChoice? word
    | [], .optional, x => return x
    | words, _, _ => return .list (← words.mapM a.readChoice?)

/-- What tells an argument from the others of a command. -/
def identity (a : Argument) : List String × String := (a.spellings, a.key)

/-- Whether the argument is bound to its fallback before words are read. -/
def isBound (a : Argument) : Bool :=
  match a.arity, a.effect with
  | .command, _ => false
  | _, .store | _, .append => true
  | _, _ => false

end Argument

/-- What is known after some steps. -/
structure Progress where
  bindings : Bindings
  /-- The keys that were bound by words. -/
  bound : List String
  /-- The arguments that took words. -/
  seen : List (List String × String)
  /-- The words that are left over. -/
  leftOver : List String

namespace Signature

/-- What is known before the first step. -/
def initial (s : Signature) : Progress where
  bindings := (s.arguments.filter Argument.isBound).foldl
    (fun b a => b.alter a.key (·.getD a.fallback)) .empty
  bound := []
  seen := []
  leftOver := []

/-- Carries out a step. -/
def perform? (s : Signature) (p : Progress) : Step → Except Exit Progress
  | .fault f => .error (s.faultExit f)
  | .leftOver word => .ok { p with leftOver := p.leftOver ++ [word] }
  | .take a words => do
    let x ← s.orExit (a.valueOf? words)
    let p := { p with seen := a.identity :: p.seen, bound := a.key :: p.bound }
    match a.effect with
    | .help => throw s.helpExit
    | .version text => throw (.leaves 0 (text ++ "\n") "")
    | .store => return { p with bindings := p.bindings.insert a.key x }
    | .append =>
      let items := match p.bindings.value a.key with
        | .list items => items
        | _ => []
      return { p with bindings := p.bindings.insert a.key (.list (items ++ [x])) }

/-- Whether a text is so short that there is only one of its kind. -/
def isUnique (s : String) : Bool := s.length ≤ 1 && s.toList.all fun c => c.toNat < 0x100

/-- Whether an argument is the first one that is bound to its key. -/
def isFirst (s : Signature) (a : Argument) : Bool :=
  ((s.arguments.filter Argument.isBound).find? (·.key == a.key)).any (·.identity == a.identity)

/-- Whether a key is bound to the fallback `word` of an argument itself. Another argument with the
same key can have the same fallback, and then the first of them is meant. -/
def isBoundToFallback (s : Signature) (p : Progress) (b : Bindings) (a : Argument)
    (word : String) : Bool :=
  b.find? a.key = some (.text word) &&
    (isUnique word || (!p.bound.contains a.key && s.isFirst a))

/-- Reads the fallback of an argument that took no words, if it is a text. -/
def applyFallback? (s : Signature) (p : Progress) (b : Bindings) (a : Argument) :
    Except Fault Bindings :=
  if p.seen.contains a.identity || a.required || !a.isBound then .ok b
  else match a.fallback with
    | .text word =>
      if s.isBoundToFallback p b a word then do return b.insert a.key (← a.read? word)
      else .ok b
    | _ => .ok b

/-- The labels of the required arguments that took no words. -/
def missing (s : Signature) (p : Progress) : List String :=
  (s.arguments.filter fun a => a.required && !p.seen.contains a.identity).filterMap Argument.label

/-- The bindings of a command, and the words that are left over. -/
def parse? (s : Signature) (texts : List String) : Except Exit (Bindings × List String) := do
  let steps ← s.orExit (s.plan? texts)
  let p ← steps.foldlM s.perform? s.initial
  let bindings ← s.orExit (s.arguments.foldlM (s.applyFallback? p) p.bindings)
  match s.missing p with
  | [] => return (bindings, p.leftOver)
  | labels => throw (s.faultExit (.missing labels))

end Signature

/-- Commands under a common program. -/
structure Suite where
  /-- The program, with an operand that selects a command. -/
  signature : Signature
  /-- The commands by name. -/
  commands : List (String × Signature)

namespace Suite

/-- The name of the selected command and its bindings; none if no command is selected. -/
def parse? (s : Suite) (texts : List String) : Except Exit (Option (String × Bindings)) := do
  let (bindings, leftOver) ← s.signature.parse? texts
  let (selected, leftOver) ←
    match bindings.texts Argument.commandKey with
    | [] => pure (none, leftOver)
    | name :: rest =>
      match s.commands.lookup name with
      | none => pure (none, leftOver)
      | some command =>
        let (inner, more) ← command.parse? rest
        pure (some (name, inner), leftOver ++ more)
  match leftOver with
  | [] => return selected
  | words => throw (s.signature.faultExit (.leftOver words))

end Suite

end Determinize.CommandLine
