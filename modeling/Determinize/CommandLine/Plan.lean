import Determinize.CommandLine.Argument

/-!
# Assigning words to arguments

The words of a command line are first classified one by one (`Word.ofText?`): options are recognised
by their spelling, or by the beginning of a spelling of at least two hyphens if no other begins in
this way; a value can be attached after an equals sign. After the word `--` there are no options.

Then they are assigned from left to right (`Signature.plan`). Before an option, as many operands as
possible take the words before it, the first ones as many as they can. An option takes the word after
it or the value attached to it. A word that nothing takes is left over.

The assignment does not depend on how words are read. It ends at the first fault.

## Main definitions

* `Fault`, `Fault.message`.
* `Word`, `Word.ofText?`.
* `counts?`, `assignable` — the numbers of words that operands take.
* `Step`, `Signature.plan`.
-/

namespace Determinize.CommandLine

/-! ### Faults -/

/-- What is wrong with a command line. -/
inductive Fault where
  /-- An option has no value. -/
  | noValue (a : Argument)
  /-- A flag has a value. -/
  | needlessValue (a : Argument) (value : String)
  /-- A word cannot be read. -/
  | unreadable (a : Argument) (word : String)
  /-- A value is none of the choices. -/
  | badChoice (a : Argument) (x : Value)
  /-- A word is the beginning of several options. -/
  | ambiguous (word : String) (spellings : List String)
  /-- Required arguments are missing. -/
  | missing (labels : List String)
  /-- Words are left over. -/
  | leftOver (words : List String)

namespace Fault

/-- A message about an argument. -/
def about (a : Argument) (message : String) : String :=
  match a.label with
  | some label => "argument " ++ label ++ ": " ++ message
  | none => message

/-- The text of a fault. -/
def message : Fault → String
  | noValue a => about a "expected one argument"
  | needlessValue a value => about a ("ignored explicit argument " ++ Text.quoted value)
  | unreadable a word =>
    about a ("invalid " ++ a.reading.name ++ " value: " ++ Text.quoted word)
  | badChoice a x =>
    about a ("invalid choice: " ++ x.quoted ++ " (choose from " ++
      ", ".intercalate ((a.choices.getD []).map Value.quoted) ++ ")")
  | ambiguous word spellings =>
    "ambiguous option: " ++ word ++ " could match " ++ ", ".intercalate spellings
  | missing labels => "the following arguments are required: " ++ ", ".intercalate labels
  | leftOver words => "unrecognized arguments: " ++ " ".intercalate words

end Fault

/-! ### Words -/

/-- A word of a command line. -/
inductive Word where
  /-- The word after which there are no options. -/
  | separator
  | plain (text : String)
  /-- A word that looks like an option and is none. -/
  | unknown (text : String)
  /-- An option, by one of its spellings and with the value attached to it. -/
  | option (text : String) (a : Argument) (spelling : String) (attached : Option String)

/-- The word after which there are no options. -/
def separatorText : String := "--"

/-- The text of a word. -/
def Word.text : Word → String
  | separator => separatorText
  | plain text | unknown text | option text .. => text

/-- Whether a word looks like an option. -/
def Word.isOption : Word → Bool
  | unknown _ | option .. => true
  | separator | plain _ => false

/-- A text up to its first equals sign, and what follows it. -/
def splitAtEquals (s : String) : String × Option String :=
  let cs := s.toList
  (String.ofList (cs.takeWhile (· ≠ '=')),
    (cs.dropWhile (· ≠ '=')).tail?.map String.ofList)

/-- Whether a text is a negative number, possibly with a fraction. -/
def isNegativeNumber (s : String) : Bool :=
  let isDigit (c : Char) := (Text.decimalDigit? c).isSome
  match s.toList with
  | '-' :: cs =>
    let cs := if cs.getLast? == some '\n' then cs.dropLast else cs
    match cs.dropWhile isDigit with
    | [] => !cs.isEmpty
    | '.' :: fraction => !fraction.isEmpty && fraction.all isDigit
    | _ => false
  | _ => false

/-- The spellings of the options. -/
def Signature.spellings (s : Signature) : List (String × Argument) :=
  s.arguments.flatMap fun a => a.spellings.map fun spelling => (spelling, a)

/-- The options that a word can stand for without being one of their spellings. -/
def Signature.candidates (s : Signature) (text : String) : List (String × Argument × Option String) :=
  match text.toList with
  | '-' :: '-' :: _ =>
    let (start, attached) := splitAtEquals text
    (s.spellings.filter fun entry => entry.1.startsWith start).map fun (spelling, a) =>
      (spelling, a, attached)
  | cs =>
    s.spellings.filterMap fun (spelling, a) =>
      if spelling.toList = cs.take 2 then some (spelling, a, some (String.ofList (cs.drop 2)))
      else if spelling.startsWith text then some (spelling, a, none)
      else none

/-- The word with the given text. -/
def Word.ofText? (s : Signature) (text : String) : Except Fault Word :=
  if text.toList.head? ≠ some '-' then .ok (plain text)
  else match s.spellings.lookup text with
    | some a => .ok (option text a text none)
    | none =>
      if text = "-" then .ok (plain text)
      else
        let (spelling, attached) := splitAtEquals text
        match s.spellings.lookup spelling, attached with
        | some a, some value => .ok (option text a spelling (some value))
        | _, _ =>
          match s.candidates text with
          | [(spelling, a, attached)] => .ok (option text a spelling attached)
          | [] =>
            .ok (if isNegativeNumber text || text.toList.contains ' ' then plain text
              else unknown text)
          | several => .error (.ambiguous text (several.map (·.1)))

/-- The words of a command line. -/
def Word.ofTexts? (s : Signature) : List String → Except Fault (List Word)
  | [] => .ok []
  | text :: texts =>
    if text = separatorText then .ok (separator :: texts.map plain)
    else do
      let word ← ofText? s text
      return word :: (← ofTexts? s texts)

/-! ### Operands -/

/-- The number of separators at the start. -/
def separators (words : List Word) : Nat :=
  (words.takeWhile fun word => match word with
    | .separator => true
    | _ => false).length

/-- The number of words at the start that are separators around a plain word. -/
def aroundPlain? (words : List Word) : Option (Nat × Nat) :=
  let before := separators words
  match words.drop before with
  | .plain _ :: rest => some (before + 1, separators rest)
  | _ => none

/-- The numbers from `least` to `most`, the greatest first. -/
def downFrom (most least : Nat) : List Nat :=
  ((List.range (most + 1 - least)).map (· + least)).reverse

/-- The numbers of words that an argument can take at the start, in the order of preference. -/
def takeable (arity : Arity) (words : List Word) : List Nat :=
  let alone := downFrom (separators words) 0
  match arity, aroundPlain? words with
  | .flag, _ => [0]
  | .one, none => []
  | .one, some (taken, after) => downFrom (taken + after) taken
  | .optional, none => alone
  | .optional, some (taken, after) => downFrom (taken + after) taken ++ alone
  | .rest, _ => downFrom words.length 0
  | .command, none => []
  | .command, some (taken, _) => downFrom words.length taken

/-- The numbers of words that operands take at the start, the first ones as many as they can. -/
def counts? : List Argument → List Word → Option (List Nat)
  | [], _ => some []
  | a :: rest, words =>
    (takeable a.arity words).findSome? fun n => (counts? rest (words.drop n)).map (n :: ·)

/-- The numbers of words that the first operands take at the start, for as many operands as
possible. -/
def assignable (pending : List Argument) (words : List Word) : List Nat :=
  ((downFrom pending.length 1).findSome? fun n => counts? (pending.take n) words).getD []

/-! ### Plans -/

/-- A step of an assignment. -/
inductive Step where
  /-- An argument takes words. -/
  | take (a : Argument) (words : List String)
  | leftOver (word : String)
  | fault (f : Fault)

/-- The steps in which operands take as many words as given, in turn. -/
def takeSteps : List Argument → List Nat → List Word → List Step
  | a :: pending, n :: counts, words =>
    .take a ((words.take n).map Word.text) :: takeSteps pending counts (words.drop n)
  | _, _, _ => []

/-- The number of words that operands take together. -/
def total (counts : List Nat) : Nat := counts.foldr (· + ·) 0

/-- The steps for words without options. -/
def lastSteps (pending : List Argument) (words : List Word) : List Step :=
  let counts := assignable pending words
  takeSteps pending counts words ++
    (words.drop (total counts)).map fun word => .leftOver word.text

namespace Signature

/-- The flags in a word that begins with a flag of one letter, the other letters being flags too. -/
def cluster (s : Signature) (a : Argument) : List Char → Except Fault (List Argument)
  | [] => .ok [a]
  | c :: cs =>
    match s.spellings.lookup (String.ofList ['-', c]) with
    | some b => (s.cluster b cs).map (a :: ·)
    | none => .error (.needlessValue a (String.ofList (c :: cs)))

/-- The steps for an option that is a flag. -/
def flagSteps (s : Signature) (a : Argument) (spelling : String) (attached : Option String) :
    List Step :=
  match attached with
  | none => [.take a []]
  | some value =>
    if value.isEmpty || spelling.startsWith separatorText then [.fault (.needlessValue a value)]
    else match s.cluster a value.toList with
      | .ok flags => flags.map fun flag => .take flag []
      | .error f => [.fault f]

/-- The steps in which the words of a command line are assigned to the arguments, of which the given
operands are still without words. -/
def planFrom (s : Signature) (pending : List Argument) : List Word → List Step
  | [] => lastSteps pending []
  | .unknown text :: words => .leftOver text :: s.planFrom pending words
  | .option _ a spelling attached :: words =>
    if a.arity = .flag then s.flagSteps a spelling attached ++ s.planFrom pending words
    else match attached, words.head? with
      | some value, _ => .take a [value] :: s.planFrom pending words
      | none, some (.plain value) => .take a [value] :: s.planFrom pending words.tail
      | none, _ => [.fault (.noValue a)]
  | word :: words =>
    if words.any Word.isOption then
      if _taken : 0 < total (assignable pending (word :: words)) then
        let counts := assignable pending (word :: words)
        takeSteps pending counts (word :: words) ++
          s.planFrom (pending.drop counts.length) ((word :: words).drop (total counts))
      else .leftOver word.text :: s.planFrom pending words
    else lastSteps pending (word :: words)
termination_by words => words.length
decreasing_by all_goals (simp only [List.length_drop, List.length_cons, List.length_tail]; omega)

/-- The steps in which the words of a command line are assigned to the arguments. -/
def plan? (s : Signature) (texts : List String) : Except Fault (List Step) := do
  return s.planFrom (s.arguments.filter fun a => !a.isOption) (← Word.ofTexts? s texts)

end Signature

end Determinize.CommandLine
