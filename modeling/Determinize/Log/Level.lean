import Determinize.Text.Upper

/-!
# Log levels

The least level of the records that are shown is taken from the environment. A debugging variable
that is not empty asks for everything; otherwise a variable holds the name of the level, in any
case, and an unknown or missing name stands for `INFO`.

## Main definitions

* `Level`, `Level.number`, `Level.ofName?`, `Level.ofEnvironment`.
-/

namespace Determinize

/-- The level of a log record. -/
inductive Level where
  | critical
  | error
  | warning
  | info
  | debug
  | notset
  deriving DecidableEq

namespace Level

/-- The number by which levels are compared. -/
def number : Level → Nat
  | critical => 50
  | error => 40
  | warning => 30
  | info => 20
  | debug => 10
  | notset => 0

/-- The name of a level in a log record. -/
def name : Level → String
  | critical => "CRITICAL"
  | error => "ERROR"
  | warning => "WARNING"
  | info => "INFO"
  | debug => "DEBUG"
  | notset => "NOTSET"

/-- The level with an upper-case name. -/
def ofName? : String → Option Level
  | "CRITICAL" | "FATAL" => some critical
  | "ERROR" => some error
  | "WARN" | "WARNING" => some warning
  | "INFO" => some info
  | "DEBUG" => some debug
  | "NOTSET" => some notset
  | _ => none

/-- The variable that asks for everything to be shown. -/
def debugVariable : String := "DFASTACK_DEBUG"

/-- The variable that holds the name of the level. -/
def levelVariable : String := "DFASTACK_LOG_LEVEL"

/-- The least level of the records that are shown. -/
def ofEnvironment (environment : List (String × String)) : Level :=
  if ((environment.lookup debugVariable).getD "").isEmpty then
    ((environment.lookup levelVariable).bind fun s => ofName? (Text.upper s)).getD info
  else debug

end Level

end Determinize
