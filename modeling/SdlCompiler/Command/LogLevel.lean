import SdlCompiler.Numeric.Integer

/-!
# Levels of messages
-/

namespace SdlCompiler.Command

inductive Level where
  | off
  | error
  | warn
  | info
  | debug
  | trace
deriving DecidableEq, Repr

namespace Level

def all : List Level := [.off, .error, .warn, .info, .debug, .trace]

def name : Level → String
  | off => "off"
  | error => "error"
  | warn => "warn"
  | info => "info"
  | debug => "debug"
  | trace => "trace"

/-- The place of a level, from the one that shows nothing to the one that shows all. -/
def rank (level : Level) : Nat :=
  all.idxOf level

/-- The number that a text writes without a minus sign. -/
def rank? : List Char → Option Nat
  | '+' :: digits => Numeric.digits? digits
  | digits => Numeric.digits? digits

/-- A level by its rank, or by its name, in capitals or not. -/
def ofText? (text : String) : Option Level :=
  all.find? fun level => rank? text.toList == some level.rank || text.toLower == level.name

end Level

end SdlCompiler.Command
