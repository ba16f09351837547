/-
Log records. Components report what they did; a filter decides which
records are shown. A record is shown as plain text, whatever control
characters the names in it have.
-/
import Disasm8086.Text.Plain

namespace Disasm8086.Log

/-- How severe a record is, the most severe first. -/
inductive Level where
  | error
  | warn
  | info
  | debug
  | trace
  deriving DecidableEq, Repr

namespace Level

/-- All levels, the most severe first. -/
def all : List Level := [.error, .warn, .info, .debug, .trace]

/-- The level in upper case. -/
def name : Level → String
  | .error => "ERROR"
  | .warn => "WARN"
  | .info => "INFO"
  | .debug => "DEBUG"
  | .trace => "TRACE"

/-- The most severe level has the least rank. -/
def rank (l : Level) : Nat := l.ctorIdx

end Level

/-- What a component reports. -/
structure Record where
  level : Level
  target : String
  message : String
  deriving DecidableEq, Repr

/-- The least severe level that is shown, if any is. -/
abbrev Filter := Option Level

namespace Filter

/-- Whether records of this level are shown. -/
def admits (filter : Filter) (level : Level) : Bool :=
  match filter with
  | some least => level.rank ≤ least.rank
  | none => false

/-- The filter with the given name: a level in any case, or `off`. -/
def ofName? (name : String) : Option Filter :=
  let folded := String.ofList (name.toList.map Char.toUpper)
  if folded = "OFF" then some none
  else (Level.all.find? fun l => l.name == folded).map some

end Filter

namespace Record

/-- The record without its target. -/
def brief (r : Record) : String := r.level.name ++ " " ++ r.message

/-- The text that shows the record: the level padded to five columns, and
further lines of the message indented by four. -/
def text (r : Record) : String :=
  let label := String.ofList (r.level.name.toList.rightpad 5 ' ')
  let message := "\n    ".intercalate (r.message.splitOn "\n")
  Text.plain ("[" ++ label ++ " " ++ r.target ++ "] " ++ message ++ "\n")

end Record

end Disasm8086.Log
