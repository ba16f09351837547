/-
Settings: what a configuration document says, with arguments of the
command line laid over it. Arguments win.

How a document is written down does not matter to the settings, which
are read from any text in which a reader finds a document
(`Settings.readBy?`). The reader at hand takes the document from tables
in TOML (`Document.ofToml?`). There, tables and keys that have no meaning
are passed over, but a value of the wrong type is not.
-/
import Disasm8086.Arguments
import Disasm8086.Render
import Disasm8086.Toml

namespace Disasm8086

-- =========================================================== documents

/-- What a document says about the output: the style of numbers, by its
name. -/
structure Document.Output where
  valueMode : Option String := none
  deriving DecidableEq, Repr, Inhabited

/-- What a document says about the log. -/
structure Document.Log where
  verbose : Bool := false
  deriving DecidableEq, Repr, Inhabited

/-- What a document says about the input. -/
structure Document.Input where
  file : Option String := none
  deriving DecidableEq, Repr, Inhabited

/-- A configuration document. -/
structure Document where
  output : Document.Output := {}
  log : Document.Log := {}
  input : Document.Input := {}
  deriving DecidableEq, Repr, Inhabited

namespace Document

/-- The entries of a table of the document; none if it is absent. -/
def tableOf? (document : Toml.Entries) (name : String) : Option Toml.Entries :=
  match document.get? name with
  | none => some []
  | some (.table _ entries) => some entries
  | some _ => none

/-- The name of the style that a table asks for, if any. -/
def outputOf? (output : Toml.Entries) : Option Output :=
  match output.get? "value_mode" with
  | none => some {}
  | some (.string name) => some { valueMode := some name }
  | some _ => none

/-- Whether a table asks for more log records. -/
def logOf? (log : Toml.Entries) : Option Log :=
  match log.get? "verbose" with
  | none => some {}
  | some (.boolean verbose) => some { verbose }
  | some _ => none

/-- The input file that a table names, if any. -/
def inputOf? (input : Toml.Entries) : Option Input :=
  match input.get? "file" with
  | none => some {}
  | some (.string file) => some { file := some file }
  | some _ => none

/-- The document that a text in TOML is. -/
def ofToml? (text : String) : Option Document := do
  let entries ← Toml.parse? text
  let output ← outputOf? (← tableOf? entries "output")
  let log ← logOf? (← tableOf? entries "log")
  let input ← inputOf? (← tableOf? entries "input")
  return { output, log, input }

end Document

-- ============================================================ settings

/-- How the program runs. -/
structure Settings where
  valueMode : ValueMode := .integer
  verbose : Bool := false
  file : Option String := none
  deriving DecidableEq, Repr, Inhabited

namespace Settings

/-- The style that a document asks for, unless its name stands for none. -/
def valueModeOf? (output : Document.Output) : Option ValueMode :=
  match output.valueMode with
  | none => some .integer
  | some name => ValueMode.ofName? name

/-- The settings of a document. -/
def ofDocument? (document : Document) : Option Settings := do
  let valueMode ← valueModeOf? document.output
  return { valueMode, verbose := document.log.verbose, file := document.input.file }

/-- Lays arguments over settings. -/
def overlay (s : Settings) (args : Arguments) : Settings where
  valueMode := if args.hex then .hex else s.valueMode
  verbose := s.verbose || args.verbose
  file := args.file.or s.file

/-- The settings of arguments and of a text, as a reader of documents
reads it. -/
def readBy? (document? : String → Option Document) (text : String) (args : Arguments) :
    Option Settings := do
  return (← ofDocument? (← document? text)).overlay args

/-- The settings of arguments and of a text in TOML. -/
def read? (text : String) (args : Arguments) : Option Settings :=
  readBy? Document.ofToml? text args

end Settings

end Disasm8086
