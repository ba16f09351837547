/-
The program: read the command line and the configuration, disassemble
one file, and print its assembly text. Nothing is printed unless the
whole file decodes. Log records go to the error stream, as far as the
filter admits them.

What command lines and configurations mean is settled here, how they are
written is not. That is a pair of functions (`Conventions`) with which the
program can be run (`Program.runBy`), and `Program.run` runs it with those
of this library.
-/
import Disasm8086.Disassembler
import Disasm8086.Files
import Disasm8086.Settings

namespace Disasm8086

-- ====================================================== one file's text

/-- Why a file has no assembly text. -/
inductive DisassemblyError where
  | unreadable (path : String) (cause : FileError)
  | decode (e : DecodeError)
  deriving DecidableEq, Repr

namespace DisassemblyError

/-- The error in short, without its cause. -/
def message : DisassemblyError → String
  | .unreadable path _ => "Couldn't read " ++ path
  | .decode e => e.message

/-- The error and its cause on one line. -/
def chain : DisassemblyError → String
  | e@(.unreadable _ cause) => e.message ++ ": " ++ cause.message
  | e@(.decode _) => e.message

/-- The error and its cause at length. -/
def report : DisassemblyError → String
  | e@(.unreadable _ cause) => e.message ++ "\n\nCaused by:\n    " ++ cause.message
  | e@(.decode _) => e.message

end DisassemblyError

/-- The assembly text of a file, given what reading the file came to. -/
def fileAssembly (path : String) (contents : Except FileError (List UInt8)) (mode : ValueMode) :
    Except DisassemblyError String :=
  match contents with
  | .error cause => .error (.unreadable path cause)
  | .ok bytes =>
    match assembly bytes mode with
    | .ok text => .ok text
    | .error e => .error (.decode e)

namespace Log

/-- A file that has been read. -/
def fileRead (path : String) (size : Nat) : Record where
  level := .debug
  target := "marty86_disasm"
  message := "Read " ++ Text.natural size ++ " bytes from " ++ path

/-- A file that has no assembly text. -/
def disassemblyFailed (path : String) (e : DisassemblyError) : Record where
  level := .error
  target := "marty86_disasm"
  message := "Disassembly of " ++ path ++ " failed: " ++ e.report

/-- The records of disassembling a file. Its stream is labelled by the
file's name. -/
def ofFile (path : String) (contents : Except FileError (List UInt8)) : List Record :=
  match contents with
  | .error _ => []
  | .ok bytes => fileRead path bytes.length :: ofDisassemble (Path.fileName path) bytes

end Log

namespace Program

-- ============================================================== outcomes

/-- What a run of the program comes to: its status, and what it writes to
the output and to the error stream. -/
structure Outcome where
  status : Nat
  output : String
  errors : String
  deriving DecidableEq, Repr

/-- The status of a run that failed. -/
def failure : Nat := 255

/-- The status of a run whose command line was refused. -/
def refusal : Nat := 1

/-- The configuration file that is read if none is named. -/
def defaultConfigFile : String := "./marty86.toml"

/-- The reminder that an input is needed. -/
def noInputText : String :=
  "No input file specified. Usage: marty86 [--hex] [--config_file PATH] [--verbose] FILE\n"

/-- The version of the program. -/
def versionText : String := "Version: 0.1.0\n"

/-- The help text. -/
def helpText : String :=
  "\n".intercalate
    ["Usage: [--hex] [--config_file PATH] [-v] [<FILE>]",
     "",
     "Available positional items:",
     "    <FILE>  Binary file of 8086 machine code to disassemble",
     "",
     "Available options:",
     "        --hex      Render immediates, displacements and addresses in hexadecimal",
     "        --config_file <PATH>  Path to a TOML configuration file",
     "    -v, --verbose  Enable debug logging",
     "    -h, --help     Prints help information",
     "    -V, --version  Prints version information",
     ""]

-- ========================================================= configuration

/-- How command lines and configurations are written: the request that a
command line makes, and the document that a text is, if it is one. -/
structure Conventions where
  request : List String → Arguments.Request
  document? : String → Option Document

/-- Options with dashes on the command line, and configurations in TOML. -/
def Conventions.standard : Conventions where
  request := Arguments.parse
  document? := Document.ofToml?

/-- Why there are no settings. -/
inductive ConfigError where
  | unreadable (cause : FileError)
  | malformed
  deriving DecidableEq, Repr

/-- The report shown to the user. -/
def ConfigError.report : ConfigError → String
  | .unreadable cause =>
    if cause.kind = .notFound then "Configuration file not found: " ++ cause.message ++ "\n"
    else "Unknown IO error reading configuration file:\n" ++ cause.message ++ "\n"
  | .malformed =>
    "Failed to parse configuration file. There may be a typo or otherwise invalid toml:\n"

/-- The settings of a configuration file and of arguments, given what
reading the file came to. -/
def settings (given : Conventions) (contents : Except FileError (List UInt8))
    (args : Arguments) : Except ConfigError Settings :=
  match contents.bind decodeText with
  | .error cause => .error (.unreadable cause)
  | .ok text =>
    match Settings.readBy? given.document? text args with
    | some settings => .ok settings
    | none => .error .malformed

/-- Reads the configuration file: the one that was named, or else the
default one if there is one. -/
def readConfig {m : Type → Type} [Monad m] (files : FileAccess m) (args : Arguments) :
    m (Except FileError (List UInt8)) := do
  match args.configFile with
  | some path => files.readFile path
  | none =>
    if ← files.pathExists defaultConfigFile then files.readFile defaultConfigFile
    else return .ok []

-- =============================================================== running

/-- The filter in force: one that was asked for, or else by verbosity. -/
def filter (requested : Option Log.Filter) (s : Settings) : Log.Filter :=
  requested.getD (some (if s.verbose then .debug else .warn))

/-- The text that shows the records a filter admits. -/
def shown (f : Log.Filter) (records : List Log.Record) : String :=
  String.join ((records.filter (f.admits ·.level)).map Log.Record.text)

/-- The outcome for an input file, given what reading it came to. -/
def outcome (f : Log.Filter) (mode : ValueMode) (path : String)
    (contents : Except FileError (List UInt8)) : Outcome :=
  let records := Log.ofFile path contents
  match fileAssembly path contents mode with
  | .ok text => ⟨0, text ++ "\n", shown f records⟩
  | .error e =>
    ⟨failure, "", shown f (records ++ [Log.disassemblyFailed path e]) ++ e.chain ++ "\n"⟩

/-- Runs the program with arguments that have been read. -/
def runWith {m : Type → Type} [Monad m] (given : Conventions) (files : FileAccess m)
    (requested : Option Log.Filter) (args : Arguments) : m Outcome := do
  match settings given (← readConfig files args) args with
  | .error e => return ⟨failure, "", e.report⟩
  | .ok s =>
    match s.file with
    | none => return ⟨failure, "", noInputText⟩
    | some path =>
      return outcome (filter requested s) s.valueMode path (← files.readFile path)

/-- Runs the program with a command line and a configuration that follow
the given conventions. -/
def runBy {m : Type → Type} [Monad m] (given : Conventions) (files : FileAccess m)
    (requested : Option Log.Filter) (line : List String) : m Outcome :=
  match given.request line with
  | .help => return ⟨0, helpText, ""⟩
  | .version => return ⟨0, versionText, ""⟩
  | .refuse reason => return ⟨refusal, "", reason.message ++ "\n"⟩
  | .run args => runWith given files requested args

/-- Runs the program. -/
def run {m : Type → Type} [Monad m] (files : FileAccess m) (requested : Option Log.Filter)
    (line : List String) : m Outcome :=
  runBy .standard files requested line

end Program

end Disasm8086
