/-
The command line. Options may stand before and after the file; what
follows a lone `--` is not an option. What an equals sign joins to an
option is a word of its own behind it: the value of an option that takes
one, and otherwise the file.

A request for help or for the version is granted even if the rest of the
line is wrong, and help goes first.
-/

namespace Disasm8086

/-- What the command line asks for. -/
structure Arguments where
  hex : Bool := false
  verbose : Bool := false
  configFile : Option String := none
  file : Option String := none
  deriving DecidableEq, Repr, Inhabited

namespace Arguments

-- ================================================================ items

/-- What a part of the command line stands for. -/
inductive Item where
  | hex
  | verbose
  | configFile
  | help
  | version
  | word (text : String)
  | unknown (text : String)
  deriving DecidableEq, Repr

/-- The option with a long name. -/
def long (name : List Char) : Item :=
  match String.ofList name with
  | "hex" => .hex
  | "verbose" => .verbose
  | "help" => .help
  | "version" => .version
  | "config_file" => .configFile
  | "configfile" => .configFile
  | name => .unknown ("--" ++ name)

/-- The option with a name of one letter. -/
def short : Char → Item
  | 'v' => .verbose
  | 'h' => .help
  | 'V' => .version
  | c => .unknown (String.ofList ['-', c])

/-- The word that is joined to a letter, without the equals sign between
them. -/
def joined : List Char → Item
  | '=' :: value => .word (String.ofList value)
  | value => .word (String.ofList value)

/-- The items of one argument. Behind two dashes stands a name, behind one
dash a letter. To an ASCII letter a word may be joined that has an equals
sign in it or in front of it; letters cannot be joined, since the one
switch that has a letter may not be repeated. -/
def itemsOf (text : String) : List Item :=
  match text.toList with
  | '-' :: '-' :: rest =>
    match rest.span (· != '=') with
    | (name, '=' :: value) => [long name, .word (String.ofList value)]
    | (name, _) => [long name]
  | ['-', c] => [short c]
  | '-' :: c :: rest =>
    if !rest.contains '=' then [.unknown text]
    else if c.toNat < 0x80 then [short c, joined rest]
    else [.word text]
  | _ => [.word text]

-- ============================================================== requests

/-- Why a command line is refused. -/
inductive Refusal where
  | unexpected (text : String)
  | repeated (option : String)
  | missingValue (option : String)
  deriving DecidableEq, Repr

/-- The report shown to the user. -/
def Refusal.message : Refusal → String
  | .unexpected text => "Unexpected argument: " ++ text
  | .repeated option => "Option given twice: " ++ option
  | .missingValue option => "Option without a value: " ++ option

/-- Adds a file to the arguments. -/
def withFile (args : Arguments) (text : String) : Except Refusal Arguments :=
  if args.file.isSome then .error (.unexpected text) else .ok { args with file := some text }

/-- Adds a configuration file to the arguments. -/
def withConfigFile (args : Arguments) (path : String) : Except Refusal Arguments :=
  if args.configFile.isSome then .error (.repeated "--config_file")
  else .ok { args with configFile := some path }

/-- Adds items to the arguments, one after another. -/
def addItems (args : Arguments) : List Item → Except Refusal Arguments
  | [] => .ok args
  | .hex :: rest =>
    if args.hex then .error (.repeated "--hex") else addItems { args with hex := true } rest
  | .verbose :: rest =>
    if args.verbose then .error (.repeated "--verbose")
    else addItems { args with verbose := true } rest
  | .configFile :: .word path :: rest => do addItems (← args.withConfigFile path) rest
  | .configFile :: _ => .error (.missingValue "--config_file")
  | .word text :: rest => do addItems (← args.withFile text) rest
  | .help :: _ => .error (.unexpected "--help")
  | .version :: _ => .error (.unexpected "--version")
  | .unknown text :: _ => .error (.unexpected text)

/-- What a command line comes down to. -/
inductive Request where
  | help
  | version
  | run (args : Arguments)
  | refuse (reason : Refusal)
  deriving DecidableEq, Repr

/-- Reads a command line. -/
def parse (line : List String) : Request :=
  let items := (line.takeWhile (· != "--")).flatMap itemsOf
  let files := (line.dropWhile (· != "--")).tail
  if items.contains .help then .help
  else if items.contains .version then .version
  else
    match do files.foldlM withFile (← addItems {} items) with
    | .ok args => .run args
    | .error reason => .refuse reason

end Arguments

end Disasm8086
