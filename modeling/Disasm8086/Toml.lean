/-
Configuration documents: the part of TOML in which every entry stands
on a line of its own. A document is a sequence of table headers and
assignments with bare, quoted or dotted keys; values are strings,
integers, booleans and inline tables.

No key may be given twice, and a table may be opened by a header once:
a table that a header or a dotted key has brought about cannot be
brought about again by the other, and an inline table is closed for
good. Keys have a limited number of parts, and inline tables lie in each
other to a limited depth.
-/
import Disasm8086.Text.Lines

namespace Disasm8086.Toml

-- =============================================================== values

/-- What brought a table about. -/
inductive Origin where
  /-- A header of its own, or the document itself. -/
  | header
  /-- The header of a table inside it. -/
  | implied
  /-- A dotted key. -/
  | dotted
  /-- Braces. -/
  | inline
  deriving DecidableEq, Repr

/-- A value. Tables list their entries in order. -/
inductive Value where
  | string (s : String)
  | integer (n : Int)
  | boolean (b : Bool)
  | table (origin : Origin) (entries : List (String × Value))

/-- The entries of a table. -/
abbrev Entries := List (String × Value)

namespace Entries

/-- The value of a key. -/
def get? (t : Entries) (key : String) : Option Value :=
  (t.find? (·.1 == key)).map Prod.snd

/-- Gives a key a value, in place of the value that it had. -/
def put (t : Entries) (key : String) (v : Value) : Entries :=
  if t.any (·.1 == key) then t.map fun entry => if entry.1 == key then (key, v) else entry
  else t ++ [(key, v)]

/-- Gives a new key a value. -/
def insert? (t : Entries) (key : String) (v : Value) : Option Entries :=
  if t.any (·.1 == key) then none else some (t ++ [(key, v)])

/-- Gives a new dotted key a value. The tables on the way are made, or
were made by dotted keys; a table implied by a header may be passed
through. -/
def assign? (key : String) (v : Value) : List String → Entries → Option Entries
  | [], t => t.insert? key v
  | step :: path, t =>
    match t.get? step with
    | none => do return t ++ [(step, .table .dotted (← assign? key v path []))]
    | some (.table .dotted inner) => do
      return t.put step (.table .dotted (← assign? key v path inner))
    | some (.table .implied inner) =>
      if path.isEmpty then none
      else do return t.put step (.table .implied (← assign? key v path inner))
    | some _ => none

/-- Opens the table that a header names. -/
def open? : List String → Entries → Option Entries
  | [], _ => none
  | [key], t =>
    match t.get? key with
    | none => some (t ++ [(key, .table .header [])])
    | some (.table .implied inner) => some (t.put key (.table .header inner))
    | some _ => none
  | step :: path, t =>
    match t.get? step with
    | none => do return t ++ [(step, .table .implied (← open? path []))]
    | some (.table .inline _) => none
    | some (.table origin inner) => do return t.put step (.table origin (← open? path inner))
    | some _ => none

/-- Changes the table at a path. -/
def modify? (f : Entries → Option Entries) : List String → Entries → Option Entries
  | [], t => f t
  | step :: path, t =>
    match t.get? step with
    | some (.table origin inner) => do
      return t.put step (.table origin (← modify? f path inner))
    | _ => none

end Entries

-- ============================================================ characters

/-- Takes a value off the front of a line. -/
abbrev Parser (α : Type) := List Char → Option (α × List Char)

/-- Blanks inside a line. -/
def isSpace (c : Char) : Bool := c == ' ' || c == '\t'

/-- The line without the blanks at its front. -/
def skipSpace (cs : List Char) : List Char := cs.dropWhile isSpace

/-- Characters that may stand for themselves: all but control characters,
the tabulator excepted. -/
def isPrintable (c : Char) : Bool :=
  c == '\t' || (0x20 ≤ c.toNat && c.toNat != 0x7F)

/-- Characters of keys without quotes. -/
def isBare (c : Char) : Bool := c.isAlphanum || c == '_' || c == '-'

/-- The value of a hexadecimal digit. -/
def hexValue? (c : Char) : Option Nat :=
  if c.isDigit then some (c.toNat - '0'.toNat)
  else if 'a' ≤ c ∧ c ≤ 'f' then some (c.toNat - 'a'.toNat + 10)
  else if 'A' ≤ c ∧ c ≤ 'F' then some (c.toNat - 'A'.toNat + 10)
  else none

/-- The character with the given hexadecimal code point. -/
def codePoint? (digits : List Char) : Option Char := do
  let n ← digits.foldlM (fun n c => do return n * 16 + (← hexValue? c)) 0
  if n.isValidChar then some (Char.ofNat n) else none

-- =============================================================== strings

/-- The character that a letter behind a backslash stands for. -/
def escape? : Char → Option Char
  | 'b' => some '\x08'
  | 't' => some '\t'
  | 'n' => some '\n'
  | 'f' => some '\x0c'
  | 'r' => some '\r'
  | '"' => some '"'
  | '\\' => some '\\'
  | _ => none

/-- The rest of a string in double quotes. -/
def basicString : Parser (List Char)
  | [] => none
  | '"' :: rest => some ([], rest)
  | '\\' :: 'u' :: a :: b :: c :: d :: rest => do
    let first ← codePoint? [a, b, c, d]
    let (more, rest) ← basicString rest
    return (first :: more, rest)
  | '\\' :: 'U' :: a :: b :: c :: d :: e :: f :: g :: h :: rest => do
    let first ← codePoint? [a, b, c, d, e, f, g, h]
    let (more, rest) ← basicString rest
    return (first :: more, rest)
  | '\\' :: letter :: rest => do
    let first ← escape? letter
    let (more, rest) ← basicString rest
    return (first :: more, rest)
  | c :: rest => do
    guard (isPrintable c && c != '\\')
    let (more, rest) ← basicString rest
    return (c :: more, rest)

/-- The rest of a string in single quotes. -/
def literalString (cs : List Char) : Option (List Char × List Char) :=
  match cs.span fun c => isPrintable c && c != '\'' with
  | (text, '\'' :: rest) => some (text, rest)
  | _ => none

-- ================================================================== keys

/-- A key without dots. -/
def simpleKey : Parser String
  | '"' :: rest => do
    let (text, rest) ← basicString rest
    return (String.ofList text, rest)
  | '\'' :: rest => do
    let (text, rest) ← literalString rest
    return (String.ofList text, rest)
  | cs => do
    let (text, rest) := cs.span isBare
    guard (!text.isEmpty)
    return (String.ofList text, rest)

/-- How many parts a key may have, and how many inline tables may lie
around a value. -/
def nestingLimit : Nat := 79

/-- A key of at most the given number of parts, as its parts in order. -/
def dottedKey (parts : Nat) (cs : List Char) : Option (List String × List Char) :=
  match parts with
  | 0 => none
  | parts + 1 => do
    let (first, rest) ← simpleKey cs
    match skipSpace rest with
    | '.' :: rest =>
      let (more, rest) ← dottedKey parts (skipSpace rest)
      return (first :: more, rest)
    | rest => return ([first], rest)

-- =============================================================== numbers

/-- The value of digits in a base, single underscores between them left
out. -/
def digits? (base : Nat) (cs : List Char) : Option Nat :=
  let groups := (String.ofList cs).splitOn "_"
  if groups.any String.isEmpty then none
  else
    (groups.flatMap String.toList).foldlM (fun n c => do
      let d ← hexValue? c
      if d < base then some (n * base + d) else none) 0

/-- The value of a decimal numeral, which has no needless zero. -/
def decimal? (cs : List Char) : Option Nat :=
  match cs with
  | '0' :: _ :: _ => none
  | _ => digits? 10 cs

/-- The value of an integer, which has to fit in 64 bits. -/
def integer? (cs : List Char) : Option Int := do
  let n ← match cs with
    | '+' :: rest => Int.ofNat <$> decimal? rest
    | '-' :: rest => (fun n => -Int.ofNat n) <$> decimal? rest
    | '0' :: 'x' :: rest => Int.ofNat <$> digits? 16 rest
    | '0' :: 'o' :: rest => Int.ofNat <$> digits? 8 rest
    | '0' :: 'b' :: rest => Int.ofNat <$> digits? 2 rest
    | _ => Int.ofNat <$> decimal? cs
  if Int64.minValue.toInt ≤ n ∧ n ≤ Int64.maxValue.toInt then some n else none

/-- A boolean or an integer. -/
def word? (cs : List Char) : Option Value :=
  if cs = "true".toList then some (.boolean true)
  else if cs = "false".toList then some (.boolean false)
  else Value.integer <$> integer? cs

/-- Characters that end a value without quotes. -/
def endsWord (c : Char) : Bool := isSpace c || c == ',' || c == '\x7d' || c == '#'

-- ================================================================ values

mutual

/-- A value. Inline tables may lie in each other `depth` deep. Every value
and every entry takes one of the `steps`, of which a line needs fewer
than it has characters. -/
def value (steps depth : Nat) (cs : List Char) : Option (Value × List Char) :=
  match steps with
  | 0 => none
  | steps + 1 =>
    match cs with
    | '"' :: rest => do
      let (text, rest) ← basicString rest
      return (.string (String.ofList text), rest)
    | '\'' :: rest => do
      let (text, rest) ← literalString rest
      return (.string (String.ofList text), rest)
    | '\x7b' :: rest =>
      match depth with
      | 0 => none
      | depth + 1 =>
        match skipSpace rest with
        | '\x7d' :: rest => some (.table .inline [], rest)
        | rest => do
          let (entries, rest) ← inlineEntries steps depth rest []
          return (.table .inline entries, rest)
    | cs => do
      let (word, rest) := cs.span (!endsWord ·)
      return (← word? word, rest)

/-- The entries of an inline table, up to its closing brace. -/
def inlineEntries (steps depth : Nat) (cs : List Char) (found : Entries) :
    Option (Entries × List Char) :=
  match steps with
  | 0 => none
  | steps + 1 => do
    let (key, rest) ← dottedKey nestingLimit cs
    match skipSpace rest with
    | '=' :: rest =>
      let (v, rest) ← value steps depth (skipSpace rest)
      let found ← found.assign? (key.getLast?.getD "") v key.dropLast
      match skipSpace rest with
      | ',' :: rest => inlineEntries steps depth (skipSpace rest) found
      | '\x7d' :: rest => some (found, rest)
      | _ => none
    | _ => none

end

-- ============================================================= documents

/-- What a line of a document says. -/
inductive Line where
  | blank
  | header (path : List String)
  | assignment (key : List String) (v : Value)

/-- What may follow on a line: nothing, or a comment. -/
def isTrailing (cs : List Char) : Bool :=
  match skipSpace cs with
  | [] => true
  | '#' :: comment => comment.all isPrintable
  | _ => false

/-- Reads one line. -/
def line? (cs : List Char) : Option Line :=
  if isTrailing cs then some .blank
  else
    match skipSpace cs with
    | '[' :: rest => do
      let (path, rest) ← dottedKey nestingLimit (skipSpace rest)
      match skipSpace rest with
      | ']' :: rest => if isTrailing rest then some (.header path) else none
      | _ => none
    | cs => do
      let (key, rest) ← dottedKey nestingLimit cs
      match skipSpace rest with
      | '=' :: rest =>
        let (v, rest) ← value (rest.length + 1) nestingLimit (skipSpace rest)
        if isTrailing rest then some (.assignment key v) else none
      | _ => none

/-- A document that is being read: its entries so far, and the table to
which assignments belong. -/
structure Draft where
  entries : Entries
  current : List String

namespace Draft

/-- Adds what one line says. -/
def add (draft : Draft) : Line → Option Draft
  | .blank => some draft
  | .header path => do return ⟨← draft.entries.open? path, path⟩
  | .assignment key v => do
    let assign := Entries.assign? (key.getLast?.getD "") v key.dropLast
    return { draft with entries := ← draft.entries.modify? assign draft.current }

end Draft

/-- A text without the mark for the order of its bytes. -/
def dropMark : List Char → List Char
  | '\ufeff' :: rest => rest
  | cs => cs

/-- The entries of a document, or nothing if it is malformed. -/
def parse? (text : String) : Option Entries := do
  let lines ← (Text.lines (dropMark text.toList)).mapM line?
  let draft ← lines.foldlM Draft.add ⟨[], []⟩
  return draft.entries

end Disasm8086.Toml
