/-
Comparing a listing with a reference text. Blank lines and lines that
start with a semicolon do not count; of the others, blanks at both ends
and the case of ASCII letters do not count.

A reference listing is a pair of files: machine code, and under the
same name with `.asm` behind it the text that it should disassemble to.
-/
import Disasm8086.Files
import Disasm8086.Text.Blank
import Disasm8086.Text.Lines
import Disasm8086.Text.Numeral

namespace Disasm8086

-- ==================================================== significant lines

/-- Whether a line counts: it is neither blank nor a comment. -/
def isSignificant (line : List Char) : Bool :=
  !line.isEmpty && line.head? != some ';'

/-- The lines of a text that count, without the blanks around them. -/
def significantLines (text : String) : List String :=
  (((Text.lines text.toList).map Text.trim).filter isSignificant).map String.ofList

/-- Whether two lines agree but for the case of ASCII letters. -/
def sameLine (a b : String) : Bool :=
  a.toList.map Char.toLower == b.toList.map Char.toLower

-- ========================================================== comparison

/-- How two listings differ. Lines are counted from 1, and only those
that count. -/
inductive Mismatch where
  | lineCount (expected actual : Nat)
  | line (number : Nat) (expected actual : String)
  deriving DecidableEq, Repr

/-- The report shown to the user. -/
def Mismatch.message : Mismatch → String
  | .lineCount expected actual =>
    "Expected " ++ Text.natural expected ++ " significant lines, got " ++ Text.natural actual
  | .line number expected actual =>
    "Line " ++ Text.natural number ++ ": expected \"" ++ expected ++
      "\", got \"" ++ actual ++ "\""

/-- The first pair of lines that differ, the lines being counted from
`number`. -/
def firstDifference? (number : Nat) : List String → List String → Option Mismatch
  | expected :: es, actual :: as =>
    if sameLine expected actual then firstDifference? (number + 1) es as
    else some (.line number expected actual)
  | _, _ => none

/-- Compares lists of lines: a differing line is reported first, a
differing number of lines after that. -/
def compareLines (expected actual : List String) : Except Mismatch Unit :=
  match firstDifference? 1 expected actual with
  | some mismatch => .error mismatch
  | none =>
    if expected.length = actual.length then .ok ()
    else .error (.lineCount expected.length actual.length)

/-- Compares the lines of two texts that count. -/
def compareListing (expected actual : String) : Except Mismatch Unit :=
  compareLines (significantLines expected) (significantLines actual)

-- ============================================================= fetching

/-- Something that holds files by name. -/
abbrev FileSource := String → Except FileError (List UInt8)

namespace FileSource

/-- Files by name alone; a name that is missing is reported as such. -/
def named (files : List (String × List UInt8)) : FileSource := fun name =>
  match files.find? (·.1 == name) with
  | some (_, bytes) => .ok bytes
  | none => .error ⟨.notFound, name⟩

/-- The files of a directory. -/
def directory (t : FileTree) : FileSource := fun name => t.readIn name

end FileSource

/-- The machine code and the text of a reference listing. -/
def fetchListing (source : FileSource) (name : String) :
    Except FileError (List UInt8 × String) := do
  let bytes ← source name
  let text ← source (name ++ ".asm")
  return (bytes, ← decodeText text)

end Disasm8086
