/-
Text without the control characters and control sequences that a
terminal acts on. What is left are the characters that show: blanks and
line ends stay, other control characters go.

A sequence starts with the escape character. A short one ends with its
first character from `0` on, and one that is opened by a bracket with
its first character from `@` on; a string runs up to its terminator.

A line end or a tabulator interrupts a sequence, but not a string: it
shows, and so does what follows it, up to the next control character.
There the sequence goes on, unless a character beyond ASCII has shown
meanwhile.
-/

namespace Disasm8086.Text

/-- Where in a control sequence a character stands. -/
inductive Escape where
  /-- Outside. -/
  | outside
  /-- Behind the escape character. -/
  | opened
  /-- Behind an intermediate character of a short sequence. -/
  | intermediate
  /-- In a sequence that a bracket opened. -/
  | control
  /-- At the start of a device string. -/
  | deviceEntry
  /-- Among the parameters of a device string. -/
  | deviceParameter
  /-- Behind an intermediate character of a device string. -/
  | deviceIntermediate
  /-- In the body of a device string, or in a string without a head. -/
  | body
  /-- In a system command. -/
  | command
  deriving DecidableEq, Repr

namespace Escape

/-- Intermediate characters, from the space to the slash. -/
def isIntermediate (c : Char) : Bool := 0x20 ≤ c.toNat && c.toNat ≤ 0x2F

/-- Parameter characters, from the zero to the question mark. -/
def isParameter (c : Char) : Bool := 0x30 ≤ c.toNat && c.toNat ≤ 0x3F

/-- Characters that end a sequence with parameters, from `@` to the tilde. -/
def isFinal (c : Char) : Bool := 0x40 ≤ c.toNat && c.toNat ≤ 0x7E

/-- Control characters that show: tabulator, line feed, form feed and
carriage return. -/
def isLayout (c : Char) : Bool := c == '\t' || c == '\n' || c == '\x0c' || c == '\r'

/-- Whether a character shows in plain text. -/
def shows (c : Char) : Bool := isLayout c || (0x20 ≤ c.toNat && c.toNat != 0x7F)

/-- Whether the encoding of a character has the byte that terminates
strings in it. -/
def terminates (c : Char) : Bool := (String.utf8EncodeChar c).contains 0x9C

/-- The sequence that the character behind the escape character opens. -/
def opening (c : Char) : Escape :=
  if isIntermediate c then .intermediate
  else if c == '[' then .control
  else if c == ']' then .command
  else if c == 'P' then .deviceEntry
  else if c == 'X' || c == '^' || c == '_' then .body
  else if isParameter c || isFinal c then .outside
  else .opened

/-- Where a character leads that has no meaning of its own everywhere. -/
def move : Escape → Char → Escape
  | .outside, _ => .outside
  | .opened, c => opening c
  | .intermediate, c => if isParameter c || isFinal c then .outside else .intermediate
  | .control, c => if isFinal c then .outside else .control
  | .deviceEntry, c =>
    if isIntermediate c then .deviceIntermediate
    else if isParameter c then .deviceParameter
    else if isFinal c then .body
    else .deviceEntry
  | .deviceParameter, c =>
    if isIntermediate c then .deviceIntermediate
    else if isFinal c || (isParameter c && '<' ≤ c) then .body
    else .deviceParameter
  | .deviceIntermediate, c =>
    if isParameter c || isFinal c then .body else .deviceIntermediate
  | .body, c => if terminates c then .outside else .body
  | .command, c => if c == '\x07' then .outside else .command

/-- Where a character leads. The escape character opens a sequence
anywhere; cancel and substitute end one anywhere. -/
def next (e : Escape) (c : Char) : Escape :=
  if c == '\x1b' then .opened
  else if c == '\x18' || c == '\x1a' then .outside
  else e.move c

/-- Whether a character shows here, on its own. -/
def reveals : Escape → Char → Bool
  | .outside, c => shows c
  | .opened, c | .intermediate, c | .control, c => isLayout c
  | _, _ => false

end Escape

/-- How far the removal of control sequences has come: the place in a
sequence, and whether characters are being shown there. -/
structure Scan where
  place : Escape
  showing : Bool
  deriving DecidableEq, Repr

namespace Scan

/-- At the start of a text. -/
def start : Scan := ⟨.outside, false⟩

/-- Whether the next character shows. -/
def keeps (s : Scan) (c : Char) : Bool :=
  if s.showing then Escape.shows c else s.place.reveals c

/-- Behind one more character. -/
def next (s : Scan) (c : Char) : Scan :=
  if s.keeps c then ⟨if 0x80 ≤ c.toNat then .outside else s.place, true⟩
  else ⟨s.place.next c, false⟩

/-- The characters that show. -/
def strip : Scan → List Char → List Char
  | _, [] => []
  | s, c :: cs => if s.keeps c then c :: strip (s.next c) cs else strip (s.next c) cs

end Scan

/-- A text without control characters and control sequences. -/
def plain (text : String) : String := String.ofList (Scan.start.strip text.toList)

end Disasm8086.Text
