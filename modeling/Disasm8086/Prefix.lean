/-
Instruction prefixes. An instruction may be preceded by any run of the
seven prefix bytes, in any order and with repetition. What a run means
is recorded as a word of flag bits: each segment override and each
repeat prefix replaces an earlier one of its own class, so at most one
bit of a class survives a run, while `LOCK` is remembered once seen.

Bits of the word (the remaining bits carry no meaning):

    0x004 ES   0x008 CS   0x010 SS   0x020 DS
    0x080 LOCK   0x100 REPNE   0x200 REP
-/
import Disasm8086.Register

namespace Disasm8086

-- =============================================================== bytes

/-- What one prefix byte asks for. -/
inductive Prefix where
  | override (s : Segment)
  | lock
  | repne
  | rep
  deriving DecidableEq, Repr

/-- The flag bit that records an override to this segment. -/
def Segment.overrideFlag : Segment → UInt32
  | .ES => 0x004
  | .CS => 0x008
  | .SS => 0x010
  | .DS => 0x020

namespace Prefix

/-- The prefix that a byte encodes, if it is a prefix byte at all. -/
def ofByte? (b : UInt8) : Option Prefix :=
  if b = 0x26 then some (.override .ES)
  else if b = 0x2E then some (.override .CS)
  else if b = 0x36 then some (.override .SS)
  else if b = 0x3E then some (.override .DS)
  else if b = 0xF0 then some .lock
  else if b = 0xF2 then some .repne
  else if b = 0xF3 then some .rep
  else none

/-- Whether a byte is one of the seven prefix bytes. -/
def isByte (b : UInt8) : Bool := (ofByte? b).isSome

/-- The flag bit that records the prefix. -/
def flag : Prefix → UInt32
  | .override s => s.overrideFlag
  | .lock => 0x080
  | .repne => 0x100
  | .rep => 0x200

/-- The flag bits that a later prefix of the same class replaces. -/
def replaces : Prefix → UInt32
  | .override _ => 0x03C
  | .lock => 0
  | .repne | .rep => 0x300

end Prefix

-- =============================================================== words

/-- The prefixes in force for an instruction, one flag bit each. -/
structure Prefixes where
  word : UInt32
  deriving DecidableEq, Repr

namespace Prefixes

/-- No prefix at all. -/
def empty : Prefixes := ⟨0⟩

instance : Inhabited Prefixes := ⟨empty⟩

/-- Records one more prefix: it takes the place of its class. -/
def insert (ps : Prefixes) (p : Prefix) : Prefixes :=
  ⟨ps.word &&& ~~~p.replaces ||| p.flag⟩

/-- The prefixes in force after a run of prefix bytes. -/
def ofRun (run : List UInt8) : Prefixes :=
  (run.filterMap Prefix.ofByte?).foldl insert empty

/-- Whether the flag bit of a prefix is set. -/
def has (ps : Prefixes) (p : Prefix) : Bool := ps.word &&& p.flag != 0

/-- The segment override. A word in which several override bits are set
names none. -/
def segment? (ps : Prefixes) : Option Segment :=
  Segment.all.find? fun s => ps.word &&& 0x03C == s.overrideFlag

end Prefixes

end Disasm8086
