/-
The six status flags, and what the arithmetic and logic operations do
to them. Zero, sign and parity always describe the result; carry,
overflow and auxiliary carry describe the operation, and are clear after
a logical one. Increment and decrement leave carry as it was.
-/
import Disasm8086.Alu
import Disasm8086.Mnemonic
import Disasm8086.Register

namespace Disasm8086

-- ============================================================== flags

/-- The status flags, in the order of their bits. -/
structure Flags where
  carry : Bool := false
  parity : Bool := false
  auxCarry : Bool := false
  zero : Bool := false
  sign : Bool := false
  overflow : Bool := false
  deriving DecidableEq, Repr, Inhabited

namespace Flags

variable {w : Nat}

/-- The bit and the letter of each flag. -/
def legend (f : Flags) : List (Bool × UInt16 × Char) :=
  [(f.carry, 0x0001, 'C'), (f.parity, 0x0004, 'P'), (f.auxCarry, 0x0010, 'A'),
   (f.zero, 0x0040, 'Z'), (f.sign, 0x0080, 'S'), (f.overflow, 0x0800, 'O')]

/-- The flags as a word, other bits clear. -/
def toWord (f : Flags) : UInt16 :=
  f.legend.foldl (fun word (set, bit, _) => if set then word ||| bit else word) 0

/-- The flags of a word, whatever its other bits. -/
def ofWord (word : UInt16) : Flags where
  carry := word &&& 0x0001 != 0
  parity := word &&& 0x0004 != 0
  auxCarry := word &&& 0x0010 != 0
  zero := word &&& 0x0040 != 0
  sign := word &&& 0x0080 != 0
  overflow := word &&& 0x0800 != 0

/-- The letters of the flags that are set. -/
def text (f : Flags) : String :=
  String.ofList (f.legend.filterMap fun (set, _, letter) => if set then some letter else none)

/-- The flags that describe a result alone. -/
def ofResult (result : BitVec w) : Flags where
  parity := Alu.isParity result
  zero := Alu.isZero result
  sign := Alu.isSign result

/-- The flags after an operation with this outcome. -/
def ofOutcome (o : Alu.Outcome w) : Flags :=
  { ofResult o.result with carry := o.carry, overflow := o.overflow, auxCarry := o.auxCarry }

end Flags

-- ========================================================= operations

/-- The operations that set the status flags. -/
inductive AluOp where
  | add | adc | sub | sbb | cmp | and | or | xor | test | neg | inc | dec
  deriving DecidableEq, Repr

namespace AluOp

variable {w : Nat}

/-- The operation that a mnemonic stands for, if it is one of these. -/
def ofMnemonic? : Mnemonic → Option AluOp
  | .ADD => some .add
  | .ADC => some .adc
  | .SUB => some .sub
  | .SBB => some .sbb
  | .CMP => some .cmp
  | .AND => some .and
  | .OR => some .or
  | .XOR => some .xor
  | .TEST => some .test
  | .NEG => some .neg
  | .INC => some .inc
  | .DEC => some .dec
  | _ => none

/-- Result and flags of a logical operation. -/
def logical (result : BitVec w) : BitVec w × Flags := (result, .ofResult result)

/-- Result and flags of an arithmetic operation. -/
def arithmetic (o : Alu.Outcome w) : BitVec w × Flags := (o.result, .ofOutcome o)

/-- Result and flags of an operation. Comparisons and tests yield the
result that they do not store; negation, increment and decrement have
no right operand. -/
def eval (op : AluOp) (lhs rhs : BitVec w) (carry : Bool) : BitVec w × Flags :=
  match op with
  | .add => arithmetic (Alu.add lhs rhs)
  | .adc => arithmetic (Alu.adc lhs rhs carry)
  | .sub | .cmp => arithmetic (Alu.sub lhs rhs)
  | .sbb => arithmetic (Alu.sbb lhs rhs carry)
  | .and | .test => logical (lhs &&& rhs)
  | .or => logical (lhs ||| rhs)
  | .xor => logical (lhs ^^^ rhs)
  | .neg => arithmetic (Alu.neg lhs)
  | .inc => arithmetic { Alu.add lhs 1 with carry }
  | .dec => arithmetic { Alu.sub lhs 1 with carry }

/-- Result and flags of an operation on words, or on their low bytes. -/
def compute (op : AluOp) (width : Width) (lhs rhs : UInt16) (carry : Bool) : UInt16 × Flags :=
  match width with
  | .byte =>
    let (result, flags) :=
      op.eval (lhs.toBitVec.setWidth 8) (rhs.toBitVec.setWidth 8) carry
    (⟨result.setWidth 16⟩, flags)
  | _ =>
    let (result, flags) := op.eval lhs.toBitVec rhs.toBitVec carry
    (⟨result⟩, flags)

/-- Whether the operation leaves its left operand as it was. -/
def discardsResult : AluOp → Bool
  | .cmp | .test => true
  | _ => false

/-- Results and flags of a chain of operations on one accumulator, each
operation getting the carry of the one before it. -/
def chain (accumulator : UInt16) (carry : Bool) :
    List (AluOp × Width × UInt16) → List (UInt16 × Flags)
  | [] => []
  | (op, width, rhs) :: rest =>
    let (result, flags) := op.compute width accumulator rhs carry
    let accumulator := if op.discardsResult then accumulator else result
    (result, flags) :: chain accumulator flags.carry rest

end AluOp

end Disasm8086
