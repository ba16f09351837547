/-
Why bytes do not decode. A fault names the cause alone; a decode error
adds the offset in the stream at which the faulty instruction starts,
its prefixes included.
-/
import Disasm8086.Text.Numeral

namespace Disasm8086

/-- The cause of a failed decoding step. -/
inductive Fault where
  /-- The bytes end inside the instruction; the opcode is known if it has
  been read. -/
  | endOfStream (opcode : Option UInt8)
  /-- No operation is assigned to the opcode, or to its extension. -/
  | unknownOpcode (opcode : UInt8)
  /-- The ModRM byte selects an operand that the operation cannot take. -/
  | invalidOperand (opcode modRM : UInt8)
  deriving DecidableEq, Repr

namespace Fault

/-- The opcode of the faulty instruction, as far as it is known. -/
def opcode? : Fault → Option UInt8
  | .endOfStream opcode => opcode
  | .unknownOpcode opcode => some opcode
  | .invalidOperand opcode _ => some opcode

/-- Completes the report of a stream that ends after the opcode. -/
def naming (opcode : UInt8) : Fault → Fault
  | .endOfStream _ => .endOfStream (some opcode)
  | fault => fault

end Fault

/-- A fault and the offset of the instruction in which it occurred. -/
structure DecodeError where
  offset : Nat
  fault : Fault
  deriving DecidableEq, Repr

namespace DecodeError

/-- The report shown to the user. -/
def message (e : DecodeError) : String :=
  let place := " at offset " ++ Text.hex 4 e.offset
  match e.fault with
  | .unknownOpcode opcode =>
    "Unknown opcode " ++ Text.hex 2 opcode.toNat ++ place
  | .endOfStream _ =>
    "Unexpected end of stream decoding instruction" ++ place
  | .invalidOperand opcode modRM =>
    "Invalid operand encoding (modrm " ++ Text.hex 2 modRM.toNat ++
      ") for opcode " ++ Text.hex 2 opcode.toNat ++ place

/-- The same error in a stream that has `n` more bytes in front. -/
def shift (e : DecodeError) (n : Nat) : DecodeError :=
  { e with offset := e.offset + n }

end DecodeError

end Disasm8086
