/-
Addition and subtraction with carry, at any width. Sums and differences
are formed with one bit to spare, which then holds the carry or the
borrow. Signed overflow shows in the sign bits of operands and result,
and the carry out of the low nibble in bit 4.

Beside the operations stand predicates that judge operands and a result
of the plain width, without the spare bit.
-/

namespace Disasm8086

variable {w : Nat}

namespace Alu

/-- A result, the carry or borrow out of it, whether its sign is wrong,
and the carry or borrow out of its low nibble. -/
structure Outcome (w : Nat) where
  result : BitVec w
  carry : Bool
  overflow : Bool
  auxCarry : Bool
  deriving DecidableEq, Repr

-- ========================================================= predicates

/-- Whether a result is zero. -/
def isZero (result : BitVec w) : Bool := result == 0

/-- Whether a result is negative. -/
def isSign (result : BitVec w) : Bool := result.msb

/-- Whether the eight low bits of a result have an even number of ones. -/
def isParity (result : BitVec w) : Bool :=
  (List.range 8).countP (fun i => result.getLsbD i) % 2 == 0

/-- Whether a sum without carry-in has wrapped around. -/
def isCarryAdd (lhs result : BitVec w) : Bool := result.ult lhs

/-- Whether a difference without borrow-in wraps around. -/
def isCarrySub (lhs rhs : BitVec w) : Bool := lhs.ult rhs

/-- Whether a sum has a sign that neither of its operands has. -/
def isOverflowAdd (lhs rhs result : BitVec w) : Bool :=
  ((lhs ^^^ result) &&& (rhs ^^^ result)).msb

/-- Whether operands of different sign gave a difference of the wrong
sign. -/
def isOverflowSub (lhs rhs result : BitVec w) : Bool :=
  ((lhs ^^^ rhs) &&& (lhs ^^^ result)).msb

/-- Whether a carry or borrow went out of the low nibble. -/
def isAuxCarry (lhs rhs result : BitVec w) : Bool :=
  (lhs ^^^ rhs ^^^ result).getLsbD 4

-- ========================================================= operations

/-- Addition with carry. -/
def adc (lhs rhs : BitVec w) (carry : Bool) : Outcome w :=
  let l := lhs.setWidth (w + 1)
  let r := rhs.setWidth (w + 1)
  let sum := l + r + (BitVec.ofBool carry).setWidth (w + 1)
  { result := sum.setWidth w
    carry := sum.getLsbD w
    overflow := ((l ^^^ sum) &&& (r ^^^ sum)).getLsbD (w - 1)
    auxCarry := (l ^^^ r ^^^ sum).getLsbD 4 }

/-- Subtraction with borrow. -/
def sbb (lhs rhs : BitVec w) (borrow : Bool) : Outcome w :=
  let l := lhs.setWidth (w + 1)
  let r := rhs.setWidth (w + 1)
  let difference := l - (r + (BitVec.ofBool borrow).setWidth (w + 1))
  { result := difference.setWidth w
    carry := difference.getLsbD w
    overflow := ((l ^^^ r) &&& (l ^^^ difference)).getLsbD (w - 1)
    auxCarry := (l ^^^ r ^^^ difference).getLsbD 4 }

/-- Addition. -/
def add (lhs rhs : BitVec w) : Outcome w := adc lhs rhs false

/-- Subtraction. -/
def sub (lhs rhs : BitVec w) : Outcome w := sbb lhs rhs false

/-- Negation, as subtraction from zero. -/
def neg (operand : BitVec w) : Outcome w := sub 0 operand

end Alu

end Disasm8086
