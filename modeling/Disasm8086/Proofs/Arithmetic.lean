/-
Addition and subtraction with carry, in whole numbers. The operations
work on one bit more than their operands have; here that bit and the
others are put together again, which gives one equation between natural
numbers for the sum (`Alu.value_adc`) and one for the difference
(`Alu.value_sbb`). Overflow is read off three sign bits, and the same
equations say that it is set exactly if the sum or the difference of the
operands in two's complement cannot be written in their width.

Everything is stated at any width. What the operations do with words, or
with the low bytes of words, is an instance (`AluOp.compute_eq`).
-/
import Disasm8086.Flags
import Mathlib.Data.Nat.Digits.Lemmas

namespace Disasm8086

-- ========================================================= vocabulary

/-- How many bits an operation of this width works on. -/
def Width.bits : Width → Nat
  | .byte => 8
  | _ => 16

theorem Width.bits_pos (width : Width) : 0 < width.bits := by
  cases width <;> decide

theorem Width.bits_le (width : Width) : width.bits ≤ 16 := by
  cases width <;> decide

/-- The whole numbers that `bits` bits hold in two's complement. -/
def SignedRange (bits : Nat) (v : Int) : Prop :=
  -((2 ^ (bits - 1) : Nat) : Int) ≤ v ∧ v < ((2 ^ (bits - 1) : Nat) : Int)

theorem two_pow_eq_double {n : Nat} (h : 0 < n) : 2 ^ n = 2 * 2 ^ (n - 1) := by
  obtain ⟨m, rfl⟩ : ∃ m, n = m + 1 := ⟨n - 1, by omega⟩
  exact Nat.pow_succ'

/-- One bit more holds twice as much. -/
theorem double_two_pow_le {m n : Nat} (h : m < n) : 2 * 2 ^ m ≤ 2 ^ n := by
  rw [← Nat.pow_succ']
  exact Nat.pow_le_pow_right (by decide) h

-- ======================================================== the spare bit

namespace Alu

variable {w v : Nat}

/-- The spare bit is set if the bits below it are not enough. -/
theorem getLsbD_spare (x : BitVec (w + 1)) : x.getLsbD w = decide (2 ^ w ≤ x.toNat) := by
  have hmsb := BitVec.msb_eq_decide x
  rwa [BitVec.msb_eq_getLsbD_last, Nat.add_sub_cancel] at hmsb

/-- The highest bit below the spare ones is the sign of what is kept. -/
theorem getLsbD_below_spare (h : 0 < w) (x : BitVec v) :
    x.getLsbD (w - 1) = (x.setWidth w).msb := by
  rw [BitVec.msb_eq_getLsbD_last, BitVec.getLsbD_setWidth, decide_eq_true (by omega), Bool.true_and]

section Operations

variable (lhs rhs : BitVec w) (carry : Bool)

/-- The overflow of a sum shows below the spare bits, so the plain operands
and the result show it. -/
theorem isOverflowAdd_setWidth (h : 0 < w) (hv : w ≤ v) (sum : BitVec v) :
    ((lhs.setWidth v ^^^ sum) &&& (rhs.setWidth v ^^^ sum)).getLsbD (w - 1)
      = isOverflowAdd lhs rhs (sum.setWidth w) := by
  simp only [isOverflowAdd, getLsbD_below_spare h, BitVec.setWidth_and, BitVec.setWidth_xor,
    BitVec.setWidth_setWidth_of_le _ hv, BitVec.setWidth_eq]

/-- And so does that of a difference. -/
theorem isOverflowSub_setWidth (h : 0 < w) (hv : w ≤ v) (difference : BitVec v) :
    ((lhs.setWidth v ^^^ rhs.setWidth v) &&& (lhs.setWidth v ^^^ difference)).getLsbD (w - 1)
      = isOverflowSub lhs rhs (difference.setWidth w) := by
  simp only [isOverflowSub, getLsbD_below_spare h, BitVec.setWidth_and, BitVec.setWidth_xor,
    BitVec.setWidth_setWidth_of_le _ hv, BitVec.setWidth_eq]

/-- One spare bit is enough to hold the sum without wrapping. -/
theorem toNat_sum (h : w < v) :
    (lhs.setWidth v + rhs.setWidth v + (BitVec.ofBool carry).setWidth v).toNat
      = lhs.toNat + rhs.toNat + carry.toNat := by
  have hl := lhs.isLt
  have hr := rhs.isLt
  have hc := carry.toNat_le
  have hpow := double_two_pow_le h
  have hpos : 0 < 2 ^ w := Nat.two_pow_pos w
  simp only [BitVec.toNat_add, BitVec.toNat_setWidth, BitVec.toNat_ofBool]
  rw [Nat.mod_eq_of_lt (a := lhs.toNat) (by omega), Nat.mod_eq_of_lt (a := rhs.toNat) (by omega),
    Nat.mod_eq_of_lt (a := carry.toNat) (by omega),
    Nat.mod_eq_of_lt (a := _ + rhs.toNat) (by omega), Nat.mod_eq_of_lt (by omega)]

/-- A difference below zero wraps once, and then has the spare bits set. -/
theorem toNat_difference (h : w < v) :
    (lhs.setWidth v - (rhs.setWidth v + (BitVec.ofBool carry).setWidth v)).toNat
      = if rhs.toNat + carry.toNat ≤ lhs.toNat then lhs.toNat - (rhs.toNat + carry.toNat)
        else 2 ^ v + lhs.toNat - (rhs.toNat + carry.toNat) := by
  have hl := lhs.isLt
  have hr := rhs.isLt
  have hc := carry.toNat_le
  have hpow := double_two_pow_le h
  have hpos : 0 < 2 ^ w := Nat.two_pow_pos w
  simp only [BitVec.toNat_sub, BitVec.toNat_add, BitVec.toNat_setWidth, BitVec.toNat_ofBool]
  rw [Nat.mod_eq_of_lt (a := lhs.toNat) (by omega), Nat.mod_eq_of_lt (a := rhs.toNat) (by omega),
    Nat.mod_eq_of_lt (a := carry.toNat) (by omega),
    Nat.mod_eq_of_lt (a := rhs.toNat + _) (by omega)]
  split
  · rw [Nat.mod_eq_sub_mod (by omega), Nat.mod_eq_of_lt (by omega)]
    omega
  · rw [Nat.mod_eq_of_lt (by omega)]
    omega

-- =========================================================== exactness

/-- What is kept of a sum and whether the spare bits are in use make up the
sum. -/
theorem value_sum (h : w < v) :
    let sum := lhs.setWidth v + rhs.setWidth v + (BitVec.ofBool carry).setWidth v
    (sum.setWidth w).toNat + (decide (2 ^ w ≤ sum.toNat)).toNat * 2 ^ w
      = lhs.toNat + rhs.toNat + carry.toNat := by
  have hl := lhs.isLt
  have hr := rhs.isLt
  have hc := carry.toNat_le
  simp only [BitVec.toNat_setWidth, toNat_sum lhs rhs carry h]
  by_cases hcarry : 2 ^ w ≤ lhs.toNat + rhs.toNat + carry.toNat
  · rw [decide_eq_true hcarry, Bool.toNat_true, Nat.mod_eq_sub_mod hcarry,
      Nat.mod_eq_of_lt (by omega)]
    omega
  · rw [decide_eq_false hcarry, Bool.toNat_false, Nat.mod_eq_of_lt (by omega)]
    omega

/-- What is kept of a difference lacks the borrow that the spare bits
show. -/
theorem value_difference (h : w < v) :
    let difference := lhs.setWidth v - (rhs.setWidth v + (BitVec.ofBool carry).setWidth v)
    (difference.setWidth w).toNat + rhs.toNat + carry.toNat
      = lhs.toNat + (decide (2 ^ w ≤ difference.toNat)).toNat * 2 ^ w := by
  have hl := lhs.isLt
  have hr := rhs.isLt
  have hc := carry.toNat_le
  have hpow := double_two_pow_le h
  simp only [BitVec.toNat_setWidth, toNat_difference lhs rhs carry h]
  by_cases hborrow : rhs.toNat + carry.toNat ≤ lhs.toNat
  · rw [if_pos hborrow, decide_eq_false (by omega), Bool.toNat_false, Nat.mod_eq_of_lt (by omega)]
    omega
  · -- the register wraps at a multiple of what the result wraps at
    have hwrap : 2 ^ v + lhs.toNat - (rhs.toNat + carry.toNat)
        = 2 ^ w + lhs.toNat - (rhs.toNat + carry.toNat) + (2 ^ v - 2 ^ w) := by
      omega
    have hmultiple : 2 ^ w ∣ 2 ^ v - 2 ^ w :=
      Nat.dvd_sub (Nat.pow_dvd_pow 2 h.le) (Nat.dvd_refl _)
    rw [if_neg hborrow, decide_eq_true (by omega), Bool.toNat_true, hwrap, Nat.add_mod,
      Nat.mod_eq_zero_of_dvd hmultiple, Nat.add_zero, Nat.mod_mod, Nat.mod_eq_of_lt (by omega)]
    omega

/-- Result and carry of an addition make up the sum. -/
theorem value_adc :
    (adc lhs rhs carry).result.toNat + (adc lhs rhs carry).carry.toNat * 2 ^ w
      = lhs.toNat + rhs.toNat + carry.toNat := by
  simp only [adc, getLsbD_spare]
  exact value_sum lhs rhs carry (Nat.lt_succ_self w)

/-- The result of a subtraction is the difference, but for the borrow. -/
theorem value_sbb :
    (sbb lhs rhs carry).result.toNat + rhs.toNat + carry.toNat
      = lhs.toNat + (sbb lhs rhs carry).carry.toNat * 2 ^ w := by
  simp only [sbb, getLsbD_spare]
  exact value_difference lhs rhs carry (Nat.lt_succ_self w)

/-- A borrow is needed if the left operand is the smaller one. -/
theorem carry_sbb_iff :
    (sbb lhs rhs carry).carry = true ↔ lhs.toNat < rhs.toNat + carry.toNat := by
  have hvalue := value_sbb lhs rhs carry
  have hresult := (sbb lhs rhs carry).result.isLt
  cases hout : (sbb lhs rhs carry).carry with
  | false =>
      rw [hout, Bool.toNat_false] at hvalue
      simp only [Bool.false_eq_true, false_iff]
      omega
  | true =>
      rw [hout, Bool.toNat_true] at hvalue
      simp only [true_iff]
      omega

-- ============================================================ overflow

/-- The flag of an addition is the overflow of its operands and result. -/
theorem overflow_adc (h : 0 < w) :
    (adc lhs rhs carry).overflow = isOverflowAdd lhs rhs (adc lhs rhs carry).result :=
  isOverflowAdd_setWidth lhs rhs h (Nat.le_succ w) _

/-- And so is the flag of a subtraction. -/
theorem overflow_sbb (h : 0 < w) :
    (sbb lhs rhs carry).overflow = isOverflowSub lhs rhs (sbb lhs rhs carry).result :=
  isOverflowSub_setWidth lhs rhs h (Nat.le_succ w) _

/-- Overflow is set exactly if the signed sum does not fit the width. -/
theorem overflow_adc_iff (h : 0 < w) :
    (adc lhs rhs carry).overflow = true
      ↔ ¬ SignedRange w (lhs.toInt + rhs.toInt + carry.toNat) := by
  have hl := lhs.isLt
  have hr := rhs.isLt
  have hresult := (adc lhs rhs carry).result.isLt
  have hc := carry.toNat_le
  have hvalue := value_adc lhs rhs carry
  have hpow := two_pow_eq_double h
  rw [overflow_adc _ _ _ h, isOverflowAdd, BitVec.msb_and, BitVec.msb_xor, BitVec.msb_xor]
  simp only [BitVec.msb_eq_decide, BitVec.toInt_eq_toNat_cond, SignedRange]
  generalize (adc lhs rhs carry).result.toNat = result at *
  generalize (adc lhs rhs carry).carry = out at *
  -- with the carry out known, what is left are three signs and linear facts
  cases out <;> grind

/-- Overflow is set exactly if the signed difference does not fit the
width. -/
theorem overflow_sbb_iff (h : 0 < w) :
    (sbb lhs rhs carry).overflow = true
      ↔ ¬ SignedRange w (lhs.toInt - (rhs.toInt + carry.toNat)) := by
  have hl := lhs.isLt
  have hr := rhs.isLt
  have hresult := (sbb lhs rhs carry).result.isLt
  have hc := carry.toNat_le
  have hvalue := value_sbb lhs rhs carry
  have hpow := two_pow_eq_double h
  rw [overflow_sbb _ _ _ h, isOverflowSub, BitVec.msb_and, BitVec.msb_xor, BitVec.msb_xor]
  simp only [BitVec.msb_eq_decide, BitVec.toInt_eq_toNat_cond, SignedRange]
  generalize (sbb lhs rhs carry).result.toNat = result at *
  generalize (sbb lhs rhs carry).carry = out at *
  cases out <;> grind

end Operations

/-- The sign flag shows a negative number. -/
theorem isSign_iff (x : BitVec w) : isSign x = true ↔ x.toInt < 0 := by
  rw [isSign, BitVec.msb_eq_toInt, decide_eq_true_iff]

theorem isZero_iff (x : BitVec w) : isZero x = true ↔ x.toNat = 0 := by
  rw [isZero, beq_iff_eq, ← BitVec.toNat_inj]
  simp

end Alu

-- ================================================================ words

namespace AluOp

variable (op : AluOp) (width : Width) (lhs rhs : UInt16) (carry : Bool)

/-- Byte operations work on the low bytes of their words, and leave the
high byte of the result clear. -/
theorem compute_eq :
    op.compute width lhs rhs carry
      = (⟨(op.eval (lhs.toBitVec.setWidth width.bits) (rhs.toBitVec.setWidth width.bits)
            carry).1.setWidth 16⟩,
          (op.eval (lhs.toBitVec.setWidth width.bits) (rhs.toBitVec.setWidth width.bits)
            carry).2) := by
  cases width with
  | byte => rfl
  | none | word => simp only [compute, Width.bits, BitVec.setWidth_eq]

theorem toBitVec_compute :
    (op.compute width lhs rhs carry).1.toBitVec.setWidth width.bits
      = (op.eval (lhs.toBitVec.setWidth width.bits) (rhs.toBitVec.setWidth width.bits)
          carry).1 := by
  rw [compute_eq]
  exact (BitVec.setWidth_setWidth_of_le _ width.bits_le).trans (BitVec.setWidth_eq _)

/-- The high byte of the result of a byte operation adds nothing to it. -/
theorem toNat_compute :
    (op.compute width lhs rhs carry).1.toNat
      = (op.eval (lhs.toBitVec.setWidth width.bits) (rhs.toBitVec.setWidth width.bits)
          carry).1.toNat := by
  rw [compute_eq]
  exact BitVec.toNat_setWidth_of_le width.bits_le

end AluOp

end Disasm8086
