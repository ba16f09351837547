/-
What an outcome is determined by. One equation of natural numbers fixes
result and carry of a sum or of a difference, and two predicates on
operands and result fix overflow and auxiliary carry. Nothing else is
left, so there is one outcome with these properties, the one that the
operation yields (`Outcome.IsSum.unique`, `Outcome.IsDifference.unique`).
To prove that an operation yields some outcome it is therefore enough to
prove the three properties, and no proof here looks at the spare bit.

# Registers

A processor that adds bytes and words in a register of 32 bits has more
than one bit to spare, and picks what it needs with masks. Its outcomes
have the same properties, so they are the same outcomes
(`adc_eq_adcMasked`, `sbb_eq_sbbMasked`).

# Undoing

The properties of a sum are those of a difference read the other way
round. The equation says of the left operand that it is what is left of
the result, and both predicates are symmetric in the two numbers that
change places. So a subtraction takes an addition back, and an addition a
subtraction. The operand comes back, and each of the three flags is set on
the way back exactly if it was set on the way there
(`sbb_undoes_adc`).
-/
import Disasm8086.Proofs.IntegerMeaning

namespace Disasm8086

namespace Alu

variable {w : Nat}

-- ========================================================== properties

/-- The outcome of an addition with carry. -/
structure Outcome.IsSum (o : Outcome w) (lhs rhs : BitVec w) (carry : Bool) : Prop where
  value : o.result.toNat + o.carry.toNat * 2 ^ w = lhs.toNat + rhs.toNat + carry.toNat
  overflow : o.overflow = isOverflowAdd lhs rhs o.result
  auxCarry : o.auxCarry = isAuxCarry lhs rhs o.result

/-- The outcome of a subtraction with borrow. -/
structure Outcome.IsDifference (o : Outcome w) (lhs rhs : BitVec w) (borrow : Bool) : Prop where
  value : o.result.toNat + rhs.toNat + borrow.toNat = lhs.toNat + o.carry.toNat * 2 ^ w
  overflow : o.overflow = isOverflowSub lhs rhs o.result
  auxCarry : o.auxCarry = isAuxCarry lhs rhs o.result

section Operations

variable (lhs rhs : BitVec w) (carry : Bool)

/-- Cutting a number that reaches up to bit 4 leaves that bit. -/
theorem getLsbD_four_setWidth {n m : Nat} (h : 4 < m) (x : BitVec n) :
    (x.setWidth m).getLsbD 4 = x.getLsbD 4 := by
  rw [BitVec.getLsbD_setWidth, decide_eq_true h, Bool.true_and]

/-- The auxiliary carry shows below the spare bits, however many there are. -/
theorem isAuxCarry_setWidth {v : Nat} (h : 4 < w) (hv : 4 < v) (result : BitVec v) :
    (lhs.setWidth v ^^^ rhs.setWidth v ^^^ result).getLsbD 4
      = isAuxCarry lhs rhs (result.setWidth w) := by
  simp only [isAuxCarry, BitVec.getLsbD_xor, getLsbD_four_setWidth h, getLsbD_four_setWidth hv]

/-- Addition yields a sum. -/
theorem isSum_adc (h : 4 < w) : (adc lhs rhs carry).IsSum lhs rhs carry where
  value := value_adc lhs rhs carry
  overflow := overflow_adc lhs rhs carry (by omega)
  auxCarry := isAuxCarry_setWidth lhs rhs h (by omega) _

theorem isDifference_sbb (h : 4 < w) : (sbb lhs rhs carry).IsDifference lhs rhs carry where
  value := value_sbb lhs rhs carry
  overflow := overflow_sbb lhs rhs carry (by omega)
  auxCarry := isAuxCarry_setWidth lhs rhs h (by omega) _

end Operations

-- ========================================================== uniqueness

/-- A number that one bit more than the width can hold is a result and a
carry in one way only. -/
theorem eq_of_value_eq {r r' : BitVec w} {c c' : Bool}
    (h : r.toNat + c.toNat * 2 ^ w = r'.toNat + c'.toNat * 2 ^ w) : r = r' ∧ c = c' := by
  have hinjective : ∀ b b' : Bool, b.toNat = b'.toNat → b = b' := by decide
  have hresult : r.toNat = r'.toNat := by
    have hmod := congrArg (· % 2 ^ w) h
    simpa only [Nat.add_mul_mod_self_right, Nat.mod_eq_of_lt r.isLt, Nat.mod_eq_of_lt r'.isLt]
      using hmod
  have hcarry : c.toNat = c'.toNat := by
    rw [hresult] at h
    exact Nat.eq_of_mul_eq_mul_right (Nat.two_pow_pos w) (Nat.add_left_cancel h)
  exact ⟨BitVec.eq_of_toNat_eq hresult, hinjective c c' hcarry⟩

namespace Outcome

variable {o o' : Outcome w} {lhs rhs : BitVec w} {carry : Bool}

/-- Operands and carry have one sum. -/
theorem IsSum.unique (h : o.IsSum lhs rhs carry) (h' : o'.IsSum lhs rhs carry) : o = o' := by
  obtain ⟨result, out, overflow, auxCarry⟩ := o
  obtain ⟨result', out', overflow', auxCarry'⟩ := o'
  obtain ⟨rfl, rfl⟩ : result = result' ∧ out = out' :=
    eq_of_value_eq (h.value.trans h'.value.symm)
  obtain rfl : overflow = overflow' := h.overflow.trans h'.overflow.symm
  obtain rfl : auxCarry = auxCarry' := h.auxCarry.trans h'.auxCarry.symm
  rfl

theorem IsDifference.unique (h : o.IsDifference lhs rhs carry)
    (h' : o'.IsDifference lhs rhs carry) : o = o' := by
  obtain ⟨result, out, overflow, auxCarry⟩ := o
  obtain ⟨result', out', overflow', auxCarry'⟩ := o'
  -- the borrows change sides, so that each stands by the other's result
  obtain ⟨rfl, rfl⟩ : result = result' ∧ out' = out := by
    apply eq_of_value_eq
    have hvalue := h.value
    have hvalue' := h'.value
    simp only at hvalue hvalue'
    omega
  obtain rfl : overflow = overflow' := h.overflow.trans h'.overflow.symm
  obtain rfl : auxCarry = auxCarry' := h.auxCarry.trans h'.auxCarry.symm
  rfl

end Outcome

-- ======================================================= a wide register

section Register

variable (lhs rhs : BitVec w) (carry : Bool)

/-- Addition with carry in a register of 32 bits. The bits above those of
the result are the carry, and masks pick the others that matter. -/
def adcMasked : Outcome w :=
  let l := lhs.setWidth 32
  let r := rhs.setWidth 32
  let sum := l + r + (BitVec.ofBool carry).setWidth 32
  { result := sum.setWidth w
    carry := sum &&& (0xFFFFFFFF#32 <<< w) != 0
    overflow := (l ^^^ sum) &&& (r ^^^ sum) &&& (1#32 <<< (w - 1)) != 0
    auxCarry := (l ^^^ r ^^^ sum) &&& 0x10#32 != 0 }

/-- Subtraction with borrow in a register of 32 bits. -/
def sbbMasked : Outcome w :=
  let l := lhs.setWidth 32
  let r := rhs.setWidth 32
  let difference := l - (r + (BitVec.ofBool carry).setWidth 32)
  { result := difference.setWidth w
    carry := difference &&& (0xFFFFFFFF#32 <<< w) != 0
    overflow := (l ^^^ r) &&& (l ^^^ difference) &&& (1#32 <<< (w - 1)) != 0
    auxCarry := (l ^^^ r ^^^ difference) &&& 0x10#32 != 0 }

/-- A mask of the high bits tells whether a number needs them. -/
theorem and_high_ne_zero (x : BitVec 32) (n : Nat) :
    (x &&& (0xFFFFFFFF#32 <<< n) != 0) = decide (2 ^ n ≤ x.toNat) := by
  have hmask : x &&& (0xFFFFFFFF#32 <<< n) = x >>> n <<< n := BitVec.shiftLeft_ushiftRight.symm
  have hvalue : (x >>> n <<< n).toNat = x.toNat / 2 ^ n * 2 ^ n := by
    rw [BitVec.toNat_shiftLeft, BitVec.toNat_ushiftRight, Nat.shiftLeft_eq,
      Nat.shiftRight_eq_div_pow]
    exact Nat.mod_eq_of_lt (Nat.lt_of_le_of_lt (Nat.div_mul_le_self _ _) x.isLt)
  have hpos : 0 < 2 ^ n := Nat.two_pow_pos n
  have hzero : (x >>> n <<< n = 0) ↔ x.toNat < 2 ^ n := by
    rw [← BitVec.toNat_inj, hvalue, ← Nat.div_eq_zero_iff_lt hpos]
    exact Nat.mul_eq_zero.trans (or_iff_left hpos.ne')
  rw [hmask, bne, Bool.eq_iff_iff, Bool.not_eq_true', beq_eq_false_iff_ne, ne_eq, hzero,
    Nat.not_lt, decide_eq_true_iff]

/-- A mask of one bit tells whether it is set. -/
theorem and_bit_ne_zero (x : BitVec 32) {k : Nat} (h : k < 32) :
    (x &&& (1#32 <<< k) != 0) = x.getLsbD k := by
  have hbit : x &&& (1#32 <<< k) = if x.getLsbD k = true then BitVec.twoPow 32 k else 0 :=
    BitVec.and_twoPow x k
  have hset : BitVec.twoPow 32 k ≠ 0 := by
    intro hzero
    have hget := congrArg (BitVec.getLsbD · k) hzero
    simp [h] at hget
  rw [hbit]
  cases x.getLsbD k with
  | false => rfl
  | true => simpa using hset

/-- In the register, addition yields a sum. -/
theorem isSum_adcMasked (hw : 4 < w) (h : w < 32) :
    (adcMasked lhs rhs carry).IsSum lhs rhs carry := by
  have haux : 0x10#32 = 1#32 <<< 4 := rfl
  simp only [adcMasked, haux, and_high_ne_zero, and_bit_ne_zero _ (show 4 < 32 by decide),
    and_bit_ne_zero _ (show w - 1 < 32 by omega)]
  exact ⟨value_sum lhs rhs carry h, isOverflowAdd_setWidth lhs rhs (by omega) h.le _,
    isAuxCarry_setWidth lhs rhs hw (by decide) _⟩

theorem isDifference_sbbMasked (hw : 4 < w) (h : w < 32) :
    (sbbMasked lhs rhs carry).IsDifference lhs rhs carry := by
  have haux : 0x10#32 = 1#32 <<< 4 := rfl
  simp only [sbbMasked, haux, and_high_ne_zero, and_bit_ne_zero _ (show 4 < 32 by decide),
    and_bit_ne_zero _ (show w - 1 < 32 by omega)]
  exact ⟨value_difference lhs rhs carry h, isOverflowSub_setWidth lhs rhs (by omega) h.le _,
    isAuxCarry_setWidth lhs rhs hw (by decide) _⟩

/-- One spare bit shows of a sum what a register of 32 bits shows. -/
theorem adc_eq_adcMasked (hw : 4 < w) (h : w < 32) :
    adc lhs rhs carry = adcMasked lhs rhs carry :=
  (isSum_adc lhs rhs carry hw).unique (isSum_adcMasked lhs rhs carry hw h)

/-- One spare bit shows of a difference what a register of 32 bits shows. -/
theorem sbb_eq_sbbMasked (hw : 4 < w) (h : w < 32) :
    sbb lhs rhs carry = sbbMasked lhs rhs carry :=
  (isDifference_sbb lhs rhs carry hw).unique (isDifference_sbbMasked lhs rhs carry hw h)

end Register

-- ============================================================= undoing

/-- Overflow looks at the same three signs in both directions. -/
theorem isOverflowSub_eq_isOverflowAdd (lhs rhs result : BitVec w) :
    isOverflowSub result rhs lhs = isOverflowAdd lhs rhs result := by
  rw [isOverflowSub, isOverflowAdd, BitVec.and_comm, BitVec.xor_comm result lhs,
    BitVec.xor_comm result rhs]

/-- The low nibbles, too, are looked at in the same way. -/
theorem isAuxCarry_swap (lhs rhs result : BitVec w) :
    isAuxCarry result rhs lhs = isAuxCarry lhs rhs result := by
  rw [isAuxCarry, isAuxCarry, BitVec.xor_comm result rhs, BitVec.xor_assoc,
    BitVec.xor_comm result lhs, ← BitVec.xor_assoc, BitVec.xor_comm rhs lhs]

namespace Outcome

variable {o : Outcome w} {lhs rhs : BitVec w} {carry : Bool}

/-- What is left of a sum without the right operand. -/
theorem IsSum.undo (h : o.IsSum lhs rhs carry) :
    IsDifference { o with result := lhs } o.result rhs carry where
  value := h.value.symm
  overflow := h.overflow.trans (isOverflowSub_eq_isOverflowAdd lhs rhs o.result).symm
  auxCarry := h.auxCarry.trans (isAuxCarry_swap lhs rhs o.result).symm

/-- What a difference and the right operand add up to. -/
theorem IsDifference.undo (h : o.IsDifference lhs rhs carry) :
    IsSum { o with result := lhs } o.result rhs carry where
  value := h.value.symm
  overflow := h.overflow.trans (isOverflowSub_eq_isOverflowAdd o.result rhs lhs)
  auxCarry := h.auxCarry.trans (isAuxCarry_swap o.result rhs lhs)

end Outcome

/-- At both widths, subtracting what has been added, with the same carry
in, yields the left operand and the flags of the addition, and adding what
has been subtracted the left operand and the flags of the subtraction. -/
theorem sbb_undoes_adc (width : Width) (lhs rhs : BitVec width.bits) (carry : Bool) :
    sbb (adc lhs rhs carry).result rhs carry = { adc lhs rhs carry with result := lhs }
      ∧ adc (sbb lhs rhs carry).result rhs carry = { sbb lhs rhs carry with result := lhs } := by
  have hbits : 4 < width.bits := by
    have height := width.eight_le_bits
    omega
  constructor
  · apply (isDifference_sbb _ rhs carry hbits).unique
    exact (isSum_adc lhs rhs carry hbits).undo
  · apply (isSum_adc _ rhs carry hbits).unique
    exact (isDifference_sbb lhs rhs carry hbits).undo

end Alu

end Disasm8086
