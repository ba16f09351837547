/-
Flags judged without the spare bit. Beside the operations stand
predicates that get operands and a result of the plain width and say what
the flags are. Overflow and auxiliary carry are properties of an outcome
already, whatever the carry in (`Alu.isSum_adc`, `Alu.isDifference_sbb`).
Carry is different: its two predicates compare two numbers, and the carry
in is not among them, so they cannot always be right where there is one.

How far they are right can be said exactly. A sum that has wrapped is
below its left operand unless the right operand and the carry in are a
whole turn of the width, in which case it is the left operand. A
difference borrows if the left operand is below the right one, and with a
borrow in also if the two are equal. Apart from these two cases the
comparisons agree with the carry; in the two cases they do not
(`isCarryAdd_eq_carry_iff`, `isCarrySub_eq_carry_iff`).
-/
import Disasm8086.Proofs.Outcome

namespace Disasm8086

namespace Alu

variable {w : Nat} (lhs rhs : BitVec w) (carry : Bool)

/-- A sum has wrapped if it is less than what was added to. -/
theorem isCarryAdd_iff (result : BitVec w) :
    isCarryAdd lhs result = true ↔ result.toNat < lhs.toNat := by
  rw [isCarryAdd, BitVec.ult_iff_lt, BitVec.lt_def]

theorem isCarrySub_iff : isCarrySub lhs rhs = true ↔ lhs.toNat < rhs.toNat := by
  rw [isCarrySub, BitVec.ult_iff_lt, BitVec.lt_def]

/-- The right operand and the carry in are a whole turn of the width. -/
theorem toNat_add_toNat_eq_iff :
    rhs.toNat + carry.toNat = 2 ^ w ↔ carry = true ∧ rhs = BitVec.allOnes w := by
  have hr := rhs.isLt
  rw [← BitVec.toNat_inj, BitVec.toNat_allOnes]
  cases carry with
  | false =>
      rw [Bool.toNat_false]
      simp only [Bool.false_eq_true, false_and, iff_false]
      omega
  | true =>
      rw [Bool.toNat_true]
      simp only [true_and]
      omega

/-- The result of an addition is below the left operand exactly if there is
a carry out, except where a whole turn has been added. -/
theorem isCarryAdd_eq_carry_iff :
    isCarryAdd lhs (adc lhs rhs carry).result = (adc lhs rhs carry).carry
      ↔ ¬(carry = true ∧ rhs = BitVec.allOnes w) := by
  have hvalue := value_adc lhs rhs carry
  have hresult := (adc lhs rhs carry).result.isLt
  have hr := rhs.isLt
  have hc := carry.toNat_le
  rw [Bool.eq_iff_iff, isCarryAdd_iff, ← toNat_add_toNat_eq_iff]
  cases hout : (adc lhs rhs carry).carry with
  | false =>
      -- nothing has wrapped, so the result is not below its left operand
      rw [hout, Bool.toNat_false] at hvalue
      simp only [Bool.false_eq_true, iff_false]
      omega
  | true =>
      rw [hout, Bool.toNat_true] at hvalue
      simp only [iff_true]
      omega

/-- The left operand is below the right one exactly if there is a borrow
out, except where the two are equal and there is a borrow in. -/
theorem isCarrySub_eq_carry_iff :
    isCarrySub lhs rhs = (sbb lhs rhs carry).carry ↔ ¬(carry = true ∧ lhs = rhs) := by
  rw [Bool.eq_iff_iff, isCarrySub_iff, carry_sbb_iff, ← BitVec.toNat_inj]
  cases carry with
  | false =>
      simp only [Bool.toNat_false, Nat.add_zero, Bool.false_eq_true, false_and, not_false_iff]
  | true =>
      simp only [Bool.toNat_true, true_and]
      omega

/-- At both widths, the predicates on operands and results of the plain
width give the flags of the operations. Overflow and auxiliary carry they
give for every carry in; the carry for none, and for a carry in except
where the right operand of a sum is all ones and where the operands of a
difference are equal. -/
theorem predicates_give_flags (width : Width) (lhs rhs : BitVec width.bits) :
    isCarryAdd lhs (add lhs rhs).result = (add lhs rhs).carry
      ∧ isCarrySub lhs rhs = (sub lhs rhs).carry
      ∧ ∀ carry : Bool,
          isOverflowAdd lhs rhs (adc lhs rhs carry).result = (adc lhs rhs carry).overflow
            ∧ isAuxCarry lhs rhs (adc lhs rhs carry).result = (adc lhs rhs carry).auxCarry
            ∧ isOverflowSub lhs rhs (sbb lhs rhs carry).result = (sbb lhs rhs carry).overflow
            ∧ isAuxCarry lhs rhs (sbb lhs rhs carry).result = (sbb lhs rhs carry).auxCarry
            ∧ (isCarryAdd lhs (adc lhs rhs carry).result = (adc lhs rhs carry).carry
                ↔ ¬(carry = true ∧ rhs = BitVec.allOnes width.bits))
            ∧ (isCarrySub lhs rhs = (sbb lhs rhs carry).carry
                ↔ ¬(carry = true ∧ lhs = rhs)) := by
  have hbits : 4 < width.bits := by
    have height := width.eight_le_bits
    omega
  refine ⟨?_, ?_, fun carry => ?_⟩
  · exact (isCarryAdd_eq_carry_iff lhs rhs false).mpr fun h => Bool.false_ne_true h.1
  · exact (isCarrySub_eq_carry_iff lhs rhs false).mpr fun h => Bool.false_ne_true h.1
  · have hsum := isSum_adc lhs rhs carry hbits
    have hdifference := isDifference_sbb lhs rhs carry hbits
    exact ⟨hsum.overflow.symm, hsum.auxCarry.symm, hdifference.overflow.symm,
      hdifference.auxCarry.symm, isCarryAdd_eq_carry_iff lhs rhs carry,
      isCarrySub_eq_carry_iff lhs rhs carry⟩

end Alu

end Disasm8086
