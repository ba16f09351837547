/-
What a comparison tells. It subtracts and keeps the flags, and the flags
decide every question of order: carry whether the left operand is below
the right one without signs, zero whether the two are equal, and sign and
overflow together whether the left one is less in two's complement. The
eight conditional branches that look at order read exactly these flags
(`AluOp.compare_decides_order`).

# The argument

Only the signed order needs one. A difference that fits the width is the
result, so its sign is the sign flag. One that does not is a turn of the
width away from the result, on the other side of zero, so its sign is the
opposite; and this is when overflow is set (`Alu.sign_ne_overflow_iff`).
-/
import Disasm8086.Proofs.Arithmetic

namespace Disasm8086

-- ============================================================= numbers

namespace Width

/-- The low bits of a word as a number without a sign. -/
def unsigned (width : Width) (x : UInt16) : Nat := x.toNat % 2 ^ width.bits

/-- The low bits of a word in two's complement. -/
def signed (width : Width) (x : UInt16) : Int := Int.bmod x.toNat (2 ^ width.bits)

variable (width : Width) (x : UInt16)

/-- The operand of an operation, as a number without a sign. -/
theorem toNat_setWidth_bits : (x.toBitVec.setWidth width.bits).toNat = width.unsigned x := by
  rw [BitVec.toNat_setWidth, unsigned, UInt16.toNat_toBitVec]

theorem toInt_setWidth_bits : (x.toBitVec.setWidth width.bits).toInt = width.signed x := by
  rw [BitVec.toInt_eq_toNat_bmod, BitVec.toNat_setWidth, signed, UInt16.toNat_toBitVec,
    Int.natCast_emod, Int.emod_bmod]

/-- Operands are equal as signed numbers if they are as unsigned ones. -/
theorem signed_inj {y : UInt16} :
    width.signed x = width.signed y ↔ width.unsigned x = width.unsigned y := by
  rw [← toInt_setWidth_bits, ← toInt_setWidth_bits, BitVec.toInt_inj, ← BitVec.toNat_inj,
    toNat_setWidth_bits, toNat_setWidth_bits]

end Width

-- ========================================================= differences

namespace Alu

variable {w : Nat} (lhs rhs : BitVec w) (borrow : Bool)

/-- A subtraction borrows a turn of the width or it does not. -/
theorem sub_cases :
    ((sub lhs rhs).carry = true ∧ lhs.toNat < rhs.toNat
        ∧ (sub lhs rhs).result.toNat + rhs.toNat = lhs.toNat + 2 ^ w)
      ∨ ((sub lhs rhs).carry = false ∧ rhs.toNat ≤ lhs.toNat
        ∧ (sub lhs rhs).result.toNat + rhs.toNat = lhs.toNat) := by
  have hresult := (sub lhs rhs).result.isLt
  have hvalue : (sub lhs rhs).result.toNat + rhs.toNat
      = lhs.toNat + (sub lhs rhs).carry.toNat * 2 ^ w := value_sbb lhs rhs false
  cases hcarry : (sub lhs rhs).carry with
  | true =>
      rw [hcarry, Bool.toNat_true, Nat.one_mul] at hvalue
      exact Or.inl ⟨rfl, by omega, hvalue⟩
  | false =>
      rw [hcarry, Bool.toNat_false, Nat.zero_mul] at hvalue
      exact Or.inr ⟨rfl, by omega, hvalue⟩

/-- The carry shows the order without signs. -/
theorem carry_sub_iff : (sub lhs rhs).carry = true ↔ lhs.toNat < rhs.toNat :=
  carry_sbb_iff lhs rhs false

/-- The zero flag shows equality. -/
theorem isZero_sub_iff : isZero (sub lhs rhs).result = true ↔ lhs.toNat = rhs.toNat := by
  have hr := rhs.isLt
  rw [isZero_iff]
  rcases sub_cases lhs rhs with ⟨-, hlt, hvalue⟩ | ⟨-, hle, hvalue⟩
  · -- no right operand is a whole turn, so a borrow leaves something
    omega
  · omega

theorem signedRange_toInt (x : BitVec w) : SignedRange w x.toInt := by
  have hlow := BitVec.le_toInt x
  have hhigh := BitVec.toInt_lt (x := x)
  constructor
  · exact_mod_cast hlow
  · exact_mod_cast hhigh

/-- The result of a subtraction is the difference of the signed operands,
or a turn of the width away from it. -/
theorem toInt_sbb_cases :
    (sbb lhs rhs borrow).result.toInt = lhs.toInt - (rhs.toInt + borrow.toNat)
      ∨ (sbb lhs rhs borrow).result.toInt
          = lhs.toInt - (rhs.toInt + borrow.toNat) + (2 ^ w : Nat)
      ∨ (sbb lhs rhs borrow).result.toInt
          = lhs.toInt - (rhs.toInt + borrow.toNat) - (2 ^ w : Nat) := by
  have hl := lhs.isLt
  have hr := rhs.isLt
  have hresult := (sbb lhs rhs borrow).result.isLt
  have hb := borrow.toNat_le
  have hvalue := value_sbb lhs rhs borrow
  simp only [BitVec.toInt_eq_toNat_cond]
  generalize 2 ^ w = turn at *
  cases hcarry : (sbb lhs rhs borrow).carry with
  | false =>
      rw [hcarry, Bool.toNat_false] at hvalue
      split <;> split <;> split <;> omega
  | true =>
      rw [hcarry, Bool.toNat_true] at hvalue
      split <;> split <;> split <;> omega

/-- Sign and overflow differ exactly if the difference of the signed
operands is negative. -/
theorem sign_ne_overflow_iff (h : 0 < w) :
    isSign (sbb lhs rhs borrow).result ≠ (sbb lhs rhs borrow).overflow
      ↔ lhs.toInt < rhs.toInt + borrow.toNat := by
  have hsign := isSign_iff (sbb lhs rhs borrow).result
  have hoverflow := overflow_sbb_iff lhs rhs borrow h
  have hcases := toInt_sbb_cases lhs rhs borrow
  have hl := signedRange_toInt lhs
  have hr := signedRange_toInt rhs
  have hfits := signedRange_toInt (sbb lhs rhs borrow).result
  have hb := borrow.toNat_le
  rw [two_pow_eq_double h] at hcases
  unfold SignedRange at hoverflow hl hr hfits
  generalize (sbb lhs rhs borrow).result.toInt = result at *
  generalize 2 ^ (w - 1) = half at *
  by_cases hset : (sbb lhs rhs borrow).overflow = true
  · -- the result is a turn away from the difference, on the other side of zero
    have hrange := hoverflow.mp hset
    rw [hset, ne_eq, hsign]
    omega
  · -- both fit, so the result is the difference
    have hrange := hoverflow.not.mp hset
    rw [Bool.not_eq_true] at hset
    rw [hset, ne_eq, Bool.not_eq_false, hsign]
    omega

end Alu

-- ============================================================ branches

/-- The conditional branches that look at order. -/
inductive OrderBranch where
  | jb | jae | jbe | ja
  | jl | jge | jle | jg
  deriving DecidableEq, Repr

namespace OrderBranch

/-- Whether the branch is taken. -/
def isTaken (flags : Flags) : OrderBranch → Bool
  | .jb => flags.carry
  | .jae => !flags.carry
  | .jbe => flags.carry || flags.zero
  | .ja => !flags.carry && !flags.zero
  | .jl => flags.sign != flags.overflow
  | .jge => flags.sign == flags.overflow
  | .jle => flags.zero || flags.sign != flags.overflow
  | .jg => !flags.zero && flags.sign == flags.overflow

/-- What the branch asks of the operands of a comparison: four relations
of numbers without a sign, and four in two's complement. -/
def Asks (width : Width) (lhs rhs : UInt16) : OrderBranch → Prop
  | .jb => width.unsigned lhs < width.unsigned rhs
  | .jae => width.unsigned lhs ≥ width.unsigned rhs
  | .jbe => width.unsigned lhs ≤ width.unsigned rhs
  | .ja => width.unsigned lhs > width.unsigned rhs
  | .jl => width.signed lhs < width.signed rhs
  | .jge => width.signed lhs ≥ width.signed rhs
  | .jle => width.signed lhs ≤ width.signed rhs
  | .jg => width.signed lhs > width.signed rhs

/-- A branch does what it asks wherever the flags have the three meanings
that a comparison gives them. -/
theorem isTaken_iff {width : Width} {lhs rhs : UInt16} {flags : Flags}
    (hcarry : flags.carry = true ↔ width.unsigned lhs < width.unsigned rhs)
    (hzero : flags.zero = true ↔ width.unsigned lhs = width.unsigned rhs)
    (hless : flags.sign ≠ flags.overflow ↔ width.signed lhs < width.signed rhs)
    (branch : OrderBranch) : branch.isTaken flags = true ↔ branch.Asks width lhs rhs := by
  have hzero' : flags.zero = true ↔ width.signed lhs = width.signed rhs :=
    hzero.trans (width.signed_inj lhs).symm
  have hnotLess : flags.sign = flags.overflow ↔ ¬ width.signed lhs < width.signed rhs := by
    rw [← hless, ne_eq, not_not]
  cases branch with
  | jb => exact hcarry
  | jae =>
      simp only [isTaken, Asks, Bool.not_eq_true', ← Bool.not_eq_true, hcarry]
      omega
  | jbe =>
      simp only [isTaken, Asks, Bool.or_eq_true, hcarry, hzero]
      omega
  | ja =>
      simp only [isTaken, Asks, Bool.and_eq_true, Bool.not_eq_true', ← Bool.not_eq_true, hcarry,
        hzero]
      omega
  | jl =>
      rw [isTaken, bne_iff_ne]
      exact hless
  | jge =>
      simp only [isTaken, Asks, beq_iff_eq, hnotLess]
      omega
  | jle =>
      simp only [isTaken, Asks, Bool.or_eq_true, bne_iff_ne, hless, hzero']
      omega
  | jg =>
      simp only [isTaken, Asks, Bool.and_eq_true, Bool.not_eq_true', ← Bool.not_eq_true, beq_iff_eq,
        hnotLess, hzero']
      omega

end OrderBranch

-- =========================================================== statement

namespace AluOp

/-- A comparison has the flags of the subtraction, whatever the carry. -/
theorem flags_compute_cmp (width : Width) (lhs rhs : UInt16) (carry : Bool) :
    (cmp.compute width lhs rhs carry).2
      = .ofOutcome (Alu.sub (lhs.toBitVec.setWidth width.bits)
          (rhs.toBitVec.setWidth width.bits)) := by
  rw [compute_eq]
  rfl

/-- The flags of a comparison decide the order of its operands, unsigned
and signed, and so do the branches that read them. The carry that was set
before does not matter. -/
theorem compare_decides_order (width : Width) (lhs rhs : UInt16) (carry : Bool) :
    let flags := (cmp.compute width lhs rhs carry).2
    (flags.carry = true ↔ width.unsigned lhs < width.unsigned rhs)
      ∧ (flags.zero = true ↔ width.unsigned lhs = width.unsigned rhs)
      ∧ (flags.sign ≠ flags.overflow ↔ width.signed lhs < width.signed rhs)
      ∧ (∀ branch : OrderBranch, branch.isTaken flags = true ↔ branch.Asks width lhs rhs)
      ∧ ∀ carry', (cmp.compute width lhs rhs carry').2 = flags := by
  intro flags
  have hflags : flags = _ := flags_compute_cmp width lhs rhs carry
  have hcarry : flags.carry = true ↔ width.unsigned lhs < width.unsigned rhs := by
    rw [hflags, ← Width.toNat_setWidth_bits, ← Width.toNat_setWidth_bits]
    exact Alu.carry_sub_iff _ _
  have hzero : flags.zero = true ↔ width.unsigned lhs = width.unsigned rhs := by
    rw [hflags, ← Width.toNat_setWidth_bits, ← Width.toNat_setWidth_bits]
    exact Alu.isZero_sub_iff _ _
  have hless : flags.sign ≠ flags.overflow ↔ width.signed lhs < width.signed rhs := by
    have hsigned := Alu.sign_ne_overflow_iff (lhs.toBitVec.setWidth width.bits)
      (rhs.toBitVec.setWidth width.bits) false width.bits_pos
    rw [Bool.toNat_false, Int.ofNat_zero, Int.add_zero, Width.toInt_setWidth_bits,
      Width.toInt_setWidth_bits] at hsigned
    rw [hflags]
    exact hsigned
  refine ⟨hcarry, hzero, hless, OrderBranch.isTaken_iff hcarry hzero hless, ?_⟩
  intro carry'
  rw [hflags, flags_compute_cmp]

end AluOp

end Disasm8086
