/-
What the operations mean in whole numbers. An arithmetic operation is a
function of integers, and one function says everything about it: on the
operands as unsigned numbers it gives the result, cut to the width, and
the carry; on the operands in two's complement the overflow; on the low
nibbles of the operands the auxiliary carry. Each of the three flags is
set exactly if the integer does not fit where it belongs. A logical
operation is a function of bits and clears the three.

`AluOp.definition` puts this down for any width, as a program of its own
that knows nothing of spare bits and of sign bits; the main statement is
that the operations on bytes and on words are this program
(`AluOp.compute_eq_definition`).

# The argument

Everything arithmetic is one addition or one subtraction with carry. For
these two, an outcome is described by the three integers that it is
judged by (`Alu.Outcome.Exact`); the other six operations get their
description by writing the integers differently. The one new fact about
the outcomes is the auxiliary carry: bit 4 of a sum differs from those of
the operands exactly if there is a carry into it, and a difference is what
has to be added to the right operand to get the left one.
-/
import Disasm8086.Proofs.Arithmetic

namespace Disasm8086

-- ============================================================= ranges

/-- The whole numbers that `bits` bits hold without a sign. -/
def UnsignedRange (bits : Nat) (v : Int) : Prop := 0 ≤ v ∧ v < ((2 ^ bits : Nat) : Int)

instance (bits : Nat) (v : Int) : Decidable (UnsignedRange bits v) :=
  inferInstanceAs (Decidable (_ ∧ _))

instance (bits : Nat) (v : Int) : Decidable (SignedRange bits v) :=
  inferInstanceAs (Decidable (_ ∧ _))

theorem Width.eight_le_bits (width : Width) : 8 ≤ width.bits := by
  cases width <;> decide

-- ========================================================= definition

namespace AluOp

/-- What an operation does with whole numbers, before there is a width. -/
inductive Meaning where
  /-- An integer made from two operands and the carry. -/
  | arithmetic (f : Int → Int → Int → Int)
  /-- Bits made from the bits of two operands. -/
  | logical (f : Nat → Nat → Nat)

/-- The integer function or the bit function of an operation. -/
def meaning : AluOp → Meaning
  | .add => .arithmetic fun l r _ => l + r
  | .adc => .arithmetic fun l r c => l + r + c
  | .sub | .cmp => .arithmetic fun l r _ => l - r
  | .sbb => .arithmetic fun l r c => l - r - c
  | .neg => .arithmetic fun l _ _ => -l
  | .inc => .arithmetic fun l _ _ => l + 1
  | .dec => .arithmetic fun l _ _ => l - 1
  | .and | .test => .logical (· &&& ·)
  | .or => .logical (· ||| ·)
  | .xor => .logical (· ^^^ ·)

/-- The operations that count leave the carry alone. -/
def keepsCarry : AluOp → Bool
  | .inc | .dec => true
  | _ => false

/-- The flags of a result: is it zero, is its top bit set, and is the
number of ones among its eight low bits even. -/
def describe (bits result : Nat) : Flags where
  zero := result == 0
  sign := result.testBit (bits - 1)
  parity := ((List.range 8).map fun i => result / 2 ^ i % 2).sum % 2 == 0

/-- An operation on numbers of `bits` bits, by its meaning. -/
def definition (op : AluOp) (bits l r : Nat) (carry : Bool) : Nat × Flags :=
  match op.meaning with
  | .logical f => (f l r, describe bits (f l r))
  | .arithmetic f =>
    let c : Int := carry.toNat
    let exact := f l r c
    let signed := f (Int.bmod l (2 ^ bits)) (Int.bmod r (2 ^ bits)) c
    let nibble := f (l % 16 : Nat) (r % 16 : Nat) c
    let result := (exact % (2 ^ bits : Nat)).toNat
    (result,
      { describe bits result with
        carry := if op.keepsCarry then carry else decide (¬ UnsignedRange bits exact)
        overflow := decide (¬ SignedRange bits signed)
        auxCarry := decide (¬ UnsignedRange 4 nibble) })

end AluOp

-- ==================================================== auxiliary carry

namespace Alu

variable {w : Nat} (lhs rhs : BitVec w) (carry : Bool)

/-- The spare bit leaves the number as it is. -/
theorem toNat_setWidth_spare (x : BitVec w) : (x.setWidth (w + 1)).toNat = x.toNat :=
  BitVec.toNat_setWidth_of_le (Nat.le_succ w)

/-- Bit 4 of a sum shows the carry into it. -/
theorem auxCarry_adc (h : 4 ≤ w) :
    (adc lhs rhs carry).auxCarry
      = decide (16 ≤ lhs.toNat % 16 + rhs.toNat % 16 + carry.toNat) := by
  have hbit := BitVec.getLsbD_add_add_bool (show 4 < w + 1 by omega)
    (lhs.setWidth (w + 1)) (rhs.setWidth (w + 1)) carry
  have hcarry : BitVec.carry 4 (lhs.setWidth (w + 1)) (rhs.setWidth (w + 1)) carry
      = decide (16 ≤ lhs.toNat % 16 + rhs.toNat % 16 + carry.toNat) := by
    rw [BitVec.carry, toNat_setWidth_spare, toNat_setWidth_spare]
  simp only [adc, BitVec.getLsbD_xor, hbit, hcarry]
  generalize (lhs.setWidth (w + 1)).getLsbD 4 = l
  generalize (rhs.setWidth (w + 1)).getLsbD 4 = r
  cases l <;> cases r <;> simp

/-- The left operand is the sum of the difference and the right one, so
its bit 4 shows the carry of that sum. -/
theorem auxCarry_sbb (h : 4 ≤ w) :
    (sbb lhs rhs carry).auxCarry
      = decide (lhs.toNat % 16 < rhs.toNat % 16 + carry.toNat) := by
  simp only [sbb]
  generalize hdifference : lhs.setWidth (w + 1)
    - (rhs.setWidth (w + 1) + (BitVec.ofBool carry).setWidth (w + 1)) = difference
  have hsum : lhs.setWidth (w + 1)
      = difference + rhs.setWidth (w + 1) + (BitVec.ofBool carry).setWidth (w + 1) := by
    rw [← hdifference, BitVec.add_assoc, BitVec.sub_add_cancel]
  have hbit := BitVec.getLsbD_add_add_bool (show 4 < w + 1 by omega)
    difference (rhs.setWidth (w + 1)) carry
  rw [← hsum] at hbit
  have hnibble : lhs.toNat % 16 = (difference.toNat + rhs.toNat + carry.toNat) % 16 := by
    have hdvd : 16 ∣ 2 ^ (w + 1) := Nat.pow_dvd_pow 2 (show 4 ≤ w + 1 by omega)
    have hvalue := congrArg BitVec.toNat hsum
    simp only [BitVec.toNat_add, toNat_setWidth_spare, BitVec.toNat_setWidth, BitVec.toNat_ofBool,
      Nat.mod_add_mod, Nat.add_mod_mod] at hvalue
    rw [hvalue, Nat.mod_mod_of_dvd _ hdvd]
  have hcarry : BitVec.carry 4 difference (rhs.setWidth (w + 1)) carry
      = decide (lhs.toNat % 16 < rhs.toNat % 16 + carry.toNat) := by
    have hc := carry.toNat_le
    rw [BitVec.carry, toNat_setWidth_spare]
    simp only [decide_eq_decide]
    omega
  rw [BitVec.getLsbD_xor, BitVec.getLsbD_xor, hbit, hcarry]
  generalize difference.getLsbD 4 = d
  generalize (rhs.setWidth (w + 1)).getLsbD 4 = r
  cases d <;> cases r <;> simp

-- ========================================================== outcomes

/-- The outcome is that of an operation with these integers: `exact` from
the unsigned operands, `signed` from the signed ones and `nibble` from the
low nibbles. -/
structure Outcome.Exact (o : Outcome w) (exact signed nibble : Int) : Prop where
  result : (o.result.toNat : Int) = exact % (2 ^ w : Nat)
  carry_iff : o.carry = true ↔ ¬ UnsignedRange w exact
  overflow_iff : o.overflow = true ↔ ¬ SignedRange w signed
  auxCarry_iff : o.auxCarry = true ↔ ¬ UnsignedRange 4 nibble

/-- An integer that is a result, or one turn of the width away from it, is
cut to the result, and is out of range exactly if it is a turn away. -/
theorem wraps_of_turn {result : Nat} (hlt : result < 2 ^ w) {exact : Int} {out : Bool}
    (h : exact = result + (out.toNat * 2 ^ w : Nat) ∨ exact = result - (out.toNat * 2 ^ w : Nat)) :
    (result : Int) = exact % (2 ^ w : Nat) ∧ (out = true ↔ ¬ UnsignedRange w exact) := by
  unfold UnsignedRange
  generalize 2 ^ w = turn at hlt h ⊢
  have hsmall : (result : Int) % turn = result := Int.emod_eq_of_lt (by omega) (by omega)
  cases out with
  | false =>
      have hexact : exact = result := by simpa using h
      rw [hexact, hsmall]
      simp only [Bool.false_eq_true, true_and, false_iff]
      omega
  | true =>
      rw [Bool.toNat_true, Nat.one_mul] at h
      constructor
      · rcases h with rfl | rfl
        · rw [Int.add_emod_right, hsmall]
        · rw [Int.sub_emod_right, hsmall]
      · simp only [true_iff]
        omega

/-- An addition is exact in all three of its readings: unsigned, signed,
and of the low nibbles. -/
theorem exact_adc (h : 4 ≤ w) :
    (adc lhs rhs carry).Exact (lhs.toNat + rhs.toNat + carry.toNat)
      (lhs.toInt + rhs.toInt + carry.toNat)
      ((lhs.toNat % 16 : Nat) + (rhs.toNat % 16 : Nat) + carry.toNat) := by
  have hturn : (lhs.toNat + rhs.toNat + carry.toNat : Int)
      = (adc lhs rhs carry).result.toNat + ((adc lhs rhs carry).carry.toNat * 2 ^ w : Nat) := by
    have hvalue := value_adc lhs rhs carry
    omega
  obtain ⟨hresult, hcarry⟩ := wraps_of_turn (adc lhs rhs carry).result.isLt (Or.inl hturn)
  refine ⟨hresult, hcarry, overflow_adc_iff lhs rhs carry (by omega), ?_⟩
  rw [auxCarry_adc lhs rhs carry h, decide_eq_true_iff, UnsignedRange]
  omega

theorem exact_sbb (h : 4 ≤ w) :
    (sbb lhs rhs carry).Exact (lhs.toNat - rhs.toNat - carry.toNat)
      (lhs.toInt - rhs.toInt - carry.toNat)
      ((lhs.toNat % 16 : Nat) - (rhs.toNat % 16 : Nat) - carry.toNat) := by
  have hturn : (lhs.toNat - rhs.toNat - carry.toNat : Int)
      = (sbb lhs rhs carry).result.toNat - ((sbb lhs rhs carry).carry.toNat * 2 ^ w : Nat) := by
    have hvalue := value_sbb lhs rhs carry
    omega
  obtain ⟨hresult, hcarry⟩ := wraps_of_turn (sbb lhs rhs carry).result.isLt (Or.inr hturn)
  refine ⟨hresult, hcarry, ?_, ?_⟩
  · rw [Int.sub_sub]
    exact overflow_sbb_iff lhs rhs carry (by omega)
  · rw [auxCarry_sbb lhs rhs carry h, decide_eq_true_iff, UnsignedRange]
    omega

end Alu

-- ======================================================== operations

namespace AluOp

variable {w : Nat} (lhs rhs : BitVec w) (carry : Bool)

/-- The flags of a result, read off its number. -/
theorem ofResult_eq_describe (result : BitVec w) :
    Flags.ofResult result = describe w result.toNat := by
  have hparity : Alu.isParity result
      = (((List.range 8).map fun i => result.toNat / 2 ^ i % 2).sum % 2 == 0) := by
    have hcount : ∀ positions : List Nat, positions.countP (fun i => result.getLsbD i)
        = (positions.map fun i => result.toNat / 2 ^ i % 2).sum := by
      intro positions
      induction positions with
      | nil => rfl
      | cons i positions ih =>
          rw [List.countP_cons, List.map_cons, List.sum_cons, ih, Nat.add_comm, ← Nat.toNat_testBit,
            BitVec.testBit_toNat]
          cases result.getLsbD i <;> rfl
    rw [Alu.isParity, hcount]
  have hzero : Alu.isZero result = (result.toNat == 0) := by
    rw [Bool.eq_iff_iff, Alu.isZero_iff, beq_iff_eq]
  have hsign : Alu.isSign result = result.toNat.testBit (w - 1) := by
    rw [Alu.isSign, BitVec.msb_eq_getLsbD_last, BitVec.testBit_toNat]
  rw [Flags.ofResult, describe, hparity, hzero, hsign]

/-- Every arithmetic operation has an outcome that is exact for its
integers; two of them put the old carry in place of the new one. -/
theorem exists_exact (h : 4 ≤ w) {op : AluOp} {f : Int → Int → Int → Int}
    (hop : op.meaning = .arithmetic f) :
    ∃ o : Alu.Outcome w,
      o.Exact (f lhs.toNat rhs.toNat carry.toNat) (f lhs.toInt rhs.toInt carry.toNat)
          (f (lhs.toNat % 16 : Nat) (rhs.toNat % 16 : Nat) carry.toNat)
        ∧ op.eval lhs rhs carry
            = arithmetic { o with carry := if op.keepsCarry then carry else o.carry } := by
  -- a single bit would hold one as minus one
  have hone : (1 : BitVec w).toNat = 1 := BitVec.toNat_one (by omega)
  have hone' : (1 : BitVec w).toInt = 1 := BitVec.toInt_one (by omega)
  cases op with
  | and | or | xor | test => cases hop
  | add =>
      cases hop
      have hexact := Alu.exact_adc lhs rhs false h
      simp only [Bool.toNat_false, Int.ofNat_zero, Int.add_zero] at hexact
      exact ⟨_, hexact, rfl⟩
  | adc =>
      cases hop
      exact ⟨_, Alu.exact_adc lhs rhs carry h, rfl⟩
  | sub | cmp =>
      cases hop
      have hexact := Alu.exact_sbb lhs rhs false h
      simp only [Bool.toNat_false, Int.ofNat_zero, Int.sub_zero] at hexact
      exact ⟨_, hexact, rfl⟩
  | sbb =>
      cases hop
      exact ⟨_, Alu.exact_sbb lhs rhs carry h, rfl⟩
  | neg =>
      cases hop
      have hexact := Alu.exact_sbb 0 lhs false h
      simp only [BitVec.ofNat_eq_ofNat, BitVec.toNat_ofNat, BitVec.toInt_zero, Nat.zero_mod,
        Bool.toNat_false, Int.ofNat_zero, Int.sub_zero, Int.zero_sub] at hexact
      exact ⟨_, hexact, rfl⟩
  | inc =>
      cases hop
      have hexact := Alu.exact_adc lhs 1 false h
      simp only [Bool.toNat_false, Int.ofNat_zero, Int.add_zero, hone, hone'] at hexact
      exact ⟨_, hexact, rfl⟩
  | dec =>
      cases hop
      have hexact := Alu.exact_sbb lhs 1 false h
      simp only [Bool.toNat_false, Int.ofNat_zero, Int.sub_zero, hone, hone'] at hexact
      exact ⟨_, hexact, rfl⟩

/-- Every logical operation has the bits that its meaning gives. -/
theorem exists_logical {op : AluOp} {f : Nat → Nat → Nat} (hop : op.meaning = .logical f) :
    ∃ result : BitVec w, result.toNat = f lhs.toNat rhs.toNat
      ∧ op.eval lhs rhs carry = logical result := by
  cases op with
  | and | test =>
      cases hop
      exact ⟨_, BitVec.toNat_and lhs rhs, rfl⟩
  | or =>
      cases hop
      exact ⟨_, BitVec.toNat_or lhs rhs, rfl⟩
  | xor =>
      cases hop
      exact ⟨_, BitVec.toNat_xor lhs rhs, rfl⟩
  | add | adc | sub | sbb | cmp | neg | inc | dec => cases hop

/-- At any width, an operation is what its meaning defines. -/
theorem eval_eq_definition (h : 4 ≤ w) (op : AluOp) :
    ((op.eval lhs rhs carry).1.toNat, (op.eval lhs rhs carry).2)
      = op.definition w lhs.toNat rhs.toNat carry := by
  unfold definition
  cases hop : op.meaning with
  | logical f =>
      obtain ⟨result, hresult, heval⟩ := exists_logical lhs rhs carry hop
      rw [heval, logical, ofResult_eq_describe, hresult]
  | arithmetic f =>
      obtain ⟨o, hexact, heval⟩ := exists_exact lhs rhs carry h hop
      have hresult : o.result.toNat
          = (f lhs.toNat rhs.toNat carry.toNat % (2 ^ w : Nat)).toNat := by
        rw [← hexact.result]
        rfl
      have hcarry := Bool.eq_iff_iff.mpr (hexact.carry_iff.trans decide_eq_true_iff.symm)
      have hoverflow := Bool.eq_iff_iff.mpr (hexact.overflow_iff.trans decide_eq_true_iff.symm)
      have hauxCarry := Bool.eq_iff_iff.mpr (hexact.auxCarry_iff.trans decide_eq_true_iff.symm)
      rw [heval, arithmetic, Flags.ofOutcome, ofResult_eq_describe, hresult, hcarry, hoverflow,
        hauxCarry]
      simp only [BitVec.toInt_eq_toNat_bmod]

-- ========================================================= statement

/-- Operations on bytes and words do what their meaning says: result and
flags are those of the definition on the operands cut to the width. So
the result fits the width, and bits of the operands beyond it make no
difference. -/
theorem compute_eq_definition (op : AluOp) (width : Width) (lhs rhs : UInt16) (carry : Bool) :
    ((op.compute width lhs rhs carry).1.toNat, (op.compute width lhs rhs carry).2)
        = op.definition width.bits (lhs.toNat % 2 ^ width.bits) (rhs.toNat % 2 ^ width.bits) carry
      ∧ (op.compute width lhs rhs carry).1.toNat < 2 ^ width.bits
      ∧ ∀ lhs' rhs' : UInt16, lhs'.toNat % 2 ^ width.bits = lhs.toNat % 2 ^ width.bits →
          rhs'.toNat % 2 ^ width.bits = rhs.toNat % 2 ^ width.bits →
          op.compute width lhs' rhs' carry = op.compute width lhs rhs carry := by
  have hbits := width.eight_le_bits
  refine ⟨?_, ?_, fun lhs' rhs' hlhs hrhs => ?_⟩
  · have heval := eval_eq_definition (lhs.toBitVec.setWidth width.bits)
      (rhs.toBitVec.setWidth width.bits) carry (by omega) op
    rw [BitVec.toNat_setWidth, BitVec.toNat_setWidth] at heval
    rw [toNat_compute, compute_eq]
    exact heval
  · rw [toNat_compute]
    exact BitVec.isLt _
  · have hcut : ∀ {x y : UInt16}, x.toNat % 2 ^ width.bits = y.toNat % 2 ^ width.bits →
        x.toBitVec.setWidth width.bits = y.toBitVec.setWidth width.bits := by
      intro x y hxy
      apply BitVec.eq_of_toNat_eq
      rw [BitVec.toNat_setWidth, BitVec.toNat_setWidth]
      exact hxy
    rw [compute_eq, compute_eq, hcut hlhs, hcut hrhs]

/-- The least signed byte less one and a borrow: it wraps, leaves the
signed range and borrows from the high nibble, whatever is above. -/
theorem compute_eq_definition_of_least_byte :
    sbb.compute .byte 0x1280 0x5501 true
        = (0x7E, { auxCarry := true, parity := true, overflow := true })
      ∧ sbb.compute .byte 0xFF80 0x0001 true = sbb.compute .byte 0x1280 0x5501 true := by
  obtain ⟨hvalue, -, hcongr⟩ := compute_eq_definition .sbb .byte 0x1280 0x5501 true
  refine ⟨?_, hcongr 0xFF80 0x0001 (by decide) (by decide)⟩
  have hdefinition : definition .sbb 8 0x80 0x01 true
      = (0x7E, { auxCarry := true, parity := true, overflow := true }) := by decide +kernel
  obtain ⟨hresult, hflags⟩ := Prod.mk.inj (hvalue.trans hdefinition)
  exact Prod.ext (UInt16.toNat_inj.mp hresult) hflags

end AluOp

end Disasm8086
