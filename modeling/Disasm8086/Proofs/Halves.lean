/-
Operations on words, done on their bytes. The low bytes come first; the
high bytes follow with the operation that goes on where the first one
stopped, which is addition or subtraction with the carry that the low
bytes left, or the same logical operation once more. Put together, the
two results are the result on words, and every flag of the word is found
in one of the two steps: carry, sign and overflow in the high one, parity
and auxiliary carry in the low one, and zero in both
(`AluOp.compute_word_by_bytes`).

# The argument

A word is its high byte in front of its low byte, so everything is said
of numbers `high ++ low` first, at any two widths. Sums and differences
are determined by three properties (`Outcome.IsSum`). The equation of the
high parts, scaled by the weight of the carry between them, and that of
the low parts make the equation of the whole; overflow looks at top bits
and the auxiliary carry at bit 4, and these lie in one part each. That is
shown of sums; a difference is a sum that is undone.
-/
import Disasm8086.Proofs.Outcome
import Mathlib.Tactic.Ring

namespace Disasm8086

variable {m n : Nat}

/-- High bits in front of `n` low ones count `2 ^ n` times. -/
theorem toNat_append_eq (x : BitVec m) (y : BitVec n) :
    (x ++ y).toNat = x.toNat * 2 ^ n + y.toNat := by
  rw [BitVec.toNat_append, ← Nat.shiftLeft_add_eq_or_of_lt y.isLt, Nat.shiftLeft_eq]

-- ============================================================= results

namespace Alu

/-- The parity is that of the low part, if this has eight bits. -/
theorem isParity_append (h : 8 ≤ n) (x : BitVec m) (y : BitVec n) :
    isParity (x ++ y) = isParity y := by
  have hcount : (List.range 8).countP (fun i => (x ++ y).getLsbD i)
      = (List.range 8).countP (fun i => y.getLsbD i) := by
    apply List.countP_congr
    intro i hi
    rw [List.mem_range] at hi
    rw [BitVec.getLsbD_append, if_pos (Nat.lt_of_lt_of_le hi h)]
  rw [isParity, isParity, hcount]

theorem isZero_append (x : BitVec m) (y : BitVec n) :
    isZero (x ++ y) = (isZero y && isZero x) := by
  have hpos : 0 < 2 ^ n := Nat.two_pow_pos n
  rw [Bool.eq_iff_iff, Bool.and_eq_true, isZero_iff, isZero_iff, isZero_iff, toNat_append_eq,
    Nat.add_eq_zero_iff, Nat.mul_eq_zero]
  constructor
  · rintro ⟨hx | hpow, hy⟩
    · exact ⟨hy, hx⟩
    · omega
  · rintro ⟨hy, hx⟩
    exact ⟨Or.inl hx, hy⟩

theorem isSign_append (h : 0 < m) (x : BitVec m) (y : BitVec n) :
    isSign (x ++ y) = isSign x := by
  rw [isSign, isSign, BitVec.msb_append, if_neg (by omega)]

end Alu

namespace Flags

/-- The flags of a number from those of its high and of its low part. -/
def join (high low : Flags) : Flags where
  carry := high.carry
  parity := low.parity
  auxCarry := low.auxCarry
  zero := low.zero && high.zero
  sign := high.sign
  overflow := high.overflow

/-- The flags of a result, put together from its parts. -/
theorem ofResult_append (hm : 0 < m) (hn : 8 ≤ n) (x : BitVec m) (y : BitVec n) :
    ofResult (x ++ y) = (ofResult x).join (ofResult y) := by
  rw [ofResult, Alu.isParity_append hn, Alu.isZero_append, Alu.isSign_append hm]
  rfl

end Flags

-- ============================================================ outcomes

namespace Alu

variable (x x' result : BitVec m) (y y' result' : BitVec n)

/-- Overflow is seen at the high part alone. -/
theorem isOverflowAdd_append (h : 0 < m) :
    isOverflowAdd (x ++ y) (x' ++ y') (result ++ result') = isOverflowAdd x x' result := by
  rw [isOverflowAdd, BitVec.xor_append, BitVec.xor_append, BitVec.and_append, BitVec.msb_append,
    if_neg (by omega)]
  rfl

/-- The carry out of the low nibble is seen at the low part alone. -/
theorem isAuxCarry_append (h : 4 < n) :
    isAuxCarry (x ++ y) (x' ++ y') (result ++ result') = isAuxCarry y y' result' := by
  rw [isAuxCarry, BitVec.xor_append, BitVec.xor_append, BitVec.getLsbD_append, if_pos h]
  rfl

namespace Outcome

/-- The outcome for a number whose parts have these outcomes. -/
def append (high : Outcome m) (low : Outcome n) : Outcome (m + n) where
  result := high.result ++ low.result
  carry := high.carry
  overflow := high.overflow
  auxCarry := low.auxCarry

variable {x x' y y'} {high : Outcome m} {low : Outcome n} {carry : Bool}

/-- Two sums of which the second takes the carry of the first are one sum. -/
theorem IsSum.append (hm : 0 < m) (hn : 4 < n) (hlow : low.IsSum y y' carry)
    (hhigh : high.IsSum x x' low.carry) :
    (high.append low).IsSum (x ++ y) (x' ++ y') carry where
  value := by
    have hvalue := hlow.value
    have hvalue' := hhigh.value
    simp only [Outcome.append, toNat_append_eq, pow_add]
    -- the carry between the parts leaves the low one and comes into the high one
    calc high.result.toNat * 2 ^ n + low.result.toNat + high.carry.toNat * (2 ^ m * 2 ^ n)
        = (high.result.toNat + high.carry.toNat * 2 ^ m) * 2 ^ n + low.result.toNat := by ring
      _ = (x.toNat + x'.toNat) * 2 ^ n + (low.result.toNat + low.carry.toNat * 2 ^ n) := by
          rw [hvalue']
          ring
      _ = x.toNat * 2 ^ n + y.toNat + (x'.toNat * 2 ^ n + y'.toNat) + carry.toNat := by
          rw [hvalue]
          ring
  overflow := hhigh.overflow.trans (isOverflowAdd_append x x' _ y y' _ hm).symm
  auxCarry := hlow.auxCarry.trans (isAuxCarry_append x x' _ y y' _ hn).symm

/-- A difference is a sum read backwards, in both parts and in the whole. -/
theorem IsDifference.append (hm : 0 < m) (hn : 4 < n) (hlow : low.IsDifference y y' carry)
    (hhigh : high.IsDifference x x' low.carry) :
    (high.append low).IsDifference (x ++ y) (x' ++ y') carry := by
  have hsum := IsSum.append hm hn hlow.undo hhigh.undo
  exact hsum.undo

end Outcome

/-- Addition may be done part by part, the low part first. -/
theorem adc_append (hm : 4 < m) (hn : 4 < n) (carry : Bool) :
    adc (x ++ y) (x' ++ y') carry
      = (adc x x' (adc y y' carry).carry).append (adc y y' carry) := by
  apply (isSum_adc _ _ carry (by omega)).unique
  exact (isSum_adc y y' carry hn).append (by omega) hn (isSum_adc x x' _ hm)

theorem sbb_append (hm : 4 < m) (hn : 4 < n) (carry : Bool) :
    sbb (x ++ y) (x' ++ y') carry
      = (sbb x x' (sbb y y' carry).carry).append (sbb y y' carry) := by
  apply (isDifference_sbb _ _ carry (by omega)).unique
  exact (isDifference_sbb y y' carry hn).append (by omega) hn (isDifference_sbb x x' _ hm)

end Alu

-- ========================================================== operations

namespace AluOp

/-- The operation that goes on with the next byte where this one stopped.
Negation and counting do not go on. -/
def goesOn? : AluOp → Option AluOp
  | .add | .adc => some .adc
  | .sub | .cmp | .sbb => some .sbb
  | .and => some .and
  | .or => some .or
  | .xor => some .xor
  | .test => some .test
  | .neg | .inc | .dec => none

/-- Outcomes that are put together have the flags put together. -/
theorem arithmetic_append (hm : 0 < m) (hn : 8 ≤ n) (high : Alu.Outcome m) (low : Alu.Outcome n) :
    arithmetic (high.append low)
      = ((arithmetic high).1 ++ (arithmetic low).1,
          (arithmetic high).2.join (arithmetic low).2) := by
  rw [arithmetic, Flags.ofOutcome, Alu.Outcome.append, Flags.ofResult_append hm hn]
  rfl

/-- Logical results are independent of each other, and so are their flags. -/
theorem logical_append (hm : 0 < m) (hn : 8 ≤ n) (high : BitVec m) (low : BitVec n) :
    logical (high ++ low)
      = ((logical high).1 ++ (logical low).1, (logical high).2.join (logical low).2) := by
  rw [logical, Flags.ofResult_append hm hn]
  rfl

/-- Every operation that goes on may be done part by part. -/
theorem eval_append (hm : 4 < m) (hn : 8 ≤ n) {op next : AluOp} (hop : op.goesOn? = some next)
    (x x' : BitVec m) (y y' : BitVec n) (carry : Bool) :
    op.eval (x ++ y) (x' ++ y') carry
      = ((next.eval x x' (op.eval y y' carry).2.carry).1 ++ (op.eval y y' carry).1,
          (next.eval x x' (op.eval y y' carry).2.carry).2.join (op.eval y y' carry).2) := by
  have hm' : 0 < m := by omega
  have hn' : 4 < n := by omega
  cases op with
  | add =>
      cases hop
      rw [eval, Alu.add, Alu.adc_append x x' y y' hm hn', arithmetic_append hm' hn]
      rfl
  | adc =>
      cases hop
      rw [eval, Alu.adc_append x x' y y' hm hn', arithmetic_append hm' hn]
      rfl
  | sub | cmp =>
      cases hop
      rw [eval, Alu.sub, Alu.sbb_append x x' y y' hm hn', arithmetic_append hm' hn]
      rfl
  | sbb =>
      cases hop
      rw [eval, Alu.sbb_append x x' y y' hm hn', arithmetic_append hm' hn]
      rfl
  | and | test =>
      cases hop
      rw [eval, BitVec.and_append, logical_append hm' hn]
      rfl
  | or =>
      cases hop
      rw [eval, BitVec.or_append, logical_append hm' hn]
      rfl
  | xor =>
      cases hop
      rw [eval, BitVec.xor_append, logical_append hm' hn]
      rfl
  | neg | inc | dec => cases hop

-- =============================================================== words

/-- A word is its high byte in front of its low byte. -/
theorem toBitVec_eq_append (x : UInt16) :
    x.toBitVec = (x / 256).toBitVec.setWidth 8 ++ (x % 256).toBitVec.setWidth 8 := by
  have hlt := x.toNat_lt
  have hhigh : (x / 256).toNat = x.toNat / 256 := UInt16.toNat_div x 256
  have hlow : (x % 256).toNat = x.toNat % 256 := UInt16.toNat_mod x 256
  apply BitVec.eq_of_toNat_eq
  rw [toNat_append_eq, BitVec.toNat_setWidth, BitVec.toNat_setWidth, UInt16.toNat_toBitVec,
    UInt16.toNat_toBitVec, UInt16.toNat_toBitVec, hhigh, hlow]
  omega

/-- An operation on words is the same operation on their low bytes and
then, with the carry that it leaves, the one that goes on from there on
their high bytes. -/
theorem compute_word_by_bytes {op next : AluOp} (hop : op.goesOn? = some next)
    (lhs rhs : UInt16) (carry : Bool) :
    let low := op.compute .byte (lhs % 256) (rhs % 256) carry
    let high := next.compute .byte (lhs / 256) (rhs / 256) low.2.carry
    (op.compute .word lhs rhs carry).1.toNat = high.1.toNat * 256 + low.1.toNat
      ∧ (op.compute .word lhs rhs carry).2 = high.2.join low.2 := by
  intro low high
  have heval := eval_append (m := 8) (n := 8) (by decide) (by decide) hop
    ((lhs / 256).toBitVec.setWidth 8) ((rhs / 256).toBitVec.setWidth 8)
    ((lhs % 256).toBitVec.setWidth 8) ((rhs % 256).toBitVec.setWidth 8) carry
  rw [← toBitVec_eq_append, ← toBitVec_eq_append] at heval
  have hresult := congrArg (fun outcome => outcome.1.toNat) heval
  have hflags := congrArg Prod.snd heval
  refine ⟨?_, hflags⟩
  have hlow : low.1.toNat = _ := toNat_compute op .byte (lhs % 256) (rhs % 256) carry
  have hhigh : high.1.toNat = _ :=
    toNat_compute next .byte (lhs / 256) (rhs / 256) low.2.carry
  rw [hlow, hhigh]
  exact hresult.trans (toNat_append_eq _ _)

/-- The least signed word less one: the low bytes borrow, and the high
bytes overflow. -/
theorem compute_word_by_bytes_of_borrow :
    let low := sub.compute .byte 0x00 0x01 true
    let high := sbb.compute .byte 0x80 0x00 low.2.carry
    sub.goesOn? = some sbb ∧ low.2.carry = true ∧ high.2.overflow = true
      ∧ (sub.compute .word 0x8000 0x0001 true).1.toNat = high.1.toNat * 256 + low.1.toNat
      ∧ (sub.compute .word 0x8000 0x0001 true).2 = high.2.join low.2 :=
  ⟨rfl, by decide, by decide, compute_word_by_bytes rfl 0x8000 0x0001 true⟩

end AluOp

end Disasm8086
