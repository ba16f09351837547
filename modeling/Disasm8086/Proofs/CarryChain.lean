/-
Numbers of many limbs. A long number is a list of bytes or words, the
least significant first, and is added or subtracted limb by limb, each
step taking the carry that the step before it left. This is exact at any
length: the limbs of the result and the last carry are the sum or the
difference, and the last step's overflow and sign flags describe the
long number as if it had been computed in one step. Between the limbs a
program counts its way along with increments and decrements; these pass
the carry on, so they change nothing.

# The argument

Addition and subtraction differ in a sign alone (`Direction.factor`), so
everything is proved once for both. A chain is followed from its end:
one more limb multiplies the weight of the carry by the radix, and the
equation of that step (`Direction.value_compute`), scaled by the weight,
closes the gap (`Sums.limb`). For the flags only the last limb counts. Below it
lies a remainder that is too small to matter: the long number is in
range, or negative, exactly if the last limb is (`signedRange_add_mul`,
`signedValue_concat`).
-/
import Disasm8086.Proofs.Arithmetic
import Mathlib.Data.List.Induction
import Mathlib.Tactic.LinearCombination

namespace Disasm8086

-- ============================================================== limbs

namespace Limbs

/-- The number that limbs of the given width make up. -/
def value (width : Width) (xs : List UInt16) : Nat :=
  Nat.ofDigits (2 ^ width.bits) (xs.map UInt16.toNat)

/-- The same limbs read in two's complement. -/
def signedValue (width : Width) (xs : List UInt16) : Int :=
  (BitVec.ofNat (width.bits * xs.length) (value width xs)).toInt

/-- Every limb has the given width. -/
def Fit (width : Width) (xs : List UInt16) : Prop := ∀ x ∈ xs, x.toNat < 2 ^ width.bits

variable {width : Width} {xs : List UInt16} {x : UInt16}

/-- Limbs that fit do so up to the last one, which fits as well. -/
theorem fit_concat (h : Fit width (xs ++ [x])) : Fit width xs ∧ x.toNat < 2 ^ width.bits :=
  ⟨fun y hy => h y (List.mem_append_left _ hy), h x (by simp)⟩

theorem Fit.concat (h : Fit width xs) (hx : x.toNat < 2 ^ width.bits) : Fit width (xs ++ [x]) := by
  intro y hy
  rcases List.mem_append.mp hy with hy | hy
  · exact h y hy
  · rw [List.mem_singleton.mp hy]
    exact hx

/-- The last limb has the weight of all limbs below it. -/
theorem value_concat (x : UInt16) :
    value width (xs ++ [x]) = value width xs + 2 ^ (width.bits * xs.length) * x.toNat := by
  rw [value, List.map_append, Nat.ofDigits_append, List.length_map, ← pow_mul, List.map_singleton,
    Nat.ofDigits_singleton]
  rfl

/-- Limbs that fit make up a number of their common width. -/
theorem value_lt (h : Fit width xs) : value width xs < 2 ^ (width.bits * xs.length) := by
  have hradix : 1 < 2 ^ width.bits := Nat.one_lt_two_pow width.bits_pos.ne'
  have hdigits : ∀ d ∈ xs.map UInt16.toNat, d < 2 ^ width.bits := List.forall_mem_map.mpr h
  have hlt := Nat.ofDigits_lt_base_pow_length hradix hdigits
  rwa [List.length_map, ← pow_mul] at hlt

end Limbs

-- ====================================================== the last limb

section LastLimb

variable {m k v : Nat}

/-- The high part alone has the sign. -/
theorem toInt_add_mul {t : Nat} (hk : 0 < k) (hv : v < 2 ^ m) (ht : t < 2 ^ k) :
    (BitVec.ofNat (m + k) (v + 2 ^ m * t)).toInt = v + 2 ^ m * (BitVec.ofNat k t).toInt := by
  have hpow := two_pow_eq_double hk
  have hlt : v + 2 ^ m * t < 2 ^ (m + k) := by
    have hhigh : 2 ^ m * (t + 1) ≤ 2 ^ m * 2 ^ k := Nat.mul_le_mul_left _ ht
    rw [pow_add]
    linarith
  rw [BitVec.toInt_eq_toNat_cond, BitVec.toInt_eq_toNat_cond, BitVec.toNat_ofNat,
    BitVec.toNat_ofNat, Nat.mod_eq_of_lt hlt, Nat.mod_eq_of_lt ht, pow_add, hpow]
  by_cases hsign : t < 2 ^ (k - 1)
  · have hhigh : 2 ^ m * (t + 1) ≤ 2 ^ m * 2 ^ (k - 1) := Nat.mul_le_mul_left _ hsign
    rw [if_pos (by linarith), if_pos (by omega)]
    push_cast
    ring
  · have hhigh : 2 ^ m * 2 ^ (k - 1) ≤ 2 ^ m * t := Nat.mul_le_mul_left _ (by omega)
    rw [if_neg (by linarith), if_neg (by omega)]
    push_cast
    ring

/-- The high part alone decides whether a number is in range. -/
theorem signedRange_add_mul {t : Int} (hk : 0 < k) (hv : v < 2 ^ m) :
    SignedRange (m + k) (v + 2 ^ m * t) ↔ SignedRange k t := by
  have hpow : 2 ^ (m + k - 1) = 2 ^ m * 2 ^ (k - 1) := by
    rw [← pow_add, Nat.add_sub_assoc hk]
  have hv' : (v : Int) < 2 ^ m := by exact_mod_cast hv
  unfold SignedRange
  rw [hpow]
  push_cast
  generalize (2 ^ (k - 1) : Int) = half
  generalize (2 ^ m : Int) = weight at *
  constructor
  · rintro ⟨hlow, hhigh⟩
    constructor
    · by_contra hout
      nlinarith
    · by_contra hout
      nlinarith
  · rintro ⟨hlow, hhigh⟩
    constructor
    · nlinarith
    · nlinarith

/-- What lies below the last limb does not change its sign. -/
theorem add_mul_neg_iff {t : Int} (hv : v < 2 ^ m) : (v + 2 ^ m * t : Int) < 0 ↔ t < 0 := by
  have hv' : (v : Int) < 2 ^ m := by exact_mod_cast hv
  generalize (2 ^ m : Int) = weight at *
  constructor
  · intro hneg
    by_contra hout
    nlinarith
  · intro hneg
    nlinarith

end LastLimb

theorem Limbs.signedValue_concat {width : Width} {xs : List UInt16} {x : UInt16}
    (hxs : Fit width xs) (hx : x.toNat < 2 ^ width.bits) :
    signedValue width (xs ++ [x]) = value width xs
      + 2 ^ (width.bits * xs.length) * (x.toBitVec.setWidth width.bits).toInt := by
  have hlength : width.bits * (xs ++ [x]).length = width.bits * xs.length + width.bits := by
    rw [List.length_append, List.length_singleton, Nat.mul_succ]
  have hlimb : x.toBitVec.setWidth width.bits = BitVec.ofNat width.bits x.toNat := by
    apply BitVec.eq_of_toNat_eq
    simp
  rw [signedValue, hlength, value_concat, toInt_add_mul width.bits_pos (value_lt hxs) hx, hlimb]

-- ============================================================ one limb

/-- Whether a chain adds or subtracts. -/
inductive Direction where
  | adding
  | subtracting
  deriving DecidableEq, Repr

namespace Direction

/-- The operation that takes a carry in and passes one on. -/
def op : Direction → AluOp
  | .adding => .adc
  | .subtracting => .sbb

/-- The sign of the right operand and of the carries. -/
def factor : Direction → Int
  | .adding => 1
  | .subtracting => -1

section Limb

variable (d : Direction) (width : Width) {x y : UInt16}

/-- The result of a step fits its width. -/
theorem toNat_compute_lt (x y : UInt16) (c : Bool) :
    (d.op.compute width x y c).1.toNat < 2 ^ width.bits := by
  rw [AluOp.toNat_compute]
  exact BitVec.isLt _

/-- One step is exact, for both directions at once. -/
theorem value_compute (hx : x.toNat < 2 ^ width.bits) (hy : y.toNat < 2 ^ width.bits) (c : Bool) :
    ((d.op.compute width x y c).1.toNat : Int)
        + d.factor * ((d.op.compute width x y c).2.carry.toNat * 2 ^ width.bits)
      = x.toNat + d.factor * (y.toNat + c.toNat) := by
  have hx' : (x.toBitVec.setWidth width.bits).toNat = x.toNat := by
    rw [BitVec.toNat_setWidth]
    exact Nat.mod_eq_of_lt hx
  have hy' : (y.toBitVec.setWidth width.bits).toNat = y.toNat := by
    rw [BitVec.toNat_setWidth]
    exact Nat.mod_eq_of_lt hy
  rw [AluOp.toNat_compute, AluOp.compute_eq]
  cases d with
  | adding =>
      have hvalue := Alu.value_adc (x.toBitVec.setWidth width.bits)
        (y.toBitVec.setWidth width.bits) c
      rw [hx', hy'] at hvalue
      have hvalue' := congrArg (Nat.cast : Nat → Int) hvalue
      push_cast at hvalue'
      simp only [op, AluOp.eval, AluOp.arithmetic, Flags.ofOutcome, factor]
      linear_combination hvalue'
  | subtracting =>
      have hvalue := Alu.value_sbb (x.toBitVec.setWidth width.bits)
        (y.toBitVec.setWidth width.bits) c
      rw [hx', hy'] at hvalue
      have hvalue' := congrArg (Nat.cast : Nat → Int) hvalue
      push_cast at hvalue'
      simp only [op, AluOp.eval, AluOp.arithmetic, Flags.ofOutcome, factor]
      linear_combination hvalue'

theorem overflow_compute (x y : UInt16) (c : Bool) :
    (d.op.compute width x y c).2.overflow = true
      ↔ ¬ SignedRange width.bits ((x.toBitVec.setWidth width.bits).toInt
        + d.factor * ((y.toBitVec.setWidth width.bits).toInt + c.toNat)) := by
  rw [AluOp.compute_eq]
  cases d with
  | adding =>
      have hoverflow := Alu.overflow_adc_iff (x.toBitVec.setWidth width.bits)
        (y.toBitVec.setWidth width.bits) c width.bits_pos
      rw [factor, one_mul, ← add_assoc]
      exact hoverflow
  | subtracting =>
      have hoverflow := Alu.overflow_sbb_iff (x.toBitVec.setWidth width.bits)
        (y.toBitVec.setWidth width.bits) c width.bits_pos
      rw [factor, neg_one_mul, ← sub_eq_add_neg]
      exact hoverflow

/-- The sign flag of one step shows the sign of its result. -/
theorem sign_compute (x y : UInt16) (c : Bool) :
    (d.op.compute width x y c).2.sign = true
      ↔ ((d.op.compute width x y c).1.toBitVec.setWidth width.bits).toInt < 0 := by
  rw [AluOp.toBitVec_compute, AluOp.compute_eq, ← Alu.isSign_iff]
  cases d <;> rfl

end Limb

end Direction

-- ============================================================== chains

/-- How far a chain has come: the limbs of the result, the carry flag, and
all flags as the last limb left them. -/
structure CarryChain where
  limbs : List UInt16
  carry : Bool
  flags : Flags
  deriving DecidableEq, Repr

namespace CarryChain

/-- A step of a program that works along a chain: the next limb, or an
increment or decrement of something else. -/
inductive Step where
  | limb (lhs rhs : UInt16)
  | count (down : Bool) (width : Width) (lhs rhs : UInt16)
  deriving DecidableEq, Repr

/-- The operands of a step that computes a limb. -/
def Step.operands? : Step → Option (UInt16 × UInt16)
  | .limb lhs rhs => some (lhs, rhs)
  | .count .. => none

/-- Every step gets the carry that the one before it left. -/
def step (op : AluOp) (width : Width) (s : CarryChain) : Step → CarryChain
  | .limb lhs rhs =>
    let (result, flags) := op.compute width lhs rhs s.carry
    ⟨s.limbs ++ [result], flags.carry, flags⟩
  | .count down width lhs rhs =>
    let (_, flags) := (if down then AluOp.dec else AluOp.inc).compute width lhs rhs s.carry
    { s with carry := flags.carry }

/-- Runs a script from an empty result. -/
def run (op : AluOp) (width : Width) (carry : Bool) (script : List Step) : CarryChain :=
  script.foldl (step op width) ⟨[], carry, {}⟩

/-- The script that computes limbs and does nothing else. -/
def plain (pairs : List (UInt16 × UInt16)) : List Step :=
  pairs.map fun pair => .limb pair.1 pair.2

variable (op : AluOp) (width : Width) (carry : Bool)

/-- Counting along changes nothing, for it leaves the carry alone. -/
theorem step_count (s : CarryChain) (down : Bool) (width' : Width) (lhs rhs : UInt16) :
    s.step op width (.count down width' lhs rhs) = s := by
  have hcarry : ((if down then AluOp.dec else AluOp.inc).compute width' lhs rhs s.carry).2.carry
      = s.carry := by
    rw [AluOp.compute_eq]
    cases down <;> rfl
  simp only [step, hcarry]

/-- So a script comes to the same as its limbs alone. -/
theorem run_plain (script : List Step) :
    run op width carry script = run op width carry (plain (script.filterMap Step.operands?)) := by
  unfold run
  generalize (⟨[], carry, {}⟩ : CarryChain) = s
  induction script generalizing s with
  | nil => rfl
  | cons next script ih =>
      cases next with
      | limb lhs rhs => exact ih _
      | count down width' lhs rhs =>
          rw [List.foldl_cons, step_count]
          exact ih s

theorem run_concat (pairs : List (UInt16 × UInt16)) (pair : UInt16 × UInt16) :
    run op width carry (plain (pairs ++ [pair]))
      = (run op width carry (plain pairs)).step op width (.limb pair.1 pair.2) := by
  rw [run, plain, List.map_append, List.foldl_append]
  rfl

-- =========================================================== exactness

/-- The limbs and the carry of a chain are `xs + factor * (ys + c)`. -/
structure Sums (width : Width) (factor : Int) (xs ys : List UInt16) (c : Bool) (s : CarryChain) :
    Prop where
  length : s.limbs.length = xs.length
  fit : Limbs.Fit width s.limbs
  value : (Limbs.value width s.limbs : Int)
      + factor * (s.carry.toNat * 2 ^ (width.bits * xs.length))
    = Limbs.value width xs + factor * (Limbs.value width ys + c.toNat)

/-- And the flags of the last limb are those of the whole number. -/
structure Exact (width : Width) (factor : Int) (xs ys : List UInt16) (c : Bool) (s : CarryChain) :
    Prop extends Sums width factor xs ys c s where
  overflow : s.flags.overflow = true
    ↔ ¬ SignedRange (width.bits * xs.length) (Limbs.signedValue width xs
      + factor * (Limbs.signedValue width ys + c.toNat))
  sign : s.flags.sign = true ↔ Limbs.signedValue width s.limbs < 0

section LastLimb

variable {width carry} {d : Direction} {xs ys : List UInt16} {s : CarryChain} {x y : UInt16}

/-- One more limb: the carry takes on its weight, and the step is exact. -/
theorem Sums.limb (h : Sums width d.factor xs ys carry s) (hlength : ys.length = xs.length)
    (hx : x.toNat < 2 ^ width.bits) (hy : y.toNat < 2 ^ width.bits) :
    Sums width d.factor (xs ++ [x]) (ys ++ [y]) carry (s.step d.op width (.limb x y)) := by
  have hlimb := d.value_compute width hx hy s.carry
  constructor
  case length => simp [step, h.length]
  case fit => exact h.fit.concat (d.toNat_compute_lt width x y s.carry)
  case value =>
    have hvalue := h.value
    simp only [step, Limbs.value_concat, h.length, hlength, List.length_append,
      List.length_singleton, Nat.mul_succ, pow_add]
    push_cast
    linear_combination hvalue + 2 ^ (width.bits * xs.length) * hlimb

/-- The flags of the last limb are those of the whole number. -/
theorem Sums.exact_limb (h : Sums width d.factor xs ys carry s) (hlength : ys.length = xs.length)
    (hxs : Limbs.Fit width (xs ++ [x])) (hys : Limbs.Fit width (ys ++ [y])) :
    Exact width d.factor (xs ++ [x]) (ys ++ [y]) carry (s.step d.op width (.limb x y)) := by
  obtain ⟨hxs, hx⟩ := Limbs.fit_concat hxs
  obtain ⟨hys, hy⟩ := Limbs.fit_concat hys
  have hsmall := Limbs.value_lt h.fit
  rw [h.length] at hsmall
  refine { h.limb hlength hx hy with overflow := ?_, sign := ?_ }
  · -- the sum is the limbs below and, with the weight of the last limb, the sum of that limb
    have hsum : Limbs.signedValue width (xs ++ [x])
          + d.factor * (Limbs.signedValue width (ys ++ [y]) + carry.toNat)
        = Limbs.value width s.limbs + 2 ^ (width.bits * xs.length)
          * ((x.toBitVec.setWidth width.bits).toInt
            + d.factor * ((y.toBitVec.setWidth width.bits).toInt + s.carry.toNat)) := by
      rw [Limbs.signedValue_concat hxs hx, Limbs.signedValue_concat hys hy, hlength]
      linear_combination -h.value
    rw [hsum, List.length_append, List.length_singleton, Nat.mul_succ,
      signedRange_add_mul width.bits_pos hsmall]
    exact d.overflow_compute width x y s.carry
  · have hresult := d.toNat_compute_lt width x y s.carry
    have hsigned : Limbs.signedValue width (s.step d.op width (.limb x y)).limbs
        = Limbs.value width s.limbs + 2 ^ (width.bits * xs.length)
          * ((d.op.compute width x y s.carry).1.toBitVec.setWidth width.bits).toInt := by
      rw [← h.length]
      exact Limbs.signedValue_concat h.fit hresult
    rw [hsigned, add_mul_neg_iff hsmall]
    exact d.sign_compute width x y s.carry

end LastLimb

/-- A run over any number of limbs is exact. -/
theorem sums_run (d : Direction) {pairs : List (UInt16 × UInt16)}
    (hxs : Limbs.Fit width (pairs.map Prod.fst)) (hys : Limbs.Fit width (pairs.map Prod.snd)) :
    Sums width d.factor (pairs.map Prod.fst) (pairs.map Prod.snd) carry
      (run d.op width carry (plain pairs)) := by
  induction pairs using List.reverseRecOn with
  | nil => exact ⟨rfl, fun x hx => absurd hx List.not_mem_nil, by simp [run, plain, Limbs.value]⟩
  | append_singleton pairs pair ih =>
      rw [List.map_append, List.map_singleton] at hxs hys ⊢
      obtain ⟨hxs, hx⟩ := Limbs.fit_concat hxs
      obtain ⟨hys, hy⟩ := Limbs.fit_concat hys
      rw [List.map_append, List.map_singleton, run_concat]
      exact (ih hxs hys).limb (by simp) hx hy

/-- And if there are limbs, the flags it leaves are exact as well. -/
theorem exact_run (d : Direction) {pairs : List (UInt16 × UInt16)} (hne : pairs ≠ [])
    (hxs : Limbs.Fit width (pairs.map Prod.fst)) (hys : Limbs.Fit width (pairs.map Prod.snd)) :
    Exact width d.factor (pairs.map Prod.fst) (pairs.map Prod.snd) carry
      (run d.op width carry (plain pairs)) := by
  obtain ⟨pairs, pair, rfl⟩ := pairs.eq_nil_or_concat'.resolve_left hne
  rw [List.map_append, List.map_singleton] at hxs hys ⊢
  rw [List.map_append, List.map_singleton, run_concat]
  have hbelow := sums_run width carry d (Limbs.fit_concat hxs).1 (Limbs.fit_concat hys).1
  exact hbelow.exact_limb (by simp) hxs hys

-- ======================================================= the statement

/-- A chain of additions or subtractions with carry is exact, whatever the
number of limbs, and its last overflow and sign flags are those of the
long number. Increments and decrements between the limbs change none of
it. -/
theorem carry_chain_exact (xs ys : List UInt16) (script : List Step) (hne : xs ≠ [])
    (hlength : ys.length = xs.length) (hxs : Limbs.Fit width xs) (hys : Limbs.Fit width ys)
    (hscript : script.filterMap Step.operands? = xs.zip ys) :
    Exact width 1 xs ys carry (run .adc width carry script)
      ∧ Exact width (-1) xs ys carry (run .sbb width carry script)
      ∧ ∀ op, run op width carry script = run op width carry (plain (xs.zip ys)) := by
  have hfst : (xs.zip ys).map Prod.fst = xs := List.map_fst_zip hlength.ge
  have hsnd : (xs.zip ys).map Prod.snd = ys := List.map_snd_zip hlength.le
  have hpairs : xs.zip ys ≠ [] := by
    intro hnil
    rw [hnil] at hfst
    exact hne hfst.symm
  have hexact : ∀ d : Direction,
      Exact width d.factor xs ys carry (run d.op width carry (plain (xs.zip ys))) := by
    intro d
    have hrun := exact_run width carry d hpairs (by rwa [hfst]) (by rwa [hsnd])
    rwa [hfst, hsnd] at hrun
  have hrun : ∀ op, run op width carry script = run op width carry (plain (xs.zip ys)) := by
    intro op
    rw [run_plain, hscript]
  refine ⟨?_, ?_, hrun⟩
  · rw [hrun]
    exact hexact .adding
  · rw [hrun]
    exact hexact .subtracting

/-- Two bytes and a carry, with a counter and a pointer moved between the
two: 7FFF and one more is out of range, 7FFF less one is not. -/
theorem carry_chain_exact_of_two_bytes :
    let script : List Step :=
      [.limb 0xFF 0x00, .count true .word 0x0000 0, .count false .byte 0xFF 0, .limb 0x7F 0x00]
    run .adc .byte true script
        = ⟨[0x00, 0x80], false, { auxCarry := true, sign := true, overflow := true }⟩
      ∧ run .sbb .byte true script = ⟨[0xFE, 0x7F], false, {}⟩
      ∧ Exact .byte 1 [0xFF, 0x7F] [0x00, 0x00] true (run .adc .byte true script)
      ∧ Exact .byte (-1) [0xFF, 0x7F] [0x00, 0x00] true (run .sbb .byte true script) := by
  intro script
  have hxs : Limbs.Fit .byte [0xFF, 0x7F] := by simp [Limbs.Fit, Width.bits]
  have hys : Limbs.Fit .byte [0x00, 0x00] := by simp [Limbs.Fit, Width.bits]
  obtain ⟨hadc, hsbb, -⟩ :=
    carry_chain_exact .byte true [0xFF, 0x7F] [0x00, 0x00] script (by simp) rfl hxs hys rfl
  exact ⟨by decide, by decide, hadc, hsbb⟩

end CarryChain

end Disasm8086
