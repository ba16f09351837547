/-
Reading numerals back. A numeral is decimal, or hexadecimal behind `0x`,
and may have a minus sign in front; which of these it is shows in the
numeral itself, so one reader serves both styles of output.

Besides its value, a text that embeds a numeral has to know two things
about it: it is made of letters, digits and a sign, and it starts with a
digit or the sign. All three are bundled (`Text.Unsigned`,
`Text.Signed`), so that a numeral is opened up here and nowhere else.
-/
import Disasm8086.Text.Numeral

namespace Disasm8086.Text

-- ============================================================= reader

/-- The number that a decimal or upper-case hexadecimal digit stands for. -/
def digitValue (c : Char) : Nat :=
  if c.isDigit then c.toNat - '0'.toNat else c.toNat - 'A'.toNat + 10

/-- The number that digits stand for, the most significant first. -/
def readDigits (base : Nat) (digits : List Char) : Nat :=
  digits.foldl (fun n c => base * n + digitValue c) 0

/-- A numeral without a sign, hexadecimal if it is marked so. -/
def readNatural : List Char → Nat
  | '0' :: 'x' :: digits => readDigits 16 digits
  | digits => readDigits 10 digits

/-- A numeral that may have a minus sign. -/
def readNumber : List Char → Int
  | '-' :: text => -(readNatural text)
  | text => readNatural text

-- ============================================================= digits

/-- The digits of a number are below the base, and add up to it. -/
theorem exists_digits {base : Nat} (hbase : 1 < base) (n : Nat) :
    ∃ digits : List Nat, digits ≠ [] ∧ (∀ d ∈ digits, d < base)
      ∧ Nat.toDigits base n = digits.map Nat.digitChar
      ∧ digits.foldl (fun n d => base * n + d) 0 = n := by
  induction n using Nat.strongRecOn with
  | ind n ih =>
      rw [Nat.toDigits_eq_if hbase]
      by_cases hlt : n < base
      · rw [if_pos hlt]
        exact ⟨[n], by simp, by simpa using hlt, rfl, by simp⟩
      · -- the last digit is the remainder, the others are those of the quotient
        have hsmaller : n / base < n := Nat.div_lt_self (by omega) hbase
        obtain ⟨digits, -, hdigits, htext, hvalue⟩ := ih (n / base) hsmaller
        refine ⟨digits ++ [n % base], by simp, ?_, ?_, ?_⟩
        · intro d hd
          rcases List.mem_append.mp hd with hd | hd
          · exact hdigits d hd
          · rw [List.mem_singleton.mp hd]
            exact Nat.mod_lt n (by omega)
        · rw [if_neg hlt, htext, List.map_append, List.map_singleton]
        · rw [List.foldl_append, hvalue]
          exact Nat.div_add_mod n base

/-- Digits may be written in any way that keeps their value. -/
theorem readDigits_map {base : Nat} (write : Nat → Char)
    (hwrite : ∀ d < base, digitValue (write d) = d) (digits : List Nat)
    (hdigits : ∀ d ∈ digits, d < base) :
    readDigits base (digits.map write) = digits.foldl (fun n d => base * n + d) 0 := by
  rw [readDigits, List.foldl_map]
  generalize 0 = start
  induction digits generalizing start with
  | nil => rfl
  | cons d digits ih =>
      have hd : d < base := hdigits d List.mem_cons_self
      rw [List.foldl_cons, List.foldl_cons, hwrite d hd]
      exact ih (fun d' h => hdigits d' (List.mem_cons_of_mem d h)) _

/-- Zeros in front do not count. -/
theorem readDigits_leftpad (base least : Nat) (digits : List Char) :
    readDigits base (digits.leftpad least '0') = readDigits base digits := by
  rw [readDigits, List.leftpad, List.foldl_append]
  generalize least - digits.length = count
  induction count with
  | zero => rfl
  | succ count ih => exact ih

-- =========================================================== numerals

/-- A text that stands for a natural number. -/
structure Unsigned (text : List Char) (n : Nat) : Prop where
  value : readNatural text = n
  plain : ∀ c ∈ text, c.isAlphanum = true
  leads : text.head?.any Char.isDigit = true

/-- A text that stands for an integer. -/
structure Signed (text : List Char) (n : Int) : Prop where
  value : readNumber text = n
  plain : ∀ c ∈ text, c.isAlphanum = true ∨ c = '-'
  leads : text.head?.any (fun c => c.isDigit || c == '-') = true

/-- A decimal numeral stands for its number. -/
theorem unsigned_natural (n : Nat) : Unsigned (natural n).toList n := by
  obtain ⟨digits, hne, hdigits, htext, hvalue⟩ := exists_digits (show 1 < 10 by decide) n
  have hwrite : ∀ d < 10, (Nat.digitChar d).isDigit = true
      ∧ digitValue (Nat.digitChar d) = d := by decide
  have hdecimal : ∀ c ∈ digits.map Nat.digitChar, c.isDigit = true := by
    intro c hc
    obtain ⟨d, hd, rfl⟩ := List.mem_map.mp hc
    exact (hwrite d (hdigits d hd)).1
  rw [natural, String.toList_ofList, htext]
  constructor
  case value =>
    unfold readNatural
    split
    case h_1 heq =>
      have hx := hdecimal 'x' (by rw [heq]; simp)
      exact absurd hx (by decide)
    case h_2 =>
      rw [readDigits_map _ (fun d hd => (hwrite d hd).2) digits hdigits, hvalue]
  case plain =>
    intro c hc
    rw [Char.isAlphanum, hdecimal c hc, Bool.or_true]
  case leads =>
    cases digits with
    | nil => exact absurd rfl hne
    | cons d digits => exact hdecimal _ List.mem_cons_self

/-- And so does a hexadecimal one, however wide. -/
theorem unsigned_hex (least n : Nat) : Unsigned (hex least n).toList n := by
  obtain ⟨digits, -, hdigits, htext, hvalue⟩ := exists_digits (show 1 < 16 by decide) n
  have hwrite : ∀ d < 16, (Nat.digitChar d).toUpper.isAlphanum = true
      ∧ digitValue (Nat.digitChar d).toUpper = d := by decide
  have hlist : (hex least n).toList
      = '0' :: 'x' :: (digits.map fun d => (Nat.digitChar d).toUpper).leftpad least '0' := by
    simp [hex, hexDigits, htext]
  rw [hlist]
  constructor
  case value =>
    show readDigits 16 _ = n
    rw [readDigits_leftpad, readDigits_map _ (fun d hd => (hwrite d hd).2) digits hdigits,
      hvalue]
  case plain =>
    intro c hc
    simp only [List.leftpad, List.mem_cons, List.mem_append, List.mem_replicate,
      List.mem_map] at hc
    rcases hc with rfl | rfl | ⟨-, rfl⟩ | ⟨d, hd, rfl⟩
    · decide
    · decide
    · decide
    · exact (hwrite d (hdigits d hd)).1
  case leads => rfl

/-- A natural number is an integer without a sign. -/
theorem Unsigned.signed {text : List Char} {n : Nat} (h : Unsigned text n) : Signed text n := by
  obtain ⟨hvalue, hplain, hleads⟩ := h
  constructor
  case value =>
    unfold readNumber
    split
    case h_1 => exact absurd hleads (by simp)
    case h_2 => rw [hvalue]
  case plain => exact fun c hc => Or.inl (hplain c hc)
  case leads =>
    cases text with
    | nil => cases hleads
    | cons c text =>
        have hdigit : c.isDigit = true := hleads
        simp [hdigit]

/-- A decimal numeral with a sign stands for its number. -/
theorem signed_signed (n : Int) : Signed (signed n).toList n := by
  obtain ⟨hvalue, hplain, hleads⟩ := unsigned_natural n.natAbs
  unfold signed
  by_cases hneg : n < 0
  · rw [if_pos hneg, String.toList_append]
    constructor
    case value =>
      show -((readNatural (natural n.natAbs).toList : Nat) : Int) = n
      rw [hvalue]
      omega
    case plain =>
      intro c hc
      rcases List.mem_append.mp hc with hc | hc
      · exact Or.inr (by simpa using hc)
      · exact Or.inl (hplain c hc)
    case leads => rfl
  · rw [if_neg hneg]
    have hsigned := (unsigned_natural n.natAbs).signed
    rwa [show ((n.natAbs : Nat) : Int) = n by omega] at hsigned

end Disasm8086.Text
