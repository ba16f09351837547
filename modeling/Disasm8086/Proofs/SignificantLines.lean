/-
The lines of a text that count. A text is divided at its line feeds, and
what counts in it is what counts in each stretch (`significantLines_eq`):
a carriage return at the end of a line is blank, and the stretch behind
the last line feed does not count if it is empty, so neither of the two
special rules about line ends matters once lines are trimmed. Division at
a line feed is concatenation of stretches, so the lines that count are
put together from those of the parts (`significantLines_append`).

A line of its own is a text that stays what it is among such lines: it
is not empty, it is one line, no blanks surround it, and it is no
comment. Lines of their own, one below the other, are read back exactly
(`significantLines_intercalate`).

Comparison succeeds exactly for lists of the same length that agree line
by line (`compareLines_eq_ok_iff`). Lower case takes no part in any of
it, since ASCII letters are neither blank nor line ends nor semicolons.
-/
import Disasm8086.Reference
import Mathlib.Data.List.Forall2
import Mathlib.Data.List.Induction
import Mathlib.Data.List.TakeWhile

namespace Disasm8086

namespace Text

-- ========================================================== stretches

theorem stretches_ne_nil (cs : List Char) : stretches cs ≠ [] := by
  cases cs with
  | nil => exact List.cons_ne_nil _ _
  | cons c cs =>
      show stretches.extend c (stretches cs) ≠ []
      unfold stretches.extend
      split
      · exact List.cons_ne_nil _ _
      · split <;> exact List.cons_ne_nil _ _

/-- A character only ever joins the first stretch. -/
theorem extend_append (c : Char) {parts : List (List Char)} (h : parts ≠ [])
    (more : List (List Char)) :
    stretches.extend c (parts ++ more) = stretches.extend c parts ++ more := by
  obtain ⟨first, rest, rfl⟩ := List.exists_cons_of_ne_nil h
  simp only [List.cons_append, stretches.extend]
  split <;> rfl

/-- A line feed ends one stretch and begins the next. -/
theorem stretches_append_newline (a b : List Char) :
    stretches (a ++ '\n' :: b) = stretches a ++ stretches b := by
  induction a with
  | nil =>
      obtain ⟨first, rest, hparts⟩ := List.exists_cons_of_ne_nil (stretches_ne_nil b)
      show stretches.extend '\n' (stretches b) = [] :: stretches b
      rw [hparts]
      rfl
  | cons c a ih =>
      show stretches.extend c (stretches (a ++ '\n' :: b)) = _
      rw [ih, extend_append c (stretches_ne_nil a)]
      rfl

/-- Without a line feed there is one stretch. -/
theorem stretches_of_unbroken {cs : List Char} (h : '\n' ∉ cs) : stretches cs = [cs] := by
  induction cs with
  | nil => rfl
  | cons c cs ih =>
      rw [List.mem_cons, not_or] at h
      show stretches.extend c (stretches cs) = _
      rw [ih h.2]
      exact if_neg (Ne.symm h.1)

-- ============================================================= blanks

/-- Blanks at the end do not count. -/
theorem trim_append_blank (cs : List Char) {blanks : List Char}
    (h : ∀ c ∈ blanks, isBlank c = true) : trim (cs ++ blanks) = trim cs := by
  have hblanks : blanks.dropWhile isBlank = [] := List.dropWhile_eq_nil_iff.mpr h
  have hreverse : blanks.reverse.dropWhile isBlank = [] :=
    List.dropWhile_eq_nil_iff.mpr fun c hc => h c (List.mem_reverse.mp hc)
  unfold trim
  rw [List.dropWhile_append]
  split
  case isTrue hempty =>
    rw [hblanks, List.isEmpty_iff.mp hempty]
  case isFalse =>
    rw [List.reverse_append, List.dropWhile_append, hreverse]
    rfl

/-- A carriage return at the end is a blank among others. -/
theorem trim_dropReturn (cs : List Char) : trim (dropReturn cs) = trim cs := by
  unfold dropReturn
  split
  case isTrue hlast =>
    obtain ⟨init, rfl⟩ := List.getLast?_eq_some_iff.mp hlast
    have hreturn : ∀ c ∈ ['\r'], isBlank c = true := by
      intro c hc
      rw [List.mem_singleton.mp hc]
      rfl
    rw [List.dropLast_concat, trim_append_blank init hreturn]
  case isFalse => rfl

theorem dropWhile_eq_self {α : Type} {p : α → Bool} {l : List α}
    (h : ∀ a, l.head? = some a → p a = false) : l.dropWhile p = l := by
  cases l with
  | nil => rfl
  | cons a l => exact List.dropWhile_cons_of_neg (by simp [h a rfl])

/-- A text with no blank at either end is trimmed. -/
theorem trim_eq_self {cs : List Char} (hfirst : ∀ c, cs.head? = some c → isBlank c = false)
    (hlast : ∀ c, cs.getLast? = some c → isBlank c = false) : trim cs = cs := by
  unfold trim
  rw [dropWhile_eq_self hfirst, dropWhile_eq_self (by simpa using hlast), List.reverse_reverse]

end Text

open Text

-- ================================================== lines that count

/-- What counts in a text is what counts in its stretches. -/
theorem significantLines_eq (text : String) :
    significantLines text
      = (((stretches text.toList).map trim).filter isSignificant).map String.ofList := by
  obtain ⟨init, last, hparts⟩ :=
    (stretches text.toList).eq_nil_or_concat'.resolve_left (stretches_ne_nil _)
  have hreturn : (init.map dropReturn).map trim = init.map trim := by
    rw [List.map_map]
    exact List.map_congr_left fun cs _ => trim_dropReturn cs
  have hempty : (([last].filter (!·.isEmpty)).map trim).filter isSignificant
      = ([last].map trim).filter isSignificant := by
    cases last <;> rfl
  unfold significantLines lines
  simp only [hparts, List.dropLast_concat, List.getLast?_concat, Option.toList_some,
    List.map_append, List.filter_append]
  rw [hreturn, hempty]

/-- A line feed separates what counts before it from what counts behind. -/
theorem significantLines_append (a b : String) :
    significantLines (a ++ "\n" ++ b) = significantLines a ++ significantLines b := by
  have htext : (a ++ "\n" ++ b).toList = a.toList ++ '\n' :: b.toList := by
    simp
  simp only [significantLines_eq, htext, stretches_append_newline, List.map_append,
    List.filter_append]

/-- A text that counts as one line, just as it is. -/
structure OwnLine (line : String) : Prop where
  nonempty : line ≠ ""
  unbroken : '\n' ∉ line.toList
  leading : ∀ c, line.toList.head? = some c → isBlank c = false
  trailing : ∀ c, line.toList.getLast? = some c → isBlank c = false
  uncommented : line.toList.head? ≠ some ';'

/-- Such a line counts as it stands. -/
theorem OwnLine.significantLines_eq {line : String} (h : OwnLine line) :
    significantLines line = [line] := by
  have hcounts : isSignificant line.toList = true := by
    have hne : line.toList ≠ [] := by simpa using h.nonempty
    have hcomment : (line.toList.head? != some ';') = true := bne_iff_ne.mpr h.uncommented
    rw [isSignificant, hcomment, List.isEmpty_eq_false_iff.mpr hne]
    rfl
  rw [Disasm8086.significantLines_eq, stretches_of_unbroken h.unbroken, List.map_singleton,
    trim_eq_self h.leading h.trailing, List.filter_cons_of_pos hcounts, List.filter_nil,
    List.map_singleton, String.ofList_toList]

/-- Such lines are taken apart as they were put together. -/
theorem significantLines_intercalate {lines : List String} (h : ∀ line ∈ lines, OwnLine line) :
    significantLines ("\n".intercalate lines) = lines := by
  induction lines with
  | nil => rfl
  | cons line rest ih =>
      have hline := (h line List.mem_cons_self).significantLines_eq
      have hrest := ih fun l hl => h l (List.mem_cons_of_mem _ hl)
      by_cases hnil : rest = []
      · rw [hnil, String.intercalate_singleton, hline]
      · rw [String.intercalate_cons_of_ne_nil hnil, significantLines_append, hline, hrest]
        rfl

-- ========================================================= comparison

/-- Lines that are the same in pairs have no difference. -/
theorem firstDifference?_eq_none {expected actual : List String}
    (h : List.Forall₂ (fun a b => sameLine a b = true) expected actual) (number : Nat) :
    firstDifference? number expected actual = none := by
  induction h generalizing number with
  | nil => rfl
  | cons hsame _ ih =>
      rw [firstDifference?, if_pos hsame]
      exact ih (number + 1)

/-- Without a difference, equally many lines are the same in pairs. -/
theorem forall₂_of_firstDifference? {expected actual : List String} {number : Nat}
    (h : firstDifference? number expected actual = none)
    (hlength : expected.length = actual.length) :
    List.Forall₂ (fun a b => sameLine a b = true) expected actual := by
  induction expected generalizing actual number with
  | nil =>
      rw [List.length_nil, eq_comm, List.length_eq_zero_iff] at hlength
      rw [hlength]
      exact .nil
  | cons e expected ih =>
      match actual, hlength with
      | a :: actual, hlength =>
          rw [firstDifference?] at h
          split at h
          case isTrue hsame => exact .cons hsame (ih h (Nat.succ.inj hlength))
          case isFalse => cases h

/-- Comparison succeeds exactly if the lines agree one by one. -/
theorem compareLines_eq_ok_iff {expected actual : List String} :
    compareLines expected actual = .ok ()
      ↔ List.Forall₂ (fun a b => sameLine a b = true) expected actual := by
  unfold compareLines
  constructor
  · intro h
    split at h
    case h_1 => cases h
    case h_2 hnone =>
      split at h
      case isTrue hlength => exact forall₂_of_firstDifference? hnone hlength
      case isFalse => cases h
  · intro h
    rw [firstDifference?_eq_none h]
    exact if_pos h.length_eq

-- ========================================================== lower case

/-- Only letters from A to Z are put in lower case. -/
theorem toNat_toLower (c : Char) :
    c.toLower.toNat = if 65 ≤ c.toNat ∧ c.toNat ≤ 90 then c.toNat + 32 else c.toNat := by
  unfold Char.toLower
  split
  case isTrue h =>
    have hlow : 65 ≤ c.val.toNat := h.1
    have hhigh : c.val.toNat ≤ 90 := h.2
    have hvalue : (c.val + ('a'.val - 'A'.val)).toNat = c.val.toNat + 32 := by
      show (c.val + 32).toNat = _
      rw [UInt32.toNat_add]
      exact Nat.mod_eq_of_lt (by show c.val.toNat + 32 < _; omega)
    rw [if_pos ⟨hlow, hhigh⟩]
    exact hvalue
  case isFalse h => exact (if_neg h).symm

/-- A character is in lower case already, or it is a capital letter. -/
theorem toLower_eq_self_or (c : Char) :
    c.toLower = c ∨ (65 ≤ c.toNat ∧ c.toNat ≤ 90 ∧ c.toLower.toNat = c.toNat + 32) := by
  have hvalue := toNat_toLower c
  split at hvalue
  case isTrue h => exact Or.inr ⟨h.1, h.2, hvalue⟩
  case isFalse h => exact Or.inl (Char.toNat_inj.mp hvalue)

/-- Lower case makes no character blank, and none visible. -/
theorem isBlank_toLower (c : Char) : isBlank c.toLower = isBlank c := by
  rcases toLower_eq_self_or c with h | ⟨hlow, hhigh, hvalue⟩
  · rw [h]
  · simp only [isBlank, blankRanges, hvalue, List.any_cons, List.any_nil]
    grind

/-- No letter becomes a character that comes before the letters. -/
theorem toLower_eq_iff {c d : Char} (h : d.toNat < 65) : c.toLower = d ↔ c = d := by
  rcases toLower_eq_self_or c with h' | ⟨hlow, hhigh, hvalue⟩
  · rw [h']
  · constructor
    · rintro rfl
      omega
    · rintro rfl
      omega

/-- Lines are the same lines in lower case. -/
theorem stretches_map_toLower (cs : List Char) :
    stretches (cs.map Char.toLower) = (stretches cs).map (·.map Char.toLower) := by
  induction cs with
  | nil => rfl
  | cons c cs ih =>
      obtain ⟨first, rest, hparts⟩ := List.exists_cons_of_ne_nil (stretches_ne_nil cs)
      show stretches.extend c.toLower (stretches (cs.map Char.toLower))
        = (stretches.extend c (stretches cs)).map (·.map Char.toLower)
      rw [ih, hparts]
      simp only [List.map_cons, stretches.extend, toLower_eq_iff (show '\n'.toNat < 65 by decide)]
      split <;> rfl

/-- Blanks around a line are the same blanks. -/
theorem trim_map_toLower (cs : List Char) :
    trim (cs.map Char.toLower) = (trim cs).map Char.toLower := by
  have hblank : isBlank ∘ Char.toLower = isBlank := funext isBlank_toLower
  simp only [trim, List.dropWhile_map, ← List.map_reverse, hblank]

/-- A line counts in lower case if it counts. -/
theorem isSignificant_map_toLower (cs : List Char) :
    isSignificant (cs.map Char.toLower) = isSignificant cs := by
  cases cs with
  | nil => rfl
  | cons c cs =>
      have hcomment := toLower_eq_iff (c := c) (show ';'.toNat < 65 by decide)
      simp [isSignificant, bne, hcomment]

theorem toList_toLower (text : String) : text.toLower.toList = text.toList.map Char.toLower :=
  String.toList_map

/-- The lines of a text in lower case are its lines in lower case. -/
theorem significantLines_toLower (text : String) :
    significantLines text.toLower = (significantLines text).map String.toLower := by
  have hcounts : isSignificant ∘ List.map Char.toLower = isSignificant :=
    funext isSignificant_map_toLower
  have htrim : trim ∘ List.map Char.toLower = List.map Char.toLower ∘ trim :=
    funext trim_map_toLower
  have hlower : String.toLower ∘ String.ofList = String.ofList ∘ List.map Char.toLower := by
    funext cs
    apply String.toList_injective
    simp [toList_toLower]
  rw [significantLines_eq, significantLines_eq, toList_toLower, stretches_map_toLower,
    List.map_map, htrim, ← List.map_map, List.filter_map, hcounts, List.map_map, List.map_map,
    hlower]

theorem toLower_toLower (c : Char) : c.toLower.toLower = c.toLower := by
  rcases toLower_eq_self_or c with h | ⟨hlow, hhigh, hvalue⟩
  · rw [h, h]
  · -- a small letter is not a capital one
    rcases toLower_eq_self_or c.toLower with h | ⟨-, hhigh', -⟩
    · exact h
    · omega

/-- A text and the same text in lower case compare as equal. -/
theorem compareListing_toLower (text : String) :
    compareListing text text.toLower = .ok () ∧ compareListing text.toLower text = .ok () := by
  have hfold : ∀ line : String,
      line.toLower.toList.map Char.toLower = line.toList.map Char.toLower := by
    intro line
    rw [toList_toLower, List.map_map]
    exact List.map_congr_left fun c _ => toLower_toLower c
  simp only [compareListing, significantLines_toLower, compareLines_eq_ok_iff,
    List.forall₂_map_left_iff, List.forall₂_map_right_iff, List.forall₂_same, sameLine, hfold,
    beq_self_eq_true, implies_true, and_self]

end Disasm8086
