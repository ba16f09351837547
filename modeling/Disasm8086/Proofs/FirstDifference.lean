/-
Where two listings differ. Comparison walks down the lines that count, in
pairs, and stops at the first pair that differs; only if there is none,
it looks at the numbers of lines. What it reports is therefore fixed by
the two lists of lines (`Compared`): they agree as far as both go, and
then their lengths decide, or they do not, and then the least position at
which they differ is reported, however many lines there are.

Lines are compared but for case. That is said here of their characters
(`SameLetter`): two characters count as one if they are equal or are the
two cases of one letter from A to Z. Letters beyond these have cases too,
but these count as different.

The conditions in `Compared` exclude each other, so the report is the only
one that fulfils them. Since they treat both lists alike, comparing the
other way round gives the same report with its two parts exchanged
(`Compared.swap`). Success is equality of the lines in lower case, and so
it is an equivalence.
-/
import Disasm8086.Proofs.SignificantLines

namespace Disasm8086

-- ================================================================ case

/-- The same character, or the two cases of a letter from A to Z. -/
def SameLetter (c d : Char) : Prop :=
  c = d ∨ ∃ n < 26, (c.toNat = 'A'.toNat + n ∧ d.toNat = 'a'.toNat + n)
    ∨ (c.toNat = 'a'.toNat + n ∧ d.toNat = 'A'.toNat + n)

/-- Characters have one lower case exactly if they are the same letter. -/
theorem toLower_eq_toLower_iff {c d : Char} : c.toLower = d.toLower ↔ SameLetter c d := by
  have hcapital : 'A'.toNat = 65 := rfl
  have hsmall : 'a'.toNat = 97 := rfl
  simp only [SameLetter, ← Char.toNat_inj, toNat_toLower, hcapital, hsmall]
  constructor
  · intro h
    by_cases heq : c.toNat = d.toNat
    · exact Or.inl heq
    · -- of two characters with one lower case, one is the capital letter
      right
      by_cases hc : 65 ≤ c.toNat ∧ c.toNat ≤ 90
      · have hd : ¬(65 ≤ d.toNat ∧ d.toNat ≤ 90) := by
          intro hd
          rw [if_pos hc, if_pos hd] at h
          omega
        rw [if_pos hc, if_neg hd] at h
        exact ⟨c.toNat - 65, by omega, Or.inl ⟨by omega, by omega⟩⟩
      · have hd : 65 ≤ d.toNat ∧ d.toNat ≤ 90 := by
          by_contra hd
          rw [if_neg hc, if_neg hd] at h
          exact heq h
        rw [if_neg hc, if_pos hd] at h
        exact ⟨d.toNat - 65, by omega, Or.inr ⟨by omega, by omega⟩⟩
  · rintro (h | ⟨n, hn, ⟨hc, hd⟩ | ⟨hc, hd⟩⟩)
    · rw [h]
    · rw [if_pos (by omega), if_neg (by omega)]
      omega
    · rw [if_neg (by omega), if_pos (by omega)]
      omega

/-- The same line but for the case of letters from A to Z. -/
def Alike (a b : String) : Prop := List.Forall₂ SameLetter a.toList b.toList

/-- Two lines pass for the same exactly if they are alike. -/
theorem sameLine_iff {a b : String} : sameLine a b = true ↔ Alike a b := by
  rw [sameLine, beq_iff_eq, ← List.forall₂_eq_eq_eq, List.forall₂_map_left_iff,
    List.forall₂_map_right_iff]
  simp only [toLower_eq_toLower_iff, Alike]

theorem Alike.symm {a b : String} (h : Alike a b) : Alike b a := by
  rw [← sameLine_iff, sameLine, beq_iff_eq] at h ⊢
  exact h.symm

-- =========================================================== positions

/-- The lists agree as far as both go. -/
def LinesAgree (expected actual : List String) : Prop :=
  ∀ (k : Nat) (e a : String), expected[k]? = some e → actual[k]? = some a → Alike e a

/-- Position `k` is the least at which the lists differ, and `e` and `a` are
what they have there. -/
structure FirstDifference (expected actual : List String) (k : Nat) (e a : String) : Prop where
  expected_at : expected[k]? = some e
  actual_at : actual[k]? = some a
  differ : ¬Alike e a
  least : ∀ j < k, ∀ e' a', expected[j]? = some e' → actual[j]? = some a' → Alike e' a'

section Positions

variable {expected actual : List String} {e a : String}

theorem LinesAgree.symm (h : LinesAgree expected actual) : LinesAgree actual expected :=
  fun k a e ha he => (h k e a he ha).symm

theorem linesAgree_nil (actual : List String) : LinesAgree [] actual := by
  intro k e a he
  rw [List.getElem?_nil] at he
  cases he

/-- Lines agree if the first pair does and the others do. -/
theorem linesAgree_cons_iff :
    LinesAgree (e :: expected) (a :: actual) ↔ Alike e a ∧ LinesAgree expected actual := by
  constructor
  · intro h
    exact ⟨h 0 e a rfl rfl, fun k => h (k + 1)⟩
  · rintro ⟨hfirst, hrest⟩ k e' a' he ha
    cases k with
    | zero =>
        cases he
        cases ha
        exact hfirst
    | succ k => exact hrest k e' a' he ha

/-- Behind a pair that is alike, the first difference is one further down. -/
theorem FirstDifference.cons {k : Nat} {e' a' : String} (hfirst : Alike e a)
    (h : FirstDifference expected actual k e' a') :
    FirstDifference (e :: expected) (a :: actual) (k + 1) e' a' where
  expected_at := h.expected_at
  actual_at := h.actual_at
  differ := h.differ
  least := by
    intro j hj e'' a'' he ha
    cases j with
    | zero =>
        cases he
        cases ha
        exact hfirst
    | succ j => exact h.least j (Nat.lt_of_succ_lt_succ hj) e'' a'' he ha

theorem FirstDifference.symm {k : Nat} (h : FirstDifference expected actual k e a) :
    FirstDifference actual expected k a e where
  expected_at := h.actual_at
  actual_at := h.expected_at
  differ := fun hsame => h.differ hsame.symm
  least := fun j hj a' e' ha he => (h.least j hj e' a' he ha).symm

/-- Lines that have a first difference do not agree. -/
theorem FirstDifference.not_linesAgree {k : Nat} (h : FirstDifference expected actual k e a) :
    ¬LinesAgree expected actual :=
  fun hagree => h.differ (hagree k e a h.expected_at h.actual_at)

/-- There is one first difference, with one pair of lines. -/
theorem FirstDifference.unique {k k' : Nat} {e' a' : String}
    (h : FirstDifference expected actual k e a) (h' : FirstDifference expected actual k' e' a') :
    k = k' ∧ e = e' ∧ a = a' := by
  have hk : k = k' := by
    rcases Nat.lt_trichotomy k k' with hlt | heq | hgt
    · exact absurd (h'.least k hlt e a h.expected_at h.actual_at) h.differ
    · exact heq
    · exact absurd (h.least k' hgt e' a' h'.expected_at h'.actual_at) h'.differ
  subst hk
  exact ⟨rfl, Option.some.inj (h.expected_at.symm.trans h'.expected_at),
    Option.some.inj (h.actual_at.symm.trans h'.actual_at)⟩

/-- The walk finds the first difference, or there is none. -/
theorem firstDifference?_spec (number : Nat) (expected actual : List String) :
    (firstDifference? number expected actual = none ∧ LinesAgree expected actual)
      ∨ ∃ k e a, firstDifference? number expected actual = some (.line (number + k) e a)
        ∧ FirstDifference expected actual k e a := by
  induction expected generalizing number actual with
  | nil => exact Or.inl ⟨rfl, linesAgree_nil actual⟩
  | cons e expected ih =>
      cases actual with
      | nil => exact Or.inl ⟨rfl, (linesAgree_nil (e :: expected)).symm⟩
      | cons a actual =>
          by_cases hsame : sameLine e a = true
          · have hfirst := sameLine_iff.mp hsame
            rw [firstDifference?, if_pos hsame]
            rcases ih (number + 1) actual with ⟨hnone, hagree⟩ | ⟨k, e', a', hsome, hleast⟩
            · exact Or.inl ⟨hnone, linesAgree_cons_iff.mpr ⟨hfirst, hagree⟩⟩
            · refine Or.inr ⟨k + 1, e', a', ?_, hleast.cons hfirst⟩
              rw [hsome, Nat.add_assoc, Nat.add_comm 1 k]
          · refine Or.inr ⟨0, e, a, ?_, rfl, rfl, fun h => hsame (sameLine_iff.mpr h), ?_⟩
            · rw [firstDifference?, if_neg hsame]
              rfl
            · exact fun j hj => absurd hj (Nat.not_lt_zero j)

-- ========================================================== beginnings

/-- The one list is, but for case, a beginning of the other, which has more
lines. -/
def ProperBeginning (short long : List String) : Prop :=
  ∃ start more, long = start ++ more ∧ more ≠ [] ∧ List.Forall₂ Alike short start

/-- Lines that are alike in pairs agree, whatever follows on one side. -/
theorem linesAgree_of_forall₂ (h : List.Forall₂ Alike expected actual) (more : List String) :
    LinesAgree expected (actual ++ more) := by
  induction h with
  | nil => exact linesAgree_nil more
  | cons hfirst _ ih => exact linesAgree_cons_iff.mpr ⟨hfirst, ih⟩

/-- If lines agree, the longer list begins with lines like those of the
shorter. -/
theorem LinesAgree.exists_append (h : LinesAgree expected actual)
    (hlength : expected.length ≤ actual.length) :
    ∃ start more, actual = start ++ more ∧ List.Forall₂ Alike expected start := by
  induction expected generalizing actual with
  | nil => exact ⟨[], actual, rfl, .nil⟩
  | cons e expected ih =>
      cases actual with
      | nil => cases hlength
      | cons a actual =>
          obtain ⟨hfirst, hrest⟩ := linesAgree_cons_iff.mp h
          obtain ⟨start, more, hactual, hforall⟩ := ih hrest (Nat.le_of_succ_le_succ hlength)
          exact ⟨a :: start, more, by rw [hactual]; rfl, .cons hfirst hforall⟩

/-- To be a proper beginning is to agree and to be shorter. -/
theorem properBeginning_iff :
    ProperBeginning expected actual
      ↔ LinesAgree expected actual ∧ expected.length < actual.length := by
  constructor
  · rintro ⟨start, more, rfl, hmore, hforall⟩
    refine ⟨linesAgree_of_forall₂ hforall more, ?_⟩
    have hpos := List.length_pos_iff.mpr hmore
    rw [hforall.length_eq, List.length_append]
    omega
  · rintro ⟨hagree, hlt⟩
    obtain ⟨start, more, rfl, hforall⟩ := hagree.exists_append (Nat.le_of_lt hlt)
    refine ⟨start, more, rfl, ?_, hforall⟩
    rintro rfl
    rw [List.append_nil, hforall.length_eq] at hlt
    exact Nat.lt_irrefl _ hlt

end Positions

-- ============================================================= reports

/-- What is to be reported of two lists of lines. -/
inductive Compared (expected actual : List String) : Except Mismatch Unit → Prop where
  | same (h : LinesAgree expected actual) (hlength : expected.length = actual.length) :
      Compared expected actual (.ok ())
  | line {k : Nat} {e a : String} (h : FirstDifference expected actual k e a) :
      Compared expected actual (.error (.line (k + 1) e a))
  | count (h : LinesAgree expected actual) (hlength : expected.length ≠ actual.length) :
      Compared expected actual (.error (.lineCount expected.length actual.length))

/-- The report with its two parts exchanged. -/
def Mismatch.swap : Mismatch → Mismatch
  | .lineCount expected actual => .lineCount actual expected
  | .line number expected actual => .line number actual expected

section Reports

variable {expected actual : List String} {r r' : Except Mismatch Unit}

/-- What comparison reports fulfils the conditions. -/
theorem compared_compareLines (expected actual : List String) :
    Compared expected actual (compareLines expected actual) := by
  unfold compareLines
  rcases firstDifference?_spec 1 expected actual with ⟨hnone, hagree⟩ | ⟨k, e, a, hsome, hfirst⟩
  · rw [hnone]
    by_cases hlength : expected.length = actual.length
    · simp only [if_pos hlength]
      exact .same hagree hlength
    · simp only [if_neg hlength]
      exact .count hagree hlength
  · rw [hsome, Nat.add_comm]
    exact .line hfirst

/-- The conditions exclude each other. -/
theorem Compared.unique (h : Compared expected actual r) (h' : Compared expected actual r') :
    r = r' := by
  cases h with
  | same hagree hlength =>
      cases h' with
      | same => rfl
      | line hfirst => exact absurd hagree hfirst.not_linesAgree
      | count _ hlength' => exact absurd hlength hlength'
  | line hfirst =>
      cases h' with
      | same hagree => exact absurd hagree hfirst.not_linesAgree
      | line hfirst' =>
          obtain ⟨rfl, rfl, rfl⟩ := hfirst.unique hfirst'
          rfl
      | count hagree => exact absurd hagree hfirst.not_linesAgree
  | count hagree hlength =>
      cases h' with
      | same _ hlength' => exact absurd hlength' hlength
      | line hfirst => exact absurd hagree hfirst.not_linesAgree
      | count => rfl

/-- So comparison reports exactly what fulfils them. -/
theorem compareLines_eq_iff : compareLines expected actual = r ↔ Compared expected actual r := by
  constructor
  · rintro rfl
    exact compared_compareLines expected actual
  · exact (compared_compareLines expected actual).unique

/-- The other way round, the two parts of a report change places. -/
theorem Compared.swap (h : Compared expected actual r) :
    Compared actual expected (r.mapError Mismatch.swap) := by
  cases h with
  | same hagree hlength => exact .same hagree.symm hlength.symm
  | line hfirst => exact .line hfirst.symm
  | count hagree hlength => exact .count hagree.symm (Ne.symm hlength)

-- ============================================================ outcomes

/-- Success: equally many lines, and all of them agree. -/
theorem compared_ok_iff :
    Compared expected actual (.ok ())
      ↔ expected.length = actual.length ∧ LinesAgree expected actual := by
  constructor
  · rintro ⟨hagree, hlength⟩
    exact ⟨hlength, hagree⟩
  · rintro ⟨hlength, hagree⟩
    exact .same hagree hlength

/-- A line is reported exactly if it is the first that differs, counted
from one. -/
theorem compared_line_iff {number : Nat} {e a : String} :
    Compared expected actual (.error (.line number e a))
      ↔ ∃ k, number = k + 1 ∧ FirstDifference expected actual k e a := by
  constructor
  · intro h
    cases h with
    | line hfirst => exact ⟨_, rfl, hfirst⟩
  · rintro ⟨k, rfl, hfirst⟩
    exact .line hfirst

/-- Differing lists have a first difference. -/
theorem exists_compared_line_iff :
    (∃ number e a, Compared expected actual (.error (.line number e a)))
      ↔ ∃ (k : Nat) (e a : String),
        expected[k]? = some e ∧ actual[k]? = some a ∧ ¬Alike e a := by
  constructor
  · rintro ⟨number, e, a, h⟩
    obtain ⟨k, -, hfirst⟩ := compared_line_iff.mp h
    exact ⟨k, e, a, hfirst.expected_at, hfirst.actual_at, hfirst.differ⟩
  · rintro ⟨k, e, a, he, ha, hdiffer⟩
    rcases firstDifference?_spec 1 expected actual with ⟨-, hagree⟩ | ⟨k', e', a', -, hfirst⟩
    · exact absurd (hagree k e a he ha) hdiffer
    · exact ⟨k' + 1, e', a', .line hfirst⟩

/-- Numbers of lines are reported exactly if one list is a proper beginning
of the other. -/
theorem compared_count_iff {m n : Nat} :
    Compared expected actual (.error (.lineCount m n))
      ↔ m = expected.length ∧ n = actual.length
        ∧ (ProperBeginning expected actual ∨ ProperBeginning actual expected) := by
  rw [properBeginning_iff, properBeginning_iff]
  constructor
  · intro h
    cases h with
    | count hagree hlength =>
        refine ⟨rfl, rfl, ?_⟩
        rcases Nat.lt_or_gt_of_ne hlength with hlt | hgt
        · exact Or.inl ⟨hagree, hlt⟩
        · exact Or.inr ⟨hagree.symm, hgt⟩
  · rintro ⟨rfl, rfl, ⟨hagree, hlt⟩ | ⟨hagree, hgt⟩⟩
    · exact .count hagree (Nat.ne_of_lt hlt)
    · exact .count hagree.symm (Nat.ne_of_gt hgt)

end Reports

/-- Comparison succeeds exactly for texts whose lines are the same in lower
case. -/
theorem compareListing_eq_ok_iff_lower {a b : String} :
    compareListing a b = .ok ()
      ↔ (significantLines a).map (·.toList.map Char.toLower)
        = (significantLines b).map (·.toList.map Char.toLower) := by
  rw [compareListing, compareLines_eq_ok_iff, ← List.forall₂_eq_eq_eq, List.forall₂_map_left_iff,
    List.forall₂_map_right_iff]
  simp only [sameLine, beq_iff_eq]

/-- Comparison is exact, and reports the first difference. It succeeds if
there are equally many lines and all agree; it reports a line if some pair
of lines differs, and then the first one, unchanged, whatever the numbers
of lines; and it reports these numbers if the lines of one text are a
beginning of those of the other. So success is an equivalence, and
exchanging the texts exchanges the two parts of a report. -/
theorem compareListing_exact :
    (∀ expected actual : String,
      let lines := significantLines expected
      let lines' := significantLines actual
      (compareListing expected actual = .ok ()
          ↔ lines.length = lines'.length ∧ LinesAgree lines lines')
        ∧ ((∃ number e a, compareListing expected actual = .error (.line number e a))
          ↔ ∃ (k : Nat) (e a : String),
            lines[k]? = some e ∧ lines'[k]? = some a ∧ ¬Alike e a)
        ∧ (∀ number e a, compareListing expected actual = .error (.line number e a)
          ↔ ∃ k, number = k + 1 ∧ FirstDifference lines lines' k e a)
        ∧ ∀ m n, compareListing expected actual = .error (.lineCount m n)
          ↔ m = lines.length ∧ n = lines'.length
            ∧ (ProperBeginning lines lines' ∨ ProperBeginning lines' lines))
      ∧ Equivalence (fun a b : String => compareListing a b = .ok ())
      ∧ ∀ expected actual : String,
          compareListing actual expected
            = (compareListing expected actual).mapError Mismatch.swap := by
  refine ⟨fun expected actual => ?_, ?_, fun expected actual => ?_⟩
  · simp only [compareListing, compareLines_eq_iff]
    exact ⟨compared_ok_iff, exists_compared_line_iff, fun _ _ _ => compared_line_iff,
      fun _ _ => compared_count_iff⟩
  · simp only [compareListing_eq_ok_iff_lower]
    exact InvImage.equivalence Eq _ eq_equivalence
  · rw [compareListing, compareLines_eq_iff]
    exact (compared_compareLines _ _).swap

/-- A line that differs is reported although a line is missing too, and the
cases of letters beyond ASCII differ. -/
example :
    compareListing "; header\n mov ax, bx\n\nÄ:\nhlt" "MOV AX, BX\r\nä:"
      = .error (.line 2 "Ä:" "ä:") := by
  decide +kernel

end Disasm8086
