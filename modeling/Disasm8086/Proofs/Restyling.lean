/-
What the layout of a text does not change. Texts that are put one below
the other have their lines that count one below the other, so these can be
looked at line by line (`significantLines_joinLines`). What may then be
done to a text without changing them are three edits (`Restyles`): lines
that are blank or comments may be inserted between any two lines, blanks
may be added around a line, and a line feed may get a carriage return in
front of it.

These edits are all there is. Any text can be had by them from its lines
that count, put one below the other (`restyled_joinLines`): what surrounds
these lines is blank, and what lies between them is blank or a comment. So
two texts have the same lines that count exactly if edits, done and
undone, lead from the one to the other (`restyled_iff`).

A line feed is a blank like any other here. Blanks with line feeds in them
that are added around a line are blank lines around it.
-/
import Disasm8086.Proofs.SignificantLines
import Mathlib.Logic.Relation

namespace Disasm8086

namespace Text

-- =========================================================== stretches

/-- A stretch has no line feed in it. -/
theorem newline_not_mem_of_mem_stretches {cs part : List Char} (h : part ∈ stretches cs) :
    '\n' ∉ part := by
  induction cs generalizing part with
  | nil =>
      rw [List.mem_singleton.mp h]
      exact List.not_mem_nil
  | cons c cs ih =>
      obtain ⟨first, rest, hparts⟩ := List.exists_cons_of_ne_nil (stretches_ne_nil cs)
      have h : part ∈ stretches.extend c (stretches cs) := h
      rw [hparts] at h ih
      unfold stretches.extend at h
      by_cases hc : c = '\n'
      · simp only [if_pos hc] at h
        rcases List.mem_cons.mp h with rfl | h
        · exact List.not_mem_nil
        · exact ih h
      · simp only [if_neg hc] at h
        rcases List.mem_cons.mp h with rfl | h
        · rw [List.mem_cons, not_or]
          exact ⟨Ne.symm hc, ih List.mem_cons_self⟩
        · exact ih (List.mem_cons_of_mem _ h)

/-- Stretches, with the line feeds back between them, are the text. -/
theorem intercalate_stretches (cs : List Char) : ['\n'].intercalate (stretches cs) = cs := by
  induction cs with
  | nil => rfl
  | cons c cs ih =>
      obtain ⟨first, rest, hparts⟩ := List.exists_cons_of_ne_nil (stretches_ne_nil cs)
      show ['\n'].intercalate (stretches.extend c (stretches cs)) = c :: cs
      rw [hparts] at ih ⊢
      unfold stretches.extend
      by_cases hc : c = '\n'
      · simp only [if_pos hc]
        rw [List.intercalate_cons_cons, ih, hc]
        rfl
      · simp only [if_neg hc]
        rw [← ih]
        cases rest with
        | nil => rfl
        | cons second rest => rfl

/-- A character at the end joins the last stretch. -/
theorem stretches_concat {cs : List Char} {init : List (List Char)} {last : List Char}
    (h : stretches cs = init ++ [last]) {c : Char} (hc : c ≠ '\n') :
    stretches (cs ++ [c]) = init ++ [last ++ [c]] := by
  induction cs generalizing init last with
  | nil =>
      obtain ⟨rfl, ⟨⟩⟩ : [] = init ∧ [[]] = [last] := List.append_inj' h rfl
      exact if_neg hc
  | cons d cs ih =>
      obtain ⟨init', last', hparts⟩ :=
        (stretches cs).eq_nil_or_concat'.resolve_left (stretches_ne_nil cs)
      have h : stretches.extend d (stretches cs) = init ++ [last] := h
      show stretches.extend d (stretches (cs ++ [c])) = init ++ [last ++ [c]]
      rw [ih hparts]
      rw [hparts] at h
      cases init' with
      | cons first rest =>
          -- the first stretch, which `d` joins, is not the last one
          rw [extend_append d (List.cons_ne_nil _ _)] at h ⊢
          obtain ⟨rfl, ⟨⟩⟩ := List.append_inj' h rfl
          rfl
      | nil =>
          by_cases hd : d = '\n'
          · obtain ⟨rfl, ⟨⟩⟩ : [[]] = init ∧ [last'] = [last] :=
              List.append_inj' ((if_pos hd).symm.trans h) rfl
            exact if_pos hd
          · obtain ⟨rfl, ⟨⟩⟩ : [] = init ∧ [d :: last'] = [last] :=
              List.append_inj' ((if_neg hd).symm.trans h) rfl
            exact if_neg hd

-- ============================================================ trimming

/-- Blanks at the start do not count. -/
theorem trim_blank_append {blanks : List Char} (h : ∀ c ∈ blanks, isBlank c = true)
    (cs : List Char) : trim (blanks ++ cs) = trim cs := by
  rw [trim, List.dropWhile_append_of_pos h, trim]

/-- What is trimmed away is blank. -/
theorem exists_eq_append_trim (cs : List Char) :
    ∃ leading trailing, cs = leading ++ trim cs ++ trailing
      ∧ (∀ c ∈ leading, isBlank c = true) ∧ ∀ c ∈ trailing, isBlank c = true := by
  refine ⟨cs.takeWhile isBlank, ((cs.dropWhile isBlank).reverse.takeWhile isBlank).reverse,
    ?_, ?_, ?_⟩
  · rw [trim, List.append_assoc, ← List.reverse_append, List.takeWhile_append_dropWhile,
      List.reverse_reverse, List.takeWhile_append_dropWhile]
  · exact fun c hc => List.mem_takeWhile_imp hc
  · exact fun c hc => List.mem_takeWhile_imp (List.mem_reverse.mp hc)

/-- Behind leading blanks the text starts with no blank. -/
theorem isBlank_of_head?_dropWhile {cs : List Char} {c : Char}
    (h : (cs.dropWhile isBlank).head? = some c) : isBlank c = false := by
  have hfirst := List.head?_dropWhile_not isBlank cs
  rw [h] at hfirst
  exact hfirst

/-- Trimming keeps the first character that is not blank. -/
theorem trim_cons_of_not_blank {c : Char} (h : isBlank c = false) (cs : List Char) :
    ∃ rest, trim (c :: cs) = c :: rest := by
  have hkeeps : (c :: cs).dropWhile isBlank = c :: cs :=
    List.dropWhile_cons_of_neg (by simp [h])
  have hlast : [c].dropWhile isBlank = [c] := List.dropWhile_cons_of_neg (by simp [h])
  rw [trim, hkeeps, List.reverse_cons, List.dropWhile_append, hlast]
  split
  · exact ⟨[], rfl⟩
  · exact ⟨(cs.reverse.dropWhile isBlank).reverse, by rw [List.reverse_append]; rfl⟩

/-- A trimmed text starts with no blank. -/
theorem head?_trim {cs : List Char} {c : Char} (h : (trim cs).head? = some c) :
    isBlank c = false := by
  cases hdrop : cs.dropWhile isBlank with
  | nil =>
      rw [trim, hdrop] at h
      cases h
  | cons d rest =>
      have hd : isBlank d = false := isBlank_of_head?_dropWhile (by rw [hdrop]; rfl)
      obtain ⟨rest', htrim⟩ := trim_cons_of_not_blank hd rest
      have hself : trim cs = trim (d :: rest) := by
        calc trim cs
            = trim (cs.takeWhile isBlank ++ cs.dropWhile isBlank) := by
              rw [List.takeWhile_append_dropWhile]
          _ = trim (cs.dropWhile isBlank) :=
              trim_blank_append (fun c hc => List.mem_takeWhile_imp hc) _
          _ = trim (d :: rest) := by rw [hdrop]
      rw [hself, htrim] at h
      cases h
      exact hd

/-- And it ends with none. -/
theorem getLast?_trim {cs : List Char} {c : Char} (h : (trim cs).getLast? = some c) :
    isBlank c = false := by
  rw [trim, List.getLast?_reverse] at h
  exact isBlank_of_head?_dropWhile h

end Text

open Text

-- ============================================================= joining

/-- Texts one below the other. -/
def joinLines (parts : List String) : String := "\n".intercalate parts

theorem joinLines_cons {parts : List String} (h : parts ≠ []) (part : String) :
    joinLines (part :: parts) = part ++ "\n" ++ joinLines parts :=
  String.intercalate_cons_of_ne_nil h

/-- The lines that count in a joined text are those that count in each
line. -/
theorem significantLines_joinLines (parts : List String) :
    significantLines (joinLines parts) = parts.flatMap significantLines := by
  induction parts with
  | nil => rfl
  | cons part rest ih =>
      by_cases hnil : rest = []
      · rw [hnil, joinLines, String.intercalate_singleton, List.flatMap_singleton]
      · rw [joinLines_cons hnil, significantLines_append, ih, List.flatMap_cons]

/-- Every text is made of unbroken ones. -/
theorem exists_joinLines (text : String) :
    ∃ parts : List String, joinLines parts = text ∧ ∀ part ∈ parts, '\n' ∉ part.toList := by
  refine ⟨(stretches text.toList).map String.ofList, ?_, ?_⟩
  · apply String.toList_injective
    have htoList : String.toList ∘ String.ofList = id := funext fun cs => String.toList_ofList
    rw [joinLines, String.toList_intercalate, List.map_map, htoList, List.map_id]
    exact intercalate_stretches text.toList
  · intro part hpart
    obtain ⟨cs, hcs, rfl⟩ := List.mem_map.mp hpart
    rw [String.toList_ofList]
    exact newline_not_mem_of_mem_stretches hcs

-- ============================================================== blanks

/-- What counts in a text, as characters. -/
def countedParts (cs : List Char) : List (List Char) :=
  ((stretches cs).map trim).filter isSignificant

/-- The same on characters. -/
theorem significantLines_eq_countedParts (text : String) :
    significantLines text = (countedParts text.toList).map String.ofList :=
  significantLines_eq text

theorem isSignificant_trim_nil : ¬isSignificant (trim []) = true := Bool.false_ne_true

/-- A blank in front does not count. -/
theorem countedParts_cons_blank {c : Char} (h : isBlank c = true) (cs : List Char) :
    countedParts (c :: cs) = countedParts cs := by
  have hblank : ∀ d ∈ [c], isBlank d = true := by simpa using h
  obtain ⟨first, rest, hparts⟩ := List.exists_cons_of_ne_nil (stretches_ne_nil cs)
  show ((stretches.extend c (stretches cs)).map trim).filter isSignificant = countedParts cs
  rw [countedParts, hparts]
  unfold stretches.extend
  by_cases hc : c = '\n'
  · simp only [if_pos hc]
    rw [List.map_cons, List.filter_cons_of_neg isSignificant_trim_nil]
  · have htrim : trim (c :: first) = trim first := trim_blank_append hblank first
    simp only [if_neg hc]
    rw [List.map_cons, htrim, List.map_cons]

theorem countedParts_concat_blank {c : Char} (h : isBlank c = true) (cs : List Char) :
    countedParts (cs ++ [c]) = countedParts cs := by
  have hblank : ∀ d ∈ [c], isBlank d = true := by simpa using h
  obtain ⟨init, last, hparts⟩ :=
    (stretches cs).eq_nil_or_concat'.resolve_left (stretches_ne_nil cs)
  by_cases hc : c = '\n'
  · have hbehind : stretches (cs ++ [c]) = stretches cs ++ [[]] := by
      rw [hc]
      exact stretches_append_newline cs []
    unfold countedParts
    rw [hbehind, List.map_append, List.filter_append, List.map_singleton,
      List.filter_cons_of_neg isSignificant_trim_nil, List.filter_nil, List.append_nil]
  · unfold countedParts
    rw [stretches_concat hparts hc, hparts, List.map_append, List.map_append,
      List.map_singleton, List.map_singleton, trim_append_blank last hblank]

/-- Nor do any number of them on both sides. -/
theorem countedParts_surround {leading trailing : List Char}
    (hleading : ∀ c ∈ leading, isBlank c = true) (htrailing : ∀ c ∈ trailing, isBlank c = true)
    (cs : List Char) : countedParts (leading ++ cs ++ trailing) = countedParts cs := by
  induction leading with
  | cons c leading ih =>
      rw [List.forall_mem_cons] at hleading
      exact (countedParts_cons_blank hleading.1 _).trans (ih hleading.2)
  | nil =>
      -- from the last blank to the first one
      rw [List.nil_append]
      induction trailing using List.reverseRecOn with
      | nil => rw [List.append_nil]
      | append_singleton trailing c ih =>
          rw [List.forall_mem_append, List.forall_mem_singleton] at htrailing
          rw [← List.append_assoc, countedParts_concat_blank htrailing.2, ih htrailing.1]

/-- A line of blanks. -/
def BlankLine (line : String) : Prop := ∀ c ∈ line.toList, isBlank c = true

/-- A line with a semicolon in front, but for blanks. -/
def CommentLine (line : String) : Prop :=
  ∃ leading text : String, line = leading ++ ";" ++ text ∧ BlankLine leading ∧ '\n' ∉ text.toList

theorem blankLine_empty : BlankLine "" := fun _ hc => absurd hc List.not_mem_nil

/-- Blanks around a text do not count. -/
theorem significantLines_surround {leading trailing : String} (hleading : BlankLine leading)
    (htrailing : BlankLine trailing) (text : String) :
    significantLines (leading ++ text ++ trailing) = significantLines text := by
  rw [significantLines_eq_countedParts, significantLines_eq_countedParts, String.toList_append,
    String.toList_append, countedParts_surround hleading htrailing]

theorem BlankLine.significantLines_eq {line : String} (h : BlankLine line) :
    significantLines line = [] := by
  have hsurround := significantLines_surround h blankLine_empty ""
  rw [String.append_empty, String.append_empty] at hsurround
  exact hsurround

-- =============================================================== lines

/-- One line counts as itself, trimmed, or not at all. -/
theorem significantLines_of_unbroken {part : String} (h : '\n' ∉ part.toList) :
    significantLines part
      = if isSignificant (trim part.toList) = true then [String.ofList (trim part.toList)]
        else [] := by
  rw [significantLines_eq, stretches_of_unbroken h, List.map_singleton, List.filter_singleton]
  cases isSignificant (trim part.toList) <;> rfl

theorem CommentLine.significantLines_eq {line : String} (h : CommentLine line) :
    significantLines line = [] := by
  obtain ⟨leading, text, rfl, hleading, htext⟩ := h
  have hsurround := significantLines_surround hleading blankLine_empty (";" ++ text)
  have htoList : (";" ++ text).toList = ';' :: text.toList := by simp
  have hunbroken : '\n' ∉ (";" ++ text).toList := by
    rw [htoList, List.mem_cons, not_or]
    exact ⟨by decide, htext⟩
  obtain ⟨rest, htrim⟩ := trim_cons_of_not_blank (c := ';') rfl text.toList
  rw [String.append_empty, ← String.append_assoc, significantLines_of_unbroken hunbroken, htoList,
    htrim] at hsurround
  exact hsurround

/-- A trimmed line counts if there is something and no comment. -/
theorem isSignificant_iff {cs : List Char} :
    isSignificant cs = true ↔ cs ≠ [] ∧ cs.head? ≠ some ';' := by
  rw [isSignificant, Bool.and_eq_true, Bool.not_eq_true', List.isEmpty_eq_false_iff, bne_iff_ne]

/-- What is left of an unbroken text by trimming is a line of its own, if it
counts. -/
theorem ownLine_trim {cs : List Char} (hunbroken : '\n' ∉ cs)
    (hcounts : isSignificant (trim cs) = true) : OwnLine (String.ofList (trim cs)) := by
  obtain ⟨hne, hcomment⟩ := isSignificant_iff.mp hcounts
  obtain ⟨leading, trailing, hcs, -, -⟩ := exists_eq_append_trim cs
  constructor
  case nonempty => simpa using hne
  case unbroken =>
    rw [String.toList_ofList]
    intro hmem
    apply hunbroken
    rw [hcs]
    exact List.mem_append_left _ (List.mem_append_right _ hmem)
  case leading =>
    rw [String.toList_ofList]
    exact fun c hc => head?_trim hc
  case trailing =>
    rw [String.toList_ofList]
    exact fun c hc => getLast?_trim hc
  case uncommented =>
    rw [String.toList_ofList]
    exact hcomment

/-- A text of which trimming leaves nothing, or a semicolon in front, is
blank or a comment. -/
theorem blank_or_comment {part : String} (hunbroken : '\n' ∉ part.toList)
    (h : ¬isSignificant (trim part.toList) = true) : BlankLine part ∨ CommentLine part := by
  obtain ⟨leading, trailing, hpart, hleading, htrailing⟩ := exists_eq_append_trim part.toList
  rw [isSignificant_iff, not_and, not_not] at h
  by_cases hempty : trim part.toList = []
  · left
    intro c hc
    rw [hpart, hempty, List.append_nil] at hc
    rcases List.mem_append.mp hc with hc | hc
    · exact hleading c hc
    · exact htrailing c hc
  · right
    obtain ⟨text, htrim⟩ := List.head?_eq_some_iff.mp (h hempty)
    rw [htrim] at hpart
    refine ⟨String.ofList leading, String.ofList (text ++ trailing), ?_, ?_, ?_⟩
    · apply String.toList_injective
      rw [hpart]
      simp
    · intro c hc
      rw [String.toList_ofList] at hc
      exact hleading c hc
    · rw [String.toList_ofList]
      intro hmem
      apply hunbroken
      rw [hpart, List.append_assoc]
      exact List.mem_append_right _ (List.mem_cons_of_mem _ hmem)

/-- An unbroken text is a line that does not count, or blanks surround one
that does. -/
theorem unbroken_cases {part : String} (hunbroken : '\n' ∉ part.toList) :
    (significantLines part = [] ∧ (BlankLine part ∨ CommentLine part))
      ∨ ∃ leading line trailing : String, part = leading ++ line ++ trailing
        ∧ BlankLine leading ∧ BlankLine trailing ∧ OwnLine line
        ∧ significantLines part = [line] := by
  by_cases hcounts : isSignificant (trim part.toList) = true
  · right
    obtain ⟨leading, trailing, hpart, hleading, htrailing⟩ := exists_eq_append_trim part.toList
    refine ⟨String.ofList leading, String.ofList (trim part.toList), String.ofList trailing,
      ?_, ?_, ?_, ownLine_trim hunbroken hcounts, ?_⟩
    · apply String.toList_injective
      simpa using hpart
    · rw [BlankLine, String.toList_ofList]
      exact hleading
    · rw [BlankLine, String.toList_ofList]
      exact htrailing
    · rw [significantLines_of_unbroken hunbroken, if_pos hcounts]
  · left
    refine ⟨?_, blank_or_comment hunbroken hcounts⟩
    rw [significantLines_of_unbroken hunbroken, if_neg hcounts]

/-- A line that counts is trimmed, unbroken and no comment. -/
theorem ownLine_of_mem_significantLines {text line : String} (h : line ∈ significantLines text) :
    OwnLine line := by
  obtain ⟨parts, rfl, hunbroken⟩ := exists_joinLines text
  rw [significantLines_joinLines] at h
  obtain ⟨part, hpart, hline⟩ := List.mem_flatMap.mp h
  rcases unbroken_cases (hunbroken part hpart) with ⟨hnone, -⟩ | ⟨_, _, _, -, -, -, hown, hone⟩
  · rw [hnone] at hline
    cases hline
  · rw [hone] at hline
    rw [List.mem_singleton.mp hline]
    exact hown

/-- So what counts in a text can be taken out and put together, and it
counts again. -/
theorem significantLines_joinLines_self (text : String) :
    significantLines (joinLines (significantLines text)) = significantLines text :=
  significantLines_intercalate fun _ h => ownLine_of_mem_significantLines h

-- =============================================================== edits

/-- One edit of the layout of a text. -/
inductive Restyles : String → String → Prop where
  /-- Lines that do not count, between any two lines or at an end. -/
  | insert (above below : List String) {extra : List String}
      (h : ∀ line ∈ extra, BlankLine line ∨ CommentLine line) :
      Restyles (joinLines (above ++ below)) (joinLines (above ++ extra ++ below))
  /-- Blanks around a line. -/
  | surround (above below : List String) (line : String) {leading trailing : String}
      (hleading : BlankLine leading) (htrailing : BlankLine trailing) :
      Restyles (joinLines (above ++ [line] ++ below))
        (joinLines (above ++ [leading ++ line ++ trailing] ++ below))
  /-- A carriage return in front of a line feed. -/
  | lineEnd (before behind : String) :
      Restyles (before ++ "\n" ++ behind) (before ++ "\r\n" ++ behind)

/-- No edit changes what counts. -/
theorem Restyles.significantLines_eq {text text' : String} (h : Restyles text text') :
    significantLines text' = significantLines text := by
  cases h with
  | @insert above below extra h =>
      have hnone : extra.flatMap significantLines = [] := by
        rw [List.flatMap_eq_nil_iff]
        intro line hline
        rcases h line hline with hblank | hcomment
        · exact hblank.significantLines_eq
        · exact hcomment.significantLines_eq
      simp only [significantLines_joinLines, List.flatMap_append, hnone, List.append_nil]
  | surround above below line hleading htrailing =>
      simp only [significantLines_joinLines, List.flatMap_append, List.flatMap_singleton,
        significantLines_surround hleading htrailing]
  | lineEnd before behind =>
      have hreturn : BlankLine "\r" := by
        intro c hc
        rw [List.mem_singleton.mp hc]
        rfl
      have htext : before ++ "\r\n" ++ behind = ("" ++ before ++ "\r") ++ "\n" ++ behind := by
        apply String.toList_injective
        simp
      rw [htext, significantLines_append, significantLines_surround blankLine_empty hreturn,
        significantLines_append]

/-- Edits lead from the lines that count to the lines that there are. -/
theorem restyled_joinLines {parts : List String} (h : ∀ part ∈ parts, '\n' ∉ part.toList)
    (above : List String) :
    Relation.ReflTransGen Restyles (joinLines (above ++ parts.flatMap significantLines))
      (joinLines (above ++ parts)) := by
  -- from the top down: `above` is what has its final form
  induction parts generalizing above with
  | nil => exact .refl
  | cons part rest ih =>
      rw [List.forall_mem_cons] at h
      have hrest := ih h.2 (above ++ [part])
      rw [List.flatMap_cons, List.append_cons above part rest]
      rcases unbroken_cases h.1 with
        ⟨hnone, hkind⟩ | ⟨leading, line, trailing, hpart, hleading, htrailing, -, hone⟩
      · rw [hnone, List.nil_append]
        exact .head (.insert above _ (List.forall_mem_singleton.mpr hkind)) hrest
      · rw [hone, ← List.append_assoc]
        rw [hpart] at hrest ⊢
        exact .head (.surround above _ line hleading htrailing) hrest

/-- Two texts have the same lines that count exactly if edits, done and
undone, lead from the one to the other. -/
theorem restyled_iff {text text' : String} :
    Relation.EqvGen Restyles text text' ↔ significantLines text = significantLines text' := by
  have hlines : ∀ t : String, Relation.EqvGen Restyles (joinLines (significantLines t)) t := by
    intro t
    obtain ⟨parts, rfl, hunbroken⟩ := exists_joinLines t
    rw [significantLines_joinLines]
    exact Relation.EqvGen.reflTransGen_le_eqvGen Restyles _ _
      (restyled_joinLines hunbroken [])
  constructor
  · intro h
    induction h with
    | rel _ _ h => exact h.significantLines_eq.symm
    | refl => rfl
    | symm _ _ _ ih => exact ih.symm
    | trans _ _ _ _ _ ih ih' => exact ih.trans ih'
  · intro h
    have htext' := hlines text'
    rw [← h] at htext'
    exact (hlines text).symm.trans _ _ _ htext'

/-- The lines that count are put together from those of the parts of a text.
They are all that the layout leaves unchanged: neither lines that do not
count, nor blanks around a line, nor the kind of line ends make a
difference to them, and texts that have the same ones differ in nothing
else. Lines that count are their own lines that count. -/
theorem significantLines_of_layout :
    (∀ a b : String, significantLines (a ++ "\n" ++ b) = significantLines a ++ significantLines b)
      ∧ (∀ text text' : String,
          Relation.EqvGen Restyles text text'
            ↔ significantLines text = significantLines text')
      ∧ ∀ text : String,
          significantLines (joinLines (significantLines text)) = significantLines text :=
  ⟨significantLines_append, fun _ _ => restyled_iff, significantLines_joinLines_self⟩

end Disasm8086
