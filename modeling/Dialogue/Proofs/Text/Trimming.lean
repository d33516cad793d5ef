import Dialogue.Text.Blank
import Mathlib.Data.List.DropRight

/-!
# Trimming and cutting

A trimmed text begins and ends with characters that are not blank, so that trimming it again changes
nothing. What stands between two such characters, blank or not, is never touched.

Main results:

* `Text.trimEnd_append`, `Text.trimEnd_cons` — only the end of a text is trimmed at its end.
* `Text.trim_trim` — trimming twice is trimming once.
* `Text.trim_pad`, `Text.exists_pads` — what trimming takes away are blank characters around the text.
* `Text.trim_append_cons` — a character that is not blank keeps the two sides of it apart.
* `Text.cut?_append` — a text is cut at the first character of the class, and not later.
* `Text.fields_intercalate` — the parts between separators are those that the text was written from.
-/

namespace Dialogue.Text

/-! ## Trimming -/

theorem trimEnd_eq (text : List Char) : trimEnd text = text.rdropWhile isBlank := rfl

theorem trim_eq (text : List Char) : trim text = trimEnd (text.dropWhile isBlank) := rfl

theorem trimEnd_isPrefix (text : List Char) : trimEnd text <+: text := text.rdropWhile_prefix isBlank

theorem trim_sublist (text : List Char) : (trim text).Sublist text :=
  (trimEnd_isPrefix _).sublist.trans (List.dropWhile_sublist _)

/-- Where something is left of the second part, all of the first part is left. -/
theorem trimEnd_append (text : List Char) {more : List Char} (hMore : trimEnd more ≠ []) :
    trimEnd (text ++ more) = text ++ trimEnd more := by
  have hRest : ¬ (more.reverse.dropWhile isBlank).isEmpty := by
    rw [List.isEmpty_iff]
    exact fun hNil => hMore (congrArg List.reverse hNil)
  rw [trimEnd, List.reverse_append, List.dropWhile_append, if_neg hRest, List.reverse_append,
    List.reverse_reverse]
  rfl

/-- A character that is not blank is left, whatever stands behind it. -/
theorem trimEnd_cons {c : Char} (hSolid : isBlank c = false) (text : List Char) :
    trimEnd (c :: text) = c :: trimEnd text := by
  by_cases hNil : trimEnd text = []
  · -- all that stands behind it is blank
    have hBlank : ∀ b ∈ text, isBlank b = true := List.rdropWhile_eq_nil_iff.mp hNil
    rw [hNil, trimEnd, List.reverse_cons, List.dropWhile_append,
      List.dropWhile_eq_nil_iff.mpr (by simpa using hBlank)]
    simp [hSolid]
  · exact trimEnd_append [c] hNil

/-- What does not start with a blank character is trimmed at its end alone. -/
theorem trim_cons {c : Char} (hSolid : isBlank c = false) (text : List Char) :
    trim (c :: text) = c :: trimEnd text := by
  rw [trim_eq, List.dropWhile_cons_of_neg (by simp [hSolid]), trimEnd_cons hSolid]

/-- Blank characters in front do not count. -/
theorem trim_append {blanks : List Char} (hBlank : ∀ b ∈ blanks, isBlank b = true)
    (text : List Char) : trim (blanks ++ text) = trim text := by
  rw [trim_eq, trim_eq, List.dropWhile_append_of_pos hBlank]

/-- What is left of a text starts where its blank characters end. -/
theorem dropWhile_of_trim {text rest : List Char} {c : Char} (hTrim : trim text = c :: rest) :
    ∃ behind, text.dropWhile isBlank = c :: behind ∧ rest <+: behind ∧ isBlank c = false := by
  obtain ⟨tail, hTail⟩ := trimEnd_isPrefix (text.dropWhile isBlank)
  rw [← trim_eq, hTrim, List.cons_append] at hTail
  refine ⟨rest ++ tail, hTail.symm, List.prefix_append .., ?_⟩
  have hHead := List.head?_dropWhile_not isBlank text
  rw [← hTail, List.head?_cons] at hHead
  simpa using hHead

/-- Trimming twice is trimming once. -/
theorem trim_trim (text : List Char) : trim (trim text) = trim text := by
  cases hTrim : trim text with
  | nil => rfl
  | cons c rest =>
    obtain ⟨behind, hBehind, -, hSolid⟩ := dropWhile_of_trim hTrim
    rw [trim_eq, hBehind, trimEnd_cons hSolid, List.cons.injEq] at hTrim
    obtain ⟨-, rfl⟩ := hTrim
    rw [trim_cons hSolid, trimEnd_eq, trimEnd_eq, List.rdropWhile_idempotent]

/-- A text that is trimmed is trimmed at its end. -/
theorem trimEnd_of_trim {text : List Char} (hTrim : trim text = text) : trimEnd text = text := by
  refine List.IsPrefix.eq_of_length_le (trimEnd_isPrefix text) ?_
  -- trimming at both ends leaves no more than trimming at the end
  have hLength : (trim text).length ≤ (trimEnd text).length := by
    have hSplit : text.takeWhile isBlank ++ text.dropWhile isBlank = text :=
      List.takeWhile_append_dropWhile
    by_cases hNil : trim text = []
    · rw [hNil]
      exact Nat.zero_le _
    · have hEnd := trimEnd_append (text.takeWhile isBlank) (by rwa [trim_eq] at hNil)
      rw [hSplit, ← trim_eq] at hEnd
      rw [hEnd, List.length_append]
      exact Nat.le_add_left _ _
  rwa [hTrim] at hLength

/-- Blank characters at the end do not count. -/
theorem trimEnd_append_blank (text : List Char) {blanks : List Char}
    (hBlank : ∀ b ∈ blanks, isBlank b = true) : trimEnd (text ++ blanks) = trimEnd text := by
  rw [trimEnd, List.reverse_append, List.dropWhile_append_of_pos (by simpa using hBlank)]
  rfl

/-- The two ends of a text are trimmed independently of each other. -/
theorem trimStart_trimEnd (text : List Char) : trimStart (trimEnd text) = trim text := by
  induction text with
  | nil => rfl
  | cons c rest ih =>
    cases hBlank : isBlank c with
    | false =>
      rw [trimEnd_cons hBlank, trim_cons hBlank, trimStart,
        List.dropWhile_cons_of_neg (by simp [hBlank])]
    | true =>
      have hFront : ∀ b ∈ [c], isBlank b = true := by simpa using hBlank
      rw [← List.singleton_append, trim_append hFront, ← ih]
      by_cases hNil : trimEnd rest = []
      · -- nothing but blank characters
        have hAll : ∀ b ∈ rest, isBlank b = true := List.rdropWhile_eq_nil_iff.mp hNil
        rw [trimEnd_append_blank [c] hAll, hNil]
        simp [trimEnd, trimStart, hBlank]
      · rw [trimEnd_append [c] hNil, trimStart, List.dropWhile_append_of_pos hFront]
        rfl

/-- A character that is not blank keeps the two sides of it apart. -/
theorem trim_append_cons {c : Char} (hSolid : isBlank c = false) (front behind : List Char) :
    trim (front ++ c :: behind) = trimStart front ++ c :: trimEnd behind := by
  rw [← trimStart_trimEnd, trimEnd_append front (by simp [trimEnd_cons hSolid]), trimEnd_cons hSolid,
    trimStart, trimStart, List.dropWhile_append]
  split
  · rename_i hEmpty
    rw [List.isEmpty_iff.mp hEmpty, List.dropWhile_cons_of_neg (by simp [hSolid])]
    rfl
  · rfl

theorem trimStart_of_trim {text : List Char} (hTrim : trim text = text) : trimStart text = text := by
  have hBoth := trimStart_trimEnd text
  rwa [trimEnd_of_trim hTrim, hTrim] at hBoth

/-- Where no character is blank, nothing is trimmed. -/
theorem trim_of_solid {text : List Char} (hSolid : ∀ c ∈ text, isBlank c = false) :
    trim text = text := by
  have hStart : text.dropWhile isBlank = text := by
    rw [List.dropWhile_eq_self_iff]
    intro hSome
    simp [hSolid _ (List.getElem_mem hSome)]
  rw [trim_eq, hStart, trimEnd_eq, List.rdropWhile_eq_self_iff]
  intro hSome
  simp [hSolid _ (List.getLast_mem hSome)]

/-- Trimmed parts stay as they are when they are put together. -/
theorem trim_intercalate {separator : Char} (hSolid : isBlank separator = false)
    {parts : List (List Char)} (hParts : ∀ part ∈ parts, trim part = part) :
    trim ([separator].intercalate parts) = [separator].intercalate parts := by
  induction parts with
  | nil => rfl
  | cons part rest ih =>
    have hPart := hParts part List.mem_cons_self
    cases rest with
    | nil => simpa using hPart
    | cons next others =>
      have hRest := ih fun other hMem => hParts other (List.mem_cons_of_mem part hMem)
      rw [List.intercalate_cons_cons, List.append_assoc, List.singleton_append,
        trim_append_cons hSolid, trimStart_of_trim hPart, trimEnd_of_trim hRest]

/-- Blank characters around a text do not count. -/
theorem trim_pad {before behind : List Char} (hBefore : ∀ b ∈ before, isBlank b = true)
    (hBehind : ∀ b ∈ behind, isBlank b = true) (text : List Char) :
    trim (before ++ text ++ behind) = trim text := by
  rw [← trimStart_trimEnd, trimEnd_append_blank _ hBehind, trimStart_trimEnd, trim_append hBefore]

/-- What trimming takes away is blank. -/
theorem exists_pads (text : List Char) : ∃ before behind, text = before ++ trim text ++ behind ∧
    (∀ b ∈ before, isBlank b = true) ∧ ∀ b ∈ behind, isBlank b = true := by
  refine ⟨text.takeWhile isBlank, (text.dropWhile isBlank).rtakeWhile isBlank, ?_,
    fun b hMem => List.mem_takeWhile_imp hMem, fun b hMem => List.mem_rtakeWhile_imp hMem⟩
  rw [trim_eq, trimEnd_eq, List.append_assoc, List.rdropWhile_append_rtakeWhile,
    List.takeWhile_append_dropWhile]

/-! ## Cutting -/

/-- A text is cut at the first character of the class. -/
theorem cut?_append {isCut : Char → Bool} {front : List Char} (hFront : ∀ c ∈ front, isCut c = false)
    {c : Char} (hCut : isCut c = true) (rest : List Char) :
    cut? isCut (front ++ c :: rest) = some (front, rest) := by
  induction front with
  | nil => simp [cut?, hCut]
  | cons first others ih =>
    have hOthers := ih fun d hMem => hFront d (List.mem_cons_of_mem _ hMem)
    simp [cut?, hFront first (List.mem_cons_self ..), hOthers]

theorem cut?_eq_none {isCut : Char → Bool} {text : List Char} (hNone : ∀ c ∈ text, isCut c = false) :
    cut? isCut text = none := by
  induction text with
  | nil => rfl
  | cons first others ih =>
    have hOthers := ih fun d hMem => hNone d (List.mem_cons_of_mem _ hMem)
    simp [cut?, hNone first (List.mem_cons_self ..), hOthers]

/-- A text that is cut falls apart into what is before the cut, the character, and what is behind it. -/
theorem exists_of_cut? {isCut : Char → Bool} {text front rest : List Char}
    (hCut : cut? isCut text = some (front, rest)) :
    ∃ c, text = front ++ c :: rest ∧ isCut c = true ∧ ∀ d ∈ front, isCut d = false := by
  induction text generalizing front with
  | nil => cases hCut
  | cons c others ih =>
    rw [cut?] at hCut
    split at hCut
    · rename_i hHere
      cases hCut
      exact ⟨c, rfl, hHere, fun d hMem => by cases hMem⟩
    · rename_i hOther
      obtain ⟨⟨before, behind⟩, hOthers, hEq⟩ := Option.map_eq_some_iff.mp hCut
      cases hEq
      obtain ⟨found, hSplit, hFound, hBefore⟩ := ih hOthers
      refine ⟨found, by rw [hSplit, List.cons_append], hFound, ?_⟩
      intro d hMem
      rcases List.mem_cons.mp hMem with rfl | hMem
      · exact Bool.eq_false_iff.mpr hOther
      · exact hBefore d hMem

/-- What stands behind the cut comes from the text. -/
theorem suffix_of_cut? {isCut : Char → Bool} {text front rest : List Char}
    (hCut : cut? isCut text = some (front, rest)) : rest <:+ text := by
  obtain ⟨c, rfl, -, -⟩ := exists_of_cut? hCut
  exact (List.suffix_cons c rest).trans (List.suffix_append ..)

/-! ## Fields -/

theorem fields_eq_splitOn (separator : Char) (text : List Char) :
    fields separator text = text.splitOn separator := by
  induction text with
  | nil => rfl
  | cons c rest ih =>
    rw [fields, ih, List.splitOn_eq_splitOnP, List.splitOn_eq_splitOnP,
      List.splitOnP_cons_eq_if_modifyHead]
    simp only [beq_iff_eq]
    cases hRest : rest.splitOnP (· == separator) with
    | nil => exact absurd hRest (List.splitOnP_ne_nil _ _)
    | cons field others => rfl

/-- The parts of a list with separators are the parts that it was written from. -/
theorem fields_intercalate {separator : Char} {parts : List (List Char)}
    (hParts : ∀ part ∈ parts, separator ∉ part) (hSome : parts ≠ []) :
    fields separator ([separator].intercalate parts) = parts := by
  rw [fields_eq_splitOn, List.splitOn_intercalate separator hParts hSome]

/-- Putting parts together brings in no character but the separator. -/
theorem not_mem_intercalate {c separator : Char} (hOther : c ≠ separator) {parts : List (List Char)}
    (hParts : ∀ part ∈ parts, c ∉ part) : c ∉ [separator].intercalate parts := by
  induction parts with
  | nil => exact List.not_mem_nil
  | cons part rest ih =>
    have hPart := hParts part List.mem_cons_self
    have hRest := ih fun other hMem => hParts other (List.mem_cons_of_mem part hMem)
    cases rest with
    | nil => simpa using hPart
    | cons next others =>
      rw [List.intercalate_cons_cons, List.mem_append, List.mem_append, List.mem_singleton]
      exact not_or.mpr ⟨not_or.mpr ⟨hPart, hOther⟩, hRest⟩

/-- No part holds the separator. -/
theorem separator_not_mem_fields {separator : Char} {text field : List Char}
    (hField : field ∈ fields separator text) : separator ∉ field := by
  induction text generalizing field with
  | nil =>
    rw [List.mem_singleton.mp hField]
    exact List.not_mem_nil
  | cons c rest ih =>
    rw [fields] at hField
    split at hField
    · rcases List.mem_cons.mp hField with rfl | hRest
      · exact List.not_mem_nil
      · exact ih hRest
    · rename_i hOther
      cases hFields : fields separator rest with
      | nil =>
        rw [hFields, List.mem_singleton] at hField
        rw [hField, List.mem_singleton]
        exact fun hEq => hOther hEq.symm
      | cons first others =>
        rw [hFields] at hField ih
        rcases List.mem_cons.mp hField with rfl | hRest
        · -- the character joins the first part
          intro hMem
          rcases List.mem_cons.mp hMem with hEq | hMem
          · exact hOther hEq.symm
          · exact ih (List.mem_cons_self ..) hMem
        · exact ih (List.mem_cons_of_mem _ hRest)
end Dialogue.Text
