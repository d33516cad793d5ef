import Dialogue.Scrap.Basic

/-!
# Open paragraphs

Text goes to the end of a section, into its last paragraph while that one is open. This module says what
the ways to change a section do to its open paragraph; the modules on talks cite these and do not look
into lists of paragraphs.

Main results:

* `Section.modifyOpen_of_split`, `Section.modifyOpen_of_none` — what changing the open paragraph does.
* `Section.openParagraph?_modifyOpen_close`, `Section.openParagraph?_push` — which paragraph is open then.
* `Section.close_modifyOpen_close` — whoever ends a section need not end its paragraph before.
-/

namespace Dialogue

/-- What has been closed is closed. -/
theorem Paragraph.closed_close (paragraph : Paragraph) : paragraph.close.closed = true := by
  unfold close
  split
  · assumption
  · rfl

namespace Section

variable (sect : Section)

/-! ## The open paragraph -/

/-- The open paragraph is the last one, if that has not been closed. -/
theorem openParagraph?_eq_some {sect : Section} {paragraph : Paragraph} :
    sect.openParagraph? = some paragraph ↔
      (∃ earlier, sect.paragraphs = earlier ++ [paragraph]) ∧ paragraph.closed = false := by
  rw [openParagraph?, Option.filter_eq_some_iff, List.getLast?_eq_some_iff]
  simp

/-- Where no paragraph is open nothing is modified. -/
theorem modifyOpen_of_none {sect : Section} (hNone : sect.openParagraph? = none)
    (f : Paragraph → Paragraph) : sect.modifyOpen f = sect := by
  have hClosed : sect.hasOpenParagraph = false := by
    rw [hasOpenParagraph, hNone]
    rfl
  simp [modifyOpen, hClosed]

/-- Where a paragraph is open only that one is modified. -/
theorem modifyOpen_of_split {sect : Section} {earlier : List Paragraph} {paragraph : Paragraph}
    (hSplit : sect.paragraphs = earlier ++ [paragraph]) (hOpen : paragraph.closed = false)
    (f : Paragraph → Paragraph) :
    sect.modifyOpen f = { sect with paragraphs := earlier ++ [f paragraph] } := by
  have hSome : sect.openParagraph? = some paragraph :=
    openParagraph?_eq_some.mpr ⟨⟨earlier, hSplit⟩, hOpen⟩
  have hHas : sect.hasOpenParagraph = true := by
    rw [hasOpenParagraph, hSome]
    rfl
  simp [modifyOpen, hHas, hSplit]

/-- Modifying adds no paragraph. -/
theorem length_modifyOpen (f : Paragraph → Paragraph) :
    (sect.modifyOpen f).paragraphs.length = sect.paragraphs.length := by
  cases hOpen : sect.openParagraph? with
  | none => rw [modifyOpen_of_none hOpen]
  | some paragraph =>
    obtain ⟨⟨earlier, hSplit⟩, hOpen⟩ := openParagraph?_eq_some.mp hOpen
    rw [modifyOpen_of_split hSplit hOpen, hSplit]
    simp

/-! ## Ending a paragraph -/

/-- After closing none is open. -/
theorem openParagraph?_modifyOpen_close :
    (sect.modifyOpen Paragraph.close).openParagraph? = none := by
  cases hOpen : sect.openParagraph? with
  | none => rw [modifyOpen_of_none hOpen, hOpen]
  | some paragraph =>
    obtain ⟨⟨earlier, hSplit⟩, hOpen⟩ := openParagraph?_eq_some.mp hOpen
    rw [modifyOpen_of_split hSplit hOpen]
    -- the last paragraph is closed now
    simp [openParagraph?, paragraph.closed_close]

/-- Whoever ends a section need not end its paragraph before. -/
theorem close_modifyOpen_close {sect : Section} (hOpen : sect.terminal = none) :
    (sect.modifyOpen Paragraph.close).close = sect.close := by
  have hTerminal : (sect.modifyOpen Paragraph.close).terminal = none := by
    rw [modifyOpen]
    split <;> exact hOpen
  have hBefore : sect.isClosed = false := by
    rw [isClosed, hOpen]
    rfl
  have hAfter : (sect.modifyOpen Paragraph.close).isClosed = false := by
    rw [isClosed, hTerminal]
    rfl
  -- no paragraph is open any more, so that closing again does nothing
  have hTwice : (sect.modifyOpen Paragraph.close).modifyOpen Paragraph.close =
      sect.modifyOpen Paragraph.close :=
    modifyOpen_of_none sect.openParagraph?_modifyOpen_close _
  simp only [close, hBefore, hAfter, hTwice]
  rfl

/-! ## Starting a paragraph, and writing into it -/

theorem openParagraph?_push (actor : String) :
    (sect.push (.empty actor)).openParagraph? = some (.empty actor) :=
  openParagraph?_eq_some.mpr ⟨⟨sect.paragraphs, rfl⟩, rfl⟩

/-- What is appended goes to the open paragraph. -/
theorem openParagraph?_modifyOpen_append (items : List Item) :
    (sect.modifyOpen (·.append items)).openParagraph? =
      sect.openParagraph?.map (·.append items) := by
  cases hOpen : sect.openParagraph? with
  | none =>
    rw [modifyOpen_of_none hOpen, hOpen]
    rfl
  | some paragraph =>
    obtain ⟨⟨earlier, hSplit⟩, hOpen⟩ := openParagraph?_eq_some.mp hOpen
    rw [modifyOpen_of_split hSplit hOpen]
    exact openParagraph?_eq_some.mpr ⟨⟨earlier, rfl⟩, hOpen⟩

end Section

end Dialogue
