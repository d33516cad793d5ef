import Dialogue.Proofs.Scrap.Places

/-!
# Growth of a scrap

Writing only adds: every place keeps its entry, and what is new is visible and does not fade.
`Extends` says so of two look-ups of entries, for the positions of a paragraph, the slots of a
section and the places of a scrap alike. `Retains` says only the first half, which holds of whatever is
put at an end, fresh or not.

Main results:

* `Paragraph.retains_append`, `Section.retains_push`, `Scrap.retains_push` — what is put at an end moves
  nothing.
* `Paragraph.extends_append`, `Paragraph.extends_close` — a paragraph only grows.
* `Section.extends_modifyOpen`, `Section.extends_close` — so does its section.
* `Scrap.extends_modifySection`, `Scrap.extends_push` — and so does the scrap.
-/

namespace Dialogue

/-- An entry that was never hidden. -/
def Entry.IsFresh (entry : Entry) : Prop := entry.visible = true ∧ entry.fading = false

theorem Entry.isFresh_unpaced (content : Content) (tier : Option Tier) :
    (Entry.unpaced content tier).IsFresh := ⟨rfl, rfl⟩

/-- Every entry of `old` is in `new`, at the same address. -/
def Retains {α : Type} (old new : α → Option Entry) : Prop :=
  ∀ ⦃a e⦄, old a = some e → new a = some e

theorem Retains.refl {α : Type} (look : α → Option Entry) : Retains look look :=
  fun _ _ hAt => hAt

theorem Retains.trans {α : Type} {first second third : α → Option Entry}
    (h : Retains first second) (h' : Retains second third) : Retains first third :=
  fun _ _ hAt => h' (h hAt)

/-- Every entry of `old` is in `new`, at the same address; all else in `new` is fresh. -/
structure Extends {α : Type} (old new : α → Option Entry) : Prop where
  keeps : ∀ {a e}, old a = some e → new a = some e
  fresh : ∀ {a e}, new a = some e → old a = some e ∨ e.IsFresh

namespace Extends

variable {α : Type} {first second third : α → Option Entry}

theorem retains (h : Extends first second) : Retains first second := fun _ _ hAt => h.keeps hAt

theorem refl (look : α → Option Entry) : Extends look look := ⟨id, .inl⟩

theorem trans (h : Extends first second) (h' : Extends second third) : Extends first third where
  keeps hAt := h'.keeps (h.keeps hAt)
  fresh hAt := by
    rcases h'.fresh hAt with hAt | hFresh
    · exact h.fresh hAt
    · exact .inr hFresh

end Extends

/-! ## Paragraphs -/

namespace Paragraph

/-- Behind what is appended the items stay where they are. -/
theorem retains_append (paragraph : Paragraph) (items : List Item) :
    Retains paragraph.entryAt? (paragraph.append items).entryAt? := by
  intro i e hAt
  obtain ⟨item, hItem, -⟩ := Option.bind_eq_some_iff.mp hAt
  have hLt : i < paragraph.items.length := (List.getElem?_eq_some_iff.mp hItem).1
  simp only [entryAt?, append, List.getElem?_append_left hLt]
  exact hAt

/-- Only fresh entries are appended. -/
theorem extends_append (paragraph : Paragraph) {items : List Item}
    (hFresh : ∀ item ∈ items, ∀ e, item.entry? = some e → e.IsFresh) :
    Extends paragraph.entryAt? (paragraph.append items).entryAt? where
  keeps hAt := paragraph.retains_append items hAt
  fresh {i e} hAt := by
    simp only [entryAt?, append] at hAt ⊢
    by_cases hLt : i < paragraph.items.length
    · rw [List.getElem?_append_left hLt] at hAt
      exact .inl hAt
    · rw [List.getElem?_append_right (by omega)] at hAt
      obtain ⟨item, hItem, hEntry⟩ := Option.bind_eq_some_iff.mp hAt
      exact .inr (hFresh item (List.mem_of_getElem? hItem) e hEntry)

/-- Closing a paragraph puts fresh pauses behind it, or nothing. -/
theorem extends_close (paragraph : Paragraph) :
    Extends paragraph.entryAt? paragraph.close.entryAt? := by
  unfold close
  split
  · exact .refl _
  · refine paragraph.extends_append ?_
    intro item hMem e hEntry
    rw [List.mem_singleton.mp hMem] at hEntry
    cases hEntry
    exact Entry.isFresh_unpaced _ _

end Paragraph

/-! ## Sections -/

/-- Modifying the last of a list is modifying it at its place. -/
theorem modifyLast_eq_modify {α : Type} (f : α → α) (l : List α) :
    modifyLast f l = l.modify (l.length - 1) f := by
  induction l with
  | nil => rfl
  | cons a rest ih =>
    cases rest with
    | nil => rfl
    | cons b rest => simp only [modifyLast, ih]; rfl

namespace Section

/-- Changing one paragraph retains of the section what it retains of the paragraph. -/
theorem retains_modify (sect : Section) (i : Nat) {f : Paragraph → Paragraph}
    (hRetains : ∀ paragraph : Paragraph, Retains paragraph.entryAt? (f paragraph).entryAt?) :
    Retains sect.entryAt?
      ({ sect with paragraphs := sect.paragraphs.modify i f } : Section).entryAt? := by
  intro slot e hAt
  cases slot with
  | terminal => exact hAt
  | item j k =>
    rw [entryAt?_item] at hAt ⊢
    obtain ⟨paragraph, hParagraph, hEntry⟩ := Option.bind_eq_some_iff.mp hAt
    simp only [List.getElem?_modify, hParagraph]
    -- in the paragraph that changes, or in another one
    by_cases hEq : i = j
    · simpa [hEq] using hRetains paragraph hEntry
    · simpa [hEq] using hEntry

/-- Changing one paragraph extends the section as it extends the paragraph. -/
theorem extends_modify (sect : Section) (i : Nat) {f : Paragraph → Paragraph}
    (hExtends : ∀ paragraph : Paragraph, Extends paragraph.entryAt? (f paragraph).entryAt?) :
    Extends sect.entryAt?
      ({ sect with paragraphs := sect.paragraphs.modify i f } : Section).entryAt? where
  keeps hAt := sect.retains_modify i (fun paragraph => (hExtends paragraph).retains) hAt
  fresh {slot e} hAt := by
    cases slot with
    | terminal => exact .inl hAt
    | item j k =>
      rw [entryAt?_item] at hAt ⊢
      obtain ⟨changed, hChanged, hEntry⟩ := Option.bind_eq_some_iff.mp hAt
      simp only [List.getElem?_modify] at hChanged
      obtain ⟨paragraph, hParagraph, rfl⟩ := Option.map_eq_some_iff.mp hChanged
      -- a paragraph at another place has not changed
      rw [hParagraph]
      by_cases hEq : i = j
      · exact (hExtends paragraph).fresh (by simpa [hEq] using hEntry)
      · exact .inl (by simpa [hEq] using hEntry)

/-- What keeps the entries of the open paragraph keeps those of its section. -/
theorem retains_modifyOpen (sect : Section) {f : Paragraph → Paragraph}
    (hRetains : ∀ paragraph : Paragraph, Retains paragraph.entryAt? (f paragraph).entryAt?) :
    Retains sect.entryAt? (sect.modifyOpen f).entryAt? := by
  unfold modifyOpen
  split
  · rw [modifyLast_eq_modify]
    exact sect.retains_modify _ hRetains
  · exact .refl _

/-- What extends the open paragraph extends its section. -/
theorem extends_modifyOpen (sect : Section) {f : Paragraph → Paragraph}
    (hExtends : ∀ paragraph : Paragraph, Extends paragraph.entryAt? (f paragraph).entryAt?) :
    Extends sect.entryAt? (sect.modifyOpen f).entryAt? := by
  unfold modifyOpen
  split
  · rw [modifyLast_eq_modify]
    exact sect.extends_modify _ hExtends
  · exact .refl _

theorem terminal_modifyOpen (sect : Section) (f : Paragraph → Paragraph) :
    (sect.modifyOpen f).terminal = sect.terminal := by
  unfold modifyOpen; split <;> rfl

/-- Closing a section ends its open paragraph and adds the terminal. -/
theorem extends_close (sect : Section) : Extends sect.entryAt? sect.close.entryAt? := by
  unfold close
  split
  · exact .refl _
  · rename_i hOpen
    have hNone : sect.terminal = none := by simpa [isClosed] using hOpen
    -- the open paragraph is closed, and then the pause is added where none was
    refine (sect.extends_modifyOpen Paragraph.extends_close).trans ⟨?_, ?_⟩
    · intro slot e hAt
      cases slot with
      | item j k => exact hAt
      | terminal =>
        rw [entryAt?, terminal_modifyOpen, hNone] at hAt
        cases hAt
    · intro slot e hAt
      cases slot with
      | item j k => exact .inl hAt
      | terminal =>
        cases hAt
        exact .inr (Entry.isFresh_unpaced _ _)

/-- A new paragraph comes behind all others. -/
theorem retains_push (sect : Section) (paragraph : Paragraph) :
    Retains sect.entryAt? (sect.push paragraph).entryAt? := by
  intro slot e hAt
  cases slot with
  | terminal => exact hAt
  | item j k =>
    rw [entryAt?_item] at hAt ⊢
    obtain ⟨old, hOld, hEntry⟩ := Option.bind_eq_some_iff.mp hAt
    have hLt : j < sect.paragraphs.length := (List.getElem?_eq_some_iff.mp hOld).1
    simp only [push, List.getElem?_append_left hLt, hOld]
    exact hEntry

/-- An empty one brings no entry. -/
theorem extends_push (sect : Section) {paragraph : Paragraph} (hEmpty : paragraph.items = []) :
    Extends sect.entryAt? (sect.push paragraph).entryAt? where
  keeps hAt := sect.retains_push paragraph hAt
  fresh {slot e} hAt := by
    cases slot with
    | terminal => exact .inl hAt
    | item j k =>
      rw [entryAt?_item] at hAt ⊢
      obtain ⟨found, hFound, hEntry⟩ := Option.bind_eq_some_iff.mp hAt
      simp only [push] at hFound
      by_cases hLt : j < sect.paragraphs.length
      · rw [List.getElem?_append_left hLt] at hFound
        exact .inl (by rw [hFound]; exact hEntry)
      · -- the new paragraph has nothing in it
        rw [List.getElem?_append_right (by omega)] at hFound
        have hNew : found = paragraph := by simpa using List.mem_of_getElem? hFound
        simp [Paragraph.entryAt?, hNew, hEmpty] at hEntry

end Section

/-! ## Scraps -/

namespace Scrap

/-- Modifying a section by its number is modifying the first one that has it. -/
theorem modifyFirst_eq_modify (number : Nat) (f : Section → Section) (sections : List Section) :
    modifyFirst number f sections =
      sections.modify (sections.findIdx (·.number = number)) f := by
  induction sections with
  | nil => rfl
  | cons sect rest ih =>
    by_cases hNumber : sect.number = number
    · simp [modifyFirst, hNumber, List.findIdx_cons]
    · simp [modifyFirst, hNumber, List.findIdx_cons, ih]

/-- Changing a section twice is changing it once. -/
theorem modifySection_modifySection {f : Section → Section}
    (hNumber : ∀ sect, (f sect).number = sect.number) (g : Section → Section) (scrap : Scrap)
    (number : Nat) :
    (scrap.modifySection number f).modifySection number g =
      scrap.modifySection number fun sect => g (f sect) := by
  have hFirst : ∀ sections, modifyFirst number g (modifyFirst number f sections) =
      modifyFirst number (fun sect => g (f sect)) sections := by
    intro sections
    induction sections with
    | nil => rfl
    | cons sect rest ih =>
      by_cases hSame : sect.number = number
      · -- it is found again, since its number has not changed
        have hStill : (f sect).number = number := by rw [hNumber, hSame]
        simp only [modifyFirst, if_pos hSame, if_pos hStill]
      · simp only [modifyFirst, if_neg hSame, ih]
  simp only [modifySection, hFirst]

/-- What keeps the entries of a section keeps those of the scrap. -/
theorem retains_modifySection (scrap : Scrap) (number : Nat) {f : Section → Section}
    (hRetains : ∀ sect : Section, Retains sect.entryAt? (f sect).entryAt?) :
    Retains scrap.entryAt? (scrap.modifySection number f).entryAt? := by
  intro place e hAt
  obtain ⟨sect, hSect, hEntry⟩ := Option.bind_eq_some_iff.mp hAt
  simp only [entryAt?, modifySection, modifyFirst_eq_modify, List.getElem?_modify, hSect]
  -- in the section that changes, or in another one
  by_cases hEq : scrap.sections.findIdx (·.number = number) = place.sect
  · simpa [hEq] using hRetains sect hEntry
  · simpa [hEq] using hEntry

/-- What extends a section extends the scrap. -/
theorem extends_modifySection (scrap : Scrap) (number : Nat) {f : Section → Section}
    (hExtends : ∀ sect : Section, Extends sect.entryAt? (f sect).entryAt?) :
    Extends scrap.entryAt? (scrap.modifySection number f).entryAt? where
  keeps hAt := scrap.retains_modifySection number (fun sect => (hExtends sect).retains) hAt
  fresh {place e} hAt := by
    simp only [entryAt?, modifySection, modifyFirst_eq_modify, List.getElem?_modify] at hAt ⊢
    obtain ⟨changed, hChanged, hEntry⟩ := Option.bind_eq_some_iff.mp hAt
    obtain ⟨sect, hSect, rfl⟩ := Option.map_eq_some_iff.mp hChanged
    rw [hSect]
    by_cases hEq : scrap.sections.findIdx (·.number = number) = place.sect
    · exact (hExtends sect).fresh (by simpa [hEq] using hEntry)
    · exact .inl (by simpa [hEq] using hEntry)

/-- A new section comes behind all others. -/
theorem retains_push (scrap : Scrap) (sect : Section) :
    Retains scrap.entryAt? (scrap.push sect).entryAt? := by
  intro place e hAt
  obtain ⟨old, hOld, hEntry⟩ := Option.bind_eq_some_iff.mp hAt
  have hLt : place.sect < scrap.sections.length := (List.getElem?_eq_some_iff.mp hOld).1
  simp only [entryAt?, push, List.getElem?_append_left hLt, hOld]
  exact hEntry

/-- An empty one brings no entry. -/
theorem extends_push (scrap : Scrap) (number : Nat) (area : String) :
    Extends scrap.entryAt? (scrap.push (.empty number area)).entryAt? where
  keeps hAt := scrap.retains_push _ hAt
  fresh {place e} hAt := by
    obtain ⟨sect, hSect, hEntry⟩ := Option.bind_eq_some_iff.mp hAt
    simp only [push] at hSect
    by_cases hLt : place.sect < scrap.sections.length
    · rw [List.getElem?_append_left hLt] at hSect
      exact .inl (by simp only [entryAt?, hSect]; exact hEntry)
    · -- the new section has nothing in it
      rw [List.getElem?_append_right (by omega)] at hSect
      have hNew : sect = .empty number area := by simpa using List.mem_of_getElem? hSect
      obtain ⟨i, slot⟩ := place
      cases slot <;> simp [hNew, Section.empty, Section.entryAt?] at hEntry

end Scrap

end Dialogue
