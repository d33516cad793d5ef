import Dialogue.Scrap.Pacing
import Dialogue.Scrap.Place

/-!
# The bare text

Pacing gives the entries of a scrap their times, and playing shows them and lets them fade. Neither adds
an entry, takes one away or changes what it says. `Scrap.bare` is the scrap as it was written: every
entry as it stood before it was paced.

Main results:

* `Scrap.map_map_of_eq`, `Scrap.map_modifyAt_of_eq` — a change of entries is not seen through a view that
  does not see it.
* `Scrap.bare_map`, `Scrap.bare_modifyAt` — what leaves the words and the tiers of entries alone leaves
  the bare text alone.
* `Scrap.bare_paced`, `Scrap.bare_pacedSection?` — pacing leaves the bare text alone.
* `Scrap.map_sections_of_bare_eq` — scraps with the same bare text look the same to what does not look at
  times.
-/

namespace Dialogue

/-- An entry as it was written. -/
def Entry.bare (entry : Entry) : Entry := .unpaced entry.content entry.tier

/-- The number and the area of a section. -/
def Section.label (sect : Section) : Nat × String := (sect.number, sect.area)

/-- A scrap as it was written. -/
def Scrap.bare (scrap : Scrap) : Scrap := scrap.map Entry.bare

/-! ## Changes that a view does not see -/

/-- Changing one element of a list is not seen through a view that does not see the change. -/
theorem map_modify_of_eq {α β : Type} {view : α → β} {g : α → α}
    (hView : ∀ a, view (g a) = view a) (l : List α) (i : Nat) :
    (l.modify i g).map view = l.map view := by
  apply List.ext_getElem?
  intro j
  rw [List.getElem?_map, List.getElem?_map, List.getElem?_modify]
  cases l[j]? with
  | none => rfl
  | some a =>
    -- only the place that is modified is not plainly the same
    by_cases hEq : i = j
    · simp [hEq, hView]
    · simp [hEq]

section Change

variable {f view : Entry → Entry} (hView : ∀ e : Entry, view (f e) = view e)

include hView

/-- What a view cannot tell apart in an entry it cannot in an item. -/
theorem Item.map_map_of_eq (item : Item) : (item.map f).map view = item.map view := by
  cases item with
  | entry e => exact congrArg Item.entry (hView e)
  | lineBreak => rfl

theorem Paragraph.map_map_of_eq (paragraph : Paragraph) :
    (paragraph.map f).map view = paragraph.map view := by
  have hItems : (paragraph.items.map (Item.map f)).map (Item.map view) =
      paragraph.items.map (Item.map view) := by
    rw [List.map_map]
    exact List.map_congr_left fun item _ => item.map_map_of_eq hView
  simp only [Paragraph.map, hItems]

/-- The pause of a section is one of the entries that may change. -/
theorem Section.terminal_map_of_eq (sect : Section) :
    (sect.terminal.map f).map view = sect.terminal.map view := by
  rw [Option.map_map]
  exact congrArg (sect.terminal.map ·) (funext hView)

theorem Section.map_map_of_eq (sect : Section) : (sect.map f).map view = sect.map view := by
  have hParagraphs : (sect.paragraphs.map (Paragraph.map f)).map (Paragraph.map view) =
      sect.paragraphs.map (Paragraph.map view) := by
    rw [List.map_map]
    exact List.map_congr_left fun paragraph _ => paragraph.map_map_of_eq hView
  simp only [Section.map, hParagraphs, sect.terminal_map_of_eq hView]

/-- What a view cannot tell apart in an entry it cannot in a whole scrap. -/
theorem Scrap.map_map_of_eq (scrap : Scrap) : (scrap.map f).map view = scrap.map view := by
  have hSections : (scrap.sections.map (Section.map f)).map (Section.map view) =
      scrap.sections.map (Section.map view) := by
    rw [List.map_map]
    exact List.map_congr_left fun sect _ => sect.map_map_of_eq hView
  simp only [Scrap.map, hSections]

/-- What a view cannot tell apart in an entry it cannot if only one entry is changed. -/
theorem Section.map_modifyAt_of_eq (sect : Section) (slot : Slot) :
    (sect.modifyAt slot f).map view = sect.map view := by
  cases slot with
  | item i j =>
    -- one item of one paragraph changes
    have hItem : ∀ paragraph : Paragraph,
        Paragraph.map view { paragraph with items := paragraph.items.modify j (Item.map f) } =
          paragraph.map view := by
      intro paragraph
      simp only [Paragraph.map,
        map_modify_of_eq (fun item : Item => item.map_map_of_eq hView) paragraph.items j]
    simp only [modifyAt, Section.map, map_modify_of_eq hItem]
  | terminal => simp only [modifyAt, Section.map, sect.terminal_map_of_eq hView]

/-- A change of one entry is not seen through a view that does not see it. -/
theorem Scrap.map_modifyAt_of_eq (scrap : Scrap) (place : Place) :
    (scrap.modifyAt place f).map view = scrap.map view := by
  have hSect : ∀ sect : Section, (sect.modifyAt place.slot f).map view = sect.map view :=
    fun sect => sect.map_modifyAt_of_eq hView place.slot
  simp only [Scrap.map, modifyAt, map_modify_of_eq hSect]

end Change

/-- What touches no content leaves the bare scrap as it is. -/
theorem Scrap.bare_map {f : Entry → Entry} (hBare : ∀ e : Entry, (f e).bare = e.bare)
    (scrap : Scrap) : (scrap.map f).bare = scrap.bare :=
  scrap.map_map_of_eq hBare

theorem Scrap.bare_modifyAt {f : Entry → Entry} (hBare : ∀ e : Entry, (f e).bare = e.bare)
    (scrap : Scrap) (place : Place) : (scrap.modifyAt place f).bare = scrap.bare :=
  scrap.map_modifyAt_of_eq hBare place

/-! ## Pacing -/

/-- A walk that changes the elements is not seen through a view that does not see the changes. -/
theorem map_carry_of_eq {α β σ : Type} {view : α → β} {step : σ → α → α × σ}
    (hView : ∀ s a, view (step s a).1 = view a) (s : σ) (l : List α) :
    (carry step s l).1.map view = l.map view := by
  induction l generalizing s with
  | nil => rfl
  | cons a rest ih => simp only [carry, List.map_cons, hView, ih]

theorem Item.bare_paced (tempo : Tempo) (elapsed : Millis) (item : Item) :
    (item.paced tempo elapsed).1.map Entry.bare = item.map Entry.bare := by
  cases item <;> rfl

theorem Paragraph.bare_paced (tempo : Tempo) (elapsed : Millis) (paragraph : Paragraph) :
    (paragraph.paced tempo elapsed).1.map Entry.bare = paragraph.map Entry.bare := by
  simp only [Paragraph.map, Paragraph.paced, map_carry_of_eq (Item.bare_paced tempo)]

theorem Section.bare_paced (tempo : Tempo) (elapsed : Millis) (sect : Section) :
    (sect.paced tempo elapsed).1.map Entry.bare = sect.map Entry.bare := by
  have hParagraphs := map_carry_of_eq (Paragraph.bare_paced tempo) elapsed sect.paragraphs
  unfold Section.paced
  -- the pause is paced after the paragraphs
  cases hTerminal : sect.terminal with
  | none => simp only [Section.map, hParagraphs, hTerminal]
  | some pause =>
    simp only [Section.map, hParagraphs, hTerminal, Option.map_some]
    rfl

theorem Scrap.bare_paced (tempo : Tempo) (scrap : Scrap) :
    (scrap.paced tempo).1.bare = scrap.bare := by
  simp only [bare, Scrap.map, Scrap.paced, map_carry_of_eq (Section.bare_paced tempo)]

/-- A change of the first section with a number is not seen through a view that does not see it. -/
theorem Scrap.map_modifyFirst_of_eq {β : Type} {view : Section → β} {f : Section → Section}
    (hView : ∀ sect, view (f sect) = view sect) (number : Nat) (sections : List Section) :
    (modifyFirst number f sections).map view = sections.map view := by
  induction sections with
  | nil => rfl
  | cons sect rest ih =>
    rw [modifyFirst]
    split
    · rw [List.map_cons, List.map_cons, hView]
    · rw [List.map_cons, List.map_cons, ih]

/-- Pacing one section changes nothing but times in the scrap. -/
theorem Scrap.bare_pacedSection? {tempo : Tempo} {scrap paced : Scrap} {number : Nat}
    {total : Millis} (hPaced : scrap.pacedSection? tempo number = some (paced, total)) :
    paced.bare = scrap.bare := by
  obtain ⟨found, -, hEq⟩ := Option.map_eq_some_iff.mp hPaced
  simp only [Prod.mk.injEq] at hEq
  obtain ⟨rfl, -⟩ := hEq
  simp only [bare, Scrap.map, modifySection,
    map_modifyFirst_of_eq fun sect => sect.bare_paced tempo 0]

/-! ## What the bare text tells -/

/-- What does not look at the times of a section can be read off the bare text. -/
theorem Scrap.map_sections_bare {β : Type} {view : Section → β}
    (hView : ∀ sect : Section, view (sect.map Entry.bare) = view sect) (scrap : Scrap) :
    scrap.bare.sections.map view = scrap.sections.map view := by
  simp only [bare, Scrap.map, List.map_map]
  exact List.map_congr_left fun sect _ => hView sect

/-- Scraps with the same bare text look the same to what does not look at times. -/
theorem Scrap.map_sections_of_bare_eq {β : Type} {view : Section → β}
    (hView : ∀ sect : Section, view (sect.map Entry.bare) = view sect) {scrap later : Scrap}
    (hBare : later.bare = scrap.bare) : later.sections.map view = scrap.sections.map view := by
  rw [← later.map_sections_bare hView, hBare, scrap.map_sections_bare hView]

end Dialogue
