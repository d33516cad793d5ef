import Dialogue.Proofs.Scrap.Bare
import Dialogue.Proofs.Scrap.Places

/-!
# Scraps that are the same

Two scraps with the same bare text have their entries at the same places, and the entries say the same.
If the entries also have the same times and look the same, the scraps are one.

Main results:

* `Scrap.bare_entryAt?_of_eq` — what stands at a place is seen in the bare text.
* `Scrap.eq_of_bare_eq` — scraps with the same bare text and the same entries are the same.
-/

namespace Dialogue

/-- What stands at a place is seen in the bare text. -/
theorem Scrap.bare_entryAt?_of_eq {scrap later : Scrap} (hBare : later.bare = scrap.bare)
    (place : Place) :
    (later.entryAt? place).map Entry.bare = (scrap.entryAt? place).map Entry.bare := by
  rw [← Scrap.entryAt?_map, ← Scrap.entryAt?_map]
  exact congrArg (·.entryAt? place) hBare

/-! ## Level by level -/

/-- Lists are the same if they look the same to a view, and elements at one position that look the same
are the same. -/
theorem eq_of_map_eq {α β : Type} {view : α → β} {l l' : List α} (hMap : l.map view = l'.map view)
    (hSame : ∀ (i : Nat) a b, l[i]? = some a → l'[i]? = some b → view a = view b → a = b) : l = l' := by
  apply List.ext_getElem?
  intro i
  have hAt := congrArg (·[i]?) hMap
  simp only [List.getElem?_map] at hAt
  cases hLeft : l[i]? with
  | none =>
    rw [hLeft] at hAt
    exact (Option.map_eq_none_iff.mp hAt.symm).symm
  -- the other list has an element here too, with the same view
  | some a =>
    rw [hLeft] at hAt
    obtain ⟨b, hRight, hView⟩ := Option.map_eq_some_iff.mp hAt.symm
    rw [hRight, hSame i a b hLeft hRight hView.symm]

/-- Items that are bare the same, and have the same entry, are the same. -/
theorem Item.eq_of_bare_eq {item other : Item}
    (hBare : item.map Entry.bare = other.map Entry.bare) (hEntry : item.entry? = other.entry?) :
    item = other := by
  cases item with
  | entry e =>
    cases other with
    | entry e' => exact congrArg Item.entry (Option.some.inj hEntry)
    | lineBreak => cases hEntry
  | lineBreak =>
    cases other with
    -- a break is not bare the same as an entry
    | entry e' => cases hBare
    | lineBreak => rfl

/-- Paragraphs of the same bare text that hold the same entries are the same. -/
theorem Paragraph.eq_of_bare_eq {paragraph other : Paragraph}
    (hBare : paragraph.map Entry.bare = other.map Entry.bare)
    (hAt : ∀ i, paragraph.entryAt? i = other.entryAt? i) : paragraph = other := by
  obtain ⟨actor, items, closed⟩ := paragraph
  obtain ⟨actor', items', closed'⟩ := other
  simp only [Paragraph.map, Paragraph.mk.injEq] at hBare ⊢
  obtain ⟨hActor, hItems, hClosed⟩ := hBare
  refine ⟨hActor, eq_of_map_eq hItems fun i item item' hItem hItem' hView => ?_, hClosed⟩
  have hEntry := hAt i
  simp only [entryAt?, hItem, hItem', Option.bind_some] at hEntry
  exact Item.eq_of_bare_eq hView hEntry

theorem Section.eq_of_bare_eq {sect other : Section}
    (hBare : sect.map Entry.bare = other.map Entry.bare)
    (hAt : ∀ slot, sect.entryAt? slot = other.entryAt? slot) : sect = other := by
  obtain ⟨number, area, paragraphs, terminal⟩ := sect
  obtain ⟨number', area', paragraphs', terminal'⟩ := other
  simp only [Section.map, Section.mk.injEq] at hBare ⊢
  obtain ⟨hNumber, hArea, hParagraphs, -⟩ := hBare
  refine ⟨hNumber, hArea, eq_of_map_eq hParagraphs fun i p q hp hq hView => ?_, hAt .terminal⟩
  refine Paragraph.eq_of_bare_eq hView fun j => ?_
  have hEntry := hAt (.item i j)
  simpa only [entryAt?_item, hp, hq, Option.bind_some] using hEntry

/-- Scraps with the same bare text and the same entries are the same. -/
theorem Scrap.eq_of_bare_eq {scrap other : Scrap} (hBare : scrap.bare = other.bare)
    (hAt : ∀ place, scrap.entryAt? place = other.entryAt? place) : scrap = other := by
  obtain ⟨number, sections⟩ := scrap
  obtain ⟨number', sections'⟩ := other
  simp only [bare, Scrap.map, Scrap.mk.injEq] at hBare ⊢
  obtain ⟨hNumber, hSections⟩ := hBare
  refine ⟨hNumber, eq_of_map_eq hSections fun i sect sect' hSect hSect' hView => ?_⟩
  refine Section.eq_of_bare_eq hView fun slot => ?_
  have hEntry := hAt ⟨i, slot⟩
  simpa only [entryAt?, hSect, hSect', Option.bind_some] using hEntry

end Dialogue
