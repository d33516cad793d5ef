import Dialogue.Scrap.Place
import Mathlib.Data.List.Basic

/-!
# Places and entries

`Scrap.places` lists the addresses of a scrap's entries, `Scrap.entryAt?` follows an address, and
`Scrap.modifyAt` changes the entry at one. This module ties the three to `Scrap.entries`.

Main results:

* `Scrap.map_entryAt?_places` — following the places in order gives the entries in document order.
* `Scrap.mem_places_iff` — a place is listed exactly when an entry stands there.
* `Scrap.entryAt?_modifyAt` — a change at one place is seen there and nowhere else.
-/

namespace Dialogue

/-! ## In a paragraph -/

namespace Paragraph

/-- The entry at a position among the items. -/
def entryAt? (paragraph : Paragraph) (i : Nat) : Option Entry :=
  (paragraph.items[i]?).bind Item.entry?

/-- A paragraph lists the positions that hold an entry. -/
theorem mem_entryPositions {paragraph : Paragraph} {i : Nat} :
    i ∈ paragraph.entryPositions ↔ ∃ e, paragraph.entryAt? i = some e := by
  simp only [entryPositions, entryAt?, List.mem_filterMap, Option.map_eq_some_iff,
    Option.bind_eq_some_iff]
  constructor
  · rintro ⟨⟨item, j⟩, hMem, e, hEntry, rfl⟩
    exact ⟨e, item, List.mem_zipIdx_iff_getElem?.mp hMem, hEntry⟩
  · rintro ⟨e, item, hAt, hEntry⟩
    exact ⟨(item, i), List.mem_zipIdx_iff_getElem?.mpr hAt, e, hEntry, rfl⟩

/-- The positions of a paragraph hold its entries, in their order. -/
theorem map_entryAt?_entryPositions (paragraph : Paragraph) :
    paragraph.entryPositions.map paragraph.entryAt? = paragraph.entries.map some := by
  have hItems : paragraph.entries =
      (paragraph.items.zipIdx.map Prod.fst).filterMap Item.entry? := by
    rw [List.zipIdx_map_fst]; rfl
  rw [hItems, entryPositions, List.filterMap_map, List.map_filterMap, List.map_filterMap]
  apply List.filterMap_congr
  rintro ⟨item, i⟩ hMem
  have hAt : paragraph.items[i]? = some item := List.mem_zipIdx_iff_getElem?.mp hMem
  cases hEntry : item.entry? <;> simp [entryAt?, hAt, hEntry]

end Paragraph

/-! ## In a section -/

namespace Section

theorem entryAt?_item (sect : Section) (i j : Nat) :
    sect.entryAt? (.item i j) = (sect.paragraphs[i]?).bind (·.entryAt? j) := rfl

/-- A section lists the slots that hold an entry. -/
theorem mem_slots {sect : Section} {slot : Slot} :
    slot ∈ sect.slots ↔ ∃ e, sect.entryAt? slot = some e := by
  simp only [slots, List.mem_append, List.mem_flatMap, List.mem_map]
  cases slot with
  | item i j =>
    rw [entryAt?_item]
    constructor
    · rintro (⟨⟨paragraph, k⟩, hMem, l, hPosition, hEq⟩ | ⟨_, _, hEq⟩)
      · simp only [Slot.item.injEq] at hEq
        obtain ⟨rfl, rfl⟩ := hEq
        obtain ⟨e, hAt⟩ := Paragraph.mem_entryPositions.mp hPosition
        exact ⟨e, by rw [List.mem_zipIdx_iff_getElem?.mp hMem]; exact hAt⟩
      · cases hEq
    · rintro ⟨e, hAt⟩
      obtain ⟨paragraph, hParagraph, hEntry⟩ := Option.bind_eq_some_iff.mp hAt
      exact .inl ⟨(paragraph, i), List.mem_zipIdx_iff_getElem?.mpr hParagraph, j,
        Paragraph.mem_entryPositions.mpr ⟨e, hEntry⟩, rfl⟩
  | terminal =>
    constructor
    · -- no item is a terminal
      rintro (⟨_, _, _, _, hEq⟩ | ⟨e, hMem, -⟩)
      · cases hEq
      · exact ⟨e, Option.mem_toList.mp hMem⟩
    · rintro ⟨e, hAt⟩
      exact .inr ⟨e, Option.mem_toList.mpr hAt, rfl⟩

/-- The slots of a section hold its entries, in their order. -/
theorem map_entryAt?_slots (sect : Section) :
    sect.slots.map sect.entryAt? = sect.entries.map some := by
  rw [slots, entries, List.map_append, List.map_append, List.map_flatMap, List.map_map]
  congr 1
  · -- paragraph by paragraph
    have hParagraphs : sect.paragraphs.flatMap Paragraph.entries =
        (sect.paragraphs.zipIdx.map Prod.fst).flatMap Paragraph.entries := by
      rw [List.zipIdx_map_fst]
    rw [hParagraphs, List.flatMap_map, List.map_flatMap]
    apply List.flatMap_congr
    rintro ⟨paragraph, i⟩ hMem
    have hAt : sect.paragraphs[i]? = some paragraph := List.mem_zipIdx_iff_getElem?.mp hMem
    rw [List.map_map, ← paragraph.map_entryAt?_entryPositions]
    apply List.map_congr_left
    intro j _
    simp [entryAt?_item, hAt]
  · -- and then the terminal, if there is one
    cases hTerminal : sect.terminal <;> simp [entryAt?, hTerminal]

/-- What is changed in one slot is not seen in the others. -/
theorem entryAt?_modifyAt (sect : Section) (slot at' : Slot) (f : Entry → Entry) :
    (sect.modifyAt slot f).entryAt? at' =
      if slot = at' then (sect.entryAt? at').map f else sect.entryAt? at' := by
  cases slot with
  | item i j =>
    cases at' with
    | item k l =>
      simp only [modifyAt, entryAt?, List.getElem?_modify, Slot.item.injEq]
      by_cases hParagraph : i = k
      · subst hParagraph
        cases sect.paragraphs[i]? with
        | none => simp
        | some paragraph =>
          by_cases hItem : j = l
          · subst hItem
            -- a break holds no entry, before and after
            cases hAt : paragraph.items[j]? with
            | none => simp [hAt]
            | some item => cases item <;> simp [hAt, Item.map, Item.entry?]
          · simp [hItem]
      · simp [hParagraph]
    | terminal => simp [modifyAt, entryAt?]
  | terminal => cases at' <;> simp [modifyAt, entryAt?]

/-- What is changed everywhere is seen in every slot. -/
theorem entryAt?_map (sect : Section) (f : Entry → Entry) (slot : Slot) :
    (sect.map f).entryAt? slot = (sect.entryAt? slot).map f := by
  cases slot with
  | terminal => rfl
  | item i j =>
    simp only [entryAt?, map, List.getElem?_map]
    cases sect.paragraphs[i]? with
    | none => rfl
    | some paragraph =>
      simp only [Option.map_some, Option.bind_some, Paragraph.map, List.getElem?_map]
      cases paragraph.items[j]? with
      | none => rfl
      | some item => cases item <;> rfl

end Section

/-! ## In a scrap -/

namespace Scrap

/-- The scrap lists the places that hold an entry. -/
theorem mem_places_iff {scrap : Scrap} {place : Place} :
    place ∈ scrap.places ↔ ∃ e, scrap.entryAt? place = some e := by
  obtain ⟨i, slot⟩ := place
  simp only [places, entryAt?, List.mem_flatMap, List.mem_map, Option.bind_eq_some_iff]
  constructor
  · rintro ⟨⟨sect, j⟩, hMem, slot', hSlot, hEq⟩
    simp only [Place.mk.injEq] at hEq
    obtain ⟨rfl, rfl⟩ := hEq
    obtain ⟨e, hAt⟩ := Section.mem_slots.mp hSlot
    exact ⟨e, sect, List.mem_zipIdx_iff_getElem?.mp hMem, hAt⟩
  · rintro ⟨e, sect, hSect, hAt⟩
    exact ⟨(sect, i), List.mem_zipIdx_iff_getElem?.mpr hSect, slot,
      Section.mem_slots.mpr ⟨e, hAt⟩, rfl⟩

/-- Following the places in order gives the entries in document order. -/
theorem map_entryAt?_places (scrap : Scrap) :
    scrap.places.map scrap.entryAt? = scrap.entries.map some := by
  have hSections : scrap.entries = (scrap.sections.zipIdx.map Prod.fst).flatMap Section.entries := by
    rw [List.zipIdx_map_fst]; rfl
  rw [hSections, places, List.flatMap_map, List.map_flatMap, List.map_flatMap]
  apply List.flatMap_congr
  rintro ⟨sect, i⟩ hMem
  -- section by section, each at its own index
  have hAt : scrap.sections[i]? = some sect := List.mem_zipIdx_iff_getElem?.mp hMem
  rw [List.map_map, ← sect.map_entryAt?_slots]
  apply List.map_congr_left
  intro slot _
  simp [entryAt?, hAt]

/-- There are as many places as entries. -/
theorem length_places (scrap : Scrap) : scrap.places.length = scrap.entries.length := by
  simpa using congrArg List.length scrap.map_entryAt?_places

/-- Each entry stands somewhere. -/
theorem mem_entries_iff {scrap : Scrap} {e : Entry} :
    e ∈ scrap.entries ↔ ∃ place, scrap.entryAt? place = some e := by
  have hMap : e ∈ scrap.entries ↔ some e ∈ scrap.places.map scrap.entryAt? := by
    rw [map_entryAt?_places]; simp
  rw [hMap, List.mem_map]
  constructor
  · rintro ⟨place, -, hAt⟩
    exact ⟨place, hAt⟩
  · rintro ⟨place, hAt⟩
    exact ⟨place, mem_places_iff.mpr ⟨e, hAt⟩, hAt⟩

/-- The place of each entry: the same position in both lists. -/
theorem getElem?_places_bind (scrap : Scrap) (i : Nat) :
    (scrap.places[i]?).bind scrap.entryAt? = scrap.entries[i]? := by
  have hAt := congrArg (·[i]?) scrap.map_entryAt?_places
  simp only [List.getElem?_map] at hAt
  cases hPlace : scrap.places[i]? <;> cases hEntry : scrap.entries[i]? <;> simp_all

/-- What is changed at one place is not seen at the others. -/
theorem entryAt?_modifyAt (scrap : Scrap) (place at' : Place) (f : Entry → Entry) :
    (scrap.modifyAt place f).entryAt? at' =
      if place = at' then (scrap.entryAt? at').map f else scrap.entryAt? at' := by
  obtain ⟨i, slot⟩ := place
  obtain ⟨j, slot'⟩ := at'
  simp only [modifyAt, entryAt?, List.getElem?_modify, Place.mk.injEq]
  by_cases hSect : i = j
  · subst hSect
    cases scrap.sections[i]? with
    | none => simp
    | some sect => by_cases hSlot : slot = slot' <;> simp [hSlot, Section.entryAt?_modifyAt]
  · simp [hSect]

/-- What is changed everywhere is seen at every place. -/
theorem entryAt?_map (scrap : Scrap) (f : Entry → Entry) (place : Place) :
    (scrap.map f).entryAt? place = (scrap.entryAt? place).map f := by
  simp only [entryAt?, map, List.getElem?_map]
  cases scrap.sections[place.sect]? with
  | none => rfl
  | some sect => exact sect.entryAt?_map f place.slot

end Scrap

end Dialogue
