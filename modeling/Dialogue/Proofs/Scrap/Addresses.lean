import Dialogue.Proofs.Scrap.Bare
import Dialogue.Proofs.Scrap.Growth
import Mathlib.Data.List.Sort

/-!
# Places as addresses

Which of two places comes first in the document can be told from the places alone: `Place.Before`. The list
of places is in that order, so it is determined by which places hold an entry. Whatever leaves those as they
are, like changing an entry, leaves the list as it is; and whatever retains the entries that are there, like
putting something at an end, only puts new places in between.

Main results:

* `Scrap.pairwise_places` — places are listed in the order of the document, each of them once.
* `Scrap.places_modifyAt`, `Scrap.entries_modifyAt` — a change at a place changes one entry of the list and
  moves none.
* `Scrap.retains_extended` — additions retain what is there, at its place.
* `Scrap.places_address_entries` — all of it, for every scrap.
-/

namespace Dialogue

/-! ## The order of places -/

/-- The one slot comes before the other in their section. -/
inductive Slot.Before : Slot → Slot → Prop where
  | paragraph {i j k l : Nat} (h : i < k) : Before (.item i j) (.item k l)
  | item {i j l : Nat} (h : j < l) : Before (.item i j) (.item i l)
  | terminal {i j : Nat} : Before (.item i j) .terminal

/-- The one place comes before the other in the document. -/
inductive Place.Before : Place → Place → Prop where
  | sect {i j : Nat} {slot slot' : Slot} (h : i < j) : Before ⟨i, slot⟩ ⟨j, slot'⟩
  | slot {i : Nat} {slot slot' : Slot} (h : slot.Before slot') : Before ⟨i, slot⟩ ⟨i, slot'⟩

/-- Of two places in a section, one comes before the other and not after it. -/
theorem Slot.Before.asymm {slot slot' : Slot} (h : slot.Before slot') : ¬ slot'.Before slot := by
  intro hBack
  cases h with
  | paragraph hLt =>
    cases hBack with
    | paragraph hGt => omega
    | item => omega
  | item hLt =>
    cases hBack with
    | paragraph => omega
    | item hGt => omega
  | terminal => cases hBack

/-- Of two places in a scrap at most one is before the other. -/
theorem Place.Before.asymm {place place' : Place} (h : place.Before place') :
    ¬ place'.Before place := by
  intro hBack
  cases h with
  | sect hLt =>
    cases hBack with
    | sect hGt => omega
    | slot => omega
  | slot hLt =>
    cases hBack with
    | sect => omega
    | slot hGt => exact hLt.asymm hGt

instance : Std.Asymm Place.Before := ⟨fun _ _ => Place.Before.asymm⟩

instance : Std.Antisymm Place.Before := Std.Asymm.antisymm _

/-- Positions in a list are in ascending order. -/
theorem pairwise_zipIdx {α : Type} (l : List α) :
    l.zipIdx.Pairwise fun x y => x.2 < y.2 := by
  rw [← List.pairwise_map, List.zipIdx_map_snd]
  exact List.pairwise_lt_range' 1

/-- The entries of a paragraph are listed from front to back. -/
theorem Paragraph.pairwise_entryPositions (paragraph : Paragraph) :
    paragraph.entryPositions.Pairwise (· < ·) := by
  rw [entryPositions, List.pairwise_filterMap]
  refine (pairwise_zipIdx paragraph.items).imp fun hLt i hPosition j hPosition' => ?_
  obtain ⟨_, -, rfl⟩ := Option.map_eq_some_iff.mp hPosition
  obtain ⟨_, -, rfl⟩ := Option.map_eq_some_iff.mp hPosition'
  exact hLt

/-- The slots of a section are listed from front to back, with the terminal at the end. -/
theorem Section.pairwise_slots (sect : Section) : sect.slots.Pairwise Slot.Before := by
  rw [slots, List.pairwise_append, List.pairwise_flatMap]
  refine ⟨⟨fun x _ => ?_, (pairwise_zipIdx sect.paragraphs).imp fun hLt slot hSlot slot' hSlot' => ?_⟩,
    ?_, fun slot hSlot slot' hSlot' => ?_⟩
  · -- within a paragraph
    exact List.pairwise_map.mpr (x.1.pairwise_entryPositions.imp .item)
  · -- from one paragraph to a later one
    obtain ⟨_, -, rfl⟩ := List.mem_map.mp hSlot
    obtain ⟨_, -, rfl⟩ := List.mem_map.mp hSlot'
    exact .paragraph hLt
  · cases sect.terminal <;> simp
  · -- from a paragraph to the pause
    obtain ⟨x, -, hSlot⟩ := List.mem_flatMap.mp hSlot
    obtain ⟨_, -, rfl⟩ := List.mem_map.mp hSlot
    obtain ⟨_, -, rfl⟩ := List.mem_map.mp hSlot'
    exact .terminal

namespace Scrap

variable {scrap later : Scrap}

/-- Places are listed in the order of the document. -/
theorem pairwise_places (scrap : Scrap) : scrap.places.Pairwise Place.Before := by
  rw [places, List.pairwise_flatMap]
  refine ⟨fun x _ => ?_,
    (pairwise_zipIdx scrap.sections).imp fun hLt place hPlace place' hPlace' => ?_⟩
  · exact List.pairwise_map.mpr (x.1.pairwise_slots.imp .slot)
  · obtain ⟨_, -, rfl⟩ := List.mem_map.mp hPlace
    obtain ⟨_, -, rfl⟩ := List.mem_map.mp hPlace'
    exact .sect hLt

/-- No place is listed twice. -/
theorem nodup_places (scrap : Scrap) : scrap.places.Nodup := scrap.pairwise_places.nodup

/-- What holds entries at the same places has the same places. -/
theorem places_eq_of_isSome
    (hSome : ∀ place, (later.entryAt? place).isSome = (scrap.entryAt? place).isSome) :
    later.places = scrap.places := by
  refine later.pairwise_places.eq_of_mem_iff scrap.pairwise_places fun place => ?_
  rw [mem_places_iff, mem_places_iff, ← Option.isSome_iff_exists, ← Option.isSome_iff_exists, hSome]

/-- What retains all entries has new places only in between. -/
theorem sublist_places_of_retains (hRetains : Retains scrap.entryAt? later.entryAt?) :
    scrap.places.Sublist later.places := by
  refine List.sublist_of_subperm_of_pairwise (List.subperm_of_subset scrap.nodup_places ?_)
    scrap.pairwise_places later.pairwise_places
  intro place hPlace
  obtain ⟨e, hAt⟩ := mem_places_iff.mp hPlace
  exact mem_places_iff.mpr ⟨e, hRetains hAt⟩

/-! ## Changing an entry -/

/-- What is left of a scrap when all of its entries are made the same: how it is built, of which sections and
paragraphs, and where in these entries and line breaks stand. -/
def shape (scrap : Scrap) : Scrap := scrap.map fun _ => .ofPause .sectionEnd

/-- Changing one entry keeps the shape of the scrap. -/
theorem shape_modifyAt (scrap : Scrap) (place : Place) (f : Entry → Entry) :
    (scrap.modifyAt place f).shape = scrap.shape :=
  scrap.map_modifyAt_of_eq (f := f) (fun _ => rfl) place

/-- Changing one entry keeps all places, as they are told by the shape. -/
theorem places_modifyAt (scrap : Scrap) (place : Place) (f : Entry → Entry) :
    (scrap.modifyAt place f).places = scrap.places := by
  refine places_eq_of_isSome fun other => ?_
  rw [entryAt?_modifyAt]
  split
  · rw [Option.isSome_map]
  · rfl

/-- A change at a place changes the entry at the same position of the list. -/
theorem entries_modifyAt {place : Place} {k : Nat} (hPlace : scrap.places[k]? = some place)
    (f : Entry → Entry) : (scrap.modifyAt place f).entries = scrap.entries.modify k f := by
  have hLt : k < scrap.places.length := (List.getElem?_eq_some_iff.mp hPlace).1
  apply List.ext_getElem?
  intro j
  rw [List.getElem?_modify, ← getElem?_places_bind, ← getElem?_places_bind, places_modifyAt]
  cases hOther : scrap.places[j]? with
  | none => rfl
  | some other =>
    -- no place is listed twice, so that this is the same place only at the same position
    have hSame : place = other ↔ k = j := by
      rw [← List.getElem?_inj hLt scrap.nodup_places, hPlace, hOther, Option.some.injEq]
    rw [Option.bind_some, Option.bind_some, entryAt?_modifyAt]
    by_cases hPosition : k = j
    · simp [hSame.mpr hPosition, hPosition]
    · simp [mt hSame.mp hPosition, hPosition]

/-! ## Putting something at an end -/

/-- What can be put into a scrap. A section is told by its number, and text goes into its open paragraph. -/
inductive Addition where
  | sect (sect : Section)
  | paragraph (number : Nat) (paragraph : Paragraph)
  | item (number : Nat) (item : Item)
  | endParagraph (number : Nat)
  | endSection (number : Nat)

def add (scrap : Scrap) : Addition → Scrap
  | .sect sect => scrap.push sect
  | .paragraph number paragraph => scrap.modifySection number (·.push paragraph)
  | .item number item => scrap.modifySection number (·.modifyOpen (·.append [item]))
  | .endParagraph number => scrap.modifySection number (·.modifyOpen Paragraph.close)
  | .endSection number => scrap.modifySection number Section.close

/-- The scrap with some additions, one after the other. -/
def extended (scrap : Scrap) (additions : List Addition) : Scrap := additions.foldl add scrap

/-- Whatever is added, the entries keep their places. -/
theorem retains_add (scrap : Scrap) (addition : Addition) :
    Retains scrap.entryAt? (scrap.add addition).entryAt? := by
  cases addition with
  | sect sect => exact scrap.retains_push sect
  | paragraph number paragraph =>
    exact scrap.retains_modifySection number fun sect => sect.retains_push paragraph
  | item number item =>
    exact scrap.retains_modifySection number fun sect =>
      sect.retains_modifyOpen fun paragraph => paragraph.retains_append [item]
  | endParagraph number =>
    exact scrap.retains_modifySection number fun sect =>
      sect.retains_modifyOpen fun paragraph => paragraph.extends_close.retains
  | endSection number =>
    exact scrap.retains_modifySection number fun sect => sect.extends_close.retains

/-- The places keep their entries through any additions. -/
theorem retains_extended (scrap : Scrap) (additions : List Addition) :
    Retains scrap.entryAt? (scrap.extended additions).entryAt? := by
  induction additions generalizing scrap with
  | nil => exact .refl _
  | cons addition rest ih => exact (scrap.retains_add addition).trans (ih _)

/-! ## Addresses -/

/-- The places of a scrap address its entries. There is one place for each entry, at the same position of the
list, and none is listed twice. A change at a place changes the entry there and nothing else, neither another
entry nor how the scrap is built. And whatever is put into the scrap afterwards, all places stay in the list,
in their order, and lead to the entries that they led to. -/
theorem places_address_entries (scrap : Scrap) :
    scrap.places.length = scrap.entries.length ∧ scrap.places.Nodup ∧
    (∀ k : Nat, (scrap.places[k]?).bind scrap.entryAt? = scrap.entries[k]?) ∧
    (∀ (k : Nat) (place : Place) (f : Entry → Entry), scrap.places[k]? = some place →
      (scrap.modifyAt place f).entries = scrap.entries.modify k f ∧
      (scrap.modifyAt place f).places = scrap.places ∧
      (scrap.modifyAt place f).shape = scrap.shape) ∧
    ∀ additions, scrap.places.Sublist (scrap.extended additions).places ∧
      ∀ place ∈ scrap.places, (scrap.extended additions).entryAt? place = scrap.entryAt? place := by
  refine ⟨scrap.length_places, scrap.nodup_places, scrap.getElem?_places_bind, ?_, ?_⟩
  · intro k place f hPlace
    exact ⟨entries_modifyAt hPlace f, scrap.places_modifyAt place f, scrap.shape_modifyAt place f⟩
  · intro additions
    refine ⟨sublist_places_of_retains (scrap.retains_extended additions), fun place hPlace => ?_⟩
    obtain ⟨e, hAt⟩ := mem_places_iff.mp hPlace
    rw [hAt, scrap.retains_extended additions hAt]

/-- A section that has ended, and one in which two letters with a line break between them wait for more. -/
def halfWritten : Scrap :=
  (empty 1).extended [.sect (.empty 7 "stage"), .endSection 7, .sect (.empty 8 "wings"),
    .paragraph 8 (.empty "ann"), .item 8 (.entry (.ofChar 'h')), .item 8 .lineBreak,
    .item 8 (.entry (.ofChar 'i'))]

/-- What comes behind the second letter: an emote, the pauses of its paragraph and its section, and another
section with the same number. -/
def remainder : List Addition :=
  [.item 8 (.entry (.ofEmote "nod")), .endSection 8, .sect (.empty 8 "stage"), .paragraph 8 (.empty "bob")]

/-- The second letter is the third entry. It can be hidden at its place without any other entry being hidden,
and it is still there when the scrap has become twice as long. -/
theorem places_address_entries_halfWritten :
    halfWritten.places[2]? = some ⟨1, .item 0 2⟩ ∧
    (halfWritten.modifyAt ⟨1, .item 0 2⟩ ({ · with visible := false })).entries.map Entry.visible =
      [true, true, false] ∧
    (halfWritten.modifyAt ⟨1, .item 0 2⟩ ({ · with visible := false })).shape = halfWritten.shape ∧
    (halfWritten.extended remainder).places.length = 6 ∧
    ⟨1, .item 0 2⟩ ∈ (halfWritten.extended remainder).places ∧
    (halfWritten.extended remainder).entryAt? ⟨1, .item 0 2⟩ = some (.ofChar 'i') := by
  obtain ⟨-, -, -, hChange, hGrowth⟩ := places_address_entries halfWritten
  have hPlace : halfWritten.places[2]? = some ⟨1, .item 0 2⟩ := by decide
  obtain ⟨hEntries, -, hShape⟩ := hChange 2 _ ({ · with visible := false }) hPlace
  obtain ⟨hSublist, hSame⟩ := hGrowth remainder
  have hMem : ⟨1, .item 0 2⟩ ∈ halfWritten.places := List.mem_of_getElem? hPlace
  refine ⟨hPlace, ?_, hShape, by decide, hSublist.subset hMem, ?_⟩
  · rw [hEntries]
    decide
  · rw [hSame _ hMem]
    rfl

end Scrap

end Dialogue
