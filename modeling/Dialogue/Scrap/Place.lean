import Dialogue.Scrap.Basic

/-!
# Places

A `Place` is the address of an entry: the position of its section, and in there the position of its
paragraph and of the item, or the pause of the section. Putting something at the end of a scrap,
a section or a paragraph leaves the places of all that was there as they were.
-/

namespace Dialogue

/-- Where an entry sits in its section. -/
inductive Slot where
  | item (paragraph item : Nat)
  | terminal
deriving DecidableEq

/-- The address of an entry. The section is given by its position, not by its number. -/
structure Place where
  sect : Nat
  slot : Slot
deriving DecidableEq

/-! ## Listing the places -/

namespace Paragraph

/-- The positions of the entries among the items. -/
def entryPositions (paragraph : Paragraph) : List Nat :=
  paragraph.items.zipIdx.filterMap fun (item, i) => item.entry?.map fun _ => i

end Paragraph

namespace Section

/-- The slots of the entries, in document order. -/
def slots (sect : Section) : List Slot :=
  (sect.paragraphs.zipIdx.flatMap fun (paragraph, i) =>
      paragraph.entryPositions.map (Slot.item i)) ++
    sect.terminal.toList.map fun _ => .terminal

/-- The entry in a slot. -/
def entryAt? (sect : Section) : Slot → Option Entry
  | .item paragraph item =>
    (sect.paragraphs[paragraph]?).bind fun p => (p.items[item]?).bind Item.entry?
  | .terminal => sect.terminal

/-- Changes the entry in a slot, if there is one. -/
def modifyAt (sect : Section) (slot : Slot) (f : Entry → Entry) : Section :=
  match slot with
  | .item paragraph item =>
    { sect with
      paragraphs := sect.paragraphs.modify paragraph fun p =>
        { p with items := p.items.modify item (Item.map f) } }
  | .terminal => { sect with terminal := sect.terminal.map f }

end Section

namespace Scrap

/-- The places of the entries, in document order. -/
def places (scrap : Scrap) : List Place :=
  scrap.sections.zipIdx.flatMap fun (sect, i) => sect.slots.map (Place.mk i)

/-- The entry at a place. -/
def entryAt? (scrap : Scrap) (place : Place) : Option Entry :=
  (scrap.sections[place.sect]?).bind (·.entryAt? place.slot)

/-- Changes the entry at a place, if there is one. -/
def modifyAt (scrap : Scrap) (place : Place) (f : Entry → Entry) : Scrap :=
  { scrap with sections := scrap.sections.modify place.sect (·.modifyAt place.slot f) }

end Scrap

end Dialogue
