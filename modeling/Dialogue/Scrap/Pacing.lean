import Dialogue.Scrap.Basic

/-!
# Pacing

Pacing walks through entries in document order and adds up their delays: each entry gets the delay
of its tier, and as its timestamp the sum of the delays so far. A paced entry is hidden until it is
revealed.
-/

namespace Dialogue

/-- Paces one entry that comes after the time `elapsed`. -/
def Entry.paced (tempo : Tempo) (elapsed : Millis) (entry : Entry) : Entry × Millis :=
  let delay := tempo.delay entry.tier
  ({ entry with delay, timestamp := elapsed + delay, visible := false, fading := false },
    elapsed + delay)

def Item.paced (tempo : Tempo) (elapsed : Millis) : Item → Item × Millis
  | .entry e =>
    let (e, elapsed) := e.paced tempo elapsed
    (.entry e, elapsed)
  | .lineBreak => (.lineBreak, elapsed)

def Paragraph.paced (tempo : Tempo) (elapsed : Millis) (paragraph : Paragraph) :
    Paragraph × Millis :=
  let (items, elapsed) := carry (Item.paced tempo) elapsed paragraph.items
  ({ paragraph with items }, elapsed)

/-- Paces a section, its pause last. -/
def Section.paced (tempo : Tempo) (elapsed : Millis) (sect : Section) : Section × Millis :=
  let (paragraphs, elapsed) := carry (Paragraph.paced tempo) elapsed sect.paragraphs
  match sect.terminal with
  | none => ({ sect with paragraphs }, elapsed)
  | some pause =>
    let (pause, elapsed) := pause.paced tempo elapsed
    ({ sect with paragraphs, terminal := some pause }, elapsed)

/-- Paces a scrap from its start, and gives the total. -/
def Scrap.paced (tempo : Tempo) (scrap : Scrap) : Scrap × Millis :=
  let (sections, elapsed) := carry (Section.paced tempo) 0 scrap.sections
  ({ scrap with sections }, elapsed)

/-- Paces the first section with a number from zero, and gives its total. -/
def Scrap.pacedSection? (tempo : Tempo) (scrap : Scrap) (number : Nat) :
    Option (Scrap × Millis) :=
  (scrap.section? number).map fun sect =>
    (scrap.modifySection number fun sect => (sect.paced tempo 0).1, (sect.paced tempo 0).2)

end Dialogue
