import Dialogue.Proofs.Scrap.Bare
import Dialogue.Proofs.Scrap.Paragraphs

/-!
# The outline of a scrap

The outline lists what was written, in document order: every character, emote and line break, with the
section and the paragraph that it stands in, both counted from one, and with the actor who speaks it. The
pauses that end paragraphs and sections are not in it, nor are the times of entries.

Main results:

* `Section.outline_close`, `Section.outline_modifyOpen_close` — ending something leaves the outline alone.
* `Section.outline_modifyOpen_append` — writing adds to the end of it.
* `Scrap.outline_of_bare_eq` — it is read off the bare text.
-/

namespace Dialogue

/-- What an item shows. -/
inductive Mark where
  | glyph (c : Char) (tier : Option Tier)
  | emote (name : String) (tier : Option Tier)
  | lineBreak
deriving DecidableEq

/-- A mark, where it stands, and who speaks it. -/
structure Passage where
  /-- The section, counted from one. -/
  sect : Nat
  /-- The paragraph of the section, counted from one. -/
  paragraph : Nat
  actor : String
  mark : Mark
deriving DecidableEq

/-! ## Outlines -/

/-- The outlines of things that are counted from one, one after the other. -/
def outlines {α : Type} (outline : Nat → α → List Passage) (l : List α) : List Passage :=
  (l.zipIdx 1).flatMap fun (a, ordinal) => outline ordinal a

/-- What an item shows; a pause shows nothing. -/
def Item.mark? : Item → Option Mark
  | .entry e =>
    match e.content with
    | .glyph c => some (.glyph c e.tier)
    | .emote name => some (.emote name e.tier)
    | .pause => none
  | .lineBreak => some .lineBreak

def Paragraph.outline (sect ordinal : Nat) (paragraph : Paragraph) : List Passage :=
  (paragraph.items.filterMap Item.mark?).map (⟨sect, ordinal, paragraph.actor, ·⟩)

def Section.outline (ordinal : Nat) (sect : Section) : List Passage :=
  outlines (Paragraph.outline ordinal) sect.paragraphs

def Scrap.outline (scrap : Scrap) : List Passage := outlines Section.outline scrap.sections

section Outlines

variable {α : Type} {outline : Nat → α → List Passage}

@[simp] theorem outlines_nil : outlines outline [] = [] := rfl

/-- The last of a list is outlined with the last number. -/
theorem outlines_append_singleton (l : List α) (a : α) :
    outlines outline (l ++ [a]) = outlines outline l ++ outline (l.length + 1) a := by
  simp [outlines, List.zipIdx_append, List.flatMap_append, Nat.add_comm]

/-- Changes that no outline sees. -/
theorem outlines_map {f : α → α} (hSame : ∀ ordinal a, outline ordinal (f a) = outline ordinal a)
    (l : List α) : outlines outline (l.map f) = outlines outline l := by
  simp only [outlines, List.zipIdx_map, List.flatMap_map]
  congr 1
  funext x
  exact hSame x.2 x.1

end Outlines

/-! ## Paragraphs -/

theorem Paragraph.outline_append (paragraph : Paragraph) (items : List Item) (sect ordinal : Nat) :
    (paragraph.append items).outline sect ordinal = paragraph.outline sect ordinal ++
      (items.filterMap Item.mark?).map (⟨sect, ordinal, paragraph.actor, ·⟩) := by
  simp [outline, append]

/-- A pause is not in the outline. -/
theorem Paragraph.outline_close (paragraph : Paragraph) (sect ordinal : Nat) :
    paragraph.close.outline sect ordinal = paragraph.outline sect ordinal := by
  unfold close
  split
  · rfl
  · show (paragraph.append [.entry (.ofPause .paragraphEnd)]).outline sect ordinal = _
    rw [outline_append]
    exact List.append_nil _

/-! ## Sections -/

namespace Section

variable (sect : Section) (ordinal : Nat)

/-- Changing the open paragraph is seen at the end of the outline. -/
theorem outline_modifyOpen {sect : Section} {paragraph : Paragraph}
    (hOpen : sect.openParagraph? = some paragraph) (f : Paragraph → Paragraph) :
    ∃ before, sect.outline ordinal =
        before ++ paragraph.outline ordinal sect.paragraphs.length ∧
      (sect.modifyOpen f).outline ordinal =
        before ++ (f paragraph).outline ordinal sect.paragraphs.length := by
  obtain ⟨⟨earlier, hSplit⟩, hOpen⟩ := openParagraph?_eq_some.mp hOpen
  refine ⟨outlines (Paragraph.outline ordinal) earlier, ?_, ?_⟩
  · rw [outline, hSplit, outlines_append_singleton, List.length_append, List.length_singleton]
  · rw [modifyOpen_of_split hSplit hOpen, outline, outlines_append_singleton, hSplit,
      List.length_append, List.length_singleton]

/-- Closing the open paragraph adds pauses only, which an outline leaves out. -/
theorem outline_modifyOpen_close :
    (sect.modifyOpen Paragraph.close).outline ordinal = sect.outline ordinal := by
  cases hOpen : sect.openParagraph? with
  | none => rw [modifyOpen_of_none hOpen]
  | some paragraph =>
    obtain ⟨before, hBefore, hAfter⟩ := outline_modifyOpen ordinal hOpen Paragraph.close
    rw [hBefore, hAfter, Paragraph.outline_close]

/-- Closing a section keeps its outline. -/
theorem outline_close : sect.close.outline ordinal = sect.outline ordinal := by
  unfold close
  split
  · rfl
  · exact sect.outline_modifyOpen_close ordinal

/-- A paragraph without items is not in the outline. -/
theorem outline_push_empty (actor : String) :
    (sect.push (.empty actor)).outline ordinal = sect.outline ordinal := by
  rw [outline, push, outlines_append_singleton]
  exact List.append_nil _

/-- What is written into the open paragraph comes last. -/
theorem outline_modifyOpen_append {sect : Section} {paragraph : Paragraph}
    (hOpen : sect.openParagraph? = some paragraph) (items : List Item) :
    (sect.modifyOpen (·.append items)).outline ordinal = sect.outline ordinal ++
      (items.filterMap Item.mark?).map
        (⟨ordinal, sect.paragraphs.length, paragraph.actor, ·⟩) := by
  obtain ⟨before, hBefore, hAfter⟩ := outline_modifyOpen ordinal hOpen (·.append items)
  rw [hBefore, hAfter, Paragraph.outline_append, List.append_assoc]

end Section

/-! ## The bare text -/

theorem Item.mark?_bare (item : Item) : (item.map Entry.bare).mark? = item.mark? := by
  cases item <;> rfl

theorem Paragraph.outline_bare (sect ordinal : Nat) (paragraph : Paragraph) :
    (paragraph.map Entry.bare).outline sect ordinal = paragraph.outline sect ordinal := by
  have hMarks : (paragraph.items.map (Item.map Entry.bare)).filterMap Item.mark? =
      paragraph.items.filterMap Item.mark? := by
    rw [List.filterMap_map]
    congr 1
    funext item
    exact item.mark?_bare
  simp only [outline, map, hMarks]

theorem Section.outline_bare (ordinal : Nat) (sect : Section) :
    (sect.map Entry.bare).outline ordinal = sect.outline ordinal :=
  outlines_map (Paragraph.outline_bare ordinal) sect.paragraphs

/-- Scraps that are bare the same have the same outline. -/
theorem Scrap.outline_of_bare_eq {scrap later : Scrap} (hBare : later.bare = scrap.bare) :
    later.outline = scrap.outline := by
  have hOutline : ∀ scrap : Scrap, scrap.bare.outline = scrap.outline := fun scrap =>
    outlines_map Section.outline_bare scrap.sections
  rw [← hOutline later, hBare, hOutline]

end Dialogue
