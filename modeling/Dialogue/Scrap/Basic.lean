import Dialogue.Pace.Punctuation
import Dialogue.Sequence

/-!
# Scraps

A `Scrap` is the tree of one talk: sections hold paragraphs, and a paragraph holds the items that
one actor speaks. An item is a line break or an `Entry`, which is revealed at its own time: a
character, an emote, or the pause that closes a paragraph or a section. Document order is depth
first, with the pause of a section after its paragraphs.
-/

namespace Dialogue

/-! ## Entries -/

/-- What an entry shows. -/
inductive Content where
  | glyph (c : Char)
  /-- A mark without width that sets off an emote. -/
  | emote (name : String)
  /-- The pause at the end of a paragraph or a section. -/
  | pause
deriving DecidableEq

/-- Something revealed at its own time. -/
structure Entry where
  content : Content
  tier : Option Tier
  /-- The wait before this entry. -/
  delay : Millis
  /-- The time from the start of the talk until this entry is revealed. -/
  timestamp : Millis
  visible : Bool
  /-- Whether the entry is being faded in. -/
  fading : Bool
deriving DecidableEq

namespace Entry

/-- An entry before it is paced: visible, without delay. -/
def unpaced (content : Content) (tier : Option Tier) : Entry := ⟨content, tier, 0, 0, true, false⟩

/-- A character, paced by its punctuation. -/
def ofChar (c : Char) : Entry := unpaced (.glyph c) (some (Punctuation.tierOf c))

/-- An emote. It waits for nothing. -/
def ofEmote (name : String) : Entry := unpaced (.emote name) none

/-- A pause of a tier. -/
def ofPause (tier : Tier) : Entry := unpaced .pause (some tier)

/-- The character of a glyph. -/
def glyph? (entry : Entry) : Option Char :=
  match entry.content with
  | .glyph c => some c
  | .emote _ | .pause => none

/-- The name of an emote. -/
def emote? (entry : Entry) : Option String :=
  match entry.content with
  | .emote name => some name
  | .glyph _ | .pause => none

def isPause (entry : Entry) : Bool := entry.content = .pause

end Entry

/-! ## Paragraphs -/

/-- A child of a paragraph. -/
inductive Item where
  | entry (entry : Entry)
  | lineBreak
deriving DecidableEq

namespace Item

def entry? : Item → Option Entry
  | entry e => some e
  | lineBreak => none

/-- Changes an entry; a line break stays. -/
def map (f : Entry → Entry) : Item → Item
  | entry e => entry (f e)
  | lineBreak => lineBreak

end Item

/-- What one actor speaks in one go. -/
structure Paragraph where
  actor : String
  items : List Item
  closed : Bool
deriving DecidableEq

namespace Paragraph

/-- A paragraph without items. -/
def empty (actor : String) : Paragraph := ⟨actor, [], false⟩

/-- Puts items at the end. -/
def append (paragraph : Paragraph) (items : List Item) : Paragraph :=
  { paragraph with items := paragraph.items ++ items }

/-- Closes an open paragraph, with its pause at the end. -/
def close (paragraph : Paragraph) : Paragraph :=
  if paragraph.closed then paragraph
  else { paragraph.append [.entry (.ofPause .paragraphEnd)] with closed := true }

def entries (paragraph : Paragraph) : List Entry := paragraph.items.filterMap Item.entry?

/-- The authored characters. -/
def text (paragraph : Paragraph) : String :=
  String.ofList (paragraph.entries.filterMap Entry.glyph?)

/-- Changes every entry. -/
def map (f : Entry → Entry) (paragraph : Paragraph) : Paragraph :=
  { paragraph with items := paragraph.items.map (Item.map f) }

end Paragraph

/-! ## Sections -/

/-- Paragraphs shown together in one area. -/
structure Section where
  /-- The number of the section on its registry. -/
  number : Nat
  area : String
  paragraphs : List Paragraph
  /-- The pause at the end of a closed section. -/
  terminal : Option Entry
deriving DecidableEq

namespace Section

/-- A section without paragraphs. -/
def empty (number : Nat) (area : String) : Section := ⟨number, area, [], none⟩

/-- The last paragraph, if it is open. -/
def openParagraph? (sect : Section) : Option Paragraph :=
  sect.paragraphs.getLast?.filter (!·.closed)

def hasOpenParagraph (sect : Section) : Bool := sect.openParagraph?.isSome

/-- Puts a paragraph at the end. -/
def push (sect : Section) (paragraph : Paragraph) : Section :=
  { sect with paragraphs := sect.paragraphs ++ [paragraph] }

/-- Changes the open paragraph, if there is one. -/
def modifyOpen (f : Paragraph → Paragraph) (sect : Section) : Section :=
  if sect.hasOpenParagraph then { sect with paragraphs := modifyLast f sect.paragraphs }
  else sect

def isClosed (sect : Section) : Bool := sect.terminal.isSome

/-- Closes an open section: first its open paragraph, then with its own pause. -/
def close (sect : Section) : Section :=
  if sect.isClosed then sect
  else { sect.modifyOpen Paragraph.close with terminal := some (.ofPause .sectionEnd) }

def entries (sect : Section) : List Entry :=
  sect.paragraphs.flatMap Paragraph.entries ++ sect.terminal.toList

/-- Changes every entry. -/
def map (f : Entry → Entry) (sect : Section) : Section :=
  { sect with
    paragraphs := sect.paragraphs.map (Paragraph.map f)
    terminal := sect.terminal.map f }

end Section

/-! ## Scraps -/

/-- The tree of one talk. -/
structure Scrap where
  /-- The number of the talk on its registry. -/
  number : Nat
  sections : List Section
deriving DecidableEq

namespace Scrap

/-- A scrap without sections. -/
def empty (number : Nat) : Scrap := ⟨number, []⟩

/-- The name of the scrap's element. -/
def name (scrap : Scrap) : String := "scrap" ++ toString scrap.number

def entries (scrap : Scrap) : List Entry := scrap.sections.flatMap Section.entries

def entryCount (scrap : Scrap) : Nat := scrap.entries.length

/-- Puts a section at the end. -/
def push (scrap : Scrap) (sect : Section) : Scrap :=
  { scrap with sections := scrap.sections ++ [sect] }

/-- The first section with a number. -/
def section? (scrap : Scrap) (number : Nat) : Option Section :=
  scrap.sections.find? (·.number = number)

/-- Changes the first of the sections with a number. -/
def modifyFirst (number : Nat) (f : Section → Section) : List Section → List Section
  | [] => []
  | sect :: rest =>
    if sect.number = number then f sect :: rest else sect :: modifyFirst number f rest

/-- Changes the first section with a number, if there is one. -/
def modifySection (scrap : Scrap) (number : Nat) (f : Section → Section) : Scrap :=
  { scrap with sections := modifyFirst number f scrap.sections }

/-- Changes every entry. -/
def map (f : Entry → Entry) (scrap : Scrap) : Scrap :=
  { scrap with sections := scrap.sections.map (Section.map f) }

end Scrap

end Dialogue
