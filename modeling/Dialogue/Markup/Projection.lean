import Dialogue.Areas
import Dialogue.Markup.Node
import Dialogue.Scrap.Basic

/-!
# The markup of a scrap

A scrap is shown as a tree: an element for the scrap, one for each section, one for each
paragraph, and a span for each entry. The attributes of a span carry the pace of its entry;
classes tell what is hidden, waiting or fading.
-/

namespace Dialogue.Markup

/-- The classes of an entry's span. -/
def entryClasses (e : Entry) : List String :=
  "char" ::
    ((match e.content with
      | .glyph _ => []
      | .emote _ => ["emote"]
      | .pause => (e.tier.map Tier.name).toList) ++
    if !e.visible then ["waiting"] else if e.fading then ["fading"] else [])

/-- The attributes of an entry's span. -/
def entryAttributes (e : Entry) : List (String × String) :=
  (e.emote?.map fun name => ("data-emote", name)).toList ++
    (e.tier.map fun tier => ("data-wait-type", tier.name)).toList ++
    [("data-ms", toString e.delay), ("data-start-time", toString e.timestamp)]

/-- The span of an entry. -/
def ofEntry (e : Entry) : Node where
  tag := "span"
  classes := entryClasses e
  attributes := entryAttributes e
  text := e.glyph?.map Char.toString
  children := []

def ofItem : Item → Node
  | .entry e => ofEntry e
  | .lineBreak => .empty "br"

def ofParagraph (paragraph : Paragraph) : Node where
  tag := "p"
  classes := ["paragraph"]
  attributes := [("data-actor", paragraph.actor)]
  text := none
  children := paragraph.items.map ofItem

/-- The classes of a section's element: those of its area, if it has one. -/
def sectionClasses (areas : Areas) (sect : Section) : List String :=
  match areas.record? sect.number with
  | some record => record.classes
  | none => ["section", sect.area]

def ofSection (areas : Areas) (sect : Section) : Node where
  tag := "div"
  classes := sectionClasses areas sect
  attributes := [("data-section-index", toString sect.number)]
  text := none
  children := sect.paragraphs.map ofParagraph ++ sect.terminal.toList.map ofEntry

/-- The markup of a scrap whose sections are shown in `areas`. -/
def ofScrap (areas : Areas) (scrap : Scrap) : Node where
  tag := "div"
  classes := ["scrap", scrap.name]
  attributes := []
  text := none
  children := scrap.sections.map (ofSection areas)

end Dialogue.Markup
