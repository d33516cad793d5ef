import Dialogue.Talk.Basic

/-!
# Authoring

A talk is written from front to back by seven kinds of `Direction`. Text goes into the open
paragraph of the current section; where there is none, the default actor starts one, and where
there is no section, the next area of the rotation gets one. Once a talk is closing, all
directions but the two that only end something are refused.
-/

namespace Dialogue

/-- One step of writing a talk. -/
inductive Direction where
  /-- Starts a section in an area, or in the next one of the rotation. -/
  | beginSection (area : Option String)
  | endSection
  /-- Starts a paragraph spoken by an actor. -/
  | beginParagraph (actor : String)
  | endParagraph
  /-- Speaks a text. -/
  | speak (text : String)
  | emote (name : String)
  | lineBreak
deriving DecidableEq

namespace Talk

/-- Whether the talk takes no more text. -/
def isClosing (talk : Talk) : Bool := !talk.isPending .closing

/-- Carries out an authoring step, or refuses it once the talk is closing. -/
def unlessClosing (talk : Talk) (write : Talk → Talk) : Talk :=
  if talk.isClosing then talk.report .warn "ignoring authoring call after close" else write talk

/-! ## Sections -/

/-- Closes the current section, if there is one. -/
def endSection (talk : Talk) : Talk :=
  match talk.currentSection with
  | some number =>
    { talk with
      currentSection := none
      scrap := talk.scrap.modifySection number Section.close }
  | none => talk

/-- Closes the current section and starts another one. -/
def startSection (talk : Talk) (asked : Option String) : Talk :=
  let talk := talk.endSection
  let (number, registry) := talk.registry.nextSection
  -- the rotation is asked before it moves on
  let area := talk.areas.areaFor asked
  let areas := talk.areas.start asked number
  let started := { talk with
    registry
    areas := { areas with records := modifyLast AreaRecord.opening areas.records }
    scrap := talk.scrap.push (.empty number area)
    currentSection := some number
    closingSections := talk.closingSections ++ [number] }
  (started.reportLines (talk.areas.startLog asked)).report .debug
    ("section " ++ toString number ++ " in " ++ area)

/-- Starts a section, unless the talk is closing. -/
def beginSection (talk : Talk) (area : Option String) : Talk :=
  talk.unlessClosing (·.startSection area)

/-! ## Paragraphs -/

/-- The section that takes new text. -/
def currentSection? (talk : Talk) : Option Section :=
  talk.currentSection.bind talk.scrap.section?

def hasOpenParagraph (talk : Talk) : Bool := talk.currentSection?.any Section.hasOpenParagraph

/-- Changes the section that takes new text, if there is one. -/
def modifyCurrent (talk : Talk) (f : Section → Section) : Talk :=
  match talk.currentSection with
  | some number => { talk with scrap := talk.scrap.modifySection number f }
  | none => talk

/-- Closes the open paragraph, if there is one. -/
def endParagraph (talk : Talk) : Talk := talk.modifyCurrent (Section.modifyOpen Paragraph.close)

/-- Closes the open paragraph and starts another one. -/
def startParagraph (talk : Talk) (actor : String) : Talk :=
  -- a new section has no open paragraph, so that closing one then changes nothing
  let talk := if talk.currentSection.isNone then talk.startSection none else talk
  talk.endParagraph.modifyCurrent (·.push (.empty actor))

/-- Starts a paragraph, unless the talk is closing. -/
def beginParagraph (talk : Talk) (actor : String) : Talk :=
  talk.unlessClosing (·.startParagraph actor)

/-- Makes sure that there is an open paragraph. -/
def withParagraph (talk : Talk) : Talk :=
  if talk.hasOpenParagraph then talk
  else
    (talk.report .debug
      ("no open paragraph, opening one for '" ++ talk.options.defaultActor ++ "'")).startParagraph
      talk.options.defaultActor

/-! ## Text -/

/-- Puts items at the end of the open paragraph. -/
def write (talk : Talk) (items : List Item) : Talk :=
  talk.unlessClosing fun talk =>
    talk.withParagraph.modifyCurrent (Section.modifyOpen (·.append items))

/-- Speaks a text: one entry for each character. -/
def speak (talk : Talk) (text : String) : Talk :=
  talk.write (text.toList.map fun c => .entry (.ofChar c))

def emote (talk : Talk) (name : String) : Talk := talk.write [.entry (.ofEmote name)]

def lineBreak (talk : Talk) : Talk := talk.write [.lineBreak]

/-- Carries out one direction. -/
def direct (talk : Talk) : Direction → Talk
  | .beginSection area => talk.beginSection area
  | .endSection => talk.endSection
  | .beginParagraph actor => talk.beginParagraph actor
  | .endParagraph => talk.endParagraph
  | .speak text => talk.speak text
  | .emote name => talk.emote name
  | .lineBreak => talk.lineBreak

/-- Carries out directions in order. -/
def directAll (talk : Talk) (directions : List Direction) : Talk := directions.foldl direct talk

end Talk

end Dialogue
