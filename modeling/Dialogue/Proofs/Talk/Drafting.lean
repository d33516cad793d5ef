import Dialogue.Proofs.Scrap.Outline
import Dialogue.Proofs.Talk.Reach

/-!
# Drafts

Where a text goes is settled by the directions alone. A `Draft` follows them without a scrap: it counts
sections and paragraphs, keeps in mind who speaks, and lists the passages. The outline of the scrap is what
the draft lists, whatever else is done to the talk in between.

Main results:

* `Talk.drafted_direct` — a direction does to the draft what it does to the scrap.
* `Talk.outline_direct_of_closing` — once the talk is closing, no direction adds to the outline.
* `Talk.outline_eq_draft` — the outline of a talk is the draft of the directions that it was given before it
  was asked to close.
-/

namespace Dialogue

/-! ## Drafts -/

/-- A text as its directions tell it: the passages so far, and where the next one goes. -/
structure Draft where
  passages : List Passage
  /-- How many sections have started. -/
  sections : Nat
  /-- Whether the last section takes new text. -/
  inSection : Bool
  /-- How many paragraphs have started in the last section. -/
  paragraphs : Nat
  /-- Who speaks the open paragraph, if there is one. -/
  speaker : Option String
deriving DecidableEq

namespace Draft

/-- Nothing is written. -/
def empty : Draft := ⟨[], 0, false, 0, none⟩

/-- A new section has no open paragraph. -/
def beginSection (draft : Draft) : Draft :=
  { draft with sections := draft.sections + 1, inSection := true, paragraphs := 0, speaker := none }

def endSection (draft : Draft) : Draft := { draft with inSection := false, speaker := none }

/-- A new paragraph of an actor, in a new section if there is none. -/
def beginParagraph (draft : Draft) (actor : String) : Draft :=
  let draft := if draft.inSection then draft else draft.beginSection
  { draft with paragraphs := draft.paragraphs + 1, speaker := some actor }

def endParagraph (draft : Draft) : Draft := { draft with speaker := none }

/-- Puts marks where the draft stands. -/
def put (draft : Draft) (actor : String) (marks : List Mark) : Draft :=
  { draft with
    passages := draft.passages ++ marks.map (⟨draft.sections, draft.paragraphs, actor, ·⟩) }

/-- Puts marks into the open paragraph, or into a new one of the default actor. -/
def write (defaultActor : String) (draft : Draft) (marks : List Mark) : Draft :=
  match draft.speaker with
  | some actor => draft.put actor marks
  | none => (draft.beginParagraph defaultActor).put defaultActor marks

/-- Follows one direction. -/
def follow (defaultActor : String) (draft : Draft) : Direction → Draft
  | .beginSection _ => draft.beginSection
  | .endSection => draft.endSection
  | .beginParagraph actor => draft.beginParagraph actor
  | .endParagraph => draft.endParagraph
  | .speak text =>
    draft.write defaultActor (text.toList.map fun c => .glyph c (some (Punctuation.tierOf c)))
  | .emote name => draft.write defaultActor [.emote name none]
  | .lineBreak => draft.write defaultActor [.lineBreak]

/-- Follows directions from the first to the last. -/
def ofDirections (defaultActor : String) (directions : List Direction) : Draft :=
  directions.foldl (follow defaultActor) empty

end Draft

/-! ## Where a section stands -/

/-- How many paragraphs there are in a section, and who speaks the open one. -/
def Section.desk (sect : Section) : Nat × Option String :=
  (sect.paragraphs.length, sect.openParagraph?.map Paragraph.actor)

/-- What is on the desk does not depend on times. -/
theorem Section.desk_bare (sect : Section) : (sect.map Entry.bare).desk = sect.desk := by
  simp only [desk, openParagraph?, map, List.length_map, List.getLast?_map]
  cases sect.paragraphs.getLast? with
  | none => rfl
  | some paragraph => cases hClosed : paragraph.closed <;> simp [Paragraph.map, Option.filter, hClosed]

/-- A draft tells of a section with others before it. -/
structure Draft.Tells (draft : Draft) (earlier : List Section) (last : Section) : Prop where
  passages : outlines Section.outline earlier ++ last.outline (earlier.length + 1) = draft.passages
  sections : earlier.length + 1 = draft.sections
  inSection : draft.inSection = true
  desk : last.desk = (draft.paragraphs, draft.speaker)

namespace Draft.Tells

variable {draft : Draft} {earlier : List Section} {last : Section}

theorem length (h : draft.Tells earlier last) : last.paragraphs.length = draft.paragraphs :=
  congrArg Prod.fst h.desk

theorem speaker (h : draft.Tells earlier last) :
    last.openParagraph?.map Paragraph.actor = draft.speaker := congrArg Prod.snd h.desk

/-- Both end the paragraph. -/
theorem endParagraph (h : draft.Tells earlier last) :
    draft.endParagraph.Tells earlier (last.modifyOpen Paragraph.close) where
  passages := by
    rw [Section.outline_modifyOpen_close]
    exact h.passages
  sections := h.sections
  inSection := h.inSection
  desk := by
    rw [Section.desk, Section.length_modifyOpen, Section.openParagraph?_modifyOpen_close, h.length]
    rfl

/-- Both begin a paragraph. -/
theorem beginParagraph (h : draft.Tells earlier last) (actor : String) :
    (draft.beginParagraph actor).Tells earlier (last.push (.empty actor)) := by
  have hBegun : draft.beginParagraph actor =
      { draft with paragraphs := draft.paragraphs + 1, speaker := some actor } := by
    simp [Draft.beginParagraph, h.inSection]
  rw [hBegun]
  refine ⟨?_, h.sections, h.inSection, ?_⟩
  · rw [Section.outline_push_empty]
    exact h.passages
  · rw [Section.desk, Section.openParagraph?_push, Section.push, List.length_append, h.length]
    rfl

/-- Both take the same marks, if somebody speaks. -/
theorem put (h : draft.Tells earlier last) {actor : String} (hSpeaker : draft.speaker = some actor)
    {items : List Item} {marks : List Mark} (hMarks : items.filterMap Item.mark? = marks) :
    (draft.put actor marks).Tells earlier (last.modifyOpen (·.append items)) := by
  have hOpen := h.speaker
  rw [hSpeaker] at hOpen
  obtain ⟨paragraph, hParagraph, rfl⟩ := Option.map_eq_some_iff.mp hOpen
  refine ⟨?_, h.sections, h.inSection, ?_⟩
  · rw [Section.outline_modifyOpen_append _ hParagraph, hMarks, ← List.append_assoc, h.passages,
      h.sections, h.length]
    rfl
  · -- the paragraph stays open, and the actor the same
    rw [Section.desk, Section.length_modifyOpen, Section.openParagraph?_modifyOpen_append, h.length,
      hParagraph]
    show _ = (draft.paragraphs, draft.speaker)
    rw [hSpeaker]
    rfl

end Draft.Tells

namespace Talk

/-! ## Drafts of talks -/

/-- A draft tells of a talk: what is written, and where the next direction goes. -/
structure Drafted (draft : Draft) (talk : Talk) : Prop where
  passages : talk.scrap.outline = draft.passages
  sections : talk.scrap.sections.length = draft.sections
  inSection : talk.currentSection.isSome = draft.inSection
  desk : talk.currentSection.isSome = true →
    (talk.scrap.sections.map Section.desk).getLast? = some (draft.paragraphs, draft.speaker)
  idle : talk.currentSection = none → draft.speaker = none

/-- Whatever is done to the current section, it stays the current one. -/
@[simp] theorem currentSection_modifyCurrent (talk : Talk) (f : Section → Section) :
    (talk.modifyCurrent f).currentSection = talk.currentSection := by
  unfold modifyCurrent
  split <;> rfl

/-- A new talk has nothing on it, as an empty draft has. -/
theorem drafted_of_isNew {talk : Talk} (hNew : talk.IsNew) : Drafted .empty talk where
  passages := by
    rw [Scrap.outline, hNew.scrap]
    rfl
  sections := by
    rw [hNew.scrap]
    rfl
  inSection := by
    rw [hNew.currentSection]
    rfl
  desk hSome := by
    rw [hNew.currentSection] at hSome
    cases hSome
  idle _ := rfl

namespace Drafted

variable {draft : Draft} {talk later : Talk}

/-- What is not written is not in a draft. -/
theorem sameText (h : Drafted draft talk) (hSame : SameText talk later) : Drafted draft later where
  passages := by rw [Scrap.outline_of_bare_eq hSame.scrap, h.passages]
  sections := by
    have hLength := congrArg List.length
      (Scrap.map_sections_of_bare_eq Section.desk_bare hSame.scrap)
    rw [List.length_map, List.length_map] at hLength
    rw [hLength, h.sections]
  inSection := by rw [hSame.currentSection, h.inSection]
  desk hSome := by
    rw [hSame.currentSection] at hSome
    rw [Scrap.map_sections_of_bare_eq Section.desk_bare hSame.scrap, h.desk hSome]
  idle hNone := by
    rw [hSame.currentSection] at hNone
    exact h.idle hNone

/-- With the current section in sight, the draft tells of it and of those before it. -/
theorem iff_tells {number : Nat} (hCurrent : talk.currentSection = some number)
    {earlier : List Section} {last : Section} (hSections : talk.scrap.sections = earlier ++ [last]) :
    Drafted draft talk ↔ draft.Tells earlier last := by
  constructor
  · intro h
    have hPassages := h.passages
    have hCount := h.sections
    have hIn := h.inSection
    have hDesk := h.desk (by rw [hCurrent]; rfl)
    -- the last section is the current one, and it alone has a desk
    rw [Scrap.outline, hSections, outlines_append_singleton] at hPassages
    rw [hSections, List.length_append] at hCount
    rw [hCurrent] at hIn
    rw [hSections, List.map_append, List.map_singleton, List.getLast?_concat,
      Option.some.injEq] at hDesk
    exact ⟨hPassages, hCount, hIn.symm, hDesk⟩
  · intro h
    refine ⟨?_, ?_, ?_, fun _ => ?_, fun hNone => ?_⟩
    · rw [Scrap.outline, hSections, outlines_append_singleton, h.passages]
    · rw [hSections, List.length_append]
      exact h.sections
    · rw [hCurrent, h.inSection]
      rfl
    · rw [hSections, List.map_append, List.map_singleton, List.getLast?_concat, h.desk]
    · rw [hCurrent] at hNone
      cases hNone

/-- A change of the current section, told by what it does to the section. -/
theorem modifyCurrent (h : Drafted draft talk) (hOrderly : Orderly talk)
    (hCurrent : talk.currentSection.isSome = true) {f : Section → Section} {draft' : Draft}
    (hStep : ∀ {earlier last}, draft.Tells earlier last → draft'.Tells earlier (f last)) :
    Drafted draft' (talk.modifyCurrent f) := by
  obtain ⟨number, hNumber⟩ := Option.isSome_iff_exists.mp hCurrent
  obtain ⟨earlier, last, hSections, hModify, -⟩ := hOrderly.modifyCurrent_eq hNumber
  have hTells := (iff_tells hNumber hSections).mp h
  have hStill : (talk.modifyCurrent f).currentSection = some number := by
    rw [currentSection_modifyCurrent, hNumber]
  have hChanged : (talk.modifyCurrent f).scrap.sections = earlier ++ [f last] := by rw [hModify]
  exact (iff_tells hStill hChanged).mpr (hStep hTells)

/-- The end of the section comes to both. -/
theorem endSection (h : Drafted draft talk) (hOrderly : Orderly talk) :
    Drafted draft.endSection talk.endSection := by
  cases hCurrent : talk.currentSection with
  | none =>
    rw [endSection_of_none hCurrent]
    refine ⟨h.passages, h.sections, ?_, fun hSome => ?_, fun _ => rfl⟩
    · rw [hCurrent]
      rfl
    · rw [hCurrent] at hSome
      cases hSome
  | some number =>
    obtain ⟨earlier, last, hSections, -, hEnd⟩ := hOrderly.modifyCurrent_eq hCurrent
    have hTells := (iff_tells hCurrent hSections).mp h
    rw [hEnd]
    refine ⟨?_, ?_, rfl, fun hSome => ?_, fun _ => rfl⟩
    · show outlines Section.outline (earlier ++ [last.close]) = draft.passages
      rw [outlines_append_singleton, Section.outline_close, hTells.passages]
    · show (earlier ++ [last.close]).length = draft.sections
      rw [List.length_append]
      exact hTells.sections
    · cases hSome

/-- A section begins in both. -/
theorem startSection (h : Drafted draft talk) (hOrderly : Orderly talk) (asked : Option String) :
    Drafted draft.beginSection (talk.startSection asked) := by
  -- the new section comes after all that there were, the last of them ended
  have hEnded := h.endSection hOrderly
  have hSections : (talk.startSection asked).scrap.sections = talk.endSection.scrap.sections ++
      [.empty (talk.endSection.registry.sections + 1) (talk.endSection.areas.areaFor asked)] := rfl
  have hCurrent : (talk.startSection asked).currentSection =
      some (talk.endSection.registry.sections + 1) := rfl
  refine (iff_tells hCurrent hSections).mpr ⟨?_, ?_, rfl, rfl⟩
  · show talk.endSection.scrap.outline ++ [] = draft.passages
    rw [List.append_nil, hEnded.passages]
    rfl
  · rw [hEnded.sections]
    rfl

/-- The end of the paragraph comes to both. -/
theorem endParagraph (h : Drafted draft talk) (hOrderly : Orderly talk) :
    Drafted draft.endParagraph talk.endParagraph := by
  cases hCurrent : talk.currentSection with
  | none =>
    rw [endParagraph_of_none hCurrent]
    refine ⟨h.passages, h.sections, h.inSection, fun hSome => ?_, fun _ => rfl⟩
    rw [hCurrent] at hSome
    cases hSome
  | some number =>
    exact h.modifyCurrent hOrderly (by rw [hCurrent]; rfl) Draft.Tells.endParagraph

/-- In a section, the open paragraph is ended before another one starts. -/
theorem nextParagraph (h : Drafted draft talk) (hOrderly : Orderly talk)
    (hCurrent : talk.currentSection.isSome = true) (actor : String) :
    Drafted (draft.beginParagraph actor)
      (talk.endParagraph.modifyCurrent (·.push (.empty actor))) := by
  have hEnded := h.endParagraph hOrderly
  have hStill : talk.endParagraph.currentSection.isSome = true := by
    rw [Talk.endParagraph, currentSection_modifyCurrent, hCurrent]
  have hBegun := hEnded.modifyCurrent (orderly_direct hOrderly .endParagraph) hStill
    fun hTells => hTells.beginParagraph actor
  -- the speaker is another one in any case
  have hSame : draft.endParagraph.beginParagraph actor = draft.beginParagraph actor := by
    have hIn : draft.inSection = true := by rw [← h.inSection, hCurrent]
    simp [Draft.beginParagraph, Draft.endParagraph, hIn]
  rwa [hSame] at hBegun

/-- A paragraph begins in both, and with it a section if there is none. -/
theorem startParagraph (h : Drafted draft talk) (hOrderly : Orderly talk) (actor : String) :
    Drafted (draft.beginParagraph actor) (talk.startParagraph actor) := by
  have hIn := h.inSection
  unfold Talk.startParagraph
  cases hCurrent : talk.currentSection with
  | none =>
    -- a section is started first, in the draft as in the talk
    rw [hCurrent] at hIn
    have hNext := (h.startSection hOrderly none).nextParagraph (orderly_startSection hOrderly none)
      rfl actor
    have hSame : draft.beginSection.beginParagraph actor = draft.beginParagraph actor := by
      simp [Draft.beginParagraph, Draft.beginSection, ← hIn]
    rwa [hSame] at hNext
  | some number => exact h.nextParagraph hOrderly (by rw [hCurrent]; rfl) actor

/-- A paragraph is open in the talk where one is open in the draft. -/
theorem hasOpenParagraph (h : Drafted draft talk) (hOrderly : Orderly talk) :
    talk.hasOpenParagraph = draft.speaker.isSome := by
  unfold Talk.hasOpenParagraph currentSection?
  cases hCurrent : talk.currentSection with
  | none =>
    rw [h.idle hCurrent]
    rfl
  | some number =>
    obtain ⟨earlier, last, hSections, hLast, -, hEarlier, -⟩ := hOrderly.split hCurrent
    have hTells := (iff_tells hCurrent hSections).mp h
    -- the section is found by its number
    have hFound : talk.scrap.section? number = some last := by
      rw [Scrap.section?, hSections, List.find?_append, List.find?_eq_none.mpr]
      · simp [hLast]
      · intro sect hMem
        simpa using (hEarlier sect hMem).1
    rw [Option.bind_some, hFound, ← hTells.speaker]
    simp [Section.hasOpenParagraph]

/-- What is written goes to the open paragraph in both, or to a new one of the default actor. -/
theorem write (h : Drafted draft talk) (hOrderly : Orderly talk) (hOpen : talk.isClosing = false)
    {items : List Item} {marks : List Mark} (hMarks : items.filterMap Item.mark? = marks) :
    Drafted (draft.write talk.options.defaultActor marks) (talk.write items) := by
  have hHas := h.hasOpenParagraph hOrderly
  unfold Talk.write unlessClosing withParagraph
  rw [if_neg (by simp [hOpen])]
  beta_reduce
  rw [hHas]
  unfold Draft.write
  cases hSpeaker : draft.speaker with
  | some actor =>
    -- the text goes on where it is
    have hCurrent : talk.currentSection.isSome = true := by
      cases hCurrent : talk.currentSection with
      | none =>
        rw [h.idle hCurrent] at hSpeaker
        cases hSpeaker
      | some number => rfl
    exact h.modifyCurrent hOrderly hCurrent fun hTells => hTells.put hSpeaker hMarks
  | none =>
    -- the default actor starts a paragraph
    generalize hReported : talk.report .debug _ = reported
    have hSame : SameText talk reported := by
      rw [← hReported]
      exact talk.sameText_report ..
    have hReady := hOrderly.sameText hSame
    have hBegun := (h.sameText hSame).startParagraph hReady talk.options.defaultActor
    have hParagraph : Orderly (reported.startParagraph talk.options.defaultActor) := by
      have hStill : reported.isClosing = false := by
        rw [← hReported]
        exact hOpen
      have hDirect := orderly_direct hReady (.beginParagraph talk.options.defaultActor)
      rwa [direct, beginParagraph, unlessClosing, if_neg (by simp [hStill])] at hDirect
    have hCurrent : (reported.startParagraph talk.options.defaultActor).currentSection.isSome =
        true := by
      rw [hBegun.inSection]
      simp only [Draft.beginParagraph]
      split
      · assumption
      · rfl
    exact hBegun.modifyCurrent hParagraph hCurrent fun hTells => hTells.put rfl hMarks

end Drafted

/-! ## Directions -/

/-- A text is marked by its characters, each with the tier that it has. -/
theorem marks_ofChars (text : String) :
    ((text.toList.map fun c => Item.entry (.ofChar c)).filterMap Item.mark?) =
      text.toList.map fun c => .glyph c (some (Punctuation.tierOf c)) := by
  rw [List.filterMap_map]
  exact congrFun List.filterMap_eq_map text.toList

/-- A direction does to the draft what it does to the scrap. -/
theorem drafted_direct {draft : Draft} {talk : Talk} (h : Drafted draft talk)
    (hOrderly : Orderly talk) (hOpen : talk.isClosing = false) (direction : Direction) :
    Drafted (draft.follow talk.options.defaultActor direction) (talk.direct direction) := by
  have hGoes : ∀ write : Talk → Talk, talk.unlessClosing write = write talk := by
    intro write
    rw [unlessClosing, if_neg (by simp [hOpen])]
  cases direction with
  | beginSection area =>
    rw [direct, beginSection, hGoes]
    exact h.startSection hOrderly area
  | endSection => exact h.endSection hOrderly
  | beginParagraph actor =>
    rw [direct, beginParagraph, hGoes]
    exact h.startParagraph hOrderly actor
  | endParagraph => exact h.endParagraph hOrderly
  | speak text => exact h.write hOrderly hOpen (marks_ofChars text)
  | emote name => exact h.write hOrderly hOpen rfl
  | lineBreak => exact h.write hOrderly hOpen rfl

/-- Once the talk is closing, sections and paragraphs can still be ended, which adds nothing to the
outline. -/
theorem outline_direct_of_closing {talk : Talk} (hOrderly : Orderly talk)
    (hClosing : talk.isClosing = true) (direction : Direction) :
    (talk.direct direction).scrap.outline = talk.scrap.outline := by
  have hRefused : ∀ write : Talk → Talk,
      (talk.unlessClosing write).scrap.outline = talk.scrap.outline := by
    intro write
    rw [unlessClosing, if_pos hClosing]
    rfl
  cases direction with
  | beginSection area => exact hRefused (·.startSection area)
  | beginParagraph actor => exact hRefused (·.startParagraph actor)
  | speak text => exact hRefused _
  | emote name => exact hRefused _
  | lineBreak => exact hRefused _
  | endSection =>
    show talk.endSection.scrap.outline = _
    cases hCurrent : talk.currentSection with
    -- nothing is to be ended
    | none => rw [endSection_of_none hCurrent]
    | some number =>
      obtain ⟨earlier, last, hSections, -, hEnd⟩ := hOrderly.modifyCurrent_eq hCurrent
      rw [hEnd, Scrap.outline, Scrap.outline, hSections, outlines_append_singleton,
        outlines_append_singleton, Section.outline_close]
  | endParagraph =>
    show talk.endParagraph.scrap.outline = _
    cases hCurrent : talk.currentSection with
    | none => rw [endParagraph_of_none hCurrent]
    | some number =>
      obtain ⟨earlier, last, hSections, hModify, -⟩ := hOrderly.modifyCurrent_eq hCurrent
      rw [endParagraph, hModify, Scrap.outline, Scrap.outline, hSections,
        outlines_append_singleton, outlines_append_singleton, Section.outline_modifyOpen_close]

/-! ## Requests to close -/

/-- The directions that a talk carries out: those given before it is asked to close. To wrap a text up is to
end its current section. -/
def carriedOut : List Operation → List Direction
  | [] => []
  | operation :: rest =>
    if operation.requestsClose then [] else operation.direction?.toList ++ carriedOut rest

/-- Before any request, one more operation has its direction carried out. -/
theorem carriedOut_append {operations : List Operation}
    (hOpen : ∀ operation ∈ operations, operation.requestsClose = false) (operation : Operation) :
    carriedOut (operations ++ [operation]) =
      carriedOut operations ++ operation.direction?.toList := by
  induction operations with
  | nil => cases operation <;> rfl
  | cons first rest ih =>
    have hFirst := hOpen first (List.mem_cons_self ..)
    have hRest := ih fun operation hMem => hOpen operation (List.mem_cons_of_mem _ hMem)
    simp [carriedOut, hFirst, hRest]

/-- What comes after the request is not carried out. -/
theorem carriedOut_append_of_request {operations : List Operation} {request : Operation}
    (hMem : request ∈ operations) (hRequest : request.requestsClose = true)
    (more : List Operation) : carriedOut (operations ++ more) = carriedOut operations := by
  induction operations with
  | nil => cases hMem
  | cons first rest ih =>
    by_cases hFirst : first.requestsClose = true
    · simp [carriedOut, hFirst]
    · -- the request is further on
      have hRest : request ∈ rest := by
        rcases List.mem_cons.mp hMem with rfl | hRest
        · exact absurd hRequest hFirst
        · exact hRest
      simp [carriedOut, hFirst, ih hRest]

/-- Without a request, all directions are carried out. -/
theorem carriedOut_of_open {operations : List Operation}
    (hOpen : ∀ operation ∈ operations, operation.requestsClose = false) :
    carriedOut operations = operations.filterMap Operation.direction? := by
  induction operations with
  | nil => rfl
  | cons first rest ih =>
    have hFirst := hOpen first (List.mem_cons_self ..)
    have hRest := ih fun operation hMem => hOpen operation (List.mem_cons_of_mem _ hMem)
    rw [carriedOut, hFirst, hRest]
    cases hDirection : first.direction? <;> simp [hDirection]

/-! ## From the first operation to the last -/

/-- What is known of a talk after operations on a new one. -/
structure Recorded (actor : String) (operations : List Operation) (talk : Talk) : Prop where
  defaultActor : talk.options.defaultActor = actor
  closing : talk.outcome .closing = none ↔
    ∀ operation ∈ operations, operation.requestsClose = false
  outline : talk.scrap.outline = (Draft.ofDirections actor (carriedOut operations)).passages
  drafted : talk.outcome .closing = none →
    Drafted (Draft.ofDirections actor (carriedOut operations)) talk

namespace Recorded

variable {actor : String} {operations : List Operation} {talk : Talk}

/-- While the talk is open, an operation does what its direction does, if it has one. -/
theorem drafted_perform (h : Recorded actor operations talk) (hReachable : Reachable talk)
    (hOpen : talk.outcome .closing = none) (operation : Operation) :
    Drafted (Draft.ofDirections actor (carriedOut (operations ++ [operation])))
      (talk.perform operation).2 := by
  have hDraft := h.drafted hOpen
  have hAuthored : Drafted (Draft.ofDirections actor (carriedOut (operations ++ [operation])))
      (talk.authoredBy operation) := by
    rw [carriedOut_append (h.closing.mp hOpen), authoredBy]
    cases operation.direction? with
    -- an operation that directs nothing leaves the draft as it is
    | none =>
      rw [Option.toList_none, List.append_nil]
      exact hDraft
    | some direction =>
      have hNext := drafted_direct hDraft hReachable.orderly (isClosing_of_open hOpen) direction
      rw [h.defaultActor] at hNext
      rw [Draft.ofDirections, Option.toList_some, List.foldl_append]
      exact hNext
  exact hAuthored.sameText (talk.sameText_perform operation)

/-- After the request, no operation adds to the outline. -/
theorem outline_perform (hReachable : Reachable talk) (hClosing : talk.outcome .closing ≠ none)
    (operation : Operation) : (talk.perform operation).2.scrap.outline = talk.scrap.outline := by
  rw [Scrap.outline_of_bare_eq (talk.sameText_perform operation).scrap, authoredBy]
  cases operation.direction? with
  | none => rfl
  | some direction =>
    exact outline_direct_of_closing hReachable.orderly (isClosing_of_settled hClosing) direction

/-- One more operation is recorded, whatever it is. -/
theorem perform (h : Recorded actor operations talk) (hReachable : Reachable talk)
    (operation : Operation) :
    Recorded actor (operations ++ [operation]) (talk.perform operation).2 := by
  have hActor : (talk.perform operation).2.options.defaultActor = actor := by
    rw [(talk.sameText_perform operation).options,
      (talk.written_authoredBy operation).options, h.defaultActor]
  cases hOutcome : talk.outcome .closing with
  | none =>
    have hDraft := h.drafted_perform hReachable hOutcome operation
    refine ⟨hActor, ?_, hDraft.passages, fun _ => hDraft⟩
    -- the talk stays open unless this operation is the request
    cases hRequest : operation.requestsClose with
    | true =>
      have hSettled := closing_of_request hOutcome hRequest
      refine iff_of_false hSettled fun hAll => ?_
      rw [hAll operation (by simp)] at hRequest
      cases hRequest
    | false =>
      obtain ⟨raised, hEffect, -⟩ := talk.effect_perform operation
      refine iff_of_true (hEffect.isOpen (hReachable.isOpen hOutcome) hRequest).closing ?_
      intro other hMem
      rcases List.mem_append.mp hMem with hBefore | hLast
      · exact h.closing.mp hOutcome other hBefore
      · rw [List.mem_singleton.mp hLast, hRequest]
  | some outcome =>
    have hClosing : talk.outcome .closing ≠ none := by
      rw [hOutcome]
      exact Option.some_ne_none _
    -- the talk was asked to close before
    obtain ⟨request, hMem, hRequest⟩ : ∃ request ∈ operations, request.requestsClose = true := by
      by_contra hNone
      refine hClosing (h.closing.mpr fun operation hMem => ?_)
      cases hRequest : operation.requestsClose with
      | true => exact absurd ⟨operation, hMem, hRequest⟩ hNone
      | false => rfl
    have hStill : (talk.perform operation).2.outcome .closing ≠ none :=
      Leads.closing (.perform .refl operation) hClosing
    refine ⟨hActor, ?_, ?_, fun hNone => absurd hNone hStill⟩
    · refine iff_of_false hStill fun hAll => ?_
      rw [hAll request (List.mem_append_left _ hMem)] at hRequest
      cases hRequest
    · rw [outline_perform hReachable hClosing, h.outline,
        carriedOut_append_of_request hMem hRequest]

end Recorded

/-- Whatever was done to a talk is recorded. -/
theorem recorded {registry : Registry} {options : Options} {first talk : Talk}
    {operations : List Operation} (hCreate : Talk.create registry options = .ok first)
    (hLeads : Leads first operations talk) :
    Recorded options.defaultActor operations talk := by
  induction hLeads with
  | refl =>
    obtain ⟨hOptions, hNew, -⟩ := of_create hCreate
    have hDraft := drafted_of_isNew hNew
    exact ⟨by rw [hOptions], iff_of_true (hNew.outcome _) (by simp), hDraft.passages, fun _ => hDraft⟩
  | perform hLeads operation ih =>
    exact ih.perform ⟨_, _, first, _, hCreate, hLeads⟩ operation
  | share hLeads hShared ih =>
    -- a draft does not look at the registry
    refine ⟨ih.defaultActor, ih.closing, ih.outline, fun hOpen => ?_⟩
    obtain ⟨hPassages, hSections, hIn, hDesk, hIdle⟩ := ih.drafted hOpen
    exact ⟨hPassages, hSections, hIn, hDesk, hIdle⟩

/-- Writing loses nothing, adds nothing, and puts everything in its place: as long as a talk was not asked to
close, its outline is what the draft of its directions lists, where wrapping up counts as the end of a
section. Nothing else that is done to the talk in between makes a difference; and once the talk was asked to
close, nothing adds to the outline any more. -/
theorem outline_eq_draft {registry : Registry} {options : Options} {first talk : Talk}
    {operations : List Operation} (hCreate : Talk.create registry options = .ok first)
    (hLeads : Leads first operations talk) :
    (talk.outcome .closing = none → talk.scrap.outline =
      (Draft.ofDirections options.defaultActor
        (operations.filterMap Operation.direction?)).passages) ∧
      talk.scrap.outline =
        (Draft.ofDirections options.defaultActor (carriedOut operations)).passages := by
  have hRecorded := recorded hCreate hLeads
  refine ⟨fun hOpen => ?_, hRecorded.outline⟩
  rw [← carriedOut_of_open (hRecorded.closing.mp hOpen)]
  exact hRecorded.outline

/-- A text that is wrapped up and started, and then goes on. -/
def resumed : List Operation :=
  [.direct (.beginParagraph "guide"), .direct (.speak "a."), .wrapUp, .start, .advanceBy 10,
    .direct (.emote "wave"), .direct .lineBreak]

/-- A draft with two sections, of which the second has a paragraph of the default actor. -/
theorem outline_eq_draft_resumed :
    ∃ first, Talk.create .empty .standard = .ok first ∧
      (first.after resumed).outcome .closing = none ∧
      (first.after resumed).scrap.outline =
        [⟨1, 1, "guide", .glyph 'a' (some (Punctuation.tierOf 'a'))⟩,
          ⟨1, 1, "guide", .glyph '.' (some (Punctuation.tierOf '.'))⟩,
          ⟨2, 1, "default", .emote "wave" none⟩, ⟨2, 1, "default", .lineBreak⟩] := by
  obtain ⟨first, hCreate⟩ : ∃ first, Talk.create .empty .standard = .ok first := ⟨_, rfl⟩
  have hLeads := Leads.of_after first resumed
  have hOpen := (recorded hCreate hLeads).closing.mpr (by decide)
  obtain ⟨hOutline, -⟩ := outline_eq_draft hCreate hLeads
  refine ⟨first, hCreate, hOpen, ?_⟩
  rw [hOutline hOpen]
  decide

/-- Wrapping up makes a difference to the text that follows it: the directions alone do not tell where that
goes. -/
theorem outline_ne_draft_of_directions_alone :
    ∃ first, Talk.create .empty .standard = .ok first ∧
      (first.after [.direct (.speak "a"), .wrapUp, .direct (.speak "b")]).outcome .closing = none ∧
      (first.after [.direct (.speak "a"), .wrapUp, .direct (.speak "b")]).scrap.outline ≠
        (Draft.ofDirections Options.standard.defaultActor [.speak "a", .speak "b"]).passages := by
  refine ⟨_, rfl, ?_, ?_⟩
  · decide
  · decide

end Talk

end Dialogue
