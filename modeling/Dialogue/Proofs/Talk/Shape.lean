import Dialogue.Proofs.Scrap.Pauses
import Dialogue.Proofs.Talk.Sealing

/-!
# The shape of a talk

A talk keeps its sections in three places: in the scrap, in the records of the areas and in the list of the
closing animations; and it points to the section that takes new text. Operations of different kinds work
on these, one inside the other. This module puts together what holds of all of them at any time.

Main results:

* `Talk.Tidy.direct` — every direction keeps the sections in order, and each of them neat.
* `Talk.wellFormed` — the shape of any talk that can be reached, closed or not.
-/

namespace Dialogue

/-- A section that ends has its terminal. -/
theorem Section.Ends.terminal_ne_none {sect : Section} (h : sect.Ends) : sect.terminal ≠ none := by
  obtain ⟨pause, hPause, -⟩ := h
  rw [hPause]
  exact Option.some_ne_none pause

namespace Talk

/-! ## Tidy sections -/

/-- Sections in order, with their pauses where they belong. -/
structure Tidy (talk : Talk) : Prop where
  orderly : Orderly talk
  neat : ∀ sect ∈ talk.scrap.sections, sect.Neat

namespace Tidy

variable {talk later : Talk}

/-- A talk is as tidy as any other with the same text. -/
theorem sameText (h : Tidy talk) (hSame : SameText talk later) : Tidy later := by
  have hView : ∀ sect : Section, (sect.map Entry.bare).Neat = sect.Neat := fun sect =>
    propext sect.neat_map_bare
  have hSections := Scrap.map_sections_of_bare_eq hView hSame.scrap
  refine ⟨h.orderly.sameText hSame, fun sect hMem => ?_⟩
  -- the section was as neat before
  have hIn : sect.Neat ∈ talk.scrap.sections.map Section.Neat := by
    rw [← hSections]
    exact List.mem_map_of_mem hMem
  obtain ⟨before, hBefore, hEq⟩ := List.mem_map.mp hIn
  rw [← hEq]
  exact h.neat before hBefore

/-- A change of the open section alone. -/
theorem neat_modifyCurrent (h : Tidy talk) {f : Section → Section}
    (hf : ∀ sect : Section, sect.Neat → sect.terminal = none → (f sect).Neat) :
    ∀ sect ∈ (talk.modifyCurrent f).scrap.sections, sect.Neat := by
  unfold modifyCurrent
  cases hCurrent : talk.currentSection with
  | none => exact h.neat
  | some number =>
    obtain ⟨earlier, last, hSections, -, hOpen, -, hModify⟩ := h.orderly.split hCurrent
    have hNeat := h.neat
    rw [hSections] at hNeat
    simp only [hModify]
    intro sect hMem
    rcases List.mem_append.mp hMem with hMem | hMem
    · exact hNeat sect (List.mem_append_left _ hMem)
    · -- only the last section is changed, and that is open
      rw [List.mem_singleton.mp hMem]
      exact hf last (hNeat last (by simp)) hOpen

/-- Ending a section leaves the talk tidy. -/
theorem endSection (h : Tidy talk) : Tidy talk.endSection := by
  refine ⟨orderly_endSection h.orderly, ?_⟩
  have hNeat := h.neat_modifyCurrent fun sect hNeat hOpen => hNeat.close hOpen
  unfold Talk.endSection
  unfold modifyCurrent at hNeat
  cases hCurrent : talk.currentSection with
  | none => exact h.neat
  | some number =>
    rw [hCurrent] at hNeat
    exact hNeat

/-- A new section is neat, as it is empty. -/
theorem startSection (h : Tidy talk) (asked : Option String) : Tidy (talk.startSection asked) := by
  refine ⟨orderly_startSection h.orderly asked, fun sect hMem => ?_⟩
  have hSections : (talk.startSection asked).scrap.sections = talk.endSection.scrap.sections ++
      [.empty (talk.endSection.registry.sections + 1) (talk.endSection.areas.areaFor asked)] := rfl
  rw [hSections] at hMem
  rcases List.mem_append.mp hMem with hMem | hMem
  · exact h.endSection.neat sect hMem
  · rw [List.mem_singleton.mp hMem]
    exact Section.neat_empty ..

/-- Ending a paragraph leaves the talk tidy. -/
theorem endParagraph (h : Tidy talk) : Tidy talk.endParagraph :=
  ⟨orderly_direct h.orderly .endParagraph,
    h.neat_modifyCurrent fun _ hNeat hOpen => hNeat.modifyOpen_close hOpen⟩

/-- In a section, the open paragraph is ended before another one starts. -/
theorem nextParagraph (h : Tidy talk) (actor : String) :
    Tidy (talk.endParagraph.modifyCurrent (·.push (.empty actor))) := by
  refine ⟨orderly_modifyCurrent h.endParagraph.orderly (fun _ => rfl) fun _ => rfl, ?_⟩
  -- the two changes of the section are one change
  have hOnce := h.neat_modifyCurrent
    (f := fun sect => (sect.modifyOpen Paragraph.close).push (.empty actor))
    fun sect hNeat hOpen => (hNeat.modifyOpen_close hOpen).push_empty
      ((sect.terminal_modifyOpen _).trans hOpen) sect.openParagraph?_modifyOpen_close actor
  cases hCurrent : talk.currentSection with
  | none =>
    rw [endParagraph_of_none hCurrent, modifyCurrent, hCurrent]
    exact h.neat
  | some number =>
    rw [modifyCurrent, hCurrent] at hOnce
    have hTwice : (talk.endParagraph.modifyCurrent (·.push (.empty actor))).scrap =
        talk.scrap.modifySection number fun sect =>
          (sect.modifyOpen Paragraph.close).push (.empty actor) := by
      rw [endParagraph_of_some hCurrent, modifyCurrent]
      simp only [hCurrent]
      exact Scrap.modifySection_modifySection (fun sect => sect.number_modifyOpen _) ..
    rw [hTwice]
    exact hOnce

/-- A paragraph that starts a section of its own leaves the talk tidy as well. -/
theorem startParagraph (h : Tidy talk) (actor : String) : Tidy (talk.startParagraph actor) := by
  unfold Talk.startParagraph
  split
  · exact (h.startSection none).nextParagraph actor
  · exact h.nextParagraph actor

/-- What is refused leaves the talk tidy, and so does what is written. -/
theorem unlessClosing (h : Tidy talk) (write : Talk → Talk) (hWrite : Tidy (write talk)) :
    Tidy (talk.unlessClosing write) := by
  unfold Talk.unlessClosing
  split
  · exact h.sameText (talk.sameText_report ..)
  · exact hWrite

/-- Text brings no pause with it. -/
theorem write (h : Tidy talk) {items : List Item} (hText : ∀ item ∈ items, item.isPause = false) :
    Tidy (talk.write items) := by
  have hPlace : Tidy talk.withParagraph := by
    unfold withParagraph
    split
    · exact h
    · -- the text starts a paragraph of its own
      exact (h.sameText (talk.sameText_report ..)).startParagraph _
  refine h.unlessClosing _ ⟨?_, ?_⟩
  · exact orderly_modifyCurrent hPlace.orderly (fun sect => sect.number_modifyOpen _)
      fun sect => sect.terminal_modifyOpen _
  · exact hPlace.neat_modifyCurrent fun _ hNeat hOpen => hNeat.modifyOpen_append hOpen hText

/-- Every direction keeps the sections in order, and each of them neat. -/
theorem direct (h : Tidy talk) (direction : Direction) : Tidy (talk.direct direction) := by
  cases direction with
  | beginSection area => exact h.unlessClosing (·.startSection area) (h.startSection area)
  | endSection => exact h.endSection
  | beginParagraph actor => exact h.unlessClosing (·.startParagraph actor) (h.startParagraph actor)
  | endParagraph => exact h.endParagraph
  | speak text =>
    refine h.write fun item hMem => ?_
    obtain ⟨c, -, rfl⟩ := List.mem_map.mp hMem
    rfl
  | emote name => exact h.write fun item hMem => by rw [List.mem_singleton.mp hMem]; rfl
  | lineBreak => exact h.write fun item hMem => by rw [List.mem_singleton.mp hMem]; rfl

/-- What an operation writes by itself leaves the talk tidy. -/
theorem authoredBy (h : Tidy talk) (operation : Operation) : Tidy (talk.authoredBy operation) := by
  unfold Talk.authoredBy
  cases operation.direction? with
  | none => exact h
  | some direction => exact h.direct direction

end Tidy

/-- Every reachable talk is tidy. -/
theorem Reachable.tidy {talk : Talk} (h : Reachable talk) : Tidy talk := by
  obtain ⟨registry, options, first, operations, hCreate, hLeads⟩ := h
  obtain ⟨-, hNew, -⟩ := of_create hCreate
  have hFirst : Tidy first := ⟨orderly_of_isNew hNew, by rw [hNew.scrap]; simp⟩
  refine Leads.keeps Tidy ?_ ?_ hLeads hFirst
  · intro talk operation hTidy
    exact (hTidy.authoredBy operation).sameText (talk.sameText_perform operation)
  · intro talk registry hShared hTidy
    exact ⟨⟨fun sect hMem => Nat.le_trans (hTidy.orderly.numbered sect hMem) hShared.sections_le,
      hTidy.orderly.current, hTidy.orderly.ended⟩, hTidy.neat⟩

/-! ## The shape -/

/-- The shape of a talk: the scrap, the records of areas and the list of closing animations tell of the same
sections, only the current section is open, and all pauses stand where they belong. -/
structure WellFormed (talk : Talk) : Prop where
  rising : talk.scrap.numbers.Pairwise (· < ·)
  records : talk.areas.records.map AreaRecord.label = talk.scrap.sections.map Section.label
  closing : talk.closingSections = talk.scrap.numbers
  /-- The current section is the last one, and the only one without a pause. -/
  current : ∀ number, talk.currentSection = some number →
    ∃ earlier last, talk.scrap.sections = earlier ++ [last] ∧ last.number = number ∧
      last.terminal = none ∧ ∀ sect ∈ earlier, sect.terminal ≠ none
  ended : talk.currentSection = none → ∀ sect ∈ talk.scrap.sections, sect.terminal ≠ none
  neat : ∀ sect ∈ talk.scrap.sections, sect.Neat

/-- Whatever is done to a talk and to its registry, the talk stays in shape. -/
theorem wellFormed {talk : Talk} (hReachable : Reachable talk) : WellFormed talk := by
  have hOrderly := hReachable.orderly
  have hRoster := hReachable.roster
  refine ⟨hRoster.rising, hRoster.records, hRoster.closing, fun number hCurrent => ?_,
    fun hCurrent sect hMem => (hOrderly.ended hCurrent sect hMem).terminal_ne_none,
    hReachable.tidy.neat⟩
  obtain ⟨earlier, last, hSections, hLast, hOpen, hEarlier⟩ := hOrderly.current number hCurrent
  exact ⟨earlier, last, hSections, hLast, hOpen,
    fun sect hMem => (hEarlier sect hMem).2.terminal_ne_none⟩

/-- A talk that closes in the middle of its second section, whose paragraph is ended afterwards. -/
def cutShort : List Operation :=
  [.direct (.speak "Hi"), .wrapUp, .start, .direct (.beginSection (some "side")),
    .direct (.speak "but"), .close, .direct .endParagraph]

/-- A text that is cut short in the middle of a paragraph. -/
theorem wellFormed_cutShort :
    ∃ first, Talk.create .empty .standard = .ok first ∧ Reachable (first.after cutShort) ∧
      (first.after cutShort).currentSection = some 2 ∧ WellFormed (first.after cutShort) := by
  obtain ⟨first, hCreate⟩ : ∃ first, Talk.create .empty .standard = .ok first := ⟨_, rfl⟩
  have hReachable : Reachable (first.after cutShort) :=
    ⟨_, _, first, cutShort, hCreate, Leads.of_after first cutShort⟩
  have hCurrent : (first.after cutShort).currentSection = some 2 := by
    cases hCreate
    decide
  exact ⟨first, hCreate, hReachable, hCurrent, wellFormed hReachable⟩

end Talk

end Dialogue
