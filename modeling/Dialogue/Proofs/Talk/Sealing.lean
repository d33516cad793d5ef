import Dialogue.Proofs.Scrap.Paragraphs
import Dialogue.Proofs.Talk.Reach

/-!
# Talks that take no more text

Once a talk was asked to close, its scrap is left as it is by all that a host can do, but for two things: a
section that was left open can still be ended, and so can a paragraph. Neither asks whether the talk is
closing, and each adds its pause. `Talk.endedBy` is the talk with that much done.

Main results:

* `Talk.Ending.scrap_perform` — beside its direction, no operation changes anything in the scrap.
* `Talk.endedBy_direct` — one more direction, after any others.
* `Talk.scrap_after_closing` — the scrap after any operations on a talk that is closing.
-/

namespace Dialogue

namespace Talk

/-! ## What does not change the scrap -/

/-- No move of an ending talk touches its scrap. -/
theorem Ending.scrap_move {talk later : Talk} {raised : List Event} (h : Ending talk)
    (hMove : Move talk raised later) : later.scrap = talk.scrap := by
  cases hMove with
  | quiet hAlike => exact hAlike.scrap
  | skip hPlaying => rfl
  | fire hTaken =>
    -- the end of a closing animation is seen at an area only
    obtain ⟨number, rfl⟩ := h.cue hTaken
    obtain ⟨registry, outbox, hClosing⟩ := { talk with agenda := _ }.endClosing_eq number
    rw [fire, hClosing]

/-- The scrap of an ending talk stays as it is while the talk plays. -/
theorem Ending.scrap_plays {talk later : Talk} {raised : List Event} (h : Ending talk)
    (hPlays : Plays talk raised later) : later.scrap = talk.scrap := by
  -- the talk is ending before each of the moves
  induction hPlays with
  | refl talk => rfl
  | move hMove hRest ih => rw [ih (h.move hMove), h.scrap_move hMove]

/-- Beside its direction, no operation changes anything in the scrap of a talk that is closing. -/
theorem Ending.scrap_perform {talk : Talk} (h : Ending talk) (operation : Operation) :
    (talk.perform operation).2.scrap = (talk.authoredBy operation).scrap := by
  have hClosing : talk.isClosing = true := isClosing_of_settled h.closing
  have hSettled : talk.isPending .closing = false := isPending_of_settled h.closing
  cases operation with
  | direct direction => rfl
  | pace scope => simp [perform, pace, hClosing, authoredBy, Operation.direction?]
  | wrapUp =>
    -- the section is ended, and nothing is paced
    have hEnded : talk.endSection.isClosing = true := by
      rw [← hClosing, isClosing_eq, isClosing_eq, outcome_eq, talk.written_endSection.lifecycle]
      rfl
    simp [perform, wrapUp, pace, hEnded, authoredBy, Operation.direction?, report, direct]
  | start => simp [perform, start, hClosing, authoredBy, Operation.direction?, report]
  | skip =>
    obtain ⟨raised, hPlays, -⟩ := talk.skip_plays
    exact h.scrap_plays hPlays
  | close => simp [perform, close, beginClosing, hSettled, authoredBy, Operation.direction?]
  | finish => simp [perform, finish, beginClosing, hSettled, authoredBy, Operation.direction?]
  | advanceTo time =>
    obtain ⟨raised, hPlays, -⟩ := talk.advanceTo_plays time
    exact h.scrap_plays hPlays
  | advanceBy delta =>
    obtain ⟨raised, hPlays, -⟩ := talk.advanceTo_plays (talk.now + delta)
    exact h.scrap_plays hPlays
  | playOut =>
    obtain ⟨raised, hPlays, -⟩ := talk.playOut_plays
    exact h.scrap_plays hPlays
  | collectEvents => rfl
  | observe milestone observer => rfl
  | performWith performer => rfl

/-! ## What can still be ended -/

/-- Two talks with the same scrap and the same place to write. -/
structure SamePage (talk later : Talk) : Prop where
  scrap : later.scrap = talk.scrap
  currentSection : later.currentSection = talk.currentSection

theorem SamePage.refl (talk : Talk) : SamePage talk talk := ⟨rfl, rfl⟩

theorem SamePage.trans {first second third : Talk} (h : SamePage first second)
    (h' : SamePage second third) : SamePage first third :=
  ⟨h'.scrap.trans h.scrap, h'.currentSection.trans h.currentSection⟩

/-- The same page ends its section in the same way. -/
theorem SamePage.endSection {talk later : Talk} (h : SamePage talk later) :
    SamePage talk.endSection later.endSection := by
  unfold Talk.endSection
  rw [h.currentSection]
  cases hCurrent : talk.currentSection with
  | none => exact h
  | some number => exact ⟨by simp only [h.scrap], rfl⟩

theorem SamePage.endParagraph {talk later : Talk} (h : SamePage talk later) :
    SamePage talk.endParagraph later.endParagraph := by
  cases hCurrent : talk.currentSection with
  | none =>
    have hLater : later.currentSection = none := h.currentSection.trans hCurrent
    rwa [endParagraph_of_none hCurrent, endParagraph_of_none hLater]
  | some number =>
    have hLater : later.currentSection = some number := h.currentSection.trans hCurrent
    rw [endParagraph_of_some hCurrent, endParagraph_of_some hLater]
    exact ⟨by simp only [h.scrap], h.currentSection⟩

/-- The talk with its section ended, if one of the directions does that, or else its paragraph, if one of
them does that. -/
def endedBy (talk : Talk) (directions : List Direction) : Talk :=
  if .endSection ∈ directions then talk.endSection
  else if .endParagraph ∈ directions then talk.endParagraph
  else talk

section Ended

variable {talk : Talk}

/-- A paragraph that was ended is not ended again. -/
theorem endParagraph_endParagraph (talk : Talk) :
    SamePage talk.endParagraph talk.endParagraph.endParagraph := by
  cases hCurrent : talk.currentSection with
  | none =>
    rw [endParagraph_of_none hCurrent, endParagraph_of_none hCurrent]
    exact .refl talk
  | some number =>
    have hTwice : ∀ sect : Section,
        (sect.modifyOpen Paragraph.close).modifyOpen Paragraph.close =
          sect.modifyOpen Paragraph.close := fun sect =>
      Section.modifyOpen_of_none sect.openParagraph?_modifyOpen_close _
    have hStill : talk.endParagraph.currentSection = some number := by
      rw [endParagraph_of_some hCurrent, hCurrent]
    rw [endParagraph_of_some hStill, endParagraph_of_some hCurrent]
    -- the second time, no paragraph is open
    refine ⟨?_, rfl⟩
    show (talk.scrap.modifySection number _).modifySection number _ = _
    rw [Scrap.modifySection_modifySection fun sect => sect.number_modifyOpen _]
    simp only [hTwice]

/-- Ending a section ends its paragraph. -/
theorem endSection_endParagraph (h : Orderly talk) :
    SamePage talk.endSection talk.endParagraph.endSection := by
  cases hCurrent : talk.currentSection with
  | none =>
    rw [endParagraph_of_none hCurrent]
    exact .refl _
  | some number =>
    rw [endParagraph_of_some hCurrent, endSection, endSection]
    simp only [hCurrent]
    refine ⟨?_, rfl⟩
    -- the section is open, so its end is what ends the paragraph
    obtain ⟨earlier, last, -, -, hOpen, -, hModify⟩ := h.split hCurrent
    show (talk.scrap.modifySection number _).modifySection number _ = _
    rw [Scrap.modifySection_modifySection fun sect => sect.number_modifyOpen _, hModify, hModify,
      Section.close_modifyOpen_close hOpen]

/-- What is refused to a closing talk leaves its page as it is. -/
theorem samePage_unlessClosing (hClosing : talk.isClosing = true) (write : Talk → Talk) :
    SamePage talk (talk.unlessClosing write) := by
  rw [unlessClosing, if_pos hClosing]
  exact ⟨rfl, rfl⟩

/-- Nothing is written to a closing talk. -/
theorem samePage_write (hClosing : talk.isClosing = true) (items : List Item) :
    SamePage talk (talk.write items) := by
  unfold write
  exact samePage_unlessClosing hClosing _

/-- One more direction, after any others: on a talk that is closing, it ends something or does nothing. -/
theorem endedBy_direct (hOrderly : Orderly talk) {later : Talk} {directions : List Direction}
    (hSame : SamePage (talk.endedBy directions) later) (hClosing : later.isClosing = true)
    (direction : Direction) :
    SamePage (talk.endedBy (directions ++ [direction])) (later.direct direction) := by
  -- a direction that ends nothing is refused
  have hRefused : direction ≠ .endSection → direction ≠ .endParagraph →
      SamePage later (later.direct direction) →
      SamePage (talk.endedBy (directions ++ [direction])) (later.direct direction) := by
    intro hSection hParagraph hRefused
    have hNothing : talk.endedBy (directions ++ [direction]) = talk.endedBy directions := by
      simp [endedBy, Ne.symm hSection, Ne.symm hParagraph]
    rw [hNothing]
    exact hSame.trans hRefused
  cases direction with
  | endSection =>
    have hEnded : talk.endedBy (directions ++ [.endSection]) = talk.endSection := by
      simp [endedBy]
    rw [hEnded]
    refine SamePage.trans ?_ hSame.endSection
    unfold endedBy
    -- the section was ended before, or its paragraph was, or neither
    split
    · rw [endSection_of_none talk.currentSection_endSection]
      exact .refl _
    · split
      · exact endSection_endParagraph hOrderly
      · exact .refl _
  | endParagraph =>
    by_cases hSection : .endSection ∈ directions
    · have hEnded : talk.endedBy (directions ++ [.endParagraph]) = talk.endSection := by
        simp [endedBy, hSection]
      have hBefore : talk.endedBy directions = talk.endSection := by simp [endedBy, hSection]
      -- the paragraph was ended with its section
      have hNone : talk.endSection.endParagraph = talk.endSection :=
        endParagraph_of_none talk.currentSection_endSection
      rw [hEnded, ← hNone, ← hBefore]
      exact hSame.endParagraph
    · have hEnded : talk.endedBy (directions ++ [.endParagraph]) = talk.endParagraph := by
        simp [endedBy, hSection]
      rw [hEnded]
      refine SamePage.trans ?_ hSame.endParagraph
      rw [endedBy, if_neg hSection]
      split
      · exact endParagraph_endParagraph talk
      · exact .refl _
  | beginSection area =>
    exact hRefused (by simp) (by simp) (samePage_unlessClosing hClosing (·.startSection area))
  | beginParagraph actor =>
    exact hRefused (by simp) (by simp) (samePage_unlessClosing hClosing (·.startParagraph actor))
  | speak text =>
    exact hRefused (by simp) (by simp)
      (samePage_write hClosing (text.toList.map fun c => .entry (.ofChar c)))
  | emote name => exact hRefused (by simp) (by simp) (samePage_write hClosing [.entry (.ofEmote name)])
  | lineBreak => exact hRefused (by simp) (by simp) (samePage_write hClosing [.lineBreak])

end Ended

/-! ## The scrap of a talk that is closing -/

/-- Whatever is done to a talk that is closing, its scrap stays as it is — down to the times and the
visibility of its entries — but for the pauses that are added when the section that was left open is ended,
or its paragraph. Without an open section there is nothing of that kind. -/
theorem scrap_after_closing {talk later : Talk} {operations : List Operation}
    (hReachable : Reachable talk) (hClosing : talk.outcome .closing ≠ none)
    (hLeads : Leads talk operations later) :
    later.scrap = (talk.endedBy (operations.filterMap Operation.direction?)).scrap ∧
      (talk.currentSection = none → later.scrap = talk.scrap) := by
  have hPage : SamePage (talk.endedBy (operations.filterMap Operation.direction?)) later := by
    induction hLeads with
    | refl => exact .refl talk
    | @perform operations later hLeads operation ih =>
      have hEnding := (hReachable.leads hLeads).isEnding (hLeads.closing hClosing)
      have hLater : later.isClosing = true := isClosing_of_settled hEnding.closing
      -- the operation does what its direction does, if it has one
      have hAuthored : SamePage (later.authoredBy operation) (later.perform operation).2 :=
        ⟨hEnding.scrap_perform operation, (later.sameText_perform operation).currentSection⟩
      refine SamePage.trans ?_ hAuthored
      rw [List.filterMap_append, authoredBy]
      cases hDirection : operation.direction? with
      -- an operation without a direction writes nothing
      | none => simpa [hDirection] using ih
      | some direction =>
        simpa [hDirection] using endedBy_direct hReachable.orderly ih hLater direction
    | share hLeads hShared ih => exact ⟨ih.scrap, ih.currentSection⟩
  refine ⟨hPage.scrap, fun hNone => ?_⟩
  rw [hPage.scrap, endedBy, endSection_of_none hNone, endParagraph_of_none hNone]
  simp

/-- A talk that closes in the middle of a section. -/
def leftOpen : List Operation := [.direct (.beginSection none), .close]

/-- Late words are refused, and the section that was left open is ended all the same. -/
theorem scrap_after_closing_leftOpen :
    ∃ first, Talk.create .empty .standard = .ok first ∧
      (first.after leftOpen).outcome .closing ≠ none ∧
      ((first.after leftOpen).after [.direct (.speak "late"), .wrapUp, .playOut]).scrap =
        ((first.after leftOpen).endedBy [.speak "late", .endSection]).scrap := by
  obtain ⟨first, hCreate⟩ : ∃ first, Talk.create .empty .standard = .ok first := ⟨_, rfl⟩
  have hReachable : Reachable (first.after leftOpen) :=
    ⟨_, _, first, leftOpen, hCreate, Leads.of_after first leftOpen⟩
  have hClosing : (first.after leftOpen).outcome .closing ≠ none := by
    cases hCreate
    decide
  exact ⟨first, hCreate, hClosing, (scrap_after_closing hReachable hClosing (Leads.of_after _ _)).1⟩

/-- Ending the section that was left open adds its pause, although the talk is closing. -/
theorem scrap_changes_after_closing :
    ∃ first, Talk.create .empty .standard = .ok first ∧
      (first.after leftOpen).outcome .closing ≠ none ∧
      (first.after (leftOpen ++ [.direct .endSection])).scrap ≠ (first.after leftOpen).scrap := by
  refine ⟨_, rfl, ?_, ?_⟩
  · decide
  · decide

end Talk

end Dialogue
