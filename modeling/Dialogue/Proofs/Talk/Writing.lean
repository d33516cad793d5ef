import Dialogue.Proofs.Scrap.Timing
import Dialogue.Proofs.Talk.Effects

/-!
# What writing and pacing do

Directions write a text into the scrap, and pacing gives its entries their times and hides them. One
relation for each says what it leaves alone and how the scrap after it is related to the one before.

Main results:

* `Talk.written_direct` — authoring only adds to the scrap, and leaves playback and lifecycle alone.
* `Talk.paced_of_pace` — pacing hides the entries in its scope, and leaves all else alone.
-/

namespace Dialogue

/-- Whether pacing a scope reaches a place. -/
def PaceScope.covers (scope : PaceScope) (scrap : Scrap) (place : Place) : Bool :=
  match scope with
  | .whole => true
  | .single number => scrap.position number = place.sect

/-- The scope that an operation paces. -/
def Operation.scope? : Operation → Option PaceScope
  | .pace scope => some scope
  | .wrapUp => some .whole
  | .direct _ | .start | .skip | .close | .finish | .advanceTo _ | .advanceBy _ | .playOut
  | .collectEvents | .observe .. | .performWith _ => none

/-- Whether an operation asks the talk to close. -/
def Operation.requestsClose : Operation → Bool
  | .close | .finish => true
  | .direct _ | .pace _ | .wrapUp | .start | .skip | .advanceTo _ | .advanceBy _ | .playOut
  | .collectEvents | .observe .. | .performWith _ => false

theorem Operation.scope?_of_requestsClose {operation : Operation}
    (hRequest : operation.requestsClose = true) : operation.scope? = none := by
  cases operation <;> first | rfl | cases hRequest

namespace Talk

/-! ## Authoring -/

/-- What authoring leaves alone, and that it only adds to the scrap. -/
structure Written (talk later : Talk) : Prop where
  options : later.options = talk.options
  agenda : later.agenda = talk.agenda
  startTime : later.startTime = talk.startTime
  marks : later.marks = talk.marks
  lifecycle : later.lifecycle = talk.lifecycle
  closesLeft : later.closesLeft = talk.closesLeft
  events : later.events = talk.events
  scrap : Extends talk.scrap.entryAt? later.scrap.entryAt?

namespace Written

theorem refl (talk : Talk) : Written talk talk := ⟨rfl, rfl, rfl, rfl, rfl, rfl, rfl, .refl _⟩

/-- Writing twice is writing. -/
theorem trans {first second third : Talk} (h : Written first second) (h' : Written second third) :
    Written first third where
  options := h'.options.trans h.options
  agenda := h'.agenda.trans h.agenda
  startTime := h'.startTime.trans h.startTime
  marks := h'.marks.trans h.marks
  lifecycle := h'.lifecycle.trans h.lifecycle
  closesLeft := h'.closesLeft.trans h.closesLeft
  events := h'.events.trans h.events
  scrap := h.scrap.trans h'.scrap

end Written

/-- Writing loses no entry. -/
theorem Written.isSome_entryAt? {talk later : Talk} (hWritten : Written talk later) {place : Place}
    (h : (talk.scrap.entryAt? place).isSome) : (later.scrap.entryAt? place).isSome := by
  obtain ⟨e, hEntry⟩ := Option.isSome_iff_exists.mp h
  rw [hWritten.scrap.keeps hEntry]
  rfl

theorem written_report (talk : Talk) (severity : Severity) (text : String) :
    Written talk (talk.report severity text) := ⟨rfl, rfl, rfl, rfl, rfl, rfl, rfl, .refl _⟩

theorem written_endSection (talk : Talk) : Written talk talk.endSection := by
  unfold endSection
  split
  · exact ⟨rfl, rfl, rfl, rfl, rfl, rfl, rfl,
      talk.scrap.extends_modifySection _ Section.extends_close⟩
  · exact .refl talk

theorem written_startSection (talk : Talk) (asked : Option String) :
    Written talk (talk.startSection asked) := by
  refine talk.written_endSection.trans ⟨rfl, rfl, rfl, rfl, rfl, rfl, rfl, ?_⟩
  exact talk.endSection.scrap.extends_push _ _

/-- A change that extends the current section is writing. -/
theorem written_modifyCurrent (talk : Talk) {f : Section → Section}
    (hExtends : ∀ sect : Section, Extends sect.entryAt? (f sect).entryAt?) :
    Written talk (talk.modifyCurrent f) := by
  unfold modifyCurrent
  split
  · exact ⟨rfl, rfl, rfl, rfl, rfl, rfl, rfl, talk.scrap.extends_modifySection _ hExtends⟩
  · exact .refl talk

theorem written_endParagraph (talk : Talk) : Written talk talk.endParagraph :=
  talk.written_modifyCurrent fun sect => sect.extends_modifyOpen Paragraph.extends_close

theorem written_startParagraph (talk : Talk) (actor : String) :
    Written talk (talk.startParagraph actor) := by
  unfold startParagraph
  -- a section is started where none is open
  have hSection : Written talk
      (if talk.currentSection.isNone then talk.startSection none else talk) := by
    split
    · exact talk.written_startSection none
    · exact .refl talk
  exact hSection.trans ((written_endParagraph _).trans
    (written_modifyCurrent _ fun sect => sect.extends_push rfl))

theorem written_withParagraph (talk : Talk) : Written talk talk.withParagraph := by
  unfold withParagraph
  split
  · exact .refl talk
  · exact (written_report ..).trans (written_startParagraph ..)

theorem written_unlessClosing (talk : Talk) (write : Talk → Talk)
    (hWrite : Written talk (write talk)) : Written talk (talk.unlessClosing write) := by
  unfold unlessClosing
  split
  · exact talk.written_report ..
  · exact hWrite

/-- Writing fresh items keeps all entries that are there. -/
theorem written_write (talk : Talk) {items : List Item}
    (hFresh : ∀ item ∈ items, ∀ e, item.entry? = some e → e.IsFresh) :
    Written talk (talk.write items) :=
  talk.written_unlessClosing _ (talk.written_withParagraph.trans
    (written_modifyCurrent _ fun sect =>
      sect.extends_modifyOpen fun paragraph => paragraph.extends_append hFresh))

/-- Authoring only adds to the scrap, and leaves playback and lifecycle alone. -/
theorem written_direct (talk : Talk) (direction : Direction) :
    Written talk (talk.direct direction) := by
  cases direction with
  | beginSection area =>
    exact talk.written_unlessClosing (·.startSection area) (talk.written_startSection area)
  | endSection => exact talk.written_endSection
  | beginParagraph actor =>
    exact talk.written_unlessClosing (·.startParagraph actor) (talk.written_startParagraph actor)
  | endParagraph => exact talk.written_endParagraph
  | speak text =>
    refine talk.written_write ?_
    -- each character of the text makes an entry of its own
    intro item hMem e hEntry
    obtain ⟨c, -, rfl⟩ := List.mem_map.mp hMem
    cases hEntry
    exact Entry.isFresh_unpaced _ _
  | emote name =>
    refine talk.written_write ?_
    intro item hMem e hEntry
    rw [List.mem_singleton.mp hMem] at hEntry
    cases hEntry
    exact Entry.isFresh_unpaced _ _
  | lineBreak =>
    refine talk.written_write ?_
    intro item hMem e hEntry
    rw [List.mem_singleton.mp hMem] at hEntry
    cases hEntry

/-! ## Pacing -/

/-- What pacing does: the entries in the scope are timed and hidden, and all else stays. -/
structure Paced (talk : Talk) (scope : PaceScope) (later : Talk) : Prop where
  isOpen : talk.outcome .closing = none
  rest : later = { talk with scrap := later.scrap }
  covered : ∀ {place}, scope.covers talk.scrap place = true →
    ∃ timestamp, later.scrap.entryAt? place =
      (talk.scrap.entryAt? place).map (Entry.timed talk.options.tempo timestamp)
  others : ∀ {place}, scope.covers talk.scrap place = false →
    later.scrap.entryAt? place = talk.scrap.entryAt? place

/-- Whether it is refused or not, pacing changes nothing but the scrap. -/
theorem pace_eq (talk : Talk) (scope : PaceScope) :
    (talk.pace scope).2 = { talk with scrap := (talk.pace scope).2.scrap } := by
  unfold pace
  split
  · rfl
  · cases scope with
    | whole => rfl
    | single number =>
      simp only
      split <;> rfl

/-- Pacing with success hides and times what the scope covers, and changes nothing else. -/
theorem paced_of_pace {talk later : Talk} {scope : PaceScope} {total : Millis}
    (h : talk.pace scope = (.ok total, later)) : Paced talk scope later := by
  unfold pace at h
  rw [isClosing_eq] at h
  cases hClosing : talk.outcome .closing with
  | some settled => simp [hClosing] at h
  | none =>
    simp only [hClosing, Option.isSome_none, Bool.false_eq_true, if_false] at h
    -- whether all of the scrap is in the scope or one section decides which entries are covered
    cases scope with
    | whole =>
      obtain ⟨-, rfl⟩ := Prod.mk.inj h
      exact ⟨hClosing, rfl, fun _ => talk.scrap.entryAt?_paced _ _, fun h => by cases h⟩
    | single number =>
      simp only at h
      split at h
      · rename_i scrap time hPaced
        obtain ⟨-, rfl⟩ := Prod.mk.inj h
        refine ⟨hClosing, rfl, fun {place} hCovers => ?_, fun {place} hOther => ?_⟩
        · have hAt := Scrap.entryAt?_pacedSection? hPaced place
          rwa [if_pos (by simpa [PaceScope.covers] using hCovers)] at hAt
        · have hAt := Scrap.entryAt?_pacedSection? hPaced place
          rwa [if_neg (by simpa [PaceScope.covers] using hOther)] at hAt
      · cases h

/-- A talk that refuses to be paced is handed back as it was. -/
theorem eq_of_pace_error {talk left : Talk} {scope : PaceScope} {error : PacingError}
    (h : talk.pace scope = (.error error, left)) : left = talk := by
  unfold pace at h
  split at h
  · exact (Prod.mk.inj h).2.symm
  · cases scope with
    | whole => cases h
    | single number =>
      simp only at h
      split at h
      · cases h
      · exact (Prod.mk.inj h).2.symm

/-- Pacing loses no entry. -/
theorem Paced.isSome_entryAt? {talk later : Talk} {scope : PaceScope}
    (hPaced : Paced talk scope later) {place : Place} (h : (talk.scrap.entryAt? place).isSome) :
    (later.scrap.entryAt? place).isSome := by
  cases hCovers : scope.covers talk.scrap place with
  | true =>
    obtain ⟨timestamp, hTimed⟩ := hPaced.covered hCovers
    rw [hTimed, Option.isSome_map]
    exact h
  | false => rwa [hPaced.others hCovers]

/-- What refuses to be paced has no entries. -/
theorem paced_of_pace_error {talk left : Talk} {scope : PaceScope} {error : PacingError}
    (hOpen : talk.outcome .closing = none) (h : talk.pace scope = (.error error, left)) :
    Paced talk scope left := by
  rw [eq_of_pace_error h]
  unfold pace at h
  rw [isClosing_eq, hOpen] at h
  simp only [Option.isSome_none, Bool.false_eq_true, if_false] at h
  cases scope with
  | whole => cases h
  | single number =>
    simp only at h
    split at h
    · cases h
    · rename_i hNone
      refine ⟨hOpen, rfl, fun {place} hCovers => ⟨0, ?_⟩, fun _ => rfl⟩
      -- the number stands for a section behind the last one
      have hNoSection : ∀ sect ∈ talk.scrap.sections, ¬ sect.number = number := by
        have hFind := Option.map_eq_none_iff.mp hNone
        simpa [Scrap.section?, List.find?_eq_none] using hFind
      have hPosition : talk.scrap.sections[place.sect]? = none := by
        rw [List.getElem?_eq_none_iff]
        have hEq : talk.scrap.position number = place.sect := by
          simpa [PaceScope.covers] using hCovers
        have hLast : talk.scrap.position number = talk.scrap.sections.length :=
          List.findIdx_eq_length_of_false (by simpa using hNoSection)
        omega
      simp [Scrap.entryAt?, hPosition]

end Talk

end Dialogue
