import Dialogue.Proofs.Scrap.Bare
import Dialogue.Proofs.Talk.Signals

/-!
# What is done aside from writing

Only directions write a text. Whatever else a host does to a talk, the bare text stays as it is, with the
section that takes new text, the sections that are to close and the records of their areas; and the
registry stays too, but for the scrap that is detached when the talk comes to its end.

Main results:

* `Talk.sameText_fire`, `Talk.sameText_beginClosing` — what a cue and what closing leave alone.
* `Talk.keeps_authoredBy` — what directions keep, the authoring of an operation keeps.
* `Talk.sameText_perform` — every operation writes what its direction writes, if it has one, and does the
  rest aside.
-/

namespace Dialogue

/-! ## Records of areas -/

/-- The number of the section that a record belongs to, and its area. -/
def AreaRecord.label (record : AreaRecord) : Nat × String := (record.number, record.area)

/-- A change that leaves the labels of records alone. -/
def AreaRecord.KeepsLabel (f : AreaRecord → AreaRecord) : Prop :=
  ∀ record, (f record).label = record.label

/-- A change that keeps labels changes no label if it is made to one record. -/
theorem Areas.map_label_modifyFirst {f : AreaRecord → AreaRecord} (hf : AreaRecord.KeepsLabel f)
    (number : Nat) (records : List AreaRecord) :
    (modifyFirst number f records).map AreaRecord.label = records.map AreaRecord.label := by
  induction records with
  | nil => rfl
  | cons record rest ih =>
    rw [modifyFirst]
    split
    · rw [List.map_cons, List.map_cons, hf]
    · rw [List.map_cons, List.map_cons, ih]

theorem Areas.map_label_foldl_modify {α : Type} {f : AreaRecord → AreaRecord}
    (hf : AreaRecord.KeepsLabel f) (number : α → Nat) (l : List α) (areas : Areas) :
    (l.foldl (fun areas a => areas.modify (number a) f) areas).records.map AreaRecord.label =
      areas.records.map AreaRecord.label := by
  induction l generalizing areas with
  | nil => rfl
  | cons a rest ih =>
    rw [List.foldl_cons, ih]
    exact map_label_modifyFirst hf ..

/-- The authoring that an operation does. Wrapping up ends the current section before it paces. -/
def Operation.direction? : Operation → Option Direction
  | .direct direction => some direction
  | .wrapUp => some .endSection
  | .pace _ | .start | .skip | .close | .finish | .advanceTo _ | .advanceBy _ | .playOut
  | .collectEvents | .observe .. | .performWith _ => none

namespace Talk

/-! ## The relation -/

/-- What becomes of the registry: nothing, until the scrap is detached at the end of the talk. -/
def KeepsRegistry (talk later : Talk) : Prop :=
  (later.registry = talk.registry ∧ later.outcome .closed = talk.outcome .closed) ∨
    (later.registry = talk.registry.detach talk.scrap.name ∧ talk.outcome .closed = none ∧
      later.outcome .closed ≠ none)

/-- Nothing was written between `talk` and `later`. -/
structure SameText (talk later : Talk) : Prop where
  options : later.options = talk.options
  scrap : later.scrap.bare = talk.scrap.bare
  currentSection : later.currentSection = talk.currentSection
  closingSections : later.closingSections = talk.closingSections
  records : later.areas.records.map AreaRecord.label = talk.areas.records.map AreaRecord.label
  registry : KeepsRegistry talk later

namespace SameText

theorem refl (talk : Talk) : SameText talk talk := ⟨rfl, rfl, rfl, rfl, rfl, .inl ⟨rfl, rfl⟩⟩

theorem name {talk later : Talk} (h : SameText talk later) :
    later.scrap.name = talk.scrap.name := by
  have hNumber : later.scrap.bare.number = talk.scrap.bare.number := by rw [h.scrap]
  have hNumber : later.scrap.number = talk.scrap.number := hNumber
  rw [Scrap.name, Scrap.name, hNumber]

/-- What is the same text in two parts is so in one. -/
theorem trans {first second third : Talk} (h : SameText first second)
    (h' : SameText second third) : SameText first third where
  options := h'.options.trans h.options
  scrap := h'.scrap.trans h.scrap
  currentSection := h'.currentSection.trans h.currentSection
  closingSections := h'.closingSections.trans h.closingSections
  records := h'.records.trans h.records
  registry := by
    -- the scrap is detached in one of the two parts at most
    rcases h.registry with ⟨hFirst, hClosed⟩ | ⟨hFirst, hBefore, hAfter⟩
    · rcases h'.registry with ⟨hSecond, hClosed'⟩ | ⟨hSecond, hBefore', hAfter'⟩
      · exact .inl ⟨hSecond.trans hFirst, hClosed'.trans hClosed⟩
      · refine .inr ⟨?_, hClosed.symm.trans hBefore', hAfter'⟩
        rw [hSecond, hFirst, h.name]
    · rcases h'.registry with ⟨hSecond, hClosed'⟩ | ⟨-, hBefore', -⟩
      · refine .inr ⟨hSecond.trans hFirst, hBefore, ?_⟩
        rw [hClosed']
        exact hAfter
      · -- what was closed in the first part is closed already in the second
        exact absurd hBefore' hAfter

/-- Steps that write nothing one by one write nothing in a row. -/
theorem foldl {α : Type} {step : Talk → α → Talk} (hStep : ∀ talk a, SameText talk (step talk a))
    (l : List α) (talk : Talk) : SameText talk (l.foldl step talk) := by
  induction l generalizing talk with
  | nil => exact .refl talk
  | cons a rest ih => exact (hStep talk a).trans (ih _)

/-- The text is the same where all of it stays as it is, down to the entries. -/
theorem of_eq {talk later : Talk} (hOptions : later.options = talk.options)
    (hScrap : later.scrap = talk.scrap) (hCurrent : later.currentSection = talk.currentSection)
    (hClosing : later.closingSections = talk.closingSections) (hAreas : later.areas = talk.areas)
    (hRegistry : later.registry = talk.registry)
    (hClosed : later.outcome .closed = talk.outcome .closed) : SameText talk later where
  options := hOptions
  scrap := by rw [hScrap]
  currentSection := hCurrent
  closingSections := hClosing
  records := by rw [hAreas]
  registry := .inl ⟨hRegistry, hClosed⟩

end SameText

/-! ## Signals and entries -/

theorem sameText_settle (talk : Talk) {milestone : Milestone} (outcome : Outcome)
    (hOther : milestone ≠ .closed) : SameText talk (talk.settle milestone outcome) := by
  refine .of_eq rfl rfl rfl rfl rfl rfl ?_
  rw [outcome_settle, if_neg hOther]

theorem sameText_markPlayed (talk : Talk) (outcome : Outcome) :
    SameText talk (talk.markPlayed outcome) := by
  unfold markPlayed
  split
  · exact (talk.sameText_settle outcome (by decide)).trans
      (.of_eq rfl rfl rfl rfl rfl rfl rfl)
  · exact .refl talk

/-- A reveal changes only how an entry is shown, so that the bare scrap is the same. -/
theorem bare_revealed (talk : Talk) (entry : Nat) :
    (talk.revealed entry).bare = talk.scrap.bare := by
  have hShown : ∀ e : Entry, Entry.bare { e with visible := true, fading := talk.animates } =
      e.bare := fun _ => rfl
  unfold revealed showEntry
  cases talk.marked? entry with
  | none => rfl
  | some found => exact Scrap.bare_modifyAt hShown talk.scrap found.1

theorem sameText_reveal (talk : Talk) (entry : Nat) (last : Bool) :
    SameText talk (talk.reveal entry last) := by
  have hClosed : (talk.reveal entry last).outcome .closed = talk.outcome .closed :=
    outcome_reveal talk entry last (by decide)
  obtain ⟨outbox, hReveal⟩ := talk.reveal_eq entry last
  rw [hReveal] at hClosed ⊢
  exact ⟨rfl, talk.bare_revealed entry, rfl, rfl, rfl, .inl ⟨rfl, hClosed⟩⟩

theorem sameText_endFade (talk : Talk) (entry : Nat) : SameText talk (talk.endFade entry) := by
  have hFaded : ∀ e : Entry, Entry.bare { e with fading := false } = e.bare := fun _ => rfl
  have hBare : (talk.endFade entry).scrap.bare = talk.scrap.bare := by
    unfold endFade
    cases talk.marked? entry with
    | none => rfl
    | some found => exact Scrap.bare_modifyAt hFaded talk.scrap found.1
  rw [endFade_eq]
  exact ⟨rfl, hBare, rfl, rfl, rfl, .inl ⟨rfl, rfl⟩⟩

/-- The end of a talk detaches its scrap. -/
theorem sameText_conclude (talk : Talk) : SameText talk talk.conclude := by
  unfold conclude
  rw [isPending_eq]
  cases hClosed : talk.outcome .closed with
  | some outcome => exact .refl talk
  | none =>
    -- the scrap is detached as `closed` settles
    refine ⟨rfl, rfl, rfl, rfl, rfl, .inr ⟨rfl, hClosed, ?_⟩⟩
    show (talk.settle .closed .resolved).outcome .closed ≠ none
    rw [outcome_settle, if_pos rfl]
    exact Option.some_ne_none _

/-- The end of a section, which may be the end of the talk, leaves the text as it is. -/
theorem sameText_endClosing (talk : Talk) (number : Nat) :
    SameText talk (talk.endClosing number) := by
  have hLabel : AreaRecord.KeepsLabel AreaRecord.detach := fun _ => rfl
  have hDetached : SameText talk ({ talk with
      areas := talk.areas.modify number AreaRecord.detach
      closesLeft := talk.closesLeft - 1 }.raise (.sectionClosed number)) :=
    ⟨rfl, rfl, rfl, rfl, Areas.map_label_modifyFirst hLabel .., .inl ⟨rfl, rfl⟩⟩
  unfold endClosing
  simp only
  -- the last animation ends the talk
  split
  · exact hDetached.trans (sameText_conclude _)
  · exact hDetached

/-- Each cue leaves the text as it is. -/
theorem sameText_fire (talk : Talk) (cue : Cue) : SameText talk (talk.fire cue) := by
  cases cue with
  | reveal entry last => exact talk.sameText_reveal entry last
  | fadeEnd entry => exact talk.sameText_endFade entry
  | closeEnd number => exact talk.sameText_endClosing number

/-! ## The clock -/

theorem sameText_fireDue (talk : Talk) (limit : Millis) :
    SameText talk (talk.fireDue limit) := by
  fun_induction fireDue talk limit with
  | case1 talk => exact .refl talk
  | case2 talk cue rest hPop ih =>
    -- taking a cue changes the agenda alone
    obtain ⟨agenda, -, rfl⟩ := taken_of_pop? hPop
    have hTaken : SameText talk { talk with agenda } := .of_eq rfl rfl rfl rfl rfl rfl rfl
    exact hTaken.trans ((sameText_fire _ cue).trans ih)

theorem sameText_advanceTo (talk : Talk) (time : Millis) :
    SameText talk (talk.advanceTo time).2 :=
  (talk.sameText_fireDue time).trans (.of_eq rfl rfl rfl rfl rfl rfl rfl)

theorem sameText_playOut (talk : Talk) : SameText talk talk.playOut.2 := by
  fun_induction playOut talk with
  | case1 talk hDue => exact .of_eq rfl rfl rfl rfl rfl rfl rfl
  | case2 talk due hDue later last hRest ih =>
    rw [hRest] at ih
    exact (talk.sameText_advanceTo due).trans ih

/-! ## Starting and skipping -/

/-- Revealing the rest shows entries, and writes none. -/
theorem sameText_revealRest (talk : Talk) : SameText talk talk.revealRest := by
  have hCancelled : SameText talk { talk with agenda := talk.agenda.cancel Cue.isReveal } :=
    .of_eq rfl rfl rfl rfl rfl rfl rfl
  unfold revealRest
  -- cue by cue, from a talk that has lost its reveals
  refine hCancelled.trans (.foldl ?_ _ _)
  intro t cue
  cases cue with
  | reveal entry last => exact t.sameText_reveal entry last
  | fadeEnd entry => exact .refl t
  | closeEnd number => exact .refl t

/-- A plan puts cues on the agenda. -/
theorem sameText_plan (talk : Talk) (start : Millis) : SameText talk (talk.plan start) := by
  have hLabel : AreaRecord.KeepsLabel AreaRecord.makeVisible := fun _ => rfl
  have hRecords := Areas.map_label_foldl_modify hLabel Section.number talk.scrap.sections talk.areas
  exact ⟨rfl, rfl, rfl, rfl, hRecords, .inl ⟨rfl, rfl⟩⟩

theorem sameText_report (talk : Talk) (severity : Severity) (text : String) :
    SameText talk (talk.report severity text) := .of_eq rfl rfl rfl rfl rfl rfl rfl

/-- A text that is complete or was skipped does not wait for the clock. -/
theorem sameText_startAt (talk : Talk) (start : Millis) : SameText talk (talk.startAt start) := by
  have hPlan := talk.sameText_plan start
  unfold startAt
  simp only
  split
  · exact hPlan.trans (sameText_markPlayed ..)
  · split
    · exact hPlan
    · exact hPlan.trans (sameText_revealRest _)

/-- The start plans, reveals or ends the play. None of this writes. -/
theorem sameText_start (talk : Talk) : SameText talk talk.start := by
  unfold start
  split
  · exact talk.sameText_report ..
  · split
    · exact .refl talk
    · exact talk.sameText_startAt _

theorem sameText_skip (talk : Talk) : SameText talk talk.skip.2 := by
  unfold skip
  split
  · have hSettled := (talk.sameText_settle .resolved (show Milestone.play ≠ .closed by decide)).trans
      (sameText_report _ .debug "play resolved")
    simp only
    split
    · exact hSettled.trans (sameText_revealRest _)
    · exact hSettled
  · exact .refl talk

/-! ## Closing -/

/-- A section that starts to close keeps its text. -/
theorem sameText_startClosing (talk : Talk) (number : Nat) :
    SameText talk (talk.startClosing number) := by
  have hLabel : AreaRecord.KeepsLabel AreaRecord.close := fun _ => rfl
  exact ⟨rfl, rfl, rfl, rfl, Areas.map_label_modifyFirst hLabel .., .inl ⟨rfl, rfl⟩⟩

theorem sameText_closeSections (talk : Talk) : SameText talk talk.closeSections := by
  have hCounted : SameText talk { talk with closesLeft := talk.closingSections.length } :=
    .of_eq rfl rfl rfl rfl rfl rfl rfl
  have hStarted := hCounted.trans (.foldl sameText_startClosing talk.closingSections _)
  unfold closeSections
  simp only
  split
  · exact hStarted.trans (sameText_conclude _)
  · exact hStarted

/-- A talk that begins to close keeps its text. -/
theorem sameText_beginClosing (talk : Talk) (outcome : Outcome) :
    SameText talk (talk.beginClosing outcome).2 := by
  unfold beginClosing
  split
  · have hSettled := (talk.sameText_settle outcome (show Milestone.closing ≠ .closed by decide)).trans
      (sameText_report _ .debug ("closing (" ++ outcome.name ++ ")"))
    have hAbandoned := (hSettled.trans (sameText_markPlayed _ .abandoned)).trans
      (sameText_settle _ .abandoned (show Milestone.play ≠ .closed by decide))
    -- the fades of all entries end
    have hFaded : ∀ e : Entry, Entry.bare { e with fading := false } = e.bare := fun _ => rfl
    have hStopped : ∀ t : Talk, SameText t t.stopPlayback := fun t =>
      ⟨rfl, Scrap.bare_map hFaded t.scrap, rfl, rfl, rfl, .inl ⟨rfl, rfl⟩⟩
    exact (hAbandoned.trans (hStopped _)).trans (sameText_closeSections _)
  · exact .refl talk

/-! ## Operations -/

/-- Pacing changes times in the text, and nothing else. -/
theorem sameText_pace (talk : Talk) (scope : PaceScope) : SameText talk (talk.pace scope).2 := by
  have hBare : ∀ scrap : Scrap, scrap.bare = talk.scrap.bare → SameText talk { talk with scrap } :=
    fun _ hBare => ⟨rfl, hBare, rfl, rfl, rfl, .inl ⟨rfl, rfl⟩⟩
  unfold pace
  split
  · exact .refl talk
  · cases scope with
    | whole => exact hBare _ (Scrap.bare_paced ..)
    | single number =>
      simp only
      split
      · rename_i hPaced
        exact hBare _ (Scrap.bare_pacedSection? hPaced)
      · exact .refl talk

/-- Wrapping up writes no more than the end of the section. -/
theorem sameText_wrapUp (talk : Talk) : SameText talk.endSection talk.wrapUp.2 := by
  have hPaced := talk.endSection.sameText_pace .whole
  unfold wrapUp
  simp only
  split
  all_goals
    rename_i hPace
    rw [hPace] at hPaced
  · exact hPaced
  · -- a talk that cannot be paced only logs why
    exact hPaced.trans (sameText_report ..)

/-- The talk with no more than the authoring of an operation done. -/
def authoredBy (talk : Talk) (operation : Operation) : Talk :=
  operation.direction?.elim talk talk.direct

/-- What the direction of an operation keeps, its authoring keeps. -/
theorem keeps_authoredBy (Inv : Talk → Prop) {talk : Talk} {operation : Operation} (h : Inv talk)
    (hDirect : ∀ direction, operation.direction? = some direction → Inv (talk.direct direction)) :
    Inv (talk.authoredBy operation) := by
  unfold authoredBy
  cases hDirection : operation.direction? with
  | none => exact h
  | some direction => exact hDirect direction hDirection

/-- What an operation writes by itself was written by directions. -/
theorem written_authoredBy (talk : Talk) (operation : Operation) :
    Written talk (talk.authoredBy operation) :=
  keeps_authoredBy (Written talk) (.refl talk) fun direction _ => talk.written_direct direction

/-- Authoring settles nothing. -/
theorem outcome_authoredBy (talk : Talk) (operation : Operation) (milestone : Milestone) :
    (talk.authoredBy operation).outcome milestone = talk.outcome milestone := by
  rw [outcome, outcome, (talk.written_authoredBy operation).lifecycle]

/-- Every operation writes what its direction writes, if it has one, and does the rest aside. -/
theorem sameText_perform (talk : Talk) (operation : Operation) :
    SameText (talk.authoredBy operation) (talk.perform operation).2 := by
  cases operation with
  | direct direction => exact .refl _
  | pace scope => exact talk.sameText_pace scope
  | wrapUp => exact talk.sameText_wrapUp
  | start => exact talk.sameText_start
  | skip => exact talk.sameText_skip
  | close => exact talk.sameText_beginClosing .abandoned
  | finish => exact talk.sameText_beginClosing .resolved
  | advanceTo time => exact talk.sameText_advanceTo time
  | advanceBy delta => exact talk.sameText_advanceTo (talk.now + delta)
  | playOut => exact talk.sameText_playOut
  | collectEvents => exact .of_eq rfl rfl rfl rfl rfl rfl rfl
  | observe milestone observer =>
    exact .of_eq rfl rfl rfl rfl rfl rfl (outcome_observe talk milestone observer .closed)
  | performWith performer => exact .of_eq rfl rfl rfl rfl rfl rfl rfl

end Talk

end Dialogue
