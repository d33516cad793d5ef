import Dialogue.Proofs.Scrap.Bare
import Dialogue.Proofs.Talk.History

/-!
# Authored talks

A text is written by directions and then wrapped up: its last section is closed and all entries get
their times. This module says what stands in the scrap then. The section that takes new text is always
the last one and the only one that is open (`Orderly`), so that a text which is wrapped up ends with the
pause of a section.

Main results:

* `Talk.keeps_direct_asking`, `Talk.keeps_direct` — directions are made of four steps, and what these keep,
  every direction keeps.
* `Talk.orderly_direct` — every direction keeps the order of sections.
* `Talk.authored_wrapUp` — a text that is wrapped up: nothing is scheduled, every entry has the sum of
  the delays up to it as its time, and the last one is no emote.
-/

namespace Dialogue

/-- A section that ends with its pause. -/
def Section.Ends (sect : Section) : Prop := ∃ pause, sect.terminal = some pause ∧ pause.emote? = none

/-- A section that is closed ends with its terminal. -/
theorem Section.ends_close {sect : Section} (hOpen : sect.terminal = none) : sect.close.Ends := by
  unfold close
  have hNot : sect.isClosed = false := by rw [isClosed, hOpen]; rfl
  rw [hNot]
  exact ⟨_, rfl, rfl⟩

/-- A change to the open paragraph keeps the label of the section, and with it the number. -/
theorem Section.label_modifyOpen (sect : Section) (f : Paragraph → Paragraph) :
    (sect.modifyOpen f).label = sect.label := by
  unfold modifyOpen
  split <;> rfl

theorem Section.label_close (sect : Section) : sect.close.label = sect.label := by
  unfold close
  split
  · rfl
  · exact sect.label_modifyOpen _

theorem Section.number_modifyOpen (sect : Section) (f : Paragraph → Paragraph) :
    (sect.modifyOpen f).number = sect.number := congrArg Prod.fst (sect.label_modifyOpen f)

theorem Section.number_close (sect : Section) : sect.close.number = sect.number :=
  congrArg Prod.fst sect.label_close

/-- Changing the last section changes no other one, if none has its number. -/
theorem Scrap.modifyFirst_append {number : Nat} (f : Section → Section) {earlier : List Section}
    {last : Section} (hNe : ∀ sect ∈ earlier, sect.number ≠ number) (hLast : last.number = number) :
    modifyFirst number f (earlier ++ [last]) = earlier ++ [f last] := by
  induction earlier with
  | nil => simp [modifyFirst, hLast]
  | cons sect rest ih =>
    rw [List.cons_append, modifyFirst, if_neg (hNe sect (List.mem_cons_self ..)),
      ih fun other hMem => hNe other (List.mem_cons_of_mem _ hMem), List.cons_append]

namespace Talk

/-! ## The steps of writing -/

/-- What the four steps of writing keep — a report, the end of a section, the start of one, and a change
within the section that takes new text — a direction keeps. It starts a section only while the talk is not
closing, and in an area of one's own choice only if it asks for one. -/
theorem keeps_direct_asking (Inv : Talk → Prop) {talk : Talk} {direction : Direction}
    (hReport : ∀ {later} severity text, Inv later → Inv (later.report severity text))
    (hEnd : ∀ {later}, Inv later → Inv later.endSection)
    (hStart : ∀ {later} asked, talk.isClosing = false →
      (∀ area, asked = some area → direction = .beginSection (some area)) →
      Inv later → Inv (later.startSection asked))
    (hModify : ∀ {later} {f : Section → Section}, (∀ sect, (f sect).label = sect.label) →
      (∀ sect, (f sect).terminal = sect.terminal) → Inv later → Inv (later.modifyCurrent f))
    (h : Inv talk) : Inv (talk.direct direction) := by
  have hOpen : ∀ {t : Talk} (f : Paragraph → Paragraph), Inv t →
      Inv (t.modifyCurrent (Section.modifyOpen f)) := fun f =>
    hModify (fun sect => sect.label_modifyOpen f) fun sect => sect.terminal_modifyOpen f
  have hUnlessClosing : ∀ write : Talk → Talk, (talk.isClosing = false → Inv (write talk)) →
      Inv (talk.unlessClosing write) := by
    intro write hAfter
    unfold unlessClosing
    split
    · exact hReport _ _ h
    · rename_i hNot
      exact hAfter (Bool.eq_false_iff.mpr hNot)
  have hParagraph : talk.isClosing = false → ∀ {t : Talk} (actor : String), Inv t →
      Inv (t.startParagraph actor) := by
    intro hNot t actor ht
    unfold startParagraph
    -- a paragraph without a section starts one
    have hSection : Inv (if t.currentSection.isNone then t.startSection none else t) := by
      split
      · exact hStart none hNot (fun _ hAsked => nomatch hAsked) ht
      · exact ht
    exact hModify (fun _ => rfl) (fun _ => rfl) (hOpen Paragraph.close hSection)
  have hWrite : ∀ items, Inv (talk.write items) := by
    intro items
    refine hUnlessClosing _ fun hNot => hOpen _ ?_
    -- and so does text without a paragraph
    unfold withParagraph
    split
    · exact h
    · exact hParagraph hNot _ (hReport _ _ h)
  cases direction with
  | beginSection area =>
    refine hUnlessClosing (·.startSection area) fun hNot => hStart area hNot ?_ h
    rintro asked rfl
    rfl
  -- a section can be ended even while the talk is closing
  | endSection => exact hEnd h
  | beginParagraph actor =>
    exact hUnlessClosing (·.startParagraph actor) fun hNot => hParagraph hNot actor h
  | endParagraph => exact hOpen Paragraph.close h
  | speak text => exact hWrite _
  | emote name => exact hWrite _
  | lineBreak => exact hWrite _

/-- What the four steps of writing keep, whatever is asked for, every direction keeps. -/
theorem keeps_direct (Inv : Talk → Prop)
    (hReport : ∀ {talk} severity text, Inv talk → Inv (talk.report severity text))
    (hEnd : ∀ {talk}, Inv talk → Inv talk.endSection)
    (hStart : ∀ {talk} asked, Inv talk → Inv (talk.startSection asked))
    (hModify : ∀ {talk} {f : Section → Section}, (∀ sect, (f sect).label = sect.label) →
      (∀ sect, (f sect).terminal = sect.terminal) → Inv talk → Inv (talk.modifyCurrent f))
    {talk : Talk} (h : Inv talk) (direction : Direction) : Inv (talk.direct direction) :=
  keeps_direct_asking Inv hReport hEnd (fun asked _ _ hTalk => hStart asked hTalk) hModify h

/-- After the end of a section there is no current section. -/
@[simp] theorem currentSection_endSection (talk : Talk) : talk.endSection.currentSection = none := by
  unfold endSection
  cases hCurrent : talk.currentSection with
  | none => exact hCurrent
  | some number => rfl

/-- Where no section is open, there is nothing to end. -/
theorem endSection_of_none {talk : Talk} (hNone : talk.currentSection = none) :
    talk.endSection = talk := by
  rw [endSection, hNone]

theorem endParagraph_of_none {talk : Talk} (hNone : talk.currentSection = none) :
    talk.endParagraph = talk := by
  rw [endParagraph, modifyCurrent, hNone]

/-- Ending a paragraph closes the open paragraph of the current section. -/
theorem endParagraph_of_some {talk : Talk} {number : Nat}
    (hCurrent : talk.currentSection = some number) :
    talk.endParagraph =
      { talk with
        scrap := talk.scrap.modifySection number (Section.modifyOpen Paragraph.close) } := by
  rw [endParagraph, modifyCurrent, hCurrent]

/-! ## The order of sections -/

/-- The current section stands last and is open, and the sections before it have ended. Section numbers
come from the registry. -/
structure Orderly (talk : Talk) : Prop where
  numbered : ∀ sect ∈ talk.scrap.sections, sect.number ≤ talk.registry.sections
  current : ∀ number, talk.currentSection = some number →
    ∃ earlier last, talk.scrap.sections = earlier ++ [last] ∧ last.number = number ∧
      last.terminal = none ∧ ∀ sect ∈ earlier, sect.number ≠ number ∧ sect.Ends
  ended : talk.currentSection = none → ∀ sect ∈ talk.scrap.sections, sect.Ends

theorem orderly_report {talk : Talk} (h : Orderly talk) (severity : Severity) (text : String) :
    Orderly (talk.report severity text) := ⟨h.numbered, h.current, h.ended⟩

/-- The current section is the only one that writing and ending a section change. -/
theorem Orderly.split {talk : Talk} (h : Orderly talk) {number : Nat}
    (hCurrent : talk.currentSection = some number) :
    ∃ earlier last, talk.scrap.sections = earlier ++ [last] ∧ last.number = number ∧
      last.terminal = none ∧ (∀ sect ∈ earlier, sect.number ≠ number ∧ sect.Ends) ∧
      ∀ f, talk.scrap.modifySection number f =
        { talk.scrap with sections := earlier ++ [f last] } := by
  obtain ⟨earlier, last, hSections, hLast, hOpen, hEarlier⟩ := h.current number hCurrent
  refine ⟨earlier, last, hSections, hLast, hOpen, hEarlier, fun f => ?_⟩
  -- no other section has the number
  rw [Scrap.modifySection, hSections,
    Scrap.modifyFirst_append f (fun sect hMem => (hEarlier sect hMem).1) hLast]

/-- What changing the current section and ending it come to. -/
theorem Orderly.modifyCurrent_eq {talk : Talk} (h : Orderly talk) {number : Nat}
    (hCurrent : talk.currentSection = some number) :
    ∃ earlier last, talk.scrap.sections = earlier ++ [last] ∧
      (∀ f, talk.modifyCurrent f =
        { talk with scrap := { talk.scrap with sections := earlier ++ [f last] } }) ∧
      talk.endSection =
        { talk with
          currentSection := none
          scrap := { talk.scrap with sections := earlier ++ [last.close] } } := by
  obtain ⟨earlier, last, hSections, -, -, -, hModify⟩ := h.split hCurrent
  refine ⟨earlier, last, hSections, fun f => ?_, ?_⟩
  · simp only [modifyCurrent, hCurrent, hModify]
  · simp only [endSection, hCurrent, hModify]

/-- A change of the current section that keeps its number and its terminal keeps a talk orderly. -/
theorem orderly_modifyCurrent {talk : Talk} (h : Orderly talk) {f : Section → Section}
    (hNumber : ∀ sect, (f sect).number = sect.number)
    (hTerminal : ∀ sect, (f sect).terminal = sect.terminal) : Orderly (talk.modifyCurrent f) := by
  unfold modifyCurrent
  cases hCurrent : talk.currentSection with
  | none => exact h
  | some number =>
    obtain ⟨earlier, last, hSections, hLast, hOpen, hEarlier, hModify⟩ := h.split hCurrent
    have hModified : (talk.scrap.modifySection number f).sections = earlier ++ [f last] := by
      rw [hModify]
    refine ⟨fun sect hMem => ?_, fun other hOther => ?_, fun hNone => ?_⟩
    · simp only [hModified] at hMem
      rcases List.mem_append.mp hMem with hMem | hMem
      · exact h.numbered sect (by rw [hSections]; exact List.mem_append_left _ hMem)
      · -- the section that was changed
        rw [List.mem_singleton.mp hMem, hNumber]
        exact h.numbered last (by rw [hSections]; simp)
    · cases hOther
      exact ⟨earlier, f last, hModified, (hNumber last).trans hLast,
        (hTerminal last).trans hOpen, hEarlier⟩
    · cases hNone

/-- Ending the current section leaves an orderly talk orderly. -/
theorem orderly_endSection {talk : Talk} (h : Orderly talk) : Orderly talk.endSection := by
  unfold endSection
  cases hCurrent : talk.currentSection with
  | none => exact h
  | some number =>
    obtain ⟨earlier, last, hSections, hLast, hOpen, hEarlier, hModify⟩ := h.split hCurrent
    have hModified : (talk.scrap.modifySection number Section.close).sections =
        earlier ++ [last.close] := by
      rw [hModify]
    refine ⟨fun sect hMem => ?_, fun other hOther => ?_, fun _ sect hMem => ?_⟩
    · simp only [hModified] at hMem
      rcases List.mem_append.mp hMem with hMem | hMem
      · exact h.numbered sect (by rw [hSections]; exact List.mem_append_left _ hMem)
      · rw [List.mem_singleton.mp hMem, Section.number_close]
        exact h.numbered last (by rw [hSections]; simp)
    · cases hOther
    · simp only [hModified] at hMem
      rcases List.mem_append.mp hMem with hMem | hMem
      · exact (hEarlier sect hMem).2
      · rw [List.mem_singleton.mp hMem]
        exact Section.ends_close hOpen

/-- Starting a section leaves an orderly talk orderly. -/
theorem orderly_startSection {talk : Talk} (h : Orderly talk) (asked : Option String) :
    Orderly (talk.startSection asked) := by
  have hEnded := orderly_endSection h
  have hNone := talk.currentSection_endSection
  have hSections : (talk.startSection asked).scrap.sections = talk.endSection.scrap.sections ++
      [.empty (talk.endSection.registry.sections + 1) (talk.endSection.areas.areaFor asked)] := rfl
  refine ⟨fun sect hMem => ?_, fun number hNumber => ?_, fun hCurrent => by cases hCurrent⟩
  · rw [hSections] at hMem
    show sect.number ≤ talk.endSection.registry.sections + 1
    rcases List.mem_append.mp hMem with hMem | hMem
    · exact Nat.le_succ_of_le (hEnded.numbered sect hMem)
    · rw [List.mem_singleton.mp hMem]
      exact Nat.le_refl _
  · cases hNumber
    refine ⟨_, _, hSections, rfl, rfl, fun sect hMem => ⟨?_, hEnded.ended hNone sect hMem⟩⟩
    -- the number is new
    have hLe := hEnded.numbered sect hMem
    show sect.number ≠ talk.endSection.registry.sections + 1
    omega

/-- Every direction keeps the sections in order. -/
theorem orderly_direct {talk : Talk} (h : Orderly talk) (direction : Direction) :
    Orderly (talk.direct direction) :=
  keeps_direct Orderly (fun severity text hTalk => orderly_report hTalk severity text)
    (fun hTalk => orderly_endSection hTalk)
    (fun asked hTalk => orderly_startSection hTalk asked)
    (fun hLabel hTerminal hTalk =>
      orderly_modifyCurrent hTalk (fun sect => congrArg Prod.fst (hLabel sect)) hTerminal)
    h direction

/-- Whatever is directed, an orderly talk stays orderly. -/
theorem orderly_directAll {talk : Talk} (h : Orderly talk) (directions : List Direction) :
    Orderly (talk.directAll directions) := by
  induction directions generalizing talk with
  | nil => exact h
  | cons direction rest ih => exact ih (orderly_direct h direction)

/-- What directions do is to write. -/
theorem written_directAll (talk : Talk) (directions : List Direction) :
    Written talk (talk.directAll directions) := by
  induction directions generalizing talk with
  | nil => exact .refl talk
  | cons direction rest ih => exact (talk.written_direct direction).trans (ih _)

/-- A new talk is orderly, as nothing has been written. -/
theorem orderly_of_isNew {talk : Talk} (hNew : talk.IsNew) : Orderly talk where
  numbered := by rw [hNew.scrap]; simp
  current number hCurrent := by
    rw [hNew.currentSection] at hCurrent
    cases hCurrent
  ended _ := by rw [hNew.scrap]; simp

/-- A text whose sections have all ended ends with a pause. -/
theorem emote?_last_of_ended {scrap : Scrap} (hEnded : ∀ sect ∈ scrap.sections, sect.Ends)
    {e : Entry} (hLast : scrap.entries[scrap.entries.length - 1]? = some e) : e.emote? = none := by
  rcases List.eq_nil_or_concat scrap.sections with hNone | ⟨earlier, last, hSections⟩
  · rw [Scrap.entries, hNone] at hLast
    cases hLast
  · rw [List.concat_eq_append] at hSections
    obtain ⟨pause, hTerminal, hPause⟩ := hEnded last (by rw [hSections]; simp)
    -- the pause of the last section ends the list of entries
    have hEntries : scrap.entries = (earlier.flatMap Section.entries ++
        last.paragraphs.flatMap Paragraph.entries) ++ [pause] := by
      rw [Scrap.entries, hSections, List.flatMap_append, List.flatMap_singleton, Section.entries,
        hTerminal, List.append_assoc]
      rfl
    rw [hEntries, List.length_append, List.length_singleton, Nat.add_sub_cancel,
      List.getElem?_concat_length, Option.some.injEq] at hLast
    rw [← hLast, hPause]

/-! ## Wrapping up -/

/-- A text that was written and wrapped up, and not started: each entry is due after the delays up to
it. -/
structure Authored (settings : Options) (talk : Talk) : Prop where
  options : talk.options = settings
  now : talk.agenda.now = 0
  pending : talk.agenda.pending = []
  startTime : talk.startTime = none
  outcome : ∀ milestone, talk.outcome milestone = none
  events : talk.events = []
  still : ∀ place e, talk.scrap.entryAt? place = some e → e.fading = false
  timestamp : ∀ i e, talk.scrap.entries[i]? = some e →
    e.timestamp = settings.tempo.elapsed (talk.scrap.entries.take (i + 1))
  last : ∀ e, talk.scrap.entries[talk.scrap.entries.length - 1]? = some e → e.emote? = none

/-- Wrapping up an open talk ends its section and paces the scrap. -/
theorem wrapUp_eq {talk : Talk} (hOpen : talk.outcome .closing = none) :
    talk.wrapUp.2 =
      { talk.endSection with
        scrap := (talk.endSection.scrap.paced talk.endSection.options.tempo).1 } := by
  have hClosing : talk.endSection.isClosing = false := by
    rw [isClosing_eq, outcome_eq, talk.written_endSection.lifecycle, ← outcome_eq, hOpen]
    rfl
  unfold wrapUp
  simp [pace, hClosing]

/-- A text that is written on a new talk and wrapped up. -/
theorem authored_wrapUp {talk : Talk} (hNew : talk.IsNew) (directions : List Direction) :
    Authored talk.options (talk.directAll directions).wrapUp.2 := by
  have hWritten := (talk.written_directAll directions).trans
    (talk.directAll directions).written_endSection
  have hOutcome : ∀ milestone, (talk.directAll directions).endSection.outcome milestone = none := by
    intro milestone
    rw [outcome_eq, hWritten.lifecycle, ← outcome_eq, hNew.outcome]
  have hOpen : (talk.directAll directions).outcome .closing = none := by
    rw [outcome_eq, (talk.written_directAll directions).lifecycle, ← outcome_eq, hNew.outcome]
  -- all that wrapping up needs to know about what was written
  have hOrderly := orderly_endSection (orderly_directAll (orderly_of_isNew hNew) directions)
  have hNoCurrent := (talk.directAll directions).currentSection_endSection
  rw [wrapUp_eq hOpen, hWritten.options]
  generalize (talk.directAll directions).endSection = ended at *
  have hPaced := ended.scrap.getElem?_entries_paced talk.options.tempo
  have hTiers := ended.scrap.map_tier_entries_paced talk.options.tempo
  refine ⟨hWritten.options, ?_, ?_, ?_, hOutcome, ?_, ?_, ?_, ?_⟩
  · show ended.agenda.now = 0
    rw [hWritten.agenda, hNew.now]
  · show ended.agenda.pending = []
    rw [hWritten.agenda, hNew.pending]
  · show ended.startTime = none
    rw [hWritten.startTime, hNew.startTime]
  · show ended.events = []
    rw [hWritten.events, hNew.events]
  · intro place e hEntry
    obtain ⟨timestamp, hTimed⟩ := ended.scrap.entryAt?_paced talk.options.tempo place
    simp only [hTimed] at hEntry
    obtain ⟨old, -, rfl⟩ := Option.map_eq_some_iff.mp hEntry
    rfl
  · intro i e hEntry
    simp only [hPaced] at hEntry
    obtain ⟨old, -, rfl⟩ := Option.map_eq_some_iff.mp hEntry
    refine (talk.options.tempo.elapsed_congr ?_).symm
    rw [List.map_take, List.map_take, hTiers]
  · intro e hLast
    -- pacing changes neither the tiers nor the number of the entries
    have hLength : (ended.scrap.paced talk.options.tempo).1.entries.length =
        ended.scrap.entries.length := by
      simpa using congrArg List.length hTiers
    simp only [hPaced, hLength] at hLast
    obtain ⟨old, hOld, rfl⟩ := Option.map_eq_some_iff.mp hLast
    show old.emote? = none
    exact emote?_last_of_ended (hOrderly.ended hNoCurrent) hOld

end Talk

end Dialogue
