import Dialogue.Proofs.Talk.Aside
import Dialogue.Proofs.Talk.Authored
import Dialogue.Proofs.Talk.Lifecycle

/-!
# Reachable talks

A talk may share its registry with others, which take numbers from it, and attach and detach their scraps,
while this talk waits. `Leads` follows a talk through the operations on it, with any such changes of the
registry in between; the talks that this leads to from a new one are `Reachable`. On the way the talk keeps
a `Roster` of its sections: they have rising numbers, and the records of the areas and the list of what is
to close name the same sections in the same order.

Main results:

* `Talk.shared_create`, `Talk.shared_perform` — what a talk does to a registry is what the others on it
  allow for.
* `Talk.Leads.keeps` — what operations and changes of the registry keep holds all the way.
* `Talk.Reachable.inStep`, `Talk.Reachable.orderly`, `Talk.Reachable.roster` — what is known of any talk.
* `Talk.Leads.keeps_open`, `Talk.Leads.isOpen_iff` — a talk that is open was open all the way, and nobody
  asked it to close.
-/

namespace Dialogue

/-! ## Sharing a registry -/

namespace Registry

/-- A scrap that is attached is found to be so. -/
theorem isAttached_attach (registry : Registry) (scrap : String) :
    (registry.attach scrap).isAttached scrap = true := by
  unfold attach
  split
  · assumption
  · simp [isAttached]

/-- Attaching one scrap does nothing to another. -/
theorem isAttached_attach_of_ne (registry : Registry) {scrap other : String} (hNe : scrap ≠ other) :
    (registry.attach other).isAttached scrap = registry.isAttached scrap := by
  unfold attach
  split
  · rfl
  · simp [isAttached, hNe]

/-- A scrap that is detached is not found any more. -/
theorem isAttached_detach (registry : Registry) (scrap : String) :
    (registry.detach scrap).isAttached scrap = false := by
  unfold detach isAttached
  cases registry.attached with
  | none => rfl
  | some names => simp

/-- Detaching one scrap does nothing to another. -/
theorem isAttached_detach_of_ne (registry : Registry) {scrap other : String} (hNe : scrap ≠ other) :
    (registry.detach other).isAttached scrap = registry.isAttached scrap := by
  unfold detach isAttached
  cases registry.attached with
  | none => rfl
  | some names => simp [hNe]

/-- What the other talks on a registry may do to it, as the owner of `scrap` sees it: they take numbers, and
attach and detach scraps of their own. -/
structure Shared (scrap : String) (registry later : Registry) : Prop where
  sections_le : registry.sections ≤ later.sections
  isAttached : later.isAttached scrap = registry.isAttached scrap

end Registry

/-! ## The numbers and the ends of sections -/

/-- The numbers of the sections that have started, in order. -/
def Scrap.numbers (scrap : Scrap) : List Nat := scrap.sections.map Section.number

/-- The numbers of the sections can be read off their labels. -/
theorem Scrap.numbers_of_label {scrap later : Scrap}
    (hLabel : later.sections.map Section.label = scrap.sections.map Section.label) :
    later.numbers = scrap.numbers := by
  have hFst := congrArg (List.map Prod.fst) hLabel
  rwa [List.map_map, List.map_map] at hFst

/-- All that the order of sections depends on. -/
def Section.ending (sect : Section) : Nat × Option Entry :=
  (sect.number, sect.terminal.map Entry.bare)

/-- Whether a section ends without an emote does not depend on times. -/
theorem Section.Ends.congr {sect sect' : Section} (h : sect.Ends)
    (hSame : Section.ending sect' = Section.ending sect) : sect'.Ends := by
  obtain ⟨pause, hTerminal, hPause⟩ := h
  have hBare : sect'.terminal.map Entry.bare = some pause.bare := by
    have hSnd : sect'.terminal.map Entry.bare = sect.terminal.map Entry.bare :=
      congrArg Prod.snd hSame
    rw [hSnd, hTerminal]
    rfl
  obtain ⟨pause', hTerminal', hEq⟩ := Option.map_eq_some_iff.mp hBare
  refine ⟨pause', hTerminal', ?_⟩
  show pause'.bare.emote? = none
  rw [hEq]
  exact hPause

namespace Talk

/-! ## What talks do to a registry -/

/-- Ending a section keeps the number of the scrap. -/
@[simp] theorem number_endSection (talk : Talk) :
    talk.endSection.scrap.number = talk.scrap.number := by
  unfold endSection
  split <;> rfl

/-- Ending a section asks nothing of the registry. -/
@[simp] theorem registry_endSection (talk : Talk) : talk.endSection.registry = talk.registry := by
  unfold endSection
  split <;> rfl

/-- A direction takes numbers for the sections that it starts, and attaches and detaches nothing. -/
theorem shared_direct (talk : Talk) (direction : Direction) (scrap : String) :
    Registry.Shared scrap talk.registry (talk.direct direction).registry ∧
      (talk.direct direction).scrap.name = talk.scrap.name := by
  refine keeps_direct
    (fun later => Registry.Shared scrap talk.registry later.registry ∧
      later.scrap.name = talk.scrap.name)
    (fun _ _ h => h) ?_ ?_ ?_ ⟨⟨Nat.le_refl _, rfl⟩, rfl⟩ direction
  · intro later h
    rwa [Scrap.name, registry_endSection, number_endSection]
  · intro later asked h
    obtain ⟨⟨hSections, hAttached⟩, hName⟩ := h
    have hRegistry : (later.startSection asked).registry =
        { later.registry with sections := later.registry.sections + 1 } := by
      rw [← later.registry_endSection]
      rfl
    have hNumber : (later.startSection asked).scrap.number = later.scrap.number :=
      later.number_endSection
    refine ⟨⟨?_, ?_⟩, ?_⟩
    · rw [hRegistry]
      exact Nat.le_succ_of_le hSections
    · rw [hRegistry]
      exact hAttached
    · rw [← hName, Scrap.name, hNumber, Scrap.name]
  · intro later f _ _ h
    unfold modifyCurrent
    split <;> exact h

/-- What an operation writes by itself may take numbers for sections, and attaches and detaches nothing. -/
theorem shared_authoredBy (talk : Talk) (operation : Operation) (scrap : String) :
    Registry.Shared scrap talk.registry (talk.authoredBy operation).registry ∧
      (talk.authoredBy operation).scrap.name = talk.scrap.name :=
  keeps_authoredBy
    (fun later => Registry.Shared scrap talk.registry later.registry ∧
      later.scrap.name = talk.scrap.name)
    ⟨⟨Nat.le_refl _, rfl⟩, rfl⟩ fun direction _ => talk.shared_direct direction scrap

/-- What a talk does to its registry, as the owner of another scrap sees it. -/
theorem shared_perform (talk : Talk) (operation : Operation) {scrap : String}
    (hNe : scrap ≠ talk.scrap.name) :
    Registry.Shared scrap talk.registry (talk.perform operation).2.registry := by
  obtain ⟨⟨hSections, hAttached⟩, hName⟩ := talk.shared_authoredBy operation scrap
  rcases (talk.sameText_perform operation).registry with ⟨hSame, -⟩ | ⟨hDetached, -, -⟩
  · rw [hSame]
    exact ⟨hSections, hAttached⟩
  · -- at its end the talk detaches its own scrap
    rw [hDetached, hName]
    refine ⟨hSections, ?_⟩
    rw [Registry.isAttached_detach_of_ne _ hNe]
    exact hAttached

/-- A new talk takes a number, and attaches its scrap. -/
theorem registry_of_create {registry : Registry} {options : Options} {talk : Talk}
    (hCreate : Talk.create registry options = .ok talk) :
    options.Valid ∧ ∃ counted : Registry, counted.sections = registry.sections ∧
      counted.attached = registry.attached ∧ talk.registry = counted.attach talk.scrap.name := by
  have hValid : options.Valid := by
    refine Options.validate_eq_ok_iff.mp ?_
    cases hCheck : options.validate with
    | ok _ => rfl
    | error error =>
      unfold Talk.create Talk.enroll at hCreate
      rw [hCheck] at hCreate
      cases hCreate
  unfold Talk.create Talk.enroll at hCreate
  rw [Options.validate_eq_ok_iff.mpr hValid] at hCreate
  cases hCreate
  exact ⟨hValid, { registry with talks := registry.talks + 1 }, rfl, rfl, rfl⟩

/-- What a new talk does to its registry, as the owner of another scrap sees it. -/
theorem shared_create {registry : Registry} {options : Options} {talk : Talk}
    (hCreate : Talk.create registry options = .ok talk) {scrap : String}
    (hNe : scrap ≠ talk.scrap.name) : Registry.Shared scrap registry talk.registry := by
  obtain ⟨-, counted, hSections, hAttached, hRegistry⟩ := registry_of_create hCreate
  rw [hRegistry]
  refine ⟨?_, ?_⟩
  · exact Nat.le_of_eq (hSections.symm.trans (Registry.sections_attach _ _).symm)
  · rw [Registry.isAttached_attach_of_ne _ hNe]
    simp only [Registry.isAttached, hAttached]

/-! ## From talk to talk -/

/-- Operations lead from a talk to another one, while others may use its registry. -/
inductive Leads (first : Talk) : List Operation → Talk → Prop where
  | refl : Leads first [] first
  | perform {operations : List Operation} {talk : Talk} (hLeads : Leads first operations talk)
      (operation : Operation) : Leads first (operations ++ [operation]) (talk.perform operation).2
  | share {operations : List Operation} {talk : Talk} {registry : Registry}
      (hLeads : Leads first operations talk)
      (hShared : Registry.Shared talk.scrap.name talk.registry registry) :
      Leads first operations { talk with registry }

/-- A talk that comes of a new one on valid options, whatever is done to it and to its registry. -/
def Reachable (talk : Talk) : Prop :=
  ∃ registry options first operations,
    Talk.create registry options = .ok first ∧ Leads first operations talk

namespace Leads

variable {first talk later : Talk} {operations more : List Operation}

/-- What leads on can be led on from. -/
theorem trans (h : Leads first operations talk) (h' : Leads talk more later) :
    Leads first (operations ++ more) later := by
  induction h' with
  | refl => rwa [List.append_nil]
  | perform hLeads operation ih =>
    rw [← List.append_assoc]
    exact .perform ih operation
  | share hLeads hShared ih => exact .share ih hShared

/-- What operations and changes of the registry keep holds all the way. -/
theorem keeps (Inv : Talk → Prop)
    (hPerform : ∀ {talk} operation, Inv talk → Inv (talk.perform operation).2)
    (hShare : ∀ {talk : Talk} {registry}, Registry.Shared talk.scrap.name talk.registry registry →
      Inv talk → Inv { talk with registry })
    (h : Leads first operations talk) (hFirst : Inv first) : Inv talk := by
  induction h with
  | refl => exact hFirst
  | perform hLeads operation ih => exact hPerform operation ih
  | share hLeads hShared ih => exact hShare hShared ih

/-- Without others on the registry, operations lead where they always do. -/
theorem of_after (talk : Talk) (operations : List Operation) :
    Leads talk operations (talk.after operations) := by
  induction operations using List.reverseRecOn with
  | nil => exact .refl
  | append_singleton operations operation ih =>
    rw [after_append]
    exact .perform ih operation

end Leads

/-- Operations do not take a request to close back. -/
theorem Leads.closing {talk later : Talk} {operations : List Operation}
    (hLeads : Leads talk operations later) (hClosing : talk.outcome .closing ≠ none) :
    later.outcome .closing ≠ none := by
  refine Leads.keeps (fun talk => talk.outcome .closing ≠ none) ?_ (fun _ h => h) hLeads hClosing
  intro talk operation hSettled
  obtain ⟨outcome, hOutcome⟩ := Option.ne_none_iff_exists'.mp hSettled
  obtain ⟨raised, hEffect, -⟩ := talk.effect_perform operation
  rw [hEffect.settled hOutcome]
  exact Option.some_ne_none _

/-- A talk that is open after an operation was open before it, and was not asked to close. -/
theorem open_before {talk : Talk} {operation : Operation}
    (hLater : (talk.perform operation).2.outcome .closing = none) :
    talk.outcome .closing = none ∧ operation.requestsClose = false := by
  have hOpen : talk.outcome .closing = none := by
    by_contra hClosing
    exact Leads.closing (.perform .refl operation) hClosing hLater
  refine ⟨hOpen, Bool.eq_false_iff.mpr fun hRequest => ?_⟩
  exact closing_of_request hOpen hRequest hLater

/-- A talk that was just created is reachable. -/
theorem reachable_of_create {registry : Registry} {options : Options} {talk : Talk}
    (hCreate : Talk.create registry options = .ok talk) : Reachable talk :=
  ⟨registry, options, talk, [], hCreate, .refl⟩

/-- Whatever is done to a reachable talk, it stays reachable. -/
theorem Reachable.leads {talk later : Talk} {operations : List Operation} (h : Reachable talk)
    (hLeads : Leads talk operations later) : Reachable later := by
  obtain ⟨registry, options, first, before, hCreate, hFirst⟩ := h
  exact ⟨registry, options, first, before ++ operations, hCreate, hFirst.trans hLeads⟩

/-! ## The roster -/

/-- The sections of a talk in the order in which they started, as the talk keeps them in three places. -/
structure Roster (talk : Talk) : Prop where
  rising : talk.scrap.numbers.Pairwise (· < ·)
  records : talk.areas.records.map AreaRecord.label = talk.scrap.sections.map Section.label
  closing : talk.closingSections = talk.scrap.numbers
  /-- The scrap is attached until the talk is over. -/
  attached : talk.registry.isAttached talk.scrap.name = (talk.outcome .closed).isNone

theorem SameText.numbers {talk later : Talk} (h : SameText talk later) :
    later.scrap.numbers = talk.scrap.numbers :=
  Scrap.numbers_of_label (Scrap.map_sections_of_bare_eq (fun _ => rfl) h.scrap)

/-- Whoever has the same text has taken no number for a section. -/
theorem SameText.sections {talk later : Talk} (h : SameText talk later) :
    later.registry.sections = talk.registry.sections := by
  rcases h.registry with ⟨hRegistry, -⟩ | ⟨hRegistry, -, -⟩ <;> rw [hRegistry]
  rfl

namespace Roster

variable {talk later : Talk}

/-- The areas stay matched where no section is started and no record is attached. -/
theorem congr (h : Roster talk)
    (hLabel : later.scrap.sections.map Section.label = talk.scrap.sections.map Section.label)
    (hRecords : later.areas.records.map AreaRecord.label =
      talk.areas.records.map AreaRecord.label)
    (hClosing : later.closingSections = talk.closingSections)
    (hAttached : later.registry.isAttached later.scrap.name = (later.outcome .closed).isNone) :
    Roster later where
  rising := by
    rw [Scrap.numbers_of_label hLabel]
    exact h.rising
  records := by rw [hRecords, hLabel, h.records]
  closing := by rw [hClosing, Scrap.numbers_of_label hLabel, h.closing]
  attached := hAttached

/-- The areas and sections of a talk match as long as its text is the same. -/
theorem sameText (h : Roster talk) (hSame : SameText talk later) : Roster later := by
  refine h.congr (Scrap.map_sections_of_bare_eq (fun _ => rfl) hSame.scrap) hSame.records
    hSame.closingSections ?_
  rw [hSame.name]
  rcases hSame.registry with ⟨hRegistry, hClosed⟩ | ⟨hRegistry, -, hClosed⟩
  · rw [hRegistry, hClosed, h.attached]
  · -- the talk has come to its end
    rw [hRegistry, Registry.isAttached_detach]
    exact (isPending_of_settled hClosed).symm

/-- Ending a section adds neither a section nor an area. -/
theorem endSection (h : Roster talk) : Roster talk.endSection := by
  unfold Talk.endSection
  split
  · exact h.congr (Scrap.map_modifyFirst_of_eq Section.label_close ..) rfl rfl h.attached
  · exact h

/-- Changing the current section keeps the areas matched, if the change keeps labels. -/
theorem modifyCurrent (h : Roster talk) {f : Section → Section}
    (hLabel : ∀ sect, (f sect).label = sect.label) : Roster (talk.modifyCurrent f) := by
  unfold Talk.modifyCurrent
  split
  · exact h.congr (Scrap.map_modifyFirst_of_eq hLabel ..) rfl rfl h.attached
  · exact h

/-- A section is entered everywhere when it starts, and its number is new. -/
theorem startSection (h : Roster talk) (hOrderly : Orderly talk) (asked : Option String) :
    Roster (talk.startSection asked) := by
  have hEnded := h.endSection
  have hNumbered := (orderly_endSection hOrderly).numbered
  have hSections : (talk.startSection asked).scrap.sections = talk.endSection.scrap.sections ++
      [.empty (talk.endSection.registry.sections + 1) (talk.endSection.areas.areaFor asked)] := rfl
  have hRecords : (talk.startSection asked).areas.records = talk.endSection.areas.records ++
      [(AreaRecord.fresh (talk.endSection.registry.sections + 1)
        (talk.endSection.areas.areaFor asked)).opening] := by
    show modifyLast AreaRecord.opening (talk.endSection.areas.records ++ [_]) = _
    exact modifyLast_append_singleton ..
  refine ⟨?_, ?_, ?_, hEnded.attached⟩
  · rw [Scrap.numbers, hSections, List.map_append, List.pairwise_append]
    refine ⟨hEnded.rising, List.pairwise_singleton .., ?_⟩
    intro number hMem new hNew
    -- the numbers so far come from the registry
    obtain ⟨sect, hSect, rfl⟩ := List.mem_map.mp hMem
    have hLe := hNumbered sect hSect
    have hNew : new = talk.endSection.registry.sections + 1 := List.mem_singleton.mp hNew
    omega
  · rw [hSections, hRecords, List.map_append, List.map_append, hEnded.records]
    rfl
  · rw [Scrap.numbers, hSections, List.map_append]
    show talk.endSection.closingSections ++ _ = _
    rw [hEnded.closing]
    rfl

/-- Whatever is directed, the areas match the sections. -/
theorem direct (h : Roster talk) (hOrderly : Orderly talk) (direction : Direction) :
    Roster (talk.direct direction) := by
  have hBoth : Orderly (talk.direct direction) ∧ Roster (talk.direct direction) := by
    refine keeps_direct (fun talk => Orderly talk ∧ Roster talk) ?_ ?_ ?_ ?_ ⟨hOrderly, h⟩ direction
    · intro talk severity text hTalk
      exact ⟨orderly_report hTalk.1 .., hTalk.2.sameText (talk.sameText_report ..)⟩
    · intro talk hTalk
      exact ⟨orderly_endSection hTalk.1, hTalk.2.endSection⟩
    · intro talk asked hTalk
      exact ⟨orderly_startSection hTalk.1 asked, hTalk.2.startSection hTalk.1 asked⟩
    · intro talk f hLabel hTerminal hTalk
      exact ⟨orderly_modifyCurrent hTalk.1 (fun sect => congrArg Prod.fst (hLabel sect)) hTerminal,
        hTalk.2.modifyCurrent hLabel⟩
  exact hBoth.2

end Roster

/-! ## The order of sections -/

/-- The order of sections is seen in the bare text. -/
theorem Orderly.sameText {talk later : Talk} (h : Orderly talk) (hSame : SameText talk later) :
    Orderly later := by
  have hEnding : ∀ sect : Section, Section.ending (sect.map Entry.bare) = Section.ending sect := by
    intro sect
    show (sect.number, (sect.terminal.map Entry.bare).map Entry.bare) = _
    -- taking the times away a second time changes nothing
    cases hTerminal : sect.terminal <;> simp only [Section.ending, hTerminal] <;> rfl
  have hSections := Scrap.map_sections_of_bare_eq hEnding hSame.scrap
  -- each section is found again in the other scrap
  have hFound : ∀ {sections sections' : List Section},
      sections'.map Section.ending = sections.map Section.ending →
      ∀ sect' ∈ sections', ∃ sect ∈ sections, Section.ending sect' = Section.ending sect := by
    intro sections sections' hMap sect' hMem
    have hIn : Section.ending sect' ∈ sections.map Section.ending := by
      rw [← hMap]
      exact List.mem_map_of_mem hMem
    obtain ⟨sect, hSect, hEq⟩ := List.mem_map.mp hIn
    exact ⟨sect, hSect, hEq.symm⟩
  refine ⟨?_, ?_, ?_⟩
  · intro sect' hMem
    obtain ⟨sect, hSect, hEq⟩ := hFound hSections sect' hMem
    have hNumber : sect'.number = sect.number := congrArg Prod.fst hEq
    rw [hNumber, hSame.sections]
    exact h.numbered sect hSect
  · intro number hCurrent
    rw [hSame.currentSection] at hCurrent
    obtain ⟨earlier, last, hAll, hLast, hOpen, hEarlier⟩ := h.current number hCurrent
    rw [hAll, List.map_append] at hSections
    obtain ⟨earlier', lasts, hAll', hBefore, hEnd⟩ := List.map_eq_append_iff.mp hSections
    obtain ⟨last', rfl, hLast'⟩ := List.map_eq_singleton_iff.mp hEnd
    -- the last section is the last one still, and what the earlier ones end with is the same
    refine ⟨earlier', last', hAll', ?_, ?_, ?_⟩
    · rw [← hLast]
      exact congrArg Prod.fst hLast'
    · have hTerminal : last'.terminal.map Entry.bare = last.terminal.map Entry.bare :=
        congrArg Prod.snd hLast'
      rw [hOpen] at hTerminal
      exact Option.map_eq_none_iff.mp hTerminal
    · intro sect' hMem
      obtain ⟨sect, hSect, hEq⟩ := hFound hBefore sect' hMem
      obtain ⟨hNe, hEnds⟩ := hEarlier sect hSect
      have hNumber : sect'.number = sect.number := congrArg Prod.fst hEq
      rw [hNumber]
      exact ⟨hNe, hEnds.congr hEq⟩
  · intro hCurrent sect' hMem
    rw [hSame.currentSection] at hCurrent
    obtain ⟨sect, hSect, hEq⟩ := hFound hSections sect' hMem
    exact (h.ended hCurrent sect hSect).congr hEq

theorem orderly_authoredBy {talk : Talk} (h : Orderly talk) (operation : Operation) :
    Orderly (talk.authoredBy operation) :=
  keeps_authoredBy Orderly h fun direction _ => orderly_direct h direction

theorem Roster.authoredBy {talk : Talk} (h : Roster talk) (hOrderly : Orderly talk)
    (operation : Operation) : Roster (talk.authoredBy operation) :=
  keeps_authoredBy Roster h fun direction _ => h.direct hOrderly direction

/-! ## What is known of any talk -/

/-- A new talk has not come to any area, and there is nothing to close. -/
theorem areas_of_create {registry : Registry} {options : Options} {talk : Talk}
    (hCreate : Talk.create registry options = .ok talk) :
    talk.areas = .ofRotation options.areas ∧ talk.closesLeft = 0 := by
  obtain ⟨hValid, -⟩ := registry_of_create hCreate
  unfold Talk.create Talk.enroll at hCreate
  rw [Options.validate_eq_ok_iff.mpr hValid] at hCreate
  cases hCreate
  exact ⟨rfl, rfl⟩

/-- A new talk has the options that were asked for, and nothing is written or entered yet. -/
theorem of_create {registry : Registry} {options : Options} {talk : Talk}
    (hCreate : Talk.create registry options = .ok talk) :
    talk.options = options ∧ talk.IsNew ∧ Roster talk := by
  obtain ⟨hValid, counted, -, -, hRegistry⟩ := registry_of_create hCreate
  obtain ⟨new, hNew, hOptions, hIsNew⟩ := exists_create registry hValid
  rw [hCreate] at hNew
  cases hNew
  -- a new talk has no sections and no records
  have hRecords : talk.areas.records = [] := by
    rw [(areas_of_create hCreate).1]
    rfl
  refine ⟨hOptions, hIsNew, ?_, ?_, ?_, ?_⟩
  · rw [Scrap.numbers, hIsNew.scrap]
    exact List.Pairwise.nil
  · rw [hRecords, hIsNew.scrap]
    rfl
  · rw [hIsNew.closingSections, Scrap.numbers, hIsNew.scrap]
    rfl
  · rw [hRegistry, Registry.isAttached_attach, hIsNew.outcome]
    rfl

namespace Reachable

variable {talk : Talk}

/-- The signals, the agenda and the events of a talk are in step. -/
theorem inStep (h : Reachable talk) : ∃ raised, InStep raised talk := by
  obtain ⟨registry, options, first, operations, hCreate, hLeads⟩ := h
  obtain ⟨-, hNew, -⟩ := of_create hCreate
  refine Leads.keeps (fun talk => ∃ raised, InStep raised talk) ?_ ?_ hLeads
    ⟨_, inStep_of_isNew hNew⟩
  · rintro talk operation ⟨raised, hInStep⟩
    obtain ⟨more, hEffect, -⟩ := talk.effect_perform operation
    exact ⟨raised ++ more, invariant_inStep.effect hInStep hEffect⟩
  · rintro talk registry - ⟨raised, hInStep⟩
    exact ⟨raised, hInStep.congr (fun _ => rfl) rfl rfl⟩

/-- The sections of a talk are in order, and the talk keeps a roster of them. -/
theorem orderly_and_roster (h : Reachable talk) : Orderly talk ∧ Roster talk := by
  obtain ⟨registry, options, first, operations, hCreate, hLeads⟩ := h
  obtain ⟨-, hNew, hRoster⟩ := of_create hCreate
  refine Leads.keeps (fun talk => Orderly talk ∧ Roster talk) ?_ ?_ hLeads
    ⟨orderly_of_isNew hNew, hRoster⟩
  · rintro talk operation ⟨hOrderly, hRoster⟩
    have hSame := talk.sameText_perform operation
    exact ⟨(orderly_authoredBy hOrderly operation).sameText hSame,
      (hRoster.authoredBy hOrderly operation).sameText hSame⟩
  · rintro talk registry hShared ⟨hOrderly, hRoster⟩
    -- numbers that others take are not given to this talk
    refine ⟨⟨fun sect hMem => ?_, hOrderly.current, hOrderly.ended⟩,
      hRoster.congr rfl rfl rfl (hShared.isAttached.trans hRoster.attached)⟩
    exact Nat.le_trans (hOrderly.numbered sect hMem) hShared.sections_le

/-- A reachable talk is orderly. -/
theorem orderly (h : Reachable talk) : Orderly talk := h.orderly_and_roster.1

/-- The areas of a reachable talk match its sections. -/
theorem roster (h : Reachable talk) : Roster talk := h.orderly_and_roster.2

/-- A talk that was not asked to close is open. -/
theorem isOpen (h : Reachable talk) (hOpen : talk.outcome .closing = none) : Open talk := by
  obtain ⟨raised, hInStep⟩ := h.inStep
  exact hInStep.isOpen hOpen

/-- A talk that was asked to close is ending. -/
theorem isEnding (h : Reachable talk) (hClosing : talk.outcome .closing ≠ none) : Ending talk := by
  obtain ⟨raised, hInStep⟩ := h.inStep
  exact hInStep.isEnding hClosing

end Reachable

/-- A talk that is open was open all the way, and what operations on open talks keep holds of it. -/
theorem Leads.keeps_open (Inv : Talk → Prop) {first talk : Talk} {operations : List Operation}
    (hPerform : ∀ {talk operation}, Reachable talk → Open talk → operation ∈ operations →
      operation.requestsClose = false → Inv talk → Inv (talk.perform operation).2)
    (hShare : ∀ {talk : Talk} {registry}, Registry.Shared talk.scrap.name talk.registry registry →
      Inv talk → Inv { talk with registry })
    (hLeads : Leads first operations talk) (hReachable : Reachable first)
    (hOpen : talk.outcome .closing = none) (hFirst : Inv first) : Inv talk := by
  induction hLeads with
  | refl => exact hFirst
  | @perform operations talk hLeads operation ih =>
    obtain ⟨hBefore, hRequest⟩ := open_before hOpen
    have hTalk := hReachable.leads hLeads
    refine hPerform hTalk (hTalk.isOpen hBefore) (by simp) hRequest (ih ?_ hBefore)
    exact fun hTalk hOpen hMem => hPerform hTalk hOpen (List.mem_append_left _ hMem)
  | share hLeads hShared ih => exact hShare hShared (ih hPerform hOpen)

/-- A talk is open as long as nobody has asked it to close, and no longer. -/
theorem Leads.isOpen_iff {first talk : Talk} {operations : List Operation}
    (hLeads : Leads first operations talk) (hReachable : Reachable first)
    (hOpen : first.outcome .closing = none) :
    talk.outcome .closing = none ↔ ∀ operation ∈ operations, ¬ operation.requestsClose = true := by
  induction hLeads with
  | refl => exact ⟨fun _ operation hMem => (by cases hMem), fun _ => hOpen⟩
  | @perform operations talk hLeads operation ih =>
    constructor
    · intro hLater other hMem
      -- an open talk was open before, and the last operation was no request
      obtain ⟨hBefore, hRequest⟩ := open_before hLater
      rcases List.mem_append.mp hMem with hMem | hMem
      · exact ih.mp hBefore other hMem
      · rw [List.mem_singleton.mp hMem, hRequest]
        exact Bool.false_ne_true
    · intro hNever
      have hBefore := ih.mpr fun other hMem => hNever other (List.mem_append_left _ hMem)
      obtain ⟨raised, hEffect, -⟩ := talk.effect_perform operation
      exact (hEffect.isOpen ((hReachable.leads hLeads).isOpen hBefore)
        (Bool.eq_false_iff.mpr (hNever operation (by simp)))).closing
  | share hLeads hShared ih => exact ih

end Talk

end Dialogue
