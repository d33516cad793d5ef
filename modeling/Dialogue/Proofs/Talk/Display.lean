import Dialogue.Proofs.Talk.Areas

/-!
# Areas on display

Every section has an area from its start until the talk is over. While the talk was not asked to close, the
areas of the sections that had started when playback began can be seen, and those of later sections wait.
The request to close starts the animations of all areas, and when these end all areas are gone at once.
So the record of an area can be told from two moments: the first start of playback, and the first request to
close.

Main results:

* `Talk.Leads.exists_first` — the moment at which something of a kind was first asked for.
* `Talk.Standing.leads` — the areas of a talk that was not asked to close, all the way.
* `Talk.Leads.allOrNothing` — the areas of a talk that is closing, all the way.
* `Talk.areas_follow_lifecycle` — every record of an area, whatever is done to a talk.
-/

namespace Dialogue

/-- The section whose closing animation ends with a cue. -/
def Cue.closed? : Cue → Option Nat
  | closeEnd number => some number
  | reveal .. | fadeEnd _ => none

/-- A cue is for playback exactly if no section closes with it. -/
theorem Cue.isSome_closed? (cue : Cue) : cue.closed?.isSome = !cue.isPlayback := by
  cases cue <;> rfl

/-- The area of an open talk: it can be seen if its section is among `shown`, and waits otherwise. -/
structure AreaRecord.Stands (shown : List Nat) (record : AreaRecord) : Prop where
  attached : record.attached = true
  phase : record.phase = .opened
  visibility : record.visibility = if record.number ∈ shown then .shown else .waiting

namespace AreaRecord.Stands

variable {shown : List Nat} {record : AreaRecord}

/-- As long as the talk is open, an area is shown or waits. -/
theorem shown_or_waiting (h : record.Stands shown) :
    record.visibility = .shown ∨ record.visibility = .waiting := by
  rw [h.visibility]
  split
  · exact .inl rfl
  · exact .inr rfl

/-- An area is shown exactly if its section is one of those that can be seen. -/
theorem shown_iff (h : record.Stands shown) : record.visibility = .shown ↔ record.number ∈ shown := by
  rw [h.visibility]
  split
  · exact iff_of_true rfl ‹_›
  · exact iff_of_false (fun hSeen => nomatch hSeen) ‹_›

end AreaRecord.Stands

namespace Talk

/-! ## First times -/

/-- On the way from `first` to `talk`, something of a kind was first asked of the talk `stage`. -/
def FirstAsked (kind : Operation → Prop) (first : Talk) (operations : List Operation)
    (stage talk : Talk) : Prop :=
  ∃ before operation after, operations = before ++ operation :: after ∧ kind operation ∧
    (∀ other ∈ before, ¬ kind other) ∧ Leads first before stage ∧
    Leads (stage.perform operation).2 after talk

/-- Nothing of a kind was asked for, or there is a first time. -/
theorem Leads.exists_first {first talk : Talk} {operations : List Operation}
    (kind : Operation → Prop) (hLeads : Leads first operations talk) :
    (∀ operation ∈ operations, ¬ kind operation) ∨
      ∃ stage, FirstAsked kind first operations stage talk := by
  induction hLeads with
  | refl => exact .inl fun operation hMem => by cases hMem
  | @perform operations talk hLeads operation ih =>
    rcases ih with hNever | ⟨stage, before, asked, after, rfl, hKind, hBefore, hStage, hAfter⟩
    · -- the first request of this kind is the new one, or there is still none
      by_cases hKind : kind operation
      · exact .inr ⟨talk, operations, operation, [], rfl, hKind, hNever, hLeads, .refl⟩
      · refine .inl fun other hMem => ?_
        rcases List.mem_append.mp hMem with hMem | hMem
        · exact hNever other hMem
        · rw [List.mem_singleton.mp hMem]
          exact hKind
    · refine .inr ⟨stage, before, asked, after ++ [operation], ?_, hKind, hBefore, hStage,
        .perform hAfter operation⟩
      rw [List.append_assoc, List.cons_append]
  | share hLeads hShared ih =>
    rcases ih with hNever | ⟨stage, before, asked, after, hSplit, hKind, hBefore, hStage, hAfter⟩
    · exact .inl hNever
    · exact .inr ⟨stage, before, asked, after, hSplit, hKind, hBefore, hStage, .share hAfter hShared⟩

/-! ## Counting animations -/

/-- Playback does not count animations. -/
theorem closesLeft_fire {talk : Talk} {cue : Cue} (hPlayback : cue.isPlayback = true) :
    (talk.fire cue).closesLeft = talk.closesLeft := by
  cases cue with
  | reveal entry last =>
    obtain ⟨outbox, hReveal⟩ := talk.reveal_eq entry last
    rw [fire, hReveal]
  | fadeEnd entry => rw [fire, endFade_eq]
  | closeEnd number => cases hPlayback

/-- Nothing that plays in an open talk counts sections down. -/
theorem Plays.closesLeft {talk later : Talk} {raised : List Event} (hPlays : Plays talk raised later)
    (h : Open talk) : later.closesLeft = talk.closesLeft := by
  induction hPlays with
  | refl talk => rfl
  | move hMove hRest ih =>
    rw [ih (h.move hMove)]
    cases hMove with
    | quiet hAlike => exact hAlike.closesLeft
    | skip => rfl
    | fire hTaken =>
      obtain ⟨due, hMem⟩ := hTaken.mem
      exact closesLeft_fire (h.playback _ hMem)

/-- Nothing but a request to close counts animations. -/
theorem Effect.closesLeft {talk later : Talk} {operation : Operation} {raised : List Event}
    (hEffect : Effect talk operation raised later) (h : Open talk)
    (hRequest : operation.requestsClose = false) : later.closesLeft = talk.closesLeft := by
  cases hEffect with
  | plays _ hPlays => exact hPlays.closesLeft h
  | written _ hWritten => exact hWritten.closesLeft
  | paced hPaced => rw [hPaced.rest]
  | wrapped hWritten hPaced =>
    rw [hPaced.rest]
    exact hWritten.closesLeft
  | started _ _ _ hPlays => exact hPlays.closesLeft (h.plan _)
  | completed =>
    obtain ⟨outbox, hPlayed⟩ := (talk.plan talk.startsAt).markPlayed_eq .resolved
    rw [hPlayed]
    rfl
  | closed hRequested =>
    rw [hRequest] at hRequested
    cases hRequested

/-- As long as a talk is open, its count stays. -/
theorem Leads.closesLeft {first talk : Talk} {operations : List Operation}
    (hLeads : Leads first operations talk) (hReachable : Reachable first)
    (hOpen : talk.outcome .closing = none) : talk.closesLeft = first.closesLeft := by
  refine hLeads.keeps_open (fun talk => talk.closesLeft = first.closesLeft) ?_ (fun _ h => h)
    hReachable hOpen rfl
  intro talk operation _ hOpen _ hRequest hSame
  obtain ⟨raised, hEffect, -⟩ := talk.effect_perform operation
  exact (hEffect.closesLeft hOpen hRequest).trans hSame

/-! ## The areas of an open talk -/

/-- The areas of an open talk: those of the sections `shown` can be seen, and all later ones wait. -/
structure Standing (shown : List Nat) (talk : Talk) : Prop where
  known : ∀ number ∈ shown, number ≤ talk.registry.sections
  records : ∀ record ∈ talk.areas.records, record.Stands shown

namespace Standing

variable {talk : Talk} {shown : List Nat}

/-- The area of a section that starts waits. -/
theorem startSection (h : Standing shown talk) (asked : Option String) :
    Standing shown (talk.startSection asked) := by
  refine ⟨fun number hMem => ?_, fun record hMem => ?_⟩
  · show number ≤ talk.endSection.registry.sections + 1
    rw [registry_endSection]
    exact Nat.le_succ_of_le (h.known number hMem)
  · rw [areas_startSection] at hMem
    rcases List.mem_append.mp hMem with hMem | hMem
    · exact h.records record hMem
    · rw [List.mem_singleton.mp hMem]
      refine ⟨rfl, rfl, (if_neg fun hShown => ?_).symm⟩
      -- the number is new
      have hLe : talk.registry.sections + 1 ≤ talk.registry.sections := h.known _ hShown
      omega

/-- What is directed leaves the areas that are seen as they are, and those that wait. -/
theorem direct (h : Standing shown talk) (direction : Direction) :
    Standing shown (talk.direct direction) := by
  refine keeps_direct (Standing shown) (fun _ _ h => ⟨h.known, h.records⟩) ?_
    (fun asked h => h.startSection asked) ?_ h direction
  · intro talk h
    refine ⟨?_, ?_⟩
    · rw [registry_endSection]
      exact h.known
    · rw [areas_endSection]
      exact h.records
  · intro talk f _ _ h
    unfold modifyCurrent
    split <;> exact ⟨h.known, h.records⟩

/-- What neither starts playback nor closes the talk leaves the areas standing. -/
theorem perform (h : Standing shown talk) (hOpen : Open talk) {operation : Operation}
    (hRequest : operation.requestsClose = false)
    (hStarted : operation = .start → talk.startTime ≠ none) :
    Standing shown (talk.perform operation).2 := by
  have hAuthored : Standing shown (talk.authoredBy operation) :=
    keeps_authoredBy (Standing shown) h fun direction _ => h.direct direction
  refine ⟨?_, ?_⟩
  · rw [(talk.sameText_perform operation).sections]
    exact hAuthored.known
  · rw [hOpen.areas_perform hRequest hStarted]
    exact hAuthored.records

/-- The areas of an open talk stand all the way, before playback has started or after it. -/
theorem leads {later : Talk} {operations : List Operation} (h : Standing shown talk)
    (hReachable : Reachable talk) (hLeads : Leads talk operations later)
    (hOpen : later.outcome .closing = none)
    (hStarted : talk.startTime ≠ none ∨ ∀ operation ∈ operations, operation ≠ .start) :
    Standing shown later ∧ later.startTime = talk.startTime := by
  refine hLeads.keeps_open
    (fun later => Standing shown later ∧ later.startTime = talk.startTime) ?_ ?_ hReachable hOpen
    ⟨h, rfl⟩
  · rintro later operation - hLater hMem hRequest ⟨hStanding, hTime⟩
    have hNot : operation = .start → later.startTime ≠ none := by
      intro hStart
      rw [hTime]
      exact hStarted.resolve_right fun hNever => hNever operation hMem hStart
    -- a second start is none, so that no more areas are seen
    obtain ⟨raised, hEffect, -⟩ := later.effect_perform operation
    exact ⟨hStanding.perform hLater hRequest hNot, (hEffect.startTime_stays hNot).1.trans hTime⟩
  · rintro later registry hShared ⟨hStanding, hTime⟩
    exact ⟨⟨fun number hMem => Nat.le_trans (hStanding.known number hMem) hShared.sections_le,
      hStanding.records⟩, hTime⟩

end Standing

/-- When playback starts, the areas of all sections so far can be seen. -/
theorem standing_start {talk : Talk} (hReachable : Reachable talk)
    (hOpen : talk.outcome .closing = none) (hFresh : talk.startTime = none)
    (hStanding : Standing [] talk) :
    Standing talk.scrap.numbers talk.start ∧ talk.start.startTime ≠ none := by
  have hAreas := hReachable.roster.areas_start hOpen hFresh
  refine ⟨⟨fun number hMem => ?_, fun record hMem => ?_⟩, ?_⟩
  · rw [talk.sameText_start.sections]
    obtain ⟨sect, hSect, rfl⟩ := List.mem_map.mp hMem
    exact hReachable.orderly.numbered sect hSect
  · rw [hAreas] at hMem
    obtain ⟨old, hOld, rfl⟩ := List.mem_map.mp hMem
    obtain ⟨hAttached, hPhase, -⟩ := hStanding.records old hOld
    -- every record is that of a section
    have hNumber := List.mem_map_of_mem (f := AreaRecord.number) hOld
    rw [hReachable.roster.numbers_records] at hNumber
    exact ⟨hAttached, hPhase, (if_pos hNumber).symm⟩
  · rw [(areas_start hOpen hFresh).2]
    exact Option.some_ne_none _

section Display

variable {registry : Registry} {options : Options} {first stage talk : Talk}
  {operations : List Operation}

/-- Before playback was asked for, all areas wait. -/
theorem standing_of_unstarted (hCreate : Talk.create registry options = .ok first)
    (hLeads : Leads first operations talk) (hOpen : talk.outcome .closing = none)
    (hNot : ∀ operation ∈ operations, operation ≠ .start) :
    Standing [] talk ∧ talk.startTime = none := by
  obtain ⟨-, hNew, hRoster⟩ := of_create hCreate
  -- a new talk has no areas
  have hNone : first.areas.records = [] := by
    have hRecords := hRoster.records
    rw [hNew.scrap] at hRecords
    exact List.map_eq_nil_iff.mp hRecords
  have hStanding : Standing [] first := by
    refine ⟨fun number hMem => (by cases hMem), fun record hMem => ?_⟩
    rw [hNone] at hMem
    cases hMem
  obtain ⟨hStill, hTime⟩ := hStanding.leads (reachable_of_create hCreate) hLeads hOpen (.inr hNot)
  exact ⟨hStill, hTime.trans hNew.startTime⟩

/-- After playback was asked for, the areas of the sections that had started by then can be seen. -/
theorem standing_of_started (hCreate : Talk.create registry options = .ok first)
    (hAsked : FirstAsked (· = .start) first operations stage talk)
    (hOpen : talk.outcome .closing = none) : Standing stage.scrap.numbers talk := by
  obtain ⟨before, operation, after, -, rfl, hBefore, hStage, hAfter⟩ := hAsked
  have hReachable : Reachable stage := ⟨registry, options, first, before, hCreate, hStage⟩
  have hStarted : Leads stage [.start] stage.start := .perform .refl .start
  -- a talk that is open now was open then
  have hOpenStart : stage.start.outcome .closing = none := by
    by_contra hClosing
    exact hAfter.closing hClosing hOpen
  have hOpenStage : stage.outcome .closing = none := by
    by_contra hClosing
    exact hStarted.closing hClosing hOpenStart
  obtain ⟨hStanding, hFresh⟩ := standing_of_unstarted hCreate hStage hOpenStage hBefore
  obtain ⟨hShown, hTime⟩ := standing_start hReachable hOpenStage hFresh hStanding
  exact (hShown.leads (hReachable.leads hStarted) hAfter hOpen (.inl hTime)).1

end Display

/-! ## Asked to close -/

/-- A talk that is leaving has all of its areas, or none, whatever is done to it. -/
theorem Leads.allOrNothing {talk later : Talk} {operations : List Operation} {due : Millis}
    {left : List Nat} (hLeads : Leads talk operations later) (hReachable : Reachable talk)
    (h : Leaving due left talk) : AllOrNothing due left talk later := by
  induction hLeads with
  | refl => exact .inl ⟨h, rfl⟩
  | @perform operations later hLeads operation ih =>
    have hLater := hReachable.leads hLeads
    rcases ih with ⟨hLeaving, hAreas⟩ | ⟨hLeaving, hAreas⟩
    · rcases hLeaving.perform hLater operation with ⟨hStill, hSame⟩ | ⟨hGone, hDetached⟩
      · exact .inl ⟨hStill, hSame.trans hAreas⟩
      · exact .inr ⟨hGone, by rw [hDetached, hAreas]⟩
    · -- with nothing left, nothing happens
      rcases hLeaving.perform hLater operation with ⟨hStill, hSame⟩ | ⟨hGone, hSame⟩
      · exact .inr ⟨hStill, hSame.trans hAreas⟩
      · exact .inr ⟨hGone, hSame.trans hAreas⟩
  | @share operations later registry hLeads hShared ih =>
    have hLater : Reachable { later with registry } := hReachable.leads (.share hLeads hShared)
    have hLeaving : ∀ {left}, Leaving due left later → Leaving due left { later with registry } :=
      fun hLeaving => ⟨hLater.isEnding hLeaving.ending.closing, hLater.roster, hLeaving.pending,
        hLeaving.areas⟩
    exact ih.imp (fun h => ⟨hLeaving h.1, h.2⟩) fun h => ⟨hLeaving h.1, h.2⟩

/-- From the request to close on, the areas are those of the talk at that time, with their animations
started or at their end. -/
theorem areas_after_request {stage talk : Talk} {operations : List Operation} {request : Operation}
    (hReachable : Reachable stage) (hOpen : stage.outcome .closing = none)
    (hRequest : request.requestsClose = true)
    (hLeads : Leads (stage.perform request).2 operations talk) :
    (Leaving stage.closesAt stage.scrap.numbers talk ∧
        talk.areas.records = stage.areas.records.map AreaRecord.close) ∨
      (Leaving stage.closesAt [] talk ∧
        talk.areas.records = stage.areas.records.map AreaRecord.detach) := by
  obtain ⟨outcome, hPerform⟩ := stage.perform_request hRequest
  have hClosing : Reachable (stage.beginClosing outcome).2 := by
    rw [← hPerform]
    exact hReachable.leads (.perform .refl request)
  have hAreas := hReachable.roster.areas_beginClosing hOpen outcome
  have hNumbers := (stage.sameText_beginClosing outcome).numbers
  rw [hPerform] at hLeads
  refine (hLeads.allOrNothing hClosing (leaving_beginClosing hReachable hOpen outcome)).imp ?_ ?_
  · -- all sections are still to leave
    rintro ⟨hLeaving, hSame⟩
    refine ⟨hLeaving, ?_⟩
    rw [hSame, hAreas]
  · -- all have left
    rintro ⟨hLeaving, hDetached⟩
    refine ⟨hLeaving, ?_⟩
    have hLabel : AreaRecord.KeepsLabel AreaRecord.detach := fun _ => rfl
    rw [hDetached, ← hNumbers, hClosing.roster.foldl_modify_eq hLabel, hAreas]
    -- the end of an animation does not depend on its start
    exact List.map_map

/-! ## Whatever is done to a talk -/

/-- How the areas of a talk stand, as its history tells. -/
structure AreasFollow (first : Talk) (operations : List Operation) (talk : Talk) : Prop where
  /-- Each section has its record. -/
  sections : talk.areas.records.map AreaRecord.label = talk.scrap.sections.map Section.label
  /-- While the talk was not asked to close, those areas can be seen whose sections had started when
  playback was first asked for. -/
  before : talk.outcome .closing = none → ∀ record ∈ talk.areas.records,
    record.attached = true ∧ record.phase = .opened ∧
      (record.visibility = .shown ∨ record.visibility = .waiting) ∧
      (record.visibility = .shown ↔ ∃ stage,
        FirstAsked (· = .start) first operations stage talk ∧ record.number ∈ stage.scrap.numbers)
  /-- While it is closing, all areas are as they were when it was asked to, but for their animation. -/
  closing : talk.phase = .closing →
    (∃ stage, FirstAsked (·.requestsClose = true) first operations stage talk ∧
      stage.outcome .closing = none ∧
      talk.areas.records = stage.areas.records.map AreaRecord.close) ∧
    ∀ record ∈ talk.areas.records, record.attached = true ∧ record.phase = .closing
  /-- And when it is over, none of them can be seen any more. -/
  closed : talk.phase = .closed →
    (∃ stage, FirstAsked (·.requestsClose = true) first operations stage talk ∧
      talk.areas.records = stage.areas.records.map AreaRecord.detach) ∧
    (∀ record ∈ talk.areas.records,
      record.attached = false ∧ record.phase = .closed ∧ record.visibility = .hidden) ∧
    ∀ more later, Leads talk more later → later.phase = .closed ∧ later.areas = talk.areas
  /-- The animations that are still to end are counted, and there are some only while it is closing. -/
  closesLeft : (talk.agenda.pending.filterMap fun x => x.event.closed?).length = talk.closesLeft
  positive : 0 < talk.closesLeft ↔ talk.phase = .closing

section AreasFollow

variable {registry : Registry} {options : Options} {first talk : Talk} {operations : List Operation}

/-- An open talk has areas that stand, and those that can be seen were there at the first start. -/
theorem exists_standing (hCreate : Talk.create registry options = .ok first)
    (hLeads : Leads first operations talk) (hOpen : talk.outcome .closing = none) :
    ∃ shown, Standing shown talk ∧ ∀ number ∈ shown, ∃ stage,
      FirstAsked (· = .start) first operations stage talk ∧ number ∈ stage.scrap.numbers := by
  rcases hLeads.exists_first (· = .start) with hNever | ⟨stage, hAsked⟩
  · exact ⟨[], (standing_of_unstarted hCreate hLeads hOpen hNever).1,
      fun number hMem => by cases hMem⟩
  · exact ⟨stage.scrap.numbers, standing_of_started hCreate hAsked hOpen,
      fun number hMem => ⟨stage, hAsked, hMem⟩⟩

/-- A talk that was asked to close has a first request, and follows it. -/
theorem exists_request (hCreate : Talk.create registry options = .ok first)
    (hLeads : Leads first operations talk) (hClosing : talk.outcome .closing ≠ none) :
    ∃ stage, FirstAsked (·.requestsClose = true) first operations stage talk ∧
      (∃ before, Leads first before stage) ∧ stage.outcome .closing = none ∧
      ((Leaving stage.closesAt stage.scrap.numbers talk ∧
          talk.areas.records = stage.areas.records.map AreaRecord.close) ∨
        (Leaving stage.closesAt [] talk ∧
          talk.areas.records = stage.areas.records.map AreaRecord.detach)) := by
  have hFirst : Reachable first := reachable_of_create hCreate
  obtain ⟨-, hNew, -⟩ := of_create hCreate
  rcases hLeads.exists_first (·.requestsClose = true) with hNever | ⟨stage, hAsked⟩
  · -- a talk that nobody asked to close is open
    exact absurd ((hLeads.isOpen_iff hFirst (hNew.outcome _)).mpr hNever) hClosing
  · refine ⟨stage, hAsked, ?_⟩
    obtain ⟨before, request, after, -, hRequest, hBefore, hStage, hAfter⟩ := hAsked
    have hOpen := (hStage.isOpen_iff hFirst (hNew.outcome _)).mpr hBefore
    exact ⟨⟨before, hStage⟩, hOpen,
      areas_after_request ⟨registry, options, first, before, hCreate, hStage⟩ hOpen hRequest hAfter⟩

/-- While a talk is closing, all areas are closing that there were when it was first asked to close. -/
theorem closing_of_phase (hCreate : Talk.create registry options = .ok first)
    (hLeads : Leads first operations talk) (hPhase : talk.phase = .closing) :
    ∃ stage, FirstAsked (·.requestsClose = true) first operations stage talk ∧
      (∃ before, Leads first before stage) ∧ stage.outcome .closing = none ∧
      talk.areas.records = stage.areas.records.map AreaRecord.close := by
  obtain ⟨hClosed, hClosing⟩ := phase_eq_closing.mp hPhase
  obtain ⟨stage, hAsked, hStage, hOpen, hAreas⟩ := exists_request hCreate hLeads hClosing
  refine ⟨stage, hAsked, hStage, hOpen, ?_⟩
  rcases hAreas with ⟨-, hRecords⟩ | ⟨hGone, -⟩
  · exact hRecords
  · -- with nothing left to close the talk would be over
    have hOver : talk.outcome .closed = some .resolved := hGone.closed
    rw [hClosed] at hOver
    cases hOver

/-- When a talk is over, all areas are gone that there were when it was first asked to close. -/
theorem gone_of_closed (hCreate : Talk.create registry options = .ok first)
    (hLeads : Leads first operations talk) (hPhase : talk.phase = .closed) :
    ∃ stage, FirstAsked (·.requestsClose = true) first operations stage talk ∧
      Leaving stage.closesAt [] talk ∧
      talk.areas.records = stage.areas.records.map AreaRecord.detach := by
  have hFirst : Reachable first := reachable_of_create hCreate
  have hClosed := phase_eq_closed.mp hPhase
  have hClosing : talk.outcome .closing ≠ none := fun hOpen =>
    hClosed ((hFirst.leads hLeads).isOpen hOpen).closed
  obtain ⟨stage, hAsked, ⟨before, hStage⟩, -, hAreas⟩ := exists_request hCreate hLeads hClosing
  refine ⟨stage, hAsked, ?_⟩
  rcases hAreas with ⟨hLeaving, hRecords⟩ | hGone
  · -- a talk that is over at once has no sections, and so no areas
    have hNone : stage.scrap.numbers = [] := by
      by_contra hSome
      rw [hLeaving.closed, if_neg hSome] at hClosed
      exact hClosed rfl
    have hNumbers := (hFirst.leads hStage).roster.numbers_records
    rw [hNone, List.map_eq_nil_iff] at hNumbers
    rw [hNone] at hLeaving
    rw [hNumbers] at hRecords ⊢
    exact ⟨hLeaving, hRecords⟩
  · exact hGone

/-- No animations are counted before the talk is asked to close. -/
theorem closesLeft_of_open (hCreate : Talk.create registry options = .ok first)
    (hLeads : Leads first operations talk) (hOpen : talk.outcome .closing = none) :
    talk.closesLeft = 0 := by
  rw [hLeads.closesLeft (reachable_of_create hCreate) hOpen, (areas_of_create hCreate).2]

/-- The animations that are still to end are counted. -/
theorem length_closed? (hCreate : Talk.create registry options = .ok first)
    (hLeads : Leads first operations talk) :
    (talk.agenda.pending.filterMap fun x => x.event.closed?).length = talk.closesLeft := by
  have hFirst : Reachable first := reachable_of_create hCreate
  by_cases hOpen : talk.outcome .closing = none
  · -- an open talk has playback on its agenda, and nothing else
    have hNone : (talk.agenda.pending.filterMap fun x => x.event.closed?) = [] := by
      refine List.filterMap_eq_nil_iff.mpr fun x hMem => ?_
      rw [← Option.not_isSome_iff_eq_none, Cue.isSome_closed?,
        ((hFirst.leads hLeads).isOpen hOpen).playback x hMem]
      exact Bool.false_ne_true
    rw [hNone, closesLeft_of_open hCreate hLeads hOpen]
    rfl
  · have hEnding := (hFirst.leads hLeads).isEnding hOpen
    rw [hEnding.closesLeft]
    refine List.filterMap_length_eq_length.mpr fun x hMem => ?_
    rw [Cue.isSome_closed?, hEnding.playback x hMem]
    rfl

/-- Animations are counted exactly while the talk is closing. -/
theorem closesLeft_pos_iff (hCreate : Talk.create registry options = .ok first)
    (hLeads : Leads first operations talk) : 0 < talk.closesLeft ↔ talk.phase = .closing := by
  have hFirst : Reachable first := reachable_of_create hCreate
  rw [phase_eq_closing]
  by_cases hOpen : talk.outcome .closing = none
  · rw [closesLeft_of_open hCreate hLeads hOpen]
    exact ⟨fun hPos => absurd hPos (Nat.lt_irrefl 0), fun h => absurd hOpen h.2⟩
  · have hEnding := (hFirst.leads hLeads).isEnding hOpen
    rw [hEnding.closesLeft, hEnding.closed, List.length_pos_iff]
    split
    · rename_i hNone
      exact ⟨fun hSome => absurd hNone hSome, fun h => nomatch h.1⟩
    · rename_i hSome
      exact ⟨fun _ => ⟨rfl, hOpen⟩, fun _ => hSome⟩

/-- Every record of an area, whatever is done to a talk, and to its registry by others. While the talk was
not asked to close, its areas are attached and open, and those can be seen whose sections had started when
playback was first asked for; the others wait. While it is closing they are attached, and all are in their
closing animation. When it is over all of them are detached and hidden, for good. The animations that are
still to end are counted, and there are some exactly while the talk is closing. -/
theorem areas_follow_lifecycle (hCreate : Talk.create registry options = .ok first)
    (hLeads : Leads first operations talk) : AreasFollow first operations talk := by
  have hFirst : Reachable first := reachable_of_create hCreate
  have hReachable : Reachable talk := hFirst.leads hLeads
  refine ⟨hReachable.roster.records, ?_, ?_, ?_, length_closed? hCreate hLeads,
    closesLeft_pos_iff hCreate hLeads⟩
  · intro hOpen record hMem
    obtain ⟨shown, hStanding, hShown⟩ := exists_standing hCreate hLeads hOpen
    have hStands := hStanding.records record hMem
    refine ⟨hStands.attached, hStands.phase, hStands.shown_or_waiting,
      fun hSeen => hShown _ (hStands.shown_iff.mp hSeen), ?_⟩
    rintro ⟨stage, hAsked, hNumber⟩
    -- any first start tells the same
    exact ((standing_of_started hCreate hAsked hOpen).records record hMem).shown_iff.mpr hNumber
  · intro hPhase
    obtain ⟨stage, hAsked, ⟨before, hStage⟩, hOpen, hRecords⟩ :=
      closing_of_phase hCreate hLeads hPhase
    refine ⟨⟨stage, hAsked, hOpen, hRecords⟩, fun record hMem => ?_⟩
    rw [hRecords] at hMem
    obtain ⟨old, hOld, rfl⟩ := List.mem_map.mp hMem
    obtain ⟨shown, hStanding, -⟩ := exists_standing hCreate hStage hOpen
    exact ⟨(hStanding.records old hOld).attached, rfl⟩
  · intro hPhase
    -- over, and so it stays with all its areas detached
    obtain ⟨stage, hAsked, hLeaving, hRecords⟩ := gone_of_closed hCreate hLeads hPhase
    refine ⟨⟨stage, hAsked, hRecords⟩, fun record hMem => ?_, fun more later hMore => ?_⟩
    · rw [hRecords] at hMem
      obtain ⟨old, -, rfl⟩ := List.mem_map.mp hMem
      exact ⟨rfl, rfl, rfl⟩
    · have hStill : Leaving stage.closesAt [] later ∧ later.areas = talk.areas := by
        rcases hMore.allOrNothing hReachable hLeaving with hSame | hSame
        · exact hSame
        · exact hSame
      exact ⟨hStill.1.isOver.phase, hStill.2⟩

end AreasFollow

/-- Playback starts between two sections. -/
def midway : List Operation :=
  [.direct (.beginSection none), .direct (.speak "Hi"), .start, .direct (.beginSection none)]

/-- One section before the start and one after it, and then a request to close. -/
theorem areas_follow_lifecycle_midway :
    ∃ first, Talk.create .empty .standard = .ok first ∧
      (first.after midway).areas.records.map AreaRecord.visibility = [.shown, .waiting] ∧
      AreasFollow first midway (first.after midway) ∧
      (first.after (midway ++ [.close])).areas.records.map AreaRecord.phase = [.closing, .closing] ∧
      AreasFollow first (midway ++ [.close]) (first.after (midway ++ [.close])) ∧
      (first.after (midway ++ [.close, .advanceTo 400])).phase = .closed ∧
      AreasFollow first (midway ++ [.close, .advanceTo 400])
        (first.after (midway ++ [.close, .advanceTo 400])) := by
  obtain ⟨first, hCreate⟩ : ∃ first, Talk.create .empty .standard = .ok first := ⟨_, rfl⟩
  have hReachable : Reachable (first.after midway) :=
    ⟨_, _, first, midway, hCreate, Leads.of_after first midway⟩
  have hState : (first.after midway).outcome .closing = none ∧
      (first.after midway).closesAt = 400 := by
    cases hCreate
    decide
  refine ⟨first, hCreate, ?_, areas_follow_lifecycle hCreate (Leads.of_after _ _), ?_,
    areas_follow_lifecycle hCreate (Leads.of_after _ _), ?_,
    areas_follow_lifecycle hCreate (Leads.of_after _ _)⟩
  · cases hCreate
    decide
  · cases hCreate
    decide
  · have hLeaving := leaving_beginClosing hReachable hState.1 .abandoned
    rw [hState.2] at hLeaving
    rw [after_append]
    exact (leaving_fireDue hLeaving (Millis.le_refl 400)).1.isOver.phase

end Talk

end Dialogue
