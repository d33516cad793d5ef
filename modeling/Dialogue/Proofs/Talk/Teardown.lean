import Dialogue.Proofs.Talk.Reach
import Dialogue.Proofs.Talk.Slicing

/-!
# Tearing a talk down

A talk can be asked to close at any time. All that is still to be played is struck out then, and each of
its sections closes after the same wait, in the order in which they were started; with the last one the talk
is `Over`. Between the two it is `Leaving`: nothing but the ends of these animations stands on the agenda,
and the areas of all other sections are gone.

Main results:

* `Talk.leaving_beginClosing` — how a talk is left by the request.
* `Talk.Leaving.fire`, `Talk.leaving_fireDue` — one animation ends, and all of them do.
* `Talk.teardown_exact` — what a request to close raises and leaves behind, whatever the talk was doing.
-/

namespace Dialogue

/-! ## Areas that are gone -/

/-- The area was detached, and is hidden. -/
def AreaRecord.Gone (record : AreaRecord) : Prop :=
  record.attached = false ∧ record.visibility = .hidden

instance (record : AreaRecord) : Decidable record.Gone :=
  inferInstanceAs (Decidable (_ ∧ _))

/-- Where the numbers differ, changing the first record with a number changes the one that has it. -/
theorem Areas.mem_modifyFirst {number : Nat} {f : AreaRecord → AreaRecord}
    {records : List AreaRecord} (hNodup : (records.map AreaRecord.number).Nodup)
    {record : AreaRecord} (hMem : record ∈ modifyFirst number f records) :
    (record ∈ records ∧ record.number ≠ number) ∨ ∃ old ∈ records, record = f old := by
  induction records with
  | nil => cases hMem
  | cons first rest ih =>
    rw [List.map_cons, List.nodup_cons] at hNodup
    obtain ⟨hFirst, hRest⟩ := hNodup
    rw [modifyFirst] at hMem
    split at hMem
    · rename_i hNumber
      rcases List.mem_cons.mp hMem with rfl | hMem
      · exact .inr ⟨first, List.mem_cons_self .., rfl⟩
      · -- no other record has the number
        refine .inl ⟨List.mem_cons_of_mem _ hMem, fun hSame => hFirst ?_⟩
        rw [hNumber, ← hSame]
        exact List.mem_map_of_mem hMem
    · rename_i hNumber
      rcases List.mem_cons.mp hMem with rfl | hMem
      · exact .inl ⟨List.mem_cons_self .., hNumber⟩
      · rcases ih hRest hMem with ⟨hOld, hNe⟩ | ⟨old, hOld, hEq⟩
        · exact .inl ⟨List.mem_cons_of_mem _ hOld, hNe⟩
        · exact .inr ⟨old, List.mem_cons_of_mem _ hOld, hEq⟩

namespace Talk

/-! ## Phases -/

theorem phase_of_closed {talk : Talk} (hClosed : talk.outcome .closed ≠ none) :
    talk.phase = .closed := by
  have hSettled : talk.lifecycle.isPending .closed = false := isPending_of_settled hClosed
  simp [phase, Lifecycle.phase, hSettled]

theorem phase_of_closing {talk : Talk} (hClosed : talk.outcome .closed = none)
    (hClosing : talk.outcome .closing ≠ none) : talk.phase = .closing := by
  have hPending : talk.lifecycle.isPending .closed = true := Option.isNone_iff_eq_none.mpr hClosed
  have hSettled : talk.lifecycle.isPending .closing = false := isPending_of_settled hClosing
  simp [phase, Lifecycle.phase, hPending, hSettled]

/-- A talk is in its last phase once `closed` has an outcome. -/
theorem phase_eq_closed {talk : Talk} : talk.phase = .closed ↔ talk.outcome .closed ≠ none := by
  refine ⟨fun hPhase hNone => ?_, phase_of_closed⟩
  have hPending : talk.lifecycle.isPending .closed = true := Option.isNone_iff_eq_none.mpr hNone
  simp only [phase, Lifecycle.phase, hPending] at hPhase
  -- no other phase is called so
  grind

/-- A talk is closing while `closing` has an outcome and `closed` has none. -/
theorem phase_eq_closing {talk : Talk} :
    talk.phase = .closing ↔ talk.outcome .closed = none ∧ talk.outcome .closing ≠ none := by
  refine ⟨fun hPhase => ?_, fun ⟨hClosed, hClosing⟩ => phase_of_closing hClosed hClosing⟩
  by_cases hClosed : talk.outcome .closed = none
  · refine ⟨hClosed, fun hNone => ?_⟩
    have hPending : talk.lifecycle.isPending .closed = true := Option.isNone_iff_eq_none.mpr hClosed
    have hOpen : talk.lifecycle.isPending .closing = true := Option.isNone_iff_eq_none.mpr hNone
    simp only [phase, Lifecycle.phase, hPending, hOpen] at hPhase
    grind
  · rw [phase_of_closed hClosed] at hPhase
    cases hPhase

/-! ## On the way out -/

/-- A talk that is torn down: all areas are gone, nothing is to come, and its scrap is detached. -/
structure Over (talk : Talk) : Prop where
  phase : talk.phase = .closed
  areas : ∀ record ∈ talk.areas.records, record.Gone
  pending : talk.agenda.pending = []
  detached : talk.registry.isAttached talk.scrap.name = false

/-- A talk whose sections `left` are still to close, all of them at the same time. -/
structure Leaving (due : Millis) (left : List Nat) (talk : Talk) : Prop where
  ending : Ending talk
  roster : Roster talk
  pending : talk.agenda.pending = left.map fun number => ⟨due, .closeEnd number⟩
  areas : ∀ record ∈ talk.areas.records, record.number ∈ left ∨ record.Gone

/-- The area records of a talk are those of its sections, in their order. -/
theorem Roster.numbers_records {talk : Talk} (h : Roster talk) :
    talk.areas.records.map AreaRecord.number = talk.scrap.numbers := by
  have hFst := congrArg (List.map Prod.fst) h.records
  rwa [List.map_map, List.map_map] at hFst

theorem Roster.nodup_records {talk : Talk} (h : Roster talk) :
    (talk.areas.records.map AreaRecord.number).Nodup := by
  rw [h.numbers_records]
  exact h.rising.imp fun hLt => Nat.ne_of_lt hLt

namespace Leaving

variable {talk : Talk} {due time : Millis} {number : Nat} {left : List Nat}

/-- Nothing happens before the animations end, or after all of them have. -/
theorem pop?_eq_none (h : Leaving due left talk) (hNothing : left = [] ∨ time < due) :
    talk.pop? time = none := by
  refine Talk.pop?_eq_none.mpr (Agenda.pop?_eq_none.mpr ?_)
  intro next hNext
  rw [Agenda.nextDue, h.pending] at hNext
  rcases hNothing with rfl | hEarly
  · cases hNext
  · cases left with
    | nil => cases hNext
    | cons number rest =>
      cases hNext
      exact hEarly

/-- The end of the first animation comes up when the wait is over. -/
theorem pop?_eq_some (h : Leaving due (number :: left) talk) (hLate : due ≤ time) :
    ∃ rest, talk.pop? time = some (.closeEnd number, { talk with agenda := rest }) ∧
      Taken talk.agenda (.closeEnd number) rest ∧
      rest.pending = left.map fun number => ⟨due, .closeEnd number⟩ := by
  cases hPop : talk.pop? time with
  | none =>
    -- what is due is taken
    have hEarly : time < due := by
      refine Agenda.pop?_eq_none.mp (Talk.pop?_eq_none.mp hPop) due ?_
      rw [Agenda.nextDue, h.pending]
      rfl
    rw [Millis.lt_def] at hEarly
    rw [Millis.le_def] at hLate
    omega
  | some found =>
    obtain ⟨cue, later⟩ := found
    obtain ⟨⟨next, rest⟩, hNext, hEq⟩ := Option.map_eq_some_iff.mp hPop
    simp only [Prod.mk.injEq] at hEq
    obtain ⟨rfl, rfl⟩ := hEq
    obtain ⟨hPending, -, hNow⟩ := Agenda.pop?_eq_some hNext
    -- the first of the animations stands first
    have hFirst := hPending
    rw [h.pending, List.map_cons, List.cons.injEq] at hFirst
    obtain ⟨rfl, hRest⟩ := hFirst
    refine ⟨rest, rfl, ⟨⟨[], due, rest.pending, hPending, rfl, by simp⟩, ?_⟩, hRest.symm⟩
    rw [hNow]
    exact Millis.le_max_left _ _

/-- The talk is over when no section is left to close. -/
theorem closed (h : Leaving due left talk) :
    talk.outcome .closed = if left = [] then some .resolved else none := by
  rw [h.ending.closed, h.pending]
  simp only [List.map_eq_nil_iff]

/-- Once all sections have left, the talk is over. -/
theorem isOver (h : Leaving due [] talk) : Over talk := by
  have hClosed : talk.outcome .closed = some .resolved := h.closed
  refine ⟨phase_of_closed (by rw [hClosed]; simp), ?_, h.pending, ?_⟩
  · intro record hMem
    rcases h.areas record hMem with hLeft | hGone
    · cases hLeft
    · exact hGone
  · rw [h.roster.attached, hClosed]
    rfl

/-- The animation of one section ends, and the others are left. -/
theorem fire (h : Leaving due (number :: left) talk) {rest : Agenda Cue}
    (hTaken : Taken talk.agenda (.closeEnd number) rest)
    (hRest : rest.pending = left.map fun number => ⟨due, .closeEnd number⟩) :
    Leaving due left ({ talk with agenda := rest }.fire (.closeEnd number)) := by
  have hAside : SameText talk { talk with agenda := rest } := .of_eq rfl rfl rfl rfl rfl rfl rfl
  refine ⟨h.ending.move (.fire hTaken), h.roster.sameText (hAside.trans (sameText_fire _ _)), ?_, ?_⟩
  · rw [Talk.fire, agenda_endClosing]
    exact hRest
  · obtain ⟨registry, outbox, hClosing⟩ := { talk with agenda := rest }.endClosing_eq number
    intro record hMem
    rw [Talk.fire, hClosing] at hMem
    -- the area of this section is gone now, and no other one has changed
    rcases Areas.mem_modifyFirst h.roster.nodup_records hMem with ⟨hOld, hNe⟩ | ⟨old, -, rfl⟩
    · rcases h.areas record hOld with hLeft | hGone
      · rcases List.mem_cons.mp hLeft with hSame | hLeft
        · exact absurd hSame hNe
        · exact .inl hLeft
      · exact .inr hGone
    · exact .inr ⟨rfl, rfl⟩

/-- The end of an animation is told, and with the last one the end of the talk. -/
theorem firedEvents (h : Leaving due (number :: left) talk) :
    talk.firedEvents (.closeEnd number) =
      .sectionClosed number :: if left = [] then [.closed] else [] := by
  have hClosed : talk.outcome .closed = none := h.closed
  have hLeft : talk.closesLeft - 1 = left.length := by
    rw [h.ending.closesLeft, h.pending]
    simp
  simp [Talk.firedEvents, hLeft, closedEvents, hClosed]

end Leaving

/-- When the wait is over, the sections close one after the other, and then the talk is over. -/
theorem leaving_fireDue {talk : Talk} {due time : Millis} {left : List Nat}
    (h : Leaving due left talk) (hLate : due ≤ time) :
    Leaving due [] (talk.fireDue time) ∧
      (talk.fireDue time).events = talk.events ++
        (left.map Event.sectionClosed ++ if left = [] then [] else [.closed]) := by
  induction left generalizing talk with
  | nil =>
    -- all sections have left, and no other cue is pending
    rw [fireDue_of_none (h.pop?_eq_none (.inl rfl))]
    exact ⟨h, (List.append_nil _).symm⟩
  | cons number left ih =>
    obtain ⟨rest, hPop, hTaken, hRest⟩ := h.pop?_eq_some hLate
    obtain ⟨hGone, hEvents⟩ := ih (h.fire hTaken hRest)
    rw [fireDue_of_pop? hPop]
    refine ⟨hGone, ?_⟩
    -- `closed` is raised with the last of them
    have hFired : ({ talk with agenda := rest }.fire (.closeEnd number)).events =
        talk.events ++ (.sectionClosed number :: if left = [] then [.closed] else []) := by
      rw [events_fire, ← h.firedEvents]
      rfl
    rw [hEvents, hFired, List.append_assoc]
    congr 1
    cases left with
    | nil => rfl
    | cons next left => rfl

/-! ## Asking for it -/

/-- A talk that begins to close has all its sections to leave, at the time when they close. -/
theorem leaving_beginClosing {talk : Talk} (hReachable : Reachable talk)
    (hOpen : talk.outcome .closing = none) (outcome : Outcome) :
    Leaving talk.closesAt talk.scrap.numbers (talk.beginClosing outcome).2 := by
  have hState := hReachable.isOpen hOpen
  have hRoster := hReachable.roster.sameText (talk.sameText_beginClosing outcome)
  obtain ⟨registry, areas, outbox, hEq⟩ := beginClosing_eq hOpen outcome
  refine ⟨hState.beginClosing outcome, hRoster, ?_, ?_⟩
  · rw [hEq, ← hReachable.roster.closing]
    exact hState.pending_closingAgenda
  · intro record hMem
    -- each area is the area of a section that has started
    have hNumber := List.mem_map_of_mem (f := AreaRecord.number) hMem
    rw [hRoster.numbers_records, (talk.sameText_beginClosing outcome).numbers] at hNumber
    exact .inl hNumber

/-- What the request raises: that the text will not be shown to its end, if it was not, that each section
starts to close, and that the talk is over if there is none. -/
theorem events_beginClosing {talk : Talk} (hReachable : Reachable talk)
    (hOpen : talk.outcome .closing = none) (outcome : Outcome) :
    (talk.beginClosing outcome).2.events = talk.events ++
      ((if talk.outcome .played = none then [.played .abandoned] else []) ++
        talk.scrap.numbers.map Event.sectionClosing ++
        if talk.scrap.numbers = [] then [.closed] else []) := by
  have hClosed : talk.closedEvents = [.closed] := by
    rw [closedEvents, (hReachable.isOpen hOpen).closed]
  have hPlayed : talk.playedEvents .abandoned =
      if talk.outcome .played = none then [.played .abandoned] else [] := by
    unfold playedEvents
    cases talk.outcome .played <;> rfl
  obtain ⟨registry, areas, outbox, hEq⟩ := beginClosing_eq hOpen outcome
  rw [hEq]
  show talk.events ++ talk.closingEvents = _
  -- in an open talk no section is closing yet, so all of them begin to close
  rw [closingEvents, hReachable.roster.closing, hClosed, hPlayed, List.append_assoc]

/-- A talk that was asked to close does not listen when it is asked again. -/
theorem perform_again {talk : Talk} (hClosing : talk.outcome .closing ≠ none) {again : Operation}
    (hAgain : again = .close ∨ again = .finish) : talk.perform again = (.changed false, talk) := by
  have hSame : ∀ outcome, talk.beginClosing outcome = (false, talk) := by
    intro outcome
    simp [beginClosing, isPending_of_settled hClosing]
  rcases hAgain with rfl | rfl
  · show (Reply.changed (talk.beginClosing .abandoned).1, (talk.beginClosing .abandoned).2) = _
    rw [hSame]
  · show (Reply.changed (talk.beginClosing .resolved).1, (talk.beginClosing .resolved).2) = _
    rw [hSame]

/-- A talk can be asked to close whatever it is doing. The request tells that its text will not be shown to
its end, unless it was, and that each section starts to close, in the order in which they were started. A
talk without sections is over at once. Any other one is closing until the wait has passed, and tells
nothing; then it tells of each section that it has closed, and is over. Asked again, whenever that is, it
does nothing. -/
theorem teardown_exact {talk : Talk} (hReachable : Reachable talk)
    (hOpen : talk.outcome .closing = none) {request : Operation}
    (hRequest : request = .close ∨ request = .finish) :
    ∃ closing, talk.perform request = (.changed true, closing) ∧
      closing.events = talk.events ++
        ((if talk.outcome .played = none then [.played .abandoned] else []) ++
          talk.scrap.numbers.map Event.sectionClosing ++
          if talk.scrap.numbers = [] then [.closed] else []) ∧
      (talk.scrap.numbers = [] → Over closing) ∧
      (talk.scrap.numbers ≠ [] → ∀ time,
        (time < talk.closesAt →
          (closing.advanceTo time).1 = closing.events ∧
            (closing.advanceTo time).2.phase = .closing) ∧
        (talk.closesAt ≤ time →
          (closing.advanceTo time).1 = closing.events ++
              (talk.scrap.numbers.map Event.sectionClosed ++ [.closed]) ∧
            Over (closing.advanceTo time).2)) ∧
      ∀ operations later again, Leads closing operations later →
        again = .close ∨ again = .finish → later.perform again = (.changed false, later) := by
  -- both requests are one, but for how the signal settles
  obtain ⟨outcome, hPerform⟩ : ∃ outcome,
      talk.perform request = (.changed true, (talk.beginClosing outcome).2) := by
    have hNews : ∀ outcome, (talk.beginClosing outcome).1 = true := by
      intro outcome
      have hPending : talk.isPending .closing = true := by
        rw [isPending_eq, hOpen]
        rfl
      simp [beginClosing, hPending]
    rcases hRequest with rfl | rfl
    · exact ⟨.abandoned, by rw [← hNews .abandoned]; rfl⟩
    · exact ⟨.resolved, by rw [← hNews .resolved]; rfl⟩
  -- from here on `Leaving` carries all that is known of the talk
  have hLeaving := leaving_beginClosing hReachable hOpen outcome
  refine ⟨_, hPerform, events_beginClosing hReachable hOpen outcome, ?_, ?_, ?_⟩
  · intro hNone
    rw [hNone] at hLeaving
    exact hLeaving.isOver
  · intro hSome time
    refine ⟨fun hEarly => ?_, fun hLate => ?_⟩
    · -- the clock moves, and nothing fires
      have hStill := fireDue_of_none (hLeaving.pop?_eq_none (.inr hEarly))
      have hClosed := hLeaving.closed
      rw [if_neg hSome] at hClosed
      refine ⟨?_, ?_⟩
      · show ((talk.beginClosing outcome).2.fireDue time).events = _
        rw [hStill]
      · show ((talk.beginClosing outcome).2.fireDue time).phase = _
        rw [hStill]
        exact phase_of_closing hClosed hLeaving.ending.closing
    · obtain ⟨hGone, hEvents⟩ := leaving_fireDue hLeaving hLate
      rw [if_neg hSome] at hEvents
      have hOver := hGone.isOver
      -- the clock and the events that were taken have no part in being over
      exact ⟨hEvents, ⟨hOver.phase, hOver.areas, hOver.pending, hOver.detached⟩⟩
  · intro operations later again hLeads hAgain
    exact perform_again (hLeads.closing hLeaving.ending.closing) hAgain

/-- Two sections whose text has been started, and not shown. -/
def interrupted : List Operation :=
  [.direct (.beginSection none), .direct (.speak "Hi"), .direct (.beginSection none), .pace .whole,
    .start]

/-- A talk with two sections that is closed while it plays is torn down at 400 ms. -/
theorem teardown_exact_interrupted :
    ∃ first closing, Talk.create .empty .standard = .ok first ∧
      (first.after interrupted).outcome .closing = none ∧
      (first.after interrupted).perform .close = (.changed true, closing) ∧
      closing.events = [.played .abandoned, .sectionClosing 1, .sectionClosing 2] ∧
      (closing.advanceTo 399).2.phase = .closing ∧
      (closing.advanceTo 400).1 = closing.events ++ [.sectionClosed 1, .sectionClosed 2, .closed] ∧
      Over (closing.advanceTo 400).2 ∧
      (closing.advanceTo 400).2.perform .finish = (.changed false, (closing.advanceTo 400).2) := by
  obtain ⟨first, hCreate⟩ : ∃ first, Talk.create .empty .standard = .ok first := ⟨_, rfl⟩
  have hReachable : Reachable (first.after interrupted) :=
    ⟨_, _, first, interrupted, hCreate, Leads.of_after first interrupted⟩
  have hState : (first.after interrupted).outcome .closing = none ∧
      (first.after interrupted).outcome .played = none ∧
      (first.after interrupted).events = [] ∧
      (first.after interrupted).scrap.numbers = [1, 2] ∧
      (first.after interrupted).closesAt = 400 := by
    cases hCreate
    decide
  obtain ⟨hOpen, hPlayed, hEvents, hNumbers, hCloses⟩ := hState
  obtain ⟨closing, hPerform, hRaised, -, hClosing, hAgain⟩ :=
    teardown_exact hReachable hOpen (.inl rfl)
  rw [hEvents, hPlayed, hNumbers] at hRaised
  rw [hNumbers, hCloses] at hClosing
  have hSome : [1, 2] ≠ ([] : List Nat) := by decide
  obtain ⟨-, hPhase⟩ := (hClosing hSome 399).1 (by decide)
  obtain ⟨hLast, hOver⟩ := (hClosing hSome 400).2 (by decide)
  refine ⟨first, closing, hCreate, hOpen, hPerform, hRaised, hPhase, hLast, hOver, ?_⟩
  exact hAgain _ _ .finish (.perform .refl (.advanceTo 400)) (.inr rfl)

end Talk

end Dialogue
