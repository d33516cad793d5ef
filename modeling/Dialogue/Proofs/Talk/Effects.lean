import Dialogue.Proofs.Agenda.Order
import Dialogue.Proofs.Scrap.Places
import Dialogue.Talk.Operation

/-!
# What playing and closing do

For each function that playing or closing is made of, one equation or one relation says all that it does to
the talk: a field that is not named in it stays. Later proofs cite these and do not unfold the
functions again.

Main results:

* `Talk.reveal_eq`, `Talk.endFade_eq`, `Talk.endClosing_eq` — what the three kinds of cues do.
* `Talk.start_of_playing`, `Talk.start_of_empty`, `Talk.start_of_skipped` — what starting does.
* `Talk.beginClosing_eq` — what closing does.
-/

namespace Dialogue

/-! ## Signals -/

/-- Settling a milestone gives it an outcome if it has none, and leaves the others alone. -/
theorem Lifecycle.outcome_get_settle (lifecycle : Lifecycle) (milestone other : Milestone)
    (outcome : Outcome) :
    ((lifecycle.settle milestone outcome).get other).outcome =
      if milestone = other then some ((lifecycle.get milestone).outcome.getD outcome)
      else (lifecycle.get other).outcome := by
  unfold settle Signal.settle?
  -- a signal settles once: the outcome that it has stays
  cases hOutcome : (lifecycle.get milestone).outcome with
  | none =>
    by_cases hEq : milestone = other
    · subst hEq; simp
    · simp [hEq, get_put_of_ne _ _ (Ne.symm hEq)]
  | some settled =>
    by_cases hEq : milestone = other
    · subst hEq; simp [hOutcome]
    · simp [hEq]

/-- What has settled does not settle again. -/
theorem Lifecycle.settle_of_settled {lifecycle : Lifecycle} {milestone : Milestone}
    (outcome : Outcome) (hSettled : (lifecycle.get milestone).outcome ≠ none) :
    lifecycle.settle milestone outcome = lifecycle := by
  unfold settle Signal.settle?
  cases hOutcome : (lifecycle.get milestone).outcome with
  | none => exact absurd hOutcome hSettled
  | some settled => rfl

namespace Talk

/-- A milestone is pending as long as it has no outcome. -/
theorem isPending_eq (talk : Talk) (milestone : Milestone) :
    talk.isPending milestone = (talk.outcome milestone).isNone := rfl

theorem outcome_eq (talk : Talk) (milestone : Milestone) :
    talk.outcome milestone = (talk.lifecycle.get milestone).outcome := rfl

/-- A talk is closing once `closing` has an outcome. -/
theorem isClosing_eq (talk : Talk) : talk.isClosing = (talk.outcome .closing).isSome := by
  simp [isClosing, isPending_eq]

/-- A signal that has settled is not pending. -/
theorem isPending_of_settled {talk : Talk} {milestone : Milestone}
    (hSettled : talk.outcome milestone ≠ none) : talk.isPending milestone = false := by
  rw [isPending_eq]
  exact Option.isNone_eq_false_iff.mpr (Option.isSome_iff_ne_none.mpr hSettled)

/-- Once `closing` has settled, the talk is closing. -/
theorem isClosing_of_settled {talk : Talk} (hSettled : talk.outcome .closing ≠ none) :
    talk.isClosing = true := by
  rw [isClosing, isPending_of_settled hSettled]
  rfl

/-- An open talk is not closing. -/
theorem isClosing_of_open {talk : Talk} (hOpen : talk.outcome .closing = none) :
    talk.isClosing = false := by
  rw [isClosing_eq, hOpen]
  rfl

/-- Entries are animated as long as neither `play` nor `closing` has settled. -/
theorem animates_eq (talk : Talk) :
    talk.animates = ((talk.outcome .play).isNone && (talk.outcome .closing).isNone) := rfl

@[simp] theorem outcome_with_agenda (talk : Talk) (agenda : Agenda Cue) (milestone : Milestone) :
    { talk with agenda }.outcome milestone = talk.outcome milestone := rfl

/-- The events of settling `played`: one if that is news. -/
def playedEvents (talk : Talk) (outcome : Outcome) : List Event :=
  match talk.outcome .played with
  | none => [.played outcome]
  | some _ => []

/-- Marking a talk as played settles `played`, and is news the first time only. -/
theorem markPlayed_eq (talk : Talk) (outcome : Outcome) :
    ∃ outbox, talk.markPlayed outcome =
      { talk with
        lifecycle := talk.lifecycle.settle .played outcome
        events := talk.events ++ talk.playedEvents outcome
        outbox } := by
  unfold markPlayed playedEvents
  rw [isPending_eq]
  cases hPlayed : talk.outcome .played with
  | none => exact ⟨_, rfl⟩
  | some settled =>
    -- it was played before, and nothing is said again
    have hSettled : (talk.lifecycle.get .played).outcome ≠ none := by
      rw [← outcome_eq, hPlayed]; simp
    exact ⟨talk.outbox, by simp [Lifecycle.settle_of_settled _ hSettled]⟩

/-! ## Showing an entry -/

/-- The scrap after an entry was shown. -/
def revealed (talk : Talk) (entry : Nat) : Scrap := (talk.showEntry entry).scrap

/-- The events of showing an entry. -/
def shownEvents (talk : Talk) (entry : Nat) : List Event :=
  ((talk.marked? entry).map fun (_, e) => Event.shown entry e.glyph?).toList

/-- The events of performing the emote of an entry. -/
def emoteEvents (talk : Talk) (entry : Nat) : List Event :=
  (((talk.marked? entry).bind fun (_, e) => e.emote?).map (Event.emote entry)).toList

/-- The events of revealing an entry. -/
def revealEvents (talk : Talk) (entry : Nat) (last : Bool) : List Event :=
  talk.shownEvents entry ++
    ((if talk.animates then talk.emoteEvents entry else []) ++
      if last then talk.playedEvents .resolved else [])

/-- The only event of playing is that it is over. -/
theorem mem_playedEvents {talk : Talk} {outcome : Outcome} {event : Event}
    (hMem : event ∈ talk.playedEvents outcome) : event = .played outcome := by
  unfold playedEvents at hMem
  split at hMem
  · exact List.mem_singleton.mp hMem
  · cases hMem

/-- The only event of showing an entry is about this entry. -/
theorem mem_shownEvents {talk : Talk} {entry : Nat} {event : Event}
    (hMem : event ∈ talk.shownEvents entry) : ∃ glyph, event = .shown entry glyph := by
  obtain ⟨⟨place, e⟩, -, rfl⟩ := Option.map_eq_some_iff.mp (Option.mem_toList.mp hMem)
  exact ⟨_, rfl⟩

/-- The only event of an emote is about its entry. -/
theorem mem_emoteEvents {talk : Talk} {entry : Nat} {event : Event}
    (hMem : event ∈ talk.emoteEvents entry) : ∃ name, event = .emote entry name := by
  obtain ⟨name, -, rfl⟩ := Option.map_eq_some_iff.mp (Option.mem_toList.mp hMem)
  exact ⟨name, rfl⟩

/-- A reveal shows its entry, may perform its emote, and may be the last. -/
theorem mem_revealEvents {talk : Talk} {entry : Nat} {last : Bool} {event : Event}
    (hMem : event ∈ talk.revealEvents entry last) :
    (∃ glyph, event = .shown entry glyph) ∨ (∃ name, event = .emote entry name) ∨
      event = .played .resolved := by
  rcases List.mem_append.mp hMem with hShown | hMem
  · exact .inl (mem_shownEvents hShown)
  · rcases List.mem_append.mp hMem with hEmote | hPlayed
    · split at hEmote
      · exact .inr (.inl (mem_emoteEvents hEmote))
      · cases hEmote
    · split at hPlayed
      · exact .inr (.inr (mem_playedEvents hPlayed))
      · cases hPlayed

/-- A mark is the place of an entry that stands there. -/
theorem marked?_eq_some {talk : Talk} {entry : Nat} {place : Place} {e : Entry} :
    talk.marked? entry = some (place, e) ↔
      talk.marks[entry]? = some place ∧ talk.scrap.entryAt? place = some e := by
  simp only [marked?, Option.bind_eq_some_iff, Option.map_eq_some_iff, Prod.mk.injEq]
  constructor
  · rintro ⟨_, hMark, _, hAt, rfl, rfl⟩
    exact ⟨hMark, hAt⟩
  · rintro ⟨hMark, hAt⟩
    exact ⟨place, hMark, e, hAt, rfl, rfl⟩

/-- Showing an entry makes it visible, and raises what there is to tell. -/
theorem showEntry_eq (talk : Talk) (entry : Nat) :
    talk.showEntry entry =
      { talk with
        scrap := talk.revealed entry
        events := talk.events ++ talk.shownEvents entry } := by
  unfold revealed shownEvents showEntry raise
  cases talk.marked? entry <;> simp

/-- Performing the emote of an entry raises an event, and calls the performer. -/
theorem performAt_eq (talk : Talk) (entry : Nat) :
    ∃ outbox, talk.performAt entry =
      { talk with
        events := talk.events ++ talk.emoteEvents entry
        outbox } := by
  unfold performAt emoteEvents
  cases (talk.marked? entry).bind fun (_, e) => e.emote? with
  | none => exact ⟨talk.outbox, by simp⟩
  | some name => exact ⟨_, rfl⟩

/-- The scrap with the entry of a number changed, if there is one. -/
def modifyMarked (talk : Talk) (entry : Nat) (f : Entry → Entry) : Scrap :=
  match talk.marked? entry with
  | some (place, _) => talk.scrap.modifyAt place f
  | none => talk.scrap

/-- Changing a marked entry changes the one at its place. -/
theorem entryAt?_modifyMarked (talk : Talk) (entry : Nat) (f : Entry → Entry) (place : Place) :
    (talk.modifyMarked entry f).entryAt? place =
      if talk.marks[entry]? = some place then (talk.scrap.entryAt? place).map f
      else talk.scrap.entryAt? place := by
  unfold modifyMarked
  cases hMarked : talk.marked? entry with
  | some found =>
    obtain ⟨hMark, -⟩ := marked?_eq_some.mp hMarked
    simp only [Scrap.entryAt?_modifyAt, hMark, Option.some.injEq]
  | none =>
    by_cases hMark : talk.marks[entry]? = some place
    · -- no entry stands at the place
      cases hAt : talk.scrap.entryAt? place with
      | none => simp [hMark]
      | some e =>
        rw [marked?_eq_some.mpr ⟨hMark, hAt⟩] at hMarked
        cases hMarked
    · simp [hMark]

/-- Showing an entry makes it visible, fading in if the talk animates; no other entry changes. -/
theorem entryAt?_revealed (talk : Talk) (entry : Nat) (place : Place) :
    (talk.revealed entry).entryAt? place =
      if talk.marks[entry]? = some place then
        (talk.scrap.entryAt? place).map fun e =>
          { e with visible := true, fading := talk.animates }
      else talk.scrap.entryAt? place := by
  rw [← entryAt?_modifyMarked]
  unfold revealed showEntry modifyMarked
  cases talk.marked? entry <;> rfl

/-- Showing an entry does not change its emote. -/
theorem emoteEvents_showEntry (talk : Talk) (entry : Nat) :
    (talk.showEntry entry).emoteEvents entry = talk.emoteEvents entry := by
  rw [showEntry_eq]
  unfold emoteEvents
  congr 2
  simp only [marked?]
  cases hMark : talk.marks[entry]? with
  | none => rfl
  | some place =>
    simp only [Option.bind_some, entryAt?_revealed, hMark, if_true]
    cases talk.scrap.entryAt? place <;> rfl

/-- What revealing an entry does. -/
theorem reveal_eq (talk : Talk) (entry : Nat) (last : Bool) :
    ∃ outbox, talk.reveal entry last =
      { talk with
        scrap := talk.revealed entry
        agenda :=
          if talk.animates then
            talk.agenda.schedule (talk.now + talk.options.tempo.fade) (.fadeEnd entry)
          else talk.agenda
        lifecycle :=
          if last then talk.lifecycle.settle .played .resolved else talk.lifecycle
        events := talk.events ++ talk.revealEvents entry last
        outbox } := by
  unfold reveal revealEvents
  -- the animation first, then the end of the text
  obtain ⟨shownBox, hAnimated⟩ : ∃ outbox,
      (if talk.animates then ((talk.showEntry entry).performAt entry).startFade entry
        else talk.showEntry entry) =
      { talk with
        scrap := talk.revealed entry
        agenda :=
          if talk.animates then
            talk.agenda.schedule (talk.now + talk.options.tempo.fade) (.fadeEnd entry)
          else talk.agenda
        events := talk.events ++
          (talk.shownEvents entry ++ if talk.animates then talk.emoteEvents entry else [])
        outbox } := by
    by_cases hAnimates : talk.animates
    · obtain ⟨outbox, hPerform⟩ := (talk.showEntry entry).performAt_eq entry
      refine ⟨outbox, ?_⟩
      rw [if_pos hAnimates, if_pos hAnimates, if_pos hAnimates, hPerform, emoteEvents_showEntry,
        showEntry_eq, List.append_assoc]
      rfl
    · refine ⟨talk.outbox, ?_⟩
      simp [hAnimates, showEntry_eq]
  simp only [hAnimated]
  by_cases hLast : last
  · obtain ⟨outbox, hPlayed⟩ := markPlayed_eq
      { talk with
        scrap := talk.revealed entry
        agenda :=
          if talk.animates then
            talk.agenda.schedule (talk.now + talk.options.tempo.fade) (.fadeEnd entry)
          else talk.agenda
        events := talk.events ++
          (talk.shownEvents entry ++ if talk.animates then talk.emoteEvents entry else [])
        outbox := shownBox } .resolved
    refine ⟨outbox, ?_⟩
    simp only [hLast, if_true, hPlayed, List.append_assoc]
    rfl
  · exact ⟨shownBox, by simp [hLast]⟩

/-! ## The other cues -/

/-- The end of fading changes the scrap only. -/
theorem endFade_eq (talk : Talk) (entry : Nat) :
    talk.endFade entry =
      { talk with
        scrap := (talk.endFade entry).scrap
        events := talk.events ++ [.faded entry] } := by
  unfold endFade raise
  cases talk.marked? entry <;> rfl

/-- The end of a fade is seen at the entry, and nowhere else. -/
theorem entryAt?_endFade (talk : Talk) (entry : Nat) (place : Place) :
    (talk.endFade entry).scrap.entryAt? place =
      if talk.marks[entry]? = some place then
        (talk.scrap.entryAt? place).map fun e => { e with fading := false }
      else talk.scrap.entryAt? place := by
  rw [← entryAt?_modifyMarked]
  unfold endFade modifyMarked
  cases talk.marked? entry <;> rfl

/-- The event of ending the talk, if that is news. -/
def closedEvents (talk : Talk) : List Event :=
  match talk.outcome .closed with
  | none => [.closed]
  | some _ => []

/-- The only event of an end is that the talk is closed. -/
theorem mem_closedEvents {talk : Talk} {event : Event} (hMem : event ∈ talk.closedEvents) :
    event = .closed := by
  unfold closedEvents at hMem
  split at hMem
  · exact List.mem_singleton.mp hMem
  · cases hMem

/-- A talk that comes to its end settles `closed`, and tells so once. -/
theorem conclude_eq (talk : Talk) :
    ∃ registry outbox, talk.conclude =
      { talk with
        registry
        lifecycle := talk.lifecycle.settle .closed .resolved
        events := talk.events ++ talk.closedEvents
        outbox } := by
  unfold conclude closedEvents
  rw [isPending_eq]
  cases hClosed : talk.outcome .closed with
  | none => exact ⟨_, _, rfl⟩
  | some settled =>
    have hSettled : (talk.lifecycle.get .closed).outcome ≠ none := by
      rw [← outcome_eq, hClosed]; simp
    exact ⟨talk.registry, talk.outbox, by simp [Lifecycle.settle_of_settled _ hSettled]⟩

/-- What the end of a closing animation does. -/
theorem endClosing_eq (talk : Talk) (number : Nat) :
    ∃ registry outbox, talk.endClosing number =
      { talk with
        registry
        areas := talk.areas.modify number AreaRecord.detach
        closesLeft := talk.closesLeft - 1
        lifecycle :=
          if talk.closesLeft - 1 = 0 then talk.lifecycle.settle .closed .resolved
          else talk.lifecycle
        events := talk.events ++
          .sectionClosed number :: if talk.closesLeft - 1 = 0 then talk.closedEvents else []
        outbox } := by
  unfold endClosing
  -- the talk is over with the last animation
  by_cases hLast : talk.closesLeft - 1 = 0
  · obtain ⟨registry, outbox, hConclude⟩ := conclude_eq
      ({ talk with
        areas := talk.areas.modify number AreaRecord.detach
        closesLeft := talk.closesLeft - 1 }.raise (.sectionClosed number))
    refine ⟨registry, outbox, ?_⟩
    simp only [raise, hLast, if_true] at hConclude ⊢
    rw [hConclude]
    simp only [List.append_assoc, List.singleton_append]
    rfl
  · exact ⟨talk.registry, talk.outbox, by simp [raise, hLast]⟩

/-! ## Starting -/

/-- When playback starts if it is asked for now. -/
def startsAt (talk : Talk) : Millis := talk.options.startTime.getD talk.now

section Start

variable {talk : Talk} (hOpen : talk.outcome .closing = none) (hFresh : talk.startTime = none)

include hOpen hFresh

/-- Starting is starting at the time that the options say, or now. -/
theorem start_eq_startAt : talk.start = talk.startAt talk.startsAt := by
  simp [start, isClosing_eq, hOpen, hFresh, startsAt]

/-- A talk without entries has been played as soon as it starts. -/
theorem start_of_empty (hEmpty : talk.scrap.entries = []) :
    talk.start = (talk.plan talk.startsAt).markPlayed .resolved := by
  rw [start_eq_startAt hOpen hFresh, startAt]
  simp [hEmpty]

/-- A talk that is playing plans its reveals. -/
theorem start_of_playing (hText : talk.scrap.entries ≠ []) (hPlaying : talk.outcome .play = none) :
    talk.start = talk.plan talk.startsAt := by
  have hPending : (talk.plan talk.startsAt).isPending .play = true := by
    show (talk.outcome .play).isNone = true
    rw [hPlaying]; rfl
  rw [start_eq_startAt hOpen hFresh, startAt]
  simp [hText, hPending]

/-- A text that was skipped before it started is shown at once. -/
theorem start_of_skipped (hText : talk.scrap.entries ≠ []) (hSkipped : talk.outcome .play ≠ none) :
    talk.start = (talk.plan talk.startsAt).revealRest := by
  have hPending : (talk.plan talk.startsAt).isPending .play = false := by
    show (talk.outcome .play).isNone = false
    cases hPlay : talk.outcome .play with
    | none => exact absurd hPlay hSkipped
    | some outcome => rfl
  rw [start_eq_startAt hOpen hFresh, startAt]
  simp [hText, hPending]

end Start

/-- What is put on an agenda stands there together with what stood there before. -/
theorem perm_scheduleAll (agenda : Agenda Cue) (cues : List (Millis × Cue)) :
    (scheduleAll agenda cues).pending.Perm
      (cues.map (fun (due, cue) => ⟨due, cue⟩) ++ agenda.pending) := by
  induction cues generalizing agenda with
  | nil => exact .refl _
  | cons first rest ih =>
    obtain ⟨due, cue⟩ := first
    refine (ih (agenda.schedule due cue)).trans ?_
    exact ((Agenda.perm_insertLast ⟨due, cue⟩ agenda.pending).append_left _).trans
      List.perm_middle

/-- What is put on an agenda in the order of the due times stands there in this order. -/
theorem pending_scheduleAll {agenda : Agenda Cue} {cues : List (Millis × Cue)}
    (hSorted : (agenda.pending ++ cues.map fun x => Appointment.mk x.1 x.2).Pairwise
      fun x y => x.due ≤ y.due) :
    (scheduleAll agenda cues).pending =
      agenda.pending ++ cues.map fun x => Appointment.mk x.1 x.2 := by
  induction cues generalizing agenda with
  | nil => exact (List.append_nil _).symm
  | cons first rest ih =>
    -- each one is due no earlier than what stands, so it goes to the end
    have hLast : (agenda.schedule first.1 first.2).pending = agenda.pending ++ [⟨first.1, first.2⟩] :=
      Agenda.insertLast_eq_append fun y hy =>
        (List.pairwise_append.mp hSorted).2.2 y hy _ (List.mem_cons_self ..)
    have hRest := @ih (agenda.schedule first.1 first.2)
      (by rw [hLast, List.append_assoc]; exact hSorted)
    rw [hLast, List.append_assoc] at hRest
    exact hRest

/-- Scheduling takes no time. -/
@[simp] theorem now_scheduleAll (agenda : Agenda Cue) (cues : List (Millis × Cue)) :
    (scheduleAll agenda cues).now = agenda.now := by
  induction cues generalizing agenda with
  | nil => rfl
  | cons first rest ih => exact ih _

/-- What is planned for the entries are reveals. -/
theorem isReveal_of_mem_reveals {start : Millis} {first : Nat} {entries : List Entry}
    {x : Millis × Cue} (hMem : x ∈ reveals start first entries) : x.2.isReveal = true := by
  induction entries generalizing first with
  | nil => cases hMem
  | cons e rest ih =>
    rcases List.mem_cons.mp hMem with rfl | hRest
    · rfl
    · exact ih hRest

/-- A reveal belongs to playback. -/
theorem isPlayback_of_isReveal {cue : Cue} (hReveal : cue.isReveal = true) :
    cue.isPlayback = true := by
  cases cue with
  | reveal entry last => rfl
  | fadeEnd entry => cases hReveal
  | closeEnd number => cases hReveal

/-! ## Closing -/

/-- The agenda of a talk that starts to close: the ends of the closing animations. -/
def closingAgenda (talk : Talk) : Agenda Cue :=
  scheduleAll (talk.agenda.cancel Cue.isPlayback)
    (talk.closingSections.map fun number =>
      (talk.now + talk.options.tempo.sectionClose, .closeEnd number))

/-- How the signals stand when a talk starts to close. -/
def closingLifecycle (talk : Talk) (outcome : Outcome) : Lifecycle :=
  let settled :=
    ((talk.lifecycle.settle .closing outcome).settle .played .abandoned).settle .play .abandoned
  if talk.closingSections = [] then settled.settle .closed .resolved else settled

/-- The events of starting to close. -/
def closingEvents (talk : Talk) : List Event :=
  talk.playedEvents .abandoned ++
    (talk.closingSections.map Event.sectionClosing ++
      if talk.closingSections = [] then talk.closedEvents else [])

/-- When a talk begins to close it may say that it was played, which sections close, and that it is over. -/
theorem mem_closingEvents {talk : Talk} {event : Event} (hMem : event ∈ talk.closingEvents) :
    event = .played .abandoned ∨ (∃ number, event = .sectionClosing number) ∨ event = .closed := by
  rcases List.mem_append.mp hMem with hPlayed | hMem
  · exact .inl (mem_playedEvents hPlayed)
  · rcases List.mem_append.mp hMem with hSection | hClosed
    · obtain ⟨number, -, rfl⟩ := List.mem_map.mp hSection
      exact .inr (.inl ⟨number, rfl⟩)
    · split at hClosed
      · exact .inr (.inr (mem_closedEvents hClosed))
      · cases hClosed

/-- Each section that begins to close has its cue and its event. -/
theorem foldl_startClosing (talk : Talk) (numbers : List Nat) :
    ∃ areas, numbers.foldl startClosing talk =
      { talk with
        areas
        agenda := numbers.foldl
          (fun agenda number =>
            agenda.schedule (talk.now + talk.options.tempo.sectionClose) (.closeEnd number))
          talk.agenda
        events := talk.events ++ numbers.map Event.sectionClosing } := by
  -- section by section; starting to close one does not move the clock
  induction numbers generalizing talk with
  | nil => exact ⟨talk.areas, by simp⟩
  | cons number rest ih =>
    obtain ⟨areas, hRest⟩ := ih (talk.startClosing number)
    refine ⟨areas, ?_⟩
    rw [List.foldl_cons, hRest]
    simp [startClosing, raise, now]

/-- Abandoning the play settles `played` and `play`. -/
theorem abandonPlay_eq (talk : Talk) :
    ∃ outbox, talk.abandonPlay =
      { talk with
        lifecycle := (talk.lifecycle.settle .played .abandoned).settle .play .abandoned
        events := talk.events ++ talk.playedEvents .abandoned
        outbox } := by
  obtain ⟨outbox, hPlayed⟩ := talk.markPlayed_eq .abandoned
  rw [abandonPlay, hPlayed]
  exact ⟨_, rfl⟩

/-- The sections begin to close together, or the talk is over if there are none. -/
theorem closeSections_eq (talk : Talk) :
    ∃ registry areas outbox, talk.closeSections =
      { talk with
        registry
        areas
        agenda := talk.closingSections.foldl
          (fun agenda number =>
            agenda.schedule (talk.now + talk.options.tempo.sectionClose) (.closeEnd number))
          talk.agenda
        lifecycle :=
          if talk.closingSections = [] then talk.lifecycle.settle .closed .resolved
          else talk.lifecycle
        closesLeft := talk.closingSections.length
        events := talk.events ++
          (talk.closingSections.map Event.sectionClosing ++
            if talk.closingSections = [] then talk.closedEvents else [])
        outbox } := by
  obtain ⟨areas, hSections⟩ := foldl_startClosing
    { talk with closesLeft := talk.closingSections.length } talk.closingSections
  rw [closeSections, hSections]
  by_cases hNone : talk.closingSections = []
  · -- without sections the talk is over
    obtain ⟨registry, outbox, hConclude⟩ := conclude_eq { talk with areas, closesLeft := 0 }
    refine ⟨registry, areas, outbox, ?_⟩
    simp only [hNone, List.length_nil, List.foldl_nil, List.map_nil, List.append_nil, if_true,
      List.nil_append] at hConclude ⊢
    exact hConclude
  · exact ⟨talk.registry, areas, talk.outbox, by simp [hNone]; rfl⟩

/-- What closing does to a talk that is not closing. -/
theorem beginClosing_eq {talk : Talk} (hOpen : talk.outcome .closing = none) (outcome : Outcome) :
    ∃ registry areas outbox, (talk.beginClosing outcome).2 =
      { talk with
        registry
        scrap := talk.scrap.map fun e => { e with fading := false }
        areas
        agenda := talk.closingAgenda
        lifecycle := talk.closingLifecycle outcome
        closesLeft := talk.closingSections.length
        events := talk.events ++ talk.closingEvents
        outbox } := by
  have hPending : talk.isPending .closing = true := by rw [isPending_eq, hOpen]; rfl
  -- `closing` settles first, which does not decide whether `played` is news
  have hPlayed : ∀ lifecycle outbox,
      lifecycle = talk.lifecycle.settle .closing outcome →
      playedEvents { talk with lifecycle, outbox } .abandoned = talk.playedEvents .abandoned := by
    rintro _ outbox rfl
    simp [playedEvents, outcome_eq, Lifecycle.outcome_get_settle]
  obtain ⟨playBox, hPlay⟩ :=
    abandonPlay_eq ((talk.settle .closing outcome).report .debug ("closing (" ++ outcome.name ++ ")"))
  obtain ⟨registry, areas, outbox, hSections⟩ := closeSections_eq
    ((talk.settle .closing outcome).report .debug
      ("closing (" ++ outcome.name ++ ")")).abandonPlay.stopPlayback
  refine ⟨registry, areas, outbox, ?_⟩
  rw [beginClosing, if_pos hPending]
  show (((talk.settle .closing outcome).report .debug
    ("closing (" ++ outcome.name ++ ")")).abandonPlay.stopPlayback).closeSections = _
  rw [hSections, hPlay]
  simp only [stopPlayback, settle, report, hPlayed _ _ rfl, closingAgenda, closingLifecycle,
    closingEvents, scheduleAll, List.foldl_map, now, Agenda.cancel, List.append_assoc, closedEvents,
    outcome_eq, Lifecycle.outcome_get_settle]
  rfl

end Talk

end Dialogue
