import Dialogue.Proofs.Talk.Authored

/-!
# Who performs the emotes

When an emote is reached, an event says so, and whoever performs the emotes of the talk is called with its
name. Nothing else raises these events, and nothing else calls: so as long as there is a performer, the
calls are the emotes in the history, in their order.

Main results:

* `Talk.voices_perform` — an operation calls the performer for the emotes that it raises.
* `Talk.emotes_after` — what was called since the performer was named.
-/

namespace Dialogue

/-- The entry and the name in an `emote` event. -/
def Event.emote? : Event → Option (Nat × String)
  | emote entry name => some (entry, name)
  | shown .. | faded _ | played _ | sectionClosing _ | sectionClosed _ | closed => none

namespace Talk

/-- The names of the emotes among events. -/
def emoteNames (events : List Event) : List String :=
  (events.filterMap Event.emote?).map Prod.snd

@[simp] theorem emoteNames_append (events more : List Event) :
    emoteNames (events ++ more) = emoteNames events ++ emoteNames more := by
  rw [emoteNames, List.filterMap_append, List.map_append]
  rfl

/-! ## Raising and calling -/

/-- The calls for the emotes among events: one for each of them, if somebody performs. -/
def calls (performer : Option String) (events : List Event) : List (String × String) :=
  (emoteNames events).flatMap fun name => performer.toList.map (·, name)

theorem calls_append (performer : Option String) (events more : List Event) :
    calls performer (events ++ more) = calls performer events ++ calls performer more := by
  rw [calls, emoteNames_append, List.flatMap_append]
  rfl

/-- Where no emote is raised nobody is called. -/
theorem calls_of_none {performer : Option String} {events : List Event}
    (hNone : emoteNames events = []) : calls performer events = [] := by
  rw [calls, hNone]
  rfl

theorem calls_some (name : String) (events : List Event) :
    calls (some name) events = (emoteNames events).map (name, ·) :=
  List.map_eq_flatMap.symm

/-- Whoever performs is called once for each emote. -/
theorem map_snd_calls {performer : Option String} (hSome : performer ≠ none)
    (events : List Event) : (calls performer events).map Prod.snd = emoteNames events := by
  obtain ⟨name, rfl⟩ := Option.ne_none_iff_exists'.mp hSome
  rw [calls_some, List.map_map]
  exact List.map_id' _

/-- The performer of a talk stays, and is called for the emotes among the events that are raised. -/
structure Voices (talk : Talk) (raised : List Event) (later : Talk) : Prop where
  performer : later.performer = talk.performer
  emotes : later.outbox.emotes = talk.outbox.emotes ++ calls talk.performer raised

/-- A talk goes on with events of its own, and the performer is called for the emotes among them. -/
def Voiced (talk later : Talk) : Prop :=
  ∃ raised, later.events = talk.events ++ raised ∧ Voices talk raised later

theorem Voices.trans {first second third : Talk} {raised more : List Event}
    (h : Voices first raised second) (h' : Voices second more third) :
    Voices first (raised ++ more) third where
  performer := h'.performer.trans h.performer
  emotes := by rw [h'.emotes, h.emotes, h.performer, calls_append, List.append_assoc]

/-- Where nothing is raised, nobody is called. -/
theorem Voices.of_eq {talk later : Talk} (hPerformer : later.performer = talk.performer)
    (hEmotes : later.outbox.emotes = talk.outbox.emotes) : Voices talk [] later :=
  ⟨hPerformer, by rw [hEmotes]; exact (List.append_nil _).symm⟩

namespace Voiced

theorem trans {first second third : Talk} (h : Voiced first second) (h' : Voiced second third) :
    Voiced first third := by
  obtain ⟨raised, hEvents, hVoices⟩ := h
  obtain ⟨more, hEvents', hMore⟩ := h'
  exact ⟨raised ++ more, by rw [hEvents', hEvents, List.append_assoc], hVoices.trans hMore⟩

/-- A change of what is neither raised nor called is voiced. -/
theorem of_eq {talk later : Talk} (hEvents : later.events = talk.events)
    (hPerformer : later.performer = talk.performer)
    (hEmotes : later.outbox.emotes = talk.outbox.emotes) : Voiced talk later :=
  ⟨[], by rw [hEvents, List.append_nil], .of_eq hPerformer hEmotes⟩

theorem refl (talk : Talk) : Voiced talk talk := .of_eq rfl rfl rfl

/-- Steps that are voiced one by one are voiced in a row. -/
theorem foldl {α : Type} {step : Talk → α → Talk} (hStep : ∀ talk a, Voiced talk (step talk a))
    (all : List α) (talk : Talk) : Voiced talk (all.foldl step talk) := by
  induction all generalizing talk with
  | nil => exact .refl talk
  | cons a rest ih => exact (hStep talk a).trans (ih (step talk a))

/-- Nobody is called for other events. -/
theorem raise {talk later : Talk} (h : Voiced talk later) {event : Event}
    (hOther : event.emote? = none) : Voiced talk (later.raise event) := by
  have hNames : emoteNames [event] = [] := by
    rw [emoteNames, List.filterMap_cons_none hOther]
    rfl
  refine h.trans ⟨[event], rfl, rfl, ?_⟩
  rw [calls_of_none hNames]
  exact (List.append_nil _).symm

end Voiced

/-! ## Showing entries -/

theorem voiced_report (talk : Talk) (severity : Severity) (text : String) :
    Voiced talk (talk.report severity text) := .of_eq rfl rfl rfl

theorem voiced_settle (talk : Talk) (milestone : Milestone) (outcome : Outcome) :
    Voiced talk (talk.settle milestone outcome) := .of_eq rfl rfl rfl

theorem voiced_markPlayed (talk : Talk) (outcome : Outcome) :
    Voiced talk (talk.markPlayed outcome) := by
  unfold markPlayed
  split
  · exact (talk.voiced_settle .played outcome).raise rfl
  · exact .refl talk

theorem voiced_showEntry (talk : Talk) (entry : Nat) : Voiced talk (talk.showEntry entry) := by
  have hScrap : ∀ scrap, Voiced talk { talk with scrap } := fun _ => .of_eq rfl rfl rfl
  unfold showEntry
  split
  · exact (hScrap _).raise rfl
  · exact .refl talk

/-- The one place where the performer is called. -/
theorem voiced_performAt (talk : Talk) (entry : Nat) : Voiced talk (talk.performAt entry) := by
  unfold performAt
  split
  · rename_i name _
    refine ⟨[.emote entry name], rfl, rfl, ?_⟩
    show _ = talk.outbox.emotes ++ [name].flatMap _
    rw [List.flatMap_singleton]
    rfl
  · exact .refl talk

/-- A reveal calls the performer with the emote of the entry, if it has one. -/
theorem voiced_reveal (talk : Talk) (entry : Nat) (last : Bool) :
    Voiced talk (talk.reveal entry last) := by
  have hShown := talk.voiced_showEntry entry
  -- with its animation, if the talk animates
  have hAnimated : Voiced talk
      (if talk.animates then ((talk.showEntry entry).performAt entry).startFade entry
        else talk.showEntry entry) := by
    split
    · exact (hShown.trans (voiced_performAt _ entry)).trans (.of_eq rfl rfl rfl)
    · exact hShown
  unfold reveal
  simp only
  split
  · exact hAnimated.trans (voiced_markPlayed _ .resolved)
  · exact hAnimated

theorem voiced_revealRest (talk : Talk) : Voiced talk talk.revealRest := by
  have hStruck : Voiced talk { talk with agenda := talk.agenda.cancel Cue.isReveal } :=
    .of_eq rfl rfl rfl
  unfold revealRest
  refine hStruck.trans (.foldl ?_ _ _)
  intro t cue
  cases cue with
  | reveal entry last => exact t.voiced_reveal entry last
  | fadeEnd entry => exact .refl t
  | closeEnd number => exact .refl t

/-! ## Starting, skipping and closing -/

theorem voiced_startAt (talk : Talk) (start : Millis) : Voiced talk (talk.startAt start) := by
  have hPlan : Voiced talk (talk.plan start) := .of_eq rfl rfl rfl
  unfold startAt
  simp only
  split
  · exact hPlan.trans (voiced_markPlayed ..)
  · split
    · exact hPlan
    · exact hPlan.trans (voiced_revealRest _)

theorem voiced_start (talk : Talk) : Voiced talk talk.start := by
  unfold start
  split
  · exact talk.voiced_report ..
  · split
    · exact .refl talk
    · exact talk.voiced_startAt _

theorem voiced_skip (talk : Talk) : Voiced talk talk.skip.2 := by
  unfold skip
  split
  · have hSettled := (talk.voiced_settle .play .resolved).trans
      (voiced_report _ .debug "play resolved")
    simp only
    split
    · exact hSettled.trans (voiced_revealRest _)
    · exact hSettled
  · exact .refl talk

theorem voiced_conclude (talk : Talk) : Voiced talk talk.conclude := by
  have hDetached : ∀ (t : Talk) (registry : Registry), Voiced t { t with registry } :=
    fun _ _ => .of_eq rfl rfl rfl
  unfold conclude
  split
  · exact (((talk.voiced_settle .closed .resolved).trans (hDetached ..)).raise rfl).trans
      (voiced_report ..)
  · exact .refl talk

theorem voiced_startClosing (talk : Talk) (number : Nat) :
    Voiced talk (talk.startClosing number) := by
  have hAside : ∀ (areas : Areas) (agenda : Agenda Cue), Voiced talk { talk with areas, agenda } :=
    fun _ _ => .of_eq rfl rfl rfl
  unfold startClosing
  exact (hAside _ _).raise rfl

theorem voiced_closeSections (talk : Talk) : Voiced talk talk.closeSections := by
  have hCounted : Voiced talk { talk with closesLeft := talk.closingSections.length } :=
    .of_eq rfl rfl rfl
  have hStarted := hCounted.trans (.foldl voiced_startClosing talk.closingSections _)
  unfold closeSections
  simp only
  split
  · exact hStarted.trans (voiced_conclude _)
  · exact hStarted

/-- To begin to close raises no emote and calls nobody. -/
theorem voiced_beginClosing (talk : Talk) (outcome : Outcome) :
    Voiced talk (talk.beginClosing outcome).2 := by
  unfold beginClosing
  split
  · have hSettled := (talk.voiced_settle .closing outcome).trans
      (voiced_report _ .debug ("closing (" ++ outcome.name ++ ")"))
    have hAbandoned := (hSettled.trans (voiced_markPlayed _ .abandoned)).trans
      (voiced_settle _ .play .abandoned)
    have hStopped : ∀ t : Talk, Voiced t t.stopPlayback := fun _ => .of_eq rfl rfl rfl
    exact (hAbandoned.trans (hStopped _)).trans (voiced_closeSections _)
  · exact .refl talk

/-! ## The clock -/

/-- Of all cues only a reveal can raise an emote. -/
theorem voiced_fire (talk : Talk) (cue : Cue) : Voiced talk (talk.fire cue) := by
  cases cue with
  | reveal entry last => exact talk.voiced_reveal entry last
  | fadeEnd entry =>
    have hScrap : ∀ scrap, Voiced talk { talk with scrap } := fun _ => .of_eq rfl rfl rfl
    show Voiced talk (talk.endFade entry)
    unfold endFade
    split
    · exact (hScrap _).raise rfl
    · exact (Voiced.refl talk).raise rfl
  | closeEnd number =>
    have hCounted : ∀ areas closesLeft, Voiced talk { talk with areas, closesLeft } :=
      fun _ _ => .of_eq rfl rfl rfl
    have hEnded := fun areas closesLeft =>
      (hCounted areas closesLeft).raise (show (Event.sectionClosed number).emote? = none from rfl)
    show Voiced talk (talk.endClosing number)
    unfold endClosing
    simp only
    -- the last section that closes concludes the talk
    split
    · exact (hEnded _ _).trans (voiced_conclude _)
    · exact hEnded _ _

theorem voiced_fireDue (talk : Talk) (limit : Millis) : Voiced talk (talk.fireDue limit) := by
  fun_induction fireDue talk limit with
  | case1 talk => exact .refl talk
  | case2 talk cue rest hPop ih =>
    obtain ⟨agenda, -, rfl⟩ := taken_of_pop? hPop
    have hTaken : Voiced talk { talk with agenda } := .of_eq rfl rfl rfl
    exact (hTaken.trans (voiced_fire _ cue)).trans ih

/-! ## Operations -/

/-- When the clock is moved, what was raised is handed out, and each emote in it was called. -/
theorem voices_advanceTo (talk : Talk) (time : Millis) :
    ∃ raised, talk.events ++ raised = (talk.advanceTo time).1 ++ (talk.advanceTo time).2.events ∧
      Voices talk raised (talk.advanceTo time).2 := by
  obtain ⟨raised, hEvents, hPerformer, hEmotes⟩ := talk.voiced_fireDue time
  exact ⟨raised, hEvents.symm.trans (List.append_nil _).symm, hPerformer, hEmotes⟩

/-- When a talk is played out, what was raised is handed out, and each emote in it was called. -/
theorem voices_playOut (talk : Talk) :
    ∃ raised, talk.events ++ raised = talk.playOut.1 ++ talk.playOut.2.events ∧
      Voices talk raised talk.playOut.2 := by
  fun_induction playOut talk with
  | case1 talk hDue => exact ⟨[], rfl, .of_eq rfl rfl⟩
  | case2 talk due hDue later last hRest ih =>
    -- up to the next due time, and on from there
    obtain ⟨raised, hEvents, hVoices⟩ := talk.voices_advanceTo due
    obtain ⟨more, hLater, hMore⟩ := ih
    rw [hRest] at hLater hMore
    refine ⟨raised ++ more, ?_, hVoices.trans hMore⟩
    rw [← List.append_assoc, hEvents, List.append_assoc, hLater, List.append_assoc]

theorem voiced_endSection (talk : Talk) : Voiced talk talk.endSection := by
  unfold endSection
  split
  · exact .of_eq rfl rfl rfl
  · exact .refl talk

/-- Writing has nothing to do with performing. -/
theorem voiced_direct (talk : Talk) (direction : Direction) :
    Voiced talk (talk.direct direction) := by
  refine keeps_direct (Voiced talk) (fun _ _ h => h.trans (voiced_report ..))
    (fun h => h.trans (voiced_endSection _))
    (fun asked h => (h.trans (voiced_endSection _)).trans (.of_eq rfl rfl rfl))
    (fun _ _ h => h.trans ?_) (.refl talk) direction
  unfold modifyCurrent
  split
  · exact .of_eq rfl rfl rfl
  · exact .refl _

theorem voiced_pace (talk : Talk) (scope : PaceScope) : Voiced talk (talk.pace scope).2 := by
  rw [pace_eq]
  exact .of_eq rfl rfl rfl

theorem voiced_wrapUp (talk : Talk) : Voiced talk talk.wrapUp.2 := by
  have hPaced := talk.voiced_endSection.trans (talk.endSection.voiced_pace .whole)
  unfold wrapUp
  simp only
  split
  all_goals
    rename_i hPace
    rw [hPace] at hPaced
  · exact hPaced
  · exact hPaced.trans (voiced_report ..)

/-- Whatever is done, the performer is called for the emotes that are raised. -/
theorem voices_perform (talk : Talk) {operation : Operation}
    (hOther : ∀ performer, operation ≠ .performWith performer) :
    ∃ raised, talk.events ++ raised =
        (talk.perform operation).1.raised ++ (talk.perform operation).2.events ∧
      Voices talk raised (talk.perform operation).2 := by
  -- an operation that hands nothing out leaves its events to be taken
  have hKept : ∀ {later : Talk}, Voiced talk later →
      ∃ raised, talk.events ++ raised = later.events ∧ Voices talk raised later := by
    rintro later ⟨raised, hEvents, hVoices⟩
    exact ⟨raised, hEvents.symm, hVoices⟩
  cases operation with
  | direct direction => exact hKept (talk.voiced_direct direction)
  | pace scope =>
    obtain ⟨raised, hEvents, hVoices⟩ := hKept (talk.voiced_pace scope)
    refine ⟨raised, ?_, hVoices⟩
    -- a total or a refusal hands no events out
    have hNone : (talk.perform (.pace scope)).1.raised = [] := raised_ofPacing _
    rw [hNone]
    exact hEvents
  | wrapUp => exact hKept talk.voiced_wrapUp
  | start => exact hKept talk.voiced_start
  | skip => exact hKept talk.voiced_skip
  | close => exact hKept (talk.voiced_beginClosing .abandoned)
  | finish => exact hKept (talk.voiced_beginClosing .resolved)
  | advanceTo time => exact talk.voices_advanceTo time
  | advanceBy delta => exact talk.voices_advanceTo (talk.now + delta)
  | playOut => exact talk.voices_playOut
  | collectEvents => exact ⟨[], rfl, .of_eq rfl rfl⟩
  | observe milestone observer => exact hKept (.of_eq rfl rfl rfl)
  | performWith performer => exact absurd rfl (hOther performer)

/-! ## A whole run -/

/-- One more operation, with its events and the calls for them. -/
theorem voices_after (talk : Talk) (operations : List Operation) {operation : Operation}
    (hOther : ∀ performer, operation ≠ .performWith performer) :
    ∃ raised, talk.history (operations ++ [operation]) = talk.history operations ++ raised ∧
      Voices (talk.after operations) raised (talk.after (operations ++ [operation])) := by
  obtain ⟨raised, hEvents, hVoices⟩ := (talk.after operations).voices_perform hOther
  refine ⟨raised, talk.history_append_singleton operations hEvents, ?_⟩
  rw [after_append]
  exact hVoices

/-- Naming a performer raises nothing. -/
theorem performWith_after (talk : Talk) (operations : List Operation) (performer : String) :
    talk.after (operations ++ [.performWith performer]) =
        (talk.after operations).performWith performer ∧
      talk.history (operations ++ [.performWith performer]) = talk.history operations := by
  have hHistory := talk.history_append_singleton operations
    (show (talk.after operations).events ++ [] =
      ((talk.after operations).perform (.performWith performer)).1.raised ++
        ((talk.after operations).perform (.performWith performer)).2.events from List.append_nil _)
  rw [List.append_nil] at hHistory
  exact ⟨talk.after_append operations [.performWith performer], hHistory⟩

section Run

variable {talk : Talk} {operations : List Operation}

/-- As long as no emote was reached, nobody was called. -/
theorem emotes_of_silent (hNone : talk.outbox.emotes = [])
    (hSilent : emoteNames (talk.history operations) = []) :
    (talk.after operations).outbox.emotes = [] := by
  induction operations using List.reverseRecOn with
  | nil => exact hNone
  | append_singleton operations operation ih =>
    -- naming a performer calls nobody
    by_cases hOther : ∀ performer, operation ≠ .performWith performer
    · obtain ⟨raised, hHistory, hVoices⟩ := talk.voices_after operations hOther
      rw [hHistory, emoteNames_append, List.append_eq_nil_iff] at hSilent
      rw [hVoices.emotes, ih hSilent.1, calls_of_none hSilent.2]
      rfl
    · simp only [not_forall, not_not] at hOther
      obtain ⟨performer, rfl⟩ := hOther
      obtain ⟨hAfter, hHistory⟩ := talk.performWith_after operations performer
      rw [hHistory] at hSilent
      rw [hAfter]
      exact ih hSilent

/-- Where somebody performs and was called for all emotes so far, it stays so, whoever performs. -/
theorem names_after (hSome : (talk.after operations).performer ≠ none)
    (hNames : (talk.after operations).outbox.emotes.map Prod.snd =
      emoteNames (talk.history operations)) (more : List Operation) :
    (talk.after (operations ++ more)).performer ≠ none ∧
      (talk.after (operations ++ more)).outbox.emotes.map Prod.snd =
        emoteNames (talk.history (operations ++ more)) := by
  induction more using List.reverseRecOn with
  | nil => rw [List.append_nil]; exact ⟨hSome, hNames⟩
  | append_singleton more operation ih =>
    obtain ⟨hPerformer, hCalled⟩ := ih
    rw [← List.append_assoc]
    -- another performer may be named, but there is one in any case
    by_cases hOther : ∀ performer, operation ≠ .performWith performer
    · obtain ⟨raised, hHistory, hVoices⟩ := talk.voices_after (operations ++ more) hOther
      rw [hVoices.performer, hVoices.emotes, hHistory, List.map_append, hCalled,
        map_snd_calls hPerformer, emoteNames_append]
      exact ⟨hPerformer, rfl⟩
    · simp only [not_forall, not_not] at hOther
      obtain ⟨performer, rfl⟩ := hOther
      obtain ⟨hAfter, hHistory⟩ := talk.performWith_after (operations ++ more) performer
      rw [hAfter, hHistory]
      exact ⟨Option.some_ne_none _, hCalled⟩

/-- As long as nobody else is named, it is the same one who is called. -/
theorem calls_after {performer : String}
    (hPerformer : (talk.after operations).performer = some performer)
    (hCalls : (talk.after operations).outbox.emotes =
      calls (some performer) (talk.history operations)) {more : List Operation}
    (hOther : ∀ other, .performWith other ∉ more) :
    (talk.after (operations ++ more)).performer = some performer ∧
      (talk.after (operations ++ more)).outbox.emotes =
        calls (some performer) (talk.history (operations ++ more)) := by
  induction more using List.reverseRecOn with
  | nil => rw [List.append_nil]; exact ⟨hPerformer, hCalls⟩
  | append_singleton more operation ih =>
    obtain ⟨hStill, hCalled⟩ := ih fun other hMem => hOther other (List.mem_append_left _ hMem)
    -- the last operation is among those that name nobody else
    have hLast : ∀ other, operation ≠ .performWith other := by
      rintro other rfl
      exact hOther other (List.mem_append_right _ (List.mem_singleton_self _))
    obtain ⟨raised, hHistory, hVoices⟩ := talk.voices_after (operations ++ more) hLast
    rw [← List.append_assoc, hVoices.performer, hVoices.emotes, hHistory, hCalled, hStill,
      calls_append]
    exact ⟨rfl, rfl⟩

/-- Where somebody is to perform before the first emote is reached, every emote is a call. -/
theorem emotes_after (hNone : talk.outbox.emotes = [])
    (hSilent : emoteNames (talk.history operations) = []) (performer : String)
    (more : List Operation) :
    (talk.after (operations ++ .performWith performer :: more)).outbox.emotes.map Prod.snd =
        emoteNames (talk.history (operations ++ .performWith performer :: more)) ∧
      ((∀ other, .performWith other ∉ more) →
        (talk.after (operations ++ .performWith performer :: more)).outbox.emotes =
          (emoteNames (talk.history (operations ++ .performWith performer :: more))).map
            (performer, ·)) := by
  obtain ⟨hAfter, hHistory⟩ := talk.performWith_after operations performer
  have hPerformer : (talk.after (operations ++ [.performWith performer])).performer =
      some performer := by
    rw [hAfter]
    rfl
  have hCalls : (talk.after (operations ++ [.performWith performer])).outbox.emotes = [] := by
    rw [hAfter]
    exact emotes_of_silent hNone hSilent
  -- from the operation on that names the performer, every emote is called
  rw [List.append_cons operations (.performWith performer) more]
  refine ⟨(names_after ?_ ?_ more).2, fun hOther => ?_⟩
  · rw [hPerformer]
    exact Option.some_ne_none _
  · rw [hCalls, hHistory, hSilent]
    rfl
  · rw [← calls_some]
    exact (calls_after hPerformer (by rw [hCalls, hHistory, calls_of_none hSilent]) hOther).2

end Run

end Talk

end Dialogue
