import Dialogue.Proofs.Talk.Schedule
import Dialogue.Proofs.Talk.Signals

/-!
# Visibility

An entry is hidden when it is paced and visible when it was shown. Playback puts every entry on the
agenda once, when it starts. So where nothing is left on the agenda of an open talk, an entry is hidden
exactly if something paced it after the start and it was not shown since.

Main results:

* `Talk.Seen` — what moves change at a place, told from the events they raise.
* `Talk.hidden_of_hiddenSince` — what was paced after the start and not shown since is hidden.
* `Talk.hidden_cases` — what is hidden was paced after the start, or will be revealed.
* `Talk.hidden_iff_hiddenSince` — both together, for a talk with nothing left on its agenda.
-/

namespace Dialogue.Talk

/-! ## Looking at a place -/

/-- Whether the entry at a place is visible, where there is one. -/
def visibleAt? (talk : Talk) (place : Place) : Option Bool :=
  (talk.scrap.entryAt? place).map Entry.visible

/-- Whether events show the entry that stood at a place when the talk started. -/
def Shows (talk : Talk) (place : Place) (events : List Event) : Prop :=
  ∃ i glyph, talk.marks[i]? = some place ∧ .shown i glyph ∈ events

/-- Whether the entry that stood at a place when the talk started is still to be revealed. -/
def Awaits (talk : Talk) (place : Place) : Prop :=
  ∃ x ∈ talk.agenda.pending, ∃ i last, x.event = .reveal i last ∧ talk.marks[i]? = some place

/-- Whether an operation paces what stands at a place. -/
def Paces (talk : Talk) (operation : Operation) (place : Place) : Prop :=
  talk.outcome .closing = none ∧
    ∃ scope, operation.scope? = some scope ∧ scope.covers talk.scrap place = true

theorem shows_append {talk : Talk} {place : Place} {events more : List Event} :
    talk.Shows place (events ++ more) ↔ talk.Shows place events ∨ talk.Shows place more := by
  constructor
  · rintro ⟨i, glyph, hMark, hMem⟩
    rcases List.mem_append.mp hMem with hMem | hMem
    · exact .inl ⟨i, glyph, hMark, hMem⟩
    · exact .inr ⟨i, glyph, hMark, hMem⟩
  · rintro (⟨i, glyph, hMark, hMem⟩ | ⟨i, glyph, hMark, hMem⟩)
    · exact ⟨i, glyph, hMark, List.mem_append_left _ hMem⟩
    · exact ⟨i, glyph, hMark, List.mem_append_right _ hMem⟩

theorem not_shows_nil (talk : Talk) (place : Place) : ¬ talk.Shows place [] := by
  rintro ⟨i, glyph, -, hMem⟩
  cases hMem

theorem shows_congr {talk later : Talk} (hMarks : later.marks = talk.marks) {place : Place}
    {events : List Event} : later.Shows place events ↔ talk.Shows place events := by
  rw [Shows, Shows, hMarks]

/-! ## What moves change at a place -/

/-- What was raised tells whether the entry at a place was made visible; it stays as it is otherwise,
and does not get lost on the agenda. -/
structure Seen (place : Place) (talk : Talk) (raised : List Event) (later : Talk) : Prop where
  startTime : later.startTime = talk.startTime
  marks : later.marks = talk.marks
  isSome : (talk.visibleAt? place).isSome → (later.visibleAt? place).isSome
  unshown : ¬ talk.Shows place raised → later.visibleAt? place = talk.visibleAt? place
  shown : talk.Shows place raised → later.visibleAt? place ≠ some false
  awaits : talk.Awaits place → (talk.visibleAt? place).isSome →
    later.Awaits place ∨ talk.Shows place raised

namespace Seen

variable {place : Place} {first second third : Talk} {raised more : List Event}

theorem refl (place : Place) (talk : Talk) : Seen place talk [] talk where
  startTime := rfl
  marks := rfl
  isSome := id
  unshown _ := rfl
  shown hShows := absurd hShows (talk.not_shows_nil place)
  awaits hAwaits _ := .inl hAwaits

theorem trans (h : Seen place first raised second) (h' : Seen place second more third) :
    Seen place first (raised ++ more) third where
  startTime := h'.startTime.trans h.startTime
  marks := h'.marks.trans h.marks
  isSome hSome := h'.isSome (h.isSome hSome)
  unshown hNot := by
    rw [shows_append, not_or] at hNot
    rw [h'.unshown (by rw [shows_congr h.marks]; exact hNot.2), h.unshown hNot.1]
  shown hShows := by
    -- shown by the later events, or by the earlier ones and untouched since
    by_cases hMore : second.Shows place more
    · exact h'.shown hMore
    · rw [h'.unshown hMore]
      rcases shows_append.mp hShows with hRaised | hShowsMore
      · exact h.shown hRaised
      · exact absurd ((shows_congr h.marks).mpr hShowsMore) hMore
  awaits hAwaits hSome := by
    rw [shows_append]
    -- a reveal that is still to come after the first moves is to come or shown after the others
    rcases h.awaits hAwaits hSome with hStill | hShown
    · rcases h'.awaits hStill (h.isSome hSome) with hStill | hShown
      · exact .inl hStill
      · exact .inr (.inr ((shows_congr h.marks).mp hShown))
    · exact .inr (.inl hShown)

end Seen

/-- Another cue than the one that fires stays on the agenda. -/
theorem Taken.mem_fire {talk : Talk} {cue : Cue} {rest : Agenda Cue}
    (hTaken : Taken talk.agenda cue rest) {x : Appointment Cue} (hMem : x ∈ talk.agenda.pending)
    (hOther : x.event ≠ cue) : x ∈ ({ talk with agenda := rest }.fire cue).agenda.pending := by
  -- it is among what the taken cue leaves
  have hRest : x ∈ rest.pending := by
    obtain ⟨before, due, after, hPending, hRest, -⟩ := hTaken.split
    rw [hPending, List.mem_append, List.mem_cons] at hMem
    rw [hRest, List.mem_append]
    rcases hMem with hMem | rfl | hMem
    · exact .inl hMem
    · exact absurd rfl hOther
    · exact .inr hMem
  cases cue with
  | reveal entry last =>
    obtain ⟨outbox, hReveal⟩ := { talk with agenda := rest }.reveal_eq entry last
    rw [fire, hReveal]
    simp only
    split
    · exact Agenda.mem_insertLast.mpr (.inr hRest)
    · exact hRest
  | fadeEnd entry => rwa [fire, agenda_endFade]
  | closeEnd number => rwa [fire, agenda_endClosing]

/-- Whether the reveal of a place fires. -/
def Cue.Reveals (cue : Cue) (talk : Talk) (place : Place) : Prop :=
  ∃ i last, cue = .reveal i last ∧ talk.marks[i]? = some place

/-- A place is shown only by its reveal. -/
theorem reveals_of_shows {talk : Talk} {cue : Cue} {place : Place}
    (hShows : talk.Shows place (talk.firedEvents cue)) : Cue.Reveals cue talk place := by
  obtain ⟨i, glyph, hMark, hMem⟩ := hShows
  cases cue with
  | reveal j last =>
    rcases mem_revealEvents hMem with ⟨_, hEq⟩ | ⟨_, hEq⟩ | hEq
    · cases hEq
      exact ⟨i, last, rfl, hMark⟩
    · cases hEq
    · cases hEq
  | fadeEnd j => cases List.mem_singleton.mp hMem
  | closeEnd number => rcases mem_firedEvents_closeEnd hMem with hEq | hEq <;> cases hEq

/-- A reveal shows the entry at its place, if one stands there. -/
theorem shows_of_reveals {talk : Talk} {cue : Cue} {place : Place}
    (hReveals : Cue.Reveals cue talk place) (hSome : (talk.visibleAt? place).isSome) :
    talk.Shows place (talk.firedEvents cue) := by
  obtain ⟨i, last, rfl, hMark⟩ := hReveals
  rw [visibleAt?, Option.isSome_map] at hSome
  obtain ⟨e, hEntry⟩ := Option.isSome_iff_exists.mp hSome
  refine ⟨i, e.glyph?, hMark, List.mem_append_left _ ?_⟩
  rw [shownEvents, marked?_eq_some.mpr ⟨hMark, hEntry⟩]
  exact List.mem_singleton.mpr rfl

/-- Where the reveal of a place fires, its entry is visible; elsewhere visibility stays. -/
theorem visibleAt?_fire (talk : Talk) (cue : Cue) (place : Place) :
    (Cue.Reveals cue talk place →
        (talk.fire cue).visibleAt? place = (talk.visibleAt? place).map fun _ => true) ∧
      (¬ Cue.Reveals cue talk place →
        (talk.fire cue).visibleAt? place = talk.visibleAt? place) := by
  rw [visibleAt?, entryAt?_fire, visibleAt?]
  constructor
  · rintro ⟨i, last, rfl, hMark⟩
    simp only [hMark, if_true]
    cases talk.scrap.entryAt? place <;> rfl
  · intro hNot
    -- the end of a fade and the end of an animation leave visibility alone
    cases cue with
    | reveal i last =>
      have hNe : talk.marks[i]? ≠ some place := fun hMark => hNot ⟨i, last, rfl, hMark⟩
      simp only [hNe, if_false]
    | fadeEnd i =>
      simp only
      split
      · rw [Option.map_map]
        rfl
      · rfl
    | closeEnd number => rfl

/-- A move makes visible what it shows, and leaves all other places as they are. -/
theorem Move.seen {talk later : Talk} {raised : List Event} (hMove : Move talk raised later)
    (place : Place) : Seen place talk raised later := by
  cases hMove with
  | quiet hAlike =>
    have hVisible : later.visibleAt? place = talk.visibleAt? place := by
      rw [visibleAt?, hAlike.scrap]
      rfl
    refine ⟨hAlike.startTime, hAlike.marks, by rw [hVisible]; exact id, fun _ => hVisible,
      fun hShows => absurd hShows (talk.not_shows_nil place), fun hAwaits _ => .inl ?_⟩
    rw [Awaits, hAlike.pending, hAlike.marks]
    exact hAwaits
  | skip hPlaying =>
    exact ⟨rfl, rfl, id, fun _ => rfl, fun hShows => absurd hShows (talk.not_shows_nil place),
      fun hAwaits _ => .inl hAwaits⟩
  | fire hTaken =>
    rename_i cue rest
    obtain ⟨hShown, hUnshown⟩ := visibleAt?_fire { talk with agenda := rest } cue place
    refine ⟨startTime_fire _ _, marks_fire _ _, ?_, fun hNot => ?_, fun hShows => ?_, ?_⟩
    · rw [visibleAt?, visibleAt?, Option.isSome_map, Option.isSome_map]
      exact (Move.fire hTaken).isSome_entryAt?
    · by_cases hReveals : Cue.Reveals cue talk place
      · -- nothing stands at the place
        have hNone : talk.visibleAt? place = none := by
          rw [← Option.not_isSome_iff_eq_none]
          exact fun hSome => hNot (shows_of_reveals hReveals hSome)
        rw [hShown hReveals, hNone]
        show (talk.visibleAt? place).map _ = none
        rw [hNone]
        rfl
      · exact hUnshown hReveals
    · rw [hShown (reveals_of_shows hShows)]
      cases visibleAt? { talk with agenda := rest } place <;> simp
    · rintro ⟨x, hMem, i, last, hEvent, hMark⟩ hSome
      -- either this very reveal fires and shows the place, or it stays
      by_cases hEq : x.event = cue
      · exact .inr (shows_of_reveals ⟨i, last, by rw [← hEq, hEvent], hMark⟩ hSome)
      · refine .inl ⟨x, hTaken.mem_fire hMem hEq, i, last, hEvent, ?_⟩
        rw [marks_fire]
        exact hMark

/-- Through any moves, what is shown becomes visible, and all other places stay as they are. -/
theorem Plays.seen {talk later : Talk} {raised : List Event} (hPlays : Plays talk raised later)
    (place : Place) : Seen place talk raised later := by
  induction hPlays with
  | refl talk => exact Seen.refl place talk
  | move hMove hRest ih => exact (hMove.seen place).trans ih

/-! ## What operations change at a place -/

/-- Writing leaves the visibility of what is there, and adds nothing hidden. -/
theorem Written.visibleAt?_eq_false {talk later : Talk} (hWritten : Written talk later)
    {place : Place} :
    later.visibleAt? place = some false ↔ talk.visibleAt? place = some false := by
  constructor
  · -- what was written is fresh, and so hidden, or it was there before
    intro hHidden
    obtain ⟨e, hEntry, hVisible⟩ := Option.map_eq_some_iff.mp hHidden
    rcases hWritten.scrap.fresh hEntry with hOld | hFresh
    · rw [visibleAt?, hOld, Option.map_some, hVisible]
    · rw [hFresh.1] at hVisible
      cases hVisible
  · intro hHidden
    obtain ⟨e, hEntry, hVisible⟩ := Option.map_eq_some_iff.mp hHidden
    rw [visibleAt?, hWritten.scrap.keeps hEntry, Option.map_some, hVisible]

/-- Pacing hides what it covers. -/
theorem Paced.visibleAt?_of_covers {talk later : Talk} {scope : PaceScope}
    (hPaced : Paced talk scope later) {place : Place}
    (hCovers : scope.covers talk.scrap place = true) : later.visibleAt? place ≠ some true := by
  obtain ⟨timestamp, hTimed⟩ := hPaced.covered hCovers
  rw [visibleAt?, hTimed]
  cases talk.scrap.entryAt? place <;> simp [Entry.timed]

/-- Pacing leaves alone what it does not cover. -/
theorem Paced.visibleAt?_of_not_covers {talk later : Talk} {scope : PaceScope}
    (hPaced : Paced talk scope later) {place : Place}
    (hCovers : scope.covers talk.scrap place = false) :
    later.visibleAt? place = talk.visibleAt? place := by
  rw [visibleAt?, hPaced.others hCovers]
  rfl

theorem visibleAt?_beginClosing {talk : Talk} (hOpen : talk.outcome .closing = none)
    (outcome : Outcome) (place : Place) :
    (talk.beginClosing outcome).2.visibleAt? place = talk.visibleAt? place := by
  obtain ⟨registry, areas, outbox, hEq⟩ := beginClosing_eq hOpen outcome
  rw [hEq, visibleAt?, Scrap.entryAt?_map, Option.map_map]
  rfl

/-- An operation that paces a place hides what stands there. -/
theorem Effect.hides {talk later : Talk} {operation : Operation} {raised : List Event}
    (hEffect : Effect talk operation raised later) {place : Place}
    (hPaces : talk.Paces operation place) :
    raised = [] ∧ later.visibleAt? place ≠ some true := by
  -- only the operations that pace have a scope
  obtain ⟨hOpen, scope, hScope, hCovers⟩ := hPaces
  cases hEffect with
  | plays hOther => rw [hOther] at hScope; cases hScope
  | written hOther =>
    rcases hOther with hOther | hClosing
    · rw [hOther] at hScope; cases hScope
    · exact absurd hOpen hClosing
  | paced hPaced =>
    cases hScope
    exact ⟨rfl, hPaced.visibleAt?_of_covers hCovers⟩
  | wrapped _ hPaced => exact ⟨rfl, hPaced.visibleAt?_of_covers rfl⟩
  | started => cases hScope
  | completed => cases hScope
  | closed hRequest =>
    rw [Operation.scope?_of_requestsClose hRequest] at hScope
    cases hScope

/-- Nothing but the first start sets when a talk was started, and which entries there are to reveal. -/
theorem Effect.startTime_stays {talk later : Talk} {operation : Operation} {raised : List Event}
    (hEffect : Effect talk operation raised later)
    (hNot : operation = .start → talk.startTime ≠ none) :
    later.startTime = talk.startTime ∧ later.marks = talk.marks := by
  cases hEffect with
  | plays _ hPlays =>
    have hSeen := hPlays.seen ⟨0, .terminal⟩
    exact ⟨hSeen.startTime, hSeen.marks⟩
  | written _ hWritten => exact ⟨hWritten.startTime, hWritten.marks⟩
  | paced hPaced => rw [hPaced.rest]; exact ⟨rfl, rfl⟩
  | wrapped hWritten hPaced =>
    rw [hPaced.rest]
    exact ⟨hWritten.startTime, hWritten.marks⟩
  | started _ hFresh => exact absurd hFresh (hNot rfl)
  | completed _ hFresh => exact absurd hFresh (hNot rfl)
  | closed _ outcome hOpen =>
    obtain ⟨registry, areas, outbox, hEq⟩ := beginClosing_eq hOpen outcome
    rw [hEq]
    exact ⟨rfl, rfl⟩

/-- Once a talk was started it stays so, and the entries to reveal keep their numbers. -/
theorem Effect.started_stays {talk later : Talk} {operation : Operation} {raised : List Event}
    (hEffect : Effect talk operation raised later) (hStarted : talk.startTime ≠ none) :
    later.startTime = talk.startTime ∧ later.marks = talk.marks :=
  hEffect.startTime_stays fun _ => hStarted

/-- What is hidden stays so until it is shown. -/
theorem Effect.stays_hidden {talk later : Talk} {operation : Operation} {raised : List Event}
    (hEffect : Effect talk operation raised later) (hStarted : talk.startTime ≠ none)
    {place : Place} (hHidden : talk.visibleAt? place = some false)
    (hNot : ¬ talk.Shows place raised) : later.visibleAt? place = some false := by
  -- pacing hides what it covers, and does not touch what it does not cover
  have hPaced : ∀ {scope : PaceScope} {t u : Talk}, Paced t scope u →
      t.visibleAt? place = some false → u.visibleAt? place = some false := by
    intro scope t u hPaced hHidden
    cases hCovers : scope.covers t.scrap place with
    | true =>
      obtain ⟨timestamp, hTimed⟩ := hPaced.covered hCovers
      obtain ⟨e, hEntry, -⟩ := Option.map_eq_some_iff.mp hHidden
      rw [visibleAt?, hTimed, hEntry]
      rfl
    | false => rw [hPaced.visibleAt?_of_not_covers hCovers, hHidden]
  cases hEffect with
  | plays _ hPlays => rw [(hPlays.seen place).unshown hNot, hHidden]
  | written _ hWritten => exact hWritten.visibleAt?_eq_false.mpr hHidden
  | paced h => exact hPaced h hHidden
  | wrapped hWritten h => exact hPaced h (hWritten.visibleAt?_eq_false.mpr hHidden)
  | started _ hFresh => exact absurd hFresh hStarted
  | completed _ hFresh => exact absurd hFresh hStarted
  | closed _ outcome hOpen => rw [visibleAt?_beginClosing hOpen, hHidden]

/-- What is hidden in an open talk was just paced, or was hidden before and not shown; a reveal that
was to come then is still to come. -/
theorem Effect.hidden_before {talk later : Talk} {operation : Operation} {raised : List Event}
    (hEffect : Effect talk operation raised later) (hStarted : talk.startTime ≠ none)
    (hOpen : later.outcome .closing = none) {place : Place}
    (hHidden : later.visibleAt? place = some false) :
    talk.Paces operation place ∨
      talk.visibleAt? place = some false ∧ ¬ talk.Shows place raised ∧
        (talk.Awaits place → later.Awaits place) := by
  cases hEffect with
  | plays _ hPlays =>
    -- moves that had shown the place would have made it visible
    have hSeen := hPlays.seen place
    have hNot : ¬ talk.Shows place raised := fun hShows => hSeen.shown hShows hHidden
    have hBefore : talk.visibleAt? place = some false := by rw [← hSeen.unshown hNot, hHidden]
    refine .inr ⟨hBefore, hNot, fun hAwaits => ?_⟩
    rcases hSeen.awaits hAwaits (by rw [hBefore]; rfl) with hStill | hShows
    · exact hStill
    · exact absurd hShows hNot
  | written _ hWritten =>
    refine .inr ⟨hWritten.visibleAt?_eq_false.mp hHidden, talk.not_shows_nil place,
      fun hAwaits => ?_⟩
    rw [Awaits, hWritten.agenda, hWritten.marks]
    exact hAwaits
  | @paced scope _ hPaced =>
    -- paced just now, or left alone
    cases hCovers : scope.covers talk.scrap place with
    | true => exact .inl ⟨hPaced.isOpen, scope, rfl, hCovers⟩
    | false =>
      rw [hPaced.visibleAt?_of_not_covers hCovers] at hHidden
      refine .inr ⟨hHidden, talk.not_shows_nil place, fun hAwaits => ?_⟩
      rw [hPaced.rest]
      exact hAwaits
  | wrapped hWritten hPaced =>
    refine .inl ⟨?_, .whole, rfl, rfl⟩
    rw [outcome_eq, ← hWritten.lifecycle]
    exact hPaced.isOpen
  | started _ hFresh => exact absurd hFresh hStarted
  | completed _ hFresh => exact absurd hFresh hStarted
  | closed _ outcome hClosing =>
    rw [outcome_beginClosing hClosing] at hOpen
    cases hOpen

/-- Right after the start, what is hidden is still to be revealed. -/
theorem Effect.awaits_at_start {talk later : Talk} {operation : Operation} {raised : List Event}
    (hEffect : Effect talk operation raised later) (hFresh : talk.startTime = none)
    (hStarted : later.startTime ≠ none) {place : Place}
    (hHidden : later.visibleAt? place = some false) : later.Awaits place := by
  cases hEffect with
  | plays _ hPlays => exact absurd ((hPlays.seen place).startTime.trans hFresh) hStarted
  | written _ hWritten => exact absurd (hWritten.startTime.trans hFresh) hStarted
  | paced hPaced => rw [hPaced.rest] at hStarted; exact absurd hFresh hStarted
  | wrapped hWritten hPaced =>
    rw [hPaced.rest] at hStarted
    exact absurd (hWritten.startTime.trans hFresh) hStarted
  | started _ _ _ hPlays =>
    have hSeen := hPlays.seen place
    have hNot : ¬ (talk.plan talk.startsAt).Shows place raised :=
      fun hShows => hSeen.shown hShows hHidden
    have hBefore : (talk.plan talk.startsAt).visibleAt? place = some false := by
      rw [← hSeen.unshown hNot, hHidden]
    -- every entry of the text was put on the agenda
    obtain ⟨e, hEntry, -⟩ := Option.map_eq_some_iff.mp hBefore
    have hPlace : place ∈ talk.scrap.places := Scrap.mem_places_iff.mpr ⟨e, hEntry⟩
    obtain ⟨i, hi, hMark⟩ := List.mem_iff_getElem.mp hPlace
    obtain ⟨x, hMem, last, hEvent⟩ := talk.exists_mem_pending_plan talk.startsAt
      (by rwa [talk.scrap.length_places] at hi)
    have hAwaits : (talk.plan talk.startsAt).Awaits place :=
      ⟨x, hMem, i, last, hEvent, by rw [← hMark]; exact List.getElem?_eq_getElem hi⟩
    rcases hSeen.awaits hAwaits (by rw [hBefore]; rfl) with hStill | hShows
    · exact hStill
    · exact absurd hShows hNot
  | completed _ _ hEmpty =>
    obtain ⟨outbox, hPlayed⟩ := (talk.plan talk.startsAt).markPlayed_eq .resolved
    rw [hPlayed] at hHidden
    obtain ⟨e, hEntry, -⟩ := Option.map_eq_some_iff.mp hHidden
    -- a text without entries has nothing that could be hidden
    have hMem : e ∈ talk.scrap.entries := Scrap.mem_entries_iff.mpr ⟨place, hEntry⟩
    rw [hEmpty] at hMem
    cases hMem
  | closed _ outcome hOpen =>
    obtain ⟨registry, areas, outbox, hEq⟩ := beginClosing_eq hOpen outcome
    rw [hEq] at hStarted
    exact absurd hFresh hStarted

theorem started_after {talk : Talk} {operations : List Operation} (more : List Operation)
    (hStarted : (talk.after operations).startTime ≠ none) :
    (talk.after (operations ++ more)).startTime ≠ none := by
  induction more using List.reverseRecOn with
  | nil => rwa [List.append_nil]
  | append_singleton more operation ih =>
    obtain ⟨raised, hEffect, -⟩ := talk.effect_after (operations ++ more) operation
    rw [← List.append_assoc, (hEffect.started_stays ih).1]
    exact ih

/-! ## What is hidden for good -/

/-- After the start, something paced the entry at a place, and it was not shown since. -/
def HiddenSince (talk : Talk) (operations : List Operation) (place : Place) : Prop :=
  ∃ earlier operation later raised, operations = earlier ++ operation :: later ∧
    (talk.after earlier).startTime ≠ none ∧ (talk.after earlier).Paces operation place ∧
    ((talk.after (earlier ++ [operation])).scrap.entryAt? place).isSome ∧
    talk.history operations = talk.history (earlier ++ [operation]) ++ raised ∧
    ¬ (talk.after operations).Shows place raised

/-- What was paced after the start and not shown since is hidden. -/
theorem hidden_of_hiddenSince {talk : Talk} {operations : List Operation} {place : Place}
    (h : HiddenSince talk operations place) :
    (talk.after operations).visibleAt? place = some false := by
  obtain ⟨earlier, operation, later, raised, rfl, hStarted, hPaces, hSome, hHistory, hNot⟩ := h
  -- the operations that came later, one by one
  induction later using List.reverseRecOn generalizing raised with
  | nil =>
    -- right after the pacing
    obtain ⟨news, hEffect, -⟩ := talk.effect_after earlier operation
    obtain ⟨-, hHides⟩ := hEffect.hides hPaces
    obtain ⟨e, hEntry⟩ := Option.isSome_iff_exists.mp hSome
    rw [visibleAt?, hEntry, Option.map_some] at hHides ⊢
    cases hVisible : e.visible with
    | false => rfl
    | true => exact absurd (by rw [hVisible]) hHides
  | append_singleton later next ih =>
    have hOperations : earlier ++ operation :: (later ++ [next]) =
        (earlier ++ operation :: later) ++ [next] := by simp
    rw [hOperations] at hHistory hNot ⊢
    obtain ⟨news, hEffect, hNews⟩ := talk.effect_after (earlier ++ operation :: later) next
    obtain ⟨middle, hMiddle⟩ := talk.history_append (earlier ++ [operation]) later
    rw [List.append_assoc, List.singleton_append] at hMiddle
    -- what was raised since is what the last operation raised and what came before it
    rw [hNews, hMiddle, List.append_assoc, List.append_cancel_left_eq] at hHistory
    have hStill := started_after (operation :: later) hStarted
    obtain ⟨-, hMarks⟩ := hEffect.started_stays hStill
    rw [← hHistory, shows_append, not_or, shows_congr hMarks, shows_congr hMarks] at hNot
    exact hEffect.stays_hidden hStill (ih middle hMiddle hNot.1) hNot.2

/-- One more operation that does not show the place leaves it hidden since. -/
theorem HiddenSince.append {talk : Talk} {operations : List Operation} {place : Place}
    (h : HiddenSince talk operations place) {next : Operation} {news : List Event}
    (hNews : talk.history (operations ++ [next]) = talk.history operations ++ news)
    (hMarks : (talk.after (operations ++ [next])).marks = (talk.after operations).marks)
    (hNot : ¬ (talk.after operations).Shows place news) :
    HiddenSince talk (operations ++ [next]) place := by
  obtain ⟨earlier, operation, later, raised, rfl, hStarted, hPaces, hSome, hHistory, hBefore⟩ := h
  refine ⟨earlier, operation, later ++ [next], raised ++ news, by simp, hStarted, hPaces, hSome,
    ?_, ?_⟩
  · rw [hNews, hHistory, List.append_assoc]
  · rw [shows_append, not_or, shows_congr hMarks, shows_congr hMarks]
    exact ⟨hBefore, hNot⟩

/-- What is hidden in an open talk that was started was paced after the start and not shown since, or is
still to be revealed. -/
theorem hidden_cases {talk : Talk} (hFresh : talk.startTime = none) {operations : List Operation}
    {place : Place} (hStarted : (talk.after operations).startTime ≠ none)
    (hOpen : (talk.after operations).outcome .closing = none)
    (hHidden : (talk.after operations).visibleAt? place = some false) :
    HiddenSince talk operations place ∨ (talk.after operations).Awaits place := by
  induction operations using List.reverseRecOn with
  | nil => exact absurd hFresh hStarted
  | append_singleton operations operation ih =>
    obtain ⟨news, hEffect, hNews⟩ := talk.effect_after operations operation
    -- started by this very operation, or before it
    by_cases hBefore : (talk.after operations).startTime = none
    · exact .inr (hEffect.awaits_at_start hBefore hStarted hHidden)
    obtain ⟨-, hMarks⟩ := hEffect.started_stays hBefore
    rcases hEffect.hidden_before hBefore hOpen hHidden with hPaces | ⟨hStill, hNot, hAwaits⟩
    · refine .inl ⟨operations, operation, [], [], rfl, hBefore, hPaces, ?_, (List.append_nil _).symm,
        not_shows_nil _ _⟩
      obtain ⟨e, hEntry, -⟩ := Option.map_eq_some_iff.mp hHidden
      rw [hEntry]
      rfl
    · -- a talk that is open now was open before
      have hWasOpen : (talk.after operations).outcome .closing = none := by
        cases hClosing : (talk.after operations).outcome .closing with
        | none => rfl
        | some outcome =>
          rw [hEffect.settled hClosing] at hOpen
          cases hOpen
      rcases ih hBefore hWasOpen hStill with hSince | hAwaited
      · exact .inl (hSince.append hNews hMarks hNot)
      · exact .inr (hAwaits hAwaited)

/-- Whatever is done to a talk: where it was started, is open, and has nothing left to do, an entry is
hidden exactly if it was paced after the start and not shown since. -/
theorem hidden_iff_hiddenSince (registry : Registry) {options : Options}
    (hValid : options.Valid) :
    ∃ talk, Talk.create registry options = .ok talk ∧ ∀ operations,
      (talk.after operations).startTime ≠ none →
      (talk.after operations).outcome .closing = none →
      (talk.after operations).nextDue = none →
      ∀ place e, (talk.after operations).scrap.entryAt? place = some e →
        (e.visible = false ↔ HiddenSince talk operations place) := by
  obtain ⟨talk, hCreate, -, hNew⟩ := exists_create registry hValid
  refine ⟨talk, hCreate, fun operations hStarted hOpen hDue place e hEntry => ?_⟩
  have hVisible : (talk.after operations).visibleAt? place = some false ↔ e.visible = false := by
    rw [visibleAt?, hEntry, Option.map_some, Option.some.injEq]
  rw [← hVisible]
  constructor
  · intro hHidden
    -- nothing is pending any more, so the place cannot be awaited
    rcases hidden_cases hNew.startTime hStarted hOpen hHidden with hSince | ⟨x, hMem, -⟩
    · exact hSince
    · have hNone : (talk.after operations).agenda.pending = [] := Agenda.nextDue_eq_none.mp hDue
      rw [hNone] at hMem
      cases hMem
  · exact hidden_of_hiddenSince

/-- A text that is paced once more after it was shown to its end. -/
def pacedAgain : List Operation :=
  [.direct (.beginSection none), .wrapUp, .start, .skip, .pace .whole]

theorem hidden_iff_hiddenSince_pacedAgain :
    Options.standard.Valid ∧
    ∃ talk, Talk.create .empty .standard = .ok talk ∧
      (talk.after pacedAgain).startTime ≠ none ∧ (talk.after pacedAgain).outcome .closing = none ∧
      (talk.after pacedAgain).nextDue = none ∧
      ∃ e, (talk.after pacedAgain).scrap.entryAt? ⟨0, .terminal⟩ = some e ∧
        (e.visible = false ↔ HiddenSince talk pacedAgain ⟨0, .terminal⟩) := by
  obtain ⟨talk, hCreate, hHidden⟩ :=
    hidden_iff_hiddenSince .empty (show Options.standard.Valid by decide)
  have hState : (talk.after pacedAgain).startTime ≠ none ∧
      (talk.after pacedAgain).outcome .closing = none ∧
      (talk.after pacedAgain).nextDue = none ∧
      ((talk.after pacedAgain).scrap.entryAt? ⟨0, .terminal⟩).isSome := by
    cases hCreate
    decide
  obtain ⟨hStarted, hOpen, hDue, hSome⟩ := hState
  obtain ⟨e, hEntry⟩ := Option.isSome_iff_exists.mp hSome
  exact ⟨by decide, talk, hCreate, hStarted, hOpen, hDue, e, hEntry,
    hHidden pacedAgain hStarted hOpen hDue _ e hEntry⟩

/-- An open talk that was started and has nothing left to do, with an entry that is hidden. -/
theorem hidden_with_nothing_due :
    ∃ talk, Talk.create .empty .standard = .ok talk ∧
      (talk.after pacedAgain).startTime ≠ none ∧ (talk.after pacedAgain).outcome .closing = none ∧
      (talk.after pacedAgain).nextDue = none ∧
      ∃ e ∈ (talk.after pacedAgain).scrap.entries, e.visible = false := by
  refine ⟨_, rfl, by decide, by decide, by decide, ?_⟩
  decide

end Dialogue.Talk
