import Dialogue.Proofs.Talk.Outlook

/-!
# Skipping

A skip shows all that is still to come at once, without fades and without emotes. Played to its end, the
talk then is the one that it would have become without the skip: the entries come up in the same order,
and the scrap and the areas are the same. What is left out are the emotes and the fades of the entries
that the skip showed.

Main results:

* `Talk.Still` — what is shown without animation.
* `Talk.Ticks.of_fades` — the fades that go on after a skip come to their end.
* `Talk.skip_fast_forwards` — the two ways to the end compared.
-/

namespace Dialogue.Talk

/-- The entries whose fade is still to end, in the order in which the fades end. -/
def fadesLeft (talk : Talk) : List Nat := talk.agenda.pending.filterMap fun x => x.event.faded?

/-! ## Showing without animation -/

/-- What showing entries without animation leaves alone, and which events it raises. -/
structure Still (talk : Talk) (raised : List Event) (later : Talk) : Prop where
  events : later.events = talk.events ++ raised
  areas : later.areas = talk.areas
  emotes : later.outbox.emotes = talk.outbox.emotes
  agenda : later.agenda = talk.agenda
  play : later.outcome .play = talk.outcome .play
  only : ∀ event ∈ raised, (∃ i glyph, event = .shown i glyph) ∨ event = .played .resolved

theorem Still.refl (talk : Talk) : Still talk [] talk :=
  ⟨(List.append_nil _).symm, rfl, rfl, rfl, rfl, fun _ hMem => by cases hMem⟩

/-- A talk stands still over two stretches if it does over each. -/
theorem Still.trans {first second third : Talk} {raised more : List Event}
    (h : Still first raised second) (h' : Still second more third) :
    Still first (raised ++ more) third where
  events := by rw [h'.events, h.events, List.append_assoc]
  areas := h'.areas.trans h.areas
  emotes := h'.emotes.trans h.emotes
  agenda := h'.agenda.trans h.agenda
  play := h'.play.trans h.play
  only event hMem := by
    rcases List.mem_append.mp hMem with hMem | hMem
    · exact h.only event hMem
    · exact h'.only event hMem

/-- A reveal in a skipped text moves nothing but what is shown. -/
theorem still_reveal {talk : Talk} (hSkipped : talk.outcome .play ≠ none) (entry : Nat)
    (last : Bool) : ∃ raised, Still talk raised (talk.reveal entry last) := by
  have hStill := not_animates_of_skipped hSkipped
  have hShow : Still talk (talk.shownEvents entry) (talk.showEntry entry) := by
    refine ⟨?_, ?_, ?_, ?_, ?_, fun event hMem => ?_⟩
    · rw [showEntry_eq]
    · rw [showEntry_eq]
    · rw [showEntry_eq]
    · rw [showEntry_eq]
    · rw [showEntry_eq]
      rfl
    · obtain ⟨glyph, rfl⟩ := mem_shownEvents hMem
      exact .inl ⟨entry, glyph, rfl⟩
  unfold reveal
  simp only [hStill, Bool.false_eq_true, if_false]
  split
  · -- the last entry completes the text, which is told to observers
    have hPlayed : Still (talk.showEntry entry) ((talk.showEntry entry).playedEvents .resolved)
        ((talk.showEntry entry).markPlayed .resolved) := by
      obtain ⟨outbox, hMark⟩ := (talk.showEntry entry).markPlayed_eq .resolved
      refine ⟨?_, ?_, ?_, agenda_markPlayed _ _, ?_,
        fun event hMem => .inr (mem_playedEvents hMem)⟩
      · rw [hMark]
      · rw [hMark]
      · unfold markPlayed
        split <;> rfl
      · rw [outcome_markPlayed]
        rfl
    exact ⟨_, hShow.trans hPlayed⟩
  · exact ⟨_, hShow⟩

/-- Cues after which a skipped text stands still, one after the other. -/
theorem still_foldl {step : Talk → Cue → Talk}
    (hStep : ∀ talk cue, talk.outcome .play ≠ none → ∃ raised, Still talk raised (step talk cue))
    {talk : Talk} (hSkipped : talk.outcome .play ≠ none) (cues : List Cue) :
    ∃ raised, Still talk raised (cues.foldl step talk) := by
  induction cues generalizing talk with
  | nil => exact ⟨[], .refl talk⟩
  | cons cue rest ih =>
    obtain ⟨raised, hStill⟩ := hStep talk cue hSkipped
    obtain ⟨more, hRest⟩ := ih (by rw [hStill.play]; exact hSkipped)
    exact ⟨raised ++ more, hStill.trans hRest⟩

/-- Showing the rest of a text that was skipped strikes all reveals out. -/
theorem still_revealRest {talk : Talk} (hSkipped : talk.outcome .play ≠ none) :
    ∃ raised, Still { talk with agenda := talk.agenda.cancel Cue.isReveal } raised
      talk.revealRest := by
  have hStruck : { talk with agenda := talk.agenda.cancel Cue.isReveal }.outcome .play ≠ none :=
    hSkipped
  unfold revealRest
  refine still_foldl (fun t cue hSettled => ?_) hStruck _
  cases cue with
  | reveal entry last => exact still_reveal hSettled entry last
  | fadeEnd entry => exact ⟨[], .refl t⟩
  | closeEnd number => exact ⟨[], .refl t⟩

/-- A skip of a talk that was started shows the rest, once `play` is resolved. -/
theorem skip_eq {talk : Talk} (hPlay : talk.outcome .play = none) (hStarted : talk.startTime ≠ none) :
    talk.skip =
      (true, ((talk.settle .play .resolved).report .debug "play resolved").revealRest) := by
  have hSome : talk.startTime.isSome = true := Option.isSome_iff_ne_none.mpr hStarted
  unfold skip
  simp [isPending_eq, hPlay, settle, report, hSome]

/-- After the settlement `play` is not pending any more. -/
theorem play_settle (talk : Talk) (outcome : Outcome) :
    (talk.settle .play outcome).outcome .play ≠ none := by
  rw [outcome_settle]
  simp

/-- What a skip does to a talk that was started. -/
theorem skip_still {talk : Talk} (hPlay : talk.outcome .play = none)
    (hStarted : talk.startTime ≠ none) :
    talk.skip.1 = true ∧ ∃ raised,
      Still { talk.settle .play .resolved with agenda := talk.agenda.cancel Cue.isReveal } raised
        talk.skip.2 := by
  have hSettled : ((talk.settle .play .resolved).report .debug "play resolved").outcome .play ≠
      none := talk.play_settle .resolved
  obtain ⟨raised, hStill⟩ := still_revealRest hSettled
  rw [skip_eq hPlay hStarted]
  exact ⟨rfl, raised, hStill.events, hStill.areas, hStill.emotes, hStill.agenda, hStill.play,
    hStill.only⟩

/-! ## The clock of an open talk -/

/-- Playback has nothing to do with areas. -/
theorem areas_fire {talk : Talk} {cue : Cue} (hPlayback : cue.isPlayback = true) :
    (talk.fire cue).areas = talk.areas := by
  cases cue with
  | reveal entry last =>
    obtain ⟨outbox, hReveal⟩ := talk.reveal_eq entry last
    rw [fire, hReveal]
  | fadeEnd entry => rw [fire, endFade_eq]
  | closeEnd number => cases hPlayback

/-- No tick of the clock changes the areas of an open talk. -/
theorem Ticks.areas {talk last : Talk} {timed : List (Millis × Event)}
    (hTicks : Ticks talk timed last) (hOpen : Open talk) : last.areas = talk.areas := by
  induction hTicks with
  | refl talk => rfl
  | @fire talk rest last limit cue timed hPop hRest ih =>
    obtain ⟨agenda, hTaken, rfl⟩ := taken_of_pop? hPop
    obtain ⟨due, hMem⟩ := hTaken.mem
    rw [ih (hOpen.move (.fire hTaken)), areas_fire (hOpen.playback _ hMem)]
  | @wait talk last time timed hPop hRest ih => exact ih (hOpen.move (.quiet (talk.alike_clockTo time)))
  | @collect talk last timed hRest ih => exact ih (hOpen.move (.quiet talk.alike_collectEvents))

/-- Without its reveals, an open talk only ends fades. -/
theorem Open.fadeEnd_of_cancel {talk : Talk} (h : Open talk) :
    ∀ x ∈ (talk.agenda.cancel Cue.isReveal).pending, ∃ i, x.event = .fadeEnd i := by
  intro x hMem
  obtain ⟨hMem, hReveal⟩ := List.mem_filter.mp hMem
  have hPlayback := h.playback x hMem
  cases hEvent : x.event with
  | reveal entry last => rw [hEvent] at hReveal; cases hReveal
  | fadeEnd entry => exact ⟨entry, rfl⟩
  | closeEnd number => rw [hEvent] at hPlayback; cases hPlayback

/-- Striking out reveals leaves the fades as they are. -/
theorem fadesLeft_of_cancel {talk later : Talk}
    (hAgenda : later.agenda = talk.agenda.cancel Cue.isReveal) :
    later.fadesLeft = talk.fadesLeft := by
  rw [fadesLeft, fadesLeft, hAgenda, Agenda.cancel, List.filterMap_filter]
  refine List.filterMap_congr fun x _ => ?_
  cases x.event <;> rfl

/-- Where only fades go on, they end in their order, and nothing else happens. -/
theorem Ticks.of_fades {talk last : Talk} {timed : List (Millis × Event)}
    (hTicks : Ticks talk timed last)
    (hFades : ∀ x ∈ talk.agenda.pending, ∃ i, x.event = .fadeEnd i)
    (hDone : last.agenda.pending = []) :
    timed.map Prod.snd = talk.fadesLeft.map Event.faded ∧
      last.outbox.emotes = talk.outbox.emotes := by
  induction hTicks with
  | refl talk =>
    refine ⟨?_, rfl⟩
    rw [fadesLeft, hDone]
    rfl
  | @fire talk rest last limit cue timed hPop hRest ih =>
    obtain ⟨next, agenda, hPending, -, -, rfl, rfl⟩ := pop?_eq_some hPop
    rw [hPending] at hFades
    obtain ⟨i, hEvent⟩ := hFades next (List.mem_cons_self ..)
    rw [hEvent] at ih hRest ⊢
    -- the other fades are left as they are
    have hLeft : ({ talk with agenda }.fire (.fadeEnd i)).agenda = agenda := agenda_endFade ..
    obtain ⟨hEvents, hEmotes⟩ := ih (by
      rw [hLeft]
      exact fun x hMem => hFades x (List.mem_cons_of_mem _ hMem)) hDone
    have hHead : next.event.faded? = some i := by
      rw [hEvent]
      rfl
    refine ⟨?_, ?_⟩
    · rw [List.map_append, hEvents, fadesLeft, fadesLeft, hLeft, hPending]
      simp [hHead, firedEvents]
    · rw [hEmotes, Talk.fire, endFade_eq]
  -- the clock alone ends no fading
  | wait hPop hRest ih => exact ih hFades hDone
  | collect hRest ih => exact ih hFades hDone

/-- A fade that is left ends with a cue on the agenda. -/
theorem exists_of_mem_fadesLeft {talk : Talk} {i : Nat} (hMem : i ∈ talk.fadesLeft) :
    ∃ x ∈ talk.agenda.pending, x.event = .fadeEnd i := by
  obtain ⟨x, hPending, hCue⟩ := List.mem_filterMap.mp hMem
  refine ⟨x, hPending, ?_⟩
  cases hEvent : x.event with
  | fadeEnd entry =>
    rw [hEvent] at hCue
    cases hCue
    rfl
  | reveal entry last => rw [hEvent] at hCue; cases hCue
  | closeEnd number => rw [hEvent] at hCue; cases hCue

/-! ## Two ways to the end -/

/-- From any talk that was started and neither skipped nor asked to close: whether it is played out, or
skipped first, the same entries come up in the same order, and in the end the scraps are the same and so
are the areas, and the text is complete. After the skip no emote is performed, and the only fades that
still end are those of entries that had been shown before. -/
theorem skip_fast_forwards {registry : Registry} {options : Options} {first talk : Talk}
    {told : List Event} (hCreate : Talk.create registry options = .ok first)
    (hTells : Tells first told talk) (hStarted : talk.startTime ≠ none)
    (hPlay : talk.outcome .play = none) (hClosing : talk.outcome .closing = none) :
    talk.skip.1 = true ∧ ∃ played skipped,
      talk.playOut.1 = talk.events ++ played ∧
      talk.skip.2.playOut.1 = talk.events ++ skipped ∧
      skipped.filterMap Event.shownGlyph? = played.filterMap Event.shownGlyph? ∧
      talk.skip.2.playOut.2.scrap = talk.playOut.2.scrap ∧
      talk.skip.2.playOut.2.areas = talk.playOut.2.areas ∧
      talk.playOut.2.outcome .played = some .resolved ∧
      talk.skip.2.playOut.2.outcome .played = some .resolved ∧
      (∀ i name, .emote i name ∉ skipped) ∧
      talk.skip.2.playOut.2.outbox.emotes = talk.outbox.emotes ∧
      skipped.filterMap Event.faded? = talk.fadesLeft ∧
      ∀ i ∈ talk.fadesLeft, ∃ glyph, .shown i glyph ∈ told ++ talk.events := by
  obtain ⟨-, hNew, -⟩ := of_create hCreate
  have hOpen := (hTells.reachable hCreate).isOpen hClosing
  obtain ⟨before, hIdle, hUnderway⟩ := hTells.exists_underway hNew hStarted
  -- the one way
  obtain ⟨timed, hTicks, hPlayed, -, hDone⟩ := talk.ticks_playOut
  -- and the other one
  obtain ⟨hNews, shown, hStill⟩ := skip_still hPlay hStarted
  obtain ⟨shown', hSkips, hShown'⟩ := talk.skip_plays
  have hSame : shown' = shown := List.append_cancel_left (hShown'.symm.trans hStill.events)
  subst hSame
  obtain ⟨faded, hFades, hSkipped, -, hDone'⟩ := talk.skip.2.ticks_playOut
  have hAgenda : talk.skip.2.agenda = talk.agenda.cancel Cue.isReveal := hStill.agenda
  obtain ⟨hFaded, hEmotes⟩ := hFades.of_fades
    (by rw [hAgenda]; exact hOpen.fadeEnd_of_cancel) hDone'
  rw [fadesLeft_of_cancel hAgenda] at hFaded
  rw [hFaded] at hSkipped
  -- both ways are moves from the same talk
  have hWay := hTicks.plays
  have hOther := hSkips.trans hFades.plays
  rw [hFaded] at hOther
  have hEnd := hWay.keeps (Underway.invariant hIdle).move hUnderway
  have hEnd' := hOther.keeps (Underway.invariant hIdle).move hUnderway
  have hOpenEnd := hWay.isOpen hOpen
  have hOpenEnd' := hOther.isOpen hOpen
  refine ⟨hNews, timed.map Prod.snd, shown' ++ talk.fadesLeft.map Event.faded, hPlayed, ?_, ?_,
    hOther.scrap_eq hWay hDone' hDone, ?_, hEnd.played_eq hOpenEnd hDone,
    hEnd'.played_eq hOpenEnd' hDone', fun i name hMem => ?_, hEmotes.trans hStill.emotes, ?_,
    fun i hMem => ?_⟩
  · rw [hSkipped, hShown', List.append_assoc]
  · -- all entries come up in the one order, and some of them were shown before
    have hAll := hEnd.shownGlyph_of_done hOpenEnd.closing hDone
    have hAll' := hEnd'.shownGlyph_of_done hOpenEnd'.closing hDone'
    rw [List.filterMap_append] at hAll hAll'
    exact List.append_cancel_left (hAll'.trans hAll.symm)
  · rw [hTicks.areas hOpen, hFades.areas (hSkips.isOpen hOpen), hStill.areas]
    rfl
  · rcases List.mem_append.mp hMem with hMem | hMem
    · rcases hStill.only _ hMem with ⟨_, _, hEq⟩ | hEq <;> cases hEq
    · obtain ⟨_, -, hEq⟩ := List.mem_map.mp hMem
      cases hEq
  · -- the skip itself ends no fade
    have hNone : shown'.filterMap Event.faded? = [] := by
      refine List.filterMap_eq_nil_iff.mpr fun event hMem => ?_
      rcases hStill.only event hMem with ⟨_, _, rfl⟩ | rfl <;> rfl
    rw [List.filterMap_append, hNone, List.nil_append, List.filterMap_map]
    exact List.filterMap_some
  · obtain ⟨x, hPending, hEvent⟩ := exists_of_mem_fadesLeft hMem
    exact hUnderway.fades x hPending i hEvent

/-- A word with an emote that was started. -/
def waving : List Operation :=
  [.direct (.speak "Hi"), .direct (.emote "wave"), .wrapUp, .start]

/-- A wave that has not come up yet is left out by the skip. -/
theorem skip_fast_forwards_waving :
    ∃ first, Talk.create .empty .standard = .ok first ∧
      (first.after waving).startTime ≠ none ∧ (first.after waving).outcome .play = none ∧
      (first.after waving).outcome .closing = none ∧
      (first.after waving).skip.2.playOut.2.scrap = (first.after waving).playOut.2.scrap ∧
      (first.after waving).skip.2.playOut.2.outbox.emotes = [] := by
  obtain ⟨first, hCreate⟩ : ∃ first, Talk.create .empty .standard = .ok first := ⟨_, rfl⟩
  have hStarted : (first.after waving).startTime ≠ none := by
    cases hCreate
    decide
  have hPlay : (first.after waving).outcome .play = none := by
    cases hCreate
    decide
  have hClosing : (first.after waving).outcome .closing = none := by
    cases hCreate
    decide
  obtain ⟨-, played, skipped, -, -, -, hScrap, -, -, -, -, hEmotes, -⟩ :=
    skip_fast_forwards hCreate (.of_after first waving) hStarted hPlay hClosing
  have hNone : (first.after waving).outbox.emotes = [] := by
    cases hCreate
    decide
  exact ⟨first, hCreate, hStarted, hPlay, hClosing, hScrap, hEmotes.trans hNone⟩

end Dialogue.Talk
