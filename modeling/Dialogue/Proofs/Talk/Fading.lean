import Dialogue.Proofs.Talk.Chronicle
import Dialogue.Proofs.Talk.Voicing

/-!
# Fades

An entry that is shown while `play` is pending is *aired*: it fades in, and its emote is performed. Its
flag is set until the fade ends, the end of the fade stands on the agenda, and when it comes up an event
says so. What is shown after a skip is not aired, pacing takes flags back, and closing strikes all ends out.

Main results:

* `Talk.Fading.extend` — what any events add to what was aired.
* `Talk.Fading.move` — what each move adds.
* `Talk.Fading.invariant_playing`, `Talk.Fading.invariant_skipped` — all that is shown is aired until the
  text is skipped, and nothing from then on.
-/

namespace Dialogue.Talk

/-! ## The ends of fades on the agenda -/

/-- What a cue leaves, counted by the entries whose fade it ends. -/
theorem Taken.count_fadesLeft {talk : Talk} {cue : Cue} {rest : Agenda Cue}
    (hTaken : Taken talk.agenda cue rest) (i : Nat) :
    talk.fadesLeft.count i =
      cue.faded?.toList.count i + (fadesLeft { talk with agenda := rest }).count i := by
  obtain ⟨due, hPerm⟩ := hTaken.exists_perm
  rw [fadesLeft, (hPerm.filterMap _).count_eq, List.filterMap_cons]
  cases cue.faded? with
  | none => simp [fadesLeft]
  | some entry => simp [fadesLeft, List.count_cons, Nat.add_comm]

/-- A reveal starts a fade if the talk animates, and no other cue does. -/
theorem count_fadesLeft_fire (talk : Talk) (cue : Cue) (i : Nat) :
    (talk.fire cue).fadesLeft.count i =
      talk.fadesLeft.count i + if talk.animates then cue.revealed?.toList.count i else 0 := by
  cases cue with
  | reveal entry last =>
    obtain ⟨outbox, hReveal⟩ := talk.reveal_eq entry last
    rw [fire, hReveal]
    -- a reveal schedules the end of its fading, unless it is not animated
    by_cases hAnimates : talk.animates
    · simp only [hAnimates, if_true, fadesLeft, Agenda.pending_schedule]
      rw [((Agenda.perm_insertLast _ _).filterMap _).count_eq]
      simp [Cue.faded?, Cue.revealed?, List.count_cons]
    · simp [hAnimates, fadesLeft]
  | fadeEnd entry =>
    rw [fire, fadesLeft, agenda_endFade]
    simp [Cue.revealed?, fadesLeft]
  | closeEnd number =>
    rw [fire, fadesLeft, agenda_endClosing]
    simp [Cue.revealed?, fadesLeft]

/-- The fades that are left after a cue is taken and fires, and the one it ends, are those from before, and
the one it starts. -/
theorem Taken.count_fadesLeft_fire {talk : Talk} {cue : Cue} {rest : Agenda Cue}
    (hTaken : Taken talk.agenda cue rest) (i : Nat) :
    ({ talk with agenda := rest }.fire cue).fadesLeft.count i + cue.faded?.toList.count i =
      talk.fadesLeft.count i + if talk.animates then cue.revealed?.toList.count i else 0 := by
  have hFire := Talk.count_fadesLeft_fire { talk with agenda := rest } cue i
  have hRest := hTaken.count_fadesLeft i
  have hAnimates : animates { talk with agenda := rest } = talk.animates := rfl
  rw [hAnimates] at hFire
  omega

/-- After a reveal one more fade is left if the talk animates. -/
theorem Taken.count_fadesLeft_reveal {talk : Talk} {entry : Nat} {last : Bool} {rest : Agenda Cue}
    (hTaken : Taken talk.agenda (.reveal entry last) rest) (i : Nat) :
    ({ talk with agenda := rest }.fire (.reveal entry last)).fadesLeft.count i =
      talk.fadesLeft.count i + (if talk.animates then [entry] else []).count i := by
  have hFire := hTaken.count_fadesLeft_fire i
  split <;> rename_i hAnimates <;> simpa [Cue.faded?, Cue.revealed?, hAnimates] using hFire

/-- A talk that is closing ends no fades. -/
theorem Ending.fadesLeft {talk : Talk} (h : Ending talk) : talk.fadesLeft = [] := by
  refine List.filterMap_eq_nil_iff.mpr fun x hMem => ?_
  have hPlayback := h.playback x hMem
  cases hEvent : x.event with
  | fadeEnd entry =>
    rw [hEvent] at hPlayback
    cases hPlayback
  | reveal entry last => rfl
  | closeEnd number => rfl

/-! ## What is raised -/

/-- Events without showing end no fades. -/
theorem faded_eq_nil {events : List Event} (h : ∀ event ∈ events, event.isShowing = false) :
    events.filterMap Event.faded? = [] :=
  filterMap_eq_nil_of_not_showing
    (fun event hShowing => by cases event <;> first | rfl | cases hShowing) h

theorem emote_eq_nil {events : List Event} (h : ∀ event ∈ events, event.isShowing = false) :
    events.filterMap Event.emote? = [] :=
  filterMap_eq_nil_of_not_showing
    (fun event hShowing => by cases event <;> first | rfl | cases hShowing) h

/-- No fading ends with a reveal. -/
theorem faded_revealEvents (talk : Talk) (entry : Nat) (last : Bool) :
    (talk.revealEvents entry last).filterMap Event.faded? = [] := by
  refine List.filterMap_eq_nil_iff.mpr fun event hMem => ?_
  rcases mem_revealEvents hMem with ⟨_, rfl⟩ | ⟨_, rfl⟩ | rfl <;> rfl

/-- A reveal performs the emote of its entry if it is animated. -/
theorem emote_revealEvents (talk : Talk) (entry : Nat) (last : Bool) :
    (talk.revealEvents entry last).filterMap Event.emote? =
      if talk.animates then
        (((talk.marked? entry).bind fun (_, e) => e.emote?).map fun name => (entry, name)).toList
      else [] := by
  have hShown : (talk.shownEvents entry).filterMap Event.emote? = [] := by
    refine List.filterMap_eq_nil_iff.mpr fun event hMem => ?_
    obtain ⟨glyph, rfl⟩ := mem_shownEvents hMem
    rfl
  have hPlayed : (if last then talk.playedEvents .resolved else []).filterMap Event.emote? = [] := by
    refine List.filterMap_eq_nil_iff.mpr fun event hMem => ?_
    split at hMem
    · rw [mem_playedEvents hMem]
      rfl
    · cases hMem
  rw [revealEvents, List.filterMap_append, List.filterMap_append, hShown, hPlayed, List.nil_append,
    List.append_nil]
  split
  · rw [emoteEvents]
    cases (talk.marked? entry).bind fun (_, e) => e.emote? <;> rfl
  · rfl

/-- An emote comes right behind its entry. -/
theorem emote_after_of_revealEvents_eq {talk : Talk} {entry i : Nat} {last : Bool} {name : String}
    {glyph : Option Char} {before rest : List Event}
    (hShows : talk.shownEvents entry = [.shown entry glyph])
    (hEvents : talk.revealEvents entry last = before ++ .emote i name :: rest) :
    before = [.shown i glyph] := by
  rw [revealEvents, hShows] at hEvents
  cases before with
  | nil => cases hEvents
  | cons first middle =>
    rw [List.singleton_append, List.cons_append, List.cons.injEq] at hEvents
    obtain ⟨rfl, hSequel⟩ := hEvents
    rcases split_append_cases hSequel with ⟨after, hNew, -⟩ | ⟨late, -, hLate⟩
    · -- the entry has at most one emote, so nothing stands between the two
      have hFew : (if talk.animates then talk.emoteEvents entry else []).length ≤ 1 := by
        split
        · rw [emoteEvents, Option.length_toList]
          split <;> omega
        · exact Nat.zero_le _
      rw [hNew, List.length_append, List.length_cons] at hFew
      have hMiddle : middle = [] := List.length_eq_zero_iff.mp (by omega)
      have hMem := mem_of_split hNew
      split at hMem
      · obtain ⟨_, hEq⟩ := mem_emoteEvents hMem
        cases hEq
        rw [hMiddle]
      · cases hMem
    · -- and what is played is no emote
      have hMem := mem_of_split hLate
      split at hMem
      · cases mem_playedEvents hMem
      · cases hMem

/-! ## Where flags come from -/

/-- What is written does not fade. -/
theorem Written.entryAt?_of_fading {talk later : Talk} (hWritten : Written talk later) {place : Place}
    {e : Entry} (hAt : later.scrap.entryAt? place = some e) (hFading : e.fading = true) :
    talk.scrap.entryAt? place = some e := by
  rcases hWritten.scrap.fresh hAt with hOld | hFresh
  · exact hOld
  · rw [hFresh.2] at hFading
    cases hFading

/-- What fades after pacing was fading before. -/
theorem Paced.entryAt?_of_fading {talk later : Talk} {scope : PaceScope}
    (hPaced : Paced talk scope later) {place : Place} {e : Entry}
    (hAt : later.scrap.entryAt? place = some e) (hFading : e.fading = true) :
    talk.scrap.entryAt? place = some e := by
  cases hCovers : scope.covers talk.scrap place with
  | true =>
    obtain ⟨timestamp, hTimed⟩ := hPaced.covered hCovers
    rw [hTimed] at hAt
    obtain ⟨old, -, rfl⟩ := Option.map_eq_some_iff.mp hAt
    cases hFading
  | false => rwa [hPaced.others hCovers] at hAt

/-- Closing takes all flags back. -/
theorem fading_beginClosing {talk : Talk} (hOpen : talk.outcome .closing = none) (outcome : Outcome)
    {place : Place} {e : Entry}
    (hAt : (talk.beginClosing outcome).2.scrap.entryAt? place = some e) : e.fading = false := by
  obtain ⟨registry, areas, outbox, hEq⟩ := beginClosing_eq hOpen outcome
  rw [hEq, Scrap.entryAt?_map] at hAt
  obtain ⟨old, -, rfl⟩ := Option.map_eq_some_iff.mp hAt
  rfl

/-- Nothing is shown when a talk begins to close. -/
theorem silent_closingEvents (talk : Talk) : ∀ event ∈ talk.closingEvents, event.isShowing = false := by
  intro event hMem
  rcases mem_closingEvents hMem with rfl | ⟨number, rfl⟩ | rfl <;> rfl

/-! ## What was aired -/

/-- The name of the emote in a position, where one stands there. -/
def voice? (talk : Talk) (i : Nat) : Option String := (talk.scrap.entries[i]?).bind Entry.emote?

/-- The emote of an entry is the one that stood there at the start. -/
theorem Faithful.emote?_of_marked {first talk : Talk} {raised : List Event}
    (h : Faithful first raised talk) {i : Nat} {place : Place} {e : Entry}
    (hMarked : talk.marked? i = some (place, e)) : e.emote? = first.voice? i := by
  obtain ⟨hMark, hAt⟩ := marked?_eq_some.mp hMarked
  rw [h.progress.marks] at hMark
  obtain ⟨old, hOld⟩ := Scrap.mem_places_iff.mp (List.mem_of_getElem? hMark)
  have hBare := h.kept place old hOld
  rw [hAt, Option.map_some, Option.some.injEq] at hBare
  -- the entry was revealed since the start, but its content is the same
  have hContent : e.content = old.content := by
    show e.bare.content = old.bare.content
    rw [hBare]
  rw [voice?, ← first.scrap.getElem?_places_bind, hMark, Option.bind_some, hOld, Option.bind_some,
    Entry.emote?_congr hContent]

/-- The emote that comes with an entry is raised when the entry is shown. -/
theorem Faithful.emote_revealEvents {first talk : Talk} {raised : List Event}
    (h : Faithful first raised talk) {i : Nat} {glyph : Option Char}
    (hShows : talk.shownEvents i = [.shown i glyph]) (last : Bool) :
    (talk.revealEvents i last).filterMap Event.emote? =
      (if talk.animates then [i] else []).filterMap fun i =>
        (first.voice? i).map fun name => (i, name) := by
  obtain ⟨⟨place, e⟩, hMarked, -⟩ : ∃ found, talk.marked? i = some found ∧
      Event.shown i found.2.glyph? = .shown i glyph := by
    rw [shownEvents, Option.toList_eq_singleton_iff] at hShows
    exact Option.map_eq_some_iff.mp hShows
  have hVoice : ((talk.marked? i).bind fun (_, e) => e.emote?) = first.voice? i := by
    rw [hMarked]
    exact h.emote?_of_marked hMarked
  rw [talk.emote_revealEvents, hVoice]
  split
  · rw [List.filterMap_cons]
    cases first.voice? i <;> rfl
  · rfl

/-- How a talk stands that was started when it stood like `first`, and has shown the entries `aired` with
their animation: their flags, the ends of their fades, and the events that go with them. -/
structure Fading (first : Talk) (aired : List Nat) (raised : List Event) (talk : Talk) : Prop where
  among : aired.Sublist (raised.filterMap Event.shown?)
  /-- An aired entry fades, or has faded, or is cut short. -/
  fades : ∀ i, (raised.filterMap Event.faded?).count i + talk.fadesLeft.count i ≤ aired.count i
  /-- Only closing cuts a fade short. -/
  allFade : talk.outcome .closing = none → ∀ i,
    (raised.filterMap Event.faded?).count i + talk.fadesLeft.count i = aired.count i
  flagged : ∀ place e, talk.scrap.entryAt? place = some e → e.fading = true →
    e.visible = true ∧ ∃ i ∈ talk.fadesLeft, talk.marks[i]? = some place
  fadedAfter : ∀ before i rest, raised = before ++ .faded i :: rest →
    i ∈ before.filterMap Event.shown?
  emotes : raised.filterMap Event.emote? =
    aired.filterMap fun i => (first.voice? i).map fun name => (i, name)
  emoteAfter : ∀ before i name rest, raised = before ++ .emote i name :: rest →
    ∃ earlier glyph, before = earlier ++ [.shown i glyph]

/-- What is aired of the entries that events show. -/
def airs (talk : Talk) (events : List Event) : List Nat :=
  if talk.outcome .play = none then events.filterMap Event.shown? else []

theorem airs_of_shown_eq_nil {talk : Talk} {events : List Event}
    (hNone : events.filterMap Event.shown? = []) : talk.airs events = [] := by
  rw [airs, hNone, ite_self]

namespace Fading

variable {first talk later : Talk} {aired : List Nat} {raised more : List Event}

/-- What fades was aired. -/
theorem mem_aired (h : Fading first aired raised talk) {i : Nat}
    (hMem : i ∈ talk.fadesLeft) : i ∈ aired := by
  have hLeft := List.count_pos_iff.mpr hMem
  have hFades := h.fades i
  exact List.count_pos_iff.mp (by omega)

/-- What more events add, where `new` is aired with them. -/
theorem extend (h : Fading first aired raised talk) {new : List Nat}
    (hAmong : new.Sublist (more.filterMap Event.shown?))
    (hFades : ∀ i, (more.filterMap Event.faded?).count i + later.fadesLeft.count i ≤
      talk.fadesLeft.count i + new.count i)
    (hAllFade : later.outcome .closing = none → talk.outcome .closing = none ∧ ∀ i,
      (more.filterMap Event.faded?).count i + later.fadesLeft.count i =
        talk.fadesLeft.count i + new.count i)
    (hFlagged : ∀ place e, later.scrap.entryAt? place = some e → e.fading = true →
      e.visible = true ∧ ∃ i ∈ later.fadesLeft, later.marks[i]? = some place)
    (hFaded : ∀ i, .faded i ∈ more → i ∈ aired)
    (hEmotes : more.filterMap Event.emote? =
      new.filterMap fun i => (first.voice? i).map fun name => (i, name))
    (hEmoteAfter : ∀ before i name rest, more = before ++ .emote i name :: rest →
      ∃ earlier glyph, before = earlier ++ [.shown i glyph]) :
    Fading first (aired ++ new) (raised ++ more) later where
  among := by
    rw [List.filterMap_append]
    exact h.among.append hAmong
  fades i := by
    have hOld := h.fades i
    have hNew := hFades i
    rw [List.filterMap_append, List.count_append, List.count_append]
    omega
  allFade hOpen i := by
    obtain ⟨hStill, hNew⟩ := hAllFade hOpen
    have hOld := h.allFade hStill i
    have hNew := hNew i
    rw [List.filterMap_append, List.count_append, List.count_append]
    omega
  flagged := hFlagged
  fadedAfter before i rest hSplit := by
    rcases split_append_cases hSplit with ⟨after, hOld, -⟩ | ⟨middle, rfl, hNew⟩
    · exact h.fadedAfter before i after hOld
    · -- what fades now was aired before
      rw [List.filterMap_append]
      exact List.mem_append_left _ (h.among.subset (hFaded i (mem_of_split hNew)))
  emotes := by rw [List.filterMap_append, List.filterMap_append, h.emotes, hEmotes]
  emoteAfter before i name rest hSplit := by
    rcases split_append_cases hSplit with ⟨after, hOld, -⟩ | ⟨middle, rfl, hNew⟩
    · exact h.emoteAfter before i name after hOld
    · obtain ⟨earlier, glyph, rfl⟩ := hEmoteAfter middle i name rest hNew
      exact ⟨raised ++ earlier, glyph, (List.append_assoc ..).symm⟩

/-- Events that show nothing change no fade. -/
theorem append (h : Fading first aired raised talk)
    (hSilent : ∀ event ∈ more, event.isShowing = false)
    (hFades : ∀ i, later.fadesLeft.count i ≤ talk.fadesLeft.count i)
    (hAllFade : later.outcome .closing = none →
      talk.outcome .closing = none ∧ ∀ i, later.fadesLeft.count i = talk.fadesLeft.count i)
    (hFlagged : ∀ place e, later.scrap.entryAt? place = some e → e.fading = true →
      e.visible = true ∧ ∃ i ∈ later.fadesLeft, later.marks[i]? = some place) :
    Fading first aired (raised ++ more) later := by
  have hFaded := faded_eq_nil hSilent
  rw [← List.append_nil aired]
  refine h.extend (List.nil_sublist _) (fun i => ?_) (fun hOpen => ?_) hFlagged
    (fun i hMem => ?_) (emote_eq_nil hSilent) fun before i name rest hSplit => ?_
  · simpa [hFaded] using hFades i
  · simpa [hFaded] using hAllFade hOpen
  · cases hSilent _ hMem
  · cases hSilent _ (mem_of_split hSplit)

/-- A change that sets no flag and leaves the fades pending keeps them accounted for. -/
theorem congr (h : Fading first aired raised talk)
    (hSilent : ∀ event ∈ more, event.isShowing = false)
    (hSame : ∀ i, later.fadesLeft.count i = talk.fadesLeft.count i)
    (hClosing : later.outcome .closing = none → talk.outcome .closing = none)
    (hMarks : later.marks = talk.marks)
    (hFlags : ∀ place e, later.scrap.entryAt? place = some e → e.fading = true →
      talk.scrap.entryAt? place = some e) : Fading first aired (raised ++ more) later := by
  refine h.append hSilent (fun i => Nat.le_of_eq (hSame i)) (fun hOpen => ⟨hClosing hOpen, hSame⟩)
    fun place e hAt hFading => ?_
  obtain ⟨hVisible, i, hMem, hMark⟩ := h.flagged place e (hFlags place e hAt hFading) hFading
  refine ⟨hVisible, i, ?_, by rw [hMarks, hMark]⟩
  rw [← List.count_pos_iff, hSame]
  exact List.count_pos_iff.mpr hMem

/-! ### Cues -/

/-- A fade ends: the flag of its entry is taken back. -/
theorem fadeEnd (h : Fading first aired raised talk) {i : Nat} {rest : Agenda Cue}
    (hTaken : Taken talk.agenda (.fadeEnd i) rest) :
    Fading first aired (raised ++ talk.firedEvents (.fadeEnd i))
      ({ talk with agenda := rest }.fire (.fadeEnd i)) := by
  have hLeft : ∀ j, ({ talk with agenda := rest }.fire (.fadeEnd i)).fadesLeft.count j +
      [i].count j = talk.fadesLeft.count j := by
    intro j
    simpa [Cue.faded?, Cue.revealed?] using hTaken.count_fadesLeft_fire j
  have hCount : ∀ j, ((talk.firedEvents (.fadeEnd i)).filterMap Event.faded?).count j +
      ({ talk with agenda := rest }.fire (.fadeEnd i)).fadesLeft.count j =
        talk.fadesLeft.count j + [].count j := by
    intro j
    rw [← hLeft j, Nat.add_comm]
    rfl
  rw [← List.append_nil aired]
  refine h.extend (List.nil_sublist _) (fun j => Nat.le_of_eq (hCount j))
    (fun hOpen => ⟨?_, hCount⟩) (fun place e hAt hFading => ?_) (fun j hMem => ?_) rfl
    fun before j name after hSplit => ?_
  · rw [outcome_fire] at hOpen
    exact hOpen
  · -- an entry that still fades is another one
    rw [entryAt?_fire] at hAt
    simp only at hAt
    split at hAt
    · obtain ⟨old, -, rfl⟩ := Option.map_eq_some_iff.mp hAt
      cases hFading
    · rename_i hOther
      obtain ⟨hVisible, j, hFades, hMark⟩ := h.flagged place e hAt hFading
      have hNe : i ≠ j := by
        rintro rfl
        exact hOther hMark
      refine ⟨hVisible, j, ?_, by rw [marks_fire]; exact hMark⟩
      have hStill := hLeft j
      rw [List.count_singleton, if_neg (by simpa using hNe)] at hStill
      have hPos := List.count_pos_iff.mpr hFades
      exact List.count_pos_iff.mp (by omega)
  · -- its end stood on the agenda
    cases List.mem_singleton.mp hMem
    have hOne := hLeft i
    rw [List.count_singleton_self] at hOne
    exact h.mem_aired (List.count_pos_iff.mp (by omega))
  · cases List.mem_singleton.mp (mem_of_split hSplit)

/-- The flag of an entry that is shown says whether it starts to fade, and the other flags stay. -/
theorem flagged_reveal (h : Fading first aired raised talk) {i : Nat} {last : Bool}
    {rest : Agenda Cue} (hTaken : Taken talk.agenda (.reveal i last) rest) {place : Place} {e : Entry}
    (hAt : ({ talk with agenda := rest }.fire (.reveal i last)).scrap.entryAt? place = some e)
    (hFading : e.fading = true) :
    e.visible = true ∧ ∃ j ∈ ({ talk with agenda := rest }.fire (.reveal i last)).fadesLeft,
      ({ talk with agenda := rest }.fire (.reveal i last)).marks[j]? = some place := by
  rw [entryAt?_fire] at hAt
  simp only at hAt
  rw [marks_fire]
  split at hAt
  · -- the entry that is revealed now
    rename_i hMark
    obtain ⟨old, -, rfl⟩ := Option.map_eq_some_iff.mp hAt
    have hAnimates : talk.animates = true := hFading
    refine ⟨rfl, i, List.count_pos_iff.mp ?_, hMark⟩
    rw [hTaken.count_fadesLeft_reveal, if_pos hAnimates, List.count_singleton_self]
    omega
  · -- one that was revealed before
    obtain ⟨hVisible, j, hFades, hMark⟩ := h.flagged place e hAt hFading
    refine ⟨hVisible, j, List.count_pos_iff.mp ?_, hMark⟩
    have hPos := List.count_pos_iff.mpr hFades
    rw [hTaken.count_fadesLeft_reveal]
    omega

/-- An entry is shown: if `play` is pending it starts to fade, and its emote comes with it. -/
theorem reveal (h : Fading first aired raised talk) (hFaithful : Faithful first raised talk)
    (hIdle : first.agenda.pending = []) {i : Nat} {last : Bool} {rest : Agenda Cue}
    (hTaken : Taken talk.agenda (.reveal i last) rest) :
    Fading first (aired ++ talk.airs (talk.firedEvents (.reveal i last)))
      (raised ++ talk.firedEvents (.reveal i last))
      ({ talk with agenda := rest }.fire (.reveal i last)) := by
  have hOpen := hFaithful.progress.isOpen_of_taken hTaken rfl
  obtain ⟨glyph, hShows⟩ := hFaithful.progress.shownEvents_of_taken hIdle hTaken
  have hShown : (talk.firedEvents (.reveal i last)).filterMap Event.shown? = [i] := by
    rw [firedEvents, shown_revealEvents, hShows]
    rfl
  have hFaded : (talk.firedEvents (.reveal i last)).filterMap Event.faded? = [] :=
    talk.faded_revealEvents i last
  -- an open talk airs what it shows exactly while `play` is pending
  have hAirs : talk.airs (talk.firedEvents (.reveal i last)) =
      if talk.animates then [i] else [] := by
    rw [airs, hShown, animates_eq, hOpen.closing]
    cases talk.outcome .play <;> rfl
  have hCount : ∀ j, ((talk.firedEvents (.reveal i last)).filterMap Event.faded?).count j +
      ({ talk with agenda := rest }.fire (.reveal i last)).fadesLeft.count j =
        talk.fadesLeft.count j + (if talk.animates then [i] else []).count j := by
    intro j
    rw [hFaded, hTaken.count_fadesLeft_reveal, List.count_nil, Nat.zero_add]
  rw [hAirs]
  refine h.extend ?_ (fun j => Nat.le_of_eq (hCount j)) (fun _ => ⟨hOpen.closing, hCount⟩)
    (fun place e hAt hFading => h.flagged_reveal hTaken hAt hFading) (fun j hMem => ?_)
    (hFaithful.emote_revealEvents hShows last) fun before j name after hSplit =>
      ⟨[], glyph, emote_after_of_revealEvents_eq hShows hSplit⟩
  · rw [hShown]
    split
    · exact .refl _
    · exact List.nil_sublist _
  · have hNone := List.filterMap_eq_nil_iff.mp hFaded _ hMem
    cases hNone

/-- Every move of the talk keeps its animations in order. -/
theorem move (h : Fading first aired raised talk) (hFaithful : Faithful first raised talk)
    (hIdle : first.agenda.pending = []) (hMove : Move talk more later) :
    Fading first (aired ++ talk.airs more) (raised ++ more) later := by
  cases hMove with
  | quiet hAlike =>
    rw [airs_of_shown_eq_nil rfl, List.append_nil]
    refine h.congr (by simp) (fun i => ?_) (fun hOpen => ?_) hAlike.marks fun place e hAt _ => ?_
    · rw [fadesLeft, hAlike.pending]
      rfl
    · rwa [hAlike.outcome] at hOpen
    · rwa [hAlike.scrap] at hAt
  | skip hPlaying =>
    rw [airs_of_shown_eq_nil rfl, List.append_nil]
    refine h.congr (by simp) (fun i => rfl) (fun hOpen => ?_) rfl fun place e hAt _ => hAt
    rw [outcome_settle] at hOpen
    exact hOpen
  | fire hTaken =>
    rename_i cue rest
    cases cue with
    | reveal i last => exact h.reveal hFaithful hIdle hTaken
    | fadeEnd i =>
      rw [airs_of_shown_eq_nil rfl, List.append_nil]
      exact h.fadeEnd hTaken
    -- the end of a section shows nothing
    | closeEnd number =>
      have hSilent : ∀ event ∈ talk.firedEvents (.closeEnd number), event.isShowing = false := by
        intro event hMem
        rcases mem_firedEvents_closeEnd hMem with rfl | rfl <;> rfl
      rw [airs_of_shown_eq_nil (shown_eq_nil hSilent), List.append_nil]
      refine h.congr hSilent (fun i => ?_) (fun hOpen => ?_) (marks_fire _ _) fun place e hAt _ => ?_
      · simpa [Cue.faded?, Cue.revealed?] using hTaken.count_fadesLeft_fire i
      · rw [outcome_fire] at hOpen
        simpa using hOpen
      · rw [entryAt?_fire] at hAt
        exact hAt

/-! ### Beside playback -/

/-- To be played is nothing that fades. -/
theorem complete (h : Fading first aired raised talk) (outcome : Outcome) :
    Fading first aired (raised ++ talk.playedEvents outcome) (talk.markPlayed outcome) := by
  obtain ⟨outbox, hPlayed⟩ := talk.markPlayed_eq outcome
  have hClosing := talk.outcome_markPlayed outcome .closing
  refine h.congr (fun event hMem => ?_) (fun i => ?_) (fun hOpen => ?_) ?_ fun place e hAt _ => ?_
  · rw [mem_playedEvents hMem]
    rfl
  · rw [fadesLeft, agenda_markPlayed]
    rfl
  · rw [← hOpen, hClosing]
    rfl
  · rw [hPlayed]
  · rwa [hPlayed] at hAt

/-- Writing disturbs no animation. -/
theorem written (h : Fading first aired raised talk) (hWritten : Written talk later) :
    Fading first aired raised later := by
  rw [← List.append_nil raised]
  refine h.congr (by simp) (fun i => ?_) (fun hOpen => ?_) hWritten.marks
    fun place e hAt hFading => hWritten.entryAt?_of_fading hAt hFading
  · rw [fadesLeft, hWritten.agenda]
    rfl
  · rwa [outcome_eq, hWritten.lifecycle] at hOpen

/-- Pacing leaves the ends of the fades alone. -/
theorem paced (h : Fading first aired raised talk) {scope : PaceScope}
    (hPaced : Paced talk scope later) : Fading first aired raised later := by
  have hRest := hPaced.rest
  rw [← List.append_nil raised]
  refine h.congr (by simp) (fun i => ?_) (fun _ => hPaced.isOpen) (by rw [hRest])
    fun place e hAt hFading => hPaced.entryAt?_of_fading hAt hFading
  rw [hRest]
  rfl

/-- Closing strikes out the ends of the fades. -/
theorem closed (h : Fading first aired raised talk) (hState : Open talk) (outcome : Outcome) :
    Fading first aired (raised ++ talk.closingEvents) (talk.beginClosing outcome).2 := by
  have hEnding := hState.beginClosing outcome
  refine h.append talk.silent_closingEvents (fun i => ?_)
    (fun hOpen => absurd hOpen hEnding.closing) fun place e hAt hFading => ?_
  · rw [hEnding.fadesLeft]
    exact Nat.zero_le _
  · rw [fading_beginClosing hState.closing outcome hAt] at hFading
    cases hFading

/-! ### Operations -/

/-- Once the text was skipped, nothing more is aired. -/
theorem invariant_skipped (hIdle : first.agenda.pending = []) : Invariant fun raised talk =>
    Faithful first raised talk ∧ talk.outcome .play ≠ none ∧ Fading first aired raised talk where
  move {raised talk more later} h hMove := by
    obtain ⟨hFaithful, hSkipped, hFading⟩ := h
    have hNext := hFading.move hFaithful hIdle hMove
    -- after a skip nothing is aired any more
    rw [airs, if_neg hSkipped, List.append_nil] at hNext
    exact ⟨hFaithful.move hIdle hMove, (Plays.single hMove).stays_settled hSkipped, hNext⟩
  plan start h _ hFresh := absurd hFresh h.1.progress.startTime
  complete {raised talk} h hOpen hEmpty hStarted := by
    obtain ⟨hFaithful, hSkipped, hFading⟩ := h
    refine ⟨(Faithful.invariant hIdle).complete hFaithful hOpen hEmpty hStarted, ?_,
      hFading.complete _⟩
    rw [outcome_markPlayed]
    exact hSkipped
  written {raised talk later} h hWritten := by
    obtain ⟨hFaithful, hSkipped, hFading⟩ := h
    refine ⟨(Faithful.invariant hIdle).written hFaithful hWritten, ?_, hFading.written hWritten⟩
    rwa [outcome_eq, hWritten.lifecycle]
  paced {raised talk scope later} h hPaced := by
    obtain ⟨hFaithful, hSkipped, hFading⟩ := h
    refine ⟨(Faithful.invariant hIdle).paced hFaithful hPaced, ?_, hFading.paced hPaced⟩
    rw [hPaced.rest]
    exact hSkipped
  closed {raised talk} outcome h hOpen := by
    obtain ⟨hFaithful, hSkipped, hFading⟩ := h
    have hState := hFaithful.progress.inStep.isOpen hOpen
    exact ⟨(Faithful.invariant hIdle).closed outcome hFaithful hOpen,
      (hState.beginClosing outcome).play, hFading.closed hState outcome⟩

/-- Until the text is skipped, all that is shown is aired. -/
theorem invariant_playing (hIdle : first.agenda.pending = []) : Invariant fun raised talk =>
    Faithful first raised talk ∧
      (talk.outcome .play = none → Fading first (raised.filterMap Event.shown?) raised talk) where
  move {raised talk more later} h hMove := by
    obtain ⟨hFaithful, hFading⟩ := h
    refine ⟨hFaithful.move hIdle hMove, fun hPlay => ?_⟩
    have hBefore : talk.outcome .play = none := by
      by_contra hSkipped
      exact (Plays.single hMove).stays_settled hSkipped hPlay
    have hNext := (hFading hBefore).move hFaithful hIdle hMove
    -- while `play` is pending, all that is shown is aired
    rwa [airs, if_pos hBefore, ← List.filterMap_append] at hNext
  plan start h _ hFresh := absurd hFresh h.1.progress.startTime
  complete {raised talk} h hOpen hEmpty hStarted := by
    obtain ⟨hFaithful, hFading⟩ := h
    refine ⟨(Faithful.invariant hIdle).complete hFaithful hOpen hEmpty hStarted, fun hPlay => ?_⟩
    rw [outcome_markPlayed] at hPlay
    rw [List.filterMap_append, shown_playedEvents, List.append_nil]
    exact (hFading hPlay).complete _
  written {raised talk later} h hWritten := by
    obtain ⟨hFaithful, hFading⟩ := h
    refine ⟨(Faithful.invariant hIdle).written hFaithful hWritten, fun hPlay => ?_⟩
    rw [outcome_eq, hWritten.lifecycle] at hPlay
    exact (hFading hPlay).written hWritten
  paced {raised talk scope later} h hPaced := by
    obtain ⟨hFaithful, hFading⟩ := h
    refine ⟨(Faithful.invariant hIdle).paced hFaithful hPaced, fun hPlay => ?_⟩
    have hRest := hPaced.rest
    rw [hRest] at hPlay
    exact (hFading hPlay).paced hPaced
  closed {raised talk} outcome h hOpen := by
    obtain ⟨hFaithful, -⟩ := h
    have hEnding := (hFaithful.progress.inStep.isOpen hOpen).beginClosing outcome
    exact ⟨(Faithful.invariant hIdle).closed outcome hFaithful hOpen,
      fun hPlay => absurd hPlay hEnding.play⟩

end Fading

end Dialogue.Talk
