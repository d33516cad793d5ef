import Dialogue.Proofs.Scrap.Sameness
import Dialogue.Proofs.Talk.Playing
import Dialogue.Proofs.Talk.Telling
import Mathlib.Data.List.Nodup
import Mathlib.Logic.ExistsUnique

/-!
# Every reveal once

When a talk starts, every entry gets its reveal, which addresses the entry by its place. From then on the
reveals are taken by the clock, by a skip or by closing, while the text goes on growing and may be paced
again. This module says what becomes of them: each one is still to come, or was carried out once, or was
struck out by closing; and what is shown is what stood there when the talk started.

Main results:

* `Talk.Faithful.invariant` — entries stay at their places, and are shown with the words they had.
* `Talk.Faithful.exists_fate` — what becomes of each entry.
* `Talk.revealed_once` — all of this, for any operations after the start.
-/

namespace Dialogue

namespace Talk

/-! ## The text of a playing talk -/

/-- A move changes no content. -/
theorem Move.bare {talk later : Talk} {raised : List Event} (hMove : Move talk raised later) :
    later.scrap.bare = talk.scrap.bare := by
  cases hMove with
  | quiet hAlike => rw [hAlike.scrap]
  | skip hPlaying => rfl
  | fire hTaken => exact (sameText_fire _ _).scrap

/-- Pacing changes no content. -/
theorem Paced.bare_entryAt? {talk later : Talk} {scope : PaceScope}
    (hPaced : Paced talk scope later) (place : Place) :
    (later.scrap.entryAt? place).map Entry.bare =
      (talk.scrap.entryAt? place).map Entry.bare := by
  cases hCovers : scope.covers talk.scrap place with
  | true =>
    obtain ⟨timestamp, hTimed⟩ := hPaced.covered hCovers
    rw [hTimed, Option.map_map]
    rfl
  | false => rw [hPaced.others hCovers]

/-- What a cue shows is the entry with its number, as it stands at its place. -/
theorem marked?_of_shown_mem {talk : Talk} {cue : Cue} {i : Nat} {glyph : Option Char}
    (hMem : .shown i glyph ∈ talk.firedEvents cue) :
    ∃ place e, talk.marked? i = some (place, e) ∧ glyph = e.glyph? := by
  cases cue with
  | reveal entry last =>
    -- an emote and the end of the text are other events
    rcases List.mem_append.mp hMem with hShown | hOther
    · obtain ⟨⟨place, e⟩, hMarked, hEq⟩ := Option.map_eq_some_iff.mp (Option.mem_toList.mp hShown)
      cases hEq
      exact ⟨place, e, hMarked, rfl⟩
    · exfalso
      rcases List.mem_append.mp hOther with hEmote | hPlayed
      · split at hEmote
        · obtain ⟨name, hEq⟩ := mem_emoteEvents hEmote
          cases hEq
        · cases hEmote
      · split at hPlayed
        · cases mem_playedEvents hPlayed
        · cases hPlayed
  | fadeEnd entry => cases List.mem_singleton.mp hMem
  | closeEnd number => rcases mem_firedEvents_closeEnd hMem with hEq | hEq <;> cases hEq

/-- To begin to close shows no entry. -/
theorem shown_closingEvents (talk : Talk) :
    talk.closingEvents.filterMap Event.shown? = [] := by
  refine shown_eq_nil fun event hMem => ?_
  rcases mem_closingEvents hMem with rfl | ⟨number, rfl⟩ | rfl <;> rfl

/-- Where nothing is shown, no entry is. -/
theorem shown_not_mem {events : List Event} (hNone : events.filterMap Event.shown? = []) (i : Nat)
    (glyph : Option Char) : .shown i glyph ∉ events := by
  intro hMem
  have hEvent := List.filterMap_eq_nil_iff.mp hNone _ hMem
  cases hEvent

/-- How a talk stands that was started when it stood like `first`: its entries are where they were and say
what they said, and what was shown are these entries. -/
structure Faithful (first : Talk) (raised : List Event) (talk : Talk) : Prop where
  progress : Progress first raised talk
  kept : ∀ place e, first.scrap.entryAt? place = some e →
    (talk.scrap.entryAt? place).map Entry.bare = some e.bare
  words : ∀ i glyph, .shown i glyph ∈ raised →
    ∃ e, first.scrap.entries[i]? = some e ∧ glyph = e.glyph?

namespace Faithful

variable {first talk later : Talk} {raised more : List Event}

/-- An entry that is shown was there when the talk started, at the place that is looked at. -/
theorem exists_place (h : Faithful first raised talk) {i : Nat} {glyph : Option Char}
    (hMem : .shown i glyph ∈ raised) :
    ∃ e place, first.scrap.entries[i]? = some e ∧ first.scrap.places[i]? = some place ∧
      glyph = e.glyph? ∧ (talk.scrap.entryAt? place).map Entry.bare = some e.bare := by
  obtain ⟨e, hEntry, hGlyph⟩ := h.words i glyph hMem
  have hBind := first.scrap.getElem?_places_bind i
  rw [hEntry] at hBind
  obtain ⟨place, hPlace, hAt⟩ := Option.bind_eq_some_iff.mp hBind
  exact ⟨e, place, hEntry, hPlace, hGlyph, h.kept place e hAt⟩

/-- Events that show nothing add nothing to what was shown. -/
theorem append (h : Faithful first raised talk) (hProgress : Progress first (raised ++ more) later)
    (hKept : ∀ place e, first.scrap.entryAt? place = some e →
      (later.scrap.entryAt? place).map Entry.bare = some e.bare)
    (hShown : more.filterMap Event.shown? = []) : Faithful first (raised ++ more) later where
  progress := hProgress
  kept := hKept
  words i glyph hMem := by
    rcases List.mem_append.mp hMem with hMem | hMem
    · exact h.words i glyph hMem
    · exact absurd hMem (shown_not_mem hShown i glyph)

/-- Every move of the talk stays faithful to the text. -/
theorem move (h : Faithful first raised talk) (hIdle : first.agenda.pending = [])
    (hMove : Move talk more later) : Faithful first (raised ++ more) later := by
  have hKept : ∀ place e, first.scrap.entryAt? place = some e →
      (later.scrap.entryAt? place).map Entry.bare = some e.bare := by
    intro place e hAt
    rw [Scrap.bare_entryAt?_of_eq hMove.bare, h.kept place e hAt]
  have hProgress := h.progress.move hIdle hMove
  refine ⟨hProgress, hKept, fun i glyph hMem => ?_⟩
  rcases List.mem_append.mp hMem with hMem | hMem
  · exact h.words i glyph hMem
  cases hMove with
  | quiet hAlike => cases hMem
  | skip hPlaying => cases hMem
  | fire hTaken =>
    obtain ⟨place, now, hMarked, rfl⟩ := marked?_of_shown_mem hMem
    obtain ⟨hMark, hNow⟩ := marked?_eq_some.mp hMarked
    -- the entry at the place is the one that stood there at the start
    have hPlace : place ∈ first.scrap.places := by
      rw [h.progress.marks] at hMark
      exact List.mem_of_getElem? hMark
    obtain ⟨e, hAt⟩ := Scrap.mem_places_iff.mp hPlace
    refine ⟨e, ?_, ?_⟩
    · rw [← first.scrap.getElem?_places_bind, ← h.progress.marks, hMark]
      exact hAt
    · have hBare := h.kept place e hAt
      rw [hNow, Option.map_some, Option.some.injEq] at hBare
      have hContent : now.bare.content = e.bare.content := congrArg Entry.content hBare
      exact Entry.glyph?_congr hContent

/-- From the start on, every operation leaves the entries where they are. -/
theorem invariant (hIdle : first.agenda.pending = []) : Invariant (Faithful first) where
  move h hMove := h.move hIdle hMove
  plan start h _ hFresh := absurd hFresh h.progress.startTime
  complete {raised talk} h hOpen hEmpty _ := by
    refine h.append (h.progress.complete hOpen hEmpty) ?_ (talk.shown_playedEvents _)
    obtain ⟨outbox, hPlayed⟩ := talk.markPlayed_eq .resolved
    rw [hPlayed]
    exact h.kept
  written {raised talk later} h hWritten := by
    have hProgress := (Progress.invariant hIdle).written h.progress hWritten
    refine ⟨hProgress, fun place e hAt => ?_, h.words⟩
    have hKept := h.kept place e hAt
    obtain ⟨now, hNow, hBare⟩ := Option.map_eq_some_iff.mp hKept
    -- what is written later stands behind the text
    rw [hWritten.scrap.keeps hNow, Option.map_some, hBare]
  paced {raised talk scope later} h hPaced := by
    have hProgress := (Progress.invariant hIdle).paced h.progress hPaced
    refine ⟨hProgress, fun place e hAt => ?_, h.words⟩
    rw [hPaced.bare_entryAt? place, h.kept place e hAt]
  closed {raised talk} outcome h hOpen := by
    have hProgress := (Progress.invariant hIdle).closed outcome h.progress hOpen
    refine h.append hProgress (fun place e hAt => ?_) talk.shown_closingEvents
    rw [Scrap.bare_entryAt?_of_eq (talk.sameText_beginClosing outcome).scrap, h.kept place e hAt]

end Faithful

/-! ## What becomes visible -/

/-- What is made visible, told from the events raised: just what they show, where entry `i` stands at
`places[i]`. -/
structure Unveils (places : List Place) (talk : Talk) (raised : List Event) (later : Talk) :
    Prop where
  shown : ∀ i glyph, .shown i glyph ∈ raised →
    ∃ place, places[i]? = some place ∧ later.visibleAt? place = some true
  unshown : ∀ place, talk.visibleAt? place = some false → later.visibleAt? place = some true →
    ∃ i glyph, places[i]? = some place ∧ .shown i glyph ∈ raised

/-- A change that shows nothing and leaves hidden what is hidden unveils nothing. -/
theorem Unveils.of_hidden {places : List Place} {talk later : Talk} {raised : List Event}
    (hShown : raised.filterMap Event.shown? = [])
    (hHidden : ∀ place, talk.visibleAt? place = some false → later.visibleAt? place ≠ some true) :
    Unveils places talk raised later where
  shown i glyph hMem := absurd hMem (shown_not_mem hShown i glyph)
  unshown place hBefore hAfter := absurd hAfter (hHidden place hBefore)

/-- What playing makes visible was shown, and what it shows becomes visible. -/
theorem Plays.unveils {first talk later : Talk} {raised news : List Event}
    (hPlays : Plays talk news later) (hMarks : talk.marks = first.scrap.places)
    (hLater : Faithful first (raised ++ news) later) :
    Unveils first.scrap.places talk news later where
  shown i glyph hMem := by
    obtain ⟨e, place, -, hPlace, -, hKept⟩ := hLater.exists_place (List.mem_append_right _ hMem)
    obtain ⟨now, hNow, -⟩ := Option.map_eq_some_iff.mp hKept
    -- an entry that was shown is not hidden
    have hSeen := (hPlays.seen place).shown ⟨i, glyph, by rw [hMarks, hPlace], hMem⟩
    refine ⟨place, hPlace, ?_⟩
    rw [visibleAt?, hNow, Option.map_some] at hSeen ⊢
    cases hVisible : now.visible with
    | true => rfl
    | false => exact absurd (by rw [hVisible]) hSeen
  unshown place hBefore hAfter := by
    by_contra hNot
    have hShows : ¬ talk.Shows place news := by
      rintro ⟨i, glyph, hMark, hMem⟩
      rw [hMarks] at hMark
      exact hNot ⟨i, glyph, hMark, hMem⟩
    rw [(hPlays.seen place).unshown hShows, hBefore] at hAfter
    cases hAfter

/-- Every operation on a talk that was started unveils the entries that it shows. -/
theorem Effect.unveils {first talk later : Talk} {operation : Operation} {raised news : List Event}
    (hEffect : Effect talk operation news later) (h : Faithful first raised talk)
    (hLater : Faithful first (raised ++ news) later) :
    Unveils first.scrap.places talk news later := by
  -- beside playback, what an operation changes is hidden afterwards
  have hHides : ∀ {place : Place}, ¬ talk.Shows place news →
      talk.visibleAt? place = some false → later.visibleAt? place ≠ some true := by
    intro place hNot hHidden hVisible
    rw [hEffect.stays_hidden h.progress.startTime hHidden hNot] at hVisible
    cases hVisible
  have hShows : news.filterMap Event.shown? = [] → ∀ place, ¬ talk.Shows place news := by
    rintro hNone place ⟨i, glyph, -, hMem⟩
    exact shown_not_mem hNone i glyph hMem
  have hStill : news.filterMap Event.shown? = [] → Unveils first.scrap.places talk news later :=
    fun hNone => .of_hidden hNone fun place => hHides (hShows hNone place)
  cases hEffect with
  | plays _ hPlays => exact hPlays.unveils h.progress.marks hLater
  | written _ hWritten => exact hStill rfl
  | paced hPaced => exact hStill rfl
  | wrapped hWritten hPaced => exact hStill rfl
  | started _ hFresh => exact absurd hFresh h.progress.startTime
  | completed _ hFresh => exact absurd hFresh h.progress.startTime
  -- closing stops the animations, and shows nothing
  | closed _ outcome hOpen => exact hStill talk.shown_closingEvents

/-! ## The start -/

/-- A start puts all entries on the agenda. A text without entries is complete then, and of any other one
some entries may be shown. -/
theorem start_cases {talk : Talk} (hOpen : talk.outcome .closing = none)
    (hFresh : talk.startTime = none) :
    (talk.scrap.entries = [] ∧ talk.start = (talk.plan talk.startsAt).markPlayed .resolved) ∨
      talk.scrap.entries ≠ [] ∧ ∃ news, Plays (talk.plan talk.startsAt) news talk.start ∧
        talk.start.events = talk.events ++ news := by
  by_cases hEmpty : talk.scrap.entries = []
  · exact .inl ⟨hEmpty, start_of_empty hOpen hFresh hEmpty⟩
  · refine .inr ⟨hEmpty, ?_⟩
    by_cases hPlay : talk.outcome .play = none
    · rw [start_of_playing hOpen hFresh hEmpty hPlay]
      exact ⟨[], .refl _, (List.append_nil _).symm⟩
    · rw [start_of_skipped hOpen hFresh hEmpty hPlay]
      exact revealRest_plays (show (talk.plan talk.startsAt).outcome .play ≠ none from hPlay)

/-- As playback is planned, the talk is faithful to the text that it has. -/
theorem Unstarted.faithful_plan {talk : Talk} {raised : List Event} (h : Unstarted raised talk)
    (hOpen : talk.outcome .closing = none) : Faithful talk raised (talk.plan talk.startsAt) := by
  refine ⟨h.plan hOpen, fun place e hAt => ?_, fun i glyph hMem => ?_⟩
  · show (talk.scrap.entryAt? place).map Entry.bare = _
    rw [hAt]
    rfl
  · -- nothing was shown before
    exact absurd hMem (shown_not_mem h.shown i glyph)

/-- The start leaves the text as it is, and unveils what it shows. -/
theorem Unstarted.start {talk : Talk} {raised : List Event} (h : Unstarted raised talk)
    (hOpen : talk.outcome .closing = none) :
    ∃ news, talk.start.events = talk.events ++ news ∧
      Faithful talk (raised ++ news) talk.start ∧
      Unveils talk.scrap.places talk news talk.start := by
  have hInvariant := Faithful.invariant (h.idle hOpen)
  have hPlanned := h.faithful_plan hOpen
  rcases start_cases hOpen h.startTime with ⟨hEmpty, hStart⟩ | ⟨-, news, hPlays, hEvents⟩
  · -- without a text, nothing is shown
    obtain ⟨outbox, hPlayed⟩ := (talk.plan talk.startsAt).markPlayed_eq .resolved
    have hComplete := hInvariant.complete hPlanned hOpen hEmpty (Option.some_ne_none _)
    refine ⟨(talk.plan talk.startsAt).playedEvents .resolved, ?_, ?_, .of_hidden ?_ ?_⟩
    · rw [hStart, hPlayed]
      rfl
    · rw [hStart]
      exact hComplete
    · exact shown_playedEvents _ _
    · intro place hHidden
      rw [hStart, hPlayed]
      show talk.visibleAt? place ≠ some true
      rw [hHidden]
      simp
  · have hFaithful := hPlays.keeps hInvariant.move hPlanned
    have hUnveils := hPlays.unveils rfl hFaithful
    exact ⟨news, hEvents, hFaithful, hUnveils.shown, hUnveils.unshown⟩

/-! ## What becomes of a reveal -/

/-- What can become of the reveal of an entry. -/
inductive Fate where
  | pending
  | shown
  /-- Struck out by closing. -/
  | dropped

/-- Whether entry `i` has met a fate, told from the events raised and from what is to come. -/
def Fate.Met (raised : List Event) (talk : Talk) (i : Nat) : Fate → Prop
  | pending => talk.revealsLeft.count i = 1 ∧ (raised.filterMap Event.shown?).count i = 0
  | shown => talk.revealsLeft.count i = 0 ∧ (raised.filterMap Event.shown?).count i = 1
  | dropped => talk.outcome .closing ≠ none ∧ talk.revealsLeft.count i = 0 ∧
      (raised.filterMap Event.shown?).count i = 0

/-- Each entry comes up once. -/
theorem nodup_order {talk : Talk} (hIdle : talk.agenda.pending = []) : talk.order.Nodup := by
  refine (pairwise_order hIdle).imp fun {j k} hBefore => ?_
  rintro rfl
  rcases hBefore with hLt | ⟨-, hLt⟩
  · rw [Millis.lt_def] at hLt
    omega
  · omega

/-- Each entry comes up once. -/
theorem count_order {talk : Talk} (hIdle : talk.agenda.pending = []) {i : Nat}
    (hi : i < talk.scrap.entries.length) : talk.order.count i = 1 :=
  List.count_eq_one_of_mem (nodup_order hIdle) ((mem_order hIdle).mpr hi)

/-- A talk that is closing has no reveals. -/
theorem Ending.revealsLeft {talk : Talk} (h : Ending talk) : talk.revealsLeft = [] := by
  refine List.filterMap_eq_nil_iff.mpr fun x hMem => ?_
  have hPlayback := h.playback x hMem
  cases hEvent : x.event with
  | reveal entry last =>
    rw [hEvent] at hPlayback
    cases hPlayback
  | fadeEnd entry => rfl
  | closeEnd number => rfl

/-- Each entry has met one fate. -/
theorem Progress.exists_fate {first talk : Talk} {raised : List Event}
    (h : Progress first raised talk) (hIdle : first.agenda.pending = []) {i : Nat}
    (hi : i < first.scrap.entries.length) : ∃! fate, Fate.Met raised talk i fate := by
  obtain ⟨left, hOrder, hOpen⟩ := h.shown
  have hCount : (raised.filterMap Event.shown?).count i + left.count i = 1 := by
    rw [← List.count_append, hOrder, count_order hIdle hi]
  -- what was not shown is to come, unless the talk is closing
  have hLeft : talk.outcome .closing = none → talk.revealsLeft.count i = left.count i :=
    fun hClosing => by rw [hOpen hClosing]
  have hNone : talk.outcome .closing ≠ none → talk.revealsLeft.count i = 0 := by
    intro hClosing
    rw [(h.inStep.isEnding hClosing).revealsLeft]
    rfl
  by_cases hShown : (raised.filterMap Event.shown?).count i = 0
  · by_cases hClosing : talk.outcome .closing = none
    · -- not shown, and the talk is open
      have hPending : talk.revealsLeft.count i = 1 := by
        rw [hLeft hClosing]
        omega
      refine ⟨.pending, ⟨hPending, hShown⟩, fun fate hMet => ?_⟩
      cases fate with
      | pending => rfl
      | shown => exact absurd (hPending.symm.trans hMet.1) (by decide)
      | dropped => exact absurd hClosing hMet.1
    · -- not shown, and never to be
      refine ⟨.dropped, ⟨hClosing, hNone hClosing, hShown⟩, fun fate hMet => ?_⟩
      cases fate with
      | pending => exact absurd ((hNone hClosing).symm.trans hMet.1) (by decide)
      | shown => exact absurd (hShown.symm.trans hMet.2) (by decide)
      | dropped => rfl
  · have hGone : talk.revealsLeft.count i = 0 := by
      by_cases hClosing : talk.outcome .closing = none
      · rw [hLeft hClosing]
        omega
      · exact hNone hClosing
    refine ⟨.shown, ⟨hGone, by omega⟩, fun fate hMet => ?_⟩
    cases fate with
    | pending => exact absurd hMet.2 hShown
    | shown => rfl
    | dropped => exact absurd hMet.2.2 hShown

/-! ## Any operations after the start -/

/-- How the entries that a talk had when it was started, `first`, have been revealed since. -/
structure Revealed (first : Talk) (raised : List Event) (talk : Talk) : Prop where
  fate : ∀ i, i < first.scrap.entries.length → ∃! fate, Fate.Met raised talk i fate
  /-- The entry that is shown is the one that stood there at the start, wherever text was added since. -/
  words : ∀ i glyph, .shown i glyph ∈ raised →
    ∃ e place, first.scrap.entries[i]? = some e ∧ first.scrap.places[i]? = some place ∧
      glyph = e.glyph? ∧ (talk.scrap.entryAt? place).map Entry.bare = some e.bare
  inOrder : (raised.filterMap Event.shown?).Pairwise fun i j =>
    first.dueAt i < first.dueAt j ∨ first.dueAt i = first.dueAt j ∧ i < j

/-- A talk that is faithful to the text has revealed it as it should. -/
theorem Faithful.revealed {first talk : Talk} {raised : List Event}
    (h : Faithful first raised talk) (hIdle : first.agenda.pending = []) :
    Revealed first raised talk where
  fate _ hi := h.progress.exists_fate hIdle hi
  words _ _ hMem := h.exists_place hMem
  inOrder := by
    obtain ⟨left, hOrder, -⟩ := h.progress.shown
    have hPairwise := pairwise_order hIdle
    rw [← hOrder] at hPairwise
    exact (List.pairwise_append.mp hPairwise).1

/-- Once a start has taken effect, whatever is done to it and to its registry: every entry is
still to be revealed, or was shown once, or closing has struck it out; what is shown, and made visible with
it, is what stood there at the start; and entries are shown by due time, then in document order. -/
theorem revealed_once {registry : Registry} {options : Options} {created talk later : Talk}
    {told more : List Event} (hCreate : Talk.create registry options = .ok created)
    (hTold : Tells created told talk) (hOpen : talk.outcome .closing = none)
    (hFresh : talk.startTime = none) (hMore : Tells talk.start more later) :
    Revealed talk (told ++ more ++ later.events) later ∧
      (∃ news, talk.start.events = talk.events ++ news ∧
        Unveils talk.scrap.places talk news talk.start) ∧
      ∀ operation, ∃ news,
        later.events ++ news =
          (later.perform operation).1.raised ++ (later.perform operation).2.events ∧
        Unveils talk.scrap.places later news (later.perform operation).2 := by
  obtain ⟨-, hNew, -⟩ := of_create hCreate
  have hUnstarted := hTold.unstarted hNew hFresh
  have hIdle := hUnstarted.idle hOpen
  obtain ⟨news, hEvents, hStart, hUnveils⟩ := hUnstarted.start hOpen
  rw [List.append_assoc, ← hEvents] at hStart
  have hLater := (Faithful.invariant hIdle).tells hMore hStart
  refine ⟨hLater.revealed hIdle, ⟨news, hEvents, hUnveils⟩, fun operation => ?_⟩
  obtain ⟨raised, hEffect, hRaised⟩ := later.effect_perform operation
  exact ⟨raised, hRaised,
    hEffect.unveils hLater ((Faithful.invariant hIdle).effect hLater hEffect)⟩

/-- A word that is wrapped up, and then something that is said after the start, before all is skipped. -/
def afterthought : List Operation × List Operation :=
  ([.direct (.speak "Hi"), .wrapUp], [.direct (.speak "!"), .skip, .collectEvents])

/-- Two letters are shown, with the pauses behind them, while more is written. -/
theorem revealed_once_afterthought :
    ∃ created, Talk.create .empty .standard = .ok created ∧
      (created.after afterthought.1).outcome .closing = none ∧
      (created.after afterthought.1).startTime = none ∧
      Revealed (created.after afterthought.1)
        [.shown 0 (some 'H'), .shown 1 (some 'i'), .shown 2 none, .shown 3 none, .played .resolved]
        ((created.after afterthought.1).start.after afterthought.2) := by
  obtain ⟨created, hCreate⟩ : ∃ created, Talk.create .empty .standard = .ok created := ⟨_, rfl⟩
  have hOpen : (created.after afterthought.1).outcome .closing = none := by
    cases hCreate
    decide
  have hFresh : (created.after afterthought.1).startTime = none := by
    cases hCreate
    decide
  have hRevealed := (revealed_once hCreate (.of_after created afterthought.1) hOpen hFresh
    (.of_after _ afterthought.2)).1
  have hRaised : (created.performAll afterthought.1).1.flatMap Reply.raised ++
      ((created.after afterthought.1).start.performAll afterthought.2).1.flatMap Reply.raised ++
      ((created.after afterthought.1).start.after afterthought.2).events =
      [.shown 0 (some 'H'), .shown 1 (some 'i'), .shown 2 none, .shown 3 none,
        .played .resolved] := by
    cases hCreate
    decide
  rw [hRaised] at hRevealed
  exact ⟨created, hCreate, hOpen, hFresh, hRevealed⟩

end Talk

end Dialogue
