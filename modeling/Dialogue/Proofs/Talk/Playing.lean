import Dialogue.Proofs.Talk.Schedule
import Dialogue.Proofs.Talk.Signals
import Dialogue.Proofs.Talk.Trace

/-!
# A playback on its way

A text that was written, wrapped up and started shows its entries in document order. On the agenda stand
the reveals of the entries still to come and the ends of the fades that go on, each kind in document
order (`Upcoming`), and the entries that were shown are visible (`Displayed`).

Main results:

* `Talk.Upcoming.pop_reveal`, `Talk.Upcoming.pop_fade` — which cue comes up next.
* `Talk.Displayed.fire_reveal`, `Talk.Displayed.fire_fade` — what it does.
* `Talk.playing_fire` — both together: a cue that fires adds to the trace.
-/

namespace Dialogue

/-- Entries with the same content, and with it the same glyph and emote. -/
theorem Entry.glyph?_congr {e other : Entry} (hContent : e.content = other.content) :
    e.glyph? = other.glyph? := by
  rw [glyph?, glyph?, hContent]

theorem Entry.emote?_congr {e other : Entry} (hContent : e.content = other.content) :
    e.emote? = other.emote? := by
  rw [emote?, emote?, hContent]

namespace Talk

/-! ## The state of a playback -/

/-- The reveal of entry `i` of a text that is started. -/
def revealAt (first : Talk) (i : Nat) : Appointment Cue :=
  ⟨first.dueAt i, .reveal i (decide (i + 1 = first.scrap.entries.length))⟩

/-- The end of the fade of entry `i`. -/
def fadeAt (first : Talk) (i : Nat) : Appointment Cue :=
  ⟨first.dueAt i + first.options.tempo.fade, .fadeEnd i⟩

/-- No entry is due before those that stand before it. -/
def DueInOrder (first : Talk) : Prop :=
  ∀ i j, i ≤ j → j < first.scrap.entries.length → first.dueAt i ≤ first.dueAt j

/-- What is on the agenda of a playback of the text of `first` that has shown the first `shown` entries
and ended the first `faded` fades. -/
structure Upcoming (first : Talk) (shown faded : Nat) (agenda : Agenda Cue) : Prop where
  now_le : ∀ x ∈ agenda.pending, agenda.now ≤ x.due
  reveals : (agenda.pending.filter fun x => x.event.isReveal) =
    (List.range' shown (first.scrap.entries.length - shown)).map first.revealAt
  fades : (agenda.pending.filter fun x => !x.event.isReveal) =
    (List.range' faded (shown - faded)).map first.fadeAt

/-- How the talk stands then. -/
structure Displayed (first : Talk) (shown faded : Nat) (talk : Talk) : Prop where
  shown_le : shown ≤ first.scrap.entries.length
  faded_le : faded ≤ shown
  options : talk.options = first.options
  marks : talk.marks = first.scrap.places
  play : talk.outcome .play = none
  played : talk.outcome .played =
    if shown = first.scrap.entries.length then some .resolved else none
  closing : talk.outcome .closing = none
  closed : talk.outcome .closed = none
  content : ∀ place, (talk.scrap.entryAt? place).map Entry.content =
    (first.scrap.entryAt? place).map Entry.content
  visible : ∀ i, i < shown → ∀ place, first.scrap.places[i]? = some place →
    ∀ e, talk.scrap.entryAt? place = some e → e.visible = true
  fading : ∀ place e, talk.scrap.entryAt? place = some e → e.fading = true →
    ∃ i, faded ≤ i ∧ i < shown ∧ first.scrap.places[i]? = some place

/-- A playback that has shown the first `shown` entries, ended the first `faded` fades, and has the
others before it. -/
structure Playing (first : Talk) (shown faded : Nat) (talk : Talk) : Prop where
  displayed : Displayed first shown faded talk
  upcoming : Upcoming first shown faded talk.agenda

/-- How the talk stands does not depend on its agenda, nor on what was taken from its events. -/
theorem Displayed.aside {first talk : Talk} {shown faded : Nat}
    (h : Displayed first shown faded talk) (agenda : Agenda Cue) (events : List Event) :
    Displayed first shown faded { talk with agenda, events } :=
  ⟨h.shown_le, h.faded_le, h.options, h.marks, h.play, h.played, h.closing, h.closed, h.content,
    h.visible, h.fading⟩

/-! ## What comes next -/

/-- The first of the appointments that are left is that of the first entry that is left. -/
theorem map_range'_eq_cons {α : Type} {f : Nat → α} {first count : Nat} {x : α} {rest : List α}
    (h : x :: rest = (List.range' first count).map f) :
    0 < count ∧ x = f first ∧ rest = (List.range' (first + 1) (count - 1)).map f := by
  cases count with
  | zero => cases h
  | succ count =>
    rw [List.range'_succ, List.map_cons, List.cons.injEq] at h
    exact ⟨Nat.succ_pos _, h.1, h.2⟩

section Upcoming

variable {first : Talk} {shown faded : Nat} {agenda rest : Agenda Cue} {limit : Millis}
  {next : Appointment Cue}

/-- The clock stands at what it takes next, and what is left comes later. -/
theorem Upcoming.now_of_pop? (h : Upcoming first shown faded agenda)
    (hPop : agenda.pop? limit = some (next, rest)) :
    rest.now = next.due ∧ ∀ x ∈ rest.pending, rest.now ≤ x.due := by
  obtain ⟨hPending, -, hNow⟩ := Agenda.pop?_eq_some hPop
  -- the clock has not passed what is still to come
  have hDue : rest.now = next.due := by
    rw [hNow, Millis.max_eq_right (h.now_le next (by rw [hPending]; exact List.mem_cons_self ..))]
  refine ⟨hDue, ?_⟩
  rw [hDue]
  exact Agenda.due_le_of_pending_eq hPending

/-- A reveal that comes up is that of the first entry not yet shown. Its fade goes behind the fades that
began before. -/
theorem Upcoming.pop_reveal (h : Upcoming first shown faded agenda) (hOrder : first.DueInOrder)
    (hLe : faded ≤ shown) (hPop : agenda.pop? limit = some (next, rest))
    (hReveal : next.event.isReveal = true) :
    shown < first.scrap.entries.length ∧ next = first.revealAt shown ∧
      Upcoming first (shown + 1) faded
        (rest.schedule (first.fadeAt shown).due (first.fadeAt shown).event) := by
  obtain ⟨hNow, hLater⟩ := h.now_of_pop? hPop
  have hPending := (Agenda.pop?_eq_some hPop).1
  have hReveals := h.reveals
  have hFades := h.fades
  rw [hPending, List.filter_cons, if_pos hReveal] at hReveals
  rw [hPending, List.filter_cons_of_neg (by simp [hReveal])] at hFades
  -- the first of the reveals that are left
  obtain ⟨hLt, rfl, hRest⟩ := map_range'_eq_cons hReveals
  have hLt : shown < first.scrap.entries.length := by omega
  -- entries that came before are due no later, and all fades take the same time
  have hBehind : ∀ x ∈ rest.pending.filter fun x => !x.event.isReveal,
      x.due ≤ (first.fadeAt shown).due := by
    intro x hMem
    rw [hFades] at hMem
    obtain ⟨i, hRange, rfl⟩ := List.mem_map.mp hMem
    have hi := List.mem_range'_1.mp hRange
    exact Millis.add_le_add_right (hOrder i shown (by omega) hLt) _
  refine ⟨hLt, rfl, ?_, ?_, ?_⟩
  · intro x hMem
    rw [Agenda.now_schedule]
    rcases Agenda.mem_insertLast.mp hMem with rfl | hMem
    · rw [hNow]
      exact Millis.le_add_right _ _
    · exact hLater x hMem
  · rw [Agenda.pending_schedule, Agenda.filter_insertLast _ _ rest.sorted]
    rw [Nat.sub_sub] at hRest
    exact hRest
  · -- the fades that go on are one more
    have hCount : shown + 1 - faded = shown - faded + 1 := Nat.succ_sub hLe
    have hLast : faded + (shown - faded) = shown := Nat.add_sub_cancel' hLe
    have hFade : (!(first.fadeAt shown).event.isReveal) = true := rfl
    rw [Agenda.pending_schedule, Agenda.filter_insertLast _ _ rest.sorted, if_pos hFade,
      Agenda.insertLast_eq_append hBehind, hFades, hCount, List.range'_1_concat, hLast,
      List.map_append]
    rfl

/-- A fade that ends is the first that has not ended. -/
theorem Upcoming.pop_fade (h : Upcoming first shown faded agenda)
    (hPop : agenda.pop? limit = some (next, rest)) (hFade : next.event.isReveal = false) :
    faded < shown ∧ next = first.fadeAt faded ∧ Upcoming first shown (faded + 1) rest := by
  obtain ⟨-, hLater⟩ := h.now_of_pop? hPop
  have hPending := (Agenda.pop?_eq_some hPop).1
  have hReveals := h.reveals
  have hFades := h.fades
  rw [hPending, List.filter_cons_of_neg (by simp [hFade])] at hReveals
  rw [hPending, List.filter_cons_of_pos (by simp [hFade])] at hFades
  obtain ⟨hLt, rfl, hRest⟩ := map_range'_eq_cons hFades
  exact ⟨by omega, rfl, hLater, hReveals, by rw [hRest, Nat.sub_sub]⟩

/-- Where all that is left comes later, what is due has been shown. -/
theorem Upcoming.lt_shown (h : Upcoming first shown faded agenda)
    (hLeft : ∀ x ∈ agenda.pending, limit < x.due) {i : Nat} (hi : i < first.scrap.entries.length)
    (hDue : first.dueAt i ≤ limit) : i < shown := by
  -- its reveal would still be on the agenda
  by_contra hNot
  have hMem : first.revealAt i ∈ agenda.pending.filter fun x => x.event.isReveal := by
    rw [h.reveals]
    exact List.mem_map.mpr ⟨i, List.mem_range'_1.mpr (by omega), rfl⟩
  have hLater : limit < first.dueAt i := hLeft _ (List.mem_of_mem_filter hMem)
  exact Nat.not_lt_of_le hDue hLater

/-- What is due to have faded has faded. -/
theorem Upcoming.lt_faded (h : Upcoming first shown faded agenda)
    (hLeft : ∀ x ∈ agenda.pending, limit < x.due) {i : Nat} (hi : i < first.scrap.entries.length)
    (hDue : first.dueAt i + first.options.tempo.fade ≤ limit) : i < faded := by
  -- its reveal has fired, and the end of its fade would still be on the agenda
  by_contra hNot
  have hShown := h.lt_shown hLeft hi (Millis.le_trans (Millis.le_add_right _ _) hDue)
  have hMem : first.fadeAt i ∈ agenda.pending.filter fun x => !x.event.isReveal := by
    rw [h.fades]
    exact List.mem_map.mpr ⟨i, List.mem_range'_1.mpr (by omega), rfl⟩
  have hLater : limit < first.dueAt i + first.options.tempo.fade :=
    hLeft _ (List.mem_of_mem_filter hMem)
  exact Nat.not_lt_of_le hDue hLater

end Upcoming

/-! ## What it does -/

/-- No cue changes the options. -/
theorem options_fire (talk : Talk) (cue : Cue) : (talk.fire cue).options = talk.options := by
  cases cue with
  | reveal entry last =>
    obtain ⟨outbox, hReveal⟩ := talk.reveal_eq entry last
    rw [fire, hReveal]
  | fadeEnd entry => rw [fire, endFade_eq]
  | closeEnd number =>
    obtain ⟨registry, outbox, hClosing⟩ := talk.endClosing_eq number
    rw [fire, hClosing]

/-- With animation, a reveal puts the end of its fade on the agenda. -/
theorem agenda_reveal {talk : Talk} (hAnimates : talk.animates = true) (entry : Nat) (last : Bool) :
    (talk.reveal entry last).agenda =
      talk.agenda.schedule (talk.now + talk.options.tempo.fade) (.fadeEnd entry) := by
  obtain ⟨outbox, hReveal⟩ := talk.reveal_eq entry last
  rw [hReveal]
  exact if_pos hAnimates

section Displayed

variable {first talk : Talk} {shown faded : Nat}

/-- As long as a text is displayed on time, its entries are animated. -/
theorem Displayed.animates (h : Displayed first shown faded talk) : talk.animates = true := by
  rw [animates_eq, h.play, h.closing]
  rfl

/-- The entry of a number, with what it had at first. -/
theorem Displayed.marked? (h : Displayed first shown faded talk) {i : Nat} {entry : Entry}
    (hEntry : first.scrap.entries[i]? = some entry) :
    ∃ place e, talk.marked? i = some (place, e) ∧ e.content = entry.content := by
  rw [← Scrap.getElem?_places_bind] at hEntry
  obtain ⟨place, hPlace, hAt⟩ := Option.bind_eq_some_iff.mp hEntry
  -- what stands at the place now has the content that stood there
  have hContent := h.content place
  rw [hAt, Option.map_some, Option.map_eq_some_iff] at hContent
  obtain ⟨e, hNow, hEq⟩ := hContent
  exact ⟨place, e, marked?_eq_some.mpr ⟨by rw [h.marks, hPlace], hNow⟩, hEq⟩

/-- What the next reveal raises. -/
theorem Displayed.firedEvents_reveal (h : Displayed first shown faded talk) {entry : Entry}
    (hEntry : first.scrap.entries[shown]? = some entry) :
    talk.firedEvents (first.revealAt shown).event =
      .shown shown entry.glyph? :: entry.sequel first.scrap.entries shown := by
  obtain ⟨place, e, hMarked, hContent⟩ := h.marked? hEntry
  have hLt := (List.getElem?_eq_some_iff.mp hEntry).1
  -- `played` is pending as long as an entry is left
  have hPlayed : talk.playedEvents .resolved = [.played .resolved] := by
    rw [playedEvents, h.played, if_neg (by omega)]
  simp only [revealAt, firedEvents, revealEvents, shownEvents, emoteEvents, hMarked, h.animates,
    hPlayed, Entry.sequel, Option.map_some, Option.toList_some, Option.bind_some, if_true,
    decide_eq_true_eq, List.singleton_append, Entry.glyph?_congr hContent,
    Entry.emote?_congr hContent]

/-- A cue keeps what the entries say. -/
theorem content_fire (talk : Talk) (cue : Cue) (place : Place) :
    ((talk.fire cue).scrap.entryAt? place).map Entry.content =
      (talk.scrap.entryAt? place).map Entry.content := by
  rw [entryAt?_fire]
  cases cue with
  | reveal entry last =>
    simp only
    split
    · rw [Option.map_map]
      rfl
    · rfl
  | fadeEnd entry =>
    simp only
    split
    · rw [Option.map_map]
      rfl
    · rfl
  | closeEnd number => rfl

/-- The next reveal shows its entry, and the last one completes the text. -/
theorem Displayed.fire_reveal (h : Displayed first shown faded talk)
    (hLt : shown < first.scrap.entries.length) :
    Displayed first (shown + 1) faded (talk.fire (first.revealAt shown).event) := by
  have hOutcome := talk.outcome_fire (first.revealAt shown).event
  have hEntryAt := talk.entryAt?_fire (first.revealAt shown).event
  simp only [revealAt, h.marks, decide_eq_true_eq] at hOutcome hEntryAt ⊢
  refine ⟨hLt, Nat.le_succ_of_le h.faded_le, (talk.options_fire _).trans h.options,
    (talk.marks_fire _).trans h.marks, ?_, ?_, ?_, ?_, ?_, ?_, ?_⟩
  · simp [hOutcome, h.play]
  · simp [hOutcome, h.played, Nat.ne_of_lt hLt]
  · simp [hOutcome, h.closing]
  · simp [hOutcome, h.closed]
  · intro place
    rw [content_fire, h.content]
  · intro i hi place hPlace e hEntry
    -- at the place of the entry it was made visible just now
    rw [hEntryAt] at hEntry
    split at hEntry
    · obtain ⟨old, -, rfl⟩ := Option.map_eq_some_iff.mp hEntry
      rfl
    · rename_i hOther
      have hNe : i ≠ shown := by
        rintro rfl
        exact hOther hPlace
      exact h.visible i (by omega) place hPlace e hEntry
  · intro place e hEntry hFading
    rw [hEntryAt] at hEntry
    split at hEntry
    · -- the entry that fades from now on
      rename_i hPlace
      exact ⟨shown, h.faded_le, Nat.lt_succ_self _, hPlace⟩
    · obtain ⟨i, hFaded, hi, hPlace⟩ := h.fading place e hEntry hFading
      exact ⟨i, hFaded, Nat.lt_succ_of_lt hi, hPlace⟩

/-- The end of a fade leaves its entry shown. -/
theorem Displayed.fire_fade (h : Displayed first shown faded talk) (hLt : faded < shown) :
    Displayed first shown (faded + 1) (talk.fire (first.fadeAt faded).event) := by
  have hOutcome := talk.outcome_fire (first.fadeAt faded).event
  have hEntryAt := talk.entryAt?_fire (first.fadeAt faded).event
  simp only [fadeAt, h.marks] at hOutcome hEntryAt ⊢
  refine ⟨h.shown_le, hLt, (talk.options_fire _).trans h.options,
    (talk.marks_fire _).trans h.marks, (hOutcome _).trans h.play, (hOutcome _).trans h.played,
    (hOutcome _).trans h.closing, (hOutcome _).trans h.closed, ?_, ?_, ?_⟩
  · intro place
    rw [content_fire, h.content]
  · -- the end of its fading leaves an entry visible
    intro i hi place hPlace e hEntry
    rw [hEntryAt] at hEntry
    split at hEntry
    · obtain ⟨old, hOld, rfl⟩ := Option.map_eq_some_iff.mp hEntry
      exact h.visible i hi place hPlace old hOld
    · exact h.visible i hi place hPlace e hEntry
  · intro place e hEntry hFading
    rw [hEntryAt] at hEntry
    split at hEntry
    · obtain ⟨old, -, rfl⟩ := Option.map_eq_some_iff.mp hEntry
      cases hFading
    · rename_i hOther
      obtain ⟨i, hFaded, hi, hPlace⟩ := h.fading place e hEntry hFading
      have hNe : i ≠ faded := by
        rintro rfl
        exact hOther hPlace
      exact ⟨i, by omega, hi, hPlace⟩

end Displayed

/-! ## Both together -/

/-- A cue that comes up is the next reveal or the next end of a fade. -/
theorem playing_fire {first talk : Talk} {shown faded : Nat} {raised : List Event}
    (h : Playing first shown faded talk) (hOrder : first.DueInOrder)
    (hTrace : Trace first.scrap.entries shown faded raised) {limit : Millis} {cue : Cue} {rest : Talk}
    (hPop : talk.pop? limit = some (cue, rest)) :
    ∃ shown' faded', Playing first shown' faded' (rest.fire cue) ∧
      Trace first.scrap.entries shown' faded' (raised ++ rest.firedEvents cue) ∧
      (∀ i, i < shown' → i < shown ∨ first.dueAt i ≤ limit) ∧
      (∀ i, i < faded' → i < faded ∨ first.dueAt i + first.options.tempo.fade ≤ limit) := by
  obtain ⟨⟨next, agenda⟩, hNext, hEq⟩ := Option.map_eq_some_iff.mp hPop
  simp only [Prod.mk.injEq] at hEq
  obtain ⟨rfl, rfl⟩ := hEq
  have hDue := (Agenda.pop?_eq_some hNext).2.1
  have hNow := (h.upcoming.now_of_pop? hNext).1
  have hDisplayed := h.displayed.aside agenda talk.events
  -- the two kinds of cues that a playback has on its agenda
  cases hReveal : next.event.isReveal with
  | true =>
    obtain ⟨hLt, rfl, hUpcoming⟩ :=
      h.upcoming.pop_reveal hOrder h.displayed.faded_le hNext hReveal
    have hEntry := List.getElem?_eq_getElem hLt
    refine ⟨shown + 1, faded, ⟨hDisplayed.fire_reveal hLt, ?_⟩, ?_, ?_, fun i hi => .inl hi⟩
    · have hAgenda : ({ talk with agenda }.fire (first.revealAt shown).event).agenda =
          agenda.schedule (agenda.now + talk.options.tempo.fade) (.fadeEnd shown) :=
        agenda_reveal hDisplayed.animates shown _
      rw [hAgenda, hNow, h.displayed.options]
      exact hUpcoming
    · rw [hDisplayed.firedEvents_reveal hEntry]
      exact hTrace.reveal hEntry
    · intro i hi
      rcases Nat.lt_succ_iff_lt_or_eq.mp hi with hOld | rfl
      · exact .inl hOld
      · exact .inr hDue
  | false =>
    obtain ⟨hLt, rfl, hUpcoming⟩ := h.upcoming.pop_fade hNext hReveal
    refine ⟨shown, faded + 1, ⟨hDisplayed.fire_fade hLt, ?_⟩, hTrace.endFade hLt,
      fun i hi => .inl hi, ?_⟩
    · have hAgenda : ({ talk with agenda }.fire (first.fadeAt faded).event).agenda = agenda :=
        agenda_endFade _ faded
      rw [hAgenda]
      exact hUpcoming
    · -- the entry whose fading has ended was due to end now
      intro i hi
      rcases Nat.lt_succ_iff_lt_or_eq.mp hi with hOld | rfl
      · exact .inl hOld
      · exact .inr hDue

end Talk

end Dialogue
