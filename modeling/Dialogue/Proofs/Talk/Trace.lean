import Dialogue.Proofs.Talk.Lifecycle

/-!
# The trace of a playback

A talk that is only played shows its entries in document order and ends their fades in document order.
A `Trace` builds up what it raises, one cue after the other: a cue that shows an entry raises its whole
block, with the emote and the end of the text right behind the entry. `Playback` says, for a time, what
has been raised by then.

Main results:

* `Trace.shown`, `Trace.faded`, `Trace.played` — how often what is raised.
* `Trace.faded_after`, `Trace.emote_after`, `Trace.emote_only`, `Trace.played_after` — and next to what.
* `Trace.playback` — a trace up to all that is due by a time is the playback by that time.
-/

namespace Dialogue

namespace Event

/-- The entry in a `shown` event, with its glyph. -/
def shownGlyph? : Event → Option (Nat × Option Char)
  | shown entry glyph => some (entry, glyph)
  | emote .. | faded _ | played _ | sectionClosing _ | sectionClosed _ | closed => none

/-- The entry in a `faded` event. -/
def faded? : Event → Option Nat
  | faded entry => some entry
  | shown .. | emote .. | played _ | sectionClosing _ | sectionClosed _ | closed => none

end Event

/-- What a playback has raised by a time, where entry `i` is due at `due i`. -/
structure Playback (entries : List Entry) (due : Nat → Millis) (fade time : Millis)
    (events : List Event) : Prop where
  /-- The entries that are due, each with its glyph, once and in document order. -/
  shown : events.filterMap Event.shownGlyph? =
    ((List.range entries.length).filter fun i => due i ≤ time).map fun i =>
      (i, (entries[i]?).bind Entry.glyph?)
  /-- The entries whose fade has ended, once and in document order. -/
  faded : events.filterMap Event.faded? =
    (List.range entries.length).filter fun i => due i + fade ≤ time
  fadedAfter : ∀ before after i, events = before ++ .faded i :: after →
    ∃ glyph, .shown i glyph ∈ before
  emoteAfter : ∀ before after i glyph name, events = before ++ .shown i glyph :: after →
    (entries[i]?).bind Entry.emote? = some name → ∃ rest, after = .emote i name :: rest
  emoteOnly : ∀ before after i name, events = before ++ .emote i name :: after →
    (entries[i]?).bind Entry.emote? = some name ∧
      ∃ earlier glyph, before = earlier ++ [.shown i glyph]
  /-- The text is complete with its last entry, or at once if it has none. -/
  played : events.filterMap Event.played? =
    if entries = [] ∨ due (entries.length - 1) ≤ time then [.resolved] else []
  playedAfter : ∀ before after outcome, events = before ++ .played outcome :: after →
    (entries = [] ∧ before = []) ∨
      ∃ earlier glyph, before = earlier ++ [.shown (entries.length - 1) glyph]
  only : ∀ event ∈ events, event.isShowing = true ∨ event = .played .resolved

/-- What the reveal of entry `i` raises right behind the entry: its emote, and the end of the text. -/
def Entry.sequel (entries : List Entry) (i : Nat) (entry : Entry) : List Event :=
  (entry.emote?.map (Event.emote i)).toList ++
    if i + 1 = entries.length then [.played .resolved] else []

/-- Events of a playback that has shown the first `shown` entries and ended the first `faded` fades. -/
inductive Trace (entries : List Entry) : (shown faded : Nat) → List Event → Prop where
  | start : Trace entries 0 0 (if entries = [] then [.played .resolved] else [])
  | reveal {shown faded : Nat} {events : List Event} {entry : Entry}
      (h : Trace entries shown faded events) (hEntry : entries[shown]? = some entry) :
      Trace entries (shown + 1) faded
        (events ++ .shown shown entry.glyph? :: entry.sequel entries shown)
  | endFade {shown faded : Nat} {events : List Event} (h : Trace entries shown faded events)
      (hLt : faded < shown) : Trace entries shown (faded + 1) (events ++ [.faded faded])

/-- Behind an entry come its emote, and `played` if it is the last one. -/
theorem Entry.mem_sequel {entries : List Entry} {i : Nat} {entry : Entry} {event : Event} :
    event ∈ entry.sequel entries i ↔
      (∃ name, entry.emote? = some name ∧ event = .emote i name) ∨
        i + 1 = entries.length ∧ event = .played .resolved := by
  -- both parts of the sequel are lists of one event at most
  rw [sequel, List.mem_append, Option.mem_toList, Option.map_eq_some_iff]
  constructor
  · rintro (⟨name, hName, rfl⟩ | hPlayed)
    · exact .inl ⟨name, hName, rfl⟩
    · split at hPlayed
      · rename_i hLast
        exact .inr ⟨hLast, List.mem_singleton.mp hPlayed⟩
      · cases hPlayed
  · rintro (⟨name, hName, rfl⟩ | ⟨hLast, rfl⟩)
    · exact .inl ⟨name, hName, rfl⟩
    · rw [if_pos hLast]
      exact .inr (List.mem_singleton.mpr rfl)

namespace Trace

variable {entries : List Entry} {shown faded : Nat} {events : List Event}

/-- No more entries have faded than were shown, and no more were shown than there are. -/
theorem bounds (h : Trace entries shown faded events) :
    faded ≤ shown ∧ shown ≤ entries.length := by
  induction h with
  | start => exact ⟨Nat.le_refl _, Nat.zero_le _⟩
  | reveal h hEntry ih =>
    have hLt := (List.getElem?_eq_some_iff.mp hEntry).1
    omega
  | endFade h hLt ih => omega

theorem mem_start {event : Event}
    (hMem : event ∈ if entries = [] then [Event.played .resolved] else []) :
    entries = [] ∧ event = .played .resolved := by
  split at hMem
  · rename_i hEmpty
    exact ⟨hEmpty, List.mem_singleton.mp hMem⟩
  · cases hMem

/-! ## What is raised, and how often -/

theorem filterMap_sequel {β : Type} {f : Event → Option β} (entries : List Entry) (i : Nat)
    (entry : Entry) (hEmote : ∀ name, f (.emote i name) = none) :
    (entry.sequel entries i).filterMap f =
      if i + 1 = entries.length then (f (.played .resolved)).toList else [] := by
  -- the emote is passed over
  have hNone : ((entry.emote?.map (Event.emote i)).toList).filterMap f = [] := by
    cases entry.emote? with
    | none => rfl
    | some name => simp [hEmote]
  rw [Entry.sequel, List.filterMap_append, hNone, List.nil_append]
  split
  · cases hPlayed : f (.played .resolved) <;> simp [hPlayed]
  · rfl

/-- The entries that were shown are the first ones, in their order, with their characters. -/
theorem shown_eq (h : Trace entries shown faded events) :
    events.filterMap Event.shownGlyph? =
      (List.range shown).map fun i => (i, (entries[i]?).bind Entry.glyph?) := by
  -- only a reveal shows an entry, the next one
  induction h with
  | start => split <;> rfl
  | reveal h hEntry ih =>
    rw [List.filterMap_append, ih, List.filterMap_cons, filterMap_sequel _ _ _ fun _ => rfl,
      List.range_succ, List.map_append]
    simp [Event.shownGlyph?, hEntry]
  | endFade h hLt ih =>
    rw [List.filterMap_append, ih]
    exact List.append_nil _

/-- The entries that have faded are the first ones, in their order. -/
theorem faded_eq (h : Trace entries shown faded events) :
    events.filterMap Event.faded? = List.range faded := by
  induction h with
  | start => split <;> rfl
  | reveal h hEntry ih =>
    rw [List.filterMap_append, ih, List.filterMap_cons_none rfl, filterMap_sequel _ _ _ fun _ => rfl]
    simp [Event.faded?]
  | endFade h hLt ih =>
    rw [List.filterMap_append, ih, List.range_succ]
    rfl

/-- `played` has been raised, and once, exactly if all entries were shown. -/
theorem played_eq (h : Trace entries shown faded events) :
    events.filterMap Event.played? = if shown = entries.length then [.resolved] else [] := by
  -- `played` comes with the reveal after which all entries are shown
  induction h with
  | start =>
    cases entries with
    | nil => rfl
    | cons e rest => rfl
  | reveal h hEntry ih =>
    have hLt := (List.getElem?_eq_some_iff.mp hEntry).1
    rw [List.filterMap_append, ih, List.filterMap_cons_none rfl, filterMap_sequel _ _ _ fun _ => rfl,
      if_neg (by omega)]
    rfl
  | endFade h hLt ih =>
    rw [List.filterMap_append, ih]
    exact List.append_nil _

/-- A trace tells only of showing, and of the end of the play. -/
theorem only (h : Trace entries shown faded events) :
    ∀ event ∈ events, event.isShowing = true ∨ event = .played .resolved := by
  -- an event is an old one, or was raised by the last step
  induction h with
  | start =>
    intro event hMem
    exact .inr (mem_start hMem).2
  | reveal h hEntry ih =>
    intro event hMem
    rcases List.mem_append.mp hMem with hOld | hNew
    · exact ih event hOld
    · rcases List.mem_cons.mp hNew with rfl | hSequel
      · exact .inl rfl
      · rcases Entry.mem_sequel.mp hSequel with ⟨name, -, rfl⟩ | ⟨-, rfl⟩
        · exact .inl rfl
        · exact .inr rfl
  | endFade h hLt ih =>
    intro event hMem
    rcases List.mem_append.mp hMem with hOld | hNew
    · exact ih event hOld
    · rw [List.mem_singleton.mp hNew]
      exact .inl rfl

/-! ## What stands next to it -/

/-- Every fade comes after its entry. -/
theorem faded_after (h : Trace entries shown faded events) {before after : List Event} {i : Nat}
    (hSplit : events = before ++ .faded i :: after) : ∃ glyph, .shown i glyph ∈ before := by
  induction h generalizing after with
  | start =>
    have hMem := Talk.mem_of_split hSplit
    cases (mem_start hMem).2
  | reveal h hEntry ih =>
    -- a reveal ends no fade, so the event was there before
    rcases Talk.split_append_cases hSplit with ⟨rest, hOld, -⟩ | ⟨middle, -, hNew⟩
    · exact ih hOld
    · have hMem := Talk.mem_of_split hNew
      rcases List.mem_cons.mp hMem with hEq | hSequel
      · cases hEq
      · rcases Entry.mem_sequel.mp hSequel with ⟨name, -, hEq⟩ | ⟨-, hEq⟩ <;> cases hEq
  | @endFade shown faded events h hLt ih =>
    rcases Talk.split_append_cases hSplit with ⟨rest, hOld, -⟩ | ⟨middle, hBefore, hNew⟩
    · exact ih hOld
    · obtain ⟨rfl, hEq, -⟩ : middle = [] ∧ Event.faded i = .faded faded ∧ after = [] := by
        rw [eq_comm, List.append_eq_singleton_iff] at hNew
        simpa using hNew
      cases hEq
      -- the entry is among those shown so far
      have hShown : (i, (entries[i]?).bind Entry.glyph?) ∈
          events.filterMap Event.shownGlyph? := by
        rw [h.shown_eq]
        exact List.mem_map.mpr ⟨i, List.mem_range.mpr hLt, rfl⟩
      obtain ⟨event, hMem, hEvent⟩ := List.mem_filterMap.mp hShown
      rw [hBefore, List.append_nil]
      cases event with
      | shown entry glyph =>
        cases hEvent
        exact ⟨_, hMem⟩
      | _ => cases hEvent

/-- Right after an entry that is an emote comes the emote. -/
theorem emote_after (h : Trace entries shown faded events) {before after : List Event} {i : Nat}
    {glyph : Option Char} {name : String} (hSplit : events = before ++ .shown i glyph :: after)
    (hEmote : (entries[i]?).bind Entry.emote? = some name) :
    ∃ rest, after = .emote i name :: rest := by
  induction h generalizing after with
  | start =>
    have hMem := Talk.mem_of_split hSplit
    cases (mem_start hMem).2
  | reveal h hEntry ih =>
    rcases Talk.split_append_cases hSplit with ⟨rest, hOld, rfl⟩ | ⟨middle, -, hNew⟩
    · obtain ⟨more, rfl⟩ := ih hOld
      exact ⟨_, rfl⟩
    · cases middle with
      | nil =>
        simp only [List.nil_append, List.cons.injEq, Event.shown.injEq] at hNew
        obtain ⟨⟨rfl, -⟩, rfl⟩ := hNew
        rw [hEntry, Option.bind_some] at hEmote
        rw [Entry.sequel, hEmote]
        exact ⟨_, rfl⟩
      | cons first middle =>
        -- nothing is shown by what comes after an entry
        rw [List.cons_append, List.cons.injEq] at hNew
        have hMem := Talk.mem_of_split hNew.2
        rcases Entry.mem_sequel.mp hMem with ⟨_, -, hEq⟩ | ⟨-, hEq⟩ <;> cases hEq
  | endFade h hLt ih =>
    rcases Talk.split_append_cases hSplit with ⟨rest, hOld, rfl⟩ | ⟨middle, -, hNew⟩
    · obtain ⟨more, rfl⟩ := ih hOld
      exact ⟨_, rfl⟩
    · have hMem := Talk.mem_of_split hNew
      cases List.mem_singleton.mp hMem

/-- An emote comes right after its entry, and after no other one. -/
theorem emote_only (h : Trace entries shown faded events) {before after : List Event} {i : Nat}
    {name : String} (hSplit : events = before ++ .emote i name :: after) :
    (entries[i]?).bind Entry.emote? = some name ∧
      ∃ earlier glyph, before = earlier ++ [.shown i glyph] := by
  induction h generalizing after with
  | start =>
    have hMem := Talk.mem_of_split hSplit
    cases (mem_start hMem).2
  | @reveal shown faded events entry h hEntry ih =>
    rcases Talk.split_append_cases hSplit with ⟨rest, hOld, -⟩ | ⟨middle, hBefore, hNew⟩
    · exact ih hOld
    · cases middle with
      | nil => cases hNew
      | cons first middle =>
        rw [List.cons_append, List.cons.injEq] at hNew
        obtain ⟨rfl, hSequel⟩ := hNew
        have hMem := Talk.mem_of_split hSequel
        rcases Entry.mem_sequel.mp hMem with ⟨_, hEmote, hEq⟩ | ⟨-, hEq⟩
        · cases hEq
          refine ⟨by rw [hEntry]; exact hEmote, events, entry.glyph?, ?_⟩
          -- the emote is the first thing raised after the entry
          rw [Entry.sequel, hEmote] at hSequel
          cases middle with
          | nil => exact hBefore
          | cons second middle =>
            simp only [Option.map_some, Option.toList_some, List.cons_append, List.nil_append,
              List.cons.injEq] at hSequel
            have hLate := Talk.mem_of_split hSequel.2
            split at hLate
            · cases List.mem_singleton.mp hLate
            · cases hLate
        · cases hEq
  | endFade h hLt ih =>
    rcases Talk.split_append_cases hSplit with ⟨rest, hOld, -⟩ | ⟨middle, -, hNew⟩
    · exact ih hOld
    · have hMem := Talk.mem_of_split hNew
      cases List.mem_singleton.mp hMem

/-- The text is complete right after its last entry, or at once if it has none. -/
theorem played_after (h : Trace entries shown faded events)
    (hLast : ∀ e, entries[entries.length - 1]? = some e → e.emote? = none)
    {before after : List Event} {outcome : Outcome}
    (hSplit : events = before ++ .played outcome :: after) :
    (entries = [] ∧ before = []) ∨
      ∃ earlier glyph, before = earlier ++ [.shown (entries.length - 1) glyph] := by
  induction h generalizing after with
  | start =>
    left
    have hMem := Talk.mem_of_split hSplit
    obtain ⟨hEmpty, -⟩ := mem_start hMem
    rw [if_pos hEmpty, eq_comm, List.append_eq_singleton_iff] at hSplit
    rcases hSplit with ⟨hBefore, -⟩ | ⟨-, hNone⟩
    · exact ⟨hEmpty, hBefore⟩
    · cases hNone
  | @reveal shown faded events entry h hEntry ih =>
    rcases Talk.split_append_cases hSplit with ⟨rest, hOld, -⟩ | ⟨middle, hBefore, hNew⟩
    · exact ih hOld
    · right
      cases middle with
      | nil => cases hNew
      | cons first middle =>
        rw [List.cons_append, List.cons.injEq] at hNew
        obtain ⟨rfl, hSequel⟩ := hNew
        have hMem := Talk.mem_of_split hSequel
        rcases Entry.mem_sequel.mp hMem with ⟨_, -, hEq⟩ | ⟨hEnd, -⟩
        · cases hEq
        · -- the last entry is no emote
          have hShown : entries.length - 1 = shown := by omega
          have hNone := hLast entry (by rw [hShown]; exact hEntry)
          rw [Entry.sequel, hNone, if_pos hEnd] at hSequel
          have hMiddle : middle = [] := by
            have hSingle : middle ++ .played outcome :: after = [.played .resolved] := hSequel.symm
            rw [List.append_eq_singleton_iff] at hSingle
            rcases hSingle with ⟨hMiddle, -⟩ | ⟨-, hNone⟩
            · exact hMiddle
            · cases hNone
          exact ⟨events, entry.glyph?, by rw [hBefore, hMiddle, hShown]⟩
  | endFade h hLt ih =>
    rcases Talk.split_append_cases hSplit with ⟨rest, hOld, -⟩ | ⟨middle, -, hNew⟩
    · exact ih hOld
    · have hMem := Talk.mem_of_split hNew
      cases List.mem_singleton.mp hMem

/-! ## By a time -/

/-- The first numbers are those that meet a condition which the others do not meet. -/
theorem filter_range_eq {n k : Nat} (hLe : k ≤ n) {p : Nat → Bool}
    (hIff : ∀ i, i < n → (i < k ↔ p i = true)) : (List.range n).filter p = List.range k := by
  obtain ⟨m, rfl⟩ := Nat.exists_eq_add_of_le hLe
  rw [List.range_add, List.filter_append]
  -- all of the first `k` meet it, and none of the rest
  have hFirst : (List.range k).filter p = List.range k := by
    refine List.filter_eq_self.mpr ?_
    intro i hMem
    have hLt := List.mem_range.mp hMem
    exact (hIff i (by omega)).mp hLt
  have hRest : ((List.range m).map (k + ·)).filter p = [] := by
    refine List.filter_eq_nil_iff.mpr ?_
    intro i hMem
    obtain ⟨j, hj, rfl⟩ := List.mem_map.mp hMem
    have hLt := List.mem_range.mp hj
    intro hp
    have := (hIff (k + j) (by omega)).mpr hp
    omega
  rw [hFirst, hRest, List.append_nil]

/-- A trace up to all that is due by a time is what the playback has raised by that time. -/
theorem playback (h : Trace entries shown faded events) {due : Nat → Millis} {fade time : Millis}
    (hLast : ∀ e, entries[entries.length - 1]? = some e → e.emote? = none)
    (hShown : ∀ i, i < entries.length → (i < shown ↔ due i ≤ time))
    (hFaded : ∀ i, i < entries.length → (i < faded ↔ due i + fade ≤ time)) :
    Playback entries due fade time events where
  shown := by
    rw [h.shown_eq, filter_range_eq h.bounds.2 fun i hi => by rw [hShown i hi, decide_eq_true_eq]]
  faded := by
    have hLe := Nat.le_trans h.bounds.1 h.bounds.2
    rw [h.faded_eq, filter_range_eq hLe fun i hi => by rw [hFaded i hi, decide_eq_true_eq]]
  fadedAfter before after i hSplit := h.faded_after hSplit
  emoteAfter before after i glyph name hSplit hEmote := h.emote_after hSplit hEmote
  emoteOnly before after i name hSplit := h.emote_only hSplit
  played := by
    have hBounds := h.bounds
    -- the last entry is shown exactly when all are
    have hAll : shown = entries.length ↔ entries = [] ∨ due (entries.length - 1) ≤ time := by
      cases entries with
      | nil =>
        simp only [List.length_nil, true_or, iff_true]
        simpa using hBounds.2
      | cons e rest =>
        rw [← hShown _ (by simp)]
        simp only [List.length_cons, reduceCtorEq, false_or] at hBounds ⊢
        omega
    rw [h.played_eq]
    simp only [hAll]
  playedAfter before after outcome hSplit := h.played_after hLast hSplit
  only := h.only

end Trace

end Dialogue
