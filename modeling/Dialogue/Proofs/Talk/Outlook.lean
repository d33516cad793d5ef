import Dialogue.Proofs.Talk.Ticking
import Dialogue.Proofs.Talk.Underway

/-!
# What a playback comes to

Whoever looks at a talk can tell how it will look when nothing is left on its agenda: an entry whose reveal
waits there will be visible, and a fade whose end waits there will have ended. No move changes this
outlook, in whatever order the cues fire, and so all ways to play a talk to its end come to the same.

Main results:

* `Talk.Move.outlook?` — no move changes the outlook at a place.
* `Talk.Plays.scrap_eq` — two ways to the end come to the same scrap.
* `Talk.Underway.shown_eq`, `Talk.Underway.played_eq` — at the end all entries were shown, and the text is
  complete.
-/

namespace Dialogue

/-- The number of the entry whose fade a cue ends. -/
def Cue.faded? : Cue → Option Nat
  | fadeEnd entry => some entry
  | reveal .. | closeEnd _ => none

namespace Talk

/-! ## What waits for a place -/

/-- Whether an entry, by its number, is the one at a place. -/
def isAt (talk : Talk) (place : Place) (number : Option Nat) : Bool :=
  number.any fun i => talk.marks[i]? = some place

/-- Whether a cue with the number of the entry at a place is on an agenda. -/
def awaitsAt (talk : Talk) (place : Place) (number? : Cue → Option Nat)
    (pending : List (Appointment Cue)) : Bool :=
  pending.any fun x => talk.isAt place (number? x.event)

/-- How the entry at a place will look in the end. -/
def outlook? (talk : Talk) (place : Place) : Option Entry :=
  (talk.scrap.entryAt? place).map fun e =>
    let shows := talk.awaitsAt place Cue.revealed? talk.agenda.pending
    { e with
      visible := e.visible || shows
      fading := e.fading && !shows && !talk.awaitsAt place Cue.faded? talk.agenda.pending }

/-- In the end, an entry looks as it was to be expected. -/
theorem outlook?_of_done {talk : Talk} (hDone : talk.agenda.pending = []) (place : Place) :
    talk.outlook? place = talk.scrap.entryAt? place := by
  unfold outlook? awaitsAt
  rw [hDone]
  cases talk.scrap.entryAt? place with
  | none => rfl
  | some e => simp

section Fire

variable (talk : Talk) (place : Place) (number? : Cue → Option Nat)

/-- One more appointment is waited for as well as the others. -/
theorem awaitsAt_insertLast (x : Appointment Cue) (pending : List (Appointment Cue)) :
    talk.awaitsAt place number? (Agenda.insertLast x pending) =
      (talk.isAt place (number? x.event) || talk.awaitsAt place number? pending) := by
  unfold awaitsAt
  rw [(Agenda.perm_insertLast x pending).any_eq, List.any_cons]

/-- The cue that is taken was awaited, beside those that are left. -/
theorem awaitsAt_of_taken {agenda rest : Agenda Cue} {cue : Cue} (hTaken : Taken agenda cue rest) :
    talk.awaitsAt place number? agenda.pending =
      (talk.isAt place (number? cue) || talk.awaitsAt place number? rest.pending) := by
  obtain ⟨due, hPerm⟩ := hTaken.exists_perm
  unfold awaitsAt
  rw [hPerm.any_eq, List.any_cons]

/-- A cue that fires puts the end of a fade on the agenda if it is a reveal, and nothing else. -/
theorem awaitsAt_fire (cue : Cue) :
    (talk.fire cue).awaitsAt place number? (talk.fire cue).agenda.pending =
      (talk.awaitsAt place number? talk.agenda.pending ||
        match cue with
        | .reveal entry _ => talk.animates && talk.isAt place (number? (.fadeEnd entry))
        | .fadeEnd _ | .closeEnd _ => false) := by
  have hMarks : ∀ pending, (talk.fire cue).awaitsAt place number? pending =
      talk.awaitsAt place number? pending := by
    intro pending
    unfold awaitsAt isAt
    rw [marks_fire]
  rw [hMarks]
  cases cue with
  | reveal entry last =>
    obtain ⟨outbox, hReveal⟩ := talk.reveal_eq entry last
    rw [fire, hReveal]
    cases hAnimates : talk.animates with
    | true =>
      simp only [if_true, Agenda.pending_schedule, awaitsAt_insertLast, Bool.true_and]
      exact Bool.or_comm _ _
    | false => simp
  | fadeEnd entry => rw [fire, agenda_endFade, Bool.or_false]
  | closeEnd number => rw [fire, agenda_endClosing, Bool.or_false]

end Fire

/-! ## The outlook -/

/-- No move changes how an entry will look in the end. -/
theorem Move.outlook? {talk later : Talk} {raised : List Event} (hMove : Move talk raised later)
    (place : Place) : later.outlook? place = talk.outlook? place := by
  cases hMove with
  | quiet hAlike =>
    unfold Talk.outlook? awaitsAt isAt
    rw [hAlike.scrap, hAlike.pending, hAlike.marks]
  | skip hPlaying => rfl
  | fire hTaken =>
    rename_i cue rest
    have hShows := talk.awaitsAt_of_taken place Cue.revealed? hTaken
    have hFades := talk.awaitsAt_of_taken place Cue.faded? hTaken
    have hShowsLater := awaitsAt_fire { talk with agenda := rest } place Cue.revealed? cue
    have hFadesLater := awaitsAt_fire { talk with agenda := rest } place Cue.faded? cue
    have hSame : ∀ number? pending, awaitsAt { talk with agenda := rest } place number? pending =
        talk.awaitsAt place number? pending := fun _ _ => rfl
    rw [hSame] at hShowsLater hFadesLater
    have hAnimates : animates { talk with agenda := rest } = talk.animates := rfl
    unfold Talk.outlook?
    rw [hShowsLater, hFadesLater, hShows, hFades, entryAt?_fire]
    cases talk.scrap.entryAt? place with
    | none => cases cue <;> simp
    | some e =>
      -- the entry is the one with the number of the cue, or another one
      cases cue with
      | reveal entry last =>
        -- what the cue has done now is no longer to come, and the end of a fading has taken its place
        by_cases hMark : talk.marks[entry]? = some place
        · cases hFading : talk.animates <;>
            simp [hMark, isAt, Cue.revealed?, Cue.faded?, hAnimates, hFading]
        · simp [hMark, isAt, Cue.revealed?, Cue.faded?]
      | fadeEnd entry =>
        by_cases hMark : talk.marks[entry]? = some place
        · simp [hMark, isAt, Cue.revealed?, Cue.faded?]
        · simp [hMark, isAt, Cue.revealed?, Cue.faded?]
      | closeEnd number => simp [isAt, Cue.revealed?, Cue.faded?]

/-- As long as a talk only plays, what is to come of an entry stays the same. -/
theorem Plays.outlook? {talk later : Talk} {raised : List Event}
    (hPlays : Plays talk raised later) (place : Place) :
    later.outlook? place = talk.outlook? place := by
  induction hPlays with
  | refl talk => rfl
  | move hMove hRest ih => rw [ih, hMove.outlook?]

/-- Playing changes no content. -/
theorem Plays.bare {talk later : Talk} {raised : List Event} (hPlays : Plays talk raised later) :
    later.scrap.bare = talk.scrap.bare := by
  induction hPlays with
  | refl talk => rfl
  | move hMove hRest ih => rw [ih, hMove.bare]

/-- Two ways to the end come to the same scrap, down to the times of its entries. -/
theorem Plays.scrap_eq {talk later other : Talk} {raised more : List Event}
    (h : Plays talk raised later) (h' : Plays talk more other)
    (hDone : later.agenda.pending = []) (hDone' : other.agenda.pending = []) :
    later.scrap = other.scrap := by
  refine Scrap.eq_of_bare_eq (h.bare.trans h'.bare.symm) fun place => ?_
  rw [← outlook?_of_done hDone, ← outlook?_of_done hDone', h.outlook?, h'.outlook?]

/-! ## The end of the text -/

/-- What was shown is known from the numbers of the entries. -/
theorem Faithful.shownGlyph_eq {first talk : Talk} {raised : List Event}
    (h : Faithful first raised talk) :
    raised.filterMap Event.shownGlyph? = (raised.filterMap Event.shown?).map fun i =>
      (i, (first.scrap.entries[i]?).bind Entry.glyph?) := by
  rw [List.map_filterMap]
  refine List.filterMap_congr fun event hMem => ?_
  cases event with
  | shown i glyph =>
    obtain ⟨e, hEntry, rfl⟩ := h.words i glyph hMem
    simp [Event.shownGlyph?, Event.shown?, hEntry]
  | _ => rfl

namespace Underway

variable {first talk : Talk} {raised : List Event}

/-- As long as a talk is open, an entry that was not shown is left. -/
theorem shown_or_left (hIdle : first.agenda.pending = []) (h : Underway first raised talk)
    (hOpen : talk.outcome .closing = none) {i : Nat} (hi : i < first.scrap.entries.length) :
    i ∈ raised.filterMap Event.shown? ∨ i ∈ talk.revealsLeft := by
  obtain ⟨left, hOrder, hLeft⟩ := h.faithful.progress.shown
  have hMem := (mem_order hIdle).mpr hi
  rw [← hOrder] at hMem
  rw [hLeft hOpen]
  exact List.mem_append.mp hMem

/-- When nothing is left on the agenda of an open talk, all entries were shown. -/
theorem shown_eq (h : Underway first raised talk) (hOpen : talk.outcome .closing = none)
    (hDone : talk.agenda.pending = []) : raised.filterMap Event.shown? = first.order := by
  obtain ⟨left, hOrder, hLeft⟩ := h.faithful.progress.shown
  have hNone : left = [] := by
    rw [← hLeft hOpen, revealsLeft, hDone]
    rfl
  rw [← hOrder, hNone, List.append_nil]

/-- When nothing is left to be done, all entries have been shown in their order. -/
theorem shownGlyph_of_done (h : Underway first raised talk)
    (hOpen : talk.outcome .closing = none) (hDone : talk.agenda.pending = []) :
    raised.filterMap Event.shownGlyph? = first.order.map fun i =>
      (i, (first.scrap.entries[i]?).bind Entry.glyph?) := by
  rw [h.faithful.shownGlyph_eq, h.shown_eq hOpen hDone]

/-- Where no cue is pending the text is complete: `played` has been resolved. -/
theorem played_eq (h : Underway first raised talk) (hOpen : Open talk)
    (hDone : talk.agenda.pending = []) : talk.outcome .played = some .resolved := by
  rcases h.concludes with hPlayed | ⟨x, hMem, -⟩
  · obtain ⟨outcome, hOutcome⟩ := Option.ne_none_iff_exists'.mp hPlayed
    cases outcome with
    | resolved => exact hOutcome
    | abandoned => exact absurd hOutcome hOpen.played
  · rw [hDone] at hMem
    cases hMem

end Underway

end Talk

end Dialogue
