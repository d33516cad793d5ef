import Dialogue.Proofs.Talk.Numbering
import Dialogue.Proofs.Talk.Renumbering
import Dialogue.Proofs.Talk.Slicing

/-!
# A talk under other numbers

What a talk does depends neither on its own number nor on the numbers of its sections. Two talks are
counterparts if they differ in nothing else, apart from their registries and what they log; the same
operations then have the same replies, up to these numbers, and lead to counterparts again. The registry
comes in where a section starts, and takes its number from there.

Main results:

* `Talk.Counterpart.direct`, `Talk.Counterpart.fireDue`, `Talk.Counterpart.beginClosing` — writing, playing
  and closing.
* `Talk.Counterpart.perform` — all operations.
-/

namespace Dialogue.Talk

/-- A talk that is the same as another one, but for its own number and those of its sections, its registry,
and what it logs. -/
structure Counterpart (f : Nat → Nat) (talk other : Talk) : Prop where
  /-- Different sections have different numbers. -/
  injective : Function.Injective f
  options : other.options = talk.options
  scrap : Scrap.Renumbered f talk.scrap other.scrap
  areas : other.areas = talk.areas.renumber f
  currentSection : other.currentSection = talk.currentSection.map f
  agenda : other.agenda = talk.agenda.map (Cue.renumber f)
  startTime : other.startTime = talk.startTime
  marks : other.marks = talk.marks
  lifecycle : other.lifecycle = talk.lifecycle
  closingSections : other.closingSections = talk.closingSections.map f
  closesLeft : other.closesLeft = talk.closesLeft
  performer : other.performer = talk.performer
  events : other.events = talk.events.map (Event.renumber f)
  notices : other.outbox.notices = talk.outbox.notices
  emotes : other.outbox.emotes = talk.outbox.emotes

namespace Counterpart

variable {f : Nat → Nat} {talk other : Talk}

/-! ## Looking at a talk and telling the outside -/

theorem now (h : Counterpart f talk other) : other.now = talk.now := by
  rw [Talk.now, Talk.now, h.agenda]
  rfl

theorem isPending (h : Counterpart f talk other) (milestone : Milestone) :
    other.isPending milestone = talk.isPending milestone := by
  rw [Talk.isPending, Talk.isPending, h.lifecycle]

theorem outcome (h : Counterpart f talk other) (milestone : Milestone) :
    other.outcome milestone = talk.outcome milestone := by
  rw [Talk.outcome, Talk.outcome, h.lifecycle]

theorem isClosing (h : Counterpart f talk other) : other.isClosing = talk.isClosing := by
  rw [Talk.isClosing, Talk.isClosing, h.isPending]

theorem animates (h : Counterpart f talk other) : other.animates = talk.animates := by
  rw [Talk.animates, Talk.animates, h.isPending, h.isPending]

/-- The counterpart has the same sections under their other numbers. -/
theorem numbers (h : Counterpart f talk other) : other.scrap.numbers = talk.scrap.numbers.map f := by
  have hSections : other.scrap.sections = talk.scrap.sections.map (Section.renumber f) := h.scrap
  rw [Scrap.numbers, Scrap.numbers, hSections, List.map_map, List.map_map]
  rfl

/-- What is logged does not count. -/
theorem report (h : Counterpart f talk other) (severity severity' : Severity)
    (text text' : String) :
    Counterpart f (talk.report severity text) (other.report severity' text') := { h with }

/-- Both raise an event, each with its own number. -/
theorem raise (h : Counterpart f talk other) (event : Event) :
    Counterpart f (talk.raise event) (other.raise (event.renumber f)) :=
  { h with
    events := by
      show other.events ++ _ = (talk.events ++ _).map _
      rw [h.events, List.map_append]
      rfl }

/-- Both settle a milestone, and the same observers are told. -/
theorem settle (h : Counterpart f talk other) (milestone : Milestone) (outcome : Outcome) :
    Counterpart f (talk.settle milestone outcome) (other.settle milestone outcome) :=
  { h with
    lifecycle := by
      show other.lifecycle.settle milestone outcome = _
      rw [h.lifecycle]
      rfl
    notices := by
      show other.outbox.notices ++ other.lifecycle.settleNotices milestone outcome = _
      rw [h.notices, h.lifecycle]
      rfl }

/-- Both take an observer, and tell it the same. -/
theorem observe (h : Counterpart f talk other) (milestone : Milestone) (observer : Observer) :
    Counterpart f (talk.observe milestone observer) (other.observe milestone observer) :=
  { h with
    lifecycle := by
      show other.lifecycle.observe milestone observer = _
      rw [h.lifecycle]
      rfl
    notices := by
      show other.outbox.notices ++ other.lifecycle.observeNotices milestone observer = _
      rw [h.notices, h.lifecycle]
      rfl }

theorem withScrap (h : Counterpart f talk other) {scrap scrap' : Scrap}
    (hScrap : Scrap.Renumbered f scrap scrap') :
    Counterpart f { talk with scrap } { other with scrap := scrap' } := { h with scrap := hScrap }

/-- Both schedule a cue for the same time. -/
theorem schedule (h : Counterpart f talk other) {due due' : Millis} (hDue : due' = due) (cue : Cue) :
    Counterpart f { talk with agenda := talk.agenda.schedule due cue }
      { other with agenda := other.agenda.schedule due' (cue.renumber f) } :=
  { h with agenda := by rw [h.agenda, hDue, Agenda.schedule_map] }

/-- Both call the performer with the same emotes. -/
theorem withEmotes (h : Counterpart f talk other) (calls : List (String × String)) :
    Counterpart f
      { talk with outbox := { talk.outbox with emotes := talk.outbox.emotes ++ calls } }
      { other with outbox := { other.outbox with emotes := other.outbox.emotes ++ calls } } :=
  { h with
    emotes := by
      show other.outbox.emotes ++ calls = _
      rw [h.emotes] }

/-- Both change the same area, under its number. -/
theorem modifyArea (h : Counterpart f talk other) {change : AreaRecord → AreaRecord}
    (hChange : ∀ record, change (record.renumber f) = (change record).renumber f) (number : Nat) :
    Counterpart f { talk with areas := talk.areas.modify number change }
      { other with areas := other.areas.modify (f number) change } :=
  { h with areas := by rw [h.areas, Areas.renumber_modify h.injective hChange] }

/-! ## Writing -/

theorem modifyCurrent (h : Counterpart f talk other) {change : Section → Section}
    (hChange : ∀ sect, change (sect.renumber f) = (change sect).renumber f) :
    Counterpart f (talk.modifyCurrent change) (other.modifyCurrent change) := by
  unfold Talk.modifyCurrent
  rw [h.currentSection]
  cases hCurrent : talk.currentSection with
  | none => exact h
  | some number =>
    exact { h with
      scrap := h.scrap.modifySection h.injective hChange number
      currentSection := rfl }

theorem endSection (h : Counterpart f talk other) :
    Counterpart f talk.endSection other.endSection := by
  unfold Talk.endSection
  rw [h.currentSection]
  cases hCurrent : talk.currentSection with
  | none => exact h
  | some number =>
    exact { h with
      scrap := h.scrap.modifySection h.injective Section.close_renumber number
      currentSection := rfl }

/-- A section that starts takes its number from the registry. -/
theorem startSection (h : Counterpart f talk other)
    (hNext : f (talk.registry.sections + 1) = other.registry.sections + 1) (asked : Option String) :
    Counterpart f (talk.startSection asked) (other.startSection asked) := by
  have hEnd := h.endSection
  have hNext : f (talk.endSection.registry.sections + 1) =
      other.endSection.registry.sections + 1 := by
    rw [registry_endSection, registry_endSection, hNext]
  have hArea : other.endSection.areas.areaFor asked = talk.endSection.areas.areaFor asked := by
    rw [hEnd.areas]
    rfl
  refine { hEnd with scrap := ?_, areas := ?_, currentSection := ?_, closingSections := ?_ }
  · show Scrap.Renumbered f (talk.endSection.scrap.push (.empty _ _))
      (other.endSection.scrap.push (.empty (other.endSection.registry.sections + 1) _))
    rw [← hNext, hArea]
    exact hEnd.scrap.push ..
  · have hAreas : ∀ later : Talk, (later.startSection asked).areas =
        (later.endSection.areas.start asked (later.endSection.registry.sections + 1)).openLast :=
      fun _ => rfl
    rw [hAreas, hAreas, ← hNext, hEnd.areas]
    -- both take the same area for it, under the number that each of them has
    exact Areas.renumber_start ..
  · show some (other.endSection.registry.sections + 1) = _
    rw [← hNext]
    rfl
  · show other.endSection.closingSections ++ [other.endSection.registry.sections + 1] =
      (talk.endSection.closingSections ++ _).map f
    rw [← hNext, hEnd.closingSections, List.map_append]
    rfl

/-- Either both have an open paragraph or neither has. -/
theorem hasOpenParagraph (h : Counterpart f talk other) :
    other.hasOpenParagraph = talk.hasOpenParagraph := by
  have hSection : other.currentSection? = talk.currentSection?.map (Section.renumber f) := by
    rw [Talk.currentSection?, Talk.currentSection?, h.currentSection]
    cases talk.currentSection with
    | none => rfl
    | some number => exact h.scrap.section? h.injective number
  rw [Talk.hasOpenParagraph, Talk.hasOpenParagraph, hSection]
  cases talk.currentSection? <;> rfl

theorem modifyOpen (h : Counterpart f talk other) (change : Paragraph → Paragraph) :
    Counterpart f (talk.modifyCurrent (Section.modifyOpen change))
      (other.modifyCurrent (Section.modifyOpen change)) :=
  h.modifyCurrent fun sect => sect.modifyOpen_renumber change

/-- The number that a talk is to take next, if it takes one. -/
def Next (f : Nat → Nat) (talk other later : Talk) : Prop :=
  later.registry.sections ≠ talk.registry.sections →
    f (talk.registry.sections + 1) = other.registry.sections + 1

/-- Both start a paragraph, and with it a section if there is none. -/
theorem startParagraph (h : Counterpart f talk other) (actor : String)
    (hNext : Next f talk other (talk.startParagraph actor)) :
    Counterpart f (talk.startParagraph actor) (other.startParagraph actor) := by
  have hNone : other.currentSection.isNone = talk.currentSection.isNone := by
    rw [h.currentSection, Option.isNone_map]
  have hSection : Counterpart f
      (if talk.currentSection.isNone then talk.startSection none else talk)
      (if other.currentSection.isNone then other.startSection none else other) := by
    rw [hNone]
    split
    · rename_i hCurrent
      refine h.startSection (hNext ?_) none
      rw [(talk.starts_startParagraph actor).registry, if_pos hCurrent]
      exact Nat.succ_ne_self _
    · exact h
  exact (hSection.modifyOpen Paragraph.close).modifyCurrent fun _ => rfl

/-- Both make sure of a paragraph before text is written. -/
theorem withParagraph (h : Counterpart f talk other) (hNext : Next f talk other talk.withParagraph) :
    Counterpart f talk.withParagraph other.withParagraph := by
  unfold Talk.withParagraph at hNext ⊢
  rw [h.hasOpenParagraph, h.options]
  split
  · exact h
  · rename_i hOpen
    rw [if_neg hOpen] at hNext
    exact (h.report ..).startParagraph _ hNext

/-- Either both are closing and log that, or both write. -/
theorem unlessClosing (h : Counterpart f talk other) {write : Talk → Talk}
    (hNext : Next f talk other (talk.unlessClosing write))
    (hWrite : Next f talk other (write talk) → Counterpart f (write talk) (write other)) :
    Counterpart f (talk.unlessClosing write) (other.unlessClosing write) := by
  unfold Talk.unlessClosing at hNext ⊢
  rw [h.isClosing]
  split
  · exact h.report ..
  · rename_i hOpen
    rw [if_neg hOpen] at hNext
    exact hWrite hNext

theorem write (h : Counterpart f talk other) (items : List Item)
    (hNext : Next f talk other (talk.write items)) :
    Counterpart f (talk.write items) (other.write items) := by
  refine h.unlessClosing hNext fun hNext => ?_
  rw [Next, registry_modifyCurrent] at hNext
  exact (h.withParagraph hNext).modifyOpen _

/-- Directions write the same text. -/
theorem direct (h : Counterpart f talk other) (direction : Direction)
    (hNext : Next f talk other (talk.direct direction)) :
    Counterpart f (talk.direct direction) (other.direct direction) := by
  cases direction with
  | beginSection area =>
    refine h.unlessClosing hNext fun hNext => h.startSection (hNext ?_) area
    rw [(talk.starts_startSection area).registry]
    exact Nat.succ_ne_self _
  | endSection => exact h.endSection
  | beginParagraph actor => exact h.unlessClosing hNext (h.startParagraph actor)
  | endParagraph => exact h.modifyOpen Paragraph.close
  | speak text => exact h.write _ hNext
  | emote name => exact h.write _ hNext
  | lineBreak => exact h.write _ hNext

/-! ## Pacing -/

/-- Pacing takes the same time, or is refused for the same reason. -/
theorem pace (h : Counterpart f talk other) (scope : PaceScope) :
    (∃ total paced paced', talk.pace scope = (.ok total, paced) ∧
        other.pace (scope.renumber f) = (.ok total, paced') ∧ Counterpart f paced paced') ∨
      ∃ error, talk.pace scope = (.error error, talk) ∧
        other.pace (scope.renumber f) = (.error (error.renumber f), other) := by
  have hTempo : other.options.tempo = talk.options.tempo := by rw [h.options]
  unfold Talk.pace
  rw [h.isClosing, hTempo]
  split
  · exact .inr ⟨.talkClosed, rfl, rfl⟩
  · cases scope with
    | whole =>
      obtain ⟨hScrap, hTotal⟩ := h.scrap.paced talk.options.tempo
      refine .inl ⟨(other.scrap.paced talk.options.tempo).2, _, _, ?_, rfl, h.withScrap hScrap⟩
      rw [hTotal]
    | single number =>
      simp only [PaceScope.renumber]
      cases hPaced : talk.scrap.pacedSection? talk.options.tempo number with
      | some paced =>
        -- each finds the section under its own number
        obtain ⟨scrap, hOther, hScrap⟩ := h.scrap.pacedSection? h.injective _ hPaced
        refine .inl ⟨_, _, _, rfl, ?_, h.withScrap hScrap⟩
        rw [hOther]
      | none =>
        rw [h.scrap.pacedSection?_of_none h.injective hPaced]
        exact .inr ⟨.invalidSection number, rfl, rfl⟩

/-- Both wrap up, and take the same time. -/
theorem wrapUp (h : Counterpart f talk other) :
    other.wrapUp.1 = talk.wrapUp.1 ∧ Counterpart f talk.wrapUp.2 other.wrapUp.2 := by
  unfold Talk.wrapUp
  rcases h.endSection.pace .whole with ⟨total, paced, paced', hPace, hPace', hPaced⟩ |
    ⟨error, hPace, hPace'⟩
  · rw [PaceScope.renumber] at hPace'
    simp only [hPace, hPace']
    exact ⟨trivial, hPaced⟩
  · rw [PaceScope.renumber] at hPace'
    -- neither can be paced, and both log the same warning
    simp only [hPace, hPace']
    exact ⟨trivial, h.endSection.report ..⟩

/-! ## Playing -/

/-- Both have been played, with the same outcome. -/
theorem markPlayed (h : Counterpart f talk other) (outcome : Outcome) :
    Counterpart f (talk.markPlayed outcome) (other.markPlayed outcome) := by
  unfold Talk.markPlayed
  rw [h.isPending]
  split
  · exact (h.settle ..).raise (.played outcome)
  · exact h

/-- The entry at a number bears the same mark in both. -/
theorem marked? (h : Counterpart f talk other) (entry : Nat) :
    other.marked? entry = talk.marked? entry := by
  rw [Talk.marked?, Talk.marked?, h.marks]
  cases talk.marks[entry]? with
  | none => rfl
  | some place => exact congrArg (Option.map _) (h.scrap.entryAt? place)

theorem showEntry (h : Counterpart f talk other) (entry : Nat) :
    Counterpart f (talk.showEntry entry) (other.showEntry entry) := by
  unfold Talk.showEntry
  rw [h.marked?, h.animates]
  cases talk.marked? entry with
  | none => exact h
  | some found =>
    exact (h.withScrap (h.scrap.modifyAt ..)).raise (.shown entry found.2.glyph?)

theorem performEmote (h : Counterpart f talk other) (entry : Nat) (name : String) :
    Counterpart f (talk.performEmote entry name) (other.performEmote entry name) := by
  have hCalls : (other.performer.toList.map fun performer => (performer, name)) =
      talk.performer.toList.map fun performer => (performer, name) := by rw [h.performer]
  unfold Talk.performEmote
  simp only [hCalls]
  exact (h.withEmotes _).raise (.emote entry name)

/-- Both perform the emote of the entry, if it has one. -/
theorem performAt (h : Counterpart f talk other) (entry : Nat) :
    Counterpart f (talk.performAt entry) (other.performAt entry) := by
  unfold Talk.performAt
  rw [h.marked?]
  split
  · exact h.performEmote ..
  · exact h

theorem startFade (h : Counterpart f talk other) (entry : Nat) :
    Counterpart f (talk.startFade entry) (other.startFade entry) := by
  exact h.schedule (by rw [h.now, h.options]) (.fadeEnd entry)

/-- Both reveal the entry, with its animation or without. -/
theorem reveal (h : Counterpart f talk other) (entry : Nat) (last : Bool) :
    Counterpart f (talk.reveal entry last) (other.reveal entry last) := by
  have hShown := h.showEntry entry
  have hAnimated : Counterpart f
      (if talk.animates then ((talk.showEntry entry).performAt entry).startFade entry
        else talk.showEntry entry)
      (if other.animates then ((other.showEntry entry).performAt entry).startFade entry
        else other.showEntry entry) := by
    rw [h.animates]
    split
    · exact (hShown.performAt entry).startFade entry
    · exact hShown
  cases last with
  | true => exact hAnimated.markPlayed .resolved
  | false => exact hAnimated

/-- Whatever the cues are, striking some of them out strikes out the same ones. -/
theorem cancel (h : Counterpart f talk other) {drops : Cue → Bool}
    (hDrops : ∀ cue : Cue, drops (cue.renumber f) = drops cue) :
    Counterpart f { talk with agenda := talk.agenda.cancel drops }
      { other with agenda := other.agenda.cancel drops } :=
  { h with agenda := by rw [h.agenda, Agenda.cancel_map _ hDrops] }

/-- Of the cues that were struck out, both fire the reveals. -/
theorem foldl_cues (h : Counterpart f talk other) (cues : List Cue) :
    Counterpart f
      (cues.foldl (fun talk cue =>
        match cue with
        | .reveal entry last => talk.reveal entry last
        | .fadeEnd _ | .closeEnd _ => talk) talk)
      ((cues.map (Cue.renumber f)).foldl (fun talk cue =>
        match cue with
        | .reveal entry last => talk.reveal entry last
        | .fadeEnd _ | .closeEnd _ => talk) other) := by
  induction cues generalizing talk other with
  | nil => exact h
  | cons cue rest ih =>
    cases cue with
    | reveal entry last => exact ih (h.reveal entry last)
    | fadeEnd entry => exact ih h
    | closeEnd number => exact ih h

theorem revealRest (h : Counterpart f talk other) :
    Counterpart f talk.revealRest other.revealRest := by
  have hDue : other.agenda.cancelled Cue.isReveal =
      (talk.agenda.cancelled Cue.isReveal).map (Cue.renumber f) := by
    rw [h.agenda, Agenda.cancelled_map _ Cue.isReveal_renumber]
  unfold Talk.revealRest
  rw [hDue]
  exact (h.cancel Cue.isReveal_renumber).foldl_cues _

/-- The cues of a playback name no section. -/
theorem scheduleAll_reveals (agenda : Agenda Cue) (start : Millis) (first : Nat)
    (entries : List Entry) :
    scheduleAll (agenda.map (Cue.renumber f)) (reveals start first entries) =
      (scheduleAll agenda (reveals start first entries)).map (Cue.renumber f) := by
  induction entries generalizing agenda first with
  | nil => rfl
  | cons e rest ih =>
    have hFirst : (agenda.map (Cue.renumber f)).schedule (start + e.timestamp)
        (.reveal first rest.isEmpty) =
        (agenda.schedule (start + e.timestamp) (.reveal first rest.isEmpty)).map (Cue.renumber f) :=
      Agenda.schedule_map (Cue.renumber f) agenda _ (.reveal first rest.isEmpty)
    exact (congrArg (scheduleAll · (reveals start (first + 1) rest)) hFirst).trans (ih ..)

/-- Both plan the reveals for the same times. -/
theorem plan (h : Counterpart f talk other) (start : Millis) :
    Counterpart f (talk.plan start) (other.plan start) := by
  refine { h with areas := ?_, agenda := ?_, startTime := rfl, marks := h.scrap.places }
  · have hSections : other.scrap.sections = talk.scrap.sections.map (Section.renumber f) := h.scrap
    show other.scrap.sections.foldl _ other.areas = _
    rw [hSections, h.areas]
    exact Areas.renumber_foldl_makeVisible h.injective ..
  · show scheduleAll other.agenda (reveals start 0 other.scrap.entries) = _
    rw [h.agenda, h.scrap.entries]
    exact scheduleAll_reveals ..

theorem startAt (h : Counterpart f talk other) (start : Millis) :
    Counterpart f (talk.startAt start) (other.startAt start) := by
  have hPlan := h.plan start
  unfold Talk.startAt
  rw [h.scrap.entries]
  simp only [hPlan.isPending]
  split
  · exact hPlan.markPlayed .resolved
  · split
    · -- nothing more to do but to wait for the reveals
      exact hPlan
    · exact hPlan.revealRest

theorem start (h : Counterpart f talk other) : Counterpart f talk.start other.start := by
  unfold Talk.start
  rw [h.isClosing, h.startTime, h.options, h.now]
  split
  · exact h.report ..
  · split
    · exact h
    · exact h.startAt _

/-- Both skip, or neither has anything to skip. -/
theorem skip (h : Counterpart f talk other) :
    other.skip.1 = talk.skip.1 ∧ Counterpart f talk.skip.2 other.skip.2 := by
  have hSettled : Counterpart f ((talk.settle .play .resolved).report .debug "play resolved")
      ((other.settle .play .resolved).report .debug "play resolved") :=
    (h.settle ..).report ..
  unfold Talk.skip
  rw [h.isPending]
  split
  · refine ⟨rfl, ?_⟩
    simp only [hSettled.startTime]
    split
    · exact hSettled.revealRest
    · exact hSettled
  · exact ⟨rfl, h⟩

/-! ## Closing -/

/-- Both come to their end, and each detaches its own scrap. -/
theorem conclude (h : Counterpart f talk other) : Counterpart f talk.conclude other.conclude := by
  unfold Talk.conclude
  rw [h.isPending]
  split
  · have hSettled := h.settle .closed .resolved
    have hDetached : Counterpart f
        { talk.settle .closed .resolved with
          registry := (talk.settle .closed .resolved).registry.detach talk.scrap.name }
        { other.settle .closed .resolved with
          registry := (other.settle .closed .resolved).registry.detach other.scrap.name } :=
      { hSettled with }
    exact (hDetached.raise .closed).report ..
  · exact h

/-- With its last closing animation a talk comes to its end. -/
theorem concludeLast (h : Counterpart f talk other) :
    Counterpart f (if talk.closesLeft = 0 then talk.conclude else talk)
      (if other.closesLeft = 0 then other.conclude else other) := by
  rw [h.closesLeft]
  split
  · exact h.conclude
  · exact h

theorem startClosing (h : Counterpart f talk other) (number : Nat) :
    Counterpart f (talk.startClosing number) (other.startClosing (f number)) := by
  have hModified := h.modifyArea AreaRecord.close_renumber number
  exact (hModified.schedule (by rw [h.now, h.options]) (.closeEnd number)).raise
    (.sectionClosing number)

/-- Both let the same sections begin to close. -/
theorem foldl_startClosing (h : Counterpart f talk other) (numbers : List Nat) :
    Counterpart f (numbers.foldl Talk.startClosing talk)
      ((numbers.map f).foldl Talk.startClosing other) := by
  induction numbers generalizing talk other with
  | nil => exact h
  | cons number rest ih => exact ih (h.startClosing number)

theorem closeSections (h : Counterpart f talk other) :
    Counterpart f talk.closeSections other.closeSections := by
  have hCounted : Counterpart f { talk with closesLeft := talk.closingSections.length }
      { other with closesLeft := other.closingSections.length } :=
    { h with closesLeft := by rw [h.closingSections, List.length_map] }
  have hStarted := hCounted.foldl_startClosing talk.closingSections
  rw [← h.closingSections] at hStarted
  exact hStarted.concludeLast

theorem stopPlayback (h : Counterpart f talk other) :
    Counterpart f talk.stopPlayback other.stopPlayback :=
  (h.cancel Cue.isPlayback_renumber).withScrap (h.scrap.map _)

/-- A request to close is news to both or to neither. -/
theorem beginClosing (h : Counterpart f talk other) (outcome : Outcome) :
    (other.beginClosing outcome).1 = (talk.beginClosing outcome).1 ∧
      Counterpart f (talk.beginClosing outcome).2 (other.beginClosing outcome).2 := by
  have hAsked : Counterpart f
      ((talk.settle .closing outcome).report .debug ("closing (" ++ outcome.name ++ ")"))
      ((other.settle .closing outcome).report .debug ("closing (" ++ outcome.name ++ ")")) :=
    (h.settle ..).report ..
  have hAbandoned : Counterpart f _ _ := (hAsked.markPlayed .abandoned).settle .play .abandoned
  unfold Talk.beginClosing
  rw [h.isPending]
  split
  · exact ⟨rfl, hAbandoned.stopPlayback.closeSections⟩
  · exact ⟨rfl, h⟩

/-- Both end the closing of the section, and come to their end with the last one. -/
theorem endClosing (h : Counterpart f talk other) (number : Nat) :
    Counterpart f (talk.endClosing number) (other.endClosing (f number)) := by
  have hModified := h.modifyArea AreaRecord.detach_renumber number
  have hCounted : Counterpart f
      { talk with
        areas := talk.areas.modify number AreaRecord.detach
        closesLeft := talk.closesLeft - 1 }
      { other with
        areas := other.areas.modify (f number) AreaRecord.detach
        closesLeft := other.closesLeft - 1 } :=
    { hModified with closesLeft := by rw [h.closesLeft] }
  exact (hCounted.raise (.sectionClosed number)).concludeLast

/-! ## The clock -/

theorem endFade (h : Counterpart f talk other) (entry : Nat) :
    Counterpart f (talk.endFade entry) (other.endFade entry) := by
  unfold Talk.endFade
  rw [h.marked?]
  split
  · exact (h.withScrap (h.scrap.modifyAt ..)).raise (.faded entry)
  · exact h.raise (.faded entry)

/-- Both fire the cue, each with its own number. -/
theorem fire (h : Counterpart f talk other) (cue : Cue) :
    Counterpart f (talk.fire cue) (other.fire (cue.renumber f)) := by
  cases cue with
  | reveal entry last => exact h.reveal entry last
  | fadeEnd entry => exact h.endFade entry
  | closeEnd number => exact h.endClosing number

/-- The next cue is the same one. -/
theorem pop? (h : Counterpart f talk other) {limit : Millis} {cue : Cue} {rest : Talk}
    (hPop : talk.pop? limit = some (cue, rest)) :
    ∃ rest', other.pop? limit = some (cue.renumber f, rest') ∧ Counterpart f rest rest' := by
  obtain ⟨⟨next, agenda⟩, hNext, hEq⟩ := Option.map_eq_some_iff.mp hPop
  cases hEq
  refine ⟨{ other with agenda := agenda.map (Cue.renumber f) }, ?_, { h with agenda := rfl }⟩
  rw [Talk.pop?, h.agenda, Agenda.pop?_map, hNext]
  rfl

/-- If nothing is due for the one, nothing is for the other. -/
theorem pop?_of_none (h : Counterpart f talk other) {limit : Millis}
    (hPop : talk.pop? limit = none) : other.pop? limit = none := by
  rw [Talk.pop?, h.agenda, Agenda.pop?_map, Option.map_eq_none_iff.mp hPop]
  rfl

/-- What is due fires in the same order. -/
theorem fireDue (h : Counterpart f talk other) (limit : Millis) :
    Counterpart f (talk.fireDue limit) (other.fireDue limit) := by
  fun_induction Talk.fireDue talk limit generalizing other with
  | case1 talk hPop =>
    rw [fireDue_of_none (h.pop?_of_none hPop)]
    exact h
  | case2 talk cue rest hPop ih =>
    obtain ⟨rest', hPop', hRest⟩ := h.pop? hPop
    rw [fireDue_of_pop? hPop']
    exact ih (hRest.fire cue)

theorem collectEvents (h : Counterpart f talk other) :
    other.collectEvents.1 = talk.collectEvents.1.map (Event.renumber f) ∧
      Counterpart f talk.collectEvents.2 other.collectEvents.2 :=
  ⟨h.events, { h with events := rfl }⟩

/-- Both move the clock, and hand out what was raised on the way. -/
theorem advanceTo (h : Counterpart f talk other) (time : Millis) :
    (other.advanceTo time).1 = (talk.advanceTo time).1.map (Event.renumber f) ∧
      Counterpart f (talk.advanceTo time).2 (other.advanceTo time).2 := by
  have hFired := h.fireDue time
  have hMoved : Counterpart f
      { talk.fireDue time with agenda := (talk.fireDue time).agenda.moveTo time }
      { other.fireDue time with agenda := (other.fireDue time).agenda.moveTo time } :=
    { hFired with
      agenda := by
        rw [hFired.agenda]
        rfl }
  exact hMoved.collectEvents

theorem nextDue (h : Counterpart f talk other) : other.nextDue = talk.nextDue := by
  rw [Talk.nextDue, Talk.nextDue, h.agenda, Agenda.nextDue_map]

/-- Both move the clock by the same time. -/
theorem advanceBy (h : Counterpart f talk other) (delta : Millis) :
    (other.advanceBy delta).1 = (talk.advanceBy delta).1.map (Event.renumber f) ∧
      Counterpart f (talk.advanceBy delta).2 (other.advanceBy delta).2 := by
  unfold Talk.advanceBy
  rw [h.now]
  exact h.advanceTo _

/-- Both play out, and hand out what was raised. -/
theorem playOut (h : Counterpart f talk other) :
    other.playOut.1 = talk.playOut.1.map (Event.renumber f) ∧
      Counterpart f talk.playOut.2 other.playOut.2 := by
  fun_induction Talk.playOut talk generalizing other with
  | case1 talk hDue =>
    rw [playOut_of_none (h.nextDue.trans hDue)]
    exact h.collectEvents
  | case2 talk due hDue later last hRest ih =>
    obtain ⟨hEvents, hAdvanced⟩ := h.advanceTo due
    -- after one move of the clock both go on alike
    obtain ⟨hLater, hLast⟩ := ih hAdvanced
    rw [hRest] at hLater hLast
    rw [playOut_of_due (h.nextDue.trans hDue), hEvents, hLater, List.map_append]
    exact ⟨rfl, hLast⟩

/-! ## Operations -/

/-- The same operation has the same reply, and leads to counterparts again. -/
theorem perform (h : Counterpart f talk other) (operation : Operation)
    (hNext : Next f talk other (talk.perform operation).2) :
    (other.perform (operation.renumber f)).1 = (talk.perform operation).1.renumber f ∧
      Counterpart f (talk.perform operation).2 (other.perform (operation.renumber f)).2 := by
  cases operation with
  | direct direction => exact ⟨rfl, h.direct direction hNext⟩
  | pace scope =>
    simp only [Operation.renumber, Talk.perform]
    rcases h.pace scope with ⟨total, paced, paced', hPace, hPace', hPaced⟩ | ⟨error, hPace, hPace'⟩
    · rw [hPace, hPace']
      exact ⟨rfl, hPaced⟩
    · rw [hPace, hPace']
      exact ⟨rfl, h⟩
  | wrapUp => exact ⟨congrArg Reply.total h.wrapUp.1, h.wrapUp.2⟩
  | start => exact ⟨congrArg Reply.play (h.start.outcome .play), h.start⟩
  | skip => exact ⟨congrArg Reply.changed h.skip.1, h.skip.2⟩
  | close => exact ⟨congrArg Reply.changed (h.beginClosing _).1, (h.beginClosing _).2⟩
  | finish => exact ⟨congrArg Reply.changed (h.beginClosing _).1, (h.beginClosing _).2⟩
  | advanceTo time => exact ⟨congrArg Reply.events (h.advanceTo time).1, (h.advanceTo time).2⟩
  | advanceBy delta => exact ⟨congrArg Reply.events (h.advanceBy delta).1, (h.advanceBy delta).2⟩
  | playOut => exact ⟨congrArg Reply.events h.playOut.1, h.playOut.2⟩
  | collectEvents => exact ⟨congrArg Reply.events h.collectEvents.1, h.collectEvents.2⟩
  | observe milestone observer => exact ⟨rfl, h.observe ..⟩
  | performWith performer => exact ⟨rfl, { h with performer := rfl }⟩

end Counterpart

end Dialogue.Talk
