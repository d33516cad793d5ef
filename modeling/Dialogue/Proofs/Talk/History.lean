import Dialogue.Proofs.Talk.Moves
import Mathlib.Data.List.Induction

/-!
# The history of a talk

The history of a talk is made of all events raised so far: those that were handed out, in the order in
which they were, and those that still wait to be taken. An `Invariant` relates the history to the talk,
and every operation keeps it.

Main results:

* `Talk.history_append` — a history only grows.
* `Talk.effect_after` — each operation has its effect on the talk, and adds its events to the history.
* `Talk.Invariant.history` — an invariant that holds at first holds after any operations.
-/

namespace Dialogue.Talk

/-! ## Sequences of operations -/

/-- A talk after operations. -/
def after (talk : Talk) (operations : List Operation) : Talk := (talk.performAll operations).2

/-- All events raised so far, in order: those handed out by operations, and those not yet taken. -/
def history (talk : Talk) (operations : List Operation) : List Event :=
  (talk.performAll operations).1.flatMap Reply.raised ++ (talk.after operations).events

/-- What is performed in two parts has the replies of both, one after the other. -/
theorem performAll_append (talk : Talk) (operations more : List Operation) :
    talk.performAll (operations ++ more) =
      ((talk.performAll operations).1 ++ ((talk.after operations).performAll more).1,
        ((talk.after operations).performAll more).2) := by
  -- on the first operations, from any talk
  induction operations generalizing talk with
  | nil => rfl
  | cons operation rest ih =>
    simp only [List.cons_append, performAll, after] at ih ⊢
    rw [ih]

/-- Two parts of operations lead where they lead together. -/
theorem after_append (talk : Talk) (operations more : List Operation) :
    talk.after (operations ++ more) = (talk.after operations).after more := by
  rw [after, performAll_append]
  rfl

/-- What an operation hands out or leaves to be taken, beside what was there before it, is added to the
history. -/
theorem history_append_singleton (talk : Talk) (operations : List Operation) {operation : Operation}
    {raised : List Event}
    (hEvents : (talk.after operations).events ++ raised =
      ((talk.after operations).perform operation).1.raised ++
        ((talk.after operations).perform operation).2.events) :
    talk.history (operations ++ [operation]) = talk.history operations ++ raised := by
  rw [history, history, List.append_assoc, hEvents, after_append, performAll_append,
    List.flatMap_append, List.append_assoc]
  simp [performAll, after]

/-- One more operation has its effect, and adds its events to the history. -/
theorem effect_after (talk : Talk) (operations : List Operation) (operation : Operation) :
    ∃ raised, Effect (talk.after operations) operation raised
        (talk.after (operations ++ [operation])) ∧
      talk.history (operations ++ [operation]) = talk.history operations ++ raised := by
  obtain ⟨raised, hEffect, hEvents⟩ := (talk.after operations).effect_perform operation
  refine ⟨raised, ?_, talk.history_append_singleton operations hEvents⟩
  rw [after_append]
  exact hEffect

/-- A history only grows. -/
theorem history_append (talk : Talk) (operations more : List Operation) :
    ∃ raised, talk.history (operations ++ more) = talk.history operations ++ raised := by
  induction more using List.reverseRecOn with
  | nil => exact ⟨[], by simp⟩
  | append_singleton more operation ih =>
    obtain ⟨raised, hRaised⟩ := ih
    obtain ⟨last, -, hLast⟩ := talk.effect_after (operations ++ more) operation
    refine ⟨raised ++ last, ?_⟩
    rw [← List.append_assoc, hLast, hRaised, List.append_assoc]

/-- An event at which a history splits is in the history. -/
theorem mem_of_split {events before after : List Event} {event : Event}
    (h : events = before ++ event :: after) : event ∈ events := by
  rw [h]
  simp

/-- An event found in a history that has grown was there before, or is new. -/
theorem split_append_cases {raised more before after : List Event} {event : Event}
    (h : raised ++ more = before ++ event :: after) :
    (∃ rest, raised = before ++ event :: rest ∧ after = rest ++ more) ∨
      ∃ middle, before = raised ++ middle ∧ more = middle ++ event :: after := by
  rcases List.append_eq_append_iff.mp h with ⟨middle, hBefore, hMore⟩ | ⟨middle, hRaised, hRest⟩
  · exact .inr ⟨middle, hBefore, hMore⟩
  · cases middle with
    -- it comes first among the new ones
    | nil =>
      rw [List.append_nil] at hRaised
      exact .inr ⟨[], by rw [List.append_nil, hRaised], hRest.symm⟩
    | cons first rest =>
      rw [List.cons_append, List.cons.injEq] at hRest
      obtain ⟨rfl, hAfter⟩ := hRest
      exact .inl ⟨rest, hRaised, hAfter⟩

/-! ## Invariants -/

/-- A relation between the events raised so far and the talk that all operations keep. -/
structure Invariant (Inv : List Event → Talk → Prop) : Prop where
  move : ∀ {raised talk more later}, Inv raised talk → Move talk more later →
    Inv (raised ++ more) later
  plan : ∀ {raised talk} start, Inv raised talk → talk.outcome .closing = none →
    talk.startTime = none → Inv raised (talk.plan start)
  complete : ∀ {raised talk}, Inv raised talk → talk.outcome .closing = none →
    talk.scrap.entries = [] → talk.startTime ≠ none →
    Inv (raised ++ talk.playedEvents .resolved) (talk.markPlayed .resolved)
  written : ∀ {raised talk later}, Inv raised talk → Written talk later → Inv raised later
  paced : ∀ {raised talk scope later}, Inv raised talk → Paced talk scope later → Inv raised later
  closed : ∀ {raised talk} outcome, Inv raised talk → talk.outcome .closing = none →
    Inv (raised ++ talk.closingEvents) (talk.beginClosing outcome).2

namespace Invariant

variable {Inv : List Event → Talk → Prop}

/-- An invariant holds after any moves. -/
theorem plays (h : Invariant Inv) {talk later : Talk} {raised more : List Event}
    (hPlays : Plays talk more later) (hInv : Inv raised talk) : Inv (raised ++ more) later :=
  hPlays.keeps h.move hInv

/-- An invariant holds after whatever an operation does. -/
theorem effect (h : Invariant Inv) {talk later : Talk} {operation : Operation}
    {raised more : List Event} (hInv : Inv raised talk) (hEffect : Effect talk operation more later) :
    Inv (raised ++ more) later := by
  -- a start is a plan and then moves, or a plan that is complete at once
  cases hEffect with
  | plays _ hPlays => exact h.plays hPlays hInv
  | written _ hWritten =>
    rw [List.append_nil]
    exact h.written hInv hWritten
  | paced hPaced =>
    rw [List.append_nil]
    exact h.paced hInv hPaced
  | wrapped hWritten hPaced =>
    rw [List.append_nil]
    exact h.paced (h.written hInv hWritten) hPaced
  | started hOpen hFresh _ hPlays => exact h.plays hPlays (h.plan _ hInv hOpen hFresh)
  | completed hOpen hFresh hEmpty =>
    exact h.complete (h.plan talk.startsAt hInv hOpen hFresh) hOpen hEmpty (Option.some_ne_none _)
  | closed _ outcome hOpen => exact h.closed outcome hInv hOpen

/-- An invariant that holds at first holds after any operations. -/
theorem history (h : Invariant Inv) {talk : Talk} (hFirst : Inv talk.events talk)
    (operations : List Operation) : Inv (talk.history operations) (talk.after operations) := by
  induction operations using List.reverseRecOn with
  | nil => exact hFirst
  | append_singleton operations operation ih =>
    obtain ⟨raised, hEffect, hHistory⟩ := talk.effect_after operations operation
    rw [hHistory]
    exact h.effect ih hEffect

end Invariant

/-! ## New talks -/

/-- A talk on which nothing has been done. -/
structure IsNew (talk : Talk) : Prop where
  scrap : talk.scrap.sections = []
  currentSection : talk.currentSection = none
  now : talk.agenda.now = 0
  pending : talk.agenda.pending = []
  startTime : talk.startTime = none
  outcome : ∀ milestone, talk.outcome milestone = none
  closingSections : talk.closingSections = []
  events : talk.events = []

/-- Valid options give a new talk. -/
theorem exists_create (registry : Registry) {options : Options} (hValid : options.Valid) :
    ∃ talk, Talk.create registry options = .ok talk ∧ talk.options = options ∧ talk.IsNew := by
  have hCheck := Options.validate_eq_ok_iff.mpr hValid
  unfold Talk.create Talk.enroll
  rw [hCheck]
  refine ⟨_, rfl, rfl, rfl, rfl, rfl, rfl, rfl, ?_, rfl, rfl⟩
  intro milestone
  cases milestone <;> rfl

/-- A talk that is made holds the registry that is handed back. -/
theorem enroll_of_create {registry : Registry} {options : Options} {talk : Talk}
    (hCreate : Talk.create registry options = .ok talk) :
    enroll registry options = (.ok talk, talk.registry) := by
  unfold Talk.create at hCreate
  unfold enroll at hCreate ⊢
  cases hCheck : options.validate with
  | error error => simp [hCheck] at hCreate
  | ok _ =>
    simp only [hCheck, Except.ok.injEq] at hCreate ⊢
    rw [← hCreate]

/-- Options that are refused leave the registry as it was: no number is taken, and no scrap attached. -/
theorem enroll_of_error {registry : Registry} {options : Options} {error : OptionsError}
    (hCreate : Talk.create registry options = .error error) :
    enroll registry options = (.error error, registry) := by
  unfold Talk.create at hCreate
  unfold enroll at hCreate ⊢
  cases hCheck : options.validate with
  | error found =>
    simp only [hCheck, Except.error.injEq] at hCreate ⊢
    rw [hCreate]
  | ok _ => simp [hCheck] at hCreate

end Dialogue.Talk
