import Dialogue.Proofs.Talk.History

/-!
# The signals of a talk

A signal settles at most once. This module says which steps settle which signal, and that no step
changes one that has settled, so that the phase of a talk only moves forward.

Main results:

* `Talk.outcome_fire`, `Talk.outcome_beginClosing` — how the signals stand after a cue and after closing.
* `Talk.settled_after` — a signal that has settled stays as it is, whatever is done to the talk.
* `Talk.rank_phase_le` — the phase does not go back.
-/

namespace Dialogue

/-- How far a phase is. -/
def Phase.rank : Phase → Nat
  | play => 0
  | played => 1
  | closing => 2
  | closed => 3

namespace Talk

/-! ## What settles them -/

/-- Settling a milestone gives it an outcome, if it has none, and leaves the others as they are. -/
theorem outcome_settle (talk : Talk) (milestone other : Milestone) (outcome : Outcome) :
    (talk.settle milestone outcome).outcome other =
      if milestone = other then some ((talk.outcome milestone).getD outcome)
      else talk.outcome other :=
  talk.lifecycle.outcome_get_settle milestone other outcome

/-- Marking a talk as played gives `played` an outcome, if it has none. -/
theorem outcome_markPlayed (talk : Talk) (outcome : Outcome) (milestone : Milestone) :
    (talk.markPlayed outcome).outcome milestone =
      if .played = milestone then some ((talk.outcome .played).getD outcome)
      else talk.outcome milestone := by
  obtain ⟨outbox, hPlayed⟩ := talk.markPlayed_eq outcome
  rw [hPlayed]
  exact talk.outcome_settle .played milestone outcome

/-- A cue settles `played` or `closed`, or nothing. -/
theorem outcome_fire (talk : Talk) (cue : Cue) (milestone : Milestone) :
    (talk.fire cue).outcome milestone =
      match cue with
      | .reveal _ last =>
        if last ∧ .played = milestone then some ((talk.outcome .played).getD .resolved)
        else talk.outcome milestone
      | .fadeEnd _ => talk.outcome milestone
      | .closeEnd _ =>
        if talk.closesLeft - 1 = 0 ∧ .closed = milestone then
          some ((talk.outcome .closed).getD .resolved)
        else talk.outcome milestone := by
  cases cue with
  | reveal entry last =>
    obtain ⟨outbox, hReveal⟩ := talk.reveal_eq entry last
    rw [fire, hReveal]
    cases last with
    | false => simp [outcome_eq]
    | true => simp [outcome_eq, Lifecycle.outcome_get_settle]
  | fadeEnd entry =>
    rw [fire, endFade_eq]
    rfl
  | closeEnd number =>
    obtain ⟨registry, outbox, hClosing⟩ := talk.endClosing_eq number
    rw [fire, hClosing]
    by_cases hLast : talk.closesLeft - 1 = 0
    · simp [hLast, outcome_eq, Lifecycle.outcome_get_settle]
    · simp [hLast, outcome_eq]

/-- How the signals stand when a talk has started to close. -/
theorem outcome_beginClosing {talk : Talk} (hOpen : talk.outcome .closing = none)
    (outcome : Outcome) (milestone : Milestone) :
    (talk.beginClosing outcome).2.outcome milestone =
      match milestone with
      | .closing => some outcome
      | .played => some ((talk.outcome .played).getD .abandoned)
      | .play => some ((talk.outcome .play).getD .abandoned)
      | .closed =>
        if talk.closingSections = [] then some ((talk.outcome .closed).getD .resolved)
        else talk.outcome .closed := by
  obtain ⟨registry, areas, outbox, hEq⟩ := beginClosing_eq hOpen outcome
  rw [hEq]
  rw [outcome_eq] at hOpen
  show ((talk.closingLifecycle outcome).get milestone).outcome = _
  unfold closingLifecycle
  by_cases hNone : talk.closingSections = [] <;> cases milestone <;>
    simp [hNone, hOpen, Lifecycle.outcome_get_settle, outcome_eq]

/-! ## Settling once -/

/-- Settling a signal leaves those that have settled as they are. -/
theorem settled_stays {talk : Talk} {milestone : Milestone} {outcome : Outcome}
    (h : talk.outcome milestone = some outcome) (other : Milestone) (asked : Outcome) :
    (if other = milestone then some ((talk.outcome other).getD asked)
      else talk.outcome milestone) = some outcome := by
  split
  · rename_i hEq
    rw [hEq, h]
    rfl
  · exact h

/-- No move takes an outcome back, or changes it. -/
theorem Move.settled {talk later : Talk} {raised : List Event} (hMove : Move talk raised later)
    {milestone : Milestone} {outcome : Outcome} (h : talk.outcome milestone = some outcome) :
    later.outcome milestone = some outcome := by
  cases hMove with
  | quiet hAlike => rw [hAlike.outcome, h]
  | skip hPlaying =>
    rw [outcome_settle]
    exact settled_stays h .play .resolved
  | fire hTaken =>
    rename_i cue rest
    rw [outcome_fire]
    simp only [outcome_with_agenda]
    -- the signals that a cue may settle are `played` and `closed`
    cases cue with
    | reveal entry last =>
      cases last with
      | false => simpa using h
      | true => simpa using settled_stays h .played .resolved
    | fadeEnd entry => exact h
    | closeEnd number =>
      by_cases hLast : talk.closesLeft - 1 = 0
      · simpa [hLast] using settled_stays h .closed .resolved
      · simpa [hLast] using h

/-- As a talk plays, what has settled stays settled. -/
theorem Plays.settled {talk later : Talk} {raised : List Event} (hPlays : Plays talk raised later)
    {milestone : Milestone} {outcome : Outcome} (h : talk.outcome milestone = some outcome) :
    later.outcome milestone = some outcome := by
  induction hPlays with
  | refl talk => exact h
  | move hMove hRest ih => exact ih (hMove.settled h)

/-- Whatever an operation does, what has settled stays settled. -/
theorem Effect.settled {talk later : Talk} {operation : Operation} {raised : List Event}
    (hEffect : Effect talk operation raised later) {milestone : Milestone} {outcome : Outcome}
    (h : talk.outcome milestone = some outcome) : later.outcome milestone = some outcome := by
  cases hEffect with
  | plays _ hPlays => exact hPlays.settled h
  | started _ _ _ hPlays => exact hPlays.settled h
  | completed =>
    rw [outcome_markPlayed]
    exact settled_stays h .played .resolved
  | written _ hWritten => rw [outcome_eq, hWritten.lifecycle, ← outcome_eq, h]
  | paced hPaced => rw [hPaced.rest]; exact h
  | wrapped hWritten hPaced =>
    rw [hPaced.rest, outcome_eq]
    show (Lifecycle.get _ milestone).outcome = _
    rw [hWritten.lifecycle, ← outcome_eq, h]
  | closed _ asked hOpen =>
    rw [outcome_beginClosing hOpen]
    cases milestone with
    | play => simp [h]
    | played => simp [h]
    -- `closing` had not settled, as the request has taken effect
    | closing => rw [hOpen] at h; cases h
    | closed => simp [h]

/-- What has settled stays as it is, whatever is done to the talk. -/
theorem settled_after (talk : Talk) (operations more : List Operation) {milestone : Milestone}
    {outcome : Outcome} (h : (talk.after operations).outcome milestone = some outcome) :
    (talk.after (operations ++ more)).outcome milestone = some outcome := by
  induction more using List.reverseRecOn with
  | nil => rwa [List.append_nil]
  | append_singleton more operation ih =>
    obtain ⟨raised, hEffect, -⟩ := talk.effect_after (operations ++ more) operation
    rw [← List.append_assoc]
    exact hEffect.settled ih

/-! ## Phases -/

/-- The rank of a phase goes by the furthest milestone that has settled. -/
theorem rank_phase (talk : Talk) :
    talk.phase.rank =
      if talk.outcome .closed ≠ none then 3
      else if talk.outcome .closing ≠ none then 2
      else if talk.outcome .played ≠ none then 1
      else 0 := by
  -- the phase looks for pending signals, the rank for settled ones
  have hPending : ∀ milestone, (!talk.lifecycle.isPending milestone) = true ↔
      talk.outcome milestone ≠ none := by
    intro milestone
    show (!(talk.outcome milestone).isNone) = true ↔ _
    cases talk.outcome milestone <;> simp
  unfold phase Lifecycle.phase
  simp only [hPending]
  split
  · rfl
  · split
    · rfl
    · split <;> rfl

/-- Where no settled signal is lost, the phase does not go back. -/
theorem rank_phase_le {talk later : Talk}
    (hSettled : ∀ milestone, talk.outcome milestone ≠ none → later.outcome milestone ≠ none) :
    talk.phase.rank ≤ later.phase.rank := by
  have hPlayed := hSettled .played
  have hClosing := hSettled .closing
  have hClosed := hSettled .closed
  rw [rank_phase, rank_phase]
  -- by the furthest signal that has settled before
  by_cases hC : talk.outcome .closed ≠ none
  · refine Nat.le_of_eq ?_
    rw [if_pos hC, if_pos (hClosed hC)]
  · by_cases hB : talk.outcome .closing ≠ none
    · rw [if_neg hC, if_pos hB, if_pos (hClosing hB)]
      split <;> omega
    · by_cases hA : talk.outcome .played ≠ none
      · rw [if_neg hC, if_neg hB, if_pos hA, if_pos (hPlayed hA)]
        split
        · omega
        · split <;> omega
      · rw [if_neg hC, if_neg hB, if_neg hA]
        omega

end Talk

end Dialogue
