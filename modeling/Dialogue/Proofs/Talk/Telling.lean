import Dialogue.Proofs.Talk.Progress
import Dialogue.Proofs.Talk.Reach
import Dialogue.Proofs.Talk.Visibility

/-!
# What a host is told

A host that does things to a talk is handed events on the way, while others may use the registry of the
talk in between. `Tells` keeps both: where this leads, and all events handed out so far. These and the
events that wait to be taken are the history of the talk, and an invariant of talks holds of them.

Main results:

* `Talk.Invariant.tells` — invariants hold all the way, whatever others do to the registry.
* `Talk.Tells.unstarted` — as long as a talk was not started, nothing was shown.
-/

namespace Dialogue.Talk

/-- Operations and changes of the registry lead from a talk to another one, and hand out events. -/
inductive Tells (first : Talk) : List Event → Talk → Prop where
  | refl : Tells first [] first
  | perform {told : List Event} {talk : Talk} (hTells : Tells first told talk)
      (operation : Operation) :
      Tells first (told ++ (talk.perform operation).1.raised) (talk.perform operation).2
  | share {told : List Event} {talk : Talk} {registry : Registry} (hTells : Tells first told talk)
      (hShared : Registry.Shared talk.scrap.name talk.registry registry) :
      Tells first told { talk with registry }

/-- What others do to the registry is no news for the talk. -/
theorem alike_share (talk : Talk) (registry : Registry) : Alike talk { talk with registry } :=
  ⟨rfl, rfl, rfl, Millis.le_refl _, rfl, rfl, fun _ => rfl, rfl, rfl⟩

namespace Tells

variable {first talk : Talk} {told : List Event}

/-- What is told of a talk was led to by some operations. -/
theorem leads (h : Tells first told talk) : ∃ operations, Leads first operations talk := by
  induction h with
  | refl => exact ⟨[], .refl⟩
  | perform hTells operation ih =>
    obtain ⟨operations, hLeads⟩ := ih
    exact ⟨_, .perform hLeads operation⟩
  | share hTells hShared ih =>
    obtain ⟨operations, hLeads⟩ := ih
    exact ⟨operations, .share hLeads hShared⟩

/-- What a created talk comes to by telling is reachable. -/
theorem reachable {registry : Registry} {options : Options}
    (hCreate : Talk.create registry options = .ok first) (h : Tells first told talk) :
    Reachable talk := by
  obtain ⟨operations, hLeads⟩ := h.leads
  exact ⟨registry, options, first, operations, hCreate, hLeads⟩

/-- Without others on the registry, a host is told what the operations hand out. -/
theorem of_after (talk : Talk) (operations : List Operation) :
    Tells talk ((talk.performAll operations).1.flatMap Reply.raised) (talk.after operations) := by
  induction operations using List.reverseRecOn with
  | nil => exact .refl
  | append_singleton operations operation ih =>
    have hNext := ih.perform operation
    rw [after_append, performAll_append, List.flatMap_append]
    simpa [performAll, after] using hNext

end Tells

/-- An invariant that holds at first holds all the way, of the events that were handed out or wait to be
taken. -/
theorem Invariant.tells {Inv : List Event → Talk → Prop} (h : Invariant Inv) {first talk : Talk}
    {before told : List Event} (hTells : Tells first told talk)
    (hFirst : Inv (before ++ first.events) first) : Inv (before ++ told ++ talk.events) talk := by
  induction hTells with
  | refl => rwa [List.append_nil]
  | @perform told talk hTells operation ih =>
    obtain ⟨raised, hEffect, hEvents⟩ := talk.effect_perform operation
    have hNext := h.effect ih hEffect
    rw [List.append_assoc, hEvents] at hNext
    simpa using hNext
  | @share told talk registry hTells hShared ih =>
    have hNext := h.move ih (.quiet (talk.alike_share registry))
    rwa [List.append_nil] at hNext

/-- As long as a talk was not started, nothing was shown, and nothing is to come unless it closes. -/
theorem Tells.unstarted {first talk : Talk} {told : List Event} (hTells : Tells first told talk)
    (hNew : first.IsNew) (hFresh : talk.startTime = none) :
    Unstarted (told ++ talk.events) talk := by
  induction hTells with
  | refl => exact unstarted_of_isNew hNew
  | @perform told talk hTells operation ih =>
    obtain ⟨raised, hEffect, hEvents⟩ := talk.effect_perform operation
    -- a talk that was started stays so
    have hBefore : talk.startTime = none := by
      by_contra hStarted
      exact hStarted ((hEffect.started_stays hStarted).1.symm.trans hFresh)
    rw [List.append_assoc, ← hEvents, ← List.append_assoc]
    rcases (ih hBefore).effect hEffect with hStill | ⟨-, -, hProgress⟩
    · exact hStill
    · exact absurd hFresh hProgress.startTime
  | @share told talk registry hTells hShared ih =>
    have hNext := (ih hFresh).move (.quiet (talk.alike_share registry))
    rwa [List.append_nil] at hNext

end Dialogue.Talk
