import Dialogue.Proofs.Stage.Undisturbed

/-!
# What is known of the talks on a stage

To a talk, what the others do is a change of its registry: more sections are numbered, and other scraps are
attached or detached, but its own scrap stays as it is. So all that holds of a talk whatever is done to it and
to its registry holds of every talk on a stage.

Main results:

* `Stage.shared_take` — what the others do in a turn, as the owner of one scrap sees it.
* `Stage.leads_takeAll` — what is done to a talk leads to it from the talk that entered.
* `Stage.reachable_takeAll` — so every talk on a stage is one that can be reached.
-/

namespace Dialogue.Stage

variable {bill : List Options} {ledger : List (Nat × Nat)} {stage : Stage}

/-- Talks are numbered by their places on the stage. -/
theorem Billed.number_eq (h : Billed bill ledger stage) {number : Nat} {talk : Talk}
    (hTalk : stage.talk? number = some talk) : talk.scrap.number = number + 1 := by
  obtain ⟨member, hMember, rfl⟩ := (talk?_eq_some h.joint).mp hTalk
  have hLt : number < stage.cast.length := (List.getElem?_eq_some_iff.mp hMember).1
  have hNumber := congrArg (·[number]?) h.numbers
  simp only [List.getElem?_map, hMember, Option.map_some, List.getElem?_range' hLt,
    Option.some.injEq] at hNumber
  show member.talk.scrap.number = number + 1
  omega

/-- What the others do in a turn, as the owner of one scrap sees it. -/
theorem shared_take (h : Billed bill ledger stage) {number : Nat} {talk : Talk}
    (hTalk : stage.talk? number = some talk) {turn : Turn}
    (hOther : ∀ operation, turn ≠ .act number operation) :
    Registry.Shared talk.scrap.name (stage.registry 0) ((stage.take turn).registry 0) := by
  have hNumber := h.number_eq hTalk
  have hLt : number < stage.cast.length := by
    by_contra hBehind
    rw [talk?_eq_none.mpr (Nat.le_of_not_lt hBehind)] at hTalk
    cases hTalk
  cases turn with
  | enter options =>
    cases hCreate : Talk.create (stage.registry 0) options with
    | ok entering =>
      have hNe : talk.scrap.name ≠ entering.scrap.name := by
        intro hName
        -- the newcomer has a number that nobody had before
        have hSame := Scrap.name_inj hName
        rw [hNumber, (Talk.enters_of_create hCreate).number, h.talks] at hSame
        omega
      rw [take_enter h.joint hCreate]
      exact Talk.shared_create hCreate hNe
    | error error =>
      rw [take_enter_of_error h.joint hCreate]
      exact ⟨Nat.le_refl _, rfl⟩
  | act other operation =>
    cases hActing : stage.talk? other with
    | none =>
      rw [take_act_of_none hActing]
      exact ⟨Nat.le_refl _, rfl⟩
    | some acting =>
      have hNe : talk.scrap.name ≠ acting.scrap.name := by
        intro hName
        have hSame := Scrap.name_inj hName
        rw [hNumber, h.number_eq hActing, Nat.succ.injEq] at hSame
        subst hSame
        exact hOther operation rfl
      rw [take_act h.joint hActing]
      -- the talk that acts is given the registry as the others left it
      have hGiven : acting.registry = stage.registry 0 := by
        obtain ⟨member, -, rfl⟩ := (talk?_eq_some h.joint).mp hActing
        rfl
      rw [← hGiven]
      exact acting.shared_perform operation hNe

/-- After any turns, what was done to a talk leads to it from the talk that entered, and all that the others
did is to use its registry. -/
theorem leads_takeAll (turns : List Turn) (number : Nat) :
    ∀ talk, (Stage.empty.takeAll turns).talk? number = some talk →
      ∃ registry options first, Talk.create registry options = .ok first ∧
        Talk.Leads first ((Stage.empty.deeds number turns).map Prod.fst) talk := by
  induction turns using List.reverseRecOn with
  | nil => exact fun talk hTalk => by cases hTalk
  | append_singleton turns turn ih =>
    intro later hLater
    have hBilled := billed_takeAll turns
    have hJoint := hBilled.joint
    rw [takeAll_append_singleton] at hLater
    rw [deeds_append_singleton]
    rcases talk?_take hJoint hLater with ⟨talk, operation, hTalk, rfl, rfl⟩ |
      ⟨talk, registry, hTalk, hOther, rfl⟩ | ⟨hNone, options, rfl, hCreate⟩
    · obtain ⟨registry, options, first, hCreate, hLeads⟩ := ih talk hTalk
      refine ⟨registry, options, first, hCreate, ?_⟩
      rw [deed?_act hJoint hTalk, Option.toList_some, List.map_append, List.map_singleton]
      exact hLeads.perform operation
    · -- the others go on with the registry
      obtain ⟨given, options, first, hCreate, hLeads⟩ := ih talk hTalk
      have hLeft : registry = ((Stage.empty.takeAll turns).take turn).registry 0 := by
        obtain ⟨member, -, hEq⟩ := (talk?_eq_some (joint_take hJoint turn)).mp hLater
        exact (congrArg Talk.registry hEq).symm
      have hGiven : talk.registry = (Stage.empty.takeAll turns).registry 0 := by
        obtain ⟨member, -, rfl⟩ := (talk?_eq_some hJoint).mp hTalk
        rfl
      have hShared := shared_take hBilled hTalk hOther
      rw [← hGiven, ← hLeft] at hShared
      refine ⟨given, options, first, hCreate, ?_⟩
      rw [deed?_of_ne _ hOther, Option.toList_none, List.append_nil]
      exact hLeads.share hShared
    · -- nothing had been done to a talk that enters
      refine ⟨_, options, later, hCreate, ?_⟩
      rw [(echoed_takeAll turns number []).1 hNone, deed?_of_none hNone]
      exact .refl

/-- Every talk on a stage is one that can be reached, so that whatever is known of those is known of it. -/
theorem reachable_takeAll {turns : List Turn} {number : Nat} {talk : Talk}
    (hTalk : (Stage.empty.takeAll turns).talk? number = some talk) : Talk.Reachable talk := by
  obtain ⟨registry, options, first, hCreate, hLeads⟩ := leads_takeAll turns number talk hTalk
  exact ⟨registry, options, first, _, hCreate, hLeads⟩

end Dialogue.Stage
