import Dialogue.Proofs.Talk.History
import Dialogue.Stage
import Mathlib.Data.List.Induction

/-!
# Turns on a stage

Talks that share a registry take turns: in a `Turn` a talk enters, or one of those that are there is acted
on. The turns may come in any order, for any number of talks, with options that are valid or not.

Main results:

* `Stage.joint_take` — all talks stay on the one registry.
* `Stage.take_enter`, `Stage.take_enter_of_error`, `Stage.take_act` — what becomes of a stage in one turn.
-/

namespace Dialogue

/-- What is done on a stage where all talks share a registry. -/
inductive Turn where
  /-- A talk enters, if its options are valid. -/
  | enter (options : Options)
  /-- The talk with a number, from zero, is acted on. -/
  | act (number : Nat) (operation : Operation)
deriving DecidableEq

namespace Stage

/-- A turn is taken. Options that are not valid and numbers that no talk has change nothing. -/
def take (stage : Stage) : Turn → Stage
  | .enter options => (stage.enter 0 options).2
  | .act number operation =>
    match stage.act? number (·.perform operation) with
    | some (_, later) => later
    | none => stage

/-- Turns are taken in order. -/
def takeAll (stage : Stage) (turns : List Turn) : Stage := turns.foldl take stage

/-- The last turn is taken on the stage that the others have left. -/
theorem takeAll_append_singleton (stage : Stage) (turns : List Turn) (turn : Turn) :
    stage.takeAll (turns ++ [turn]) = (stage.takeAll turns).take turn := by
  rw [takeAll, List.foldl_append]
  rfl

/-! ## One registry -/

/-- There is one registry, and all talks are on it. -/
structure Joint (stage : Stage) : Prop where
  registries : ∃ registry, stage.registries = [registry]
  cast : ∀ member ∈ stage.cast, member.registry = 0

/-- A talk is found with the registry as it stands now. -/
theorem talk?_eq_some {stage : Stage} (hJoint : stage.Joint) {number : Nat} {talk : Talk} :
    stage.talk? number = some talk ↔
      ∃ member, stage.cast[number]? = some member ∧
        { member.talk with registry := stage.registry 0 } = talk := by
  rw [talk?, Option.map_eq_some_iff]
  -- the member is on the one registry
  refine exists_congr fun member => and_congr_right fun hMember => ?_
  rw [hJoint.cast member (List.mem_of_getElem? hMember)]

/-- No other registry has to be opened. -/
theorem withRegistry_zero {stage : Stage} (hJoint : stage.Joint) : stage.withRegistry 0 = stage := by
  obtain ⟨registry, hRegistries⟩ := hJoint.registries
  rw [withRegistry, hRegistries]
  rfl

/-- A talk that enters is the last of the cast. -/
theorem enter_of_create {stage : Stage} (hJoint : stage.Joint) {options : Options} {talk : Talk}
    (hCreate : Talk.create (stage.registry 0) options = .ok talk) :
    stage.enter 0 options = (.ok (), ⟨[talk.registry], stage.cast ++ [⟨0, talk⟩]⟩) := by
  obtain ⟨registry, hRegistries⟩ := hJoint.registries
  simp only [enter, withRegistry_zero hJoint, Talk.enroll_of_create hCreate, hRegistries,
    List.set_cons_zero]

/-- A talk that is refused leaves no trace, as the registry is handed back as it was. -/
theorem enter_of_error {stage : Stage} (hJoint : stage.Joint) {options : Options}
    {error : OptionsError} (hCreate : Talk.create (stage.registry 0) options = .error error) :
    stage.enter 0 options = (.error error, stage) := by
  obtain ⟨registries, cast⟩ := stage
  obtain ⟨registry, rfl⟩ := hJoint.registries
  simp only [enter, withRegistry_zero hJoint, Talk.enroll_of_error hCreate]
  rfl

/-- A talk that can be created comes behind the cast, and all have its registry. -/
theorem take_enter {stage : Stage} (hJoint : stage.Joint) {options : Options} {talk : Talk}
    (hCreate : Talk.create (stage.registry 0) options = .ok talk) :
    stage.take (.enter options) = ⟨[talk.registry], stage.cast ++ [⟨0, talk⟩]⟩ := by
  rw [take, enter_of_create hJoint hCreate]

/-- One that cannot leaves the stage as it was. -/
theorem take_enter_of_error {stage : Stage} (hJoint : stage.Joint) {options : Options}
    {error : OptionsError} (hCreate : Talk.create (stage.registry 0) options = .error error) :
    stage.take (.enter options) = stage := by
  rw [take, enter_of_error hJoint hCreate]

/-- A talk that is acted on leaves the registry to the others. -/
theorem act?_eq_some {stage : Stage} (hJoint : stage.Joint) {number : Nat} {talk : Talk}
    (hTalk : stage.talk? number = some talk) (operation : Operation) :
    stage.act? number (·.perform operation) =
      some ((talk.perform operation).1, ⟨[(talk.perform operation).2.registry],
        stage.cast.set number ⟨0, (talk.perform operation).2⟩⟩) := by
  obtain ⟨registry, hRegistries⟩ := hJoint.registries
  obtain ⟨member, hMember, -⟩ := (talk?_eq_some hJoint).mp hTalk
  have hZero := hJoint.cast member (List.mem_of_getElem? hMember)
  rw [act?, hMember, hTalk]
  simp only [Option.bind_eq_bind, Option.bind_some, hZero, hRegistries]
  rfl

/-- A talk that acts takes its place again, and all have its registry. -/
theorem take_act {stage : Stage} (hJoint : stage.Joint) {number : Nat} {talk : Talk}
    (hTalk : stage.talk? number = some talk) (operation : Operation) :
    stage.take (.act number operation) = ⟨[(talk.perform operation).2.registry],
      stage.cast.set number ⟨0, (talk.perform operation).2⟩⟩ := by
  rw [take, act?_eq_some hJoint hTalk]

/-- Nothing comes of a number that no talk has. -/
theorem take_act_of_none {stage : Stage} {number : Nat} (hNone : stage.talk? number = none)
    (operation : Operation) : stage.take (.act number operation) = stage := by
  have hMember : stage.cast[number]? = none := Option.map_eq_none_iff.mp hNone
  rw [take, act?, hMember]
  rfl

/-- On the empty stage there is one registry, and nobody who could have another. -/
theorem joint_empty : Joint .empty := ⟨⟨.empty, rfl⟩, fun _ hMem => absurd hMem List.not_mem_nil⟩

/-- No turn brings in a second registry. -/
theorem joint_take {stage : Stage} (hJoint : stage.Joint) (turn : Turn) :
    (stage.take turn).Joint := by
  cases turn with
  | enter options =>
    cases hCreate : Talk.create (stage.registry 0) options with
    | ok talk =>
      rw [take_enter hJoint hCreate]
      refine ⟨⟨_, rfl⟩, fun member hMem => ?_⟩
      -- the talks that were there, and the one that has entered
      rcases List.mem_append.mp hMem with hOld | hNew
      · exact hJoint.cast member hOld
      · rw [List.mem_singleton.mp hNew]
    | error error =>
      rw [take_enter_of_error hJoint hCreate]
      exact hJoint
  | act number operation =>
    cases hTalk : stage.talk? number with
    | some talk =>
      rw [take_act hJoint hTalk]
      refine ⟨⟨_, rfl⟩, fun member hMem => ?_⟩
      -- the talks that did not act, and the one that did
      rcases List.mem_or_eq_of_mem_set hMem with hOld | rfl
      · exact hJoint.cast member hOld
      · rfl
    | none =>
      rw [take_act_of_none hTalk]
      exact hJoint

/-! ## One talk -/

theorem talk?_eq_none {stage : Stage} {number : Nat} :
    stage.talk? number = none ↔ stage.cast.length ≤ number := by
  rw [talk?, Option.map_eq_none_iff, List.getElem?_eq_none_iff]

/-- Where a talk enters, the others wait, and the registry may change meanwhile. -/
theorem talk?_enter {stage : Stage} (hJoint : stage.Joint) {options : Options} {number : Nat}
    {later : Talk} (hLater : (stage.take (.enter options)).talk? number = some later) :
    (∃ talk registry, stage.talk? number = some talk ∧ later = { talk with registry }) ∨
      (stage.talk? number = none ∧ Talk.create (stage.registry 0) options = .ok later) := by
  obtain ⟨found, hFound, rfl⟩ := (talk?_eq_some (joint_take hJoint _)).mp hLater
  have hWaits : ∀ registry, stage.cast[number]? = some found →
      ∃ talk registry', stage.talk? number = some talk ∧
        { found.talk with registry } = { talk with registry := registry' } :=
    fun registry hSame => ⟨_, registry, (talk?_eq_some hJoint).mpr ⟨found, hSame, rfl⟩, rfl⟩
  cases hCreate : Talk.create (stage.registry 0) options with
  | error error =>
    rw [take_enter_of_error hJoint hCreate] at hFound
    exact .inl (hWaits _ hFound)
  | ok talk =>
    rw [take_enter hJoint hCreate, List.getElem?_append] at hFound
    split at hFound
    · exact .inl (hWaits _ hFound)
    · -- a place behind the cast can only be that of the new talk
      rename_i hBehind
      rw [List.getElem?_singleton] at hFound
      split at hFound
      · cases hFound
        refine .inr ⟨talk?_eq_none.mpr (Nat.le_of_not_lt hBehind), ?_⟩
        rw [take_enter hJoint hCreate]
        rfl
      · cases hFound

/-- Where a talk acts, the others wait. -/
theorem talk?_act {stage : Stage} (hJoint : stage.Joint) {other : Nat} {operation : Operation}
    {number : Nat} {later : Talk}
    (hLater : (stage.take (.act other operation)).talk? number = some later) :
    (∃ talk, stage.talk? number = some talk ∧ other = number ∧
        later = (talk.perform operation).2) ∨
      (∃ talk registry, stage.talk? number = some talk ∧ other ≠ number ∧
        later = { talk with registry }) := by
  obtain ⟨found, hFound, rfl⟩ := (talk?_eq_some (joint_take hJoint _)).mp hLater
  by_cases hNumber : other = number
  · subst hNumber
    cases hTalk : stage.talk? other with
    | none =>
      rw [take_act_of_none hTalk, List.getElem?_eq_none (talk?_eq_none.mp hTalk)] at hFound
      cases hFound
    | some talk =>
      rw [take_act hJoint hTalk, List.getElem?_set_self'] at hFound
      obtain ⟨member, -, rfl⟩ := Option.map_eq_some_iff.mp hFound
      refine .inl ⟨talk, rfl, rfl, ?_⟩
      rw [take_act hJoint hTalk]
      rfl
  · -- the turn of another talk leaves the place as it was
    have hSame : stage.cast[number]? = some found := by
      cases hTalk : stage.talk? other with
      | none => rwa [take_act_of_none hTalk] at hFound
      | some talk => rwa [take_act hJoint hTalk, List.getElem?_set_ne hNumber] at hFound
    exact .inr ⟨_, _, (talk?_eq_some hJoint).mpr ⟨found, hSame, rfl⟩, hNumber, rfl⟩

/-- What a turn makes of one talk: it acts, or waits while others may use the registry, or it enters. -/
theorem talk?_take {stage : Stage} (hJoint : stage.Joint) {turn : Turn} {number : Nat} {later : Talk}
    (hLater : (stage.take turn).talk? number = some later) :
    (∃ talk operation, stage.talk? number = some talk ∧ turn = .act number operation ∧
        later = (talk.perform operation).2) ∨
      (∃ talk registry, stage.talk? number = some talk ∧
        (∀ operation, turn ≠ .act number operation) ∧ later = { talk with registry }) ∨
      (stage.talk? number = none ∧ ∃ options, turn = .enter options ∧
        Talk.create (stage.registry 0) options = .ok later) := by
  cases turn with
  | enter options =>
    rcases talk?_enter hJoint hLater with ⟨talk, registry, hTalk, rfl⟩ | ⟨hNone, hCreate⟩
    · exact .inr (.inl ⟨talk, registry, hTalk, fun _ => Turn.noConfusion, rfl⟩)
    · exact .inr (.inr ⟨hNone, options, rfl, hCreate⟩)
  | act other operation =>
    rcases talk?_act hJoint hLater with ⟨talk, hTalk, rfl, rfl⟩ |
      ⟨talk, registry, hTalk, hOther, rfl⟩
    · exact .inl ⟨talk, operation, hTalk, rfl, rfl⟩
    · exact .inr (.inl ⟨talk, registry, hTalk, fun _ hEq => hOther (Turn.act.inj hEq).1, rfl⟩)

/-- Talks that are there stay. -/
theorem length_cast_take {stage : Stage} (hJoint : stage.Joint) (turn : Turn) :
    stage.cast.length ≤ (stage.take turn).cast.length := by
  cases turn with
  | enter options =>
    cases hCreate : Talk.create (stage.registry 0) options with
    | ok talk =>
      rw [take_enter hJoint hCreate, List.length_append]
      exact Nat.le_add_right _ _
    | error error => exact Nat.le_of_eq (by rw [take_enter_of_error hJoint hCreate])
  | act number operation =>
    cases hTalk : stage.talk? number with
    | some talk => exact Nat.le_of_eq (by rw [take_act hJoint hTalk, List.length_set])
    | none => exact Nat.le_of_eq (by rw [take_act_of_none hTalk])

end Stage

end Dialogue
