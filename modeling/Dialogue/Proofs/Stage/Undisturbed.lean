import Dialogue.Proofs.Stage.Ledger
import Dialogue.Proofs.Talk.Counterpart
import Mathlib.Data.List.Infix

/-!
# Talks that do not disturb one another

A talk on a shared registry behaves as if it were alone. If all that was done to it is done to a talk with
the same options on a registry of its own, the replies are the same and so is the state that it comes to,
up to its own number and the numbers of its sections: alone, these are numbered from one upwards.

Main results:

* `Stage.Echoed.perform`, `Stage.Echoed.share` — what the talk does, and what the others do.
* `Stage.undisturbed` — all talks on one registry, whatever turns they take.
-/

namespace Dialogue

/-! ## Numbers as they are alone -/

/-- The number that a section has if its talk is alone: its place among the sections of the talk. Other
numbers get out of the way. -/
def renumbering (numbers : List Nat) (number : Nat) : Nat :=
  if number ∈ numbers then numbers.idxOf number + 1 else numbers.length + 1 + number

/-- No two sections get one number. -/
theorem renumbering_injective (numbers : List Nat) : Function.Injective (renumbering numbers) := by
  intro number other hEq
  unfold renumbering at hEq
  split at hEq <;> split at hEq
  · rename_i hMem hMem'
    exact (List.idxOf_inj hMem).mp (Nat.succ.inj hEq)
  · -- the sections of the talk come first, and all others after them
    rename_i hMem hMem'
    have := List.idxOf_lt_length_iff.mpr hMem
    omega
  · rename_i hMem hMem'
    have := List.idxOf_lt_length_iff.mpr hMem'
    omega
  · omega

/-- A number that is new behind `numbers` comes next. -/
theorem renumbering_next {numbers : List Nat} {number : Nat} (hNew : number ∉ numbers)
    (rest : List Nat) : renumbering (numbers ++ number :: rest) number = numbers.length + 1 := by
  rw [renumbering, if_pos (by simp), List.idxOf_append_of_notMem hNew, List.idxOf_cons_self,
    Nat.add_zero]

namespace Stage

/-! ## What is done to one talk -/

/-- What is done to the talk with a number in a turn, and the reply. -/
def deed? (stage : Stage) (number : Nat) : Turn → Option (Operation × Reply)
  | .enter _ => none
  | .act other operation =>
    if other = number then
      (stage.act? number (·.perform operation)).map fun (reply, _) => (operation, reply)
    else none

/-- All that is done to the talk with a number, and the replies. -/
def deeds (stage : Stage) (number : Nat) : List Turn → List (Operation × Reply)
  | [] => []
  | turn :: rest => (stage.deed? number turn).toList ++ (stage.take turn).deeds number rest

/-- The last turn adds its deed, if it has one. -/
theorem deeds_append_singleton (stage : Stage) (number : Nat) (turns : List Turn) (turn : Turn) :
    stage.deeds number (turns ++ [turn]) =
      stage.deeds number turns ++ ((stage.takeAll turns).deed? number turn).toList := by
  induction turns generalizing stage with
  | nil => simp [deeds, takeAll]
  | cons first rest ih => simp [deeds, takeAll, ih, List.append_assoc]

/-- Nothing is done to a talk that is not there. -/
theorem deed?_of_none {stage : Stage} {number : Nat} (hNone : stage.talk? number = none)
    (turn : Turn) : stage.deed? number turn = none := by
  have hMember : stage.cast[number]? = none := Option.map_eq_none_iff.mp hNone
  unfold deed?
  split
  · rfl
  · split
    · rw [act?, hMember]
      rfl
    · rfl

/-- Nothing is done to a talk in the turns of others. -/
theorem deed?_of_ne (stage : Stage) {number : Nat} {turn : Turn}
    (hOther : ∀ operation, turn ≠ .act number operation) : stage.deed? number turn = none := by
  unfold deed?
  split
  · rfl
  · rename_i other operation
    exact if_neg fun hEq => hOther operation (congrArg (Turn.act · operation) hEq)

/-- What a talk does is a deed with its reply. -/
theorem deed?_act {stage : Stage} (hJoint : stage.Joint) {number : Nat} {talk : Talk}
    (hTalk : stage.talk? number = some talk) (operation : Operation) :
    stage.deed? number (.act number operation) = some (operation, (talk.perform operation).1) := by
  rw [deed?, if_pos rfl, act?_eq_some hJoint hTalk]
  rfl

/-! ## Alone -/

/-- The deeds, done to a talk with the same options on a registry of its own, have the same replies and
lead to a counterpart of `talk`. -/
def Echoed (f : Nat → Nat) (deeds : List (Operation × Reply)) (talk : Talk) : Prop :=
  ∃ first, Talk.create .empty talk.options = .ok first ∧
    (first.performAll (deeds.map fun deed => deed.1.renumber f)).1 =
      deeds.map (fun deed => deed.2.renumber f) ∧
    Talk.Counterpart f talk (first.after (deeds.map fun deed => deed.1.renumber f)) ∧
    (first.after (deeds.map fun deed => deed.1.renumber f)).scrap.numbers =
      List.range' 1 (first.after (deeds.map fun deed => deed.1.renumber f)).registry.sections

namespace Echoed

variable {f : Nat → Nat} {deeds : List (Operation × Reply)} {talk : Talk}

/-- A talk that enters is alone but for its number. -/
theorem enter {registry : Registry} {options : Options} (hf : Function.Injective f)
    (hCreate : Talk.create registry options = .ok talk) : Echoed f [] talk := by
  have hCheck := Options.validate_eq_ok_iff.mpr (Talk.registry_of_create hCreate).1
  obtain ⟨first, hFirst, -⟩ := Talk.exists_create .empty (Talk.registry_of_create hCreate).1
  refine ⟨first, by rwa [(Talk.of_create hCreate).1], rfl, ?_⟩
  unfold Talk.create Talk.enroll at hCreate hFirst
  rw [hCheck] at hCreate hFirst
  cases hCreate
  cases hFirst
  exact ⟨⟨hf, rfl, rfl, rfl, rfl, Agenda.ext rfl rfl, rfl, rfl, rfl, rfl, rfl, rfl, rfl, rfl, rfl⟩, rfl⟩

/-- What others do to the registry does not count. -/
theorem share (h : Echoed f deeds talk) (registry : Registry) :
    Echoed f deeds { talk with registry } := by
  obtain ⟨first, hCreate, hReplies, hCounterpart, hNumbers⟩ := h
  exact ⟨first, hCreate, hReplies, { hCounterpart with }, hNumbers⟩

/-- What is done next has the same reply, if a section that starts has the number that is next alone. -/
theorem perform (h : Echoed f deeds talk) (operation : Operation)
    (hNext : (talk.perform operation).2.registry.sections ≠ talk.registry.sections →
      f (talk.registry.sections + 1) = talk.scrap.numbers.length + 1) :
    Echoed f (deeds ++ [(operation, (talk.perform operation).1)]) (talk.perform operation).2 := by
  obtain ⟨first, hCreate, hReplies, hCounterpart, hNumbers⟩ := h
  obtain ⟨_, -, -, hEnrolls⟩ := talk.starts_perform operation
  have hCount := congrArg List.length (hNumbers.symm.trans hCounterpart.numbers)
  rw [List.length_range', List.length_map] at hCount
  -- a section that starts has the next number on the stage, and alone the next one of the talk
  obtain ⟨hReply, hLater⟩ := hCounterpart.perform operation fun hStarts => by
    rw [hNext hStarts, hCount]
  refine ⟨first, by rwa [hEnrolls.options], ?_, ?_, ?_⟩
  · rw [List.map_append, List.map_append, Talk.performAll_append, hReplies, List.map_singleton,
      List.map_singleton, ← hReply]
    rfl
  · rw [List.map_append, Talk.after_append]
    exact hLater
  · rw [List.map_append, Talk.after_append]
    generalize first.after _ = alone at hNumbers ⊢
    obtain ⟨started, -, -, hAlone⟩ := alone.starts_perform (operation.renumber f)
    show (alone.perform (operation.renumber f)).2.scrap.numbers =
      List.range' 1 (alone.perform (operation.renumber f)).2.registry.sections
    rw [hAlone.numbers, hAlone.sections, hNumbers, hAlone.rising, List.length_range',
      Nat.add_comm _ 1, List.range'_append_1]

end Echoed

/-- A section that starts has a number that the talk has not had. -/
theorem renumbering_started {stage : Stage} {bill : List Options} {ledger : List (Nat × Nat)}
    (h : Billed bill ledger stage) {number : Nat} {talk : Talk}
    (hTalk : stage.talk? number = some talk) (operation : Operation) {finals : List Nat}
    (hFinals : (talk.perform operation).2.scrap.numbers <+: finals)
    (hStarts : (talk.perform operation).2.registry.sections ≠ talk.registry.sections) :
    renumbering finals (talk.registry.sections + 1) = talk.scrap.numbers.length + 1 := by
  obtain ⟨started, hLength, -, hEnrolls⟩ := talk.starts_perform operation
  -- one section starts, with the next number of the registry
  have hOne : started.length = 1 := by
    rw [hEnrolls.sections] at hStarts
    omega
  have hRising := hEnrolls.rising
  rw [hOne] at hRising
  have hNew : talk.registry.sections + 1 ∉ talk.scrap.numbers := by
    obtain ⟨member, hMember, rfl⟩ := (talk?_eq_some h.joint).mp hTalk
    intro hMem
    have hOwn : (stage.registry 0).sections + 1 ∈ stage.numbersOf number := by
      rw [numbersOf, hMember]
      exact hMem
    exact Nat.not_succ_le_self _ (h.le_sections hOwn)
  obtain ⟨rest, rfl⟩ := hFinals
  rw [hEnrolls.numbers, hRising, List.append_assoc]
  exact renumbering_next hNew rest

/-- After any turns, the deeds of a talk are echoed under numbers that come of all its sections. -/
theorem echoed_takeAll (turns : List Turn) (number : Nat) (finals : List Nat) :
    ((Stage.empty.takeAll turns).talk? number = none → Stage.empty.deeds number turns = []) ∧
      ∀ talk, (Stage.empty.takeAll turns).talk? number = some talk →
        talk.scrap.numbers <+: finals →
        Echoed (renumbering finals) (Stage.empty.deeds number turns) talk := by
  induction turns using List.reverseRecOn with
  | nil => exact ⟨fun _ => rfl, fun talk hTalk => by cases hTalk⟩
  | append_singleton turns turn ih =>
    obtain ⟨hAbsent, hEchoed⟩ := ih
    have hBilled := billed_takeAll turns
    have hJoint := hBilled.joint
    rw [takeAll_append_singleton, deeds_append_singleton]
    refine ⟨fun hNone => ?_, fun later hLater hFinals => ?_⟩
    · have hNone := talk?_eq_none.mpr
        (Nat.le_trans (length_cast_take hJoint turn) (talk?_eq_none.mp hNone))
      rw [hAbsent hNone, deed?_of_none hNone]
      rfl
    · rcases talk?_take hJoint hLater with ⟨talk, operation, hTalk, rfl, rfl⟩ |
        ⟨talk, registry, hTalk, hOther, rfl⟩ | ⟨hNone, options, rfl, hCreate⟩
      · obtain ⟨started, -, -, hEnrolls⟩ := talk.starts_perform operation
        have hBefore : talk.scrap.numbers <+: finals := by
          rw [hEnrolls.numbers] at hFinals
          exact (List.prefix_append ..).trans hFinals
        rw [deed?_act hJoint hTalk]
        exact (hEchoed talk hTalk hBefore).perform operation
          (renumbering_started hBilled hTalk operation hFinals)
      · -- the turn of another changes only the registry
        rw [deed?_of_ne _ hOther, Option.toList_none, List.append_nil]
        exact (hEchoed talk hTalk hFinals).share registry
      · rw [hAbsent hNone, deed?_of_none hNone]
        exact .enter (renumbering_injective finals) hCreate

/-! ## Undisturbed -/

/-- A talk on a shared registry is undisturbed by the others, whatever turns they all take. Done to a talk
with the same options on a registry of its own, all that was done to it has the same replies, and leads to
the same events, clock, scrap and areas, under other numbers: alone, the sections are numbered from one
upwards, and so are those that pacing asks for. -/
theorem undisturbed (turns : List Turn) {number : Nat} {talk : Talk}
    (hTalk : (Stage.empty.takeAll turns).talk? number = some talk) :
    let f := renumbering talk.scrap.numbers
    let deeds := Stage.empty.deeds number turns
    let operations := deeds.map fun deed => deed.1.renumber f
    (turns.filterMap Turn.entering?)[number]? = some talk.options ∧
      ∃ first, Talk.create .empty talk.options = .ok first ∧
        (first.performAll operations).1 = deeds.map (fun deed => deed.2.renumber f) ∧
        Talk.Counterpart f talk (first.after operations) ∧
        talk.scrap.numbers.map f = List.range' 1 talk.scrap.numbers.length := by
  intro f deeds operations
  have hBilled := billed_takeAll turns
  obtain ⟨first, hCreate, hReplies, hCounterpart, hAlone⟩ :=
    (echoed_takeAll turns number talk.scrap.numbers).2 talk hTalk (List.prefix_refl _)
  have hNumbers := hAlone.symm.trans hCounterpart.numbers
  have hLength := congrArg List.length hNumbers
  rw [List.length_range', List.length_map] at hLength
  refine ⟨?_, first, hCreate, hReplies, hCounterpart, ?_⟩
  · obtain ⟨member, hMember, rfl⟩ := (talk?_eq_some hBilled.joint).mp hTalk
    rw [← hBilled.options, List.getElem?_map, hMember]
    rfl
  · rw [← hNumbers, hLength]

/-- Two talks that begin sections in turn. The second one paces its second section, which is the third one
of the registry. -/
def duet : List Turn :=
  [.enter .standard, .enter .standard, .act 1 (.direct (.beginSection none)),
    .act 0 (.direct (.speak "Hi")), .act 1 (.direct (.beginSection none)),
    .act 1 (.direct (.speak "Oh")), .act 0 .close, .act 1 (.pace (.single 3))]

/-- The second of two talks, which write in turns. -/
theorem undisturbed_duet :
    ∃ talk first, (Stage.empty.takeAll duet).talk? 1 = some talk ∧ talk.scrap.numbers = [1, 3] ∧
      Talk.create .empty .standard = .ok first ∧
      (first.performAll [.direct (.beginSection none), .direct (.beginSection none),
        .direct (.speak "Oh"), .pace (.single 2)]).1 =
          [.nothing, .nothing, .nothing, .total 240] ∧
      (first.after [.direct (.beginSection none), .direct (.beginSection none),
        .direct (.speak "Oh"), .pace (.single 2)]).scrap.entries = talk.scrap.entries := by
  obtain ⟨talk, hTalk, hNumbers, hOptions⟩ : ∃ talk, (Stage.empty.takeAll duet).talk? 1 = some talk ∧
      talk.scrap.numbers = [1, 3] ∧ talk.options = .standard := ⟨_, rfl, by decide, rfl⟩
  have hDeeds : Stage.empty.deeds 1 duet =
      [(.direct (.beginSection none), .nothing), (.direct (.beginSection none), .nothing),
        (.direct (.speak "Oh"), .nothing), (.pace (.single 3), .total 240)] := by decide
  obtain ⟨-, first, hCreate, hReplies, hCounterpart, -⟩ := undisturbed duet hTalk
  rw [hNumbers, hDeeds] at hReplies hCounterpart
  rw [hOptions] at hCreate
  -- the third section of the registry is the second one of the talk
  have hThird : renumbering [1, 3] 3 = 2 := by decide
  have hPace : (Operation.pace (.single 3)).renumber (renumbering [1, 3]) = .pace (.single 2) :=
    congrArg (fun number => Operation.pace (.single number)) hThird
  rw [List.map_cons, List.map_cons, List.map_cons, List.map_singleton, hPace] at hReplies hCounterpart
  exact ⟨talk, first, hTalk, hNumbers, hCreate, hReplies, hCounterpart.scrap.entries⟩

end Stage

end Dialogue
