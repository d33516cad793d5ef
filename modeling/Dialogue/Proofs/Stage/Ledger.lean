import Dialogue.Proofs.Stage.Turns
import Dialogue.Proofs.Talk.Numbering
import Mathlib.Data.List.Nodup

/-!
# The ledger of a stage

Talks on one registry never clash, whatever turns they take. The registry counts the talks that have
entered and the sections that have begun, each from one upwards, and lists the scraps of the talks that are
not over. The ledger has the sections of all talks in the order in which they began, each with the number
of its talk.

Main results:

* `Stage.Billed.take` — what a turn adds to the bill and to the ledger.
* `Stage.never_clash` — names, numbers of sections and attached scraps after any turns.
-/

namespace Dialogue

/-- The options of a talk that enters. Options that are not valid let nobody in. -/
def Turn.entering? : Turn → Option Options
  | .enter options => if options.Valid then some options else none
  | .act .. => none

namespace Cast

/-- The name under which the scrap of a talk is attached. -/
def name (member : Cast) : String := member.talk.scrap.name

/-- Whether a talk is not over. -/
def isPresent (member : Cast) : Bool := member.talk.isPending .closed

end Cast

namespace Stage

/-- The names of the talks that are not over, in the order in which they entered. -/
def present (stage : Stage) : List String := (stage.cast.filter Cast.isPresent).map Cast.name

/-- The numbers of the sections of a talk, in the order in which they began. -/
def numbersOf (stage : Stage) (number : Nat) : List Nat :=
  (stage.cast[number]?).elim [] fun member => member.talk.scrap.numbers

/-- The sections that begin in a turn, each with the number of its talk. -/
def begun (stage : Stage) (turn : Turn) : List (Nat × Nat) :=
  match turn with
  | .enter _ => []
  | .act number _ =>
    (((stage.take turn).numbersOf number).drop (stage.numbersOf number).length).map (number, ·)

/-- The sections that begin in turns, in order, each with the number of its talk. -/
def ledger (stage : Stage) : List Turn → List (Nat × Nat)
  | [] => []
  | turn :: rest => stage.begun turn ++ (stage.take turn).ledger rest

/-- The last turn begins what is new after the others. -/
theorem ledger_append_singleton (stage : Stage) (turns : List Turn) (turn : Turn) :
    stage.ledger (turns ++ [turn]) = stage.ledger turns ++ (stage.takeAll turns).begun turn := by
  induction turns generalizing stage with
  | nil => simp [ledger, takeAll]
  | cons first rest ih => simp [ledger, takeAll, ih, List.append_assoc]

/-- The sections that one talk has begun are found under its number. -/
theorem map_snd_filter_fst (number other : Nat) (started : List Nat) :
    ((started.map (number, ·)).filter (·.1 = other)).map Prod.snd =
      if other = number then started else [] := by
  rw [List.filter_map, List.map_map]
  by_cases hOther : other = number
  · simp [hOther, Function.comp_def]
  · simp [hOther, Ne.symm hOther, Function.comp_def]

/-! ## Changes of the cast -/

/-- A talk without sections adds none. -/
theorem numbersOf_append_singleton {stage : Stage} {member : Cast}
    (hNone : member.talk.scrap.numbers = []) (registries : List Registry) (number : Nat) :
    numbersOf ⟨registries, stage.cast ++ [member]⟩ number = stage.numbersOf number := by
  rw [numbersOf, numbersOf, List.getElem?_append]
  split
  · rfl
  · -- behind the cast there is the new member or nobody, and neither has numbers
    rename_i hLast
    rw [List.getElem?_eq_none (Nat.le_of_not_lt hLast)]
    rcases Nat.eq_zero_or_pos (number - stage.cast.length) with hFirst | hBehind
    · rw [hFirst]
      exact hNone
    · rw [List.getElem?_eq_none hBehind]

/-- The sections of one talk are added to, and those of the others stay. -/
theorem numbersOf_set {stage : Stage} {number : Nat} {member later : Cast} {started : List Nat}
    (hMember : stage.cast[number]? = some member)
    (hNumbers : later.talk.scrap.numbers = member.talk.scrap.numbers ++ started)
    (registries : List Registry) (other : Nat) :
    numbersOf ⟨registries, stage.cast.set number later⟩ other =
      stage.numbersOf other ++ if other = number then started else [] := by
  obtain ⟨hLength, -⟩ := List.getElem?_eq_some_iff.mp hMember
  rw [numbersOf, numbersOf, List.getElem?_set]
  by_cases hOther : number = other
  · subst hOther
    rw [if_pos rfl, if_pos hLength, if_pos rfl, hMember]
    exact hNumbers
  · rw [if_neg hOther, if_neg fun hEq => hOther hEq.symm, List.append_nil]

/-- A change of one talk that `f` does not see. -/
theorem map_set_of_eq {α : Type} {f : Cast → α} {cast : List Cast} {number : Nat}
    {member later : Cast} (hMember : cast[number]? = some member) (hSame : f later = f member) :
    (cast.set number later).map f = cast.map f := by
  refine List.ext_getElem? fun i => ?_
  rw [List.getElem?_map, List.getElem?_map]
  by_cases hHere : number = i
  · subst hHere
    rw [List.getElem?_set_self', hMember]
    exact congrArg some hSame
  · rw [List.getElem?_set_ne hHere]

/-- A talk that is still there, or is still over, leaves the list of names as it is. -/
theorem present_set_of_eq {stage : Stage} {number : Nat} {member later : Cast}
    (hMember : stage.cast[number]? = some member) (hName : later.name = member.name)
    (hPresent : later.isPresent = member.isPresent) (registries : List Registry) :
    present ⟨registries, stage.cast.set number later⟩ = stage.present := by
  have hPairs : ∀ stage : Stage, stage.present =
      ((stage.cast.map fun member => (member.isPresent, member.name)).filter Prod.fst).map
        Prod.snd := by
    intro stage
    rw [List.filter_map, List.map_map]
    rfl
  rw [hPairs, hPairs, map_set_of_eq hMember (by rw [hName, hPresent])]

/-! ## The bill -/

/-- What the registry says about the talks on it: their number, their sections and their scraps. -/
structure Billed (bill : List Options) (ledger : List (Nat × Nat)) (stage : Stage) : Prop where
  joint : stage.Joint
  options : stage.cast.map (fun member => member.talk.options) = bill
  talks : (stage.registry 0).talks = stage.cast.length
  numbers : stage.cast.map (fun member => member.talk.scrap.number) =
    List.range' 1 stage.cast.length
  sections : ledger.map Prod.snd = List.range' 1 (stage.registry 0).sections
  own : ∀ number, (ledger.filter (·.1 = number)).map Prod.snd = stage.numbersOf number
  attached : (stage.registry 0).attached.getD [] = stage.present

theorem billed_empty : Billed [] [] .empty :=
  ⟨joint_empty, rfl, rfl, rfl, rfl, fun _ => rfl, rfl⟩

namespace Billed

variable {bill : List Options} {ledger : List (Nat × Nat)} {stage : Stage}

/-- No two talks have the same number. -/
theorem nodup_numbers (h : Billed bill ledger stage) :
    (stage.cast.map fun member => member.talk.scrap.number).Nodup := by
  rw [h.numbers]
  exact List.nodup_range'

/-- No other talk on the stage has the same name. -/
theorem others (h : Billed bill ledger stage) {before after : List Cast} {member : Cast}
    (hCast : stage.cast = before ++ member :: after) (other : Cast) (hOther : other ∈ before ++ after) :
    other.name ≠ member.name := by
  have hNodup := h.nodup_numbers
  rw [hCast, List.map_append, List.map_cons, List.nodup_middle, ← List.map_append,
    List.nodup_cons] at hNodup
  intro hName
  refine hNodup.1 ?_
  rw [← Scrap.name_inj hName]
  exact List.mem_map_of_mem hOther

/-- The names of the talks in the order of the bill. -/
theorem names (h : Billed bill ledger stage) :
    (stage.cast.map fun member => (member.name, member.talk.options)) =
      (bill.zipIdx 1).map fun (options, number) => ("scrap" ++ toString number, options) := by
  have hLength : bill.length = stage.cast.length := by rw [← h.options, List.length_map]
  rw [List.zipIdx_eq_zip_range', hLength, ← h.numbers, ← h.options, List.zip_map', List.map_map]
  rfl

/-- No two of those who are present have the same name. -/
theorem nodup_present (h : Billed bill ledger stage) : stage.present.Nodup := by
  have hNumbers := h.nodup_numbers
  rw [List.Nodup, List.pairwise_map] at hNumbers
  rw [present, List.Nodup, List.pairwise_map]
  -- scraps with different numbers have different names
  exact (hNumbers.imp fun hNe hName => hNe (Scrap.name_inj hName)).filter _

/-- No section has a number that the registry has not given out. -/
theorem le_sections (h : Billed bill ledger stage) {number sect : Nat}
    (hMem : sect ∈ stage.numbersOf number) : sect ≤ (stage.registry 0).sections := by
  rw [← h.own number] at hMem
  obtain ⟨entry, hEntry, rfl⟩ := List.mem_map.mp hMem
  have hLedger : entry.2 ∈ ledger.map Prod.snd :=
    List.mem_map_of_mem (List.mem_of_mem_filter hEntry)
  rw [h.sections, List.mem_range'_1] at hLedger
  omega

/-- A scrap with a number that no talk has is not attached. -/
theorem isAttached_eq_false (h : Billed bill ledger stage) {scrap : Scrap}
    (hNew : stage.cast.length < scrap.number) : (stage.registry 0).isAttached scrap.name = false := by
  rw [Registry.isAttached, h.attached, List.contains_eq_mem, decide_eq_false_iff_not]
  intro hMem
  obtain ⟨member, hMember, hName⟩ := List.mem_map.mp hMem
  have hNumber : member.talk.scrap.number ∈ List.range' 1 stage.cast.length := by
    rw [← h.numbers]
    exact List.mem_map_of_mem (List.mem_of_mem_filter hMember)
  rw [Scrap.name_inj hName, List.mem_range'_1] at hNumber
  omega

/-- The name of a talk that is over is struck out, and no other one. -/
theorem present_set_of_over (h : Billed bill ledger stage) {number : Nat} {member later : Cast}
    (hMember : stage.cast[number]? = some member) (hPresent : member.isPresent = true)
    (hOver : ¬ later.isPresent = true) (registries : List Registry) :
    present ⟨registries, stage.cast.set number later⟩ = stage.present.filter (· ≠ member.name) := by
  obtain ⟨hLength, hGet⟩ := List.getElem?_eq_some_iff.mp hMember
  obtain ⟨before, after, hCast, -, hSet⟩ := @List.exists_of_set _ _ later _ hLength
  rw [hGet] at hCast
  -- all others bear another name, so that they stay
  have hKept : ∀ other ∈ (before ++ after).filter Cast.isPresent,
      decide (other.name ≠ member.name) = true := fun other hMem =>
    decide_eq_true (h.others hCast other (List.mem_of_mem_filter hMem))
  have hStruck : stage.present.filter (· ≠ member.name) =
      ((before ++ after).filter Cast.isPresent).map Cast.name := by
    rw [present, hCast, List.filter_map, List.filter_append, List.filter_cons_of_pos hPresent,
      List.filter_append, List.filter_cons_of_neg (by simp), ← List.filter_append,
      ← List.filter_append]
    exact congrArg _ (List.filter_eq_self.mpr hKept)
  rw [hStruck, present, hSet, List.filter_append, List.filter_append,
    List.filter_cons_of_neg hOver]

/-- A talk that is new on the registry is attached behind the others. -/
theorem enter (h : Billed bill ledger stage) {options : Options} {talk : Talk}
    (hCreate : Talk.create (stage.registry 0) options = .ok talk) :
    Billed (bill ++ [options]) ledger (stage.take (.enter options)) := by
  have hJoint := joint_take h.joint (.enter options)
  rw [take_enter h.joint hCreate] at hJoint ⊢
  have hNew := Talk.enters_of_create hCreate
  have hRegistry : registry ⟨[talk.registry], stage.cast ++ [⟨0, talk⟩]⟩ 0 = talk.registry := rfl
  have hNumber : talk.scrap.number = stage.cast.length + 1 := by rw [hNew.number, h.talks]
  -- the name is a new one, and is put behind those that are there
  have hAttached : talk.registry.attached.getD [] =
      (stage.registry 0).attached.getD [] ++ [talk.scrap.name] := by
    have hAbsent : { stage.registry 0 with talks := (stage.registry 0).talks + 1 }.isAttached
        talk.scrap.name = false := h.isAttached_eq_false (by rw [hNumber]; exact Nat.lt_succ_self _)
    rw [hNew.registry, Registry.attach, if_neg (Bool.eq_false_iff.mp hAbsent)]
    rfl
  refine ⟨hJoint, ?_, ?_, ?_, ?_, ?_, ?_⟩
  · rw [List.map_append, h.options, ← hNew.options]
    rfl
  · rw [hRegistry, hNew.registry, Registry.talks_attach, h.talks, List.length_append,
      List.length_singleton]
  · rw [List.map_append, h.numbers, List.length_append, List.length_singleton, List.range'_concat,
      List.map_singleton, hNumber, Nat.one_mul, Nat.add_comm]
  · rw [h.sections, hRegistry, hNew.registry, Registry.sections_attach]
  · intro number
    rw [h.own, numbersOf_append_singleton hNew.numbers]
  · have hPresent : Cast.isPresent ⟨0, talk⟩ = true := by
      rw [Cast.isPresent, Talk.isPending_eq, hNew.outcome]
      rfl
    rw [hRegistry, hAttached, h.attached, present, present, List.filter_append, List.map_append,
      List.filter_cons_of_pos hPresent]
    rfl

/-- A talk that is acted on keeps its number, and its scrap stays attached until it is over. -/
theorem act (h : Billed bill ledger stage) {number : Nat} {talk : Talk}
    (hTalk : stage.talk? number = some talk) (operation : Operation) :
    Billed bill (ledger ++ stage.begun (.act number operation))
      (stage.take (.act number operation)) := by
  have hJoint := joint_take h.joint (.act number operation)
  have hBegun : stage.begun (.act number operation) =
    (((stage.take (.act number operation)).numbersOf number).drop
      (stage.numbersOf number).length).map (number, ·) := rfl
  rw [take_act h.joint hTalk] at hJoint hBegun ⊢
  obtain ⟨started, -, -, hActs⟩ := talk.starts_perform operation
  generalize (talk.perform operation).2 = later at hJoint hBegun hActs ⊢
  obtain ⟨member, hMember, rfl⟩ := (talk?_eq_some h.joint).mp hTalk
  have hRegistry : registry ⟨[later.registry], stage.cast.set number ⟨0, later⟩⟩ 0 =
      later.registry := rfl
  have hNumbers : ∀ other, numbersOf ⟨[later.registry], stage.cast.set number ⟨0, later⟩⟩ other =
      stage.numbersOf other ++ if other = number then started else [] :=
    numbersOf_set hMember hActs.numbers _
  rw [hBegun, hNumbers, if_pos rfl, List.drop_left]
  refine ⟨hJoint, ?_, ?_, ?_, ?_, ?_, ?_⟩
  · exact (map_set_of_eq hMember hActs.options).trans h.options
  · rw [hRegistry, hActs.talks, List.length_set]
    exact h.talks
  · rw [map_set_of_eq hMember hActs.number, List.length_set, h.numbers]
  · -- the sections that were begun have the next numbers of the registry
    have hRising : started = List.range' ((stage.registry 0).sections + 1) started.length :=
      hActs.rising
    have hSnd : (started.map (number, ·)).map Prod.snd = started := by
      rw [List.map_map]
      exact List.map_id started
    rw [List.map_append, h.sections, hRegistry, hActs.sections, hSnd, hRising,
      List.length_range', Nat.add_comm _ 1, List.range'_append_1]
  · intro other
    rw [hNumbers, ← h.own, List.filter_append, List.map_append, map_snd_filter_fst]
  · rw [hRegistry]
    rcases hActs.attached with ⟨hAttached, hClosed⟩ | ⟨hAttached, hOpen, hOver⟩
    · -- the operation has not closed the talk, so that it is present if it was
      have hName : Cast.name ⟨0, later⟩ = member.name := by
        rw [Cast.name, Scrap.name, hActs.number]
        rfl
      have hPresent : Cast.isPresent ⟨0, later⟩ = member.isPresent := by
        rw [Cast.isPresent, Cast.isPresent, Talk.isPending_eq, Talk.isPending_eq, hClosed]
        rfl
      rw [hAttached, present_set_of_eq hMember hName hPresent]
      exact h.attached
    · have hPresent : member.isPresent = true := by
        rw [Cast.isPresent, Talk.isPending_eq]
        exact congrArg Option.isNone hOpen
      have hGone : ¬ Cast.isPresent ⟨0, later⟩ = true :=
        Bool.eq_false_iff.mp (Talk.isPending_of_settled hOver)
      rw [hAttached, Registry.attached_detach, h.present_set_of_over hMember hPresent hGone]
      exact congrArg _ h.attached

/-- What a turn adds to the bill and to the ledger. -/
theorem take (h : Billed bill ledger stage) (turn : Turn) :
    Billed (bill ++ turn.entering?.toList) (ledger ++ stage.begun turn) (stage.take turn) := by
  cases turn with
  | enter options =>
    rw [begun, List.append_nil, Turn.entering?]
    cases hCreate : Talk.create (stage.registry 0) options with
    | ok talk =>
      rw [if_pos (Talk.registry_of_create hCreate).1]
      exact h.enter hCreate
    | error error =>
      -- only options that do not hold together are refused
      have hInvalid : ¬ options.Valid := fun hValid => by
        obtain ⟨talk, hTalk, -⟩ := Talk.exists_create (stage.registry 0) hValid
        rw [hCreate] at hTalk
        cases hTalk
      rw [if_neg hInvalid, take_enter_of_error h.joint hCreate, Option.toList_none, List.append_nil]
      exact h
  | act number operation =>
    rw [Turn.entering?, Option.toList_none, List.append_nil]
    cases hTalk : stage.talk? number with
    | some talk => exact h.act hTalk operation
    | none =>
      have hSame := take_act_of_none hTalk operation
      -- there is no such talk, so that nothing happens
      have hBegun : stage.begun (.act number operation) = [] := by
        rw [begun, hSame, List.drop_length, List.map_nil]
      rw [hSame, hBegun, List.append_nil]
      exact h

end Billed

/-- The bill and the ledger after any turns. -/
theorem billed_takeAll (turns : List Turn) :
    Billed (turns.filterMap Turn.entering?) (Stage.empty.ledger turns)
      (Stage.empty.takeAll turns) := by
  induction turns using List.reverseRecOn with
  | nil => exact billed_empty
  | append_singleton turns turn ih =>
    have hBill : (turns ++ [turn]).filterMap Turn.entering? =
        turns.filterMap Turn.entering? ++ turn.entering?.toList := by
      rw [List.filterMap_append]
      cases hEnter : turn.entering? <;> simp [hEnter]
    rw [takeAll_append_singleton, ledger_append_singleton, hBill]
    exact ih.take turn

/-! ## The talks on one registry -/

/-- Options that are not valid let nobody in, and change nothing. -/
theorem create_of_not_valid {stage : Stage} (hJoint : stage.Joint) {options : Options}
    (hInvalid : ¬ options.Valid) :
    (∃ error, stage.create 0 options = .error error) ∧ stage.take (.enter options) = stage := by
  cases hCreate : Talk.create (stage.registry 0) options with
  | ok talk => exact absurd (Talk.registry_of_create hCreate).1 hInvalid
  | error error =>
    refine ⟨⟨error, ?_⟩, take_enter_of_error hJoint hCreate⟩
    rw [create, enter_of_error hJoint hCreate]
    rfl

/-- A talk that is closing begins no section, and takes no number for one. -/
theorem begun_of_closing {stage : Stage} (hJoint : stage.Joint) {number : Nat} {talk : Talk}
    (hTalk : stage.talk? number = some talk) (hClosing : talk.isClosing = true)
    (operation : Operation) :
    stage.begun (.act number operation) = [] ∧
      ((stage.take (.act number operation)).registry 0).sections =
        (stage.registry 0).sections := by
  obtain ⟨started, -, hNone, hActs⟩ := talk.starts_perform operation
  cases hNone hClosing
  obtain ⟨member, hMember, rfl⟩ := (talk?_eq_some hJoint).mp hTalk
  rw [begun, take_act hJoint hTalk, numbersOf_set hMember hActs.numbers, if_pos rfl, List.drop_left]
  exact ⟨rfl, hActs.sections⟩

/-- Talks on one registry never clash, whatever turns they take. The talks are those whose options are
valid, in the order in which they entered, and the first one is `scrap1`, the second one `scrap2` and so on;
a talk with other options is refused, and changes nothing: the registry is handed back as it was. The sections
of all talks are numbered from one upwards in the order in which they began, so that no two have the same
number and none is left out, and each is a section of the talk that began it; a talk that is closing takes no
number. And the scraps that are attached are those of the talks that are not over, in the order in which the
talks entered, and none twice.

All of this is about the moments between turns. Within the turn in which a talk comes to its end, its scrap is
still attached while the observers of its end take notice. -/
theorem never_clash (turns : List Turn) :
    let stage := Stage.empty.takeAll turns
    let ledger := Stage.empty.ledger turns
    (stage.cast.map fun member => (member.name, member.talk.options)) =
        ((turns.filterMap Turn.entering?).zipIdx 1).map
          (fun (options, number) => ("scrap" ++ toString number, options)) ∧
      (∀ options : Options, (options.Valid → ∃ later, stage.create 0 options = .ok later) ∧
        (¬ options.Valid → (∃ error, stage.create 0 options = .error error) ∧
          stage.take (.enter options) = stage)) ∧
      ledger.map Prod.snd = List.range' 1 (stage.registry 0).sections ∧
      (∀ number talk, stage.talk? number = some talk →
        (ledger.filter (·.1 = number)).map Prod.snd = talk.scrap.numbers) ∧
      (∀ number talk operation, stage.talk? number = some talk → talk.isClosing = true →
        stage.begun (.act number operation) = [] ∧
          ((stage.take (.act number operation)).registry 0).sections =
            (stage.registry 0).sections) ∧
      (stage.registry 0).attached.getD [] = stage.present ∧ stage.present.Nodup := by
  intro stage ledger
  have hBilled := billed_takeAll turns
  refine ⟨?_, ?_, hBilled.sections, ?_, ?_, hBilled.attached, ?_⟩
  · rw [hBilled.names]
  · intro options
    refine ⟨fun hValid => ?_, fun hInvalid => create_of_not_valid hBilled.joint hInvalid⟩
    obtain ⟨talk, hTalk, -⟩ := Talk.exists_create (stage.registry 0) hValid
    rw [create, enter_of_create hBilled.joint hTalk]
    exact ⟨_, rfl⟩
  · intro number talk hTalk
    rw [hBilled.own]
    obtain ⟨member, hMember, rfl⟩ := (talk?_eq_some hBilled.joint).mp hTalk
    rw [numbersOf, hMember]
    rfl
  · intro number talk operation hTalk hClosing
    exact begun_of_closing hBilled.joint hTalk hClosing operation
  · exact hBilled.nodup_present

/-- Three talks enter, and a fourth one is refused. The first two begin sections in turn; the third one is
over before it begins any. -/
def gathering : List Turn :=
  [.enter .standard, .act 0 (.direct (.speak "Hi")), .enter { Options.standard with areas := [] },
    .enter .standard, .enter .standard, .act 1 (.direct (.beginSection none)), .act 2 .close,
    .act 2 (.direct (.beginSection none)), .act 0 (.direct (.beginSection none))]

/-- Three talks that write in turns, of which the last one is over. -/
theorem never_clash_gathering :
    ((Stage.empty.takeAll gathering).cast.map fun member => (member.name, member.talk.options)) =
        [("scrap1", .standard), ("scrap2", .standard), ("scrap3", .standard)] ∧
      (Stage.empty.ledger gathering).map Prod.snd = [1, 2, 3] ∧
      ((Stage.empty.ledger gathering).filter (·.1 = 0)).map Prod.snd = [1, 3] ∧
      ((Stage.empty.takeAll gathering).registry 0).attached.getD [] = ["scrap1", "scrap2"] := by
  obtain ⟨hNames, -, hNumbers, hOwn, -, hAttached, -⟩ := never_clash gathering
  obtain ⟨talk, hTalk, hSections⟩ : ∃ talk, (Stage.empty.takeAll gathering).talk? 0 = some talk ∧
      talk.scrap.numbers = [1, 3] := ⟨_, rfl, by decide⟩
  have hCount : ((Stage.empty.takeAll gathering).registry 0).sections = 3 := by decide
  have hPresent : (Stage.empty.takeAll gathering).present = ["scrap1", "scrap2"] := by decide
  refine ⟨hNames.trans (by decide), ?_, (hOwn 0 talk hTalk).trans hSections,
    hAttached.trans hPresent⟩
  rw [hNumbers, hCount]
  rfl

end Stage

end Dialogue
