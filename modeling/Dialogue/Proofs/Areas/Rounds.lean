import Dialogue.Proofs.Areas.Rotation
import Mathlib.Data.List.Nodup
import Mathlib.Data.Nat.Find

/-!
# Full rounds

A rotation finds its place by the name of an area, so an area that is listed twice is always found at its
first place, and from there the rotation may turn back before it has come to its end. `FullRound` says that as
many steps as there are places lead back to an area and past all others. That is so from every area exactly
if the rotation is `Periodic`: its first areas differ from one another and are all there are, the first one
comes again behind them, and their number divides the length. A rotation without repetitions is periodic.

Main results:

* `Areas.Loop.onward?` — where any number of steps leads to.
* `Areas.Periodic.fullRound` — a periodic rotation makes full rounds.
* `Areas.fullRound_iff` — and no other one does.
-/

namespace Dialogue.Areas

/-- Where some steps of the rotation lead to from an area. -/
def onward? (rotation : List String) (area : String) : Nat → Option String
  | 0 => some area
  | steps + 1 => (onward? rotation area steps).bind (successor? rotation)

/-- As many steps as there are places lead from an area back to it, and past every other one. -/
structure FullRound (rotation : List String) (area : String) : Prop where
  returns : onward? rotation area rotation.length = some area
  passes : ∀ other ∈ rotation, ∃ steps < rotation.length, onward? rotation area steps = some other

/-! ## Loops -/

/-- The first `period` areas differ from one another, and behind them the first one comes again. -/
structure Loop (rotation : List String) (period : Nat) : Prop where
  distinct : (rotation.take period).Nodup
  le : period ≤ rotation.length
  returns : rotation[period % rotation.length]? = rotation[0]?

/-- An area in the part without repetitions is found at its place. -/
theorem idxOf?_of_nodup_take {rotation : List String} {period p : Nat} {area : String}
    (hDistinct : (rotation.take period).Nodup) (hLt : p < period) (hAt : rotation[p]? = some area) :
    rotation.idxOf? area = some p := by
  obtain ⟨hLength, hArea⟩ := List.getElem?_eq_some_iff.mp hAt
  refine List.idxOf?_eq_some_iff.mpr ⟨hLength, hArea, fun j hEarlier hSame => ?_⟩
  -- an earlier place with this name would be a repetition
  have hTake : (rotation.take period)[j]? = (rotation.take period)[p]? := by
    rw [List.getElem?_take_of_lt (by omega), List.getElem?_take_of_lt hLt, hAt,
      List.getElem?_eq_getElem (by omega), hSame]
  have hEq : j = p := (List.getElem?_inj (by rw [List.length_take]; omega) hDistinct).mp hTake
  omega

namespace Loop

variable {rotation : List String} {period p : Nat} {area : String}

/-- From an area of the loop, the rotation goes on to the next area of the loop. -/
theorem successor? (h : Loop rotation period) (hLt : p < period) (hAt : rotation[p]? = some area) :
    Dialogue.successor? rotation area = rotation[(p + 1) % period]? := by
  have hLe := h.le
  rw [successor?_of_idxOf? (idxOf?_of_nodup_take h.distinct hLt hAt)]
  by_cases hLast : p + 1 = period
  · rw [hLast, h.returns, Nat.mod_self]
  · rw [Nat.mod_eq_of_lt (show p + 1 < rotation.length by omega),
      Nat.mod_eq_of_lt (show p + 1 < period by omega)]

/-- Any number of steps stays in the loop. -/
theorem onward? (h : Loop rotation period) (hLt : p < period) (hAt : rotation[p]? = some area)
    (steps : Nat) : Areas.onward? rotation area steps = rotation[(p + steps) % period]? := by
  have hLe := h.le
  induction steps with
  | zero => rw [Nat.add_zero, Nat.mod_eq_of_lt hLt, hAt]; rfl
  | succ steps ih =>
    have hPlace : (p + steps) % period < period := Nat.mod_lt _ (by omega)
    have hHere := List.getElem?_eq_getElem (l := rotation) (show (p + steps) % period < _ by omega)
    rw [Areas.onward?, ih, hHere, Option.bind_some, h.successor? hPlace hHere, Nat.mod_add_mod,
      Nat.add_assoc]

end Loop

/-! ## Periodic rotations -/

/-- The rotation goes through all of its areas again and again, and a whole number of times. -/
structure Periodic (rotation : List String) (period : Nat) : Prop extends Loop rotation period where
  complete : ∀ area ∈ rotation, area ∈ rotation.take period
  divides : period ∣ rotation.length

/-- A rotation without repetitions. -/
theorem periodic_of_nodup {rotation : List String} (hNodup : rotation.Nodup) :
    Periodic rotation rotation.length where
  distinct := by rwa [List.take_length]
  le := Nat.le_refl _
  returns := by rw [Nat.mod_self]
  complete area hMem := by rwa [List.take_length]
  divides := Nat.dvd_refl _

namespace Periodic

variable {rotation : List String} {period p : Nat} {area : String}

/-- Every listed area has a place in the loop. -/
theorem exists_place (h : Periodic rotation period) (hMem : area ∈ rotation) :
    ∃ p < period, rotation[p]? = some area := by
  obtain ⟨p, hAt⟩ := List.mem_iff_getElem?.mp (h.complete area hMem)
  rw [List.getElem?_take] at hAt
  split at hAt
  · rename_i hLt
    exact ⟨p, hLt, hAt⟩
  · cases hAt

/-- From any place of the loop, fewer steps than there are places in it lead to any other one. -/
theorem exists_steps {q : Nat} (hLt : p < period) (hOther : q < period) :
    ∃ steps < period, (p + steps) % period = q := by
  by_cases hLe : p ≤ q
  · refine ⟨q - p, by omega, ?_⟩
    rw [show p + (q - p) = q by omega, Nat.mod_eq_of_lt hOther]
  · -- over the end of the loop
    refine ⟨q + period - p, by omega, ?_⟩
    rw [show p + (q + period - p) = q + period by omega, Nat.add_mod_right,
      Nat.mod_eq_of_lt hOther]

/-- A periodic rotation makes full rounds. -/
theorem fullRound (h : Periodic rotation period) (hMem : area ∈ rotation) :
    FullRound rotation area := by
  have hLe := h.le
  obtain ⟨p, hLt, hAt⟩ := h.exists_place hMem
  refine ⟨?_, fun other hOther => ?_⟩
  · -- the length is a number of whole periods, so that it leads back
    obtain ⟨rounds, hRounds⟩ := h.divides
    rw [h.onward? hLt hAt, hRounds, Nat.add_mul_mod_self_left, Nat.mod_eq_of_lt hLt, hAt]
  · obtain ⟨q, hPlace, hThere⟩ := h.exists_place hOther
    obtain ⟨steps, hSteps, hMod⟩ := exists_steps hLt hPlace
    refine ⟨steps, by omega, ?_⟩
    rw [h.onward? hLt hAt, hMod, hThere]

end Periodic

/-! ## Turn by turn -/

/-- The rotation hands out the area at a place next. -/
structure NextAt (rotation : List String) (place : Nat) (areas : Areas) : Prop where
  listed : areas.rotation = rotation
  upcoming : some areas.upcoming = rotation[place]?

/-- Records have nothing to do with what comes next. -/
theorem NextAt.congr {rotation : List String} {place : Nat} {areas later : Areas}
    (h : NextAt rotation place areas) (hRotation : later.rotation = areas.rotation)
    (hCurrent : later.current = areas.current) : NextAt rotation place later := by
  refine ⟨hRotation.trans h.listed, ?_⟩
  have hSame : later.currentArea = areas.currentArea := by
    simp only [currentArea, hRotation, hCurrent]
  rw [← h.upcoming, Areas.upcoming, Areas.upcoming, hSame, hRotation]

/-- A new rotation starts at its first place. -/
theorem nextAt_ofRotation {rotation : List String} (hSome : rotation ≠ []) :
    NextAt rotation 0 (ofRotation rotation) := by
  refine ⟨rfl, ?_⟩
  have hUpcoming : some (ofRotation rotation).upcoming = rotation.head? := some_upcoming hSome
  rw [hUpcoming, List.head?_eq_getElem?]

namespace Periodic

variable {rotation : List String} {period p : Nat} {areas : Areas}

/-- After an area that is listed, the one at the place behind it comes next. -/
theorem nextAt_choose (h : Periodic rotation period) {area : String}
    (hListed : areas.rotation = rotation) (hLt : p < period) (hAt : rotation[p]? = some area) :
    NextAt rotation ((p + 1) % period) (areas.choose area) := by
  have hMem : area ∈ areas.rotation := by
    rw [hListed]
    exact List.mem_of_getElem? hAt
  have hSome : (areas.choose area).rotation ≠ [] := List.ne_nil_of_mem hMem
  refine ⟨hListed, ?_⟩
  rw [some_upcoming hSome, currentArea_choose, if_pos hMem]
  show Dialogue.successor? areas.rotation area = _
  rw [hListed, h.successor? hLt hAt]

/-- Whatever area is handed out, an area of the loop comes next. -/
theorem exists_nextAt_choose (h : Periodic rotation period) (hSome : rotation ≠ [])
    (hListed : areas.rotation = rotation) (area : String) :
    ∃ p < period, NextAt rotation p (areas.choose area) := by
  obtain ⟨first, hFirst, -⟩ := h.exists_place (List.head_mem hSome)
  by_cases hMem : area ∈ rotation
  · obtain ⟨p, hLt, hAt⟩ := h.exists_place hMem
    exact ⟨(p + 1) % period, Nat.mod_lt _ (by omega), h.nextAt_choose hListed hLt hAt⟩
  · -- an area that is not listed is followed by the first one
    have hUnknown : area ∉ areas.rotation := by rwa [hListed]
    have hRest : (areas.choose area).rotation ≠ [] := by
      show areas.rotation ≠ []
      rwa [hListed]
    refine ⟨0, by omega, hListed, ?_⟩
    rw [some_upcoming hRest, currentArea_choose, if_neg hUnknown, ← List.head?_eq_getElem?]
    show areas.rotation.head? = _
    rw [hListed]

/-- Areas that are handed out turn by turn, and of which there are as many as places, are all that there
are. -/
theorem mem_of_turns (h : Periodic rotation period) (hLt : p < period) {round : List String}
    (hTurns : ∀ i < round.length, round[i]? = rotation[(p + i) % period]?)
    (hLength : round.length = rotation.length) {area : String} (hMem : area ∈ rotation) :
    area ∈ round := by
  have hLe := h.le
  obtain ⟨q, hPlace, hAt⟩ := h.exists_place hMem
  obtain ⟨steps, hSteps, hMod⟩ := exists_steps hLt hPlace
  refine List.mem_iff_getElem?.mpr ⟨steps, ?_⟩
  rw [hTurns steps (by omega), hMod, hAt]

end Periodic

/-! ## Where a rotation turns back -/

/-- Where areas are repeated, there is a first place with an area that was listed before. -/
theorem exists_repetition {rotation : List String} (hRepeats : ¬ rotation.Nodup) :
    ∃ period i area, i < period ∧ (rotation.take period).Nodup ∧ rotation[i]? = some area ∧
      rotation[period]? = some area := by
  classical
  have hExists : ∃ place, ¬ (rotation.take (place + 1)).Nodup :=
    ⟨rotation.length, by rwa [List.take_of_length_le (Nat.le_succ _)]⟩
  -- all places before the first such one differ
  obtain ⟨period, hFirst, hEarlier⟩ : ∃ period, ¬ (rotation.take (period + 1)).Nodup ∧
      (rotation.take period).Nodup := by
    refine ⟨Nat.find hExists, Nat.find_spec hExists, ?_⟩
    cases hPlace : Nat.find hExists with
    | zero => exact List.nodup_nil
    | succ before => exact not_not.mp (Nat.find_min hExists (by omega))
  rw [List.take_add_one] at hFirst
  -- so the area at this place is one of those before it
  cases hAt : rotation[period]? with
  | none =>
    rw [hAt, Option.toList_none, List.append_nil] at hFirst
    exact absurd hEarlier hFirst
  | some area =>
    rw [hAt, Option.toList_some, ← List.concat_eq_append, List.nodup_concat] at hFirst
    have hListed : area ∈ rotation.take period := by
      by_contra hNew
      exact hFirst ⟨hNew, hEarlier⟩
    obtain ⟨i, hThere⟩ := List.mem_iff_getElem?.mp hListed
    rw [List.getElem?_take] at hThere
    split at hThere
    · rename_i hLt
      exact ⟨period, i, area, hLt, hEarlier, hThere, hAt⟩
    · cases hThere

/-- A rotation that turns back to a later place than its first one never comes to the first one again. -/
theorem onward?_of_turned {rotation : List String} {period i : Nat} {area first : String}
    (hDistinct : (rotation.take period).Nodup) (hLater : 0 < i) (hLt : i < period)
    (hThere : rotation[i]? = some area) (hAt : rotation[period]? = some area)
    (hFirst : rotation[0]? = some first) (steps : Nat) :
    ∃ p, 0 < p ∧ p < period ∧ onward? rotation first (steps + 1) = rotation[p]? := by
  obtain ⟨hLength, -⟩ := List.getElem?_eq_some_iff.mp hAt
  -- one step from a place before the turn
  have hStep : ∀ p, p < period → ∀ here, rotation[p]? = some here →
      ∃ q, 0 < q ∧ q < period ∧ successor? rotation here = rotation[q]? := by
    intro p hPlace here hHere
    rw [successor?_of_idxOf? (idxOf?_of_nodup_take hDistinct hPlace hHere),
      Nat.mod_eq_of_lt (show p + 1 < rotation.length by omega)]
    by_cases hLast : p + 1 = period
    · exact ⟨i, hLater, hLt, by rw [hLast, hAt, hThere]⟩
    · exact ⟨p + 1, by omega, by omega, rfl⟩
  induction steps with
  | zero => exact hStep 0 (by omega) first hFirst
  | succ steps ih =>
    obtain ⟨p, -, hPlace, hOnward⟩ := ih
    have hHere := List.getElem?_eq_getElem (l := rotation) (show p < rotation.length by omega)
    obtain ⟨q, hPositive, hNext, hSuccessor⟩ := hStep p hPlace _ hHere
    -- never back at the first place, since the turn leads to `i`
    refine ⟨q, hPositive, hNext, ?_⟩
    rw [onward?, hOnward, hHere, Option.bind_some, hSuccessor]

/-- A rotation that makes a full round from its first area is periodic. -/
theorem exists_periodic {rotation : List String} {first : String}
    (hFirst : rotation[0]? = some first) (hRound : FullRound rotation first) :
    ∃ period, Periodic rotation period := by
  by_cases hNodup : rotation.Nodup
  · exact ⟨_, periodic_of_nodup hNodup⟩
  obtain ⟨period, i, area, hLt, hDistinct, hThere, hAt⟩ := exists_repetition hNodup
  obtain ⟨hLength, -⟩ := List.getElem?_eq_some_iff.mp hAt
  have hReturns := hRound.returns
  -- the first areas are distinct, so that only the first place has the first area
  have hPlace : ∀ {p}, p < period → rotation[p]? = some first → p = 0 := by
    intro p hBefore hHere
    refine (List.getElem?_inj (by rw [List.length_take]; omega) hDistinct).mp ?_
    rw [List.getElem?_take_of_lt hBefore, List.getElem?_take_of_lt (by omega), hHere, hFirst]
  have hTurn : i = 0 := by
    -- a turn to a later place would never come back to the first area
    by_contra hLater
    obtain ⟨p, hPositive, hBefore, hOnward⟩ := onward?_of_turned hDistinct (by omega) hLt hThere hAt
      hFirst (rotation.length - 1)
    rw [Nat.sub_add_cancel (by omega), hReturns] at hOnward
    have hZero := hPlace hBefore hOnward.symm
    omega
  have hLoop : Loop rotation period := by
    refine ⟨hDistinct, by omega, ?_⟩
    rw [Nat.mod_eq_of_lt hLength, hAt, ← hThere, hTurn]
  refine ⟨period, hLoop, fun other hOther => ?_, ?_⟩
  · -- what the round passes is in the loop
    obtain ⟨steps, -, hPassed⟩ := hRound.passes other hOther
    rw [hLoop.onward? (by omega) hFirst] at hPassed
    refine List.mem_iff_getElem?.mpr ⟨(0 + steps) % period, ?_⟩
    rw [List.getElem?_take_of_lt (Nat.mod_lt _ (by omega)), hPassed]
  · rw [hLoop.onward? (by omega) hFirst, Nat.zero_add] at hReturns
    exact Nat.dvd_of_mod_eq_zero (hPlace (Nat.mod_lt _ (by omega)) hReturns)

/-- A rotation makes a full round from every area exactly if it is periodic. -/
theorem fullRound_iff {rotation : List String} (hSome : rotation ≠ []) :
    (∀ area ∈ rotation, FullRound rotation area) ↔ ∃ period, Periodic rotation period := by
  constructor
  · intro hRounds
    have hFirst : rotation[0]? = some (rotation.head hSome) := by
      rw [← List.head?_eq_getElem?, List.head?_eq_some_head hSome]
    exact exists_periodic hFirst (hRounds _ (List.head_mem hSome))
  · rintro ⟨period, hPeriodic⟩ area hMem
    exact hPeriodic.fullRound hMem

end Dialogue.Areas
