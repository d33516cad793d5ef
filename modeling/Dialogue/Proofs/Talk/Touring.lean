import Dialogue.Proofs.Areas.Rounds
import Dialogue.Proofs.Talk.Display

/-!
# Rounds of the areas

A section that does not ask for an area takes the one that comes next in the rotation, and in an open talk
nothing but a section that starts moves the rotation on. So the sections of a talk that never asks for an
area go round the areas of its options. They come to all of them in every round exactly if the rotation is
periodic.

Main results:

* `Talk.Open.place_perform` — what moves the rotation on.
* `Talk.exists_nextAt` — the rotation of an open talk stands in its loop.
* `Talk.Touring.leads` — the areas of sections that do not ask for one.
* `Talk.rotation_covers` — which rotations come to all areas in every round, and what a talk makes of one.
-/

namespace Dialogue

/-- The areas of the sections, in order. -/
def Scrap.areas (scrap : Scrap) : List String := scrap.sections.map Section.area

/-- Which areas a scrap has can be told from the labels of its sections. -/
theorem Scrap.areas_of_label {scrap later : Scrap}
    (hLabel : later.sections.map Section.label = scrap.sections.map Section.label) :
    later.areas = scrap.areas := by
  have hSnd := congrArg (List.map Prod.snd) hLabel
  rwa [List.map_map, List.map_map] at hSnd

/-- Nothing else than a direction asks for an area. -/
theorem Operation.eq_direct_of_asks {operation : Operation} {area : String}
    (hAsks : operation.direction? = some (.beginSection (some area))) :
    operation = .direct (.beginSection (some area)) := by
  cases operation with
  | direct direction =>
    cases hAsks
    rfl
  | wrapUp => cases hAsks
  | pace | start | skip | close | finish | advanceTo | advanceBy | playOut | collectEvents | observe
  | performWith => cases hAsks

namespace Talk

theorem SameText.areas {talk later : Talk} (h : SameText talk later) :
    later.scrap.areas = talk.scrap.areas :=
  Scrap.areas_of_label (Scrap.map_sections_of_bare_eq (fun _ => rfl) h.scrap)

theorem scrapAreas_endSection (talk : Talk) : talk.endSection.scrap.areas = talk.scrap.areas := by
  unfold endSection
  split
  · exact Scrap.areas_of_label (Scrap.map_modifyFirst_of_eq Section.label_close ..)
  · rfl

/-- A change of the current section that keeps labels changes no area of the scrap. -/
theorem scrapAreas_modifyCurrent (talk : Talk) {f : Section → Section}
    (hLabel : ∀ sect, (f sect).label = sect.label) :
    (talk.modifyCurrent f).scrap.areas = talk.scrap.areas := by
  unfold modifyCurrent
  split
  · exact Scrap.areas_of_label (Scrap.map_modifyFirst_of_eq hLabel ..)
  · rfl

/-- A section that starts is shown in the area that it is handed. -/
theorem scrapAreas_startSection (talk : Talk) (asked : Option String) :
    (talk.startSection asked).scrap.areas = talk.scrap.areas ++ [talk.areas.areaFor asked] := by
  have hSections : (talk.startSection asked).scrap.sections = talk.endSection.scrap.sections ++
      [.empty (talk.endSection.registry.sections + 1) (talk.endSection.areas.areaFor asked)] := rfl
  rw [Scrap.areas, hSections, List.map_append, areas_endSection]
  show talk.endSection.scrap.areas ++ [talk.areas.areaFor asked] = _
  rw [scrapAreas_endSection]

/-! ## The place in the rotation -/

/-- In an open talk, nothing but its direction moves the rotation on. -/
theorem Open.place_perform {talk : Talk} (h : Open talk) (hRoster : Roster talk)
    {operation : Operation} (hRequest : operation.requestsClose = false) :
    (talk.perform operation).2.areas.rotation = (talk.authoredBy operation).areas.rotation ∧
      (talk.perform operation).2.areas.current = (talk.authoredBy operation).areas.current := by
  by_cases hFresh : operation = .start ∧ talk.startTime = none
  · obtain ⟨rfl, hTime⟩ := hFresh
    -- the start of playback changes the records alone
    have hAreas : (talk.perform .start).2.areas = _ := hRoster.areas_start h.closing hTime
    rw [hAreas]
    exact ⟨rfl, rfl⟩
  · rw [h.areas_perform hRequest fun hStart hTime => hFresh ⟨hStart, hTime⟩]
    exact ⟨rfl, rfl⟩

/-! ## In the loop -/

section Loop

open Areas

variable {rotation : List String} {period p : Nat} {talk : Talk}

/-- What comes next after an operation on an open talk is what comes next after its direction. -/
theorem Open.nextAt_perform {operation : Operation} (hOpen : Open talk) (hRoster : Roster talk)
    (hRequest : operation.requestsClose = false)
    (h : NextAt rotation p (talk.authoredBy operation).areas) :
    NextAt rotation p (talk.perform operation).2.areas := by
  obtain ⟨hRotation, hCurrent⟩ := hOpen.place_perform hRoster hRequest
  exact h.congr hRotation hCurrent

/-- A direction leaves the rotation in its loop, whatever area it asks for. -/
theorem exists_nextAt_direct (hPeriodic : Periodic rotation period) (hSome : rotation ≠ [])
    (h : ∃ p < period, NextAt rotation p talk.areas) (direction : Direction) :
    ∃ p < period, NextAt rotation p (talk.direct direction).areas := by
  refine keeps_direct (fun later => ∃ p < period, NextAt rotation p later.areas)
    (fun _ _ h => h) ?_ ?_ ?_ h direction
  · intro later h
    rwa [areas_endSection]
  · -- wherever the rotation stood, the area that is chosen lies in it
    rintro later asked ⟨place, -, hHere⟩
    obtain ⟨next, hNextLt, hThere⟩ :=
      hPeriodic.exists_nextAt_choose hSome hHere.listed (later.areas.areaFor asked)
    rw [areas_startSection]
    exact ⟨next, hNextLt, hThere.congr rfl rfl⟩
  · intro later f _ _ h
    rwa [areas_modifyCurrent]

/-- Whatever areas are asked for, the rotation of an open talk stands in its loop. -/
theorem exists_nextAt {registry : Registry} {options : Options} {first : Talk}
    {operations : List Operation} (hPeriodic : Periodic options.areas period)
    (hCreate : Talk.create registry options = .ok first) (hLeads : Leads first operations talk)
    (hOpen : talk.outcome .closing = none) :
    ∃ p < period, NextAt options.areas p talk.areas := by
  obtain ⟨hValid, -⟩ := registry_of_create hCreate
  have hSome : options.areas ≠ [] := hValid.1
  obtain ⟨place, hPlace, -⟩ := hPeriodic.exists_place (List.head_mem hSome)
  have hFirst : NextAt options.areas 0 first.areas := by
    rw [(areas_of_create hCreate).1]
    exact nextAt_ofRotation hSome
  -- the rotation starts in its first place, and each operation leaves it in some place
  refine hLeads.keeps_open (fun talk => ∃ p < period, NextAt options.areas p talk.areas) ?_
    (fun _ h => h) (reachable_of_create hCreate) hOpen ⟨0, by omega, hFirst⟩
  intro talk operation hReachable hTalk _ hRequest hBefore
  obtain ⟨p, hLt, hNext⟩ := keeps_authoredBy
    (fun later => ∃ p < period, NextAt options.areas p later.areas) hBefore fun direction _ =>
      exists_nextAt_direct hPeriodic hSome hBefore direction
  exact ⟨p, hLt, hTalk.nextAt_perform hReachable.roster hRequest hNext⟩

/-! ## Sections that do not ask -/

/-- The sections that have started since a moment went round the loop, from a place on. -/
structure Touring (rotation : List String) (period p : Nat) (earlier opened : List String)
    (talk : Talk) : Prop where
  areas : talk.scrap.areas = earlier ++ opened
  turns : ∀ i < opened.length, opened[i]? = rotation[(p + i) % period]?
  next : talk.outcome .closing = none → NextAt rotation ((p + opened.length) % period) talk.areas

namespace Touring

variable {earlier opened : List String}

/-- A tour goes on where no section has started. -/
theorem congr {later : Talk} (h : Touring rotation period p earlier opened talk)
    (hAreas : later.scrap.areas = talk.scrap.areas)
    (hNext : later.outcome .closing = none →
      NextAt rotation ((p + opened.length) % period) later.areas) :
    Touring rotation period p earlier opened later :=
  ⟨hAreas.trans h.areas, h.turns, hNext⟩

/-- A tour goes on where signals and areas stay as they are. -/
theorem same {later : Talk} (h : Touring rotation period p earlier opened talk)
    (hScrap : later.scrap.areas = talk.scrap.areas) (hLifecycle : later.lifecycle = talk.lifecycle)
    (hAreas : later.areas = talk.areas) : Touring rotation period p earlier opened later := by
  refine h.congr hScrap fun hOpen => ?_
  rw [outcome, hLifecycle] at hOpen
  rw [hAreas]
  exact h.next hOpen

/-- A section that does not ask takes the next turn. -/
theorem startSection (h : Touring rotation period p earlier opened talk)
    (hPeriodic : Periodic rotation period) (hLt : p < period)
    (hOpen : talk.outcome .closing = none) :
    Touring rotation period p earlier (opened ++ [talk.areas.upcoming]) (talk.startSection none) := by
  have hNext := h.next hOpen
  have hPlace : (p + opened.length) % period < period := Nat.mod_lt _ (by omega)
  refine ⟨?_, fun i hBefore => ?_, fun _ => ?_⟩
  · rw [scrapAreas_startSection, h.areas, List.append_assoc]
    rfl
  · by_cases hEarlier : i < opened.length
    · rw [List.getElem?_append_left hEarlier, h.turns i hEarlier]
    · -- the new section
      have hLast : i = opened.length := by
        rw [List.length_append, List.length_singleton] at hBefore
        omega
      rw [hLast, List.getElem?_concat_length, hNext.upcoming]
  · -- the rotation goes on by one place, around the end of the period
    have hThere := hPeriodic.nextAt_choose hNext.listed hPlace hNext.upcoming.symm
    rw [Nat.mod_add_mod, Nat.add_assoc] at hThere
    rw [areas_startSection, List.length_append, List.length_singleton]
    exact hThere.congr rfl rfl

/-- A direction that does not ask for an area goes on with the round. -/
theorem direct (h : Touring rotation period p earlier opened talk)
    (hPeriodic : Periodic rotation period) (hLt : p < period) {direction : Direction}
    (hAsks : ∀ area, direction ≠ .beginSection (some area)) :
    ∃ opened, Touring rotation period p earlier opened (talk.direct direction) := by
  -- that the lifecycle stays is carried along, as a section starts in an open talk only
  have hBoth : (∃ opened, Touring rotation period p earlier opened (talk.direct direction)) ∧
      (talk.direct direction).lifecycle = talk.lifecycle := by
    refine keeps_direct_asking (fun later =>
      (∃ opened, Touring rotation period p earlier opened later) ∧
        later.lifecycle = talk.lifecycle) ?_ ?_ ?_ ?_ ⟨⟨opened, h⟩, rfl⟩
    · rintro later severity text ⟨⟨opened, hTouring⟩, hLifecycle⟩
      exact ⟨⟨opened, hTouring.same rfl rfl rfl⟩, hLifecycle⟩
    · rintro later ⟨⟨opened, hTouring⟩, hLifecycle⟩
      have hEnded := later.written_endSection.lifecycle
      exact ⟨⟨opened, hTouring.same later.scrapAreas_endSection hEnded later.areas_endSection⟩,
        hEnded.trans hLifecycle⟩
    · rintro later asked hNot hAsked ⟨⟨opened, hTouring⟩, hLifecycle⟩
      have hNone : asked = none := by
        cases asked with
        | none => rfl
        | some area => exact absurd (hAsked area rfl) (hAsks area)
      have hOpen : later.outcome .closing = none := by
        rw [isClosing_eq, Option.isSome_eq_false_iff, Option.isNone_iff_eq_none] at hNot
        rw [outcome_eq, hLifecycle]
        exact hNot
      rw [hNone]
      exact ⟨⟨_, hTouring.startSection hPeriodic hLt hOpen⟩,
        (later.written_startSection none).lifecycle.trans hLifecycle⟩
    · rintro later f hLabel - ⟨⟨opened, hTouring⟩, hLifecycle⟩
      have hModified : (later.modifyCurrent f).lifecycle = later.lifecycle := by
        unfold modifyCurrent
        split <;> rfl
      exact ⟨⟨opened, hTouring.same (later.scrapAreas_modifyCurrent hLabel) hModified
        (later.areas_modifyCurrent f)⟩, hModified.trans hLifecycle⟩
  exact hBoth.1

/-- The sections of a talk that does not ask for areas go round all the way. -/
theorem leads {later : Talk} {operations : List Operation}
    (h : Touring rotation period p earlier opened talk) (hPeriodic : Periodic rotation period)
    (hLt : p < period) (hReachable : Reachable talk) (hLeads : Leads talk operations later)
    (hAsks : ∀ area, .direct (.beginSection (some area)) ∉ operations) :
    ∃ opened, Touring rotation period p earlier opened later := by
  induction hLeads with
  | refl => exact ⟨opened, h⟩
  | @perform operations later hLeads operation ih =>
    obtain ⟨opened, hTouring⟩ := ih fun area hMem => hAsks area (List.mem_append_left _ hMem)
    -- first what the operation writes, then what else it does
    obtain ⟨opened, hAuthored⟩ :
        ∃ opened, Touring rotation period p earlier opened (later.authoredBy operation) := by
      refine keeps_authoredBy (fun later => ∃ opened, Touring rotation period p earlier opened later)
        ⟨opened, hTouring⟩ fun direction hDirection => ?_
      refine hTouring.direct hPeriodic hLt fun area hAsked => hAsks area ?_
      rw [hAsked] at hDirection
      rw [Operation.eq_direct_of_asks hDirection]
      exact List.mem_append_right _ (List.mem_singleton_self _)
    refine ⟨opened, hAuthored.congr (later.sameText_perform operation).areas fun hOpen => ?_⟩
    obtain ⟨hBefore, hRequest⟩ := open_before hOpen
    have hLater := hReachable.leads hLeads
    refine (hLater.isOpen hBefore).nextAt_perform hLater.roster hRequest (hAuthored.next ?_)
    rw [outcome_authoredBy]
    exact hBefore
  | share hLeads hShared ih =>
    obtain ⟨opened, hTouring⟩ := ih hAsks
    exact ⟨opened, hTouring.same rfl rfl rfl⟩

end Touring

end Loop

/-- A rotation that options may have leads from each of its areas through all others and back exactly if it
is periodic; it is so if no area is listed twice. With such a rotation, and whatever areas were asked for
before: the sections of a talk that does not ask for areas come to all areas in any round of as many sections
as there are places. -/
theorem rotation_covers {options : Options} (hValid : options.Valid) :
    ((∀ area ∈ options.areas, Areas.FullRound options.areas area) ↔
        ∃ period, Areas.Periodic options.areas period) ∧
      (options.areas.Nodup → ∀ area ∈ options.areas, Areas.FullRound options.areas area) ∧
      ∀ period registry first before talk operations later,
        Areas.Periodic options.areas period → Talk.create registry options = .ok first →
        Leads first before talk → Leads talk operations later →
        (∀ area, .direct (.beginSection (some area)) ∉ operations) →
        ∃ opened, later.scrap.areas = talk.scrap.areas ++ opened ∧
          ∀ earlier round rest, opened = earlier ++ (round ++ rest) →
            round.length = options.areas.length → ∀ area ∈ options.areas, area ∈ round := by
  refine ⟨Areas.fullRound_iff hValid.1, fun hNodup area hMem => ?_, ?_⟩
  · exact (Areas.periodic_of_nodup hNodup).fullRound hMem
  · intro period registry first before talk operations later hPeriodic hCreate hBefore hLeads hAsks
    have hReachable : Reachable talk := ⟨registry, options, first, before, hCreate, hBefore⟩
    obtain ⟨place, hPlace, -⟩ := hPeriodic.exists_place (List.head_mem hValid.1)
    -- a talk that is closing starts no sections, so that its place does not matter
    obtain ⟨p, hLt, hNext⟩ : ∃ p < period, talk.outcome .closing = none →
        Areas.NextAt options.areas p talk.areas := by
      by_cases hOpen : talk.outcome .closing = none
      · obtain ⟨p, hLt, hNext⟩ := exists_nextAt hPeriodic hCreate hBefore hOpen
        exact ⟨p, hLt, fun _ => hNext⟩
      · exact ⟨0, by omega, fun hNone => absurd hNone hOpen⟩
    have hFirst : Touring options.areas period p talk.scrap.areas [] talk := by
      refine ⟨(List.append_nil _).symm, fun i hNone => (by cases hNone), fun hOpen => ?_⟩
      rw [List.length_nil, Nat.add_zero, Nat.mod_eq_of_lt hLt]
      exact hNext hOpen
    obtain ⟨opened, hTouring⟩ := hFirst.leads hPeriodic hLt hReachable hLeads hAsks
    refine ⟨opened, hTouring.areas, fun earlier round rest hSplit hLength area hMem => ?_⟩
    -- a round starts at the place that the sections before it have come to
    have hStart : (p + earlier.length) % period < period := Nat.mod_lt _ (by omega)
    refine hPeriodic.mem_of_turns hStart (fun i hBefore => ?_) hLength hMem
    have hTurn := hTouring.turns (earlier.length + i) (by
      rw [hSplit, List.length_append, List.length_append]
      omega)
    rw [hSplit, List.getElem?_append_right (Nat.le_add_right _ _), Nat.add_sub_cancel_left,
      List.getElem?_append_left hBefore] at hTurn
    rw [hTurn, Nat.mod_add_mod, Nat.add_assoc]

/-- Two areas, each of them listed twice, in turn. -/
def inTurn : Options := { Options.standard with areas := ["left", "right", "left", "right"] }

/-- Where two areas take turns, any four sections in a row come by both. -/
theorem rotation_covers_inTurn :
    ∃ first, inTurn.Valid ∧ Areas.Periodic inTurn.areas 2 ∧
      Talk.create .empty inTurn = .ok first ∧
      Areas.FullRound inTurn.areas "right" ∧
      ∃ opened,
        (first.after (List.replicate 5 (.direct (.beginSection none)))).scrap.areas =
          first.scrap.areas ++ opened ∧
        ∀ earlier round rest, opened = earlier ++ (round ++ rest) →
          round.length = 4 → "left" ∈ round ∧ "right" ∈ round := by
  have hValid : inTurn.Valid := by decide
  have hPeriodic : Areas.Periodic inTurn.areas 2 :=
    ⟨⟨by decide, by decide, by decide⟩, by decide, by decide⟩
  obtain ⟨first, hCreate⟩ : ∃ first, Talk.create .empty inTurn = .ok first := ⟨_, rfl⟩
  obtain ⟨hRounds, -, hTalks⟩ := rotation_covers hValid
  obtain ⟨opened, hAreas, hCovers⟩ := hTalks 2 .empty first [] first _ _ hPeriodic hCreate .refl
    (Leads.of_after first (List.replicate 5 (.direct (.beginSection none)))) (by simp)
  refine ⟨first, hValid, hPeriodic, hCreate, hRounds.mpr ⟨2, hPeriodic⟩ "right" (by decide), opened,
    hAreas, fun earlier round rest hSplit hLength => ?_⟩
  exact ⟨hCovers earlier round rest hSplit hLength "left" (by decide),
    hCovers earlier round rest hSplit hLength "right" (by decide)⟩

/-- Two areas, each of them listed twice, one behind the other. -/
def sideBySide : Options := { Options.standard with areas := ["left", "left", "right", "right"] }

/-- The rotation finds its place by name, so that it comes back to an area that is listed twice in a row and
never gets past it. -/
theorem rotation_turns_back :
    sideBySide.Valid ∧ "left" ∈ sideBySide.areas ∧ "right" ∈ sideBySide.areas ∧
      ¬ Areas.FullRound sideBySide.areas "left" ∧
      ∃ first, Talk.create .empty sideBySide = .ok first ∧
        (first.after (List.replicate 4 (.direct (.beginSection none)))).scrap.areas =
          ["left", "left", "left", "left"] := by
  refine ⟨by decide, by decide, by decide, fun hRound => ?_, _, rfl, by decide⟩
  have hNever : ∀ steps < 4, Areas.onward? sideBySide.areas "left" steps ≠ some "right" := by decide
  obtain ⟨steps, hLt, hPassed⟩ := hRound.passes "right" (by decide)
  exact hNever steps hLt hPassed

end Talk

end Dialogue
