import Dialogue.Areas
import Mathlib.Data.List.Induction

/-!
# The rotation and its successor

`Areas` remembers a place in its rotation, `successor?` is only told the name of an area. A host may ask for
the next area, start sections in the next area, and start sections in an area of its own choice, listed or
not; `serveAll` takes the areas through all that. What is handed out can be told from the last area that was
handed out, whether it was chosen or asked for, and from nothing else.

Main results:

* `Areas.successor?_of_idxOf?`, `Areas.successor?_of_not_mem` — where a name leads to.
* `Areas.Abreast.serve` — one request keeps the place abreast of what was handed out.
* `Areas.rotation_agrees` — every area that is handed out without being asked for is the successor of the
  one before it, and the place never leaves the rotation.
-/

namespace Dialogue.Areas

/-! ## Names and places -/

/-- The place of a name lies in the rotation, and the name stands there. -/
theorem getElem?_of_idxOf? {rotation : List String} {area : String} {i : Nat}
    (hPlace : rotation.idxOf? area = some i) : rotation[i]? = some area := by
  obtain ⟨hLt, hArea, -⟩ := List.idxOf?_eq_some_iff.mp hPlace
  rw [List.getElem?_eq_getElem hLt, hArea]

/-- After a listed area comes what stands behind its first place. -/
theorem successor?_of_idxOf? {rotation : List String} {area : String} {i : Nat}
    (hPlace : rotation.idxOf? area = some i) :
    successor? rotation area = rotation[(i + 1) % rotation.length]? := by
  cases rotation with
  | nil => cases hPlace
  | cons first rest => simp only [successor?, hPlace]

/-- After an area that is not listed comes the first one. -/
theorem successor?_of_not_mem {rotation : List String} {area : String} (hUnknown : area ∉ rotation) :
    successor? rotation area = rotation.head? := by
  cases rotation with
  | nil => rfl
  | cons first rest =>
    simp only [successor?, List.idxOf?_eq_none_iff.mpr hUnknown, List.head?_cons]

/-- Something comes after every area, and it is listed. -/
theorem exists_successor? {rotation : List String} (hSome : rotation ≠ []) (area : String) :
    ∃ next ∈ rotation, successor? rotation area = some next := by
  have hLength : 0 < rotation.length := List.length_pos_iff.mpr hSome
  by_cases hListed : area ∈ rotation
  · obtain ⟨i, hPlace⟩ := Option.isSome_iff_exists.mp (List.isSome_idxOf?.mpr hListed)
    have hLt : (i + 1) % rotation.length < rotation.length := Nat.mod_lt _ hLength
    refine ⟨rotation[(i + 1) % rotation.length], List.getElem_mem hLt, ?_⟩
    rw [successor?_of_idxOf? hPlace, List.getElem?_eq_getElem hLt]
  · refine ⟨rotation.head hSome, List.head_mem hSome, ?_⟩
    rw [successor?_of_not_mem hListed, List.head?_eq_some_head hSome]

/-- What the rotation hands out next, while there is something to hand out. -/
theorem some_upcoming {areas : Areas} (hSome : areas.rotation ≠ []) :
    some areas.upcoming =
      match areas.currentArea with
      | some area => successor? areas.rotation area
      | none => areas.rotation.head? := by
  unfold upcoming
  cases areas.currentArea with
  -- before anything was handed out, or after an area that is not listed
  | none =>
    show some (areas.rotation.head?.getD "") = areas.rotation.head?
    rw [List.head?_eq_some_head hSome]
    rfl
  -- the current area has a successor, as it is listed
  | some area =>
    obtain ⟨next, -, hNext⟩ := exists_successor? hSome area
    show some ((successor? areas.rotation area).getD "") = successor? areas.rotation area
    rw [hNext]
    rfl

/-- The area that was handed out is the current one if it is listed; otherwise there is none. -/
theorem currentArea_choose (areas : Areas) (area : String) :
    (areas.choose area).currentArea = if area ∈ areas.rotation then some area else none := by
  show ((areas.rotation.idxOf? area).bind fun i => areas.rotation[i]?) = _
  split
  · rename_i hListed
    obtain ⟨i, hPlace⟩ := Option.isSome_iff_exists.mp (List.isSome_idxOf?.mpr hListed)
    rw [hPlace, Option.bind_some, getElem?_of_idxOf? hPlace]
  · rename_i hUnknown
    rw [List.idxOf?_eq_none_iff.mpr hUnknown, Option.bind_none]

/-! ## Requests -/

/-- Something that is asked of the areas. -/
inductive Request where
  /-- The next area of the rotation. -/
  | next
  /-- A new section with a number, in an area of one's own choice or in the next one. -/
  | start (asked : Option String) (number : Nat)
deriving DecidableEq

namespace Request

/-- The area that is asked for. -/
def asked : Request → Option String
  | next => none
  | start asked _ => asked

/-- The number of the section that is started. -/
def number? : Request → Option Nat
  | next => none
  | start _ number => some number

end Request

/-- Serves a request, and gives the area that is handed out. -/
def serve (areas : Areas) : Request → String × Areas
  | .next => areas.next
  | .start asked number => (areas.areaFor asked, areas.start asked number)

/-- Serves requests in order, from a fresh rotation on; gives each of them with the area that was handed out
for it. -/
def serveAll (rotation : List String) (requests : List Request) : List (Request × String) × Areas :=
  requests.foldl
    (fun (served, areas) request =>
      (served ++ [(request, (areas.serve request).1)], (areas.serve request).2))
    ([], .ofRotation rotation)

/-- One more request is answered after all others. -/
theorem serveAll_append_singleton (rotation : List String) (requests : List Request)
    (request : Request) :
    serveAll rotation (requests ++ [request]) =
      ((serveAll rotation requests).1 ++ [(request, ((serveAll rotation requests).2.serve request).1)],
        ((serveAll rotation requests).2.serve request).2) := by
  rw [serveAll, List.foldl_append]
  rfl

/-- The area that was handed out last. -/
def lastArea? (served : List (Request × String)) : Option String := served.getLast?.map Prod.snd

/-- What a rotation hands out of itself after an area, or to begin with. -/
def following? (rotation : List String) : Option String → Option String
  | none => rotation.head?
  | some last => successor? rotation last

/-! ## In step -/

/-- The place is that of the area handed out last, if it is listed. -/
structure Abreast (rotation : List String) (last : Option String) (areas : Areas) : Prop where
  listed : areas.rotation = rotation
  within : ∀ i, areas.current = some i → i < areas.rotation.length
  current : ∀ area, areas.currentArea = some area ↔ last = some area ∧ area ∈ rotation

namespace Abreast

variable {rotation : List String} {last : Option String} {areas : Areas}

/-- Whatever the place, the rotation goes on from the area that was handed out last. -/
theorem some_upcoming (h : Abreast rotation last areas) (hSome : rotation ≠ []) :
    some areas.upcoming = following? rotation last := by
  have hSome : areas.rotation ≠ [] := by
    rw [h.listed]
    exact hSome
  rw [Areas.some_upcoming hSome, h.listed]
  cases hCurrent : areas.currentArea with
  | some area =>
    obtain ⟨rfl, -⟩ := (h.current area).mp hCurrent
    rfl
  | none =>
    cases last with
    | none => rfl
    | some area =>
      -- without a place, the area handed out last is not listed
      have hUnknown : area ∉ rotation := by
        intro hListed
        have hSet := (h.current area).mpr ⟨rfl, hListed⟩
        rw [hCurrent] at hSet
        cases hSet
      -- so the rotation starts over from its first area
      exact (successor?_of_not_mem hUnknown).symm

/-- Handing out an area moves the place to it. -/
theorem choose (h : Abreast rotation last areas) (area : String) :
    Abreast rotation (some area) (areas.choose area) where
  listed := h.listed
  within i hPlace := by
    have hPlace : areas.rotation.idxOf? area = some i := hPlace
    exact (List.idxOf?_eq_some_iff.mp hPlace).1
  current other := by
    rw [currentArea_choose, h.listed]
    constructor
    · intro hCurrent
      split at hCurrent
      · -- a listed area becomes the current one, another leaves none
        rename_i hListed
        cases hCurrent
        exact ⟨rfl, hListed⟩
      · cases hCurrent
    · rintro ⟨hLast, hListed⟩
      cases hLast
      rw [if_pos hListed]

/-- One request keeps the place abreast of what was handed out. -/
theorem serve (h : Abreast rotation last areas) (request : Request) :
    Abreast rotation (some (areas.serve request).1) (areas.serve request).2 := by
  cases request with
  | next => exact h.choose areas.upcoming
  | start asked number =>
    -- the new record has nothing to do with the place
    have hChosen := h.choose (areas.areaFor asked)
    exact ⟨hChosen.listed, hChosen.within, hChosen.current⟩

end Abreast

/-- At first nothing has been handed out and there is no current area. -/
theorem abreast_ofRotation (rotation : List String) :
    Abreast rotation none (ofRotation rotation) where
  listed := rfl
  within i hPlace := nomatch hPlace
  current area := by
    show (none : Option String) = some area ↔ none = some area ∧ area ∈ rotation
    simp

/-! ## Whatever is asked for -/

/-- What was handed out for requests, one after the other, and where the rotation stands now. -/
structure Agrees (rotation : List String) (requests : List Request)
    (served : List (Request × String)) (areas : Areas) : Prop
    extends Abreast rotation (lastArea? served) areas where
  requests : served.map Prod.fst = requests
  /-- Where no area was asked for, the one that follows the last one was handed out. -/
  chosen : ∀ before request area after, served = before ++ (request, area) :: after →
    request.asked = none → some area = following? rotation (lastArea? before)
  granted : ∀ request area, (request, area) ∈ served → ∀ asked, request.asked = some asked →
    area = asked
  /-- Each section that was started has its record. -/
  records : areas.records = served.filterMap fun (request, area) =>
    request.number?.map (AreaRecord.fresh · area)

/-- What a request is given: the area that it asks for, or the next one of the rotation. -/
theorem fst_serve (areas : Areas) (request : Request) :
    (areas.serve request).1 = request.asked.getD areas.upcoming := by
  cases request with
  | next => rfl
  | start asked number => rfl

/-- A numbered request leaves a record of the area that it was given. -/
theorem records_serve (areas : Areas) (request : Request) :
    (areas.serve request).2.records =
      areas.records ++
        (request.number?.map (AreaRecord.fresh · (areas.serve request).1)).toList := by
  cases request with
  | next => exact (List.append_nil _).symm
  | start asked number => rfl

/-- One more request is served as the others were. -/
theorem Agrees.step {rotation : List String} {requests : List Request}
    {served : List (Request × String)} {areas : Areas} (h : Agrees rotation requests served areas)
    (hSome : rotation ≠ []) (request : Request) :
    Agrees rotation (requests ++ [request]) (served ++ [(request, (areas.serve request).1)])
      (areas.serve request).2 := by
  have hStep : Abreast rotation (lastArea? (served ++ [(request, (areas.serve request).1)]))
      (areas.serve request).2 := by
    rw [lastArea?, List.getLast?_concat]
    exact h.toAbreast.serve request
  refine ⟨hStep, ?_, ?_, ?_, ?_⟩
  · rw [List.map_append, h.requests]
    rfl
  · intro before other area after hServed hAsked
    rcases List.eq_nil_or_concat after with rfl | ⟨init, last, rfl⟩
    · -- the request that is served now
      obtain ⟨rfl, hNow⟩ := List.append_inj' hServed rfl
      cases hNow
      rw [fst_serve, hAsked, Option.getD_none]
      exact h.toAbreast.some_upcoming hSome
    · -- one that was served before
      rw [List.concat_eq_append, ← List.cons_append, ← List.append_assoc] at hServed
      exact h.chosen before other area init (List.append_inj' hServed rfl).1 hAsked
  · intro other area hMem asked hAsked
    rcases List.mem_append.mp hMem with hMem | hMem
    · -- whoever names an area is given that one
      exact h.granted other area hMem asked hAsked
    · cases List.mem_singleton.mp hMem
      rw [fst_serve, hAsked, Option.getD_some]
  · rw [records_serve, h.records, List.filterMap_append]
    cases request <;> rfl

/-- Whatever is asked of a rotation that is not empty, listed or not: the area that it hands out of itself is
the first one to begin with, and then the successor of the area handed out last. Its place always lies in the
rotation, and is the place of the area handed out last exactly if that is listed. -/
theorem rotation_agrees {rotation : List String} (hSome : rotation ≠ []) (requests : List Request) :
    Agrees rotation requests (serveAll rotation requests).1 (serveAll rotation requests).2 := by
  -- request by request, the last one last
  induction requests using List.reverseRecOn with
  | nil =>
    refine ⟨abreast_ofRotation rotation, rfl, ?_, ?_, rfl⟩
    · intro before request area after hServed
      have hLength := congrArg List.length hServed
      simp [serveAll] at hLength
    · intro request area hMem
      cases hMem
  | append_singleton requests request ih =>
    rw [serveAll_append_singleton]
    exact ih.step hSome request

/-- An area that is listed twice, one that is not listed, and requests that name one or leave the choice to
the rotation. -/
def wayward : List Request :=
  [.next, .start none 1, .next, .start (some "popup") 2, .next, .next, .start (some "left") 3, .next]

/-- A history of requests with a class that the rotation does not list. -/
theorem rotation_agrees_wayward :
    ["left", "right", "left", "top"] ≠ [] ∧
      (serveAll ["left", "right", "left", "top"] wayward).1.map Prod.snd =
        ["left", "right", "left", "popup", "left", "right", "left", "right"] ∧
      Agrees ["left", "right", "left", "top"] wayward
        (serveAll ["left", "right", "left", "top"] wayward).1
        (serveAll ["left", "right", "left", "top"] wayward).2 :=
  ⟨by decide, by decide, rotation_agrees (by decide) wayward⟩

end Dialogue.Areas
