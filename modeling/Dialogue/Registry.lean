import Dialogue.Log

/-!
# The registry

A `Registry` numbers the talks and the sections made on it, each from one upwards, and lists the
scraps that are attached. The list comes into being with the first scrap, and stays. The numbers
are not bounded: that a counter of 64 bits overflows when it is asked for the 2^64th time is left
out.
-/

namespace Dialogue

/-- Numbers given out so far, and the scraps attached. -/
structure Registry where
  /-- How many talks have been numbered. -/
  talks : Nat
  /-- How many sections have been numbered. -/
  sections : Nat
  /-- The names of the attached scraps, oldest first, once there has been one. -/
  attached : Option (List String)
deriving DecidableEq

namespace Registry

/-- A registry on which nothing has been made. -/
def empty : Registry := ⟨0, 0, none⟩

/-- The identifier of the element that holds the attached scraps. -/
def areaId : String := "scrapArea"

/-- Gives out the next talk number. -/
def nextTalk (registry : Registry) : Nat × Registry :=
  (registry.talks + 1, { registry with talks := registry.talks + 1 })

/-- Gives out the next section number. -/
def nextSection (registry : Registry) : Nat × Registry :=
  (registry.sections + 1, { registry with sections := registry.sections + 1 })

/-- Whether a scrap is attached. -/
def isAttached (registry : Registry) (scrap : String) : Bool :=
  (registry.attached.getD []).contains scrap

/-- Attaches a scrap, unless it is. -/
def attach (registry : Registry) (scrap : String) : Registry :=
  if registry.isAttached scrap then registry
  else { registry with attached := some (registry.attached.getD [] ++ [scrap]) }

/-- What attaching a scrap logs: the first one brings the list into being. -/
def attachLog (registry : Registry) : List LogLine :=
  match registry.attached with
  | none => [⟨.debug, .registry, "Creating #" ++ areaId⟩]
  | some _ => []

/-- Detaches a scrap. -/
def detach (registry : Registry) (scrap : String) : Registry :=
  { registry with attached := registry.attached.map fun names => names.filter (· ≠ scrap) }

@[simp] theorem talks_attach (registry : Registry) (scrap : String) :
    (registry.attach scrap).talks = registry.talks := by
  unfold attach; split <;> rfl

@[simp] theorem sections_attach (registry : Registry) (scrap : String) :
    (registry.attach scrap).sections = registry.sections := by
  unfold attach; split <;> rfl

end Registry

end Dialogue
