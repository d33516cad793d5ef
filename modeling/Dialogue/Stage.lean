import Dialogue.Talk.Operation

/-!
# The stage

Several talks may share a registry. A `Stage` holds registries and talks by number; before a talk
enters or acts it is given its registry as the others left it, and afterwards the registry is put
back, also if the talk is refused.
-/

namespace Dialogue

/-- A talk and the number of its registry. -/
structure Cast where
  registry : Nat
  talk : Talk

/-- Registries and talks, numbered from zero. -/
structure Stage where
  registries : List Registry
  cast : List Cast

namespace Stage

/-- One fresh registry and no talk. -/
def empty : Stage := ⟨[.empty], []⟩

/-- Opens another registry, on which nothing has been made, if it is asked for by the next number. -/
def withRegistry (stage : Stage) (registry : Nat) : Stage :=
  if registry = stage.registries.length then
    { stage with registries := stage.registries ++ [.empty] }
  else stage

/-- The registry with a number. -/
def registry (stage : Stage) (number : Nat) : Registry := (stage.registries[number]?).getD .empty

/-- Makes a talk on a registry, and puts the registry back as it was handed back. -/
def enter (stage : Stage) (registry : Nat) (options : Options) :
    Except OptionsError Unit × Stage :=
  let opened := stage.withRegistry registry
  let (outcome, left) := Talk.enroll (opened.registry registry) options
  let registries := opened.registries.set registry left
  match outcome with
  | .ok talk => (.ok (), ⟨registries, opened.cast ++ [⟨registry, talk⟩]⟩)
  | .error error => (.error error, ⟨registries, opened.cast⟩)

/-- The stage with one more talk, if its options are valid. -/
def create (stage : Stage) (registry : Nat) (options : Options) : Except OptionsError Stage :=
  let (outcome, later) := stage.enter registry options
  outcome.map fun () => later

/-- The talk with a number, with its registry as it stands now. -/
def talk? (stage : Stage) (number : Nat) : Option Talk :=
  (stage.cast[number]?).map fun member =>
    { member.talk with registry := stage.registry member.registry }

/-- Lets a talk act; nothing if there is no talk with the number. -/
def act? {α : Type} (stage : Stage) (number : Nat) (f : Talk → α × Talk) : Option (α × Stage) := do
  let member ← stage.cast[number]?
  let talk ← stage.talk? number
  let (result, changed) := f talk
  return (result,
    ⟨stage.registries.set member.registry changed.registry,
      stage.cast.set number ⟨member.registry, changed⟩⟩)

end Stage

end Dialogue
