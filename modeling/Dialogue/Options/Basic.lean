import Dialogue.Pace.Tier
import Dialogue.Log
import Dialogue.Report

/-!
# Options

The `Options` of a talk: its durations, its areas, who speaks where nobody is named, when it starts,
and how much is logged. A talk takes only options that are valid: there is an area, and the base
unit is positive.
-/

namespace Dialogue

/-- The options of a talk. -/
structure Options where
  tempo : Tempo
  /-- The areas that sections rotate through. -/
  areas : List String
  /-- The actor of text with no paragraph open. -/
  defaultActor : String
  /-- When playback starts; where it is unset, when it is asked for. -/
  startTime : Option Millis
  logLevel : LogLevel
deriving DecidableEq

/-- Why options are refused. -/
inductive OptionsError where
  | noAreas
  | zeroBaseUnit
deriving DecidableEq

namespace OptionsError

def message : OptionsError → String
  | noAreas => "Section area list is empty"
  | zeroBaseUnit => "Base wait unit must be positive"

def report (error : OptionsError) : Report := .plain error.message

end OptionsError

namespace Options

/-- The options where nothing else is said. -/
def standard : Options :=
  ⟨.standard, ["area1", "area2"], "default", none, .warning⟩

/-- Checks the options; a missing area is found before a base unit of zero. -/
def validate (options : Options) : Except OptionsError Unit :=
  if options.areas.isEmpty then .error .noAreas
  else if options.tempo.normal = 0 then .error .zeroBaseUnit
  else .ok ()

/-- Options that a talk can be made with. -/
def Valid (options : Options) : Prop := options.areas ≠ [] ∧ options.tempo.normal ≠ 0

instance (options : Options) : Decidable options.Valid :=
  inferInstanceAs (Decidable (_ ∧ _))

/-- The check accepts exactly the valid options. -/
theorem validate_eq_ok_iff {options : Options} : options.validate = .ok () ↔ options.Valid := by
  unfold validate Valid
  by_cases hAreas : options.areas = [] <;> by_cases hNormal : options.tempo.normal = 0 <;>
    simp [hAreas, hNormal]

end Options

end Dialogue
