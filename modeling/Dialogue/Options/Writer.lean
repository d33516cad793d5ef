import Dialogue.Options.Settings

/-!
# Writing settings

`Options.write` writes options as a settings file, with one line for each key, in an order of
choice.
-/

namespace Dialogue

/-- The value of the option with a key, as it stands in a settings file. -/
def OptionKey.value (options : Options) : OptionKey → String
  | normal => toString options.tempo.normal
  | fade => toString options.tempo.fade
  | sectionClose => toString options.tempo.sectionClose
  | talkWait => toString options.tempo.talk
  | areas => ",".intercalate options.areas
  | defaultActor => options.defaultActor
  | logLevel => toString options.logLevel.toInt

/-- The line for a key. -/
def OptionKey.line (options : Options) (key : OptionKey) : String :=
  key.name ++ " = " ++ key.value options ++ "\n"

/-- The options as a settings file that names the given keys. -/
def Options.write (options : Options) (keys : List OptionKey) : String :=
  String.join (keys.map (·.line options))

end Dialogue
