import Dialogue.Millis

/-!
# Waiting tiers

Every pause of a talk belongs to a `Tier`. A `Tempo` gives each tier its milliseconds: all but
the talk tier are multiples of one base unit, in tenths of it and rounded down.
-/

namespace Dialogue

/-- The kinds of pause: five for characters, one after a paragraph, one after a section, and one
for the talk as a whole. -/
inductive Tier where
  | a
  | b
  | c
  | d
  | e
  | paragraphEnd
  | sectionEnd
  | talkEnd
deriving DecidableEq

namespace Tier

def name : Tier → String
  | a => "a"
  | b => "b"
  | c => "c"
  | d => "d"
  | e => "e"
  | paragraphEnd => "period"
  | sectionEnd => "section"
  | talkEnd => "talk"

def ofName? : String → Option Tier
  | "a" => some a
  | "b" => some b
  | "c" => some c
  | "d" => some d
  | "e" => some e
  | "period" => some paragraphEnd
  | "section" => some sectionEnd
  | "talk" => some talkEnd
  | _ => none

/-- Whether a character can have this tier. -/
def pacesGlyph : Tier → Bool
  | a | b | c | d | e => true
  | paragraphEnd | sectionEnd | talkEnd => false

@[simp] theorem ofName?_name (tier : Tier) : ofName? tier.name = some tier := by
  cases tier <;> rfl

end Tier

/-- The base unit of the tiers, the talk wait, and the durations of the two animations. -/
structure Tempo where
  /-- The base unit. -/
  normal : Millis
  /-- How long one character fades in. -/
  fade : Millis
  /-- How long one section takes to close. -/
  sectionClose : Millis
  /-- The wait of the talk tier: long enough to mean "until told otherwise". -/
  talk : Millis
deriving DecidableEq

namespace Tempo

/-- The tempo where nothing else is said. -/
def standard : Tempo := ⟨120, 300, 400, 20000⟩

/-- The standard tempo with another base unit. -/
def ofNormal (normal : Millis) : Tempo := { standard with normal }

/-- The base unit times `tenths` tenths, rounded down. -/
def scaled (tempo : Tempo) (tenths : Nat) : Millis :=
  Millis.ofNat (tempo.normal.toNat * tenths / 10)

/-- The wait of a tier. -/
def wait (tempo : Tempo) : Tier → Millis
  | .a => tempo.scaled 10
  | .b => tempo.scaled 30
  | .c => tempo.scaled 15
  | .d => tempo.scaled 35
  | .e => tempo.scaled 45
  | .paragraphEnd | .sectionEnd => tempo.scaled 50
  | .talkEnd => tempo.talk

/-- The delay before an entry: nothing without a tier. -/
def delay (tempo : Tempo) (tier : Option Tier) : Millis := tier.elim 0 tempo.wait

@[simp] theorem delay_none (tempo : Tempo) : tempo.delay none = 0 := rfl

@[simp] theorem delay_some (tempo : Tempo) (tier : Tier) :
    tempo.delay (some tier) = tempo.wait tier := rfl

end Tempo

end Dialogue
