import Dialogue.Log

/-!
# Display areas

Sections are shown in areas. `Areas` rotates through a configured list of area names, and keeps one
`AreaRecord` for each section that has started: whether its area is visible, and which animation it
is in. A place in the rotation is found by name, so a name that is listed twice stands for its first
place.
-/

namespace Dialogue

/-! ## Records -/

/-- Whether an area can be seen. -/
inductive Visibility where
  | waiting
  | shown
  | hidden
deriving DecidableEq

/-- The animation that an area is in. -/
inductive Animation where
  | closed
  | opened
  | closing
deriving DecidableEq

/-- The area of one section. -/
structure AreaRecord where
  /-- The number of the section. -/
  number : Nat
  area : String
  visibility : Visibility
  phase : Animation
  attached : Bool
deriving DecidableEq

namespace AreaRecord

/-- The area of a section before it opens. -/
def fresh (number : Nat) (area : String) : AreaRecord := ⟨number, area, .waiting, .closed, true⟩

def makeVisible (record : AreaRecord) : AreaRecord := { record with visibility := .shown }

def hide (record : AreaRecord) : AreaRecord := { record with visibility := .hidden }

def opening (record : AreaRecord) : AreaRecord := { record with phase := .opened }

/-- Starts the closing animation. -/
def close (record : AreaRecord) : AreaRecord := { record with phase := .closing }

/-- Drops the area after its closing animation. -/
def detach (record : AreaRecord) : AreaRecord :=
  { record with phase := .closed, visibility := .hidden, attached := false }

/-- The classes of the area's element. -/
def classes (record : AreaRecord) : List String :=
  ["section", record.area] ++
    match record.visibility with
    | .waiting => ["waiting"]
    | .hidden => ["hidden"]
    | .shown => []

end AreaRecord

/-! ## The rotation -/

/-- The area after `area` in a rotation. After the last one, and after an unknown one, comes the
first. -/
def successor? (rotation : List String) (area : String) : Option String :=
  match rotation with
  | [] => none
  | first :: _ =>
    match rotation.idxOf? area with
    | some i => rotation[(i + 1) % rotation.length]?
    | none => some first

/-- The rotation, the place of the area handed out last, and the records in starting order. -/
structure Areas where
  rotation : List String
  current : Option Nat
  records : List AreaRecord
deriving DecidableEq

namespace Areas

/-- No section has started. -/
def ofRotation (rotation : List String) : Areas := ⟨rotation, none, []⟩

/-- The area handed out last, if it is in the rotation. -/
def currentArea (areas : Areas) : Option String :=
  areas.current.bind fun i => areas.rotation[i]?

/-- The area that the rotation hands out next. -/
def upcoming (areas : Areas) : String :=
  (match areas.currentArea with
    | some area => successor? areas.rotation area
    | none => areas.rotation.head?).getD ""

/-- Hands out an area. -/
def choose (areas : Areas) (area : String) : Areas :=
  { areas with current := areas.rotation.idxOf? area }

/-- Hands out the next area of the rotation. -/
def next (areas : Areas) : String × Areas := (areas.upcoming, areas.choose areas.upcoming)

/-- The area for a new section: the one asked for, else the next of the rotation. -/
def areaFor (areas : Areas) (asked : Option String) : String := asked.getD areas.upcoming

/-- Starts a section. -/
def start (areas : Areas) (asked : Option String) (number : Nat) : Areas :=
  let area := areas.areaFor asked
  { areas.choose area with records := areas.records ++ [.fresh number area] }

/-- What starting a section logs: a note if the area asked for is not in the rotation. -/
def startLog (areas : Areas) (asked : Option String) : List LogLine :=
  match asked with
  | some area =>
    if areas.rotation.contains area then []
    else [⟨.debug, .areas, "Area '" ++ area ++ "' is not in the rotation"⟩]
  | none => []

/-- The first record of a section. -/
def record? (areas : Areas) (number : Nat) : Option AreaRecord :=
  areas.records.find? (·.number = number)

/-- Changes the first of the records with a section number. -/
def modifyFirst (number : Nat) (f : AreaRecord → AreaRecord) : List AreaRecord → List AreaRecord
  | [] => []
  | record :: rest =>
    if record.number = number then f record :: rest
    else record :: modifyFirst number f rest

/-- Changes the first record of a section, if there is one. -/
def modify (areas : Areas) (number : Nat) (f : AreaRecord → AreaRecord) : Areas :=
  { areas with records := modifyFirst number f areas.records }

end Areas

end Dialogue
