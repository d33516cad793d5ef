import Dialogue.Options.Settings

/-!
# Files

A `Folder` holds files by name, and is the place where the program runs. A name is followed part by
part: an empty part and a dot stay where they are, two dots lead to the folder around, and any other
part leads to what the folder holds under that name. Only folders can be followed further. A name
may also lead out of the folder; what is around it holds nothing but folders that lead back up.

A file is read as text, which its bytes must be.
-/

namespace Dialogue.CommandLine

/-- What stands under a name. -/
inductive File where
  | text (content : String)
  | bytes (content : ByteArray)
  | directory

/-- Files by name. -/
structure Folder where
  files : List (String × File)

/-- Where following a name has led. -/
inductive Spot where
  /-- To the end of a path in the folder; without a path, to the folder itself. -/
  | inside (path : List String)
  /-- To a folder around it. -/
  | outside
deriving DecidableEq

namespace Spot

/-- The folder around a spot. -/
def parent : Spot → Spot
  | inside [] => outside
  | inside (first :: rest) => inside (first :: rest).dropLast
  | outside => outside

end Spot

/-- The longest name that a file can have, in bytes. -/
def longestName : Nat := 255

/-- The longest way to a file that can be written down, in bytes. -/
def longestWay : Nat := 4095

namespace Folder

/-- The parts of a name. -/
def parts (name : String) : List String := (Text.fields '/' name.toList).map String.ofList

/-- The path of a file that the folder holds under a name. -/
def path (name : String) : List String :=
  (parts name).filter fun part => part ≠ "" ∧ part ≠ "."

/-- What is at a spot, if there is something. A path that leads on to a file is a folder. -/
def at? (folder : Folder) : Spot → Option File
  | .outside => some .directory
  | .inside [] => some .directory
  | .inside place =>
    match folder.files.find? fun (name, _) => path name = place with
    | some (_, file) => some file
    | none =>
      if folder.files.any fun (name, _) => place.isPrefixOf (path name) then some .directory
      else none

/-- What a folder at a spot holds under a name. -/
def enter (folder : Folder) (spot : Spot) (name : String) : Except FileError Spot :=
  if name.utf8ByteSize > longestName then .error .nameTooLong
  else match spot with
    | .outside => .error .notFound
    | .inside place =>
      if (folder.at? (.inside (place ++ [name]))).isSome then .ok (.inside (place ++ [name]))
      else .error .notFound

/-- Follows one part of a name. -/
def follow (folder : Folder) (spot : Spot) (part : String) : Except FileError Spot :=
  match folder.at? spot with
  | some .directory =>
    if part = "" ∨ part = "." then .ok spot
    else if part = ".." then .ok spot.parent
    else folder.enter spot part
  | some (.text _) | some (.bytes _) => .error .notDirectory
  | none => .error .notFound

/-- Follows a name; one that starts with a slash starts outside. -/
def resolve (folder : Folder) (name : String) : Except FileError Spot :=
  (parts name).foldlM folder.follow (if name.startsWith "/" then .outside else .inside [])

/-- The content of a file as text. -/
def content : File → Except FileError String
  | .text content => .ok content
  | .bytes content =>
    match String.fromUTF8? content with
    | some text => .ok text
    | none => .error .notText
  | .directory => .error .isDirectory

/-- Reads a file as text. A name that cannot be a name is refused before it is followed. -/
def read (folder : Folder) (name : String) : Except FileError String :=
  if name.toList.contains '\x00' then .error .nullInName
  else if name.isEmpty then .error .notFound
  else if name.utf8ByteSize > longestWay then .error .nameTooLong
  else do
    let spot ← folder.resolve name
    match folder.at? spot with
    | some file => content file
    | none => .error .notFound

end Folder

end Dialogue.CommandLine
