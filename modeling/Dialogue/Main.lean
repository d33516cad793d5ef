import Dialogue.CommandLine.Program

/-!
# Command line

Reads the files that the arguments name, runs the program on them, and writes what it leaves behind.
-/

namespace Dialogue.CommandLine

/-- Why a file was not read. Only an error in following its name tells the name. -/
def fileError : IO.Error → FileError
  | .inappropriateType (some _) .. => .notDirectory
  | .inappropriateType none .. => .isDirectory
  | .invalidArgument .. => .nameTooLong
  | _ => .notFound

/-- Reads a file as text. -/
def readFile (name : String) : IO (Except FileError String) := do
  try
    let content ← IO.FS.readBinFile name
    return match String.fromUTF8? content with
      | some text => .ok text
      | none => .error .notText
  catch error => return .error (fileError error)

end Dialogue.CommandLine

open Dialogue.CommandLine in
/-- Runs the program and exits with its code. -/
def main (arguments : List String) : IO UInt32 := do
  let names := match Arguments.parse arguments with
    | .ok arguments => arguments.config.toList ++ [arguments.script]
    | .error _ => []
  let contents ← names.mapM fun name => do return (name, ← readFile name)
  let read := fun name => ((contents.find? (·.1 = name)).map Prod.snd).getD (.error .notFound)
  let result := Program.run arguments read
  IO.print result.output
  IO.eprint result.errors
  return result.code.toUInt32
