import Datapath.CommandLine.Run

/-!
# The program

Carries out a command line on the system that the program runs on. This host reads and writes files;
it starts no commands, so an oracle command is reported as one that could not be started.
-/

namespace Datapath

/-- The flaw that an input or output error stands for. -/
def flawOf : IO.Error → FileFlaw
  | .alreadyExists _ _ _ => .alreadyThere
  | .permissionDenied _ _ _ => .denied
  | .inappropriateType _ _ _ => .notDirectory
  | .invalidArgument _ _ _ => .nameTooLong
  | _ => .notFound

/-- Carries out an action on files. -/
def tryFile {α : Type} (action : IO α) : IO (Except FileFlaw α) := do
  match ← action.toBaseIO with
  | .ok value => return .ok value
  | .error e => return .error (flawOf e)

/-- Whether a path leads to a directory. -/
def leadsToDirectory (path : String) : IO Bool := do
  match ← tryFile (do (← IO.FS.realPath path).isDir) with
  | .ok answer => return answer
  | .error _ => return false

/-- The system that the program runs on. -/
def systemHost : Host IO where
  -- how much memory there is turns out when it is asked for
  machine := .roomy
  readFile path := do
    if ← leadsToDirectory path.text then return .error .isDirectory
    let contents ← tryFile (IO.FS.readBinFile path.text)
    return contents.map fun bytes ↦ bytes.toList.map UInt8.toNat
  writeFile path text := do
    if ← leadsToDirectory path.text then return .error .isDirectory
    tryFile (IO.FS.writeFile path.text text)
  look path := do
    if ← leadsToDirectory path.text then return .ok .directory
    return (← tryFile (IO.FS.readBinFile path.text)).map fun _ ↦ .file
  makeDirectory path := tryFile (IO.FS.createDir path.text)
  workingDirectory := do return PathName.ofText (toString (← IO.currentDir))
  home user := do
    if user.isEmpty then return (← IO.getEnv "HOME").map PathName.ofText else return none
  runCommand words _ := return .noProgram .notFound (words.head?.getD "")
  print text := do (← IO.getStdout).putStr text
  complain line := do (← IO.getStderr).putStrLn line

end Datapath

/-- Carries out a command line and ends with its status. -/
def main (arguments : List String) : IO UInt32 := do
  return (← Datapath.CommandLine.run Datapath.systemHost arguments).code
