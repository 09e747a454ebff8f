import Datapath.Magnitude
import Datapath.PathName
import Datapath.Text.Lines

/-!
# Hosts

Everything that a run asks of the world outside it goes through a host: files, directories,
commands, the two output streams, and the machine that it runs on. A run is written against an
arbitrary host, so it can be carried out on a real system or on a model of one.
-/

namespace Datapath

/-- How a command went. -/
inductive CommandOutcome where
  /-- There is no such program. -/
  | noProgram (flaw : FileFlaw) (program : String)
  /-- The directory to run it in is not there. -/
  | noDirectory (flaw : FileFlaw) (directory : PathName)
  /-- It ran and ended with a status, having written octets to its two streams. -/
  | finished (status : Int) (output error : List Nat)

/-- What a path leads to. -/
inductive EntryKind where
  | file
  | directory
deriving DecidableEq, Repr, Inhabited

/-- What a run can ask of the world. -/
structure Host (m : Type → Type) where
  /-- What can be done with integers. -/
  machine : Machine
  /-- The octets of a file. -/
  readFile : PathName → m (Except FileFlaw (List Nat))
  writeFile : PathName → String → m (Except FileFlaw Unit)
  /-- What a path leads to. -/
  look : PathName → m (Except FileFlaw EntryKind)
  /-- Makes a directory in one that is there. -/
  makeDirectory : PathName → m (Except FileFlaw Unit)
  /-- The directory that relative path names start from. -/
  workingDirectory : m PathName
  /-- The home directory of a user, or with an empty name of the present user. -/
  home : String → m (Option PathName)
  runCommand : List String → Option PathName → m CommandOutcome
  /-- Writes to the standard output. -/
  print : String → m Unit
  /-- Writes a line to the standard error output. -/
  complain : String → m Unit

namespace Host

variable {m : Type → Type} [Monad m] (host : Host m)

/-- Whether a path leads to something of a kind. A path that leads nowhere does not, and neither
does one that no system takes. -/
def leadsTo (kind : EntryKind) (path : PathName) : m (Except Mishap Bool) := do
  if path.hasNull then return .ok false
  match ← host.look path with
  | .ok found => return .ok (decide (found = kind))
  | .error .notFound => return .ok false
  | .error .notDirectory => return .ok false
  | .error flaw => return .error (.file flaw path.quoted)

def readOctets (path : PathName) : m (Except Mishap (List Nat)) := do
  if path.hasNull then return .error .nullInPath
  return (← host.readFile path).mapError (.file · path.quoted)

/-- The text that octets spell, with every line end made a line feed. -/
def textOf (octets : List Nat) : Except Mishap (List Char) :=
  (Utf8.decode octets).mapError .undecodable |>.map Text.unifyNewlines

/-- The text of a file, with every line end made a line feed. -/
def readText (path : PathName) : m (Except Mishap (List Char)) := do
  return (← host.readOctets path) >>= textOf

/-- The text of a file without what is no text in it. -/
def readLossyText (path : PathName) : m (Except Mishap (List Char)) := do
  return (← host.readOctets path).map fun octets ↦ Text.unifyNewlines (Utf8.decodeLossy octets)

/-- A path name with a home directory in place of a leading tilde. -/
def expandHome (path : PathName) : m (Except Mishap PathName) := do
  match path.isAbsolute, path.parts with
  | false, first :: rest =>
    match first.toList with
    | '~' :: user =>
      match ← host.home (String.ofList user) with
      | some home => return .ok (home.under { root := "", parts := rest })
      | none => return .error .noHome
    | _ => return .ok path
  | _, _ => return .ok path

/-- Makes a directory and those that it lies in. The parts of its name come last to first. -/
def makeDirectories (root : String) : List String → m (Except Mishap Unit)
  | [] => return .ok ()
  | parts@(_ :: rest) => do
    let path : PathName := ⟨root, parts.reverse⟩
    let settle (outcome : Except FileFlaw Unit) : m (Except Mishap Unit) := do
      match outcome with
      | .ok () => return .ok ()
      | .error flaw =>
        match ← host.leadsTo .directory path with
        | .ok true => return .ok ()
        | .ok false => return .error (.file flaw path.quoted)
        | .error cause => return .error cause
    match ← host.makeDirectory path with
    | .error .notFound =>
      match ← makeDirectories root rest with
      | .ok () => settle (← host.makeDirectory path)
      | .error cause => return .error cause
    | outcome => settle outcome

/-- Writes a file, and makes the directories that it lies in. -/
def save (path : PathName) (text : String) : m (Except Mishap Unit) := do
  match ← host.expandHome path with
  | .error cause => return .error cause
  | .ok path =>
    if path.hasNull then return .error .nullInPath
    let path := (← host.workingDirectory).resolve path
    match ← host.makeDirectories path.root path.parent.parts.reverse with
    | .error cause => return .error cause
    | .ok () => return (← host.writeFile path text).mapError (.file · path.quoted)

end Host

end Datapath
