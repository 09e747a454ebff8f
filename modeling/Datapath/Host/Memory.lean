import Datapath.Host

/-!
# A host in memory

A model of a host: a tree of files, and the text written to the two output streams. Commands are a
parameter of the model, since what they do is not up to a host.

A path is followed part by part, so that a missing directory, a file in the place of one, or a name
that is too long is noticed where it is, also before a double dot.
-/

namespace Datapath

/-- Directories and files by the parts of their paths, seen from a common root. -/
structure FileTree where
  /-- The directories other than the root. -/
  directories : List (List String)
  /-- The files with their octets. -/
  files : List (List String × List Nat)
deriving DecidableEq, Repr, Inhabited

namespace FileTree

/-- What is at a place. -/
inductive Entry where
  | missing
  | directory
  /-- A file with its octets. -/
  | file (octets : List Nat)
deriving DecidableEq, Repr, Inhabited

/-- A tree with nothing but its root. -/
def empty : FileTree := ⟨[], []⟩

def entry (t : FileTree) (place : List String) : Entry :=
  if place.isEmpty || t.directories.contains place then .directory
  else
    match t.files.lookup place with
    | some octets => .file octets
    | none => .missing

/-- The most octets in a name. -/
def longestName : Nat := 255

/-- The most octets in a path. -/
def longestPath : Nat := 4095

/-- Follows the parts of a path from a place. What it leads to need not be there, but everything on
the way must be a directory. The root lies in itself. -/
def walk (t : FileTree) : List String → List String → Except FileFlaw (List String)
  | place, [] => .ok place
  | place, part :: rest =>
    match t.entry place with
    | .missing => .error .notFound
    | .file _ => .error .notDirectory
    | .directory =>
      if part = ".." then t.walk place.dropLast rest
      else if longestName < part.utf8ByteSize then .error .nameTooLong
      else t.walk (place ++ [part]) rest

def read (t : FileTree) (place : List String) : Except FileFlaw (List Nat) :=
  match t.entry place with
  | .missing => .error .notFound
  | .directory => .error .isDirectory
  | .file octets => .ok octets

/-- Checks that something can be put at a place. -/
def checkParent (t : FileTree) (place : List String) : Except FileFlaw Unit :=
  match t.entry place.dropLast with
  | .directory => .ok ()
  | .file _ => .error .notDirectory
  | .missing => .error .notFound

def write (t : FileTree) (place : List String) (octets : List Nat) : Except FileFlaw FileTree := do
  t.checkParent place
  match t.entry place with
  | .directory => throw .isDirectory
  | _ => return { t with files := t.files.filter (·.1 ≠ place) ++ [(place, octets)] }

def makeDirectory (t : FileTree) (place : List String) : Except FileFlaw FileTree := do
  t.checkParent place
  match t.entry place with
  | .missing => return { t with directories := t.directories ++ [place] }
  | _ => throw .alreadyThere

/-- Makes a directory at a place, and those that it lies in, as far as they are missing. -/
def makeDirectories (t : FileTree) (place : List String) : FileTree :=
  (List.range (place.length + 1)).foldl
    (fun t n ↦ (t.makeDirectory (place.take n)).toOption.getD t) t

end FileTree

/-- The state of a host in memory. -/
structure Memory where
  tree : FileTree
  /-- The place of the working directory. -/
  directory : List String
  /-- What was written to the standard output. -/
  output : String
  /-- The lines that were written to the standard error output. -/
  complaints : List String
deriving DecidableEq, Repr, Inhabited

namespace Memory

/-- The working directory as a path name. -/
def workingDirectory (memory : Memory) : PathName := ⟨"/", memory.directory⟩

/-- The place of a path. -/
def place (memory : Memory) (path : PathName) : Except FileFlaw (List String) :=
  if FileTree.longestPath < path.text.utf8ByteSize then .error .nameTooLong
  else memory.tree.walk (if path.isAbsolute then [] else memory.directory) path.parts

def read (memory : Memory) (path : PathName) : Except FileFlaw (List Nat) :=
  memory.place path >>= memory.tree.read

/-- What a path leads to. -/
def look (memory : Memory) (path : PathName) : Except FileFlaw EntryKind := do
  match memory.tree.entry (← memory.place path) with
  | .missing => throw .notFound
  | .directory => return .directory
  | .file _ => return .file

/-- Changes the tree at a path, unless that fails. -/
def change (path : PathName) (f : FileTree → List String → Except FileFlaw FileTree) :
    StateM Memory (Except FileFlaw Unit) := do
  let memory ← get
  match memory.place path >>= f memory.tree with
  | .ok tree =>
    set { memory with tree }
    return .ok ()
  | .error flaw => return .error flaw

/-- What commands do: given a tree, the words of a command and the place where it runs. -/
abbrev Commands := FileTree → List String → List String → CommandOutcome × FileTree

/-- Why a program cannot be started that is given by a path, or by no possible name. No file of a
tree is a program. -/
def programFlaw? (t : FileTree) (place : List String) (program : String) : Option FileFlaw :=
  if program.isEmpty then some .denied
  else if !program.toList.contains '/' then
    if program = "." || program = ".." then some .denied
    else if FileTree.longestName < program.utf8ByteSize then some .nameTooLong
    else none
  else
    let path := PathName.ofText program
    match t.walk (if path.isAbsolute then [] else place) path.parts with
    | .error flaw => if path.isAbsolute then none else some flaw
    | .ok target =>
      match t.entry target with
      | .missing => if path.isAbsolute then none else some .notFound
      | .file _ => some (if program.endsWith "/" then .notDirectory else .denied)
      | .directory => some .denied

/-- Runs a command in a directory. -/
def runCommand (commands : Commands) (words : List String) (directory : Option PathName) :
    StateM Memory CommandOutcome := do
  let memory ← get
  let path := directory.getD ⟨"", []⟩
  match memory.place path with
  | .error flaw => return .noDirectory flaw path
  | .ok place =>
    match memory.tree.entry place with
    | .missing => return .noDirectory .notFound path
    | .file _ => return .noDirectory .notDirectory path
    | .directory =>
      let program := words.head?.getD ""
      match programFlaw? memory.tree place program with
      | some flaw => return .noProgram flaw program
      | none =>
        let (outcome, tree) := commands memory.tree words place
        set { memory with tree }
        return outcome

/-- The host in memory. Nobody has a home on it. -/
def host (machine : Machine) (commands : Commands) : Host (StateM Memory) where
  machine
  readFile path := return (← get).read path
  writeFile path text := change path fun t place ↦ t.write place (Utf8.encode text)
  look path := return (← get).look path
  makeDirectory path := change path FileTree.makeDirectory
  workingDirectory := return (← get).workingDirectory
  home _ := return none
  runCommand := runCommand commands
  print text := modify fun memory ↦ { memory with output := memory.output ++ text }
  complain line := modify fun memory ↦ { memory with complaints := memory.complaints ++ [line] }

end Memory

end Datapath
