import Datapath.Text.Quoted

/-!
# Path names

A path name is a root and a list of parts. Reading one drops empty parts and single dots, so that
`./a//b` and `a/b` are the same name. Double dots stay: what they mean depends on the directories
that are there.
-/

namespace Datapath

/-- The name of a file or a directory. -/
structure PathName where
  /-- What the name begins with: nothing, one slash, or exactly two. -/
  root : String
  parts : List String
deriving DecidableEq, Repr, Inhabited

namespace PathName

/-- The root for a number of leading slashes. -/
def rootOf : Nat → String
  | 0 => ""
  | 2 => "//"
  | _ => "/"

def ofText (text : String) : PathName where
  root := rootOf (text.toList.takeWhile (· = '/')).length
  parts := (text.splitOn "/").filter fun part ↦ part ≠ "" && part ≠ "."

def text (p : PathName) : String :=
  match p.root ++ "/".intercalate p.parts with
  | "" => "."
  | text => text

/-- A path name as it is quoted in messages. -/
def quoted (p : PathName) : String := Text.quoted p.text

/-- Whether the null character stands in a path name. No system takes such a name. -/
def hasNull (p : PathName) : Bool := p.parts.any (·.toList.contains '\x00')

/-- Whether a path name does not depend on a directory. -/
def isAbsolute (p : PathName) : Bool := p.root ≠ ""

/-- A path name as seen from a directory. -/
def under (directory p : PathName) : PathName :=
  if p.isAbsolute then p else { directory with parts := directory.parts ++ p.parts }

/-- The absolute path name without double dots, if no part is a link. -/
def resolve (directory p : PathName) : PathName :=
  let whole := directory.under p
  { whole with
    parts := whole.parts.foldl
      (fun parts part ↦ if part = ".." then parts.dropLast else parts ++ [part]) [] }

/-- The directory that a path name lies in. -/
def parent (p : PathName) : PathName := { p with parts := p.parts.dropLast }

def name (p : PathName) : String := p.parts.getLast?.getD ""

/-- The last part without its extension. A dot at either end begins no extension. -/
def stem (p : PathName) : String :=
  match (p.name.toList.reverse.span (· ≠ '.')) with
  | (_ :: _, _ :: rest@(_ :: _)) => String.ofList rest.reverse
  | _ => p.name

end PathName

end Datapath
