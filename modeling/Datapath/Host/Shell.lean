import Datapath.Host.Memory
import Datapath.Text.Literal

/-!
# A shell in memory

The commands of a host in memory: a program that succeeds, one that fails, and a shell. The shell
knows quotes, variables, redirection, pipes, sequences with conditions, loops over words, and a few
commands of its own, which is enough for the commands that write timing reports. No other program is
installed.

What is written to a stream is a sequence of octets, which need not be text.

## Words

A script is read one character at a time. What a character means depends on the *mode* it is read
in, so quotes, escapes and operators of several characters need no looking ahead.
-/

namespace Datapath

namespace Shell

/-- What a word is made of. -/
inductive Piece where
  | text (s : String)
  /-- The value of a variable, which may be inside double quotes. -/
  | value (inside : Bool) (name : String)
deriving DecidableEq, Repr, Inhabited

/-- What a script is made of. -/
inductive Token where
  /-- A word, with the line that it ends in. -/
  | word (pieces : List Piece) (line : Nat)
  | operator (sign : String)
deriving DecidableEq, Repr, Inhabited

/-! ## Reading -/

/-- How the next character is read. -/
inductive Mode where
  /-- Outside of quotes. -/
  | plain
  /-- Inside single quotes. -/
  | single
  /-- Inside double quotes. -/
  | double
  /-- After a backslash, which may be inside double quotes. -/
  | escape (inside : Bool)
  /-- After a dollar sign and some characters of a name, which may be inside double quotes. -/
  | dollar (inside : Bool) (name : String)
  /-- After some characters of an operator. -/
  | operator (sign : String)
  | comment
deriving DecidableEq, Repr, Inhabited

/-- What has been read of a script. -/
structure Reader where
  /-- How the next character is read. -/
  mode : Mode
  /-- The pieces of the current word, if there is one. -/
  word : Option (List Piece)
  /-- The tokens before it. -/
  tokens : List Token
  /-- The number of the current line. -/
  line : Nat
deriving DecidableEq, Repr, Inhabited

namespace Reader

/-- The reader before a script. -/
def start : Reader := ⟨.plain, none, [], 1⟩

def push (r : Reader) (pieces : List Piece) : Reader :=
  { r with word := some (r.word.getD [] ++ pieces) }

def pushChar (r : Reader) (c : Char) : Reader := r.push [.text c.toString]

def endWord (r : Reader) : Reader :=
  match r.word with
  | some pieces => { r with word := none, tokens := r.tokens ++ [.word pieces r.line] }
  | none => r

def endOperator (r : Reader) (sign : String) : Reader :=
  { r with mode := .plain, tokens := r.tokens ++ [.operator sign] }

def beginOperator (r : Reader) (sign : String) : Reader := { r.endWord with mode := .operator sign }

def endLine (r : Reader) : Reader :=
  let r := r.endWord.endOperator ";"
  { r with line := r.line + 1 }

/-- Reads a character outside of quotes. A digit right before a redirection belongs to it. -/
def readPlain (r : Reader) (c : Char) : Reader :=
  match c with
  | '\'' => { r.push [] with mode := .single }
  | '"' => { r.push [] with mode := .double }
  | '\\' => { r with mode := .escape false }
  | '$' => { r with mode := .dollar false "" }
  | '#' => if r.word.isNone then { r with mode := .comment } else r.pushChar c
  | ' ' | '\t' => r.endWord
  | ';' => r.endWord.endOperator ";"
  | '\n' => r.endLine
  | '&' | '|' | '<' => r.beginOperator c.toString
  | '>' =>
    match r.word with
    | some [.text "1"] => { r with word := none, mode := .operator ">" }
    | some [.text "2"] => { r with word := none, mode := .operator "2>" }
    | _ => r.beginOperator ">"
  | c => r.pushChar c

def readDouble (r : Reader) (c : Char) : Reader :=
  match c with
  | '"' => { r with mode := .plain }
  | '\\' => { r with mode := .escape true }
  | '$' => { r with mode := .dollar true "" }
  | c => r.pushChar c

/-- Goes back to where a dollar sign or a backslash was read. -/
def leave (r : Reader) (inside : Bool) : Reader :=
  { r with mode := if inside then .double else .plain }

def endName (r : Reader) (inside : Bool) (name : String) : Reader :=
  (r.push [if name.isEmpty then .text "$" else .value inside name]).leave inside

/-- Whether an operator goes on with a character. -/
def goesOn (sign : String) (c : Char) : Bool :=
  [">>", "2>>", "&&", "||", ">&", "2>&", ">&1", ">&2", "2>&1", "2>&2"].contains (sign.push c)

def read (r : Reader) (c : Char) : Reader :=
  match r.mode with
  | .plain => r.readPlain c
  | .double => r.readDouble c
  | .single => if c = '\'' then { r with mode := .plain } else r.pushChar c
  | .comment => if c = '\n' then r.endLine else r
  | .escape false => (r.pushChar c).leave false
  | .escape true =>
    if c = '"' || c = '\\' || c = '$' then (r.pushChar c).leave true
    else ((r.pushChar '\\').pushChar c).leave true
  | .dollar inside name =>
    if c.isAlphanum || c = '_' then { r with mode := .dollar inside (name.push c) }
    else if name.isEmpty && (c = '$' || c = '?') then
      (r.push [.value inside c.toString]).leave inside
    else
      let r := r.endName inside name
      if inside then r.readDouble c else r.readPlain c
  | .operator sign =>
    if goesOn sign c then { r with mode := .operator (sign.push c) }
    else (r.endOperator sign).readPlain c

/-- Ends a script, unless that is inside quotes. -/
def finish? (r : Reader) : Option (List Token) :=
  match r.mode with
  | .plain | .comment => some r.endWord.tokens
  | .dollar false name => some (r.endName false name).endWord.tokens
  | .operator sign => some (r.endOperator sign).tokens
  | .escape false => some (r.pushChar '\\').endWord.tokens
  | _ => none

end Reader

/-- The tokens of a script, unless it ends inside quotes. -/
def tokens? (script : String) : Option (List Token) :=
  (script.toList.foldl Reader.read .start).finish?

/-! ## The state of a shell -/

/-- The state of a shell. -/
structure State where
  /-- What messages call the script. -/
  name : String
  tree : FileTree
  /-- The place where the shell runs. -/
  directory : List String
  /-- The variables, last set first. -/
  bindings : List (String × String)
  /-- What can be read from the standard input. -/
  input : List Nat
  /-- What was written to the standard output. -/
  output : List Nat
  /-- What was written to the standard error output. -/
  error : List Nat
  /-- The status of the last command. -/
  status : Int
  /-- Whether the shell has ended. -/
  exited : Bool
deriving Inhabited

/-- Where a stream of a command goes. -/
inductive Target where
  /-- To the standard output. -/
  | output
  /-- To the standard error output. -/
  | error
  /-- Nowhere. -/
  | nothing
  /-- To the end of a file. -/
  | file (place : List String)
deriving DecidableEq, Repr, Inhabited

namespace State

def value (s : State) (name : String) : String :=
  match name with
  | "?" => toString s.status
  | "$" => "1"
  | name => (s.bindings.lookup name).getD ""

/-- The text of a word. -/
def expand (s : State) (pieces : List Piece) : String :=
  String.join (pieces.map fun
    | .text t => t
    | .value _ name => s.value name)

/-- The words that a word becomes: a lone variable outside of quotes becomes the words in its
value. -/
def fields (s : State) (pieces : List Piece) : List String :=
  match pieces with
  | [.value false name] =>
    ((s.value name).split fun c ↦ c = ' ' || c = '\t' || c = '\n').toList.map (·.toString) |>.filter
      (!·.isEmpty)
  | pieces => [s.expand pieces]

def place (s : State) (path : String) : Except FileFlaw (List String) :=
  let name := PathName.ofText path
  s.tree.walk (if name.isAbsolute then [] else s.directory) name.parts

/-- The file that is always empty. -/
def nullFile : String := "/dev/null"

def contents (s : State) (path : String) : Except FileFlaw (List Nat) := do
  if path = nullFile then return []
  s.tree.read (← s.place path)

/-- The place of a path that leads to a directory. -/
def directoryAt? (s : State) (path : String) : Option (List String) :=
  (s.place path).toOption.filter fun place ↦ s.tree.entry place = .directory

def put (s : State) (path : String) (octets : List Nat) : Except FileFlaw State := do
  return { s with tree := ← s.tree.write (← s.place path) octets }

/-- Writes octets to where a stream goes. -/
def send (s : State) (target : Target) (octets : List Nat) : State :=
  match target with
  | .output => { s with output := s.output ++ octets }
  | .error => { s with error := s.error ++ octets }
  | .nothing => s
  | .file place =>
    let before := (s.tree.read place).toOption.getD []
    { s with tree := (s.tree.write place (before ++ octets)).toOption.getD s.tree }

/-- Opens a file for a stream. What is in it stays only if the stream is appended to it. -/
def openFile (s : State) (path : String) (append : Bool) : Except FileFlaw (State × Target) := do
  if path = nullFile then return (s, .nothing)
  let before := if append then (s.contents path).toOption.getD [] else []
  let opened ← s.put path before
  return (opened, .file (← s.place path))

/-- A message of the shell itself. -/
def complaint (s : State) (line : Nat) (message : String) : String :=
  s!"{s.name}: {line}: {message}\n"

/-- Fails with a message of the shell itself. -/
def refuse (s : State) (line : Nat) (message : String) : State :=
  { s with status := 2 }.send .error (Utf8.encode (s.complaint line message))

end State

/-! ## Commands -/

/-- What a command does. -/
structure Effect where
  state : State
  /-- What it writes to its output. -/
  output : List Nat
  /-- What it writes to its error output. -/
  error : List Nat

namespace Effect

/-- A command that succeeds with an output. -/
def done (s : State) (output : List Nat) : Effect := ⟨{ s with status := 0 }, output, []⟩

/-- A command that fails with a message. -/
def failed (s : State) (status : Int) (error : String) : Effect :=
  ⟨{ s with status }, [], Utf8.encode error⟩

/-- One command after another, with the status of the former unless the latter fails. -/
def andThen (e : Effect) (next : State → Effect) : Effect :=
  let f := next { e.state with status := 0 }
  let status := if f.state.status = 0 then e.state.status else f.state.status
  ⟨{ f.state with status }, e.output ++ f.output, e.error ++ f.error⟩

end Effect

/-- The wording of a flaw in the messages of programs. -/
def flawText : FileFlaw → String
  | .notFound => "No such file or directory"
  | .notDirectory => "Not a directory"
  | .isDirectory => "Is a directory"
  | .alreadyThere => "File exists"
  | .denied => "Permission denied"
  | .nameTooLong => "File name too long"

/-- The value of an octal digit. -/
def octalDigit? (c : Char) : Option Nat :=
  if '0' ≤ c ∧ c ≤ '7' then some (c.toNat - '0'.toNat) else none

/-- The octet that at most `limit` octal digits spell, and what follows them. -/
def octal : (limit acc : Nat) → List Char → Nat × List Char
  | 0, acc, cs => (acc % 256, cs)
  | _ + 1, acc, [] => (acc % 256, [])
  | limit + 1, acc, c :: rest =>
    match octalDigit? c with
    | some d => octal limit (8 * acc + d) rest
    | none => (acc % 256, c :: rest)

/-- The octet of an escape with a letter. -/
def letterEscape? : Char → Option Nat
  | 'a' => some 7
  | 'b' => some 8
  | 't' => some 9
  | 'n' => some 10
  | 'v' => some 11
  | 'f' => some 12
  | 'r' => some 13
  | '\\' => some 92
  | _ => none

/-- The octets of the escape that begins with a backslash and a character, and what follows it. -/
def escaped (c : Char) (rest : List Char) : List Nat × List Char :=
  match letterEscape? c, octalDigit? c with
  | some octet, _ => ([octet], rest)
  | none, some d => let (octet, rest) := octal 2 d rest; ([octet], rest)
  | none, none => (92 :: Utf8.encodeChar c, rest)

/-- The octets of a text with its escapes replaced, and whether no escape ended it early. An escape
that begins with a zero has up to three more digits. -/
def unescape : (fuel : Nat) → List Char → List Nat × Bool
  | 0, _ => ([], true)
  | _ + 1, [] => ([], true)
  | _ + 1, '\\' :: 'c' :: _ => ([], false)
  | fuel + 1, '\\' :: '0' :: rest =>
    let (octet, rest) := octal 3 0 rest
    let (octets, whole) := unescape fuel rest
    (octet :: octets, whole)
  | fuel + 1, '\\' :: c :: rest =>
    let (octet, rest) := escaped c rest
    let (octets, whole) := unescape fuel rest
    (octet ++ octets, whole)
  | fuel + 1, c :: rest =>
    let (octets, whole) := unescape fuel rest
    (Utf8.encodeChar c ++ octets, whole)

/-- The octets of a format with its escapes replaced and its place holders filled, and the words
that are left. -/
def fill : (fuel : Nat) → List Char → List String → List Nat × List String
  | 0, _, words => ([], words)
  | _ + 1, [], words => ([], words)
  | fuel + 1, '\\' :: c :: rest, words =>
    let (octet, rest) := escaped c rest
    let (octets, left) := fill fuel rest words
    (octet ++ octets, left)
  | fuel + 1, '%' :: '%' :: rest, words =>
    let (octets, left) := fill fuel rest words
    (37 :: octets, left)
  | fuel + 1, '%' :: c :: rest, words =>
    let (octets, left) := fill fuel rest words.tail
    if c = 's' || c = 'd' then (Utf8.encode (words.head?.getD "") ++ octets, left)
    else (37 :: Utf8.encodeChar c ++ octets, left)
  | fuel + 1, c :: rest, words =>
    let (octets, left) := fill fuel rest words
    (Utf8.encodeChar c ++ octets, left)

/-- A format filled again and again until no word is left. -/
def fillAll (format : List Char) : (fuel : Nat) → List String → List Nat
  | 0, _ => []
  | fuel + 1, words =>
    let (octets, left) := fill (format.length + 1) format words
    if left.isEmpty || left.length = words.length then octets
    else octets ++ fillAll format fuel left

/-- Words separated by blanks, with their escapes replaced, and an ending. -/
def echoed (words : List String) (ending : List Nat) : List Nat :=
  let text := (" ".intercalate words).toList
  let (octets, whole) := unescape (text.length + 1) text
  if whole then octets ++ ending else octets

/-- The number of a signal with a name. -/
def signalNumber? (name : String) : Option Int :=
  [("HUP", 1), ("INT", 2), ("QUIT", 3), ("ABRT", 6), ("KILL", 9), ("USR1", 10), ("SEGV", 11),
    ("USR2", 12), ("PIPE", 13), ("ALRM", 14), ("TERM", 15)].lookup name

/-- The number of a signal, which is the terminating one unless another is given. -/
def signal (words : List String) : Int :=
  let spelled (word : String) : Int :=
    ((signalNumber? word).orElse fun _ ↦ Literal.int? word).getD 15
  match words.map (·.toList) with
  | ['-', 's'] :: name :: _ => spelled (String.ofList name)
  | ('-' :: name) :: _ => spelled (String.ofList name)
  | _ => 15

namespace State

/-- Writes the contents of a file, or what can be read from the standard input. -/
def cat (s : State) (path : String) : Effect :=
  if path = "-" then .done { s with input := [] } s.input
  else
    match s.contents path with
    | .ok octets => .done s octets
    | .error flaw => .failed s 1 s!"cat: {path}: {flawText flaw}\n"

/-- Copies a file onto another, or into a directory. -/
def copy (s : State) (source target : String) : Effect :=
  let target :=
    if (s.directoryAt? target).isSome then target ++ "/" ++ (PathName.ofText source).name
    else target
  match s.contents source with
  | .error .isDirectory => .failed s 1 s!"cp: -r not specified; omitting directory '{source}'\n"
  | .error flaw => .failed s 1 s!"cp: cannot stat '{source}': {flawText flaw}\n"
  | .ok octets =>
    match s.put target octets with
    | .ok s => .done s []
    | .error flaw => .failed s 1 s!"cp: cannot create regular file '{target}': {flawText flaw}\n"

def remove (s : State) (path : String) : Effect :=
  match s.contents path, s.place path with
  | .ok _, .ok place =>
    .done { s with tree := { s.tree with files := s.tree.files.filter (·.1 ≠ place) } } []
  | .error flaw, _ => .failed s 1 s!"rm: cannot remove '{path}': {flawText flaw}\n"
  | _, .error flaw => .failed s 1 s!"rm: cannot remove '{path}': {flawText flaw}\n"

def makeDirectory (s : State) (path : String) : Effect :=
  match do s.tree.makeDirectory (← s.place path) with
  | .ok tree => .done { s with tree } []
  | .error flaw => .failed s 1 s!"mkdir: cannot create directory ‘{path}’: {flawText flaw}\n"

/-- Does something with each of some files. -/
def forEach (s : State) (paths : List String) (f : State → String → Effect) : Effect :=
  paths.foldl (fun e path ↦ e.andThen fun s ↦ f s path) (.done s [])

/-- Ends the shell with a status. -/
def exit (s : State) (status : Int) : State := { s with status, exited := true }

/-- Ends the shell with the status that a word spells. -/
def exitWith (s : State) (line : Nat) (word : String) : Effect :=
  match word.toNat? with
  | some n => ⟨s.exit (n % 256), [], []⟩
  | none => .failed (s.exit 2) 2 (s.complaint line s!"exit: Illegal number: {word}")

def changeDirectory (s : State) (line : Nat) (path : String) : Effect :=
  match s.directoryAt? path with
  | some directory => .done { s with directory } []
  | none => .failed s 2 (s.complaint line s!"cd: can't cd to {path}")

/-- Tries to run a program, of which there are none. -/
def program (s : State) (line : Nat) (name : String) : Effect :=
  match Memory.programFlaw? s.tree s.directory name with
  | some .denied => .failed s 126 (s.complaint line s!"{name}: Permission denied")
  | _ => .failed s 127 (s.complaint line s!"{name}: not found")

def command (s : State) (line : Nat) (words : List String) : Effect :=
  match words with
  | [] => .done s []
  | "echo" :: "-n" :: words => .done s (echoed words [])
  | "echo" :: words => .done s (echoed words [10])
  | "printf" :: format :: words => .done s (fillAll format.toList (words.length + 1) words)
  | "exit" :: word :: _ => s.exitWith line word
  | "exit" :: [] => ⟨s.exit s.status, [], []⟩
  | "kill" :: words => ⟨s.exit (-(signal words)), [], []⟩
  | "true" :: _ => .done s []
  | ":" :: _ => .done s []
  | "false" :: _ => .failed s 1 ""
  | "cd" :: path :: _ => s.changeDirectory line path
  | ["cat"] => s.cat "-"
  | "cat" :: paths => s.forEach paths cat
  | "cp" :: source :: target :: _ => s.copy source target
  | "rm" :: "-f" :: paths => { s.forEach paths remove with error := [] }
  | "rm" :: paths => s.forEach paths remove
  | "mkdir" :: paths => s.forEach paths makeDirectory
  | name :: _ => s.program line name

def assign? (s : State) (word : String) : Option State :=
  match word.toList.span (· ≠ '=') with
  | (name@(_ :: _), _ :: value) =>
    if name.all fun c ↦ c.isAlphanum || c = '_' then
      let binding := (String.ofList name, String.ofList value)
      some { s with bindings := binding :: s.bindings, status := 0 }
    else none
  | _ => none

/-- Runs a command with its streams going to targets. Words that all set variables are no
command. -/
def perform (s : State) (line : Nat) (words : List String) (out err : Target) : State :=
  match words.foldlM assign? s with
  | some s => s
  | none =>
    let e := s.command line words
    (e.state.send out e.output).send err e.error

/-- Runs a simple command: splits it into its words and the targets of its streams. -/
def simple (s : State) (line : Nat) : List Token → List String → Target → Target → State
  | [], words, out, err => s.perform line words out err
  | .operator ">&2" :: rest, words, _, err => s.simple line rest words err err
  | .operator "2>&1" :: rest, words, out, _ => s.simple line rest words out out
  | .operator "<" :: .word pieces _ :: rest, words, out, err =>
    let path := s.expand pieces
    match s.contents path with
    | .ok input => { s with input }.simple line rest words out err
    | .error _ => s.refuse line s!"cannot open {path}: No such file"
  | .operator sign :: .word pieces _ :: rest, words, out, err =>
    let path := s.expand pieces
    match s.openFile path (sign.endsWith ">>") with
    | .ok (s, target) =>
      if sign.startsWith "2" then s.simple line rest words out target
      else s.simple line rest words target err
    | .error flaw =>
      let why := match flaw with
        | .notFound => "Directory nonexistent"
        | .notDirectory => "Directory nonexistent"
        | flaw => flawText flaw
      s.refuse line s!"cannot create {path}: {why}"
  | .operator _ :: rest, words, out, err => s.simple line rest words out err
  | .word pieces _ :: rest, words, out, err =>
    s.simple line rest (words ++ s.fields pieces) out err

/-- Takes over what a shell started by another one did to the world: files and errors. -/
def after (s inner : State) : State :=
  { s with tree := inner.tree, error := inner.error, status := inner.status }

/-- Runs simple commands in shells of their own, each reading what the one before it wrote. -/
def pipeline (s : State) : List (Nat × List Token) → State
  | [] => s
  | [(line, command)] =>
    let inner := s.simple line command [] .output .error
    { s.after inner with output := inner.output }
  | (line, command) :: rest =>
    let inner := { s with output := [] }.simple line command [] .output .error
    { s.after inner with input := inner.output }.pipeline rest

end State

/-! ## Scripts -/

/-- The text of a token that is a word without variables. -/
def literal? : Token → Option String
  | .word pieces _ =>
    pieces.foldl (fun s p ↦ match s, p with
      | some s, .text t => some (s ++ t)
      | _, _ => none) (some "")
  | .operator _ => none

/-- Whether a token ends a command. -/
def isSeparator : Token → Bool
  | .operator sign => sign = ";" || sign = "&&" || sign = "||"
  | .word _ _ => false

/-- The parts of a command between the signs of pipes. -/
def stages (tokens : List Token) : List (List Token) :=
  tokens.splitOnP (· = .operator "|")

/-- The line of the first word. -/
def lineOf (tokens : List Token) : Nat :=
  (tokens.findSome? fun
    | .word _ line => some line
    | .operator _ => none).getD 1

/-- The body of a loop and what follows it. -/
def body : Nat → List Token → List Token × List Token
  | _, [] => ([], [])
  | depth, t :: rest =>
    match literal? t, depth with
    | some "done", 0 => ([], rest)
    | some "done", depth + 1 => let (b, r) := body depth rest; (t :: b, r)
    | some "for", depth => let (b, r) := body (depth + 1) rest; (t :: b, r)
    | _, depth => let (b, r) := body depth rest; (t :: b, r)

/-- Runs a script, skipping a command if an earlier one decides so. Every step uses up a token, so
`fuel` need not exceed the number of tokens. -/
def run : (fuel : Nat) → State → List Token → (skip : Bool) → State
  | 0, s, _, _ => s
  | _ + 1, s, [], _ => s
  | fuel + 1, s, t :: rest, skip =>
    if s.exited then s
    else
      match t, literal? t with
      | .operator "&&", _ => run fuel s rest (s.status ≠ 0)
      | .operator "||", _ => run fuel s rest (s.status = 0)
      | .operator ";", _ => run fuel s rest false
      | _, some "for" =>
        let (head, rest) := rest.span fun t ↦ !isSeparator t
        let name := (head.head?.bind literal?).getD ""
        let values := (head.drop 2).flatMap fun
          | .word pieces _ => s.fields pieces
          | .operator _ => []
        let (loop, rest) := body 0 ((rest.dropWhile isSeparator).drop 1)
        let s := if skip then s else values.foldl (fun s value ↦
          run fuel { s with bindings := (name, value) :: s.bindings } loop false) s
        run fuel s rest false
      | t, _ =>
        let (command, rest) := (t :: rest).span fun t ↦ !isSeparator t
        let s := if skip then s else
          match stages command with
          | [_] => { s.simple (lineOf command) command [] .output .error with input := s.input }
          | parts => { s.pipeline (parts.map fun part ↦ (lineOf part, part)) with input := s.input }
        run fuel s rest false

/-- A shell that has not run anything, given a name and the words after it. -/
def State.fresh (tree : FileTree) (directory : List String) (name : String)
    (words : List String) : State :=
  let numbered := (name :: words).zipIdx.map fun (word, n) ↦ (toString n, word)
  ⟨name, tree, directory, numbered, [], [], [], 0, false⟩

def runText (s : State) (script : String) : State :=
  match tokens? script with
  | some tokens => run (tokens.length + 1) s tokens false
  | none => s.refuse 1 "Syntax error: Unterminated quoted string"

/-- What a shell does with the words after its name. -/
def start (tree : FileTree) (directory : List String) (words : List String) : State :=
  match words with
  | "-c" :: script :: rest =>
    runText (.fresh tree directory (rest.head?.getD "sh") rest.tail) script
  | "-c" :: [] =>
    (State.fresh tree directory "sh" []).refuse 0 "-c requires an argument"
  | path :: rest =>
    let s := State.fresh tree directory "sh" []
    match s.contents path with
    | .ok octets =>
      runText (.fresh tree directory path rest) (String.ofList (Utf8.decodeLossy octets))
    | .error .isDirectory => s
    | .error _ => s.refuse 0 s!"cannot open {path}: No such file"
  | [] => .fresh tree directory "sh" []

/-- The commands of a host in memory. -/
def commands : Memory.Commands := fun tree words directory ↦
  match words with
  | "true" :: _ => (.finished 0 [] [], tree)
  | "false" :: _ => (.finished 1 [] [], tree)
  | "sh" :: words =>
    let s := start tree directory words
    (.finished s.status s.output s.error, s.tree)
  | program :: _ => (.noProgram .notFound program, tree)
  | [] => (.finished 0 [] [], tree)

/-- A host in memory with these commands. -/
def host (machine : Machine) : Host (StateM Memory) := Memory.host machine commands

end Shell

end Datapath
