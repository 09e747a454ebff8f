import Datapath.Host
import Datapath.Log
import Datapath.TimingReport

/-!
# Timing oracles

An oracle answers with the worst slack of the synthesised design, or with nothing. It may know the
answer, find it in a timing report, or first run a command that writes the report. A report or a
program that is not there is no failure: the log says what happened, and the answer is missing.
-/

namespace Datapath

/-- Where a slack comes from. -/
inductive Oracle where
  /-- It is known. -/
  | fixed (slack : Option Json)
  /-- It stands in a report. -/
  | report (path : PathName)
  /-- It stands in a report that a command writes, which may run in a directory of its own. -/
  | command (words : List String) (report : PathName) (directory : Option PathName)

namespace Oracle

/-- The part of the log that oracles leave. -/
def logSource : String := "hdlcheck.oracle"

/-- The oracle that runs a command. There must be one. -/
def ofCommand (words : List String) (report : PathName) (directory : Option PathName) :
    Except Mishap Oracle :=
  if words.isEmpty then .error .emptyCommand else .ok (.command words report directory)

/-- What an oracle answers, and what it logs. -/
structure Answer where
  /-- The slack, if there is one. -/
  slack : Except Mishap (Option Json)
  log : List LogEntry

/-- An answer that is missing, with a warning. -/
def missing (warning : String) : Answer := ⟨.ok none, [⟨.warning, logSource, warning⟩]⟩

/-- The answer in the text of a report. -/
def ofReport (path : PathName) (text : List Char) : Answer :=
  match TimingReport.worstSlack? text with
  | none => missing s!"no slack found in timing report {path.text}"
  | some slack =>
    ⟨.ok (some (.real slack)),
      [⟨.info, logSource, s!"oracle slack from {path.text}: {slack.toSignedRounded} ns"⟩]⟩

/-- The last lines that a command wrote, on the error output if there are any. -/
def lastLines (output error : List Char) : List String :=
  let text := if error.isEmpty then output else error
  let lines := (Text.lines (Text.strip text)).map String.ofList
  lines.drop (lines.length - 5)

/-- The warning about a command that ended with a status other than zero. -/
def statusWarning (status : Int) (output error : List Char) : String :=
  let tail := match lastLines output error with
    | [] => ""
    | lines => ": " ++ " | ".intercalate lines
  s!"synthesis oracle exited with status {status}" ++ tail

/-- The warning about a command that could not be started. -/
def startWarning (flaw : FileFlaw) (subject : String) : String :=
  s!"synthesis oracle could not be started: {flaw.message}: {subject}"

variable {m : Type → Type} [Monad m] (host : Host m)

/-- The answer in a report. -/
def readReport (path : PathName) : m Answer := do
  match ← host.leadsTo .file path with
  | .error cause => return ⟨.error cause, []⟩
  | .ok false => return missing s!"timing report not found: {path.text}"
  | .ok true =>
    match ← host.readLossyText path with
    | .error cause => return ⟨.error cause, []⟩
    | .ok text => return ofReport path text

/-- Whether the null character stands in a command or in the directory to run it in. -/
def hasNull (words : List String) (directory : Option PathName) : Bool :=
  words.any (·.toList.contains '\x00') || directory.any (·.hasNull)

/-- The answer of a command. What it wrote must be text, also if nobody gets to see it. -/
def runCommand (words : List String) (report : PathName) (directory : Option PathName) :
    m Answer := do
  if hasNull words directory then return ⟨.error .nullInPath, []⟩
  match ← host.runCommand words directory with
  | .noProgram flaw program => return missing (startWarning flaw (Text.quoted program))
  | .noDirectory flaw directory =>
    return missing (startWarning flaw s!"PosixPath({directory.quoted})")
  | .finished status output error =>
    match do return (← Host.textOf output, ← Host.textOf error) with
    | .error cause => return ⟨.error cause, []⟩
    | .ok (output, error) =>
      if status = 0 then readReport host (directory.elim report (·.under report))
      else return missing (statusWarning status output error)

def answer : Oracle → m Answer
  | .fixed slack => return ⟨.ok slack, []⟩
  | .report path => readReport host path
  | .command words path directory => do
    let started : LogEntry :=
      ⟨.info, logSource, "running synthesis oracle: " ++ " ".intercalate words⟩
    let answer ← runCommand host words path directory
    return { answer with log := started :: answer.log }

end Oracle

end Datapath
