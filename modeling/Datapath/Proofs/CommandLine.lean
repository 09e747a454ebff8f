import Datapath.CommandLine.Run
import Datapath.Proofs.Host

/-!
# Runs leave files alone

A command line is carried out on an arbitrary host. On a host in memory one can say what becomes of
the files. A run reads whatever it needs, but it changes files only where the command line asks for
it: to save the result, or through the command of an oracle. Without these the files are what they
were, whatever else happens; with them they are edited.

## Properties that are kept

Both are of the form that a property of the memory is kept. It is enough that the single operations
of the host keep it, and `Keeps` passes through the ways in which a run is put together.
-/

namespace Datapath

open CommandLine

/-- An action keeps a property of the memory. -/
def Keeps {α : Type} (P : Memory → Prop) (x : StateM Memory α) : Prop := ∀ w, P w → P (x.run w).2

variable {P : Memory → Prop} {α β : Type} {host : Host (StateM Memory)}

namespace Keeps

theorem pure (a : α) : Keeps P (Pure.pure a) := fun _ h ↦ h

theorem bind {x : StateM Memory α} {f : α → StateM Memory β} (hx : Keeps P x)
    (hf : ∀ a, Keeps P (f a)) : Keeps P (x >>= f) :=
  fun w h ↦ hf _ _ (hx w h)

theorem get {f : Memory → StateM Memory α} (h : ∀ w, P w → P ((f w).run w).2) :
    Keeps P (MonadState.get >>= f) := h

/-- A step that fails is the last one. -/
theorem step {x : Step (StateM Memory) α} {f : α → Step (StateM Memory) β} (hx : Keeps P x.run)
    (hf : ∀ a, Keeps P (f a).run) : Keeps P (x >>= f).run := by
  rw [ExceptT.run_bind]
  refine hx.bind fun outcome ↦ ?_
  cases outcome with
  | ok a => exact hf a
  | error e => exact .pure _

private theorem stepMap {x : Step (StateM Memory) α} (f : α → β) (hx : Keeps P x.run) :
    Keeps P (f <$> x).run := by
  rw [ExceptT.run_map]
  exact hx

theorem lift {x : StateM Memory α} (hx : Keeps P x) :
    Keeps P (ExceptT.lift x : Step (StateM Memory) α).run :=
  hx.bind fun _ ↦ .pure _

end Keeps

/-- What a host is asked and what it shows keep a property. -/
structure Host.Reads (host : Host (StateM Memory)) (P : Memory → Prop) : Prop where
  readFile : ∀ path, Keeps P (host.readFile path)
  look : ∀ path, Keeps P (host.look path)
  workingDirectory : Keeps P host.workingDirectory
  home : ∀ user, Keeps P (host.home user)
  print : ∀ text, Keeps P (host.print text)
  complain : ∀ line, Keeps P (host.complain line)

/-- Files and directories that a host makes keep a property. -/
structure Host.Writes (host : Host (StateM Memory)) (P : Memory → Prop) : Prop where
  writeFile : ∀ path text, Keeps P (host.writeFile path text)
  makeDirectory : ∀ path, Keeps P (host.makeDirectory path)

namespace Host

theorem Reads.leadsTo (h : host.Reads P) (kind : EntryKind) (path : PathName) :
    Keeps P (host.leadsTo kind path) := by
  rw [Host.leadsTo]
  split_ifs
  · exact .pure _
  · refine (h.look path).bind fun outcome ↦ ?_
    split <;> exact .pure _

theorem Reads.readOctets (h : host.Reads P) (path : PathName) : Keeps P (host.readOctets path) := by
  rw [Host.readOctets]
  split_ifs
  · exact .pure _
  · exact (h.readFile path).bind fun _ ↦ .pure _

theorem Reads.expandHome (h : host.Reads P) (path : PathName) : Keeps P (host.expandHome path) := by
  rw [Host.expandHome]
  split
  · split
    · refine (h.home _).bind fun found ↦ ?_
      cases found <;> exact .pure _
    · exact .pure _
  · exact .pure _

theorem Writes.makeDirectories (h : host.Writes P) (hreads : host.Reads P) (root : String)
    (parts : List String) : Keeps P (host.makeDirectories root parts) := by
  induction parts with
  | nil => exact .pure _
  | cons part rest ih =>
    -- a directory that cannot be made may be there already
    unfold Host.makeDirectories
    extract_lets path settle
    have hsettle (outcome : Except FileFlaw Unit) : Keeps P (settle outcome) := by
      cases outcome with
      | ok => exact .pure _
      | error flaw =>
        refine (hreads.leadsTo .directory path).bind fun found ↦ ?_
        split <;> exact .pure _
    refine (h.makeDirectory path).bind fun outcome ↦ ?_
    split
    · refine ih.bind fun made ↦ ?_
      cases made with
      | ok => exact (h.makeDirectory path).bind hsettle
      | error cause => exact .pure _
    · exact hsettle _

theorem Writes.save (h : host.Writes P) (hreads : host.Reads P) (path : PathName) (text : String) :
    Keeps P (host.save path text) := by
  refine (hreads.expandHome path).bind fun expanded ↦ ?_
  cases expanded with
  | error cause => exact .pure _
  | ok path =>
    dsimp only
    split_ifs
    · exact .pure _
    · refine hreads.workingDirectory.bind fun directory ↦ ?_
      refine (h.makeDirectories hreads _ _).bind fun made ↦ ?_
      cases made with
      | error cause => exact .pure _
      | ok => exact (h.writeFile _ text).bind fun _ ↦ .pure _

end Host

/-! ## Oracles -/

theorem Oracle.keeps_readReport (h : host.Reads P) (path : PathName) :
    Keeps P (readReport host path) := by
  refine (h.leadsTo .file path).bind fun found ↦ ?_
  split
  · exact .pure _
  · exact .pure _
  · refine Keeps.bind ((h.readOctets path).bind fun _ ↦ .pure _) fun text ↦ ?_
    split <;> exact .pure _

theorem Oracle.keeps_answer (h : host.Reads P) {oracle : Oracle}
    (hcommand : ∀ words report directory, oracle = .command words report directory →
      Keeps P (host.runCommand words directory)) : Keeps P (oracle.answer host) := by
  cases oracle with
  | fixed slack => exact .pure _
  | report path => exact keeps_readReport h path
  | command words report directory =>
    refine Keeps.bind ?_ fun _ ↦ .pure _
    rw [runCommand]
    split_ifs
    · exact .pure _
    · refine (hcommand words report directory rfl).bind fun outcome ↦ ?_
      split
      · exact .pure _
      · exact .pure _
      · split
        · exact .pure _
        · split_ifs
          · exact keeps_readReport h _
          · exact .pure _

/-! ## Steps of a run -/

namespace CommandLine

variable {verbosity : Nat} {r : Request}

/-- A request asks for the result in a file. -/
def Request.Saves (r : Request) : Prop := ∃ path, r.output = .str path ∧ path ≠ "-"

/-- A request asks for a command to be run. -/
def Request.Runs (r : Request) (words : List String) (directory : Option PathName) : Prop :=
  ∃ report, buildOracle r = .ok (some (.command words report directory))

/-- Whatever a request asks a host for keeps a property. -/
structure Serves (host : Host (StateM Memory)) (P : Memory → Prop) (r : Request) : Prop where
  reads : host.Reads P
  writes : r.Saves → host.Writes P
  commands : ∀ words directory, r.Runs words directory → Keeps P (host.runCommand words directory)

theorem keeps_showEntry (h : host.Reads P) (entry : LogEntry) :
    Keeps P (showEntry host verbosity entry) := by
  rw [showEntry]
  split_ifs
  · exact h.complain _
  · exact .pure _

theorem keeps_log (h : host.Reads P) (entries : List LogEntry) :
    Keeps P (log host verbosity entries).run := by
  refine Keeps.lift ?_
  induction entries with
  | nil => exact .pure _
  | cons entry entries ih => exact (keeps_showEntry h entry).bind fun _ ↦ ih

theorem keeps_attempt {x : StateM Memory (Except Mishap α)} (h : Keeps P x) :
    Keeps P (attempt x).run :=
  h.bind fun _ ↦ .pure _

theorem keeps_settled {ε : Type} (wrap : ε → Failure) (outcome : Except ε α) :
    Keeps P (settled wrap outcome : Step (StateM Memory) α).run :=
  .pure _

theorem keeps_readDocument (h : host.Reads P) (path : PathName) (bad : Json.ReadError → Failure) :
    Keeps P (readDocument host path bad).run :=
  .step (keeps_attempt ((h.readOctets path).bind fun _ ↦ .pure _)) fun _ ↦ keeps_settled _ _

theorem keeps_loadGraph (h : host.Reads P) : Keeps P (loadGraph host verbosity r).run := by
  refine .step (keeps_attempt (h.expandHome _)) fun path ↦ ?_
  refine .step (keeps_attempt (h.leadsTo .file path)) fun found ↦ ?_
  split_ifs
  · refine .step (keeps_log h _) fun _ ↦ ?_
    exact .step (keeps_readDocument h path _) fun _ ↦ keeps_settled _ _
  · exact .pure _

private theorem keeps_readConfig (h : host.Reads P) (path : PathName) :
    Keeps P (readConfig host path).run := by
  refine .step ?_ fun document ↦ ?_
  · exact (keeps_readDocument h path _).bind fun _ ↦ .pure _
  · split
    · refine .step (keeps_settled _ _) fun config ↦ ?_
      exact .step (keeps_settled _ _) fun warnings ↦ .pure _
    · exact .pure _

theorem keeps_buildConfig (h : host.Reads P) : Keeps P (buildConfig host verbosity r).run := by
  -- with or without a file, what was read is logged and overridden by the request
  unfold buildConfig
  extract_lets rest
  have hrest (read : Config × List LogEntry) : Keeps P (rest read).run := by
    refine .step (keeps_log h _) fun _ ↦ ?_
    refine .step (keeps_settled _ _) fun config ↦ ?_
    refine .step (keeps_settled _ _) fun warnings ↦ ?_
    exact .step (keeps_log h _) fun _ ↦ .pure _
  split
  · exact .step (keeps_readConfig h _) hrest
  · exact .step (.pure _) hrest

theorem keeps_writeResult (h : Serves host P r) (text : String) :
    Keeps P (writeResult host r text).run := by
  rw [writeResult]
  split
  · exact .lift (h.reads.print _)
  · exact .lift (h.reads.print _)
  · next path hne houtput =>
    exact keeps_attempt ((h.writes ⟨path, houtput, hne⟩).save h.reads _ _)
  · exact .pure _

/-! ## Actions -/

private theorem keeps_askOracle (h : Serves host P r) {oracle : Option Oracle}
    (horacle : buildOracle r = .ok oracle) : Keeps P (askOracle host verbosity oracle).run := by
  -- with or without an oracle, its answer is logged and checked
  unfold askOracle
  extract_lets rest
  have hrest (answer : Oracle.Answer) : Keeps P (rest answer).run := by
    refine .step (keeps_log h.reads _) fun _ ↦ ?_
    refine .step (keeps_settled _ _) fun slack ↦ ?_
    dsimp only
    split_ifs
    · exact .step (keeps_log h.reads _) fun _ ↦ .pure _
    · exact .pure _
  split
  · exact .step (.pure _) hrest
  · refine .step (.lift (Oracle.keeps_answer h.reads ?_)) hrest
    rintro words report directory rfl
    exact h.commands words directory ⟨report, horacle⟩

private theorem keeps_decideGate (h : Serves host P r) (a : Assessment) :
    Keeps P (decideGate host verbosity a r).run := by
  refine .step ?_ fun outcome ↦ ?_
  · rw [AssessmentOf.gate]
    cases a.early with
    | some decision => exact .pure _
    | none =>
      refine .stepMap _ ?_
      cases horacle : buildOracle r with
      | error failure => exact .pure _
      | ok oracle => exact keeps_askOracle h horacle
  · refine .step (keeps_settled _ _) fun decision ↦ ?_
    dsimp only
    split_ifs
    · exact .step (keeps_log h.reads _) fun _ ↦ .pure _
    · exact .pure _

private theorem keeps_analyze (h : Serves host P r) : Keeps P (analyze host verbosity r).run := by
  refine .step (keeps_buildConfig h.reads) fun config ↦ ?_
  refine .step (keeps_loadGraph h.reads) fun g ↦ ?_
  split
  · exact .step (keeps_log h.reads _) fun _ ↦ .pure _
  · refine .step (keeps_log h.reads _) fun _ ↦ ?_
    refine .step (keeps_decideGate h _) fun decision ↦ ?_
    refine .step (keeps_settled _ _) fun text ↦ ?_
    exact .step (keeps_writeResult h text) fun _ ↦ .pure _

private theorem keeps_showWidths (h : Serves host P r) :
    Keeps P (showWidths host verbosity r).run := by
  refine .step (keeps_buildConfig h.reads) fun config ↦ ?_
  refine .step (keeps_loadGraph h.reads) fun _ ↦ ?_
  refine .step (keeps_settled _ _) fun g ↦ ?_
  refine .step (keeps_settled _ _) fun layout ↦ ?_
  refine .step (keeps_settled _ _) fun tuning ↦ ?_
  split
  · exact .step (keeps_log h.reads _) fun _ ↦ .pure _
  · refine .step (keeps_log h.reads _) fun _ ↦ ?_
    exact .step (keeps_writeResult h _) fun _ ↦ .pure _

private theorem keeps_showDepth (h : Serves host P r) :
    Keeps P (showDepth host verbosity r).run := by
  refine .step (keeps_buildConfig h.reads) fun config ↦ ?_
  refine .step (keeps_loadGraph h.reads) fun _ ↦ ?_
  refine .step (keeps_settled _ _) fun g ↦ ?_
  refine .step (keeps_settled _ _) fun table ↦ ?_
  refine .step (keeps_settled _ _) fun platform ↦ ?_
  refine .step (keeps_settled _ _) fun severity ↦ ?_
  refine .step (keeps_settled _ _) fun depth ↦ ?_
  refine .step (keeps_log h.reads _) fun _ ↦ ?_
  exact .step (keeps_writeResult h _) fun _ ↦ .pure _

private theorem keeps_showDrawing (h : Serves host P r) :
    Keeps P (showDrawing host verbosity r).run := by
  refine .step (keeps_loadGraph h.reads) fun _ ↦ ?_
  refine .step (keeps_settled _ _) fun g ↦ ?_
  exact .step (keeps_writeResult h _) fun _ ↦ .pure _

private theorem keeps_perform (h : Serves host P r) : Keeps P (perform host verbosity r).run := by
  rw [perform]
  cases r.action with
  | analyze => exact keeps_analyze h
  | widths => exact keeps_showWidths h
  | depth => exact keeps_showDepth h
  | dot => exact keeps_showDrawing h

/-- A run keeps a property that whatever is asked of the host keeps. -/
theorem keeps_run {arguments : List String} (h : host.Reads P)
    (hserves : ∀ verbosity r, order arguments = .carryOut verbosity r → Serves host P r) :
    Keeps P (run host arguments) := by
  rw [run]
  split
  · next verbosity r horder =>
    refine (keeps_perform (hserves verbosity r horder)).bind fun outcome ↦ ?_
    cases outcome with
    | ok status => exact .pure _
    | error failure => exact (keeps_showEntry h _).bind fun _ ↦ .pure _
  · exact (h.complain _).bind fun _ ↦ .pure _
  · unfold runStop
    split
    · exact (h.complain _).bind fun _ ↦ (h.complain _).bind fun _ ↦ .pure _
    · exact (h.print _).bind fun _ ↦ .pure _
    · exact (h.print _).bind fun _ ↦ .pure _

/-! ## Hosts in memory -/

variable {machine : Machine} {commands : Memory.Commands}

theorem reads_tree (Q : FileTree → Prop) :
    (Memory.host machine commands).Reads fun w ↦ Q w.tree where
  readFile _ := fun _ h ↦ h
  look _ := fun _ h ↦ h
  workingDirectory := fun _ h ↦ h
  home _ := fun _ h ↦ h
  print _ := fun _ h ↦ h
  complain _ := fun _ h ↦ h

/-- **A run that is not asked to write leaves the files as they were**, whether it succeeds or
not. -/
theorem run_tree_eq {arguments : List String}
    (hsaves : ∀ verbosity r, order arguments = .carryOut verbosity r → ¬ r.Saves)
    (hruns : ∀ verbosity r, order arguments = .carryOut verbosity r →
      ∀ words directory, ¬ r.Runs words directory) (w : Memory) :
    ((run (Memory.host machine commands) arguments).run w).2.tree = w.tree := by
  have hreads : (Memory.host machine commands).Reads fun w' ↦ w'.tree = w.tree :=
    reads_tree (· = w.tree)
  refine keeps_run hreads (fun verbosity r horder ↦ ⟨hreads, ?_, ?_⟩) w rfl
  · exact fun hsave ↦ absurd hsave (hsaves verbosity r horder)
  · exact fun words directory hrun ↦ absurd hrun (hruns verbosity r horder words directory)

theorem edited_change {t : FileTree} (path : PathName)
    {f : FileTree → List String → Except FileFlaw FileTree}
    (hf : ∀ {u u' place}, f u place = .ok u' → u.Edited u') :
    Keeps (fun w ↦ t.Edited w.tree) (Memory.change path f) := by
  refine .get fun w h ↦ ?_
  split
  · next u hchange =>
    obtain ⟨place, -, hu⟩ := Outcome.bind_eq_ok.mp hchange
    exact h.trans (hf hu)
  · exact h

private theorem edited_runCommand {t : FileTree} (hcommands : ∀ (tree : FileTree) words directory,
    tree.Edited (commands tree words directory).2) (words : List String)
    (directory : Option PathName) :
    Keeps (fun w ↦ t.Edited w.tree) (Memory.runCommand commands words directory) := by
  refine .get fun w h ↦ ?_
  dsimp only
  split
  · exact h
  · split
    · exact h
    · exact h
    · split
      · exact h
      · exact h.trans (hcommands _ _ _)

/-- **A run edits the files**, if that is all that commands do to them. -/
theorem run_edited (hcommands : ∀ (tree : FileTree) words directory,
    tree.Edited (commands tree words directory).2) (arguments : List String) (w : Memory) :
    w.tree.Edited ((run (Memory.host machine commands) arguments).run w).2.tree := by
  have hreads : (Memory.host machine commands).Reads fun w' ↦ w.tree.Edited w'.tree :=
    reads_tree w.tree.Edited
  refine keeps_run hreads (fun verbosity r _ ↦ ⟨hreads, fun _ ↦ ⟨?_, ?_⟩, ?_⟩) w .refl
  · exact fun path text ↦ edited_change path fun hwrite ↦ .write .refl hwrite
  · exact fun path ↦ edited_change path fun hmake ↦ .makeDirectory .refl hmake
  · exact fun words directory _ ↦ edited_runCommand hcommands words directory

/-- A run on a host with a shell leaves the files in order, whatever scripts it comes to. -/
theorem run_sound (arguments : List String) {w : Memory} (h : w.tree.Sound) :
    ((run (Shell.host machine) arguments).run w).2.tree.Sound :=
  (run_edited Shell.edited_commands arguments w).sound h

end CommandLine

end Datapath
