import Datapath.Host.Shell
import Datapath.Proofs.Outcome
import Mathlib.Data.List.Nodup

/-!
# What happens to files

The files of a host in memory are changed in three ways: a file is written, a directory is made, a
file is removed. `FileTree.Edited` says that one tree comes from another in this way, however often.
Whatever a shell does to the files is of this kind, for every script.

A tree of files should be *sound*: every file and every directory lies in a directory, and nothing
is in one place twice. Edits keep trees sound, and they never make a directory disappear.
-/

namespace Datapath

namespace FileTree

variable {t u u' : FileTree} {place other : List String} {octets : List Nat}

/-! ## Edits -/

/-- A tree comes from another by writing and removing files and by making directories. -/
inductive Edited (t : FileTree) : FileTree → Prop
  /-- Nothing has happened. -/
  | refl : Edited t t
  | write {u u' : FileTree} {place : List String} {octets : List Nat} :
    Edited t u → u.write place octets = .ok u' → Edited t u'
  | makeDirectory {u u' : FileTree} {place : List String} :
    Edited t u → u.makeDirectory place = .ok u' → Edited t u'
  | remove {u : FileTree} (place : List String) :
    Edited t u → Edited t { u with files := u.files.filter (·.1 ≠ place) }

theorem Edited.trans (h : Edited t u) (h' : Edited u u') : Edited t u' := by
  induction h' with
  | refl => exact h
  | write _ hwrite ih => exact ih.write hwrite
  | makeDirectory _ hmake ih => exact ih.makeDirectory hmake
  | remove place _ ih => exact ih.remove place

theorem entry_eq_directory_iff :
    t.entry place = .directory ↔ place = [] ∨ place ∈ t.directories := by
  rw [entry]
  split_ifs with h
  · simpa using h
  · have hnone : ¬ (place = [] ∨ place ∈ t.directories) := by simpa using h
    cases t.files.lookup place <;> simp [hnone]

private theorem entry_ne_missing {file : List String × List Nat} (h : file ∈ t.files) :
    t.entry file.1 ≠ .missing := by
  rw [entry]
  split_ifs
  · nofun
  · cases hlookup : t.files.lookup file.1 with
    | some octets => nofun
    | none => exact absurd (List.lookup_eq_none_iff.mp hlookup file h) (by simp)

theorem checkParent_eq_ok_iff :
    t.checkParent place = .ok () ↔ t.entry place.dropLast = .directory := by
  rw [checkParent]
  cases t.entry place.dropLast <;> simp

theorem write_eq_ok (h : t.write place octets = .ok u) :
    t.entry place.dropLast = .directory ∧ t.entry place ≠ .directory ∧
      u = { t with files := t.files.filter (·.1 ≠ place) ++ [(place, octets)] } := by
  obtain ⟨_, hparent, h⟩ := Outcome.bind_eq_ok.mp h
  refine ⟨checkParent_eq_ok_iff.mp hparent, ?_⟩
  cases hentry : t.entry place with
  | directory =>
    rw [hentry] at h
    cases h
  | missing =>
    rw [hentry] at h
    exact ⟨nofun, (Except.ok.inj h).symm⟩
  | file octets' =>
    rw [hentry] at h
    exact ⟨nofun, (Except.ok.inj h).symm⟩

theorem makeDirectory_eq_ok (h : t.makeDirectory place = .ok u) :
    t.entry place.dropLast = .directory ∧ t.entry place = .missing ∧
      u = { t with directories := t.directories ++ [place] } := by
  obtain ⟨_, hparent, h⟩ := Outcome.bind_eq_ok.mp h
  refine ⟨checkParent_eq_ok_iff.mp hparent, ?_⟩
  cases hentry : t.entry place with
  | missing =>
    rw [hentry] at h
    exact ⟨rfl, (Except.ok.inj h).symm⟩
  | directory =>
    rw [hentry] at h
    cases h
  | file octets =>
    rw [hentry] at h
    cases h

theorem Edited.directories_subset (h : Edited t u) : t.directories ⊆ u.directories := by
  induction h with
  | refl => exact List.Subset.refl _
  | write _ hwrite ih =>
    obtain ⟨-, -, rfl⟩ := write_eq_ok hwrite
    exact ih
  | makeDirectory _ hmake ih =>
    obtain ⟨-, -, rfl⟩ := makeDirectory_eq_ok hmake
    exact List.Subset.trans ih (List.subset_append_left _ _)
  | remove _ _ ih => exact ih

/-! ## Sound trees -/

/-- Everything lies in a directory, and nothing is in one place twice. -/
structure Sound (t : FileTree) : Prop where
  directory_parent : ∀ place ∈ t.directories, t.entry place.dropLast = .directory
  file_parent : ∀ file ∈ t.files, t.entry file.1.dropLast = .directory
  places_nodup : (t.files.map (·.1)).Nodup
  file_ne_directory : ∀ file ∈ t.files, t.entry file.1 ≠ .directory

theorem sound_empty : empty.Sound := ⟨nofun, nofun, List.nodup_nil, nofun⟩

theorem entry_of_directories_eq (h : u.directories = t.directories) :
    u.entry place = .directory ↔ t.entry place = .directory := by
  rw [entry_eq_directory_iff, entry_eq_directory_iff, h]

theorem Sound.write (h : t.Sound) (hwrite : t.write place octets = .ok u) : u.Sound := by
  obtain ⟨hparent, hplace, rfl⟩ := write_eq_ok hwrite
  have hentry {other : List String} : entry { t with
      files := t.files.filter (·.1 ≠ place) ++ [(place, octets)] } other = .directory ↔
        t.entry other = .directory := entry_of_directories_eq rfl
  have hkept {file : List String × List Nat} (hfile : file ∈ t.files.filter (·.1 ≠ place)) :
      file ∈ t.files := (List.mem_filter.mp hfile).1
  refine ⟨fun other hother ↦ hentry.mpr (h.directory_parent other hother), ?_, ?_, ?_⟩
  · rw [List.forall_mem_append, List.forall_mem_singleton]
    exact ⟨fun file hfile ↦ hentry.mpr (h.file_parent file (hkept hfile)), hentry.mpr hparent⟩
  · rw [List.map_append, List.map_singleton, ← List.concat_eq_append]
    refine List.Nodup.concat ?_ (h.places_nodup.sublist (List.filter_sublist.map _))
    simp
  · rw [List.forall_mem_append, List.forall_mem_singleton]
    exact ⟨fun file hfile ↦ hentry.not.mpr (h.file_ne_directory file (hkept hfile)),
      hentry.not.mpr hplace⟩

theorem Sound.makeDirectory (h : t.Sound) (hmake : t.makeDirectory place = .ok u) : u.Sound := by
  obtain ⟨hparent, hplace, rfl⟩ := makeDirectory_eq_ok hmake
  have hentry {other : List String} (hother : t.entry other = .directory) :
      entry { t with directories := t.directories ++ [place] } other = .directory := by
    rw [entry_eq_directory_iff] at hother ⊢
    exact hother.imp_right (List.mem_append_left _)
  refine ⟨?_, fun file hfile ↦ hentry (h.file_parent file hfile), h.places_nodup, ?_⟩
  · rw [List.forall_mem_append, List.forall_mem_singleton]
    exact ⟨fun other hother ↦ hentry (h.directory_parent other hother), hentry hparent⟩
  · intro file hfile hdirectory
    rw [entry_eq_directory_iff, List.mem_append, List.mem_singleton, ← or_assoc,
      ← entry_eq_directory_iff] at hdirectory
    rcases hdirectory with hold | rfl
    · exact h.file_ne_directory file hfile hold
    · exact entry_ne_missing (show file ∈ t.files from hfile) hplace

theorem Sound.remove (h : t.Sound) (place : List String) :
    Sound { t with files := t.files.filter (·.1 ≠ place) } := by
  have hentry {other : List String} :
      entry { t with files := t.files.filter (·.1 ≠ place) } other = .directory ↔
        t.entry other = .directory := entry_of_directories_eq rfl
  have hkept {file : List String × List Nat} (hfile : file ∈ t.files.filter (·.1 ≠ place)) :
      file ∈ t.files := (List.mem_filter.mp hfile).1
  exact ⟨fun other hother ↦ hentry.mpr (h.directory_parent other hother),
    fun file hfile ↦ hentry.mpr (h.file_parent file (hkept hfile)),
    h.places_nodup.sublist (List.filter_sublist.map _),
    fun file hfile ↦ hentry.not.mpr (h.file_ne_directory file (hkept hfile))⟩

/-- **Edits keep a tree sound.** -/
theorem Edited.sound (h : Edited t u) (ht : t.Sound) : u.Sound := by
  induction h with
  | refl => exact ht
  | write _ hwrite ih => exact ih.write hwrite
  | makeDirectory _ hmake ih => exact ih.makeDirectory hmake
  | remove place _ ih => exact ih.remove place

end FileTree

/-! ## Shells -/

namespace Shell

namespace State

variable {s s' : State} {t : FileTree}

theorem edited_put {path : String} {octets : List Nat} (h : s.put path octets = .ok s') :
    s.tree.Edited s'.tree := by
  obtain ⟨place, -, h⟩ := Outcome.bind_eq_ok.mp h
  obtain ⟨u, hu, h⟩ := Outcome.bind_eq_ok.mp h
  cases h
  exact .write .refl hu

theorem edited_send (s : State) (target : Target) (octets : List Nat) :
    s.tree.Edited (s.send target octets).tree := by
  cases target with
  | output => exact .refl
  | error => exact .refl
  | nothing => exact .refl
  | file place =>
    rw [send]
    cases hwrite : s.tree.write place ((s.tree.read place).toOption.getD [] ++ octets) with
    | error flaw => exact .refl
    | ok u => exact .write .refl hwrite

theorem edited_openFile {path : String} {append : Bool} {target : Target}
    (h : s.openFile path append = .ok (s', target)) : s.tree.Edited s'.tree := by
  rw [openFile] at h
  split at h
  case isTrue =>
    cases h
    exact .refl
  case isFalse =>
    obtain ⟨opened, hopened, h⟩ := Outcome.bind_eq_ok.mp h
    obtain ⟨place, -, h⟩ := Outcome.bind_eq_ok.mp h
    cases h
    exact edited_put hopened

theorem edited_cat (s : State) (path : String) : s.tree.Edited (s.cat path).state.tree := by
  rw [cat]
  split_ifs
  · exact .refl
  · cases s.contents path <;> exact .refl

private theorem edited_copy (s : State) (source target : String) :
    s.tree.Edited (s.copy source target).state.tree := by
  unfold copy
  extract_lets path
  split
  · exact .refl
  · exact .refl
  · next octets _ =>
    cases hput : s.put path octets with
    | error flaw => exact .refl
    | ok s' =>
      have hedited := edited_put hput
      exact hedited

theorem edited_remove (s : State) (path : String) : s.tree.Edited (s.remove path).state.tree := by
  rw [remove]
  split
  · exact .remove _ .refl
  · exact .refl
  · exact .refl

private theorem edited_makeDirectory (s : State) (path : String) :
    s.tree.Edited (s.makeDirectory path).state.tree := by
  rw [makeDirectory]
  split
  · next tree h =>
    obtain ⟨place, -, h⟩ := Outcome.bind_eq_ok.mp h
    exact .makeDirectory .refl h
  · exact .refl

theorem edited_forEach (s : State) (paths : List String) {f : State → String → Effect}
    (hf : ∀ (s : State) (path : String), s.tree.Edited (f s path).state.tree) :
    s.tree.Edited (s.forEach paths f).state.tree := by
  rw [forEach]
  suffices h : ∀ e : Effect, e.state.tree.Edited (paths.foldl
      (fun e path ↦ e.andThen fun s ↦ f s path) e).state.tree from h (.done s [])
  induction paths with
  | nil => exact fun _ ↦ .refl
  | cons path paths ih =>
    intro e
    have hfirst := hf { e.state with status := 0 } path
    exact hfirst.trans (ih (e.andThen fun s ↦ f s path))

private theorem edited_command (s : State) (line : Nat) (words : List String) :
    s.tree.Edited (s.command line words).state.tree := by
  unfold command
  split
  -- ending the shell and going to another directory change its state, but no file
  case h_5 word rest =>
    rw [exitWith]
    cases word.toNat? <;> exact .refl
  case h_11 path rest =>
    rw [changeDirectory]
    cases s.directoryAt? path <;> exact .refl
  -- files are shown, copied and removed, and directories are made
  case h_12 => exact s.edited_cat _
  case h_13 => exact s.edited_forEach _ edited_cat
  case h_14 => exact s.edited_copy _ _
  case h_15 => exact s.edited_forEach _ edited_remove
  case h_16 => exact s.edited_forEach _ edited_remove
  case h_17 => exact s.edited_forEach _ edited_makeDirectory
  -- no other program does anything
  case h_18 =>
    rw [program]
    split <;> exact .refl
  all_goals exact .refl

private theorem tree_assign? {word : String} (h : s.assign? word = some s') : s'.tree = s.tree := by
  rw [assign?] at h
  split at h
  · split_ifs at h
    cases h
    rfl
  · cases h

private theorem tree_assigns {words : List String} (h : words.foldlM assign? s = some s') :
    s'.tree = s.tree := by
  induction words generalizing s with
  | nil =>
    cases h
    rfl
  | cons word words ih =>
    rw [List.foldlM_cons, Option.bind_eq_bind, Option.bind_eq_some_iff] at h
    obtain ⟨s₁, hfirst, hrest⟩ := h
    rw [ih hrest, tree_assign? hfirst]

private theorem edited_perform (s : State) (line : Nat) (words : List String) (out err : Target) :
    s.tree.Edited (s.perform line words out err).tree := by
  rw [perform]
  cases hassigns : words.foldlM assign? s with
  | some s' =>
    simp only [tree_assigns hassigns]
    exact .refl
  | none =>
    have hcommand := s.edited_command line words
    exact (hcommand.trans (edited_send _ _ _)).trans (edited_send _ _ _)

theorem edited_refuse (s : State) (line : Nat) (message : String) :
    s.tree.Edited (s.refuse line message).tree :=
  edited_send { s with status := 2 } .error _

theorem edited_simple (s : State) (line : Nat) (tokens : List Token) (words : List String)
    (out err : Target) : s.tree.Edited (s.simple line tokens words out err).tree := by
  fun_induction simple s line tokens words out err
  case case1 => exact edited_perform _ _ _ _ _
  case case5 => exact edited_refuse _ _ _
  -- a file is opened for one of the two streams, and what is left of the command comes after that
  case case6 hopen _ ih => exact (edited_openFile hopen).trans ih
  case case7 hopen _ ih => exact (edited_openFile hopen).trans ih
  case case8 => exact edited_refuse _ _ _
  all_goals assumption

private theorem edited_pipeline (s : State) (commands : List (Nat × List Token)) :
    s.tree.Edited (s.pipeline commands).tree := by
  fun_induction pipeline s commands
  case case1 => exact .refl
  case case2 => exact edited_simple _ _ _ _ _ _
  case case3 s _ _ _ _ inner ih => exact (edited_simple { s with output := [] } _ _ _ _ _).trans ih

end State

private theorem edited_run (fuel : Nat) (s : State) (tokens : List Token) (skip : Bool) :
    s.tree.Edited (run fuel s tokens skip).tree := by
  induction fuel generalizing s tokens skip with
  | zero => exact .refl
  | succ fuel ih =>
    -- the body of a loop runs once for each value, in the state that the last one left
    have hloop (name : String) (loop : List Token) (values : List String) (s : State) :
        s.tree.Edited (values.foldl (fun s value ↦
          run fuel { s with bindings := (name, value) :: s.bindings } loop false) s).tree := by
      induction values generalizing s with
      | nil => exact .refl
      | cons value values ihvalues =>
        have hfirst := ih { s with bindings := (name, value) :: s.bindings } loop false
        exact hfirst.trans (ihvalues _)
    cases tokens with
    | nil => exact .refl
    | cons t rest =>
      unfold run
      by_cases hexited : s.exited = true
      · rw [if_pos hexited]
        exact .refl
      · rw [if_neg hexited]
        split
        · exact ih _ _ _
        · exact ih _ _ _
        · exact ih _ _ _
        · refine FileTree.Edited.trans ?_ (ih _ _ _)
          split_ifs
          · exact .refl
          · exact hloop _ _ _ s
        · refine FileTree.Edited.trans ?_ (ih _ _ _)
          split_ifs
          · exact .refl
          · split
            · exact s.edited_simple _ _ _ _ _
            · exact s.edited_pipeline _

theorem edited_runText (s : State) (script : String) : s.tree.Edited (runText s script).tree := by
  rw [runText]
  cases tokens? script with
  | some tokens => exact edited_run _ _ _ _
  | none => exact s.edited_refuse _ _

private theorem edited_start (tree : FileTree) (directory words : List String) :
    tree.Edited (start tree directory words).tree := by
  unfold start
  split
  · exact edited_runText (.fresh tree directory _ _) _
  · exact State.edited_refuse (.fresh tree directory _ _) _ _
  · dsimp only
    split
    · exact edited_runText (.fresh tree directory _ _) _
    · exact .refl
    · exact State.edited_refuse (.fresh tree directory _ _) _ _
  · exact .refl

/-- **Commands do nothing to the files but edit them**, whatever a script says. -/
theorem edited_commands (tree : FileTree) (words directory : List String) :
    tree.Edited (commands tree words directory).2 := by
  unfold commands
  split
  case h_3 words => exact edited_start tree directory words
  all_goals exact .refl

end Shell

end Datapath
