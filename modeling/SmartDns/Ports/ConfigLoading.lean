import Mathlib.Logic.Relation
import SmartDns.Ports.ConfigLoader

/-!
# Loading ends

A `conf-file` line remembers its written path when the file it names has been
loaded, and a remembered path is not loaded again. The set of remembered paths
therefore does not stop a file from loading itself, directly or through others;
where no file can do so, a build returns.

What can be loaded at all is defined from the files alone: `Written` are the
paths in `conf-file` lines, `Loaded` the files they and the main and managed
files stand for. Which file a relative path stands for depends on the main file
and on the directories of the paths remembered so far, so `Resolves` is a
relation.
-/

namespace SmartDns.Ports.ConfigLoading

open Verified ConfigLoader RuntimeConfigBuilder List Option

/-! ## What can be loaded -/

section Reach

variable (fs : FileSystem) (setup : Setup)

/-- What the main file can be while loading: the given one, if one is given. -/
def MainFile (base : Option Path) : Prop := setup.confFile = none ∨ base = setup.confFile

/-- The files of the managed directory that are loaded. -/
def Managed (file : Path) : Prop :=
  file.extension = some (ascii "conf") ∧ ∃ dir entries, setup.confDir = some dir ∧
    fs.readDir (dir.join (Path.ofName (ascii "managed"))) = some entries ∧ file ∈ entries

mutual

/-- The paths in `conf-file` lines. -/
inductive Written : Path → Prop
  | given {v : Path} : .ConfFile v ∈ setup.lines → Written v
  | nested {p v : Path} {lines : List ConfigItem} : Loaded p → fs.openLines p = some lines →
      .ConfFile v ∈ lines → Written v

/-- The paths that are passed to `load_file`. -/
inductive Loadable : Path → Prop
  | written {v : Path} : Written v → Loadable v
  | main {v : Path} : setup.confFile = some v → Loadable v
  | first {v : Path} : setup.confFile = none → Loaded v → Loadable v
  | managed {v : Path} : Managed fs setup v → Loadable v

/-- The files these paths stand for. -/
inductive Loaded : Path → Prop
  | intro {v : Path} {base : Option Path} {ws : List Path} : Loadable v → MainFile setup base →
      (∀ w ∈ ws, Written w) → Loaded (resolveFilepath fs base (ws.filterMap Path.parent) v)

end

/-- A path can stand for a file. -/
def Resolves (v p : Path) : Prop :=
  ∃ (base : Option Path) (ws : List Path), MainFile setup base ∧ (∀ w ∈ ws, Written fs setup w) ∧
    p = resolveFilepath fs base (ws.filterMap Path.parent) v

/-- A file has a `conf-file` line that can stand for another. -/
def Includes (p p' : Path) : Prop :=
  ∃ lines v, fs.openLines p = some lines ∧ .ConfFile v ∈ lines ∧ Resolves fs setup v p'

/-- No chain of inclusions goes on forever. -/
def Acyclic : Prop := ∀ p, Loaded fs setup p → Acc (fun p' p => Includes fs setup p p') p

end Reach

section Loading

variable {fs : FileSystem} {orders : Orders} {setup : Setup} {v p : Path} {b : RuntimeConfigBuilder}

theorem Resolves.loaded (h : Resolves fs setup v p) (hv : Loadable fs setup v) :
    Loaded fs setup p := by
  obtain ⟨base, ws, hBase, hws, hp⟩ := h
  rw [hp]
  exact .intro hv hBase hws

/-- The main file and the remembered directories come from the files. -/
structure Consistent (fs : FileSystem) (setup : Setup) (b : RuntimeConfigBuilder) : Prop where
  confDir : b.confDir = setup.confDir
  base : MainFile setup b.confFile
  first : ∀ p, setup.confFile = none → b.confFile = some p → Loaded fs setup p
  dirs : ∀ d ∈ b.dirs, ∃ w, Written fs setup w ∧ w.parent = some d

/-- Directories of written paths, in any order. -/
theorem exists_written {dirs : List Path}
    (h : ∀ d ∈ dirs, ∃ w, Written fs setup w ∧ w.parent = some d) :
    ∃ ws : List Path, (∀ w ∈ ws, Written fs setup w) ∧ ws.filterMap Path.parent = dirs := by
  induction dirs with
  | nil => exact ⟨[], by simp, rfl⟩
  | cons d dirs ih =>
    obtain ⟨w, hw, hParent⟩ := h d mem_cons_self
    obtain ⟨ws, hws, hEq⟩ := ih fun d' hd' => h d' (mem_cons_of_mem d hd')
    refine ⟨w :: ws, ?_, ?_⟩
    · exact forall_mem_cons.mpr ⟨hw, hws⟩
    · rw [filterMap_cons, hParent, hEq]

variable (orders) in
/-- A consistent builder resolves paths as the setup does. -/
theorem Consistent.resolves (h : Consistent fs setup b) (v : Path) :
    Resolves fs setup v (resolveFilepath fs b.confFile (orders.dirs b.dirs) v) := by
  have hDirs : ∀ d ∈ orders.dirs b.dirs, ∃ w, Written fs setup w ∧ w.parent = some d :=
    fun d hd => h.dirs d ((orders.dirs_perm b.dirs).mem_iff.mp hd)
  obtain ⟨ws, hws, hEq⟩ := exists_written hDirs
  exact ⟨b.confFile, ws, h.base, hws, by rw [hEq]⟩

variable (fs orders) in
theorem processLine_files (b : RuntimeConfigBuilder) (line : ConfigItem) :
    (b.processLine fs orders line).confDir = b.confDir ∧
    (b.processLine fs orders line).confFile = b.confFile ∧
    (b.processLine fs orders line).dirs = b.dirs ∧
    (b.processLine fs orders line).loadedFiles = b.loadedFiles ∧
    (b.processLine fs orders line).history = b.history ++ [.line line] := by
  obtain ⟨confDir, confFile, groups, stack, loaded, dirs, nftsets, clients, providers, history⟩ := b
  cases stack <;> cases line <;> exact ⟨rfl, rfl, rfl, rfl, rfl⟩

variable (orders) in
/-- A line keeps the builder consistent with the setup. -/
theorem Consistent.processLine (h : Consistent fs setup b) (line : ConfigItem) :
    Consistent fs setup (b.processLine fs orders line) := by
  obtain ⟨hConfDir, hConfFile, hDirs, -, -⟩ := processLine_files fs orders b line
  constructor
  · rw [hConfDir]
    exact h.confDir
  · rw [hConfFile]
    exact h.base
  · rw [hConfFile]
    exact h.first
  · rw [hDirs]
    exact h.dirs

theorem Consistent.opened (h : Consistent fs setup b) (hp : Loaded fs setup p) :
    Consistent fs setup (b.opened p) := by
  refine ⟨h.confDir, ?_, ?_, h.dirs⟩
  · rcases h.base with hNone | hGiven
    · exact .inl hNone
    · cases hFile : setup.confFile with
      | none => exact .inl hFile
      | some file =>
        right
        show b.confFile.or (some p) = setup.confFile
        rw [hGiven, hFile]
        rfl
  · intro q hNone hq
    have hq' : b.confFile.or (some p) = some q := hq
    rcases or_eq_some_iff.mp hq' with hOld | hNew
    · exact h.first q hNone hOld
    · rw [← some.inj hNew.2]
      exact hp

theorem Consistent.included (h : Consistent fs setup b) (hv : Written fs setup v) :
    Consistent fs setup (b.included v) := by
  refine ⟨h.confDir, h.base, h.first, ?_⟩
  intro d hd
  unfold RuntimeConfigBuilder.included at hd
  cases hParent : v.parent with
  | none =>
    simp only [hParent] at hd
    exact h.dirs d hd
  | some dir =>
    simp only [hParent] at hd
    rcases mem_insert_iff.mp hd with hNew | hOld
    · rw [hNew]
      exact ⟨v, hv, hParent⟩
    · exact h.dirs d hOld

/-- Loading the paths of `conf-file` lines keeps the builder consistent. -/
theorem consistent_kept :
    Kept fs orders (fun _ => True) (Written fs setup) (Consistent fs setup) where
  line := fun b line _ hb => hb.processLine orders line
  opened := by
    intro b file lines hb hFile hOpen
    have hLoaded := (hb.resolves orders file).loaded (.written hFile)
    refine ⟨hb.opened hLoaded, fun line hMem => ⟨trivial, ?_⟩⟩
    rintro v rfl
    exact .nested hLoaded hOpen hMem
  included := fun b file hb hFile => hb.included hFile

variable {n : Nat}

/-- Loading a file keeps the builder consistent with the setup. -/
theorem loadFile_consistent {r : RuntimeConfigBuilder} (hb : Consistent fs setup b)
    (hv : Loadable fs setup v) (h : loadFile fs orders n b v = some (.ok r)) :
    Consistent fs setup r := by
  cases n with
  | zero => exact absurd h (by simp [loadFile])
  | succ n =>
    rcases loadFile_ok h with hSame | ⟨lines, hOpen, hFold⟩
    · rw [hSame]
      exact hb
    · have hLoaded := (hb.resolves orders v).loaded hv
      refine consistent_kept.lines (fun line hMem => ⟨trivial, ?_⟩) (hb.opened hLoaded) hFold
      rintro w rfl
      exact .nested hLoaded hOpen hMem

/-! ## Loading ends -/

/-- A line returns if the file it names, should it name one, is loaded in finitely many steps. -/
theorem config_returns {line : ConfigItem} (h : ∀ v, line = .ConfFile v →
      ∃ n r, loadFile fs orders n (b.processLine fs orders line) v = some r) :
    ∃ n r, config fs orders (loadFile fs orders n) b line = some r := by
  by_cases hFile : ∃ v, line = .ConfFile v
  · obtain ⟨v, hEq⟩ := hFile
    obtain ⟨n, r, hr⟩ := h v hEq
    subst hEq
    refine ⟨n, ?_⟩
    unfold config
    dsimp only
    split
    · exact ⟨_, rfl⟩
    · rw [hr]
      exact ⟨_, rfl⟩
  · exact ⟨0, _, config_eq fun v hEq => hFile ⟨v, hEq⟩⟩

variable {lines : List ConfigItem}

/-- Lines return, and keep the builder consistent, if the files they name are loaded. -/
theorem lines_return (hWritten : ∀ v, .ConfFile v ∈ lines → Written fs setup v)
    (hLoad : ∀ b v, .ConfFile v ∈ lines → Consistent fs setup b →
      ∃ n r, loadFile fs orders n b v = some r)
    (b : RuntimeConfigBuilder) (hb : Consistent fs setup b) :
    ∃ n r, lines.foldlM (config fs orders (loadFile fs orders n)) b = some r ∧
      Consistent fs setup r := by
  refine foldlM_returns (f := fun n => config fs orders (loadFile fs orders n))
    (fun hLe hr => config_mono (fun _ _ _ => loadFile_mono hLe) hr) lines ?_ b hb
  intro s line hMem hs
  have hNamed : ∀ v, line = .ConfFile v →
      ∃ n r, loadFile fs orders n (s.processLine fs orders line) v = some r := by
    intro v hEq
    rw [hEq] at hMem
    exact hLoad _ v hMem (hs.processLine orders line)
  obtain ⟨n, r, hr⟩ := config_returns hNamed
  refine ⟨n, r, hr, consistent_kept.config (fun _ _ _ hC hW h => consistent_kept.loadFile n hC hW h)
    ⟨trivial, ?_⟩ hs hr⟩
  intro v hEq
  rw [hEq] at hMem
  exact hWritten v hMem

/-- A file from which no chain of inclusions goes on forever is loaded in finitely many steps. -/
theorem loadFile_returns (hAcc : Acc (fun p' p => Includes fs setup p p') p) :
    ∀ (b : RuntimeConfigBuilder) (v : Path), Consistent fs setup b → Loadable fs setup v →
      resolveFilepath fs b.confFile (orders.dirs b.dirs) v = p →
      ∃ n r, loadFile fs orders n b v = some r := by
  induction hAcc with
  | intro p _ ih =>
    intro b v hb hv hp
    cases hOpen : fs.openLines p with
    | none =>
      refine ⟨1, ?_⟩
      rw [loadFile, hp]
      split
      · rw [hOpen]
        exact ⟨_, rfl⟩
      · exact ⟨_, rfl⟩
    | some lines =>
      have hLoaded : Loaded fs setup p := by
        rw [← hp]
        exact (hb.resolves orders v).loaded hv
      have hWritten : ∀ w, .ConfFile w ∈ lines → Written fs setup w :=
        fun w hMem => .nested hLoaded hOpen hMem
      have hIncluded : ∀ b' w, .ConfFile w ∈ lines → Consistent fs setup b' →
          ∃ n r, loadFile fs orders n b' w = some r := by
        intro b' w hMem hb'
        have hStep :
          Includes fs setup p (resolveFilepath fs b'.confFile (orders.dirs b'.dirs) w) :=
          ⟨lines, w, hOpen, hMem, hb'.resolves orders w⟩
        exact ih _ hStep b' w hb' (.written (hWritten w hMem)) rfl
      obtain ⟨n, r, hFold, -⟩ :=
        lines_return hWritten hIncluded (b.opened p) (hb.opened hLoaded)
      refine ⟨n + 1, ?_⟩
      rw [loadFile, hp]
      split
      · rw [hOpen]
        dsimp only
        rw [hFold]
        exact ⟨_, rfl⟩
      · exact ⟨_, rfl⟩

/-! ## Whole builds -/

variable {m : Nat}

theorem lines_mono (hLe : n ≤ m) {r : RuntimeConfigBuilder}
    (h : lines.foldlM (config fs orders (loadFile fs orders n)) b = some r) :
    lines.foldlM (config fs orders (loadFile fs orders m)) b = some r :=
  foldlM_mono (fun _ _ _ hr => config_mono (fun _ _ _ => loadFile_mono hLe) hr) lines h

variable (fs orders b) in
/-- There is no main file to load, or it is loaded like any other. -/
theorem loadMain_cases : (∀ n, loadMain fs orders n b = some (.ok b)) ∨
    ∃ file, b.confFile = some file ∧ file ∉ b.loadedFiles ∧
      ∀ n, loadMain fs orders n b = loadFile fs orders n b file := by
  unfold loadMain
  cases hFile : b.confFile with
  | none => exact .inl fun n => rfl
  | some file =>
    by_cases hKnown : file ∈ b.loadedFiles
    · exact .inl fun n => if_pos hKnown
    · exact .inr ⟨file, rfl, hKnown, fun n => if_neg hKnown⟩

variable (fs orders setup b) in
/-- The managed files are loaded one by one; one that cannot be opened is skipped. -/
theorem exists_managed : ∃ files : List Path,
    (b.confDir = setup.confDir → ∀ file ∈ files, Managed fs setup file) ∧
      ∀ n, loadManaged fs orders n b = files.foldlM (fun b file =>
        (loadFile fs orders n b file).map fun result => result.toOption.getD b) b := by
  unfold loadManaged loadManagedDir
  cases hDir : b.confDir with
  | none => exact ⟨[], fun _ => nofun, fun n => rfl⟩
  | some dir =>
    dsimp only
    split
    · exact ⟨[], fun _ => nofun, fun n => rfl⟩
    · rename_i entries hEntries
      refine ⟨_, ?_, fun n => rfl⟩
      intro hGiven file hMem
      obtain ⟨hIn, hConf⟩ := mem_filter.mp hMem
      exact ⟨of_decide_eq_true hConf, dir, entries, hGiven.symm, hEntries,
        (orders.entries_perm entries).mem_iff.mp hIn⟩

theorem loadMain_mono (hLe : n ≤ m) {r : Except Path RuntimeConfigBuilder}
    (h : loadMain fs orders n b = some r) : loadMain fs orders m b = some r := by
  rcases loadMain_cases fs orders b with hSame | ⟨file, -, -, hEq⟩
  · rw [hSame] at h ⊢
    exact h
  · rw [hEq] at h ⊢
    exact loadFile_mono hLe h

theorem managedFile_mono (hLe : n ≤ m) {r : RuntimeConfigBuilder}
    (h : (loadFile fs orders n b file).map (fun result => result.toOption.getD b) = some r) :
    (loadFile fs orders m b file).map (fun result => result.toOption.getD b) = some r := by
  obtain ⟨result, hResult, hEq⟩ := map_eq_some_iff.mp h
  rw [loadFile_mono hLe hResult, map_some, hEq]

theorem loadManaged_mono (hLe : n ≤ m) {r : RuntimeConfigBuilder}
    (h : loadManaged fs orders n b = some r) : loadManaged fs orders m b = some r := by
  obtain ⟨files, -, hEq⟩ := exists_managed fs orders ⟨none, none, []⟩ b
  rw [hEq] at h ⊢
  exact foldlM_mono (fun _ _ _ hr => managedFile_mono hLe hr) files h

/-- A build is its three stages. -/
theorem build_eq_ok {b₁ b₂ : RuntimeConfigBuilder} (hLines : loadLines fs orders setup n = some b)
    (hMain : loadMain fs orders n b = some (.ok b₁))
    (hManaged : loadManaged fs orders n b₁ = some b₂) :
    build fs orders setup n = some (.ok (finish b₂)) := by
  unfold build
  rw [hLines, bind_eq_bind, bind_some, hMain, bind_eq_bind, bind_some]
  dsimp only
  rw [hManaged]
  rfl

theorem build_eq_error {path : Path} (hLines : loadLines fs orders setup n = some b)
    (hMain : loadMain fs orders n b = some (.error path)) :
    build fs orders setup n = some (.error ⟨path, b.history⟩) := by
  unfold build
  rw [hLines, bind_eq_bind, bind_some, hMain, bind_eq_bind, bind_some]

theorem start_consistent : Consistent fs setup (start setup.confDir setup.confFile) := by
  refine ⟨rfl, .inr rfl, ?_, ?_⟩
  · intro p hNone hSome
    have hSome' : setup.confFile = some p := hSome
    rw [hNone] at hSome'
    cases hSome'
  · intro d hd
    cases hd

/-- The main file is a path that can be loaded. -/
theorem Consistent.loadable_main (h : Consistent fs setup b) (hFile : b.confFile = some file) :
    Loadable fs setup file := by
  cases hGiven : setup.confFile with
  | none => exact .first hGiven (h.first file hGiven hFile)
  | some given =>
    rcases h.base with hNone | hEq
    · rw [hGiven] at hNone
      cases hNone
    · rw [hEq] at hFile
      exact .main hFile

/-- Without a cycle of includes the main file is loaded. -/
theorem loadMain_returns (orders : Orders) (hAcyclic : Acyclic fs setup)
    (hb : Consistent fs setup b) :
    ∃ n result, loadMain fs orders n b = some result ∧
      ∀ r, result = .ok r → Consistent fs setup r := by
  rcases loadMain_cases fs orders b with hSame | ⟨file, hFile, -, hEq⟩
  · exact ⟨0, _, hSame 0, fun r hr => Except.ok.inj hr ▸ hb⟩
  · have hLoadable := hb.loadable_main hFile
    have hAcc := hAcyclic _ ((hb.resolves orders file).loaded hLoadable)
    obtain ⟨n, result, hResult⟩ := loadFile_returns hAcc b file hb hLoadable rfl
    refine ⟨n, result, (hEq n).trans hResult, ?_⟩
    intro r hr
    rw [hr] at hResult
    exact loadFile_consistent hb hLoadable hResult

/-- Without a cycle of includes the managed files are loaded. -/
theorem loadManaged_returns (orders : Orders) (hAcyclic : Acyclic fs setup)
    (hb : Consistent fs setup b) : ∃ n r, loadManaged fs orders n b = some r := by
  obtain ⟨files, hManaged, hEq⟩ := exists_managed fs orders setup b
  obtain ⟨n, r, hr, -⟩ := foldlM_returns
    (f := fun n b file => (loadFile fs orders n b file).map fun result => result.toOption.getD b)
    (fun hLe hr => managedFile_mono hLe hr) files (I := Consistent fs setup) (by
      intro s file hMem hs
      have hLoadable : Loadable fs setup file := .managed (hManaged hb.confDir file hMem)
      have hAcc := hAcyclic _ ((hs.resolves orders file).loaded hLoadable)
      obtain ⟨n, result, hResult⟩ := loadFile_returns hAcc s file hs hLoadable rfl
      refine ⟨n, result.toOption.getD s, by rw [hResult]; rfl, ?_⟩
      cases result with
      | error path => exact hs
      | ok r => exact loadFile_consistent hs hLoadable hResult) b hb
  exact ⟨n, r, (hEq n).trans hr⟩

theorem loadLines_returns (orders : Orders) (hAcyclic : Acyclic fs setup) :
    ∃ n b, loadLines fs orders setup n = some b ∧ Consistent fs setup b := by
  have hGiven : ∀ v, .ConfFile v ∈ setup.lines → Written fs setup v := fun v hv => .given hv
  refine lines_return hGiven ?_ _ start_consistent
  intro b v hMem hb
  have hLoadable : Loadable fs setup v := .written (hGiven v hMem)
  exact loadFile_returns (hAcyclic _ ((hb.resolves orders v).loaded hLoadable)) b v hb hLoadable rfl

/-- Without endless chains of inclusions, a build ends after its second or its third stage. -/
theorem build_stages (orders : Orders) (hAcyclic : Acyclic fs setup) :
    ∃ n b, loadLines fs orders setup n = some b ∧
      ((∃ path, loadMain fs orders n b = some (.error path)) ∨
        ∃ b₁ b₂, loadMain fs orders n b = some (.ok b₁) ∧
          loadManaged fs orders n b₁ = some b₂) := by
  obtain ⟨n, b, hLines, hb⟩ := loadLines_returns orders hAcyclic
  obtain ⟨m, result, hMain, hResult⟩ := loadMain_returns orders hAcyclic hb
  cases result with
  | error path =>
    exact ⟨n + m, b, lines_mono (by omega) hLines, .inl ⟨path, loadMain_mono (by omega) hMain⟩⟩
  | ok b₁ =>
    obtain ⟨l, b₂, hManaged⟩ := loadManaged_returns orders hAcyclic (hResult b₁ rfl)
    exact ⟨n + m + l, b, lines_mono (by omega) hLines,
      .inr ⟨b₁, b₂, loadMain_mono (by omega) hMain, loadManaged_mono (by omega) hManaged⟩⟩

/-- Without a cycle of includes the configuration is built. -/
theorem build_returns (orders : Orders) (hAcyclic : Acyclic fs setup) :
    ∃ n result, build fs orders setup n = some result := by
  obtain ⟨n, b, hLines, ⟨path, hMain⟩ | ⟨b₁, b₂, hMain, hManaged⟩⟩ := build_stages orders hAcyclic
  · exact ⟨n, _, build_eq_error hLines hMain⟩
  · exact ⟨n, _, build_eq_ok hLines hMain hManaged⟩

end Loading

/-! ## Files in their places -/

/-- Every path that is loaded is that of a file. -/
structure InPlace (fs : FileSystem) (setup : Setup) (S : Path → Prop) : Prop where
  file : ∀ v, S v → fs.isFile v = true ∧ fs.pathExists v = true
  given : ∀ v, .ConfFile v ∈ setup.lines → S v
  main : ∀ v, setup.confFile = some v → S v
  managed : ∀ v, Managed fs setup v → S v
  nested : ∀ p lines v, S p → fs.openLines p = some lines → .ConfFile v ∈ lines → S v

section InPlace

variable {fs : FileSystem} {setup : Setup} {S : Path → Prop} {v p : Path}

/-- The path of a file stands for this file. -/
theorem resolveFilepath_of_isFile (hFile : fs.isFile v = true) (hExists : fs.pathExists v = true)
    (base : Option Path) (dirs : List Path) : resolveFilepath fs base dirs v = v := by
  have hFound : resolveAgainst fs base v = v := by
    unfold resolveAgainst candidates
    rw [find?_cons_of_pos hFile]
  unfold resolveFilepath
  rw [hFound, if_pos hExists]

theorem InPlace.resolves_eq (h : InPlace fs setup S) (hv : S v) (hp : Resolves fs setup v p) :
    p = v := by
  obtain ⟨base, ws, -, -, hEq⟩ := hp
  obtain ⟨hFile, hExists⟩ := h.file v hv
  rw [hEq, resolveFilepath_of_isFile hFile hExists]

end InPlace

/-- A file system that holds exactly the given configuration files. -/
def FileSystem.ofFiles (files : List (Path × List ConfigItem)) : FileSystem where
  pathExists p := (files.lookup p).isSome
  isFile p := (files.lookup p).isSome
  openLines p := files.lookup p
  readDomains _ := none
  fetchDomains _ := none
  readDir _ := none
  currentDir := none
  exeDir := none

def mainPath : Path := ⟨true, [ascii "etc", ascii "smartdns.conf"]⟩

def extraPath : Path := ⟨true, [ascii "etc", ascii "extra.conf"]⟩

/-- Closes a group that is not open, opens one and leaves it open. -/
def extraLines : List ConfigItem :=
  [.GroupEnd, .GroupBegin "work", .ForwardRule ⟨.Set "office", "internal"⟩]

/-- A main file that names another file twice. -/
def twiceNamed : FileSystem :=
  FileSystem.ofFiles
    [(mainPath, [.ConfFile extraPath, .ConfFile extraPath]), (extraPath, extraLines)]

/-- Only the main file. -/
def mainOnly : Setup := ⟨none, some mainPath, []⟩

theorem twiceNamed_openLines {lines : List ConfigItem} (h : twiceNamed.openLines p = some lines) :
    (p = mainPath ∧ lines = [.ConfFile extraPath, .ConfFile extraPath]) ∨
      (p = extraPath ∧ lines = extraLines) := by
  unfold twiceNamed FileSystem.ofFiles at h
  by_cases hMain : p = mainPath
  · subst hMain
    exact .inl ⟨rfl, (some.inj h).symm⟩
  · by_cases hExtra : p = extraPath
    · subst hExtra
      exact .inr ⟨rfl, (some.inj h).symm⟩
    · simp [lookup_cons, beq_eq_false_iff_ne.mpr hMain, beq_eq_false_iff_ne.mpr hExtra] at h

theorem twiceNamed_inPlace :
    InPlace twiceNamed mainOnly (fun p => p = mainPath ∨ p = extraPath) where
  file := by
    rintro v (hMain | hExtra)
    · rw [hMain]
      exact ⟨by decide, by decide⟩
    · rw [hExtra]
      exact ⟨by decide, by decide⟩
  given := nofun
  main := fun v hv => .inl (some.inj hv).symm
  managed := by
    rintro v ⟨-, dir, entries, hDir, -⟩
    exact absurd hDir (by simp [mainOnly])
  nested := by
    intro p lines v _ hOpen hv
    rcases twiceNamed_openLines hOpen with ⟨-, hLines⟩ | ⟨-, hLines⟩
    · rw [hLines] at hv
      simp at hv
      exact .inr hv
    · rw [hLines] at hv
      simp [extraLines] at hv

theorem twiceNamed_includes {p' : Path} (h : Includes twiceNamed mainOnly p p') :
    p = mainPath ∧ p' = extraPath := by
  obtain ⟨lines, v, hOpen, hv, hp'⟩ := h
  rcases twiceNamed_openLines hOpen with ⟨hp, hLines⟩ | ⟨-, hLines⟩
  · rw [hLines] at hv
    simp at hv
    subst hv
    exact ⟨hp, twiceNamed_inPlace.resolves_eq (.inr rfl) hp'⟩
  · rw [hLines] at hv
    simp [extraLines] at hv

theorem twiceNamed_acyclic : Acyclic twiceNamed mainOnly := by
  intro p _
  refine .intro p fun p' hp' => .intro p' fun p'' hp'' => ?_
  have hExtra := (twiceNamed_includes hp').2
  have hMain := (twiceNamed_includes hp'').1
  rw [hExtra] at hMain
  cases hMain

end SmartDns.Ports.ConfigLoading
