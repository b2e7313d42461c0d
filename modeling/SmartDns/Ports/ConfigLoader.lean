import SmartDns.Ports.RequestContext
import SmartDns.Ports.RuleSources
import SmartDns.Verified.PartialFold

/-!
# Loading a configuration

A configuration is built from lines handed to the builder, from a main file and
from the files of a managed directory, in this order, and a `conf-file` line
loads another file in its place. The lines write rules into the innermost open
group. Groups are opened and closed by lines of their own, which need not be
balanced, and a group may be opened again later: its frames are merged.

Lines enter the model parsed. The settings that are only stored are one kind of
line, `Other`, as are blank lines, comments and lines that do not parse. What a
`conf-file` line costs is a nested call, so `loadFile` counts the nesting: it
returns nothing if the files are nested deeper than the given depth.

The order in which a hash table or a directory hands out its entries is not
fixed by its contents. `Orders` is one choice of all of these orders.

The fields `history` of the builder and of the results are not in the source.
They record the files read and the lines processed, in order.
-/

namespace SmartDns.Ports.ConfigLoader

open Verified DomainName PatternMap RuleTree RuleSources RequestContext Option

/-! ## Paths -/

/-- One component of a path, as raw bytes. -/
abbrev Component := List UInt8

def ascii (s : String) : Component := s.toList.map fun c => UInt8.ofNat c.toNat

/-- A path by its components; two spellings with the same components are equal. -/
structure Path where
  isAbsolute : Bool
  components : List Component
  deriving DecidableEq

namespace Path

/-- `Path::file_name`: the last component, unless it is a dot or two dots. -/
def fileName (p : Path) : Option Component :=
  p.components.getLast?.filter fun c => c ≠ ascii "." ∧ c ≠ ascii ".."

/-- `Path::parent`: the path without its last component. -/
def parent (p : Path) : Option Path :=
  if p.components.isEmpty then none else some { p with components := p.components.dropLast }

/-- `Path::join`: an absolute path replaces, a leading dot is dropped. -/
def join (dir p : Path) : Path :=
  if p.isAbsolute then p
  else if dir.components.isEmpty && !dir.isAbsolute then p
  else { dir with components := dir.components ++ p.components.dropWhile (· = ascii ".") }

/-- The relative path of one component. -/
def ofName (c : Component) : Path := ⟨false, [c]⟩

/-- What follows the last dot of a file name, unless the name starts with it. -/
def nameExtension (name : Component) : Option Component :=
  let tail := name.reverse.takeWhile (· ≠ 46)
  if tail.length + 1 < name.length then some tail.reverse else none

/-- `Path::extension`. -/
def extension (p : Path) : Option Component := p.fileName.bind nameExtension

end Path

/-! ## Lines -/

/-- Where the names of a domain set come from. -/
inductive DomainSetProvider where
  | File (name : String) (file : Path)
  | Http (name : String) (url : String)

def DomainSetProvider.name : DomainSetProvider → String
  | .File name _ => name
  | .Http name _ => name

/-- A line of a configuration. -/
inductive ConfigItem where
  | Address (rule : ConfigForDomain AddressRuleValue)
  | ForwardRule (rule : ConfigForDomain String)
  | DomainRule (rule : ConfigForDomain RuleTree.DomainRule)
  | CNAME (rule : ConfigForDomain CNameRule)
  | SrvRecord (rule : ConfigForDomain (List UInt8))
  | HttpsRecord (rule : ConfigForDomain HttpsRecordRule)
  | TxtRecord (rule : ConfigForDomain (List UInt8))
  | IpSet (rule : ConfigForDomain String)
  | NftSet (rule : ConfigForDomain (List String))
  | GroupMatch (group : String) (domains : List Domain) (clients : List Client)
  | ClientRule (rule : RequestContext.ClientRule)
  | DomainSetProvider (provider : ConfigLoader.DomainSetProvider)
  | ConfFile (file : Path)
  | GroupBegin (name : String)
  | GroupEnd
  | Other

/-- The rules a line pushes into the group of its frame. -/
def pushRule (group : RuleGroup) : ConfigItem → RuleGroup
  | .Address rule => { group with addressRules := group.addressRules ++ [rule] }
  | .ForwardRule rule => { group with forwardRules := group.forwardRules ++ [rule] }
  | .DomainRule rule => { group with domainRules := group.domainRules ++ [rule] }
  | .CNAME rule => { group with cnames := group.cnames ++ [rule] }
  | .SrvRecord rule => { group with srvRecords := group.srvRecords ++ [rule] }
  | .HttpsRecord rule => { group with httpsRecords := group.httpsRecords ++ [rule] }
  | .TxtRecord rule => { group with txtRecords := group.txtRecords ++ [rule] }
  | .IpSet rule => { group with ipsets := group.ipsets ++ [rule] }
  | .GroupMatch name domains _ =>
    { group with forwardRules := group.forwardRules ++ domains.map fun domain => ⟨domain, name⟩ }
  | _ => group

/-! ## Files -/

/-- What the builder asks its environment for. -/
structure FileSystem where
  pathExists : Path → Bool
  isFile : Path → Bool
  /-- `File::open` and the lines read from the file. -/
  openLines : Path → Option (List ConfigItem)
  /-- The names listed in a domain set file. -/
  readDomains : Path → Option (List WildcardName)
  /-- The names listed at a URL. -/
  fetchDomains : String → Option (List WildcardName)
  /-- `read_dir`; `none` for what is not a directory that can be read. -/
  readDir : Path → Option (List Path)
  currentDir : Option Path
  exeDir : Option Path

/-- One choice of the orders in which unordered collections are iterated. -/
structure Orders where
  dirs : List Path → List Path
  entries : List Path → List Path
  names : String → List WildcardName → List WildcardName
  items : String → NameRuleMap → NameRuleMap
  dirs_perm : ∀ l, (dirs l).Perm l
  entries_perm : ∀ l, (entries l).Perm l
  names_perm : ∀ set l, (names set l).Perm l
  items_perm : ∀ group l, (items group l).Perm l

/-- Everything in the order in which it was inserted. -/
def Orders.insertion : Orders where
  dirs := id
  entries := id
  names := fun _ => id
  items := fun _ => id
  dirs_perm := fun _ => .rfl
  entries_perm := fun _ => .rfl
  names_perm := fun _ _ => .rfl
  items_perm := fun _ _ => .rfl

/-- The paths tried for a written path, given the main file. -/
def candidates (fs : FileSystem) (base : Option Path) (file : Path) : List Path :=
  file ::
    if file.isAbsolute then []
    else
      match base, base.bind Path.parent with
      | some conf, some dir =>
        dir.join file ::
        (if conf.fileName = some (ascii "smartdns.conf") then
          [(dir.join (Path.ofName (ascii "smartdns.d"))).join file] else []) ++
        (fs.currentDir.map fun dir => dir.join file).toList ++
        (fs.exeDir.map fun dir => dir.join file).toList
      | _, _ => []

/-- The function `resolve_filepath`: the path, or else its file name alone. -/
def resolveAgainst (fs : FileSystem) (base : Option Path) (file : Path) : Path :=
  match (candidates fs base file).find? fs.isFile with
  | some found => found
  | none =>
    match file.fileName.map Path.ofName with
    | none => file
    | some byName =>
      if byName = file then file
      else ((candidates fs base byName).find? fs.isFile).getD file

/-- The method `resolve_filepath`, given the directories in the order of iteration. -/
def resolveFilepath (fs : FileSystem) (base : Option Path) (dirs : List Path) (file : Path) :
    Path :=
  let path := resolveAgainst fs base file
  if fs.pathExists path then path
  else
    match path.fileName with
    | none => path
    | some name => ((dirs.map fun dir => dir.join (Path.ofName name)).find? fs.isFile).getD path

/-! ## The builder -/

/-- What happened while loading. -/
inductive LoadEvent where
  | read (file : Path)
  | line (item : ConfigItem)

/-- A stack of open groups, the innermost first, or a table of groups. -/
abbrev Groups := List (String × RuleGroup)

structure RuntimeConfigBuilder where
  confDir : Option Path
  confFile : Option Path
  ruleGroups : Groups
  ruleGroupStack : Groups
  loadedFiles : List Path
  dirs : List Path
  nftsets : NftSets
  clientRules : List ClientRule
  domainSetProviders : List DomainSetProvider
  history : List LoadEvent

def defaultGroup : String := "default"

/-- `entry(name).or_default().merge(group)`. -/
def mergeGroup (name : String) (group : RuleGroup) : Groups → Groups
  | [] => [(name, RuleGroup.default.merge group)]
  | (key, old) :: rest =>
    if key = name then (key, old.merge group) :: rest else
      (key, old) :: mergeGroup name group rest

namespace RuntimeConfigBuilder

def start (confDir confFile : Option Path) : RuntimeConfigBuilder where
  confDir := confDir
  confFile := confFile
  ruleGroups := []
  ruleGroupStack := []
  loadedFiles := []
  dirs := []
  nftsets := []
  clientRules := []
  domainSetProviders := []
  history := []

/-- Open the default group if no group is open. -/
def openFrame (b : RuntimeConfigBuilder) : RuntimeConfigBuilder :=
  match b.ruleGroupStack with
  | [] => { b with ruleGroupStack := [(defaultGroup, RuleGroup.default)] }
  | _ :: _ => b

/-- Push the rules of a line into the innermost open group. -/
def pushTop (b : RuntimeConfigBuilder) (line : ConfigItem) : RuntimeConfigBuilder :=
  match b.ruleGroupStack with
  | [] => b
  | (name, group) :: rest => { b with ruleGroupStack := (name, pushRule group line) :: rest }

/-- Close the innermost open group. -/
def closeGroup (b : RuntimeConfigBuilder) : RuntimeConfigBuilder :=
  match b.ruleGroupStack with
  | [] => b
  | (name, group) :: rest =>
    { b with ruleGroupStack := rest, ruleGroups := mergeGroup name group b.ruleGroups }

/-- A client rule without a group gets the innermost open one. -/
def withGroup (b : RuntimeConfigBuilder) (rule : ClientRule) : ClientRule :=
  if rule.group = "" then
    { rule with group := (b.ruleGroupStack.head?.map Prod.fst).getD defaultGroup }
  else rule

/-- The path of a domain set file is resolved when its line is read. -/
def resolveProvider (fs : FileSystem) (orders : Orders) (b : RuntimeConfigBuilder) :
    DomainSetProvider → DomainSetProvider
  | .File name file => .File name (resolveFilepath fs b.confFile (orders.dirs b.dirs) file)
  | .Http name url => .Http name url

/-- `config` without the loading of other files. -/
def processLine (fs : FileSystem) (orders : Orders) (b : RuntimeConfigBuilder) (line : ConfigItem) :
    RuntimeConfigBuilder :=
  let b := { b.openFrame with history := b.history ++ [.line line] }
  match line with
  | .GroupBegin name => { b with ruleGroupStack := (name, RuleGroup.default) :: b.ruleGroupStack }
  | .GroupEnd => b.closeGroup
  | .NftSet rule => { b with nftsets := b.nftsets ++ [rule] }
  | .ClientRule rule => { b with clientRules := b.clientRules ++ [b.withGroup rule] }
  | .DomainSetProvider provider =>
    { b with domainSetProviders := b.domainSetProviders ++ [b.resolveProvider fs orders provider] }
  | .GroupMatch group domains clients =>
    let b := b.pushTop (.GroupMatch group domains clients)
    { b with clientRules := b.clientRules ++ clients.map fun client => ⟨client, group⟩ }
  | .ConfFile _ => b
  | .Other => b
  | line => b.pushTop line

/-- A file was opened; the first one becomes the main file if there is none. -/
def opened (b : RuntimeConfigBuilder) (file : Path) : RuntimeConfigBuilder :=
  { b with
    confFile := b.confFile.or (some file)
    history := b.history ++ [.read file] }

/-- A `conf-file` line is done: its directory and its written path are remembered. -/
def included (b : RuntimeConfigBuilder) (file : Path) : RuntimeConfigBuilder :=
  { b with
    dirs := match file.parent with
      | some dir => b.dirs.insert dir
      | none => b.dirs
    loadedFiles := b.loadedFiles.insert file }

end RuntimeConfigBuilder

open RuntimeConfigBuilder

/-- `config`, given how a file is loaded. A file that cannot be opened is reported and skipped. -/
def config (fs : FileSystem) (orders : Orders)
    (load : RuntimeConfigBuilder → Path → Option (Except Path RuntimeConfigBuilder))
    (b : RuntimeConfigBuilder) (line : ConfigItem) : Option RuntimeConfigBuilder :=
  let b := b.processLine fs orders line
  match line with
  | .ConfFile file =>
    if file ∈ b.loadedFiles then some b
    else (load b file).map fun result => (result.toOption.getD b).included file
  | _ => some b

/-- `load_file` with at most `n` files open at a time; `none` if that is not enough. -/
def loadFile (fs : FileSystem) (orders : Orders) :
    Nat → RuntimeConfigBuilder → Path → Option (Except Path RuntimeConfigBuilder)
  | 0, _, _ => none
  | n + 1, b, file =>
    let path := resolveFilepath fs b.confFile (orders.dirs b.dirs) file
    if fs.pathExists path then
      match fs.openLines path with
      | none => some (.error path)
      | some lines =>
        (lines.foldlM (config fs orders (loadFile fs orders n)) (b.opened path)).map .ok
    else some (.ok b)

def loadManagedDir (fs : FileSystem) (orders : Orders) (n : Nat) (b : RuntimeConfigBuilder)
    (dir : Path) : Option RuntimeConfigBuilder :=
  match fs.readDir dir with
  | none => some b
  | some entries =>
    ((orders.entries entries).filter fun path => path.extension = some (ascii "conf")).foldlM
      (fun b path => (loadFile fs orders n b path).map fun result => result.toOption.getD b) b

/-! ## The built configuration -/

/-- The part of the configuration that rules come from. -/
structure LoadedConfig where
  ruleGroups : Groups
  nftsets : NftSets
  clientRules : List ClientRule
  domainSetProviders : List DomainSetProvider
  history : List LoadEvent

/-- Close all open groups, then drop repeated aliases. -/
def finish (b : RuntimeConfigBuilder) : LoadedConfig where
  ruleGroups := (b.ruleGroupStack.foldl (fun groups frame => mergeGroup frame.1 frame.2 groups)
    b.ruleGroups).map fun entry => (entry.1, entry.2.dedupCnames)
  nftsets := b.nftsets
  clientRules := b.clientRules
  domainSetProviders := b.domainSetProviders
  history := b.history

/-- The main file, unless a line has loaded it. -/
def loadMain (fs : FileSystem) (orders : Orders) (n : Nat) (b : RuntimeConfigBuilder) :
    Option (Except Path RuntimeConfigBuilder) :=
  match b.confFile with
  | none => some (.ok b)
  | some file => if file ∈ b.loadedFiles then some (.ok b) else loadFile fs orders n b file

/-- The files of the managed directory, if there is a configuration directory. -/
def loadManaged (fs : FileSystem) (orders : Orders) (n : Nat) (b : RuntimeConfigBuilder) :
    Option RuntimeConfigBuilder :=
  match b.confDir with
  | none => some b
  | some dir => loadManagedDir fs orders n b (dir.join (Path.ofName (ascii "managed")))

/-- What the builder is given before `build`. -/
structure Setup where
  confDir : Option Path
  confFile : Option Path
  lines : List ConfigItem

/-- The main file cannot be opened. -/
structure BuildError where
  file : Path
  history : List LoadEvent

/-- `with` for every line. -/
def loadLines (fs : FileSystem) (orders : Orders) (setup : Setup) (n : Nat) :
    Option RuntimeConfigBuilder :=
  setup.lines.foldlM (config fs orders (loadFile fs orders n)) (start setup.confDir setup.confFile)

/-- `with` for every line, then `build`. -/
def build (fs : FileSystem) (orders : Orders) (setup : Setup) (n : Nat) :
    Option (Except BuildError LoadedConfig) := do
  let b ← loadLines fs orders setup n
  match ← loadMain fs orders n b with
  | .error path => some (.error ⟨path, b.history⟩)
  | .ok b =>
    let b ← loadManaged fs orders n b
    some (.ok (finish b))

/-! ## Rules -/

/-- `HashSet::insert`: an equal name stays as it is. -/
def insertName (set : List WildcardName) (name : WildcardName) : List WildcardName :=
  if set.any fun old => old == name then set else set ++ [name]

/-- The names a provider yields; none if it fails. -/
def providerNames (fs : FileSystem) : DomainSetProvider → List WildcardName
  | .File _ file => (fs.readDomains file).getD []
  | .Http _ url => (fs.fetchDomains url).getD []

/-- The domain sets of the configuration, iterated in the given order. -/
def domainSets (fs : FileSystem) (orders : Orders) (cfg : LoadedConfig) : DomainSets := fun set =>
  let providers := cfg.domainSetProviders.filter fun provider => provider.name = set
  if providers.isEmpty then none
  else some (orders.names set ((providers.flatMap (providerNames fs)).foldl insertName []))

section Lookup

variable {κ : Type} [DecidableEq κ] (lib : NameLib κ) (fs : FileSystem) (orders : Orders)
  (cfg : LoadedConfig)

/-- The rules of a group by pattern, in the order in which they are inserted into the tree. -/
def ruleItems (name : String) : NameRuleMap :=
  match cfg.ruleGroups.lookup name with
  | none => []
  | some group => orders.items name (collect (domainSets fs orders cfg) cfg.nftsets group)

def domainRuleGroup (name : String) : DomainRuleMap κ :=
  DomainRuleMap.create lib (ruleItems fs orders cfg (if name = "" then defaultGroup else name))

/-- `find_domain_rule`: the group's own rule, else the default group's. -/
def findDomainRule (domain : Name) (group : String) : Option DomainRuleTreeNode :=
  ((domainRuleGroup lib fs orders cfg group).find lib domain).or
    ((domainRuleGroup lib fs orders cfg defaultGroup).find lib domain)

end Lookup

/-! ## Rules of loading -/

section Rules

variable {fs : FileSystem} {orders : Orders}

variable {load : RuntimeConfigBuilder → Path → Option (Except Path RuntimeConfigBuilder)}
  {b : RuntimeConfigBuilder}

/-- A line that does not load a file is processed in one step. -/
theorem config_eq {line : ConfigItem} (h : ∀ file, line ≠ .ConfFile file) :
    config fs orders load b line = some (b.processLine fs orders line) := by
  cases line with
  | ConfFile file => exact absurd rfl (h file)
  | _ => rfl

variable {r : RuntimeConfigBuilder} {file : Path}

/-- A line that loads a file: it is known, or the file is loaded and then remembered. -/
theorem config_confFile (h : config fs orders load b (.ConfFile file) = some r) :
    (file ∈ b.loadedFiles ∧ r = b.processLine fs orders (.ConfFile file)) ∨
      (file ∉ b.loadedFiles ∧ ∃ result,
        load (b.processLine fs orders (.ConfFile file)) file = some result ∧
        r = (result.toOption.getD (b.processLine fs orders (.ConfFile file))).included file) := by
  have hLoaded : (b.processLine fs orders (.ConfFile file)).loadedFiles = b.loadedFiles := by
    unfold processLine openFrame
    cases b.ruleGroupStack <;> rfl
  simp only [config, hLoaded] at h
  by_cases hKnown : file ∈ b.loadedFiles
  · rw [if_pos hKnown, some.injEq] at h
    exact .inl ⟨hKnown, h.symm⟩
  · rw [if_neg hKnown] at h
    obtain ⟨result, hLoad, hEq⟩ := map_eq_some_iff.mp h
    exact .inr ⟨hKnown, result, hLoad, hEq.symm⟩

theorem config_mono
    {load' : RuntimeConfigBuilder → Path → Option (Except Path RuntimeConfigBuilder)}
    (h : ∀ b file r, load b file = some r → load' b file = some r) {line : ConfigItem}
    (hr : config fs orders load b line = some r) :
    config fs orders load' b line = some r := by
  cases line with
  | ConfFile file =>
    unfold config at hr ⊢
    dsimp only at hr ⊢
    split
    · rename_i hKnown
      rw [if_pos hKnown] at hr
      exact hr
    · rename_i hKnown
      rw [if_neg hKnown] at hr
      obtain ⟨result, hLoad, hEq⟩ := map_eq_some_iff.mp hr
      rw [h _ _ _ hLoad, map_some, hEq]
  | _ => exact hr

theorem loadFile_mono_succ (n : Nat) :
    ∀ {b : RuntimeConfigBuilder} {file : Path} {r : Except Path RuntimeConfigBuilder},
      loadFile fs orders n b file = some r → loadFile fs orders (n + 1) b file = some r := by
  induction n with
  | zero =>
    intro b file r h
    exact absurd h (by simp [loadFile])
  | succ n ih =>
    intro b file r h
    rw [loadFile] at h ⊢
    split
    · rename_i hExists
      rw [if_pos hExists] at h
      split
      · rename_i hOpen
        rw [hOpen] at h
        exact h
      · rename_i lines hOpen
        rw [hOpen] at h
        obtain ⟨b', hFold, hEq⟩ := map_eq_some_iff.mp h
        rw [foldlM_mono (fun s x r' hr' => config_mono (fun _ _ _ => ih) hr') lines hFold,
          map_some, hEq]
    · rename_i hMissing
      rw [if_neg hMissing] at h
      exact h

/-- More fuel gives the same result once there is one. -/
theorem loadFile_mono {n m : Nat} (hLe : n ≤ m) {r : Except Path RuntimeConfigBuilder}
    (h : loadFile fs orders n b file = some r) :
    loadFile fs orders m b file = some r := by
  induction hLe with
  | refl => exact h
  | step _ ih => exact loadFile_mono_succ _ ih

/-- What a successful load did: nothing, or it opened a file and processed its lines. -/
theorem loadFile_ok {n : Nat} (h : loadFile fs orders (n + 1) b file = some (.ok r)) :
    r = b ∨ ∃ lines,
      fs.openLines (resolveFilepath fs b.confFile (orders.dirs b.dirs) file) = some lines ∧
      lines.foldlM (config fs orders (loadFile fs orders n))
        (b.opened (resolveFilepath fs b.confFile (orders.dirs b.dirs) file)) = some r := by
  rw [loadFile] at h
  split at h
  · split at h
    · cases h
    · rename_i lines hOpen
      obtain ⟨b', hFold, hEq⟩ := map_eq_some_iff.mp h
      rw [← Except.ok.inj hEq]
      exact .inr ⟨lines, hOpen, hFold⟩
  · exact .inl (Except.ok.inj (some.inj h)).symm

/-- What the single steps of loading keep, if lines are in `L` and `conf-file` lines have paths in
`W` only. -/
structure Kept (fs : FileSystem) (orders : Orders) (L : ConfigItem → Prop) (W : Path → Prop)
    (I : RuntimeConfigBuilder → Prop) : Prop where
  line : ∀ b line, L line → I b → I (b.processLine fs orders line)
  opened : ∀ b file lines, I b → W file →
    fs.openLines (resolveFilepath fs b.confFile (orders.dirs b.dirs) file) = some lines →
    I (b.opened (resolveFilepath fs b.confFile (orders.dirs b.dirs) file)) ∧
      ∀ line ∈ lines, L line ∧ ∀ v, line = .ConfFile v → W v
  included : ∀ b file, I b → W file → I (b.included file)

namespace Kept

section

variable {L : ConfigItem → Prop} {W : Path → Prop} {I : RuntimeConfigBuilder → Prop}
  (hKept : Kept fs orders L W I)

include hKept

/-- One line keeps the invariant when the files it includes do. -/
theorem config {load : RuntimeConfigBuilder → Path → Option (Except Path RuntimeConfigBuilder)}
    (hLoad : ∀ b file r, I b → W file → load b file = some (.ok r) → I r)
    {b r : RuntimeConfigBuilder} {line : ConfigItem}
    (hLine : L line ∧ ∀ v, line = .ConfFile v → W v) (hb : I b)
    (h : ConfigLoader.config fs orders load b line = some r) : I r := by
  have hProcessed : I (b.processLine fs orders line) := hKept.line b line hLine.1 hb
  by_cases hFile : ∃ file, line = .ConfFile file
  · obtain ⟨file, hEq⟩ := hFile
    have hW := hLine.2 file hEq
    subst hEq
    rcases config_confFile h with ⟨-, hr⟩ | ⟨-, result, hResult, hr⟩
    · rw [hr]
      exact hProcessed
    · rw [hr]
      refine hKept.included _ _ ?_ hW
      cases result with
      | error path => exact hProcessed
      | ok b' => exact hLoad _ _ _ hProcessed hW hResult
  · rw [config_eq (fun file hEq => hFile ⟨file, hEq⟩), some.injEq] at h
    rw [← h]
    exact hProcessed

/-- Loading a file keeps the invariant of its lines. -/
theorem loadFile (n : Nat) : ∀ {b r : RuntimeConfigBuilder} {file : Path}, I b → W file →
    ConfigLoader.loadFile fs orders n b file = some (.ok r) → I r := by
  induction n with
  | zero =>
    intro b r file _ _ h
    exact absurd h (by simp [ConfigLoader.loadFile])
  | succ n ih =>
    intro b r file hb hW h
    rcases loadFile_ok h with hSame | ⟨lines, hOpen, hFold⟩
    · rw [hSame]
      exact hb
    · obtain ⟨hOpened, hLines⟩ := hKept.opened b file lines hb hW hOpen
      refine foldlM_invariant ?_ hOpened hFold
      intro s line s' hMem hs hs'
      exact hKept.config (fun _ _ _ hI hFile hr => ih hI hFile hr) (hLines line hMem) hs hs'

/-- Lines given directly keep the invariant too. -/
theorem lines {n : Nat} {lines : List ConfigItem}
    (hLines : ∀ line ∈ lines, L line ∧ ∀ v, line = .ConfFile v → W v)
    {b r : RuntimeConfigBuilder} (hb : I b)
    (h : lines.foldlM (ConfigLoader.config fs orders (ConfigLoader.loadFile fs orders n)) b =
      some r) :
    I r := by
  refine foldlM_invariant ?_ hb h
  intro s line s' hMem hs hs'
  exact hKept.config (fun _ _ _ hI hW hr => hKept.loadFile n hI hW hr) (hLines line hMem) hs hs'

end

/-- What holds of a new builder and is kept holds of the builder that is finished. -/
theorem build {L : ConfigItem → Prop} {I : RuntimeConfigBuilder → Prop}
    (hKept : Kept fs orders L (fun _ => True) I) {setup : Setup} {n : Nat} {cfg : LoadedConfig}
    (hGiven : ∀ line ∈ setup.lines, L line) (hStart : I (start setup.confDir setup.confFile))
    (h : ConfigLoader.build fs orders setup n = some (.ok cfg)) : ∃ b, I b ∧ cfg = finish b := by
  obtain ⟨b, hLines, h⟩ := bind_eq_some_iff.mp h
  have hb : I b :=
    hKept.lines (fun line hMem => ⟨hGiven line hMem, fun _ _ => trivial⟩) hStart hLines
  obtain ⟨result, hMain, h⟩ := bind_eq_some_iff.mp h
  cases result with
  | error path => cases h
  | ok b₁ =>
    have hb₁ : I b₁ := by
      unfold loadMain at hMain
      split at hMain
      · rw [← Except.ok.inj (some.inj hMain)]
        exact hb
      · split at hMain
        · rw [← Except.ok.inj (some.inj hMain)]
          exact hb
        · exact hKept.loadFile n hb trivial hMain
    obtain ⟨b₂, hManaged, h⟩ := bind_eq_some_iff.mp h
    have hb₂ : I b₂ := by
      unfold loadManaged at hManaged
      split at hManaged
      · rw [← some.inj hManaged]
        exact hb₁
      · unfold loadManagedDir at hManaged
        split at hManaged
        · rw [← some.inj hManaged]
          exact hb₁
        · refine foldlM_invariant ?_ hb₁ hManaged
          intro s file s' _ hs hs'
          obtain ⟨result, hResult, hEq⟩ := map_eq_some_iff.mp hs'
          rw [← hEq]
          cases result with
          | error path => exact hs
          | ok s'' => exact hKept.loadFile n hs trivial hResult
    exact ⟨b₂, hb₂, (Except.ok.inj (some.inj h)).symm⟩

end Kept

end Rules

end SmartDns.Ports.ConfigLoader
