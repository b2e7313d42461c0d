import SmartDns.Verified.AssocList
import SmartDns.Verified.LastSome
import SmartDns.Ports.RuleTree

/-!
# Collecting the rules of a pattern

The lines of a rule group speak about patterns one attribute at a time, and a
pattern may be named by many of them, directly or through a domain set.
`collect` merges them into one rule per pattern, in nine passes over the kinds of
lines. The table it fills is keyed by patterns up to letter case; the spelling
that came first stays.

What the passes amount to is a sequence of writes. A line writes some
attributes of the patterns it names, and the merged rule of a pattern is what
the writes to it leave behind, so it depends only on the order of the writes to
each single attribute.

The table that shares equal rules between patterns replaces a rule by an equal
one and is not part of the model.
-/

namespace SmartDns.Ports.RuleSources

open Verified DomainName PatternMap RuleTree

/-! ## Rule groups -/

/-- Whom a line speaks about. -/
inductive Domain where
  | Name (name : WildcardName)
  | Set (set : String)

/-- `PartialEq` of domains. -/
instance : BEq Domain where
  beq
    | .Name a, .Name b => a == b
    | .Set a, .Set b => decide (a = b)
    | _, _ => false

/-- One line about a domain; address and forward rules have the same shape. -/
structure ConfigForDomain (α : Type) where
  domain : Domain
  config : α

/-- The lines of one rule group by kind. -/
structure RuleGroup where
  forwardRules : List (ConfigForDomain String)
  addressRules : List (ConfigForDomain AddressRuleValue)
  domainRules : List (ConfigForDomain DomainRule)
  cnames : List (ConfigForDomain CNameRule)
  srvRecords : List (ConfigForDomain (List UInt8))
  httpsRecords : List (ConfigForDomain HttpsRecordRule)
  txtRecords : List (ConfigForDomain (List UInt8))
  ipsets : List (ConfigForDomain String)

namespace RuleGroup

def default : RuleGroup := ⟨[], [], [], [], [], [], [], []⟩

/-- `RuleGroup::merge`: the lines of another group are appended kind by kind. -/
def merge (g other : RuleGroup) : RuleGroup where
  forwardRules := g.forwardRules ++ other.forwardRules
  addressRules := g.addressRules ++ other.addressRules
  domainRules := g.domainRules ++ other.domainRules
  cnames := g.cnames ++ other.cnames
  srvRecords := g.srvRecords ++ other.srvRecords
  httpsRecords := g.httpsRecords ++ other.httpsRecords
  txtRecords := g.txtRecords ++ other.txtRecords
  ipsets := g.ipsets ++ other.ipsets

/-- The rules that follow a kept one, without those that repeat the last kept domain. -/
def dedupAfter {α : Type} (last : ConfigForDomain α) :
    List (ConfigForDomain α) → List (ConfigForDomain α)
  | [] => []
  | rule :: rest =>
    if rule.domain == last.domain then dedupAfter last rest else rule :: dedupAfter rule rest

/-- `Vec::dedup_by` on the domain: of neighbours with equal domains the first stays. -/
def dedupBy {α : Type} : List (ConfigForDomain α) → List (ConfigForDomain α)
  | [] => []
  | rule :: rest => rule :: dedupAfter rule rest

/-- The alias rules without repeated neighbours. -/
def dedupCnames (g : RuleGroup) : RuleGroup := { g with cnames := dedupBy g.cnames }

end RuleGroup

/-- The names of each domain set, in the order in which they are iterated. -/
abbrev DomainSets := String → Option (List WildcardName)

/-- The nftset lines of the configuration, which every group gets. -/
abbrev NftSets := List (ConfigForDomain (List String))

/-! ## Merging -/

/-- `DomainRule::add_assign`; the upper TTL bound follows the lower one of the new rule. -/
def addAssign (rule rhs : DomainRule) : DomainRule :=
  { rule with
    nameserver := rhs.nameserver.or rule.nameserver
    address := rhs.address.or rule.address
    speedCheckMode := rhs.speedCheckMode.or rule.speedCheckMode
    dualstackIpSelection := rhs.dualstackIpSelection.or rule.dualstackIpSelection
    noCache := rhs.noCache.or rule.noCache
    noServeExpired := rhs.noServeExpired.or rule.noServeExpired
    rrTtl := rhs.rrTtl.or rule.rrTtl
    rrTtlMin := rhs.rrTtlMin.or rule.rrTtlMin
    rrTtlMax := rhs.rrTtlMin.or rule.rrTtlMax }

/-- `name_rule_map`, as the list of its entries. -/
abbrev NameRuleMap := List (WildcardName × DomainRule)

/-- `entry(name).or_default()`, followed by an update of the value. -/
def entry (name : WildcardName) (f : DomainRule → DomainRule) : NameRuleMap → NameRuleMap
  | [] => [(name, f DomainRule.default)]
  | (key, rule) :: rest =>
    if key == name then (key, f rule) :: rest else (key, rule) :: entry name f rest

/-- The patterns a domain stands for. -/
def expandDomain (sets : DomainSets) : Domain → List WildcardName
  | .Name name => [name]
  | .Set set => (sets set).getD []

/-- One pass of `create`: every line updates the entries of its patterns. -/
def appendRules {α : Type} (sets : DomainSets) (update : α → DomainRule → DomainRule)
    (rules : List (ConfigForDomain α)) (map : NameRuleMap) : NameRuleMap :=
  rules.foldl (fun map rule =>
    (expandDomain sets rule.domain).foldl (fun map name => entry name (update rule.config) map) map)
    map

def setAddress (value : AddressRuleValue) (rule : DomainRule) : DomainRule :=
  { rule with address := some value }

def setNameserver (value : String) (rule : DomainRule) : DomainRule :=
  { rule with nameserver := some value }

def setCname (value : CNameRule) (rule : DomainRule) : DomainRule :=
  { rule with cname := some value }

def pushSrv (value : List UInt8) (rule : DomainRule) : DomainRule :=
  { rule with srv := some (rule.srv.getD [] ++ [value]) }

def setHttps (value : HttpsRecordRule) (rule : DomainRule) : DomainRule :=
  { rule with https := some value }

def pushIpset (value : String) (rule : DomainRule) : DomainRule :=
  { rule with ipsets := some (rule.ipsets.getD [] ++ [value]) }

def pushTxt (value : List UInt8) (rule : DomainRule) : DomainRule :=
  { rule with txt := some (rule.txt.getD [] ++ [value]) }

def setNftset (value : List String) (rule : DomainRule) : DomainRule :=
  { rule with nftset := some value }

/-- `DomainRuleMap::create` up to the filled table. -/
def collect (sets : DomainSets) (nftsets : NftSets) (group : RuleGroup) : NameRuleMap :=
  let map := appendRules sets (fun config rule => addAssign rule config) group.domainRules []
  let map := appendRules sets setAddress group.addressRules map
  let map := appendRules sets setNameserver group.forwardRules map
  let map := appendRules sets setCname group.cnames map
  let map := appendRules sets pushSrv group.srvRecords map
  let map := appendRules sets setHttps group.httpsRecords map
  let map := appendRules sets pushIpset group.ipsets map
  let map := appendRules sets pushTxt group.txtRecords map
  appendRules sets setNftset nftsets map

/-! ## Writes -/

/-- The attributes a line can write. -/
inductive Attribute where
  | nameserver
  | address
  | cname
  | speedCheckMode
  | dualstackIpSelection
  | noCache
  | noServeExpired
  | rrTtl
  | rrTtlMin
  | rrTtlMax
  | srv
  | https
  | txt
  | nftset
  | ipsets
  deriving DecidableEq

/-- A write to one attribute of a rule. -/
inductive Update where
  | nameserver (value : String)
  | address (value : AddressRuleValue)
  | cname (value : CNameRule)
  | speedCheckMode (value : List SpeedCheckMode)
  | dualstackIpSelection (value : Bool)
  | noCache (value : Bool)
  | noServeExpired (value : Bool)
  | rrTtl (value : Nat)
  | rrTtlMin (value : Nat)
  | rrTtlMax (value : Nat)
  | srv (value : List UInt8)
  | https (value : HttpsRecordRule)
  | txt (value : List UInt8)
  | nftset (value : List String)
  | ipsets (value : String)

namespace Update

/-- The attribute that is written. -/
def target : Update → Attribute
  | .nameserver _ => .nameserver
  | .address _ => .address
  | .cname _ => .cname
  | .speedCheckMode _ => .speedCheckMode
  | .dualstackIpSelection _ => .dualstackIpSelection
  | .noCache _ => .noCache
  | .noServeExpired _ => .noServeExpired
  | .rrTtl _ => .rrTtl
  | .rrTtlMin _ => .rrTtlMin
  | .rrTtlMax _ => .rrTtlMax
  | .srv _ => .srv
  | .https _ => .https
  | .txt _ => .txt
  | .nftset _ => .nftset
  | .ipsets _ => .ipsets

/-- The rule after a write. -/
def apply (rule : DomainRule) : Update → DomainRule
  | .nameserver value => setNameserver value rule
  | .address value => setAddress value rule
  | .cname value => setCname value rule
  | .speedCheckMode value => { rule with speedCheckMode := some value }
  | .dualstackIpSelection value => { rule with dualstackIpSelection := some value }
  | .noCache value => { rule with noCache := some value }
  | .noServeExpired value => { rule with noServeExpired := some value }
  | .rrTtl value => { rule with rrTtl := some value }
  | .rrTtlMin value => { rule with rrTtlMin := some value }
  | .rrTtlMax value => { rule with rrTtlMax := some value }
  | .srv value => pushSrv value rule
  | .https value => setHttps value rule
  | .txt value => pushTxt value rule
  | .nftset value => setNftset value rule
  | .ipsets value => pushIpset value rule

end Update

/-- What a `domain-rules` line writes. -/
def updatesOf (rhs : DomainRule) : List Update :=
  (rhs.nameserver.map .nameserver).toList ++ (rhs.address.map .address).toList ++
  (rhs.speedCheckMode.map .speedCheckMode).toList ++
  (rhs.dualstackIpSelection.map .dualstackIpSelection).toList ++
  (rhs.noCache.map .noCache).toList ++ (rhs.noServeExpired.map .noServeExpired).toList ++
  (rhs.rrTtl.map .rrTtl).toList ++ (rhs.rrTtlMin.map .rrTtlMin).toList ++
  (rhs.rrTtlMin.map .rrTtlMax).toList

/-- Writes to one rule, in order. -/
def applyAll (us : List Update) (rule : DomainRule) : DomainRule := us.foldl Update.apply rule

theorem applyAll_append (us vs : List Update) (rule : DomainRule) :
    applyAll (us ++ vs) rule = applyAll vs (applyAll us rule) := by
  simp [applyAll]

theorem applyAll_optional {α : Type} (u : α → Update)
    (set : Option α → DomainRule → DomainRule) (v : Option α) (rule : DomainRule)
    (hNone : ∀ r, set none r = r := by intros; rfl)
    (hSome : ∀ a r, set (some a) r = (u a).apply r := by intros; rfl) :
    applyAll (v.map u).toList rule = set v rule := by
  cases v with
  | none => exact (hNone rule).symm
  | some a => exact (hSome a rule).symm

/-- Merging a rule performs its writes, one optional write per attribute. -/
theorem addAssign_eq (rule rhs : DomainRule) :
    addAssign rule rhs = applyAll (updatesOf rhs) rule := by
  unfold updatesOf
  simp only [applyAll_append]
  rw [applyAll_optional .nameserver fun v r => { r with nameserver := v.or r.nameserver },
    applyAll_optional .address fun v r => { r with address := v.or r.address },
    applyAll_optional .speedCheckMode
      fun v r => { r with speedCheckMode := v.or r.speedCheckMode },
    applyAll_optional .dualstackIpSelection
      fun v r => { r with dualstackIpSelection := v.or r.dualstackIpSelection },
    applyAll_optional .noCache fun v r => { r with noCache := v.or r.noCache },
    applyAll_optional .noServeExpired
      fun v r => { r with noServeExpired := v.or r.noServeExpired },
    applyAll_optional .rrTtl fun v r => { r with rrTtl := v.or r.rrTtl },
    applyAll_optional .rrTtlMin fun v r => { r with rrTtlMin := v.or r.rrTtlMin },
    applyAll_optional .rrTtlMax fun v r => { r with rrTtlMax := v.or r.rrTtlMax }]
  rfl

/-- What each of the updates leaves as it is, all of them do. -/
theorem applyAll_keeps {γ : Type} (f : DomainRule → γ) {us : List Update}
    (h : ∀ u ∈ us, ∀ rule, f (u.apply rule) = f rule) (rule : DomainRule) :
    f (applyAll us rule) = f rule := by
  induction us using List.reverseRecOn with
  | nil => rfl
  | append_singleton us u ih =>
    rw [applyAll_append, ← ih fun v hv => h v (List.mem_append_left _ hv)]
    exact h u (by simp) _

/-- One line's writes to one pattern. -/
abbrev Write := WildcardName × List Update

/-- The writes of the lines of one kind. -/
def writesOf {α : Type} (sets : DomainSets) (updates : α → List Update)
    (rules : List (ConfigForDomain α)) : List Write :=
  rules.flatMap fun rule => (expandDomain sets rule.domain).map fun name =>
    (name, updates rule.config)

/-- What holds of every update holds of every write. -/
theorem forall_writesOf {α : Type} {sets : DomainSets} {updates : α → List Update}
    {P : Update → Prop} (h : ∀ a, ∀ u ∈ updates a, P u) (rules : List (ConfigForDomain α)) :
    ∀ w ∈ writesOf sets updates rules, ∀ u ∈ w.2, P u := by
  intro w hw u hu
  obtain ⟨rule, -, hw⟩ := List.mem_flatMap.mp hw
  obtain ⟨name, -, rfl⟩ := List.mem_map.mp hw
  exact h rule.config u hu

/-- The writes of a group, in the order of the passes. -/
def writes (sets : DomainSets) (nftsets : NftSets) (group : RuleGroup) : List Write :=
  writesOf sets updatesOf group.domainRules ++
  writesOf sets (fun value => [.address value]) group.addressRules ++
  writesOf sets (fun value => [.nameserver value]) group.forwardRules ++
  writesOf sets (fun value => [.cname value]) group.cnames ++
  writesOf sets (fun value => [.srv value]) group.srvRecords ++
  writesOf sets (fun value => [.https value]) group.httpsRecords ++
  writesOf sets (fun value => [.ipsets value]) group.ipsets ++
  writesOf sets (fun value => [.txt value]) group.txtRecords ++
  writesOf sets (fun value => [.nftset value]) nftsets

def performWrites (map : NameRuleMap) (ws : List Write) : NameRuleMap :=
  ws.foldl (fun map w => entry w.1 (applyAll w.2) map) map

theorem performWrites_append (map : NameRuleMap) (ws ws' : List Write) :
    performWrites map (ws ++ ws') = performWrites (performWrites map ws) ws' := by
  simp [performWrites]

/-- A pass performs the writes of its lines. -/
theorem appendRules_eq {α : Type} (sets : DomainSets) (update : α → DomainRule → DomainRule)
    (updates : α → List Update) (hUpdate : ∀ a rule, update a rule = applyAll (updates a) rule)
    (rules : List (ConfigForDomain α)) :
    ∀ map, appendRules sets update rules map = performWrites map (writesOf sets updates rules) := by
  have hFun : update = fun a => applyAll (updates a) := by
    funext a rule
    exact hUpdate a rule
  rw [hFun]
  induction rules with
  | nil =>
    intro map
    rfl
  | cons rule rest ih =>
    intro map
    have hRest := ih ((expandDomain sets rule.domain).foldl
      (fun map name => entry name (applyAll (updates rule.config)) map) map)
    have hLine : performWrites map ((expandDomain sets rule.domain).map
        fun name => (name, updates rule.config)) =
        (expandDomain sets rule.domain).foldl
          (fun map name => entry name (applyAll (updates rule.config)) map) map := by
      simp [performWrites, List.foldl_map]
    unfold appendRules at hRest ⊢
    rw [List.foldl_cons, hRest]
    unfold writesOf
    rw [List.flatMap_cons, performWrites_append, hLine]

/-- Collecting is performing the writes of the group. -/
theorem collect_eq (sets : DomainSets) (nftsets : NftSets) (group : RuleGroup) :
    collect sets nftsets group = performWrites [] (writes sets nftsets group) := by
  unfold collect writes
  dsimp only
  rw [appendRules_eq sets _ _ fun a rule => addAssign_eq rule a,
    appendRules_eq sets setAddress (fun value => [.address value]) fun _ _ => rfl,
    appendRules_eq sets setNameserver (fun value => [.nameserver value]) fun _ _ => rfl,
    appendRules_eq sets setCname (fun value => [.cname value]) fun _ _ => rfl,
    appendRules_eq sets pushSrv (fun value => [.srv value]) fun _ _ => rfl,
    appendRules_eq sets setHttps (fun value => [.https value]) fun _ _ => rfl,
    appendRules_eq sets pushIpset (fun value => [.ipsets value]) fun _ _ => rfl,
    appendRules_eq sets pushTxt (fun value => [.txt value]) fun _ _ => rfl,
    appendRules_eq sets setNftset (fun value => [.nftset value]) fun _ _ => rfl]
  simp [performWrites_append]

/-! ## What is collected -/

/-- A table with one entry per pattern. -/
def DistinctKeys (map : NameRuleMap) : Prop := map.Pairwise fun a b => (a.1 == b.1) = false

variable {p : WildcardName}

variable {map : NameRuleMap}

theorem DistinctKeys.nodup (h : DistinctKeys map) : map.Nodup := by
  refine h.imp ?_
  rintro a b hOther rfl
  exact absurd (hOther.symm.trans BEq.rfl) (by decide)

theorem entry_eq (name : WildcardName) (f : DomainRule → DomainRule) (map : NameRuleMap) :
    entry name f map = upsert name f DomainRule.default map := by
  induction map with
  | nil => rfl
  | cons head rest ih => simp only [entry, upsert, ih]

/-- The table that writes fill. -/
theorem performWrites_eq (ws : List Write) : performWrites [] ws =
    tabulate Prod.fst (fun w => applyAll w.2) DomainRule.default ws := by
  simp only [performWrites, tabulate, entry_eq]

/-- The updates that a sequence of writes performs on a pattern. -/
def updatesTo (ws : List Write) (p : WildcardName) : List Update :=
  (ws.filter fun w => w.1 == p).flatMap Prod.snd

theorem mem_updatesTo {ws : List Write} {u : Update} (h : u ∈ updatesTo ws p) :
    ∃ w ∈ ws, u ∈ w.2 := by
  obtain ⟨w, hw, hu⟩ := List.mem_flatMap.mp h
  exact ⟨w, List.mem_of_mem_filter hw, hu⟩

/-- The spelling under which a pattern is written first. -/
def firstSpelling (ws : List Write) (p : WildcardName) : Option WildcardName :=
  (ws.map Prod.fst).find? fun name => name == p

variable {ws : List Write}

/-- A table filled by writes has one entry per pattern, in its first spelling, with what the
writes to the pattern leave behind. -/
theorem mem_performWrites (ws : List Write) :
    DistinctKeys (performWrites [] ws) ∧
      (∀ p r, (p, r) ∈ performWrites [] ws ↔
        firstSpelling ws p = some p ∧ r = applyAll (updatesTo ws p) DomainRule.default) := by
  have hUpdates : ∀ (ws : List Write) rule, ws.foldl (fun rule w => applyAll w.2 rule) rule =
      applyAll (ws.flatMap Prod.snd) rule := by
    intro ws
    induction ws with
    | nil => exact fun _ => rfl
    | cons w ws ih =>
      intro rule
      rw [List.foldl_cons, ih, List.flatMap_cons, applyAll_append]
  rw [performWrites_eq]
  refine ⟨distinctKeys_tabulate _ _ _ ws, fun p r => ?_⟩
  rw [mem_tabulate, hUpdates]
  rfl

variable {ws' : List Write}

/-- Writes that leave the same rule for every pattern, under the same spelling, fill the same table
up to its order. -/
theorem performWrites_perm_of_rule
    (h : ∀ p, firstSpelling ws p = firstSpelling ws' p ∧
      applyAll (updatesTo ws p) DomainRule.default =
        applyAll (updatesTo ws' p) DomainRule.default) :
    (performWrites [] ws).Perm (performWrites [] ws') := by
  obtain ⟨hKeys, hMem⟩ := mem_performWrites ws
  obtain ⟨hKeys', hMem'⟩ := mem_performWrites ws'
  rw [List.perm_ext_iff_of_nodup hKeys.nodup hKeys'.nodup]
  rintro ⟨p, r⟩
  rw [hMem, hMem', (h p).1, (h p).2]

end SmartDns.Ports.RuleSources
