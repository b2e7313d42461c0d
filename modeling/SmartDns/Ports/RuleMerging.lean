import SmartDns.Ports.ConfigText
import SmartDns.Ports.RuleChain

/-!
# Merging the lines of one domain

Several `domain-rules` lines may speak about one domain. `create` merges them from the first
to the last, starting from the empty rule, and `add_assign` decides attribute by attribute
what a later line does to an earlier one.

`overlay` is the merge that the attributes call for: what the later line defines counts,
and what it leaves open stays. `add_assign` goes through the attributes by hand. It passes
over eight of them, which the later line then cannot set, and takes the upper TTL bound from
the lower one. Both are faults of a single merge; merging is associative all the same,
and how the lines are grouped does not matter.
-/

namespace SmartDns.Ports.RuleMerging

open PatternMap RuleTree RuleSources ConfigValues ConfigText List

/-! ## The merge of two rules -/

/-- The merge that the attributes call for: the value of the later rule, or else of the earlier. -/
def overlay (rule rhs : DomainRule) : DomainRule where
  nameserver := rhs.nameserver.or rule.nameserver
  address := rhs.address.or rule.address
  cname := rhs.cname.or rule.cname
  speedCheckMode := rhs.speedCheckMode.or rule.speedCheckMode
  dualstackIpSelection := rhs.dualstackIpSelection.or rule.dualstackIpSelection
  responseMode := rhs.responseMode.or rule.responseMode
  noCache := rhs.noCache.or rule.noCache
  noServeExpired := rhs.noServeExpired.or rule.noServeExpired
  rrTtl := rhs.rrTtl.or rule.rrTtl
  rrTtlMin := rhs.rrTtlMin.or rule.rrTtlMin
  rrTtlMax := rhs.rrTtlMax.or rule.rrTtlMax
  subnet := rhs.subnet.or rule.subnet
  srv := rhs.srv.or rule.srv
  https := rhs.https.or rule.https
  txt := rhs.txt.or rule.txt
  nftset := rhs.nftset.or rule.nftset
  ipsets := rhs.ipsets.or rule.ipsets

/-- Nothing is lost if the value `new` is passed over: it is absent, or the one that stays. -/
def Agrees {α : Type} (old new : Option α) : Prop := new = none ∨ new = old

theorem or_eq_iff {α : Type} {old new : Option α} : old = new.or old ↔ Agrees old new := by
  cases new with
  | none => simp [Agrees]
  | some v =>
    exact ⟨fun h => .inr h.symm, fun h => (h.resolve_left nofun).symm⟩

theorem or_eq_or_iff {α : Type} {old new new' : Option α} :
    new'.or old = new.or old ↔ new' = new ∨ (Agrees old new ∧ Agrees old new') := by
  cases new with
  | none =>
    rw [Option.none_or, eq_comm, or_eq_iff]
    constructor
    · intro h
      exact .inr ⟨.inl rfl, h⟩
    · rintro (rfl | ⟨-, h⟩)
      · exact .inl rfl
      · exact h
  | some v =>
    cases new' with
    | none =>
      rw [Option.none_or, or_eq_iff]
      constructor
      · intro h
        exact .inr ⟨h, .inl rfl⟩
      · rintro (h | ⟨h, -⟩)
        · cases h
        · exact h
    | some v' =>
      constructor
      · exact .inl
      · rintro (h | ⟨h, h'⟩)
        · exact h
        · exact (h'.resolve_left nofun).trans (h.resolve_left nofun).symm

/-- What `add_assign` does not look at says nothing new: the eight attributes it passes over, and
the upper TTL bound, in whose place it takes the lower one. -/
structure Undropped (rule rhs : DomainRule) : Prop where
  cname : Agrees rule.cname rhs.cname
  responseMode : Agrees rule.responseMode rhs.responseMode
  subnet : Agrees rule.subnet rhs.subnet
  srv : Agrees rule.srv rhs.srv
  https : Agrees rule.https rhs.https
  txt : Agrees rule.txt rhs.txt
  nftset : Agrees rule.nftset rhs.nftset
  ipsets : Agrees rule.ipsets rhs.ipsets
  rrTtlMax : rhs.rrTtlMin = rhs.rrTtlMax ∨
    (Agrees rule.rrTtlMax rhs.rrTtlMax ∧ Agrees rule.rrTtlMax rhs.rrTtlMin)

/-- The pairs of rules that are merged as they should be. -/
theorem addAssign_eq_overlay_iff (rule rhs : DomainRule) :
    addAssign rule rhs = overlay rule rhs ↔ Undropped rule rhs := by
  unfold addAssign overlay
  rw [DomainRule.mk.injEq]
  simp only [true_and, or_eq_iff, or_eq_or_iff]
  constructor
  · rintro ⟨hCname, hMode, hMax, hSubnet, hSrv, hHttps, hTxt, hNft, hIp⟩
    exact ⟨hCname, hMode, hSubnet, hSrv, hHttps, hTxt, hNft, hIp, hMax⟩
  · intro h
    exact ⟨h.cname, h.responseMode, h.rrTtlMax, h.subnet, h.srv, h.https, h.txt, h.nftset, h.ipsets⟩

/-- Merging rules is associative. -/
theorem addAssign_assoc (a b c : DomainRule) :
    addAssign (addAssign a b) c = addAssign a (addAssign b c) := by
  simp only [addAssign, Option.or_assoc]

theorem addAssign_default (rule : DomainRule) : addAssign rule DomainRule.default = rule := rfl

/-- Merged into the empty rule, a rule stays as it is if nothing of it is passed over. -/
theorem overlay_default (rule : DomainRule) : overlay DomainRule.default rule = rule := by
  simp only [overlay, DomainRule.default, Option.or_none]

/-- A line that comes twice counts once. -/
theorem addAssign_self (rule rhs : DomainRule) :
    addAssign (addAssign rule rhs) rhs = addAssign rule rhs := by
  simp only [addAssign, ← Option.or_assoc, Option.or_self]

/-! ## Groups of lines -/

/-- The lines of a group merged beforehand. -/
def merged (lines : List DomainRule) : DomainRule := lines.foldl addAssign DomainRule.default

theorem addAssign_foldl (rule : DomainRule) (lines : List DomainRule) : ∀ start,
    addAssign rule (lines.foldl addAssign start) =
      lines.foldl addAssign (addAssign rule start) := by
  induction lines with
  | nil =>
    intro start
    rfl
  | cons line lines ih =>
    intro start
    rw [foldl_cons, foldl_cons, ih, addAssign_assoc]

/-- Merging block by block is merging line by line. -/
theorem foldl_merged (blocks : List (List DomainRule)) : ∀ rule,
    (blocks.map merged).foldl addAssign rule = blocks.flatten.foldl addAssign rule := by
  induction blocks with
  | nil =>
    intro rule
    rfl
  | cons block blocks ih =>
    intro rule
    rw [map_cons, foldl_cons, ih, flatten_cons, foldl_append, merged,
      addAssign_foldl, addAssign_default]

def linesFor (target : Domain) (rules : List DomainRule) : List (ConfigForDomain DomainRule) :=
  rules.map fun rule => ⟨target, rule⟩

section Collected

variable {sets : DomainSets} {target : Domain} {p : WildcardName}

theorem updatesTo_append_writes (ws ws' : List Write) :
    updatesTo (ws ++ ws') p = updatesTo ws p ++ updatesTo ws' p := by
  simp [updatesTo]

theorem firstSpelling_append_writes (ws ws' : List Write) :
    firstSpelling (ws ++ ws') p = (firstSpelling ws p).or (firstSpelling ws' p) := by
  simp [firstSpelling]

/-- What one line does to a pattern that its domain stands for, however often. -/
theorem applyAll_line (names : List WildcardName) (rhs : DomainRule) : ∀ rule,
    applyAll (updatesTo (names.map fun name => (name, updatesOf rhs)) p) rule =
      if names.any (· == p) then addAssign rule rhs else rule := by
  induction names with
  | nil =>
    intro rule
    rfl
  | cons name names ih =>
    intro rule
    rw [map_cons, ← singleton_append, updatesTo_append_writes, applyAll_append, ih]
    by_cases hName : (name == p) = true
    · have hFirst : applyAll (updatesTo [(name, updatesOf rhs)] p) rule = addAssign rule rhs := by
        rw [addAssign_eq]
        simp [updatesTo, hName]
      rw [hFirst, addAssign_self]
      simp [hName]
    · have hFirst : applyAll (updatesTo [(name, updatesOf rhs)] p) rule = rule := by
        simp [updatesTo, hName, applyAll]
      rw [hFirst]
      simp [hName]

theorem writesOf_cons (rhs : DomainRule) (rules : List DomainRule) :
    writesOf sets updatesOf (linesFor target (rhs :: rules)) =
      (expandDomain sets target).map (fun name => (name, updatesOf rhs)) ++
        writesOf sets updatesOf (linesFor target rules) := rfl

/-- The pass over the `domain-rules` lines merges those of the pattern. -/
theorem applyAll_domainRules (lines : List (ConfigForDomain DomainRule)) : ∀ rule,
    applyAll (updatesTo (writesOf sets updatesOf lines) p) rule =
      ((lines.filter fun line => (expandDomain sets line.domain).any (· == p)).map
        (·.config)).foldl addAssign rule := by
  induction lines with
  | nil =>
    intro rule
    rfl
  | cons line lines ih =>
    intro rule
    have hSplit : writesOf sets updatesOf (line :: lines) =
        (expandDomain sets line.domain).map (fun name => (name, updatesOf line.config)) ++
          writesOf sets updatesOf lines := rfl
    rw [hSplit, updatesTo_append_writes, applyAll_append, applyAll_line, ih, filter_cons]
    split <;> rfl

/-- Lines act in order on a pattern their target expands to, and on no other. -/
theorem applyAll_lines (rules : List DomainRule) (rule : DomainRule) :
    applyAll (updatesTo (writesOf sets updatesOf (linesFor target rules)) p) rule =
      if (expandDomain sets target).any (· == p) then rules.foldl addAssign rule else rule := by
  rw [applyAll_domainRules, linesFor, filter_map, map_map]
  cases hNamed : (expandDomain sets target).any (· == p) <;> simp [Function.comp_def, hNamed]

theorem firstSpelling_lines {rules : List DomainRule} (h : rules ≠ []) :
    firstSpelling (writesOf sets updatesOf (linesFor target rules)) p =
      (expandDomain sets target).find? (· == p) := by
  have hNames : ∀ us : List Update,
      firstSpelling ((expandDomain sets target).map fun name => (name, us)) p =
        (expandDomain sets target).find? (· == p) := by
    simp [firstSpelling, Function.comp_def]
  induction rules with
  | nil => exact absurd rfl h
  | cons rhs rules ih =>
    rw [writesOf_cons, firstSpelling_append_writes, hNames]
    cases rules with
    | nil => exact Option.or_none
    | cons rhs' rules => rw [ih (cons_ne_nil rhs' rules), Option.or_self]

/-- **Lines of one domain may be merged in groups**: the table of rules is the same. -/
theorem collect_grouped (nftsets : NftSets) (group : RuleGroup)
    (before after : List (ConfigForDomain DomainRule)) (blocks : List (List DomainRule))
    (hBlocks : ∀ block ∈ blocks, block ≠ []) :
    (collect sets nftsets
      { group with domainRules := before ++ linesFor target (blocks.map merged) ++ after }).Perm
    (collect sets nftsets
      { group with domainRules := before ++ linesFor target blocks.flatten ++ after }) := by
  rw [collect_eq, collect_eq]
  refine performWrites_perm_of_rule ?_
  intro p
  have hWrites : ∀ lines,
      writes sets nftsets { group with domainRules := before ++ lines ++ after } =
      writesOf sets updatesOf before ++ (writesOf sets updatesOf lines ++
        (writesOf sets updatesOf after ++ writes sets nftsets
          { group with domainRules := [] })) := by
    simp [writes, writesOf]
  rw [hWrites, hWrites]
  cases blocks with
  | nil => exact ⟨rfl, rfl⟩
  | cons block blocks =>
    have hFlat : (block :: blocks).flatten ≠ [] := by
      exact append_ne_nil_of_left_ne_nil (hBlocks block mem_cons_self) _
    have hMapped : (block :: blocks).map merged ≠ [] := cons_ne_nil _ _
    refine ⟨?_, ?_⟩
    · simp only [firstSpelling_append_writes, firstSpelling_lines hMapped,
        firstSpelling_lines hFlat]
    · simp only [updatesTo_append_writes, applyAll_append, applyAll_lines, foldl_merged]

end Collected

/-- **The laws of merging**: which pairs of rules are merged attribute by attribute as they should
be, and that merging is associative, has the empty rule as its right identity, as its left identity
for the rules of which nothing is passed over, and does not depend on how lines are grouped. -/
theorem merging_laws (a b c : DomainRule) (sets : DomainSets) (nftsets : NftSets)
    (group : RuleGroup) (target : Domain) (before after : List (ConfigForDomain DomainRule))
    (blocks : List (List DomainRule)) :
    (addAssign a b = overlay a b ↔ Undropped a b) ∧
    addAssign (addAssign a b) c = addAssign a (addAssign b c) ∧
    addAssign a DomainRule.default = a ∧
    (addAssign DomainRule.default a = a ↔ Undropped DomainRule.default a) ∧
    ((∀ block ∈ blocks, block ≠ []) →
      (collect sets nftsets
        { group with domainRules := before ++ linesFor target (blocks.map merged) ++ after }).Perm
      (collect sets nftsets
        { group with domainRules := before ++ linesFor target blocks.flatten ++ after })) := by
  refine ⟨addAssign_eq_overlay_iff a b, addAssign_assoc a b c, addAssign_default a, ?_, ?_⟩
  · have hIff := addAssign_eq_overlay_iff DomainRule.default a
    rw [overlay_default] at hIff
    exact hIff
  · intro hBlocks
    exact collect_grouped nftsets group before after blocks hBlocks

/-! ## Two lines -/

/-- A group name and an address. -/
def groupRule : DomainRule := { DomainRule.default with nameserver := some "office" }

def addressRule : DomainRule :=
  { DomainRule.default with address := some .SOA, noCache := some true }

/-- Three rules for one domain, two of them on one line. -/
def twoBlocks : List (List DomainRule) := [[groupRule, addressRule], [groupRule]]

/-- The table for one domain with these lines. -/
def tableOf (rules : List DomainRule) : NameRuleMap :=
  collect (fun _ => none) []
    { RuleGroup.default with domainRules := linesFor (.Name (.Full RuleChain.wwwName)) rules }

theorem merging_laws_address :
    addAssign groupRule addressRule = overlay groupRule addressRule ∧
      addAssign DomainRule.default addressRule = addressRule ∧
      (tableOf (twoBlocks.map merged)).Perm (tableOf twoBlocks.flatten) := by
  have hKept : ∀ rule, Undropped rule addressRule := fun rule =>
    ⟨.inl rfl, .inl rfl, .inl rfl, .inl rfl, .inl rfl, .inl rfl, .inl rfl, .inl rfl, .inl rfl⟩
  have hPair := merging_laws groupRule addressRule addressRule (fun _ => none) []
    RuleGroup.default (.Name (.Full RuleChain.wwwName)) [] [] twoBlocks
  have hIdentity := merging_laws addressRule addressRule addressRule (fun _ => none) []
    RuleGroup.default (.Name (.Full RuleChain.wwwName)) [] [] []
  have hGrouped := hPair.2.2.2.2 (by simp [twoBlocks])
  simp only [List.nil_append, List.append_nil] at hGrouped
  exact ⟨hPair.1.mpr (hKept _), hIdentity.2.2.2.1.mpr (hKept _), hGrouped⟩

/-- A line with an alias and bounds for the TTL. -/
def boundsText : List Char := "-cname a.b -rr-ttl-min 60 -rr-ttl-max 600".toList

def boundsRule : DomainRule :=
  { DomainRule.default with
    cname := some (.Value ⟨[[97], [98]], false⟩), rrTtlMin := some 60, rrTtlMax := some 600 }

/-- The alias of a line is lost and its upper bound is the lower one. -/
theorem merging_drops_alias :
    (domainRule asciiLib).run boundsText = some (boundsRule, []) ∧
      (addAssign groupRule boundsRule).cname = none ∧
      (overlay groupRule boundsRule).cname = boundsRule.cname ∧
      (addAssign groupRule boundsRule).rrTtlMax = some 60 ∧
      (overlay groupRule boundsRule).rrTtlMax = some 600 ∧
      addAssign DomainRule.default boundsRule ≠ boundsRule ∧
      collect (fun _ => none) [] { RuleGroup.default with
        domainRules := [⟨.Name (.Full RuleChain.wwwName), boundsRule⟩] } =
        [(.Full RuleChain.wwwName, { boundsRule with cname := none, rrTtlMax := some 60 })] := by
  decide +kernel

end SmartDns.Ports.RuleMerging
