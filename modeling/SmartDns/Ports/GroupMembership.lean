import Mathlib.Algebra.BigOperators.Group.Multiset.Basic
import Mathlib.Tactic.Abel
import SmartDns.Ports.ConfigLoading

/-!
# Which group a line belongs to

Every line belongs to the group opened last among those that are open when the
line is processed, and to the default group if none is open. `placedLines`
states this for the lines in the order in which they are processed, across the
files they come from; a superfluous `group-end` line closes nothing.

The builder works with frames. It opens a frame of the default group whenever a
line finds no frame, a superfluous `group-end` line closes that frame, and at
the end the frames still open are closed. Frames of one group are merged in the
order in which they are closed, which need not be the order of their lines. So
the rules of a group are compared as multisets, one per kind of line.
-/

namespace SmartDns.Ports.GroupMembership

open Verified RuleTree RuleSources ConfigLoader RuntimeConfigBuilder ConfigLoading List

/-! ## Open groups -/

/-- The names of the open groups, the innermost first, after an event. -/
def nextGroups (groups : List String) : LoadEvent → List String
  | .line (.GroupBegin name) => name :: groups
  | .line .GroupEnd => groups.tail
  | _ => groups

/-- The group of a line, given the open groups. -/
def innermost (groups : List String) : String := groups.head?.getD defaultGroup

/-- The lines of a history with the groups they belong to. -/
def placedLines : List String → List LoadEvent → List (String × ConfigItem)
  | _, [] => []
  | groups, .line item :: rest =>
    (innermost groups, item) :: placedLines (nextGroups groups (.line item)) rest
  | groups, .read _ :: rest => placedLines groups rest

/-- The lines that belong to a group. -/
def linesOf (name : String) (history : List LoadEvent) : List ConfigItem :=
  ((placedLines [] history).filter fun placed => placed.1 = name).map Prod.snd

def openGroups (history : List LoadEvent) : List String := history.foldl nextGroups []

theorem openGroups_append (history : List LoadEvent) (event : LoadEvent) :
    openGroups (history ++ [event]) = nextGroups (openGroups history) event := by
  simp [openGroups]

theorem placedLines_append (event : LoadEvent) (history : List LoadEvent) : ∀ groups,
    placedLines groups (history ++ [event]) =
      placedLines groups history ++ placedLines (history.foldl nextGroups groups) [event] := by
  induction history with
  | nil =>
    intro groups
    rfl
  | cons e history ih =>
    intro groups
    cases e with
    | read file => exact ih groups
    | line item =>
      show _ :: placedLines _ (history ++ [event]) = _
      rw [ih]
      rfl

/-- A further line belongs to the groups open at it. -/
theorem linesOf_line (name : String) (history : List LoadEvent) (item : ConfigItem) :
    linesOf name (history ++ [.line item]) =
      linesOf name history ++ if innermost (openGroups history) = name then [item] else [] := by
  have hPlaced : placedLines [] (history ++ [.line item]) =
      placedLines [] history ++ [(innermost (openGroups history), item)] :=
    placedLines_append _ history []
  unfold linesOf
  rw [hPlaced]
  by_cases hName : innermost (openGroups history) = name
  · simp [hName]
  · simp [hName]

theorem linesOf_read (name : String) (history : List LoadEvent) (file : Path) :
    linesOf name (history ++ [.read file]) = linesOf name history := by
  unfold linesOf
  rw [placedLines_append, placedLines, placedLines, append_nil]

/-! ## Rules without their order -/

/-- The rules of a group by kind. -/
abbrev RuleBag :=
  Multiset (ConfigForDomain String) × Multiset (ConfigForDomain AddressRuleValue) ×
  Multiset (ConfigForDomain DomainRule) × Multiset (ConfigForDomain CNameRule) ×
  Multiset (ConfigForDomain (List UInt8)) × Multiset (ConfigForDomain HttpsRecordRule) ×
  Multiset (ConfigForDomain (List UInt8)) × Multiset (ConfigForDomain String)

def bag (group : RuleGroup) : RuleBag :=
  (group.forwardRules, group.addressRules, group.domainRules, group.cnames, group.srvRecords,
    group.httpsRecords, group.txtRecords, group.ipsets)

def rulesOf (line : ConfigItem) : RuleBag := bag (pushRule RuleGroup.default line)

@[simp] theorem bag_default : bag RuleGroup.default = 0 := rfl

@[simp] theorem bag_merge (a b : RuleGroup) : bag (a.merge b) = bag a + bag b := rfl

/-- A line pushed on a group adds its rules to the group's. -/
theorem bag_pushRule (group : RuleGroup) (line : ConfigItem) :
    bag (pushRule group line) = bag group + rulesOf line := by
  cases line <;> simp [rulesOf, bag, pushRule, RuleGroup.default, ← Multiset.coe_add]

/-- The rules of all entries of one name. -/
def bagIn (groups : Groups) (name : String) : RuleBag :=
  ((groups.filter fun entry => entry.1 = name).map fun entry => bag entry.2).sum

@[simp] theorem bagIn_nil (name : String) : bagIn [] name = 0 := rfl

@[simp] theorem bagIn_cons (key : String) (group : RuleGroup) (groups : Groups) (name : String) :
    bagIn ((key, group) :: groups) name =
      (if key = name then bag group else 0) + bagIn groups name := by
  by_cases hKey : key = name
  · simp [bagIn, hKey]
  · simp [bagIn, hKey]

/-- Closing a frame adds its rules to its group. -/
theorem bagIn_mergeGroup (key : String) (group : RuleGroup) (name : String) (groups : Groups) :
    bagIn (mergeGroup key group groups) name =
      bagIn groups name + if key = name then bag group else 0 := by
  induction groups with
  | nil => simp [mergeGroup]
  | cons head rest ih =>
    obtain ⟨old, rules⟩ := head
    unfold mergeGroup
    by_cases hOld : old = key
    · rw [if_pos hOld, bagIn_cons, bagIn_cons, bag_merge, hOld]
      by_cases hName : key = name
      · simp only [if_pos hName]
        abel
      · simp [hName]
    · rw [if_neg hOld, bagIn_cons, bagIn_cons, ih, add_assoc]

theorem mergeGroup_eq (key : String) (group : RuleGroup) (groups : Groups) :
    mergeGroup key group groups = upsert key (·.merge group) RuleGroup.default groups := by
  induction groups with
  | nil => rfl
  | cons head rest ih => simp only [mergeGroup, upsert, ih, beq_iff_eq]

/-- Merging a group keeps the names distinct. -/
theorem mergeGroup_nodup {key : String} {group : RuleGroup} {groups : Groups}
    (h : (groups.map Prod.fst).Nodup) : ((mergeGroup key group groups).map Prod.fst).Nodup := by
  rw [← distinctKeys_iff_nodup, mergeGroup_eq]
  exact (distinctKeys_iff_nodup.mpr h).upsert

/-- In a table with one entry per name, the entry has all rules of its name. -/
theorem bagIn_lookup {groups : Groups} (h : (groups.map Prod.fst).Nodup) (name : String) :
    bagIn groups name = bag ((groups.lookup name).getD RuleGroup.default) := by
  induction groups with
  | nil => rfl
  | cons head rest ih =>
    obtain ⟨key, group⟩ := head
    rw [map_cons, nodup_cons] at h
    rw [bagIn_cons, lookup_cons, ih h.2]
    by_cases hKey : key = name
    · subst hKey
      have hNone : rest.lookup key = none := by
        rw [lookup_eq_none_iff]
        intro entry hEntry
        rw [bne_iff_ne]
        intro hEq
        exact h.1 (mem_map.mpr ⟨entry, hEntry, hEq.symm⟩)
      simp [hNone]
    · simp [hKey, beq_eq_false_iff_ne.mpr (Ne.symm hKey)]

/-! ## Frames -/

/--
What holds of the builder after any number of lines. Its frames are the open
groups with a frame of the default group below them, unless there is no frame
at all, and frames and table together have the rules of all lines.
-/
structure GroupInv (b : RuntimeConfigBuilder) : Prop where
  frames : b.ruleGroupStack.map Prod.fst = openGroups b.history ++ [defaultGroup] ∨
    (b.ruleGroupStack = [] ∧ openGroups b.history = [])
  keys : (b.ruleGroups.map Prod.fst).Nodup
  rules : ∀ name, bagIn b.ruleGroups name + bagIn b.ruleGroupStack name =
    ((linesOf name b.history).map rulesOf).sum

variable {b : RuntimeConfigBuilder}

/-- A line finds a frame, that of the group it belongs to. -/
theorem GroupInv.openFrame (h : GroupInv b) :
    ∃ group rest, b.openFrame.ruleGroupStack = (innermost (openGroups b.history), group) :: rest ∧
      (innermost (openGroups b.history) :: rest.map Prod.fst = openGroups b.history ++
        [defaultGroup]) ∧
      ∀ name, bagIn b.ruleGroupStack name =
        bagIn ((innermost (openGroups b.history), group) :: rest) name := by
  unfold RuntimeConfigBuilder.openFrame
  cases hStack : b.ruleGroupStack with
  | nil =>
    have hNone : openGroups b.history = [] := by
      rcases h.frames with hFrames | ⟨-, hNone⟩
      · rw [hStack] at hFrames
        exact absurd hFrames (by simp)
      · exact hNone
    rw [hNone]
    refine ⟨RuleGroup.default, [], rfl, rfl, ?_⟩
    simp
  | cons frame rest =>
    obtain ⟨key, group⟩ := frame
    have hFrames : key :: rest.map Prod.fst = openGroups b.history ++ [defaultGroup] := by
      rcases h.frames with hFrames | ⟨hNil, -⟩
      · rw [hStack] at hFrames
        exact hFrames
      · rw [hStack] at hNil
        cases hNil
    have hKey : innermost (openGroups b.history) = key := by
      cases hOpen : openGroups b.history with
      | nil | cons =>
        rw [hOpen] at hFrames
        exact (cons.inj hFrames).1.symm
    rw [hKey]
    exact ⟨group, rest, hStack, hFrames, fun name => rfl⟩

/-- What a line does to the table and the frames. -/
theorem processLine_groups (fs : FileSystem) (orders : Orders) {key : String} {group : RuleGroup}
    {rest : Groups} (h : b.openFrame.ruleGroupStack = (key, group) :: rest) (line : ConfigItem) :
    (∃ name, line = .GroupBegin name ∧
      (b.processLine fs orders line).ruleGroups = b.ruleGroups ∧
      (b.processLine fs orders line).ruleGroupStack =
        (name, RuleGroup.default) :: (key, group) :: rest) ∨
    (line = .GroupEnd ∧
      (b.processLine fs orders line).ruleGroups = mergeGroup key group b.ruleGroups ∧
      (b.processLine fs orders line).ruleGroupStack = rest) ∨
    ((∀ groups, nextGroups groups (.line line) = groups) ∧
      (b.processLine fs orders line).ruleGroups = b.ruleGroups ∧
      (b.processLine fs orders line).ruleGroupStack = (key, pushRule group line) :: rest) := by
  have hGroups : b.openFrame.ruleGroups = b.ruleGroups := by
    unfold RuntimeConfigBuilder.openFrame
    cases b.ruleGroupStack <;> rfl
  cases line with
  | GroupBegin name =>
    refine .inl ⟨name, rfl, hGroups, ?_⟩
    simp only [RuntimeConfigBuilder.processLine, h]
  | GroupEnd =>
    refine .inr (.inl ⟨rfl, ?_, ?_⟩)
    · simp only [RuntimeConfigBuilder.processLine, closeGroup, h, hGroups]
    · simp only [RuntimeConfigBuilder.processLine, closeGroup, h]
  | _ =>
    refine .inr (.inr ⟨fun groups => rfl, ?_, ?_⟩)
    · simp only [RuntimeConfigBuilder.processLine, pushTop, h, hGroups]
    · simp only [RuntimeConfigBuilder.processLine, pushTop, h, pushRule]

/-- One line keeps the groups as its history says. -/
theorem GroupInv.processLine {fs : FileSystem} {orders : Orders} (h : GroupInv b)
    (line : ConfigItem) : GroupInv (b.processLine fs orders line) := by
  obtain ⟨group, rest, hFrame, hNames, hSame⟩ := h.openFrame
  obtain ⟨-, -, -, -, hHistory⟩ := processLine_files fs orders b line
  -- the lines of a group grow by this line if it is the group's own
  have hLines : ∀ name, ((linesOf name (b.processLine fs orders line).history).map rulesOf).sum =
      bagIn b.ruleGroups name + bagIn ((innermost (openGroups b.history), group) :: rest) name +
        if innermost (openGroups b.history) = name then rulesOf line else 0 := by
    intro name
    rw [hHistory, linesOf_line, map_append, sum_append, ← h.rules name, hSame name]
    by_cases hName : innermost (openGroups b.history) = name
    · simp [hName]
    · simp [hName]
  have hOpen : openGroups (b.processLine fs orders line).history =
      nextGroups (openGroups b.history) (.line line) := by
    rw [hHistory, openGroups_append]
  rcases processLine_groups fs orders hFrame line with
    ⟨name, hLine, hGroups, hStack⟩ | ⟨hLine, hGroups, hStack⟩ | ⟨hKeep, hGroups, hStack⟩
  · refine ⟨.inl ?_, by rw [hGroups]; exact h.keys, ?_⟩
    · rw [hStack, hOpen, hLine, map_cons, map_cons, hNames]
      rfl
    · intro other
      have hNothing : rulesOf line = 0 := by
        rw [hLine]
        rfl
      rw [hLines, hGroups, hStack, hNothing]
      simp
  · refine ⟨?_, by rw [hGroups]; exact mergeGroup_nodup h.keys, ?_⟩
    · rw [hStack, hOpen, hLine]
      cases hNow : openGroups b.history with
      | nil =>
        rw [hNow] at hNames
        have hNil : rest = [] := by simpa using (cons.inj hNames).2
        exact .inr ⟨hNil, rfl⟩
      | cons inner outer =>
        rw [hNow] at hNames
        exact .inl (cons.inj hNames).2
    · intro other
      have hNothing : rulesOf line = 0 := by
        rw [hLine]
        rfl
      rw [hLines, hGroups, hStack, bagIn_mergeGroup, bagIn_cons, hNothing]
      simp only [ite_self]
      abel
  · refine ⟨.inl ?_, by rw [hGroups]; exact h.keys, ?_⟩
    · rw [hStack, hOpen, hKeep]
      exact hNames
    · intro other
      rw [hLines, hGroups, hStack, bagIn_cons, bagIn_cons, bag_pushRule]
      by_cases hName : innermost (openGroups b.history) = other
      · simp only [if_pos hName]
        abel
      · simp only [if_neg hName]
        abel

theorem groupInv_start (confDir confFile : Option Path) : GroupInv (start confDir confFile) :=
  ⟨.inr ⟨rfl, rfl⟩, nodup_nil, fun _ => rfl⟩

/-- Files and includes leave the rules alone. -/
theorem groupInv_kept (fs : FileSystem) (orders : Orders) :
    Kept fs orders (fun _ => True) (fun _ => True) GroupInv where
  line := fun b line _ hb => hb.processLine line
  opened := by
    intro b file lines hb _ _
    refine ⟨⟨?_, hb.keys, ?_⟩, fun line _ => ⟨trivial, fun v _ => trivial⟩⟩
    · rw [show openGroups (b.opened _).history = openGroups b.history from openGroups_append _ _]
      exact hb.frames
    · intro name
      rw [show linesOf name (b.opened _).history = linesOf name b.history from linesOf_read _ _ _]
      exact hb.rules name
  included := fun b file hb _ => ⟨hb.frames, hb.keys, hb.rules⟩

/-! ## Built configurations -/

/-- Every group has the rules of its own lines, apart from repeated aliases. -/
def Membership (cfg : LoadedConfig) : Prop :=
  ∃ groups : Groups, cfg.ruleGroups = groups.map (fun entry => (entry.1, entry.2.dedupCnames)) ∧
    (groups.map Prod.fst).Nodup ∧
    ∀ name, bag ((groups.lookup name).getD RuleGroup.default) =
      ((linesOf name cfg.history).map rulesOf).sum

/-- Closing the open frames moves their rules to the table. -/
theorem bagIn_flush (name : String) (frames : Groups) : ∀ groups : Groups,
    (groups.map Prod.fst).Nodup →
      ((frames.foldl (fun groups frame => mergeGroup frame.1 frame.2 groups) groups).map
        Prod.fst).Nodup ∧
      bagIn (frames.foldl (fun groups frame => mergeGroup frame.1 frame.2 groups) groups) name =
        bagIn groups name + bagIn frames name := by
  induction frames with
  | nil =>
    intro groups h
    exact ⟨h, by simp⟩
  | cons frame frames ih =>
    intro groups h
    obtain ⟨key, group⟩ := frame
    obtain ⟨hKeys, hRules⟩ := ih (mergeGroup key group groups) (mergeGroup_nodup h)
    refine ⟨hKeys, ?_⟩
    rw [foldl_cons, hRules, bagIn_mergeGroup, bagIn_cons, add_assoc]

/-- The groups at the end are those of the history. -/
theorem membership_finish (h : GroupInv b) : Membership (finish b) := by
  refine ⟨_, rfl, (bagIn_flush "" b.ruleGroupStack b.ruleGroups h.keys).1, ?_⟩
  intro name
  obtain ⟨hKeys, hRules⟩ := bagIn_flush name b.ruleGroupStack b.ruleGroups h.keys
  rw [← bagIn_lookup hKeys, hRules, h.rules name]
  rfl

/--
After a build every line of a rule is once in the group that is innermost when
it is processed and in no other; a build without endless includes ends.
-/
theorem group_membership (fs : FileSystem) (orders : Orders) (setup : Setup) :
    (∀ n cfg, build fs orders setup n = some (.ok cfg) → Membership cfg) ∧
      (Acyclic fs setup → ∃ n result, build fs orders setup n = some result) := by
  constructor
  · intro n cfg h
    obtain ⟨b, hb, hEq⟩ :=
      (groupInv_kept fs orders).build (fun _ _ => trivial) (groupInv_start _ _) h
    rw [hEq]
    exact membership_finish hb
  · exact build_returns orders

/-- A group that an included file leaves open has the lines that follow. -/
theorem group_membership_twiceNamed :
    ∃ cfg, build twiceNamed .insertion mainOnly 2 = some (.ok cfg) ∧ Membership cfg ∧
      linesOf "work" cfg.history = [.ForwardRule ⟨.Set "office", "internal"⟩, .ConfFile extraPath] ∧
      ∃ n result, build twiceNamed .insertion mainOnly n = some result :=
  ⟨_, rfl, (group_membership twiceNamed .insertion mainOnly).1 2 _ rfl, rfl,
    (group_membership twiceNamed .insertion mainOnly).2 twiceNamed_acyclic⟩

end SmartDns.Ports.GroupMembership
