import SmartDns.Ports.RequestContext
import SmartDns.Ports.RuleChain

/-!
# Reading a rule attribute

A request inherits what its own pattern does not say from the patterns above
it, so the value of an attribute is meant to be that of the nearest node of the
chain that has one. The source reads attributes in three ways. The getter on a
node asks the node and its zone, the getter on an optional node asks the node
alone, and only the loop that resolves the server group walks the whole chain.
-/

namespace SmartDns.Ports.RuleInheritance

open DomainName PatternMap RuleTree RuleChain RequestContext

variable {α : Type}

/-- The value of an attribute at the nearest node that defines it. -/
def nearest (f : DomainRule → Option α) (node : DomainRuleTreeNode) : Option α :=
  (node.chain.find? fun z => (f z.rule).isSome).bind fun z => f z.rule

variable {f : DomainRule → Option α}

/-- A node that defines the attribute is the nearest one. -/
theorem nearest_of_isSome (node : DomainRuleTreeNode) (h : (f node.rule).isSome = true) :
    nearest f node = f node.rule := by
  unfold nearest
  match node with
  | .mk name rule none =>
    replace h : (f rule).isSome = true := h
    simp [DomainRuleTreeNode.chain, DomainRuleTreeNode.rule, h]
  | .mk name rule (some z) =>
    replace h : (f rule).isSome = true := h
    simp [DomainRuleTreeNode.chain, DomainRuleTreeNode.rule, h]

/-- A node that does not define it leaves the search to its zone. -/
theorem nearest_of_none {node : DomainRuleTreeNode} (h : f node.rule = none) :
    nearest f node = node.zone.bind (nearest f) := by
  unfold nearest
  match node with
  | .mk name rule none =>
    replace h : f rule = none := h
    simp [DomainRuleTreeNode.chain, DomainRuleTreeNode.rule, DomainRuleTreeNode.zone, h]
  | .mk name rule (some z) =>
    replace h : f rule = none := h
    simp [DomainRuleTreeNode.chain, DomainRuleTreeNode.rule, DomainRuleTreeNode.zone, h]

/-- Nothing is inherited exactly when no rule of the chain sets it. -/
theorem nearest_eq_none_iff {node : DomainRuleTreeNode} :
    nearest f node = none ↔ ∀ z ∈ node.chain, f z.rule = none := by
  unfold nearest
  rw [Option.bind_eq_none_iff]
  constructor
  · intro hNone z hz
    by_contra hSome
    have hFound : (node.chain.find? fun z => (f z.rule).isSome).isSome := by
      rw [List.find?_isSome]
      exact ⟨z, hz, Option.isSome_iff_ne_none.mpr hSome⟩
    obtain ⟨y, hy⟩ := Option.isSome_iff_exists.mp hFound
    have hDefined := List.find?_some hy
    simp [hNone y hy] at hDefined
  · intro hAll y hy
    exact hAll y (List.mem_of_find?_eq_some hy)

/-- The walk along the zone links finds the nearest value. -/
theorem findUp_eq_nearest (f : DomainRule → Option α) (node : DomainRuleTreeNode) :
    node.findUp f = nearest f node := by
  match node with
  | .mk name rule none =>
    cases hRule : f rule with
    | none =>
      rw [nearest_of_none hRule, DomainRuleTreeNode.findUp, hRule]
      rfl
    | some a =>
      have hHere : (f rule).isSome = true := by rw [hRule]; rfl
      exact (nearest_of_isSome (.mk name rule none) hHere).symm
  | .mk name rule (some z) =>
    cases hRule : f rule with
    | none =>
      rw [nearest_of_none hRule, DomainRuleTreeNode.findUp, hRule, findUp_eq_nearest f z]
      rfl
    | some a =>
      have hHere : (f rule).isSome = true := by rw [hRule]; rfl
      rw [nearest_of_isSome (.mk name rule (some z)) hHere, DomainRuleTreeNode.findUp,
        DomainRuleTreeNode.rule, hRule]
      rfl

/-- The server group of a request is the nearest one its chain names. -/
theorem resolveServerGroupName_eq (opts : ServerOpts) (rule : Option DomainRuleTreeNode) :
    DnsContext.resolveServerGroupName opts rule =
      (opts.group.or (rule.bind (nearest (·.nameserver)))).getD defaultGroup := by
  unfold DnsContext.resolveServerGroupName
  cases opts.group with
  | some name => rfl
  | none =>
    cases rule with
    | none => rfl
    | some node => simp [findUp_eq_nearest]

/-- All three ways of reading an attribute yield its nearest value. -/
structure ReadUniformly (f : DomainRule → Option α) (node : DomainRuleTreeNode) : Prop where
  optional : headGet (some node) f = nearest f node
  single : nodeGet node f = nearest f node
  walk : node.findUp f = nearest f node

/--
**Uniform inheritance**: the getter on an optional node, the getter on a node
and the walk of the server group read the same value, that of the nearest node
defining the attribute, exactly if the first node defines it or no node of the
chain does.
-/
theorem inherited_uniformly_iff (f : DomainRule → Option α) (node : DomainRuleTreeNode) :
    ReadUniformly f node ↔ (f node.rule).isSome = true ∨ ∀ z ∈ node.chain, f z.rule = none := by
  constructor
  · intro h
    by_cases hHere : (f node.rule).isSome = true
    · exact .inl hHere
    · right
      rw [← nearest_eq_none_iff, ← h.optional]
      exact Option.not_isSome_iff_eq_none.mp hHere
  · rintro (hHere | hNowhere)
    · obtain ⟨a, ha⟩ := Option.isSome_iff_exists.mp hHere
      refine ⟨(nearest_of_isSome node hHere).symm, ?_, findUp_eq_nearest f node⟩
      rw [nearest_of_isSome node hHere, nodeGet, ha]
      rfl
    · have hNone := nearest_eq_none_iff.mpr hNowhere
      have hHere := hNowhere node (DomainRuleTreeNode.mem_chain_self node)
      refine ⟨by rw [hNone]; exact hHere, ?_, findUp_eq_nearest f node⟩
      rw [hNone, nodeGet, hHere, Option.none_or, Option.bind_eq_none_iff]
      intro z hz
      exact hNowhere z (DomainRuleTreeNode.zone_mem_chain node
        (DomainRuleTreeNode.mem_chain_self node) hz)

/-- Rules at three levels: the TTL is bounded at the top, caching is off in the middle. -/
def layeredItems : List (WildcardName × DomainRule) :=
  [(.Default wwwName, { DomainRule.default with nameserver := some "office" }),
    (.Default (Name.ofLabels ["example", "com"]), { DomainRule.default with noCache := some true }),
    (.Default (Name.ofLabels ["com"]), { DomainRule.default with rrTtlMax := some 60 })]

/--
Both attributes are inherited by `www.example.com`. The getter on an optional
node sees neither, the getter on a node misses the bound two levels up.
-/
theorem inherited_differently :
    ∃ node, (DomainRuleMap.create exampleLib layeredItems).find exampleLib wwwName = some node ∧
      (nearest (·.noCache) node = some true ∧ headGet (some node) (·.noCache) = none ∧
        nodeGet node (·.noCache) = some true) ∧
      (nearest (·.rrTtlMax) node = some 60 ∧ nodeGet node (·.rrTtlMax) = none ∧
        node.findUp (·.rrTtlMax) = some 60) :=
  ⟨_, rfl, by decide, by decide⟩

end SmartDns.Ports.RuleInheritance
