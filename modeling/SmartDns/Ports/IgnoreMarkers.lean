import SmartDns.Ports.OuterChain
import SmartDns.Ports.RuleInheritance

/-!
# Ignore markers

The value `-` in an `address`, `cname` or `nameserver` line says that the attribute is not to
be looked for. Such a marker shields the names below its pattern from what the patterns
above it say.

Each of the three attributes has its own way of reading the chain. The address walk stops at a
marker. The alias is read by the getter on a node, which turns the marker of the node into no
value at all and then goes on to ask the zone. The server group is read by a walk that stops
at the marker and returns it: the request then asks for a group of the name `-`.
-/

namespace SmartDns.Ports.IgnoreMarkers

open Verified DomainName DnsMessage DnsLookup RuleTree RuleChain RequestContext RuleInheritance
  Middleware OuterChain Upstream

/-! ## Addresses -/

/-- Does the value exempt the query type? -/
def ignores (queryType : RecordType) : AddressRuleValue → Bool
  | .IGN => true
  | .IGNv4 => queryType == .A
  | .IGNv6 => queryType == .AAAA
  | _ => false

variable {queryType : RecordType} {noRuleSoa : Bool} {value : AddressRuleValue}

/-- A value that ignores the type stops the search for a rule. -/
theorem addrVerdict_of_ignores (h : ignores queryType value = true) :
    addrVerdict queryType noRuleSoa value = .stop := by
  cases value with
  | IGN => rfl
  | IGNv4 | IGNv6 => simp_all [ignores, addrVerdict]
  | _ => cases h

/-- The walk passes the nodes that say nothing and stops at the first that says ignore. -/
theorem walkAddr_of_find (hIgnore : ignores queryType value = true)
    {chain : List DomainRuleTreeNode}
    (h : (chain.find? fun z => z.rule.address.isSome).bind (fun z => z.rule.address) = some value) :
    walkAddr queryType noRuleSoa chain = none := by
  induction chain with
  | nil => rfl
  | cons node rest ih =>
    cases hAddress : node.rule.address with
    | none =>
      rw [List.find?_cons_of_neg (by simp [hAddress])] at h
      rw [walkAddr, hAddress]
      exact ih h
    | some own =>
      rw [List.find?_cons_of_pos (by simp [hAddress]), Option.bind_some, hAddress] at h
      cases h
      rw [walkAddr, hAddress, Option.map_some, Option.getD_some, addrVerdict_of_ignores hIgnore]

variable {node : DomainRuleTreeNode}

/-- The address walk stops at the nearest marker. -/
theorem walkAddr_of_nearest (hNearest : nearest (·.address) node = some value)
    (hIgnore : ignores queryType value = true) :
    walkAddr queryType noRuleSoa node.chain = none :=
  walkAddr_of_find hIgnore hNearest

/-! ## Aliases -/

def aliasIn (rule : DomainRule) : Option Name :=
  match rule.cname with
  | some (.Value name) => some name
  | _ => none

/-- The alias read in spite of a marker is the one of the next zone. -/
theorem cnameOf_of_nearest {ctx : DnsContext} (hRule : ctx.domainRule = some node)
    (h : nearest (·.cname) node = some .Ignore) :
    cnameOf ctx = node.zone.bind fun zone => aliasIn zone.rule := by
  have hOwn : aliasIn node.rule = none := by
    cases hCname : node.rule.cname with
    | none => rw [aliasIn, hCname]
    | some value =>
      rw [nearest_of_isSome node (by rw [hCname]; rfl), hCname] at h
      cases h
      rw [aliasIn, hCname]
  rw [cnameOf, hRule]
  show (aliasIn node.rule).or _ = _
  rw [hOwn]
  rfl

/-- The zone of the node has no alias to give. -/
def ZoneSilent (node : DomainRuleTreeNode) : Prop :=
  ∀ zone, node.zone = some zone → aliasIn zone.rule = none

/-! ## Server groups -/

/-- The text of a marker in a `nameserver` line. -/
def ignoreMark : String := "-"

/-- The group of servers that the end of the chain asks. -/
def askedGroup (client : DnsClient) (ctx : DnsContext) (name : Name) : Option NameServerGroup :=
  if ctx.serverOpts.noRuleNameserver.getD false then some client.defaultServerGroup
  else nameServerFor client ctx.cfg ctx.serverGroupName name

/-- The context of a request for which no rule was found. -/
def unruled (ctx : DnsContext) : DnsContext :=
  { ctx with
    domainRule := none
    serverGroupName := DnsContext.resolveServerGroupName ctx.serverOpts none }

/-- The request is not sent to the group that its rules name: the listener passes over such rules
or names a group itself, or the name is asked for by multicast. -/
def GroupUnused (client : DnsClient) (ctx : DnsContext) (name : Name) : Prop :=
  ctx.serverOpts.noRuleNameserver.getD false = true ∨ ctx.serverOpts.group.isSome = true ∨
    (isMulticast ctx.cfg name = true ∧ (client.getServerGroup "mdns").isSome = true)

theorem getServerGroup_mark (client : DnsClient) :
    client.getServerGroup ignoreMark =
      (client.servers ignoreMark).map fun servers => ⟨.named ignoreMark, servers⟩ := by
  have hNot : ¬(ignoreMark = "" ∨ eqIgnoreAsciiCase ignoreMark "default" = true) := by decide
  rw [DnsClient.getServerGroup, if_neg hNot]

theorem getServerGroup_default (client : DnsClient) :
    client.getServerGroup defaultGroup = some client.defaultServerGroup := by
  have hDefault : defaultGroup = "" ∨ eqIgnoreAsciiCase defaultGroup "default" = true := by decide
  rw [DnsClient.getServerGroup, if_pos hDefault]

/-- With a marker the request asks the servers that it would ask without rules, exactly if the
group that its rules name is not used. -/
theorem askedGroup_of_mark {client : DnsClient} {ctx : DnsContext}
    (hGroup : ctx.serverGroupName = DnsContext.resolveServerGroupName ctx.serverOpts (some node))
    (h : nearest (·.nameserver) node = some ignoreMark) (name : Name) :
    askedGroup client ctx name = askedGroup client (unruled ctx) name ↔
      GroupUnused client ctx name := by
  rw [resolveServerGroupName_eq, Option.bind_some, h] at hGroup
  unfold askedGroup GroupUnused nameServerFor unruled
  rw [hGroup, resolveServerGroupName_eq, Option.bind_none]
  cases hRule : ctx.serverOpts.noRuleNameserver.getD false with
  | true => simp
  | false =>
    cases hOwn : ctx.serverOpts.group with
    | some own => simp
    | none =>
      simp only [Option.none_or, Option.getD_some, Option.getD_none, getServerGroup_mark,
        getServerGroup_default]
      cases hMulticast : isMulticast ctx.cfg name with
      | true =>
        cases hMdns : client.getServerGroup "mdns" with
        | some group => simp
        | none => cases client.servers ignoreMark <;> simp [DnsClient.defaultServerGroup]
      | false => cases client.servers ignoreMark <;> simp [DnsClient.defaultServerGroup]

/-! ## Markers shield -/

/-- The rest of the chain of an empty answer: it shows whether a layer above has added to it. -/
def emptyEnd (req : DnsRequest) : Handler := fun ctx _ =>
  pure (.ok (DnsResponse.newWithDeadline req.query []), ctx)

/-- A query is passed on as it is, whatever the rest of the chain does with it, exactly if there is
no alias: with one, there is a record before those of the rest of the chain. -/
theorem cnameLayer_passes_iff (ctx : DnsContext) (req : DnsRequest) :
    (∀ next, cnameLayer next ctx req = next ctx req) ↔ cnameOf ctx = none := by
  constructor
  · intro hPasses
    cases hCname : cnameOf ctx with
    | none => rfl
    | some target =>
      have hEmpty := hPasses (emptyEnd req)
      rw [cnameLayer, hCname] at hEmpty
      dsimp only at hEmpty
      split at hEmpty
      all_goals
        injection hEmpty with hOutcome
        cases hOutcome
  · intro hNone next
    rw [cnameLayer, hNone]

/-- **Markers shield.** If the nearest address rule is a marker for the query type, the chain
answers as if it had no node. If the nearest alias rule is a marker, the query goes on without an
alias exactly if the zone next to the node has none. If the nearest server group is a marker, the
servers asked are those without rules exactly if the group of the rules is not the one that would
be asked. -/
theorem ignore_shields (client : DnsClient) (name : Name) (cfg : RuntimeConfig)
    (opts : ServerOpts) (req : DnsRequest) (node : DomainRuleTreeNode)
    (hRule : (DnsContext.new name cfg opts).domainRule = some node) :
    (∀ value, nearest (·.address) node = some value →
      ignores req.query.queryType value = true →
      handleRuleAddr req.query.queryType (DnsContext.new name cfg opts) =
        handleRuleAddr req.query.queryType (unruled (DnsContext.new name cfg opts))) ∧
    (nearest (·.cname) node = some .Ignore →
      ((∀ next, cnameLayer next (DnsContext.new name cfg opts) req =
          next (DnsContext.new name cfg opts) req) ↔ ZoneSilent node)) ∧
    (nearest (·.nameserver) node = some ignoreMark →
      (askedGroup client (DnsContext.new name cfg opts) req.lowerName =
          askedGroup client (unruled (DnsContext.new name cfg opts)) req.lowerName ↔
        GroupUnused client (DnsContext.new name cfg opts) req.lowerName)) := by
  refine ⟨?_, ?_, ?_⟩
  · intro value hNearest hIgnore
    unfold handleRuleAddr unruled
    rw [hRule]
    dsimp only [Option.map_some, Option.getD_some]
    rw [walkAddr_of_nearest hNearest hIgnore]
    rfl
  · intro hMark
    rw [cnameLayer_passes_iff, cnameOf_of_nearest hRule hMark, Option.bind_eq_none_iff]
    rfl
  · intro hMark
    refine askedGroup_of_mark ?_ hMark _
    rw [← hRule]
    rfl

/-! ## Marked and unmarked zones -/

/-- Every attribute of `www.example.com` is ignored. -/
def markedRule : DomainRule :=
  { DomainRule.default with
    address := some .IGN, cname := some .Ignore, nameserver := some ignoreMark }

/-- A zone that answers and has servers of its own. -/
def zoneRule : DomainRule :=
  { DomainRule.default with address := some .SOA, nameserver := some "office" }

def aliasRule : DomainRule := { zoneRule with cname := some (.Value (Name.ofLabels ["alias"])) }

/-- `www.example.com` below a zone. -/
def markedNode (zone : DomainRule) : DomainRuleTreeNode :=
  .mk (.Default wwwName) markedRule
    (some (.mk (.Default (Name.ofLabels ["example", "com"])) zone none))

def markedConfig (zone : DomainRule) : RuntimeConfig :=
  { RuntimeConfig.default with findDomainRule := fun _ _ => some (markedNode zone) }

/-- A client without a group of the name of the marker. -/
def plainClient : DnsClient := ⟨[], fun _ => none, fun _ => ""⟩

/-- A client with one server, in the group of a listener. -/
def homeClient : DnsClient :=
  ⟨[], fun name => if name = "home" then some [⟨7, false, false⟩] else none, fun _ => ""⟩

def wwwRequest : DnsRequest := .new ((Message.query 0).addQuery (.query wwwName .A)) (.v4 0)

/-- A listener with a group of its own. -/
def homeListener : ServerOpts := { ServerOpts.default with group := some "home" }

theorem ignore_shields_zone :
    handleRuleAddr .A (DnsContext.new wwwName (markedConfig zoneRule) homeListener) = none ∧
      (∀ next : Handler,
        cnameLayer next (DnsContext.new wwwName (markedConfig zoneRule) homeListener) wwwRequest =
          next (DnsContext.new wwwName (markedConfig zoneRule) homeListener) wwwRequest) ∧
      askedGroup homeClient (DnsContext.new wwwName (markedConfig zoneRule) homeListener)
        wwwRequest.lowerName = some ⟨.named "home", [⟨7, false, false⟩]⟩ := by
  have hSilent : ZoneSilent (markedNode zoneRule) := by
    rintro zone ⟨⟩
    rfl
  obtain ⟨hAddress, hCname, hNameserver⟩ := ignore_shields homeClient wwwName
    (markedConfig zoneRule) homeListener wwwRequest (markedNode zoneRule) rfl
  exact ⟨hAddress .IGN rfl rfl, (hCname rfl).mpr hSilent,
    (hNameserver rfl).mpr (.inr (.inl rfl))⟩

/-- The alias of the zone is taken in spite of the marker, and the servers of a group named like
the marker are asked for, which there are not. -/
theorem ignore_passed_over :
    nearest (·.cname) (markedNode aliasRule) = some .Ignore ∧
      cnameOf (DnsContext.new wwwName (markedConfig aliasRule) .default) =
        some (Name.ofLabels ["alias"]) ∧
      nearest (·.nameserver) (markedNode zoneRule) = some ignoreMark ∧
      askedGroup plainClient (DnsContext.new wwwName (markedConfig zoneRule) .default)
        wwwRequest.lowerName = none ∧
      askedGroup plainClient (unruled (DnsContext.new wwwName (markedConfig zoneRule) .default))
        wwwRequest.lowerName = some plainClient.defaultServerGroup :=
  ⟨rfl, rfl, rfl, rfl, rfl⟩

end SmartDns.Ports.IgnoreMarkers
