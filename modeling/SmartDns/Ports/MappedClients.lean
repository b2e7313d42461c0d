import SmartDns.Ports.IpRuleIsolation

/-!
# IPv4-mapped clients

A socket that listens for both families reports the IPv4 client `a` as
`::ffff:a`. The client rules take such a source as the IPv4 address it stands
for, and with them access control. The rules on answers, `ip-rules`, take it as
the IPv6 address it is, so that a network of either family applies to one of
the two sources only.
-/

namespace SmartDns.Ports.MappedClients

open Verified DnsMessage DnsLookup IpNetwork RequestContext Middleware InnerChain AccessControl
open RuntimeConfig

/-- `::ffff:a`. -/
def mapped (a : BitVec 32) : BitVec 128 := 0xffff#96 ++ a

theorem toIpv4Mapped_mapped (a : BitVec 32) : toIpv4Mapped (mapped a) = some a := by
  have hPrefix : (mapped a).extractLsb' 32 96 = 0xffff#96 := BitVec.extractLsb'_append_eq_left
  have hRest : (mapped a).extractLsb' 0 32 = a := BitVec.extractLsb'_append_eq_right
  rw [toIpv4Mapped, if_pos hPrefix, hRest]

/-- A request from an IPv4 source. -/
def direct (req : DnsRequest) (a : BitVec 32) : DnsRequest := { req with src := .v4 a }

/-- The same request, as a socket for both families reports it. -/
def viaMapped (req : DnsRequest) (a : BitVec 32) : DnsRequest := { req with src := .v6 (mapped a) }

/-! ## Client rules -/

section ClientRules

variable (cfg : RuntimeConfig) (req : DnsRequest) (a : BitVec 32)

theorem clientIp_viaMapped : clientIp (viaMapped req a) = clientIp (direct req a) := by
  show ((toIpv4Mapped (mapped a)).map IpAddr.v4).getD (.v6 (mapped a)) = .v4 a
  rw [toIpv4Mapped_mapped]
  rfl

/-- The rule of a mapped client is that of the client itself. -/
theorem matchedRule_viaMapped :
    matchedRule cfg (viaMapped req a) = matchedRule cfg (direct req a) := by
  have hSubnet : clientSubnet (viaMapped req a) = clientSubnet (direct req a) := rfl
  unfold matchedRule
  rw [hSubnet, clientIp_viaMapped]

/-- Only the matched rule decides about access. -/
theorem refusedByAcl_iff (serverOpts : ServerOpts) :
    RefusedByAcl cfg serverOpts req ↔
      (cfg.aclEnable && (matchedRule cfg req).isNone && !serverOpts.isBackground) = true := by
  constructor
  · intro hRefused
    by_contra hNot
    refine hRefused.not_processed ⟨DnsContext.new req.lowerName cfg
      { serverOpts with ruleGroup := (matchedRule cfg req).map (·.group) }, fun host => ?_⟩
    unfold search
    dsimp only
    rw [Option.isNone_map, if_neg hNot]
  · intro hCond host
    unfold search
    dsimp only
    rw [Option.isNone_map, if_pos hCond]

end ClientRules

/-! ## Sets -/

theorem contains_iff {T : Type} {m : IpMap T} {ip : IpAddr} :
    m.contains ip = true ↔ ∃ e ∈ m, e.1.containsAddr ip = true := by
  rw [IpMap.contains, IpMap.get, Option.isSome_map, List.isSome_find?, List.any_reverse,
    List.any_eq_true]

/-- The merged set holds the global addresses and those of the rules. -/
theorem contains_mergeSet (global : IpSet) (nets : List IpNet) (ip : IpAddr) :
    (mergeSet global nets).contains ip = true ↔
      global.contains ip = true ∨ ∃ net ∈ nets, net.containsAddr ip = true := by
  induction nets generalizing global with
  | nil => simp [mergeSet]
  | cons net nets ih =>
    have hInsert : (IpMap.insert global net ()).contains ip = true ↔
        global.contains ip = true ∨ net.containsAddr ip = true := by
      rw [contains_iff, contains_iff, IpMap.insert]
      simp
    rw [show mergeSet global (net :: nets) = mergeSet (IpMap.insert global net ()) nets from rfl,
      ih, hInsert, or_assoc]
    simp

/-- The networks that the rules for a client, of those with a flag, add to a set. -/
def netsFor (rules : List IpRule) (flag : IpRule → Bool) (client : IpAddr) : List IpNet :=
  ((rules.filter fun rule => rule.net.containsAddr client).filter flag).map (·.net)

theorem mem_netsFor {rules : List IpRule} {flag : IpRule → Bool} {client : IpAddr} {net : IpNet} :
    net ∈ netsFor rules flag client ↔
      ∃ rule ∈ rules, rule.net.containsAddr client = true ∧ flag rule = true ∧ rule.net = net := by
  simp only [netsFor, List.mem_map, List.mem_filter, and_assoc]

/-- An address is bogus when the set merged from the client's rules holds it. -/
theorem isBogus_iff (cfg : RuntimeConfig) (client ip : IpAddr) :
    isBogus cfg client ip =
      (mergeSet cfg.bogusNxdomain (netsFor cfg.ipRules (·.bogusNxdomain) client)).contains ip := by
  have hNew : ∀ nets : List IpNet, (IpSet.new nets).contains ip = true ↔
      ∃ net ∈ nets, net.containsAddr ip = true := by
    simp [contains_iff, IpSet.new]
  have hNets : ((cfg.ipRules.filter fun rule =>
      rule.bogusNxdomain && rule.net.containsAddr client).map (·.net)) =
        netsFor cfg.ipRules (·.bogusNxdomain) client := by
    rw [netsFor, List.filter_filter]
  rw [Bool.eq_iff_iff, contains_mergeSet, isBogus, Bool.or_eq_true, ipRuleBogusSetFor, hNets, hNew]

/-- A network without addresses that a set does not have already. -/
def AddsNothing (global : IpSet) (net : IpNet) : Prop :=
  ∀ ip, net.containsAddr ip = true → global.contains ip = true

/-- The family of an address. -/
def isV4 : IpAddr → Bool
  | .v4 _ => true
  | .v6 _ => false

/-- A network has addresses of one family. -/
theorem isV4_eq {net : IpNet} {x y : IpAddr} (hx : net.containsAddr x = true)
    (hy : net.containsAddr y = true) : isV4 x = isV4 y := by
  cases net <;> cases x <;> cases y <;> first
    | rfl
    | simp [IpNet.containsAddr] at hx hy

section Sets

variable {rules : List IpRule} {flag : IpRule → Bool} {global : IpSet} {client client' : IpAddr}

theorem contains_of_addsNothing
    (h : ∀ rule ∈ rules, flag rule = true → rule.net.containsAddr client = true →
      AddsNothing global rule.net) (ip : IpAddr) :
    (mergeSet global (netsFor rules flag client)).contains ip = global.contains ip := by
  rw [Bool.eq_iff_iff, contains_mergeSet]
  constructor
  · rintro (hGlobal | ⟨net, hNet, hIp⟩)
    · exact hGlobal
    · obtain ⟨rule, hRule, hClient, hFlag, rfl⟩ := mem_netsFor.mp hNet
      exact h rule hRule hFlag hClient ip hIp
  · exact .inl

/-- What a rule for one client adds is missing for a client of the other family. -/
theorem addsNothing_of_contains (hFamily : isV4 client ≠ isV4 client')
    (h : ∀ ip, (mergeSet global (netsFor rules flag client)).contains ip =
      (mergeSet global (netsFor rules flag client')).contains ip) {rule : IpRule}
    (hRule : rule ∈ rules) (hFlag : flag rule = true)
    (hClient : rule.net.containsAddr client = true) : AddsNothing global rule.net := by
  intro ip hIp
  have hAdded : (mergeSet global (netsFor rules flag client)).contains ip = true :=
    (contains_mergeSet ..).mpr (.inr ⟨rule.net, mem_netsFor.mpr ⟨rule, hRule, hClient, hFlag, rfl⟩,
      hIp⟩)
  rw [h, contains_mergeSet] at hAdded
  rcases hAdded with hGlobal | ⟨net, hNet, hIp'⟩
  · exact hGlobal
  · obtain ⟨rule', -, hClient', -, rfl⟩ := mem_netsFor.mp hNet
    exact absurd ((isV4_eq hClient hIp).trans (isV4_eq hIp' hClient')) hFamily

/-- Exactly then the two sources have the same set. -/
theorem sets_same_iff (a : BitVec 32) :
    (∀ ip, (mergeSet global (netsFor rules flag (.v6 (mapped a)))).contains ip =
      (mergeSet global (netsFor rules flag (.v4 a))).contains ip) ↔
    ∀ rule ∈ rules, flag rule = true →
      rule.net.containsAddr (.v6 (mapped a)) = true ∨ rule.net.containsAddr (.v4 a) = true →
      AddsNothing global rule.net := by
  have hFamily : isV4 (.v6 (mapped a)) ≠ isV4 (.v4 a) := Bool.false_ne_true
  constructor
  · rintro h rule hRule hFlag (hMapped | hDirect)
    · exact addsNothing_of_contains hFamily h hRule hFlag hMapped
    · exact addsNothing_of_contains hFamily.symm (fun ip => (h ip).symm) hRule hFlag hDirect
  · intro h ip
    rw [contains_of_addsNothing fun rule hRule hFlag hMapped => h rule hRule hFlag (.inl hMapped),
      contains_of_addsNothing fun rule hRule hFlag hDirect => h rule hRule hFlag (.inr hDirect)]

end Sets

/-! ## Decisions -/

/-- Two requests fall under the same group, are let in or not, have the same sets, and a result of
the layers below is a bogus one for both or neither. -/
structure SameDecisions (cfg : RuntimeConfig) (serverOpts : ServerOpts) (req req' : DnsRequest) :
    Prop where
  group : (matchedRule cfg req).map (·.group) = (matchedRule cfg req').map (·.group)
  acl : RefusedByAcl cfg serverOpts req ↔ RefusedByAcl cfg serverOpts req'
  ignore : ∀ ip, (cfg.ipRuleSetsFor req.src).1.contains ip =
    (cfg.ipRuleSetsFor req'.src).1.contains ip
  blacklist : ∀ ip, (cfg.ipRuleSetsFor req.src).2.1.contains ip =
    (cfg.ipRuleSetsFor req'.src).2.1.contains ip
  whitelist : ∀ ip, (cfg.ipRuleSetsFor req.src).2.2.contains ip =
    (cfg.ipRuleSetsFor req'.src).2.2.contains ip
  bogus : ∀ ctx (outcome : Outcome), outcome.2.cfg = cfg →
    bogusLayer (fun _ _ => .done outcome) ctx req = bogusLayer (fun _ _ => .done outcome) ctx req'

/-- A rule whose flags change none of the sets that are asked about for a query. -/
structure Redundant (cfg : RuntimeConfig) (query : Query) (rule : IpRule) : Prop where
  ignore : rule.ignore = true → AddsNothing cfg.ignoreIp rule.net
  blacklist : rule.blacklist = true → AddsNothing cfg.blacklistIp rule.net
  whitelist : rule.whitelist = true → AddsNothing cfg.whitelistIp rule.net
  bogus : query.queryType.isIpAddr = true → rule.bogusNxdomain = true →
    AddsNothing cfg.bogusNxdomain rule.net

/-- An answer with a single address. -/
def oneAddress (cfg : RuntimeConfig) (req : DnsRequest) (ip : IpAddr) : Outcome :=
  (.ok (DnsResponse.newWithMaxTtl req.query [Record.fromRdata req.query.name 0 ip.toRData]),
    DnsContext.new req.lowerName cfg ServerOpts.default)

theorem bogusLayer_oneAddress {cfg : RuntimeConfig} {req : DnsRequest} {ip : IpAddr}
    (hType : req.query.queryType.isIpAddr = true) (ctx : DnsContext) (src : IpAddr) :
    bogusLayer (fun _ _ => .done (oneAddress cfg req ip)) ctx { req with src := src } =
      .done (if isBogus cfg src ip then
          (.error (.responseCode .NXDomain), (oneAddress cfg req ip).2)
        else oneAddress cfg req ip) := by
  have hAny : ([Record.fromRdata req.query.name 0 ip.toRData].any fun r =>
      r.rdata.ipAddr.any (isBogus cfg src)) = isBogus cfg src ip := by
    cases ip <;> exact Bool.or_false _
  show (if _ && _ then _ else _) = _
  rw [hType, Bool.true_and, apply_ite Prog.done]
  exact if_congr (by rw [← hAny]; rfl) rfl rfl

/-- What the check for bogus addresses decides is the same for two sources, whatever the layers
below answer, exactly if the same addresses are bogus for both or if no address is asked for. -/
theorem bogusLayer_same_iff (cfg : RuntimeConfig) (req : DnsRequest) (src src' : IpAddr) :
    (∀ ctx (outcome : Outcome), outcome.2.cfg = cfg →
      bogusLayer (fun _ _ => .done outcome) ctx { req with src := src } =
        bogusLayer (fun _ _ => .done outcome) ctx { req with src := src' }) ↔
    (req.query.queryType.isIpAddr = true → ∀ ip, isBogus cfg src ip = isBogus cfg src' ip) := by
  constructor
  · intro hSame hType ip
    have hOne := hSame (oneAddress cfg req ip).2 (oneAddress cfg req ip) rfl
    rw [bogusLayer_oneAddress hType, bogusLayer_oneAddress hType] at hOne
    injection hOne with hOutcome
    cases hSrc : isBogus cfg src ip <;> cases hSrc' : isBogus cfg src' ip
    · rfl
    · rw [hSrc, hSrc'] at hOutcome
      cases congrArg Prod.fst hOutcome
    · rw [hSrc, hSrc'] at hOutcome
      cases congrArg Prod.fst hOutcome
    · rfl
  · intro hBogus ctx outcome hCfg
    unfold bogusLayer
    rw [Prog.done_bind, Prog.done_bind, hCfg]
    cases hType : req.query.queryType.isIpAddr with
    | true => rw [funext (hBogus hType)]
    | false => rfl

/-- **A client is treated alike under both of its addresses** exactly if every rule for one of them
is redundant. -/
theorem mapped_client_same (cfg : RuntimeConfig) (serverOpts : ServerOpts) (req : DnsRequest)
    (a : BitVec 32) :
    SameDecisions cfg serverOpts (viaMapped req a) (direct req a) ↔
      ∀ rule ∈ cfg.ipRules,
        rule.net.containsAddr (.v6 (mapped a)) = true ∨ rule.net.containsAddr (.v4 a) = true →
        Redundant cfg req.query rule := by
  have hBogus := (bogusLayer_same_iff cfg req (.v6 (mapped a)) (.v4 a)).trans
    (forall_congr' fun _ => (by
      simp only [isBogus_iff]
      exact sets_same_iff a))
  constructor
  · intro hSame rule hRule hAddr
    exact
      { ignore := fun hFlag => (sets_same_iff a).mp hSame.ignore rule hRule hFlag hAddr
        blacklist := fun hFlag => (sets_same_iff a).mp hSame.blacklist rule hRule hFlag hAddr
        whitelist := fun hFlag => (sets_same_iff a).mp hSame.whitelist rule hRule hFlag hAddr
        bogus := fun hType hFlag => hBogus.mp hSame.bogus hType rule hRule hFlag hAddr }
  · intro hRules
    exact
      { group := by rw [matchedRule_viaMapped]
        acl := by rw [refusedByAcl_iff, refusedByAcl_iff, matchedRule_viaMapped]
        ignore := (sets_same_iff a).mpr fun rule hRule hFlag hAddr =>
          (hRules rule hRule hAddr).ignore hFlag
        blacklist := (sets_same_iff a).mpr fun rule hRule hFlag hAddr =>
          (hRules rule hRule hAddr).blacklist hFlag
        whitelist := (sets_same_iff a).mpr fun rule hRule hFlag hAddr =>
          (hRules rule hRule hAddr).whitelist hFlag
        bogus := hBogus.mpr fun hType rule hRule hFlag hAddr =>
          (hRules rule hRule hAddr).bogus hType hFlag }

/-! ## A rule for one network -/

open ServerRuns IpRuleIsolation

/-- Addresses of `192.168.0.0/16` are filtered for the clients of that network. -/
def filteredConfig : RuntimeConfig :=
  { RuntimeConfig.default with
    bogusNxdomain := IpSet.new [singleHost]
    ipRules := [⟨privateNet, true, false, true, true⟩] }

/-- The addresses of `192.168.0.0/16` are bogus for everyone, and once more for the clients of that
network. -/
def bogusConfig : RuntimeConfig :=
  { RuntimeConfig.default with
    bogusNxdomain := IpSet.new [privateNet]
    ipRules := [⟨privateNet, false, false, true, false⟩] }

/-- The rule is for `192.168.1.8` and not for `::ffff:192.168.1.8`, and it does not matter. -/
theorem mapped_client_same_nearSource :
    privateNet.containsAddr nearSource = true ∧
      privateNet.containsAddr (.v6 (mapped 0xc0a80108#32)) = false ∧
      SameDecisions bogusConfig ServerOpts.default
        (viaMapped (askFor exampleName .A nearSource) 0xc0a80108#32)
        (direct (askFor exampleName .A nearSource) 0xc0a80108#32) := by
  refine ⟨by decide, by decide, (mapped_client_same _ _ _ _).mpr ?_⟩
  intro rule hRule _
  rw [List.mem_singleton.mp hRule]
  refine ⟨nofun, nofun, nofun, ?_⟩
  intro _ _ ip hIp
  exact contains_iff.mpr ⟨(privateNet, ()), .head _, hIp⟩

/-- The answer `192.168.1.50`. -/
def innerOutcome : Outcome :=
  (.ok (DnsResponse.newWithMaxTtl (Query.query exampleName .A)
    [Record.fromRdata exampleName 300 innerAddress.toRData]),
    DnsContext.new exampleName filteredConfig ServerOpts.default)

/-- What the check for bogus addresses makes of it for a client. -/
def verdictOn (src : IpAddr) : Option (Except DnsError DnsResponse) :=
  match bogusLayer (fun _ _ => .done innerOutcome) innerOutcome.2 (askFor exampleName .A src) with
  | .done outcome => some outcome.1
  | .call _ _ => none

/-- The rule applies to `192.168.1.8` and not to `::ffff:192.168.1.8`: the sets differ, and the
same answer is bogus under one address and passed on under the other. -/
theorem mapped_client_differs :
    ¬SameDecisions filteredConfig ServerOpts.default
        (viaMapped (askFor exampleName .A nearSource) 0xc0a80108#32)
        (direct (askFor exampleName .A nearSource) 0xc0a80108#32) ∧
      (filteredConfig.ipRuleSetsFor nearSource).1.contains innerAddress = true ∧
      (filteredConfig.ipRuleSetsFor (.v6 (mapped 0xc0a80108#32))).1.contains innerAddress = false ∧
      verdictOn nearSource = some (.error (.responseCode .NXDomain)) ∧
      verdictOn (.v6 (mapped 0xc0a80108#32)) = some innerOutcome.1 := by
  have hDirect : (filteredConfig.ipRuleSetsFor nearSource).1.contains innerAddress = true := by
    decide +kernel
  have hMapped : (filteredConfig.ipRuleSetsFor (.v6 (mapped 0xc0a80108#32))).1.contains
      innerAddress = false := by decide +kernel
  refine ⟨?_, hDirect, hMapped, by decide +kernel, by decide +kernel⟩
  intro hSame
  have hEq := hSame.ignore innerAddress
  exact absurd (hEq.symm.trans hMapped) (by decide)

end SmartDns.Ports.MappedClients
