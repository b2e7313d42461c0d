import SmartDns.Ports.InnerChain

/-!
# The chain above the cache

The middlewares a request passes before it reaches the cache, outermost first:
the CNAME filter, alias rules, DNS64 synthesis, address rules, DHCP leases, the
builtin zones and the hosts file. Each either answers from configuration and
files or reworks what the rest of the chain returns.

The audit, packet-dump, nftset and ipset middlewares return the outcome of the
rest of the chain unchanged and are not part of the model.
-/

namespace SmartDns.Ports.OuterChain

open Verified DomainName DnsMessage DnsLookup IpNetwork RequestContext RuleTree Middleware
open Upstream InnerChain

/-! ## Aliases -/

/-- `DnsForceNoCnameMiddleware`: an answer to any other question loses its aliases. -/
def forceNoCnameLayer : Layer := fun next ctx req => do
  let outcome ← next ctx req
  match outcome.1 with
  | .ok lookup =>
    if req.query.queryType != .CNAME then
      let answers := lookup.message.answers.filter fun r => r.recordType != .CNAME
      return (.ok { lookup with message := { lookup.message with answers := answers } }, outcome.2)
    else return outcome
  | .error _ => return outcome

/-- The alias configured for a domain. -/
def cnameOf (ctx : DnsContext) : Option Name :=
  ctx.domainRule.bind fun rule => nodeGet rule fun r =>
    match r.cname with
    | some (.Value name) => some name
    | _ => none

/-- `DnsCNameMiddleware`: the alias is resolved in a context of its own. -/
def cnameLayer : Layer := fun next ctx req =>
  match cnameOf ctx with
  | none => next ctx req
  | some target => do
    let cname := target.setFqdn true
    let record := Record.fromRdata req.query.name (ctx.cfg.localTtl % 2 ^ 32) (.CNAME cname)
    if req.query.queryType = .CNAME then
      return (.ok (DnsResponse.newWithDeadline req.query [record]), ctx)
    else
      let outcome ← next (DnsContext.new cname ctx.cfg ctx.serverOpts) (req.withCname cname)
      match outcome.1 with
      | .ok lookup =>
        let message :=
          { lookup.message with
            queries := [req.query]
            answers := record :: lookup.message.answers }
        return (.ok { lookup with message := message }, ctx)
      | .error err => return (.error err, ctx)

/-! ## DNS64 -/

/-- `to_dns64`: the IPv4 address below the prefix. In the release build the subtraction of the
IPv4 bits wraps around at 8 bits, and a shift takes its distance modulo the width of the word. -/
def toDns64 (net : Cidr 128) (ipv4 : BitVec 32) : BitVec 128 :=
  let suffix := 128 - net.prefixLen
  let v6 := (net.addr >>> (suffix % 128)) <<< (suffix % 128)
  let v4 := ipv4.setWidth 128 <<< ((suffix + 256 - 32) % 256 % 128)
  v4 + v6

/-- An address record of an answer, synthesised. -/
def synthesise (net : Cidr 128) (record : Record) : Record :=
  match record.rdata.ipAddr with
  | some (.v4 ipv4) => { record with rdata := .AAAA (toDns64 net ipv4) }
  | _ => record

/-- `Dns64Middleware`: a failed AAAA query is answered from the A records. -/
def dns64Layer (net : Cidr 128) : Layer := fun next ctx req =>
  if req.query.queryType != .AAAA then next ctx req
  else do
    let outcome ← next ctx req
    match outcome.1 with
    | .ok _ => return outcome
    | .error err =>
      let message :=
        { (Message.query 0).addQuery { req.query with queryType := .A } with
          extensions := req.message.extensions }
      let outcome' ← next outcome.2 (DnsRequest.new message req.src)
      match outcome'.1 with
      | .error _ => return (.error err, outcome'.2)
      | .ok lookup =>
        let message :=
          { lookup.message with
            answers := lookup.message.answers.map (synthesise net)
            queries := lookup.message.queries.modifyHead fun q =>
              { q with queryType := .AAAA } }
        return (.ok { lookup with message := message }, outcome'.2)

/-! ## Address rules -/

/-- What one node of a rule chain says about an address query. -/
inductive AddrVerdict where
  | answer (rdatas : List RData)
  | stop
  | skip

def soaAnswer : AddrVerdict := .answer [.SOA defaultSoa]

def addrVerdict (queryType : RecordType) (noRuleSoa : Bool) : AddressRuleValue → AddrVerdict
  | .Addr v4 v6 =>
    let soa := if noRuleSoa then .skip else soaAnswer
    match queryType with
    | .A =>
      match v4 with
      | some ips => .answer (ips.map .A)
      | none => soa
    | .AAAA =>
      match v6, v4 with
      | some ips, _ => .answer (ips.map .AAAA)
      | none, some ips => .answer (ips.map fun ip => .AAAA (toIpv6Mapped ip))
      | none, none => soa
    | _ => .stop
  | .SOA => if noRuleSoa then .skip else soaAnswer
  | .SOAv4 => if !noRuleSoa && queryType == .A then soaAnswer else .skip
  | .SOAv6 => if !noRuleSoa && queryType == .AAAA then soaAnswer else .skip
  | .IGN => .stop
  | .IGNv4 => if queryType = .A then .stop else .skip
  | .IGNv6 => if queryType = .AAAA then .stop else .skip

/-- Walk up the chain until a node decides. -/
def walkAddr (queryType : RecordType) (noRuleSoa : Bool) :
    List DomainRuleTreeNode → Option (List RData)
  | [] => none
  | node :: rest =>
    match (node.rule.address.map (addrVerdict queryType noRuleSoa)).getD .skip with
    | .answer rdatas => some rdatas
    | .stop => none
    | .skip => walkAddr queryType noRuleSoa rest

def handleRuleAddr (queryType : RecordType) (ctx : DnsContext) : Option (List RData) :=
  let opts := ctx.serverOpts
  let noRuleSoa := opts.noRuleSoa.getD false
  let forced :=
    (queryType == .AAAA && (opts.forceAaaaSoa.getD false || ctx.cfg.forceAaaaSoa)) ||
    (queryType == .HTTPS && (opts.forceHttpsSoa.getD false || ctx.cfg.forceHttpsSoa)) ||
    ctx.cfg.forceQtypeSoa.contains queryType
  if !noRuleSoa && forced then some [.SOA defaultSoa]
  else if opts.noRuleAddr.getD false || !queryType.isIpAddr then none
  else walkAddr queryType noRuleSoa ((ctx.domainRule.map (·.chain)).getD [])

/-- The records up to the `n`-th address. -/
def takeAddresses : Nat → List Record → List Record
  | _, [] => []
  | n, r :: rest =>
    if r.recordType.isIpAddr then
      if n ≤ 1 then [r] else r :: takeAddresses (n - 1) rest
    else r :: takeAddresses n rest

/-- The records after the limit on addresses, and whether it cut anything off. -/
def limitAddresses (ctx : DnsContext) (queryType : RecordType) (records : List Record) :
    List Record × Bool :=
  match ctx.cfg.maxReplyIpNum with
  | some n =>
    if queryType.isIpAddr && n > 0 then
      let kept := takeAddresses n records
      (kept, kept.length < records.length)
    else (records, false)
  | none => (records, false)

/-- The reply's records under the limit and the TTL bounds. -/
def reworkReply (ctx : DnsContext) (queryType : RecordType) (lookup : DnsResponse) : DnsResponse :=
  let limited := limitAddresses ctx queryType lookup.records
  let bounds := rrTtlBounds ctx
  let replyMax := ctx.cfg.rrTtlReplyMax.map (· % 2 ^ 32)
  let bounded := bounds.1.isSome || bounds.2.isSome || replyMax.isSome
  if limited.2 || bounded then
    let records := limited.1.map fun r =>
      let r := clampTtlBounds bounds r
      (replyMax.map r.setMaxTtl).getD r
    { DnsResponse.newWithDeadline lookup.query records with
      nameServerGroup := lookup.nameServerGroup
      fromCache := lookup.fromCache }
  else lookup

/-- `AddressMiddleware`. -/
def addressLayer : Layer := fun next ctx req =>
  match handleRuleAddr req.query.queryType ctx with
  | some rdatas =>
    let ttl := ctx.cfg.localTtl % 2 ^ 32
    return (.ok (DnsResponse.newWithDeadline req.query
      (rdatas.map (Record.fromRdata req.query.name ttl))), ctx)
  | none => do
    let outcome ← next ctx req
    return (outcome.1.map (reworkReply outcome.2 req.query.queryType), outcome.2)

/-! ## Leases -/

/-- `local_domain_base` on labels: those in front of a local domain that is not the root. -/
def localDomainBase (name : Name) (suffix : Option Name) : Option Name :=
  suffix.bind fun s =>
    if s.zoneOf name && decide (name.isFqdn = s.isFqdn) && s.labels.isSuffixOf name.labels then
      let base := name.labels.take (name.labels.length - s.labels.length)
      if base.isEmpty || s.labels.isEmpty then none else some ⟨base, false⟩
    else none

/-- An answer of one record under the local TTL. -/
def localAnswer (ctx : DnsContext) (req : DnsRequest) (rdata : RData) : DnsResponse :=
  DnsResponse.newWithDeadline req.query
    [Record.fromRdata req.query.name (ctx.cfg.localTtl % 2 ^ 32) rdata]

/-- `DnsmasqMiddleware`: addresses by name, and names by address. -/
def dnsmasqLayer : Layer := fun next ctx req => do
  let reverse ←
    if req.query.queryType = .PTR then Prog.perform (Op.reverseLease req.lowerName)
    else pure none
  match reverse with
  | some rdata => return (.ok (localAnswer ctx req rdata), ctx)
  | none =>
    let name := (localDomainBase req.lowerName ctx.cfg.localDomain).getD req.lowerName
    match ← Prog.perform (Op.lease name req.query.queryType) with
    | some rdata => return (.ok (localAnswer ctx req rdata), ctx)
    | none => next ctx req

/-- The second part of it: an address by name. -/
def leaseOr (next : Handler) (ctx : DnsContext) (req : DnsRequest) : Async Outcome := do
  let name := (localDomainBase req.lowerName ctx.cfg.localDomain).getD req.lowerName
  match ← Prog.perform (Op.lease name req.query.queryType) with
  | some rdata => return (.ok (localAnswer ctx req rdata), ctx)
  | none => next ctx req

/-! ## Builtin zones -/

/-- `LocalPtrZoneProvider`: names of the server and of private addresses. -/
def localPtrLookup (ctx : DnsContext) (req : DnsRequest) : Async (Option DnsResponse) := do
  if ctx.cfg.localPtrEnable && req.query.queryType == .PTR then
    match ← Prog.perform (Op.ptrZone req.lowerName) with
    | .server => return some (DnsResponse.fromRdata req.query (.PTR ctx.cfg.serverName))
    | .privateNet => return some (DnsResponse.empty.addQuery req.query)
    | .foreign => return none
  else return none

/-- Records of one type in the class of the question. -/
def classRecords (query : Query) (rdatas : List RData) : DnsResponse :=
  DnsResponse.newWithMaxTtl query
    (rdatas.map fun rdata => ⟨query.name, DnsResponse.maxTtl, query.queryClass, rdata⟩)

/-- `IdentityZoneProvider`: who the server and the client are, in class `CH`. -/
def identityLookup (req : DnsRequest) : Async (Option DnsResponse) := do
  if req.query.queryType == .TXT && req.query.queryClass == .CH then
    let texts ← Prog.perform (Op.identity req.query.name req.src)
    return texts.map fun values => classRecords req.query (values.map .TXT)
  else return none

/-- The service parameters that survive a hint filter; 4 and 6 are the address hints. -/
def filterHints (noIpv4Hint noIpv6Hint : Bool) (record : Record) : Record :=
  match record.rdata with
  | .HTTPS svcb =>
    let params := svcb.svcParams.filter fun p =>
      !(p.1 == 4 && noIpv4Hint) && !(p.1 == 6 && noIpv6Hint)
    { record with rdata := .HTTPS { svcb with svcParams := params } }
  | _ => record

/-- `RuleZoneProvider` on an HTTPS query; `none` when the rule leaves it to the chain. -/
def httpsRule (next : Handler) (ctx : DnsContext) (req : DnsRequest) :
    Option HttpsRecordRule → Option (Async Outcome)
  | some .SOA => some (return (.ok (DnsResponse.fromRdata req.query (.SOA defaultSoa)), ctx))
  | some (.RecordData svcb) =>
    some (return (.ok (DnsResponse.fromRdata req.query (.HTTPS svcb)), ctx))
  | some (.Filter noIpv4Hint noIpv6Hint) => some do
      let outcome ← next ctx req
      return (outcome.1.map fun r => r.mapAnswers (filterHints noIpv4Hint noIpv6Hint), outcome.2)
  | some .Ignore => none
  | none => none

/-- `RuleZoneProvider`. -/
def ruleLookup (next : Handler) (ctx : DnsContext) (req : DnsRequest) : Option (Async Outcome) :=
  match req.query.queryType with
  | .SRV => (headGet ctx.domainRule (·.srv)).map fun values =>
    return (.ok (classRecords req.query (values.map .SRV)), ctx)
  | .HTTPS => httpsRule next ctx req (headGet ctx.domainRule (·.https))
  | .TXT => (headGet ctx.domainRule (·.txt)).map fun values =>
    return (.ok (DnsResponse.newWithMaxTtl req.query
      (values.map fun v => Record.fromRdata req.query.name DnsResponse.maxTtl (.TXT v))), ctx)
  | _ => none

/-- `DnsZoneMiddleware`. -/
def zoneLayer : Layer := fun next ctx req => do
  match ← localPtrLookup ctx req with
  | some response => return (.ok response, ctx)
  | none =>
    match ← identityLookup req with
    | some response => return (.ok response, ctx)
    | none => (ruleLookup next ctx req).getD (next ctx req)

/-! ## The hosts file -/

/-- A hosts entry for the question, for its other spelling, or below the local domain. -/
def lookupHosts (ctx : DnsContext) (query : Query) : Async (Option (List Record)) := do
  match ← Prog.perform (Op.hosts query) with
  | some records => return some records
  | none =>
    let flipped := Query.query (query.name.setFqdn !query.name.isFqdn) query.queryType
    match ← Prog.perform (Op.hosts flipped) with
    | some records => return some records
    | none =>
      match localDomainBase query.name ctx.cfg.localDomain with
      | none => return none
      | some base =>
        let found ← Prog.perform (Op.hosts (Query.query base query.queryType))
        return found.map fun records => records.map fun r => r.setName query.name

/-- `DnsHostsMiddleware`. -/
def hostsLayer : Layer := fun next ctx req => do
  let isPtr := req.query.queryType == .PTR && ctx.cfg.expandPtrFromAddress
  if req.query.queryType.isIpAddr || isPtr then
    match ← lookupHosts ctx req.query with
    | some records => return (.ok (DnsResponse.newWithDeadline req.query records), ctx)
    | none => next ctx req
  else next ctx req

/-! ## The whole chain -/

/-- The layers above the cache, as `build_middleware` registers them. -/
def outerLayers (cfg : RuntimeConfig) : List Layer :=
  (if cfg.forceNoCname then [forceNoCnameLayer] else []) ++
  (if cfg.hasCnames then [cnameLayer] else []) ++
  (cfg.dns64Prefix.map dns64Layer).toList ++ [addressLayer] ++
  (if cfg.hasLeaseFile then [dnsmasqLayer] else []) ++ [zoneLayer] ++
  (if cfg.resolvHostname then [hostsLayer] else [])

def buildMiddleware (cfg : RuntimeConfig) (client : DnsClient) : Handler :=
  execute defaultHandler (outerLayers cfg ++ storeLayers cfg client)

end SmartDns.Ports.OuterChain
