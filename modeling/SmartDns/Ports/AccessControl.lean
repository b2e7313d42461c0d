import SmartDns.Ports.Middleware

/-!
# Client rules and access control

`search` is the entry of the middleware chain. It first decides which client
rule a request falls under: by the subnet of its EDNS client-subnet option if
the option is there and its prefix length fits the address, else by the source
address, an IPv4-mapped one being taken as IPv4. The group of that rule selects
the domain rules, and with access control switched on a request without a group
is refused before the chain sees it. Refreshes started by the server itself
have no client and are exempt.
-/

namespace SmartDns.Ports.AccessControl

open DomainName DnsMessage DnsLookup IpNetwork RequestContext Middleware

/-- `ipnet_from_subnet`: an invalid prefix length counts as no option at all. -/
def ipnetFromSubnet (addr : IpAddr) (sourcePrefix : Nat) : Option IpNet :=
  match addr with
  | .v4 addr => (Cidr.new addr sourcePrefix).map .v4
  | .v6 addr =>
    match toIpv4Mapped addr with
    | some addr => (Cidr.new addr sourcePrefix).map .v4
    | none => (Cidr.new addr sourcePrefix).map .v6

/-- The subnet a request declares for its client. -/
def clientSubnet (req : DnsRequest) : Option IpNet :=
  (req.message.extensions.bind (·.subnet)).bind fun s => ipnetFromSubnet s.addr s.sourcePrefix

/-- The source address, an IPv4-mapped one as IPv4. -/
def clientIp (req : DnsRequest) : IpAddr :=
  match req.src with
  | .v4 addr => .v4 addr
  | .v6 addr => ((toIpv4Mapped addr).map IpAddr.v4).getD (.v6 addr)

/-- The client rule a request falls under. -/
def matchedRule (cfg : RuntimeConfig) (req : DnsRequest) : Option ClientRule :=
  match clientSubnet req with
  | some subnet => cfg.clientRules.find? fun rule => rule.matchNet subnet
  | none => cfg.clientRules.find? fun rule => rule.matchIp (clientIp req)

/-- `DnsMiddlewareHandler::search`. -/
def search (cfg : RuntimeConfig) (host : Handler) (serverOpts : ServerOpts) (req : DnsRequest) :
    Async (Except DnsError DnsResponse) :=
  let serverOpts := { serverOpts with ruleGroup := (matchedRule cfg req).map (·.group) }
  if cfg.aclEnable && serverOpts.ruleGroup.isNone && !serverOpts.isBackground then
    .done (.error (.responseCode .Refused))
  else do
    let outcome ← host (DnsContext.new req.lowerName cfg serverOpts) req
    return outcome.1

/-! ## Who is admitted -/

/-- Some client rule contains the declared subnet, or the source if none is declared. -/
def Admitted (cfg : RuntimeConfig) (req : DnsRequest) : Prop :=
  match clientSubnet req with
  | some subnet => ∃ rule ∈ cfg.clientRules, rule.matchNet subnet = true
  | none => ∃ rule ∈ cfg.clientRules, rule.matchIp (clientIp req) = true

/-- Whatever the chain is, the request is handed to it. -/
def Processed (cfg : RuntimeConfig) (serverOpts : ServerOpts) (req : DnsRequest) : Prop :=
  ∃ ctx, ∀ host : Handler,
    search cfg host serverOpts req = (host ctx req >>= fun outcome => pure outcome.1)

/-- Whatever the chain is, the request is refused before it. -/
def RefusedByAcl (cfg : RuntimeConfig) (serverOpts : ServerOpts) (req : DnsRequest) : Prop :=
  ∀ host : Handler, search cfg host serverOpts req = .done (.error (.responseCode .Refused))

/-- A rule matches exactly the requests the lists admit. -/
theorem matchedRule_isSome_iff (cfg : RuntimeConfig) (req : DnsRequest) :
    (matchedRule cfg req).isSome = true ↔ Admitted cfg req := by
  unfold matchedRule Admitted
  cases clientSubnet req with
  | none | some => exact List.find?_isSome

instance (cfg : RuntimeConfig) (req : DnsRequest) : Decidable (Admitted cfg req) :=
  decidable_of_iff _ (matchedRule_isSome_iff cfg req)

variable {cfg : RuntimeConfig} {req : DnsRequest}

/-- A request cannot be both refused up front and handed to every chain. -/
theorem RefusedByAcl.not_processed {serverOpts : ServerOpts}
    (hRefused : RefusedByAcl cfg serverOpts req) :
    ¬ Processed cfg serverOpts req := by
  rintro ⟨ctx, hProcessed⟩
  let waiting : Handler := fun ctx _ => .call .timeout fun _ => .done (.error .nameExists, ctx)
  have hEq := (hRefused waiting).symm.trans (hProcessed waiting)
  exact absurd hEq (by simp [waiting])

theorem processed_of_admitted (serverOpts : ServerOpts) (hAdmitted : Admitted cfg req) :
    Processed cfg serverOpts req := by
  obtain ⟨rule, hRule⟩ :=
    Option.isSome_iff_exists.mp ((matchedRule_isSome_iff cfg req).mpr hAdmitted)
  refine ⟨DnsContext.new req.lowerName cfg { serverOpts with ruleGroup := some rule.group }, ?_⟩
  intro host
  unfold search
  simp [hRule]

/-- With the list enabled, a foreground request from outside is refused. -/
theorem refused_of_not_admitted {serverOpts : ServerOpts} (hAcl : cfg.aclEnable = true)
    (hForeground : serverOpts.isBackground = false) (hOutside : ¬ Admitted cfg req) :
    RefusedByAcl cfg serverOpts req := by
  have hNone : matchedRule cfg req = none := by
    rw [← Option.not_isSome_iff_eq_none, matchedRule_isSome_iff]
    exact hOutside
  intro host
  unfold search
  simp [hNone, hAcl, hForeground]

/-- The access-control decision, request by request. -/
theorem acl_admits_iff (cfg : RuntimeConfig) (serverOpts : ServerOpts) (req : DnsRequest)
    (hAcl : cfg.aclEnable = true) (hForeground : serverOpts.isBackground = false) :
    (Processed cfg serverOpts req ↔ Admitted cfg req) ∧
      (RefusedByAcl cfg serverOpts req ↔ ¬ Admitted cfg req) := by
  constructor
  · constructor
    · intro hProcessed
      by_contra hOutside
      exact (refused_of_not_admitted hAcl hForeground hOutside).not_processed hProcessed
    · exact processed_of_admitted serverOpts
  · constructor
    · intro hRefused hAdmitted
      exact hRefused.not_processed (processed_of_admitted serverOpts hAdmitted)
    · exact refused_of_not_admitted hAcl hForeground

/-! ## A declared subnet overrides the source -/

/-- `192.168.1.0/24`. -/
def lanNet : IpNet := .v4 ⟨0xc0a80100#32, 24, by decide⟩

/-- Access control for the clients of `192.168.1.0/24`. -/
def lanConfig : RuntimeConfig :=
  { RuntimeConfig.default with
    aclEnable := true
    clientRules := [⟨.IpAddr lanNet, "lan"⟩] }

/-- A question for `example.com`, with or without a declared subnet. -/
def exampleRequest (src : IpAddr) (subnet : Option ClientSubnet) : DnsRequest :=
  DnsRequest.new
    { (Message.query 1).addQuery (Query.query (Name.ofLabels ["example", "com"]) .A) with
      extensions := some ⟨false, subnet⟩ }
    src

/-- `192.168.1.7`, a client of the network. -/
def insider : IpAddr := .v4 0xc0a80107#32

/-- `10.0.0.1`, which is not. -/
def outsider : IpAddr := .v4 0x0a000001#32

theorem acl_admits_iff_insider :
    Processed lanConfig ServerOpts.default (exampleRequest insider none) :=
  (acl_admits_iff lanConfig ServerOpts.default (exampleRequest insider none) rfl rfl).1.mpr
    (by decide)

/-- The outsider is refused, and admitted once it declares the insider's address. -/
theorem acl_follows_subnet :
    RefusedByAcl lanConfig ServerOpts.default (exampleRequest outsider none) ∧
      Processed lanConfig ServerOpts.default (exampleRequest outsider (some ⟨insider, 32, 0⟩)) ∧
      ∀ rule ∈ lanConfig.clientRules,
        rule.matchIp (clientIp (exampleRequest outsider (some ⟨insider, 32, 0⟩))) = false := by
  refine ⟨refused_of_not_admitted rfl rfl (by decide), ?_, by decide⟩
  exact processed_of_admitted ServerOpts.default (by decide)

end SmartDns.Ports.AccessControl
