import SmartDns.Ports.OuterRules

/-!
# Client filters and the cache

The `ip-rules` of a configuration add networks to the filter sets for the
clients inside them. The filters work below the cache, on the answers to one
client, and the store does not record for whom it was filtered. So a client is
served addresses that its own sets reject, and is told that a name does not
exist because another client's sets rejected its addresses.

The filters do their work, through the store as well, as long as the clients
that share a question have sets of the same effect. Answers that do not pass
through the filters at all are a second way around them: the answers to other
than address queries, to listeners with `no-rule-nameserver`, substitutes from
`ip-alias`, addresses of the upstream servers themselves, and the bogus
addresses of a client when there is no global `bogus-nxdomain` setting.
-/

namespace SmartDns.Ports.IpRuleIsolation

open Verified DnsMessage DnsLookup IpNetwork RequestContext Middleware CacheStore CacheContents
open Upstream InnerChain ServerRuns LookupRules ChainRules OuterRules

/-! ## What a client's sets say -/

/-- Whether the sets in force for a client accept an address that a server answers with. -/
def accepts (cfg : RuntimeConfig) (client : IpAddr) (ns : NameServer) (ip : IpAddr) : Bool :=
  let sets := cfg.ipRuleSetsFor client
  if ns.whitelistIp && sets.2.2.contains ip then true
  else if ns.blacklistIp && sets.2.1.contains ip then false
  else !sets.1.contains ip

/-- Whether they reject it, be it as an address of this server or as a bogus one. -/
def rejects (cfg : RuntimeConfig) (client : IpAddr) (ns : NameServer) (ip : IpAddr) : Bool :=
  !accepts cfg client ns ip || isBogus cfg client ip

/-- The sets in force for two clients have the same effect. -/
def SameSets (cfg : RuntimeConfig) (a b : IpAddr) : Prop :=
  ∀ ns ip, accepts cfg a ns ip = accepts cfg b ns ip ∧ isBogus cfg a ip = isBogus cfg b ip

variable {cfg : RuntimeConfig} {a b : IpAddr}

theorem SameSets.trans_symm {c : IpAddr} (h : SameSets cfg a c) (h' : SameSets cfg b c) :
    SameSets cfg a b := fun ns ip =>
  ⟨(h ns ip).1.trans (h' ns ip).1.symm, (h ns ip).2.trans (h' ns ip).2.symm⟩

/-- Clients with the same sets have the same addresses rejected. -/
theorem SameSets.rejects_eq (h : SameSets cfg a b) (ns : NameServer) (ip : IpAddr) :
    rejects cfg a ns ip = rejects cfg b ns ip := by
  rw [rejects, rejects, (h ns ip).1, (h ns ip).2]

/-- Clients under the same rules have the same sets. -/
theorem sameSets_of_rules
    (h : (cfg.ipRules.filter fun rule => rule.net.containsAddr a) =
      cfg.ipRules.filter fun rule => rule.net.containsAddr b) :
    SameSets cfg a b := by
  have hBogus : cfg.ipRuleBogusSetFor a = cfg.ipRuleBogusSetFor b := by
    unfold RuntimeConfig.ipRuleBogusSetFor
    simp only [← List.filter_filter, h]
  have hSets : cfg.ipRuleSetsFor a = cfg.ipRuleSetsFor b := by
    unfold RuntimeConfig.ipRuleSetsFor
    rw [h]
  intro ns ip
  constructor
  · rw [accepts, accepts, hSets]
  · rw [isBogus, isBogus, hBogus]

/-! ## Isolation -/

/-- An address a client may see: not a bogus one, and accepted from a server that answered
with it, or from every server. -/
def Acceptable (cfg : RuntimeConfig) (client : IpAddr) (o : Origin) (ip : IpAddr) : Prop :=
  isBogus cfg client ip = false ∧
    ((∃ x ∈ o.heard, ip ∈ x.2.ipAddrs ∧ accepts cfg client x.1 ip = true) ∨
      ∀ ns, accepts cfg client ns ip = true)

/-- Both halves of the isolation of a client, for a response with its origin. -/
def Isolated (cfg : RuntimeConfig) (client : IpAddr) (res : DnsResponse) (o : Origin) : Prop :=
  (∀ ip ∈ res.ipAddrs, Acceptable cfg client o ip) ∧
    (res.ipAddrs = [] → ∀ x ∈ o.heard, ∀ ip ∈ x.2.ipAddrs,
      rejects cfg o.req.src x.1 ip = true → rejects cfg client x.1 ip = true)

theorem Acceptable.of_sameSets {o : Origin} {ip : IpAddr} (h : SameSets cfg a b)
    (hA : Acceptable cfg a o ip) : Acceptable cfg b o ip := by
  refine ⟨(h ⟨0, false, false⟩ ip).2.symm.trans hA.1, ?_⟩
  rcases hA.2 with ⟨x, hx, hMem, hAccepts⟩ | hAll
  · exact Or.inl ⟨x, hx, hMem, (h x.1 ip).1.symm.trans hAccepts⟩
  · exact Or.inr fun ns => (h ns ip).1.symm.trans (hAll ns)

/-! ## The condition on runs -/

/-- Whether the bogus-address check sees the answers to a request. -/
def bogusChecked (cfg : RuntimeConfig) (req : DnsRequest) : Bool :=
  !cfg.bogusNxdomain.isEmpty && req.query.queryType.isIpAddr

/-- An address that may reach the client around the filters. -/
def Harmless (cfg : RuntimeConfig) (req : DnsRequest) (ip : IpAddr) : Prop :=
  (∀ ns, accepts cfg req.src ns ip = true) ∧
    (bogusChecked cfg req = false → isBogus cfg req.src ip = false)

/-- Clients share a question only if their sets have the same effect as those of `common`, and
what goes around a filter is nothing the filter would reject. -/
def RulesShared (cfg : RuntimeConfig) (common : Query → String → IpAddr) :
    Ghost → (o : Op) → Op.Resp o → Prop
  | _, .consult ctx req, _ => SameSets cfg req.src (common req.query.key ctx.serverGroupName)
  | _, .forward ctx req, _ =>
    isFiltered ctx req = true → ∀ e ∈ cfg.ipAlias, ∀ ip ∈ e.2.addrs, Harmless cfg req ip
  | g, .localLookup _, found =>
    ∀ o records, g.current = some o → found = some records →
      ∀ ip ∈ records.filterMap fun x => x.rdata.ipAddr, Harmless cfg o.req ip
  | g, .serverLookup _ ns _ options, res =>
    ∀ o r, g.current = some o → res = Except.ok r →
      options.recordType = o.req.query.queryType →
      (∀ ip ∈ r.ipAddrs,
        (isFiltered o.ctx o.req = false → accepts cfg o.req.src ns ip = true) ∧
        (accepts cfg o.req.src ns ip = true → bogusChecked cfg o.req = false →
          isBogus cfg o.req.src ip = false)) ∧
      (o.stores = true → ∀ x ∈ r.records, ∀ t, t = x.recordType ∨ t = options.recordType →
        SameSets cfg o.req.src
          (common (⟨x.name, t, x.dnsClass⟩ : Query).key o.ctx.serverGroupName))
  | _, _, _ => True

/-- What is stored is acceptable to everyone who shares the question. -/
def StoredAcceptable (cfg : RuntimeConfig) (common : Query → String → IpAddr) (k : Query)
    (d : DnsResponse) (o : Origin) : Prop :=
  ∀ label, d.nameServerGroup = some label → SameSets cfg o.req.src (common k label) ∧
    ∀ ip ∈ d.ipAddrs, Acceptable cfg o.req.src o ip

/-- What is answered, from the store or not, respects the client's sets. -/
def AnsweredIsolated (cfg : RuntimeConfig) (_ : DnsContext) (req : DnsRequest)
    (res : DnsResponse) (cached : Bool) (g : Ghost) : Prop :=
  ∃ o, (if cached then g.hit else g.current) = some o ∧ Isolated cfg req.src res o

/-- The filters' verdict on an address, before the bogus-address check. -/
def Vouched (cfg : RuntimeConfig) (req : DnsRequest) (o : Origin) (ip : IpAddr) : Prop :=
  (bogusChecked cfg req = false → isBogus cfg req.src ip = false) ∧
    ((∃ x ∈ o.heard, ip ∈ x.2.ipAddrs ∧ accepts cfg req.src x.1 ip = true) ∨
      ∀ ns, accepts cfg req.src ns ip = true)

/-- A response to the request at hand: its addresses are vouched for, and if it may be stored,
so may its records under their owners' names. -/
def Vetted (cfg : RuntimeConfig) (common : Query → String → IpAddr) (ctx : DnsContext)
    (req : DnsRequest) (b : Bool) (r : DnsResponse) (g : Ghost) : Prop :=
  ∀ o, g.current = some o → o.ctx = ctx → o.req = req →
    (∀ ip ∈ r.ipAddrs, Vouched cfg req o ip) ∧
      (b = false → o.stores = true → ∀ x ∈ r.records,
        SameSets cfg req.src (common (ownerQuery x).key ctx.serverGroupName))

section Policy

variable {cfg : RuntimeConfig} {common : Query → String → IpAddr} {client : DnsClient}
  {ctx : DnsContext} {req : DnsRequest}

variable {T : ServerGroup → Prop} {o : Origin}

theorem Vouched.extends {o' : Origin} (hExt : Extends T o o') {ip : IpAddr}
    (h : Vouched cfg req o ip) : Vouched cfg req o' ip := by
  refine ⟨h.1, h.2.imp_left ?_⟩
  rintro ⟨x, hx, hRest⟩
  exact ⟨x, hExt.heard x hx, hRest⟩

variable {r : DnsResponse}

theorem ipAddrs_subset {r' : DnsResponse} (h : ∀ x ∈ r'.records, x ∈ r.records) :
    ∀ ip ∈ r'.ipAddrs, ip ∈ r.ipAddrs := by
  intro ip hIp
  obtain ⟨x, hx, hAddr⟩ := List.mem_filterMap.mp hIp
  exact List.mem_filterMap.mpr ⟨x, h x hx, hAddr⟩

variable {g : Ghost}

theorem vetted_mono {b : Bool} {g' : Ghost} (hLater : (hearing T).le g g')
    (h : Vetted cfg common ctx req b r g) :
    Vetted cfg common ctx req b r g' := by
  intro o' hCurrent hCtx hReq
  obtain ⟨o, hEarlier, hExt⟩ := hearing_earlier hLater hCurrent
  obtain ⟨hVouched, hOwners⟩ := h o hEarlier (hExt.ctx.symm.trans hCtx) (hExt.req.symm.trans hReq)
  exact ⟨fun ip hIp => (hVouched ip hIp).extends hExt,
    fun hStored hStores => hOwners hStored (hExt.stores.symm.trans hStores)⟩

/-- A vetted reply stays so as more replies are heard. -/
theorem vetted_graded (T : ServerGroup → Prop) : Graded T (Vetted cfg common ctx req) where
  stored :=
    { mono := fun _ _ _ hLater h => vetted_mono hLater h
      pick := by
        intro ip r r' g hSelect h o hCurrent hCtx hReq
        have hSubset := (selectRecord_records hSelect).2
        obtain ⟨hVouched, hOwners⟩ := h o hCurrent hCtx hReq
        exact ⟨fun ip hIp => hVouched ip (ipAddrs_subset hSubset ip hIp),
          fun hStored hStores x hx => hOwners hStored hStores x (hSubset x hx)⟩
      label := fun _ _ _ h => h }
  mono := fun _ _ _ hLater h => vetted_mono hLater h
  weaken := by
    intro r g h o hCurrent hCtx hReq
    exact ⟨(h o hCurrent hCtx hReq).1, fun hStored => absurd hStored (by simp)⟩

theorem hear_heard (o : Origin) (group : ServerGroup) (ns : NameServer) (r : DnsResponse) :
    (ns, r) ∈ (o.hear group ns (.ok r)).heard :=
  List.mem_append_right _ (List.mem_singleton.mpr rfl)

theorem toRData_ipAddr (ip : IpAddr) : ip.toRData.ipAddr = some ip := by
  cases ip <;> rfl

theorem recordType_of_ofFamily {t : RecordType} {ip : IpAddr} (h : ofFamily t ip = true) :
    ip.toRData.recordType = t := by
  cases ip <;> cases t <;> first
    | rfl
    | exact absurd h (by simp [ofFamily])

/-- An answer that no filter looks at. -/
theorem vetted_plain {group : ServerGroup} {ns : NameServer}
    (hUnfiltered : isFiltered ctx req = false)
    (hE : RulesShared cfg common g
      (.serverLookup group ns req.lowerName (lookupOptionsOf ctx req)) (.ok r)) :
    Vetted cfg common ctx req false r
      (g.track (.serverLookup group ns req.lowerName (lookupOptionsOf ctx req)) (.ok r)) := by
  intro o' hCurrent hCtx hReq
  obtain ⟨o, hEarlier, hEq⟩ := track_current hCurrent
  subst hEq
  have hCtx' : o.ctx = ctx := hCtx
  have hReq' : o.req = req := hReq
  subst hCtx' hReq'
  obtain ⟨hAddrs, hOwners⟩ := hE o r hEarlier rfl rfl
  refine ⟨?_, fun _ hStores x hx => hOwners hStores x hx x.recordType (Or.inl rfl)⟩
  intro ip hIp
  have hAccepts := (hAddrs ip hIp).1 hUnfiltered
  exact ⟨(hAddrs ip hIp).2 hAccepts, Or.inl ⟨(ns, r), hear_heard o group ns r, hIp, hAccepts⟩⟩

/-- An answer that has passed the filters. -/
theorem vetted_filtered (hCfg : ctx.cfg = cfg) {g₀ : Ghost} {group : ServerGroup} {ns : NameServer}
    {res : Lookup} (hFiltered : isFiltered ctx req = true)
    (hForward : RulesShared cfg common g₀ (.forward ctx req) ())
    (hE : RulesShared cfg common g
      (.serverLookup group ns req.lowerName (lookupOptionsOf ctx req)) res) :
    OkMeets (Vetted cfg common ctx req false)
      (perServer (lookupIpOptions ctx req (lookupOptionsOf ctx req)) ns res)
      (g.track (.serverLookup group ns req.lowerName (lookupOptionsOf ctx req)) res) := by
  intro r hr o' hCurrent hCtx hReq
  obtain ⟨heard, hHeard, -, hKept⟩ := perServer_ok hr
  obtain ⟨o, hEarlier, hEq⟩ := track_current hCurrent
  subst hEq hHeard
  have hCtx' : o.ctx = ctx := hCtx
  have hReq' : o.req = req := hReq
  subst hCtx' hReq'
  obtain ⟨hAddrs, hOwners⟩ := hE o heard hEarlier rfl rfl
  refine ⟨?_, ?_⟩
  · intro ip hIp
    obtain ⟨x, hx, hAddr⟩ := List.mem_filterMap.mp hIp
    rcases hKept x hx with ⟨hMem, hFilter⟩ | ⟨record, -, e, he, ip', hIp', -, hEq⟩
    · have hHeardIp : ip ∈ heard.ipAddrs := List.mem_filterMap.mpr ⟨x, hMem, hAddr⟩
      have hAccepts : accepts cfg o.req.src ns ip = true := by
        rw [← hCfg]
        exact hFilter ip hAddr
      exact ⟨(hAddrs ip hHeardIp).2 hAccepts,
        Or.inl ⟨(ns, heard), hear_heard o group ns heard, hHeardIp, hAccepts⟩⟩
    · rw [hEq] at hAddr
      have hSame : ip' = ip := Option.some.inj ((toRData_ipAddr ip').symm.trans hAddr)
      subst hSame
      have hAlias : e ∈ cfg.ipAlias := by
        rw [← hCfg]
        exact he
      obtain ⟨hAll, hBogus⟩ := hForward hFiltered e hAlias ip' hIp'
      exact ⟨hBogus, Or.inr hAll⟩
  · intro _ hStores x hx
    rcases hKept x hx with ⟨hMem, -⟩ | ⟨record, hMem, e, -, ip', -, hFamily, hEq⟩
    · exact hOwners hStores x hMem x.recordType (Or.inl rfl)
    · have hType : (ownerQuery x) = ⟨record.name, ip'.toRData.recordType, record.dnsClass⟩ := by
        rw [hEq]
        rfl
      rw [hType]
      exact hOwners hStores record hMem _ (Or.inr (recordType_of_ofFamily hFamily))

/-- What the servers' filters leave is vetted. -/
theorem vetted_sourced (hCfg : ctx.cfg = cfg) :
    Sourced (RulesShared cfg common) ctx req (Vetted cfg common ctx req) where
  bootstrap := by
    intro _ g records _ hE o hCurrent _ hReq
    refine ⟨?_, fun hStored => absurd hStored (by simp)⟩
    intro ip hIp
    obtain ⟨hAll, hBogus⟩ := hE o records hCurrent rfl ip hIp
    rw [hReq] at hAll hBogus
    exact ⟨hBogus, Or.inr hAll⟩
  plain := fun _ _ _ _ _ _ hUnfiltered hE => vetted_plain hUnfiltered hE
  filtered := fun _ _ _ _ _ hForward hFiltered hE => vetted_filtered hCfg hFiltered hForward hE

/-- The filters and the bogus-address check together. -/
theorem acceptable_of_checked {b : Bool} (hCfg : ctx.cfg = cfg) (hCurrent : g.current = some o)
    {stores : Bool} (hExt : Extends T (Origin.fresh ctx req stores) o)
    (h : Checked ctx.cfg req (Vetted cfg common ctx req) b r g) :
    ∀ ip ∈ r.ipAddrs, Acceptable cfg req.src o ip := by
  intro ip hIp
  obtain ⟨hBogus, hAccepted⟩ := (h.1 o hCurrent hExt.ctx hExt.req).1 ip hIp
  refine ⟨?_, hAccepted⟩
  cases hChecked : bogusChecked cfg req with
  | false => exact hBogus hChecked
  | true =>
    rw [bogusChecked, Bool.and_eq_true, Bool.not_eq_true'] at hChecked
    rw [← hCfg] at hChecked ⊢
    exact h.2 hChecked.1 hChecked.2 ip hIp

/-- A reply accepted for the client itself is isolated. -/
theorem isolated_of_own (hReq : o.req = req) (h : ∀ ip ∈ r.ipAddrs, Acceptable cfg req.src o ip) :
    Isolated cfg req.src r o := by
  refine ⟨h, ?_⟩
  intro _ x _ ip _ hRejects
  rw [← hReq]
  exact hRejects

/-- A negative entry shares the question asked. -/
theorem storedAcceptable_negative {ttl : Nat} (hReq : o.req = req)
    (hShared : SameSets cfg req.src (common req.query.key ctx.serverGroupName))
    (hAddrs : ∀ ip ∈ r.ipAddrs, Acceptable cfg req.src o ip) :
    StoredAcceptable cfg common req.query.key (negativeData r ttl ctx.serverGroupName) o := by
  intro label hLabel
  have hName : ctx.serverGroupName = label := Option.some.inj hLabel
  rw [← hName, hReq, negativeData_ipAddrs]
  exact ⟨hShared, hAddrs⟩

/-- Every other entry shares the question asked or the question of a record's owner. -/
theorem storedAcceptable_written {records : List Record} {bounds : Option Nat × Option Nat}
    {p : Query × DnsResponse} (hReq : o.req = req)
    (hShared : SameSets cfg req.src (common req.query.key ctx.serverGroupName))
    (hOwners : ∀ x ∈ records, SameSets cfg req.src (common (ownerQuery x).key ctx.serverGroupName))
    (hAddrs : ∀ ip ∈ records.filterMap fun x => x.rdata.ipAddr, Acceptable cfg req.src o ip)
    (hp : p ∈ written req.query (records.map (clampTtlBounds bounds)) ctx.serverGroupName) :
    StoredAcceptable cfg common p.1.key p.2 o := by
  intro label hLabel
  obtain ⟨hQuestion, -, hGroup, hWritten⟩ := written_clamp hp
  have hName : ctx.serverGroupName = label := Option.some.inj (hGroup.symm.trans hLabel)
  rw [← hName, hReq]
  refine ⟨?_, fun ip hIp => hAddrs ip (hWritten ip hIp)⟩
  rcases hQuestion with hQuery | ⟨x, hx, hOwner⟩
  · rw [hQuery]
    exact hShared
  · rw [hOwner]
    exact hOwners x hx

/-- The chain stores what is acceptable to every client that shares it. -/
theorem rules_policy (hCfg : ctx.cfg = cfg) :
    StorePolicy (StoredAcceptable cfg common) (AnsweredIsolated cfg) (RulesShared cfg common)
      client (Vetted cfg common ctx req) (Echoes False req) ctx req where
  promise := vetted_graded _
  sourced := vetted_sourced hCfg
  cache :=
    { final := fun _ _ _ _ hFalse => hFalse.elim
      answer := by
        intro g o r b stores hCurrent hExt hChecked
        exact ⟨o, hCurrent,
          isolated_of_own hExt.req (acceptable_of_checked hCfg hCurrent hExt hChecked)⟩
      serve := by
        intro g₀ g d o r b hConsult hHit hStored hServed hLabel
        refine ⟨⟨o, hHit, ?_, ?_⟩, fun hFalse => hFalse.elim⟩
        · intro ip hIp
          obtain ⟨hSame, hAddrs⟩ := hStored ctx.serverGroupName (hServed.label.symm.trans hLabel)
          rw [hServed.addrs] at hIp
          exact (hAddrs ip hIp).of_sameSets (hSame.trans_symm hConsult)
        · intro _ x _ ip _ hRejects
          obtain ⟨hSame, -⟩ := hStored ctx.serverGroupName (hServed.label.symm.trans hLabel)
          rw [← (hSame.trans_symm hConsult).rejects_eq]
          exact hRejects
      store := by
        intro g₀ g o r hConsult hCurrent hExt hChecked
        have hReq : o.req = req := hExt.req
        have hAddrs := acceptable_of_checked hCfg hCurrent hExt hChecked
        have hOwners := (hChecked.1 o hCurrent hExt.ctx hReq).2 rfl hExt.stores
        exact ⟨storedAcceptable_negative hReq hConsult hAddrs,
          fun p hp => storedAcceptable_written hReq hConsult hOwners hAddrs hp⟩
      negative := by
        intro g₀ g o e r b hConsult hCurrent hExt _ _ hNegative
        have hReq : o.req = req := hExt.req
        have hNone : r.ipAddrs = [] := by
          rw [DnsResponse.ipAddrs, (negativeResponseFromError_spec hNegative).2]
          rfl
        have hAddrs : ∀ ip ∈ r.ipAddrs, Acceptable cfg req.src o ip := by simp [hNone]
        exact ⟨storedAcceptable_negative hReq hConsult hAddrs,
          ⟨o, hCurrent, isolated_of_own hReq hAddrs⟩, fun hFalse => hFalse.elim⟩ }

end Policy

/-- In every run in which clients share questions only under sets of the same effect and
nothing harmful goes around the filters, every response to a client is isolated from the sets
of other clients: it holds no address that the client's own sets reject, and an empty one
does not hide an address that only another client's sets reject. -/
theorem filters_hold (cfg : RuntimeConfig) (client : DnsClient) (env : CacheEnv)
    (common : Query → String → IpAddr) (cacheSize expiredTtl expiredReplyTtl maxBytes : Nat)
    (es : List ServerEvent) (p : ServerPool)
    (hMeet : StepsMeet (server cfg client env).step
      (System.Meets (fun _ => True) (EnvMeets (RulesShared cfg common) env))
      ⟨World.init cacheSize expiredTtl expiredReplyTtl maxBytes, []⟩ es)
    (hRun : runTrace (server cfg client env).step
      ⟨World.init cacheSize expiredTtl expiredReplyTtl maxBytes, []⟩ es = some p) :
    ∀ t ∈ p.threads, ∀ ctx req res cached k, t.prog = .call (.answer ctx req res cached) k →
      ∃ o, (if cached then t.ghost.hit else t.ghost.current) = some o ∧
        Isolated cfg req.src res o := by
  intro t ht ctx req res cached k hProg
  have hInv := chain_invariant False (fun ctx req hCfg => ⟨_, rules_policy hCfg⟩)
    (fun hFalse => hFalse.elim) hMeet hRun
  exact hInv.pre_of_call ht hProg

/-! ## Two clients -/

/-- Addresses of `192.168.0.0/16` are bogus for the clients of that network. -/
def bogusConfig : RuntimeConfig :=
  { RuntimeConfig.default with
    bogusNxdomain := IpSet.new [singleHost]
    ipRules := [⟨privateNet, false, false, true, false⟩] }

/-- `192.168.1.50`, an address that is bogus for the clients near it. -/
def innerAddress : IpAddr := .v4 0xc0a80132#32

/-- `192.168.1.8`, another client of the network. -/
def nearSource : IpAddr := .v4 0xc0a80108#32

/-- `10.0.0.1`, a client outside of it. -/
def farSource : IpAddr := .v4 0x0a000001#32

def arrival (src : IpAddr) : Arrival where
  incoming := .ok (askFor exampleName .A src)
  serverOpts := ServerOpts.default

/-- One client's question is resolved and stored, then another client asks it. -/
def sharedRun (first second : IpAddr) (rdata : RData) (last : List Answer) : List ServerEvent :=
  [.spawn (arrival first)] ++
    steps 0 (missAnswers ++ lookupAnswers (exampleAnswer rdata) ++ storeAnswers) ++
    [.spawn (arrival second)] ++ steps 1 last

/-- A client is served the addresses given, from an entry for which a server had answered `heard`
and a client asked whose sets reject it or not. -/
def servedAcross (addrs : List IpAddr) (heard : IpAddr) (rejected : Bool) (_ : DnsContext)
    (req : DnsRequest) (res : DnsResponse) (o : Origin) : Bool :=
  decide (res.ipAddrs = addrs ∧ ∃ x ∈ o.heard, heard ∈ x.2.ipAddrs ∧
    rejects bogusConfig o.req.src x.1 heard = rejected ∧
    rejects bogusConfig req.src x.1 heard = !rejected)

/-- A sufficient condition on a run that can be computed. -/
def rulesCheck (cfg : RuntimeConfig) (common : IpAddr) : Ghost → (o : Op) → Op.Resp o → Bool
  | _, .consult _ req, _ => decide ((cfg.ipRules.filter fun rule => rule.net.containsAddr req.src) =
      cfg.ipRules.filter fun rule => rule.net.containsAddr common)
  | _, .forward _ _, _ => cfg.ipAlias.isEmpty
  | _, .localLookup _, found => found.isNone
  | g, .serverLookup _ _ _ _, _ =>
    g.current.all fun o => isFiltered o.ctx o.req && bogusChecked cfg o.req &&
      decide ((cfg.ipRules.filter fun rule => rule.net.containsAddr o.req.src) =
        cfg.ipRules.filter fun rule => rule.net.containsAddr common)
  | _, _, _ => true

theorem rulesShared_of_check {common : IpAddr} (g : Ghost) (o : Op) (r : Op.Resp o)
    (h : rulesCheck cfg common g o r = true) :
    RulesShared cfg (fun _ _ => common) g o r := by
  cases o with
  | consult ctx req => exact sameSets_of_rules (of_decide_eq_true h)
  | forward ctx req =>
    intro _ e he
    rw [List.isEmpty_iff.mp h] at he
    cases he
  | localLookup query =>
    intro o records _ hFound
    rw [hFound] at h
    exact absurd h (by simp [rulesCheck])
  | serverLookup group ns name options =>
    intro o r hCurrent _ _
    simp only [rulesCheck, hCurrent, Option.all_some, Bool.and_eq_true, decide_eq_true_eq] at h
    obtain ⟨⟨hFiltered, hChecked⟩, hRules⟩ := h
    refine ⟨?_, fun _ _ _ _ _ => sameSets_of_rules hRules⟩
    intro ip _
    exact ⟨fun hNot => absurd hFiltered (by simp [hNot]),
      fun _ hNot => absurd hChecked (by simp [hNot])⟩
  | _ => trivial

/-- Both clients are inside of the network, and so are all that share the question. -/
def nearRun : List ServerEvent := sharedRun exampleSource nearSource exampleAddress hitAnswers

theorem filters_hold_nearRun :
    ∃ p, runTrace (server bogusConfig exampleClient exampleEnv).step ⟨exampleWorld, []⟩
        nearRun = some p ∧
      ∃ t ∈ p.threads, ∃ ctx req res k, t.prog = .call (.answer ctx req res true) k ∧
        req.src = nearSource ∧ ∃ o, t.ghost.hit = some o ∧ Isolated bogusConfig req.src res o := by
  refine exists_served (fun _ req _ _ => decide (req.src = nearSource)) (by decide +kernel)
    fun p t ctx req res k o hRun ht hProg _ hServed => ?_
  exact ⟨ctx, req, res, k, hProg, of_decide_eq_true hServed,
    filters_hold bogusConfig exampleClient exampleEnv _ 4 0 0 0 nearRun p
      (stepsMeet_of_meets _ (meets_of_stepCheck (rulesCheck bogusConfig exampleSource)
        rulesShared_of_check) _ (by decide +kernel)) hRun t ht ctx req res true k hProg⟩

/-- A client is served an address that its sets reject, because another client was allowed to
see it; and a client outside is told that there is none, because its address was rejected for
a client inside. -/
theorem filters_leak :
    (∃ p, runTrace (server bogusConfig exampleClient exampleEnv).step ⟨exampleWorld, []⟩
        (sharedRun farSource exampleSource innerAddress.toRData hitAnswers) = some p ∧
      ∃ t ∈ p.threads, ∃ ctx req res k o, t.prog = .call (.answer ctx req res true) k ∧
        t.ghost.hit = some o ∧ res.ipAddrs = [innerAddress] ∧ ∃ x ∈ o.heard,
          innerAddress ∈ x.2.ipAddrs ∧ rejects bogusConfig o.req.src x.1 innerAddress = false ∧
          rejects bogusConfig req.src x.1 innerAddress = true) ∧
    ∃ p, runTrace (server bogusConfig exampleClient exampleEnv).step ⟨exampleWorld, []⟩
        (sharedRun exampleSource farSource innerAddress.toRData (missAnswers ++ [.unit])) = some p ∧
      ∃ t ∈ p.threads, ∃ ctx req res k o, t.prog = .call (.answer ctx req res true) k ∧
        t.ghost.hit = some o ∧ res.ipAddrs = [] ∧ ∃ x ∈ o.heard,
          innerAddress ∈ x.2.ipAddrs ∧ rejects bogusConfig o.req.src x.1 innerAddress = true ∧
          rejects bogusConfig req.src x.1 innerAddress = false := by
  constructor
  · refine exists_served (servedAcross [innerAddress] innerAddress false) (by decide +kernel)
      fun p t ctx req res k o _ _ hProg hHit hServed => ?_
    exact ⟨ctx, req, res, k, o, hProg, hHit, of_decide_eq_true hServed⟩
  · refine exists_served (servedAcross [] innerAddress true) (by decide +kernel)
      fun p t ctx req res k o _ _ hProg hHit hServed => ?_
    exact ⟨ctx, req, res, k, o, hProg, hHit, of_decide_eq_true hServed⟩

end SmartDns.Ports.IpRuleIsolation
