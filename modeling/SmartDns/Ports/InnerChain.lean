import SmartDns.Ports.Upstream

/-!
# The chain from the cache down

Three middlewares stand between the cache and the upstream servers: dual-stack
selection, which races the query against the same query for the other address
family, and the bogus-address check around the upstream lookup. The cache
middleware answers from the store when the entry there carries the label of
the request's server group, and otherwise stores what the layers below return,
errors included where they stand for a negative answer.
-/

namespace SmartDns.Ports.InnerChain

open Verified DnsMessage DnsLookup RequestContext RuleTree Middleware CacheStore Upstream

/-! ## Bogus addresses -/

/-- Whether an address is bogus for everyone or for this client. -/
def isBogus (cfg : RuntimeConfig) (client : IpAddr) (ip : IpAddr) : Bool :=
  cfg.bogusNxdomain.contains ip || (cfg.ipRuleBogusSetFor client).contains ip

/-- `DnsBogusMiddleware`: one bogus address turns the answer into `NXDOMAIN`. -/
def bogusLayer : Layer := fun next ctx req => do
  let outcome ← next ctx req
  match outcome.1 with
  | .ok lookup =>
    if req.query.queryType.isIpAddr &&
        lookup.records.any fun r => r.rdata.ipAddr.any (isBogus outcome.2.cfg req.src) then
      return (.error (.responseCode .NXDomain), outcome.2)
    else return outcome
  | .error _ => return outcome

/-! ## Dual-stack selection -/

/-- The other address family. -/
def thatType : RecordType → RecordType
  | .A => .AAAA
  | .AAAA => .A
  | t => t

/-- Whether selection is in force for a domain. -/
def dualstackEnabled (ctx : DnsContext) : Bool :=
  (headGet ctx.domainRule (·.dualstackIpSelection)).getD ctx.cfg.dualstackIpSelection

/-- `SpeedCheckModeList::default`. -/
def defaultModes : List SpeedCheckMode := [.Ping, .Http 80, .Https 443]

/-- The modes the two families are compared with. -/
def dualstackModes (ctx : DnsContext) : List SpeedCheckMode :=
  ((headGet ctx.domainRule (·.speedCheckMode)).or ctx.cfg.speedCheckMode).getD defaultModes

/-- Whether the query is raced against the other family at all. -/
def dualstackApplies (ctx : DnsContext) (req : DnsRequest) : Bool :=
  !ctx.serverOpts.noDualstackSelection.getD false && req.query.queryType.isIpAddr &&
    (req.query.queryType != .A || ctx.cfg.dualstackIpAllowForceAaaa) &&
    dualstackEnabled ctx && !(dualstackModes ctx).isEmpty

/-- `multi_mode_ping_fastest`: the modes share one deadline. -/
def pingFastest (addrs : List IpAddr) : List SpeedCheckMode → Async (Option Nat)
  | [] => return none
  | mode :: modes => do
    match ← Prog.perform (Op.ping addrs mode) with
    | some out => return some out.2
    | none =>
      let expired ← Prog.perform Op.select
      if expired then return none else pingFastest addrs modes

def isThatFaster (thisDura thatDura threshold : Nat) : Bool :=
  decide (thisDura > thatDura) && decide (thisDura - thatDura > threshold)

def decideThatFaster (thisDura thatDura : Option Nat) (threshold : Nat) : Bool :=
  match thisDura, thatDura with
  | _, none => false
  | none, some _ => true
  | some this, some that => isThatFaster this that threshold

/-- `which_faster`: only the other family's ping ending first can make it the faster one. -/
def whichFaster (this that : DnsResponse) (modes : List SpeedCheckMode) (threshold : Nat) :
    Async Bool := do
  let thatFirst ← Prog.perform Op.select
  if thatFirst then
    let thatDura ← pingFastest that.ipAddrs modes
    let thisDura ← pingFastest this.ipAddrs modes
    return decideThatFaster thisDura thatDura threshold
  else
    let _ ← pingFastest this.ipAddrs modes
    return false

def race {α β : Type} (this : Async α) (that : Async β) : Async (Prog.Either Op Op.Resp α β) :=
  this.select Op.select id that

/-- Let a program run until a timer ends; `none` when it did not make it. -/
def withTimeout {α : Type} (p : Async α) : Async (Option α) := do
  match ← race p (Prog.perform Op.timeout) with
  | .left a _ => return some a
  | .right _ _ => return none

/-- `this_no_records`: the family asked for is answered as if it had no addresses. -/
def thisNoRecords (ctx : DnsContext) (req : DnsRequest) : Async Outcome := do
  Prog.perform (Op.logDualStack req.lowerName (thatType req.query.queryType))
  return (.error (DnsError.noRecordsFound req.query (ctx.cfg.rrTtl.getD 0 % 2 ^ 32)), ctx)

/-- Both families have answered: keep this one unless the other is faster. -/
def compareFamilies (ctx : DnsContext) (req : DnsRequest) (this that : DnsResponse)
    (outcome : Outcome) : Async Outcome := do
  let threshold := ctx.cfg.dualstackIpSelectionThreshold * 1000000
  let thatFaster ← whichFaster this that (dualstackModes ctx) threshold
  let preferThat := req.query.queryType == .A
  if thatFaster && (preferThat || req.query.queryType == .AAAA) then thisNoRecords outcome.2 req
  else return outcome

/-- `DnsDualStackIpSelectionMiddleware`. -/
def dualStackLayer : Layer := fun next ctx req =>
  if !dualstackApplies ctx req then next ctx req
  else do
    let thatReq := req.setQueryType (thatType req.query.queryType)
    match ← race (next ctx req) (next ctx thatReq) with
    | .left outcome that =>
      match outcome.1 with
      | .ok this =>
        match ← withTimeout that with
        | some (.ok thatLookup, _) => compareFamilies ctx req this thatLookup outcome
        | _ => return outcome
      | .error _ => return outcome
    | .right thatOutcome this =>
      match thatOutcome.1 with
      | .ok thatLookup =>
        match ← withTimeout this with
        | some (.ok thisLookup, ctx') =>
          compareFamilies ctx req thisLookup thatLookup (.ok thisLookup, ctx')
        | some (.error err, ctx') => return (.error err, ctx')
        | none => thisNoRecords ctx req
      | .error _ => this

/-! ## The cache -/

def isNegativeResponse (resp : DnsResponse) (query : Query) : Bool :=
  match resp.responseCode with
  | .NXDomain => true
  | .NoError => !(resp.records.any fun r => r.recordType == query.queryType)
  | _ => false

/-- `negative_ttl`, in nanoseconds: the authority's minimum between one minute and one hour. -/
def negativeTtl (resp : DnsResponse) : Nat :=
  let minimum := resp.message.authorities.findSome? fun r =>
    match r.rdata with
    | .SOA soa => some (max soa.minimum 60)
    | _ => none
  secs (min (minimum.getD 600) 3600)

def negativeResponseFromError (err : DnsError) (query : Query) : Option DnsResponse :=
  if err.isNxDomain then
    let res := DnsResponse.newWithMaxTtl query []
    some { res with message := res.message.setResponseCode .NXDomain }
  else err.asSoa query

/-- The bounds on stored and served TTLs: the domain's rule before the global setting. -/
def rrTtlBounds (ctx : DnsContext) : Option Nat × Option Nat :=
  (((headGet ctx.domainRule (·.rrTtlMin)).or ctx.cfg.rrTtlMin).map (· % 2 ^ 32),
    ((headGet ctx.domainRule (·.rrTtlMax)).or ctx.cfg.rrTtlMax).map (· % 2 ^ 32))

/-- `clamp_ttl_bounds`: first the lower bound, then the upper. -/
def clampTtlBounds (bounds : Option Nat × Option Nat) (record : Record) : Record :=
  let record := (bounds.1.map record.setMinTtl).getD record
  (bounds.2.map record.setMaxTtl).getD record

/-- Below which remaining TTL a hit asks for a refresh. -/
def onHitPrefetchRemainingTtl (cfg : RuntimeConfig) : Nat :=
  if cfg.serveExpiredPrefetchTime = 0 then 600 else min cfg.serveExpiredPrefetchTime (2 ^ 32 - 1)

/-- What the store has for a request. -/
inductive Cached where
  | fresh (res : DnsResponse)
  | stale (res : DnsResponse)
  | absent

/-- Answer from the store. -/
def serveCached (ctx : DnsContext) (req : DnsRequest) (res : DnsResponse) : Async Cached := do
  let low := decide (res.maxAnswerTtl.getD 0 < onHitPrefetchRemainingTtl ctx.cfg)
  if !isNegativeResponse res req.query && low then
    Prog.perform (Op.tryPrefetch req.query ctx.serverGroupName)
  Prog.perform Op.queryHit
  return .fresh res.markFromCache

/-- Look a request up; refreshes do not use the store. -/
def lookupCache (ctx : DnsContext) (req : DnsRequest) : Async Cached := do
  if ctx.serverOpts.isBackground then return .absent
  else
    let noServeExpired := (headGet ctx.domainRule (·.noServeExpired)).getD false
    let now ← Prog.perform Op.now
    match ← Prog.perform (Op.cacheGet req.query now) with
    | none => return .absent
    | some (res, status) =>
      if res.nameServerGroup = some ctx.serverGroupName then
        match status with
        | .Valid => serveCached ctx req res
        | .Expired =>
          if ctx.cfg.serveExpired && !noServeExpired then serveCached ctx req res
          else return .stale res
      else return .absent

/-- Store a response of the layers below. -/
def storeLookup (ctx : DnsContext) (req : DnsRequest) (lookup : DnsResponse) : Async Unit := do
  if !ctx.noCache && ctx.cfg.cacheNegative && isNegativeResponse lookup req.query then
    let now ← Prog.perform Op.now
    Prog.perform (Op.insertNegative req.query lookup (negativeTtl lookup) ctx.serverGroupName now)
  else if lookup.records.all fun r => r.recordType != req.query.queryType then return ()
  else if !ctx.noCache then
    let now ← Prog.perform Op.now
    let records := lookup.records.map (clampTtlBounds (rrTtlBounds ctx))
    Prog.perform (Op.insertRecords req.query records now ctx.serverGroupName)

/-- A failure of the layers below: a negative answer, the stale entry, or the failure. -/
def storeError (ctx : DnsContext) (req : DnsRequest) (err : DnsError) (cached : Cached) :
    Async Lookup := do
  let negative :=
    if !ctx.noCache && ctx.cfg.cacheNegative then negativeResponseFromError err req.query else none
  match negative with
  | some neg =>
    let now ← Prog.perform Op.now
    Prog.perform (Op.insertNegative req.query neg (negativeTtl neg) ctx.serverGroupName now)
    Prog.perform (Op.answer ctx req neg false)
    return .ok neg
  | none =>
    match cached with
    | .stale res =>
      Prog.perform (Op.answer ctx req res true)
      return .ok res
    | _ => return .error err

/-- A request that has nothing to do with the store. -/
def passBy : Layer := fun next ctx req => do
  Prog.perform (Op.bypass ctx req)
  let outcome ← next ctx req
  match outcome.1 with
  | .ok lookup =>
    Prog.perform (Op.answer ctx req lookup false)
    return outcome
  | .error _ => return outcome

/-- `DnsCacheMiddleware`. -/
def cacheLayer : Layer := fun next ctx req =>
  if ctx.serverOpts.noCache.getD false || ctx.noCache || req.isDnssec then passBy next ctx req
  else do
    Prog.perform (Op.consult ctx req)
    let cached ← lookupCache ctx req
    match cached with
    | .fresh res =>
      Prog.perform (Op.answer ctx req res true)
      return (.ok res, ctx)
    | _ =>
      let outcome ← next ctx req
      match outcome.1 with
      | .ok lookup =>
        storeLookup outcome.2 req lookup
        Prog.perform (Op.answer ctx req lookup false)
        return outcome
      | .error err => return (← storeError outcome.2 req err cached, outcome.2)

/-- What the cache does once the layers below it have returned. -/
def finishLookup (ctx : DnsContext) (req : DnsRequest) (cached : Cached) (outcome : Outcome) :
    Async Outcome := do
  match outcome.1 with
  | .ok lookup =>
    storeLookup outcome.2 req lookup
    Prog.perform (Op.answer ctx req lookup false)
    return outcome
  | .error err => return (← storeError outcome.2 req err cached, outcome.2)

/-- The layers below the cache, as `build_middleware` registers them. -/
def innerLayers (cfg : RuntimeConfig) (client : DnsClient) : List Layer :=
  [dualStackLayer] ++ (if cfg.bogusNxdomain.isEmpty then [] else [bogusLayer]) ++
    [nameServerLayer client]

/-- The layers from the cache down; without a cache every request passes by. -/
def storeLayers (cfg : RuntimeConfig) (client : DnsClient) : List Layer :=
  (if cfg.cacheSize > 0 then [cacheLayer] else [passBy]) ++ innerLayers cfg client

end SmartDns.Ports.InnerChain
