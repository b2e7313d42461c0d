import SmartDns.Ports.Middleware

/-!
# Asking the upstream servers

The client side of the server: groups of upstream servers, the filters applied
to what one of them answers, and the three strategies for choosing among the
answers to an address query. All servers of a group are asked at once and
their answers, like the results of pings, are taken in the order in which they
arrive; `next` stands for the next event to arrive.

A strategy loop runs over the servers that have not answered yet, so it is
structurally recursive in their number. Only `lookupIpFastestIp` waits for every
ping as well, which is the inner recursion of `drainPings`.
-/

namespace SmartDns.Ports.Upstream

open Verified DomainName DnsMessage DnsLookup IpNetwork RequestContext RuleTree Middleware

abbrev Lookup := Except DnsError DnsResponse

/-- The upstream groups of a configuration and the library's texts for its errors. -/
structure DnsClient where
  default : List NameServer
  servers : String → Option (List NameServer)
  errorText : ProtoErrorKind → String

def eqIgnoreAsciiCase (a b : String) : Bool :=
  a.toList.map Char.toLower == b.toList.map Char.toLower

namespace DnsClient

def defaultServerGroup (client : DnsClient) : NameServerGroup := ⟨.default, client.default⟩

/-- The group of that name; the default one under its own name or none. -/
def getServerGroup (client : DnsClient) (name : String) : Option NameServerGroup :=
  if name = "" ∨ eqIgnoreAsciiCase name "default" then some client.defaultServerGroup
  else (client.servers name).map fun servers => ⟨.named name, servers⟩

/-- `PartialEq` of lookup errors: the library's errors are compared by their text. -/
def sameError (client : DnsClient) : DnsError → DnsError → Bool
  | .responseCode a, .responseCode b => a = b
  | .proto a, .proto b => client.errorText a = client.errorText b
  | .io a, .io b => a = b
  | .nameExists, .nameExists => true
  | _, _ => false

end DnsClient

def noConnections : Lookup := .error (.proto .noConnections)

/-! ## Asking a whole group -/

/-- Whether a result ends the lookup before every server has answered. -/
def hasRecords : Lookup → Bool
  | .ok lookup => !lookup.records.isEmpty
  | .error _ => false

/-- The first result with records, else the result that arrives last. -/
def groupLoop (group : ServerGroup) (name : Name) (options : LookupOptions) :
    Nat → List NameServer → Async Lookup
  | 0, _ => .done noConnections
  | n + 1, pending => do
    let i ← Prog.perform (Op.next (n + 1))
    match pending[i]? with
    | none => return noConnections
    | some ns =>
      let res ← Prog.perform (Op.serverLookup group ns name options)
      if hasRecords res || n == 0 then return res
      else groupLoop group name options n (pending.eraseIdx i)

/-- `NameServerGroup::lookup`. -/
def groupLookup (server : NameServerGroup) (name : Name) (options : LookupOptions) : Async Lookup :=
  groupLoop server.group name options server.servers.length server.servers

/-! ## Filters on one server's answer -/

structure LookupIpOptions where
  responseStrategy : ResponseMode
  speedCheckMode : Option (List SpeedCheckMode)
  noSpeedCheck : Bool
  ignoreIp : IpSet
  whitelistIp : IpSet
  blacklistIp : IpSet
  ipAlias : IpMap IpAlias
  lookupOptions : LookupOptions

/-- Whether an address that a server answers with is kept. -/
def ipFilter (options : LookupIpOptions) (server : NameServer) (ip : IpAddr) : Bool :=
  if server.whitelistIp && options.whitelistIp.contains ip then true
  else if server.blacklistIp && options.blacklistIp.contains ip then false
  else !options.ignoreIp.contains ip

/-- Whether an address answers a query of this type. -/
def ofFamily : RecordType → IpAddr → Bool
  | .A, .v4 _ => true
  | .AAAA, .v6 _ => true
  | _, _ => false

/-- The answers kept, the additional records and the aliases used so far. -/
structure Filtered where
  answers : List Record
  additionals : List Record
  aliasSet : List Nat

/-- One record of the answer section. -/
def filterRecord (options : LookupIpOptions) (server : NameServer) (acc : Filtered)
    (record : Record) : Filtered :=
  match record.rdata.ipAddr.filter (ipFilter options server) with
  | none => acc
  | some ip =>
    match options.ipAlias.get ip with
    | none => { acc with answers := acc.answers ++ [record] }
    | some other =>
      if acc.aliasSet.contains other.mark then acc
      else
        let isAnswer := ofFamily options.lookupOptions.recordType
        let substitute := fun ip : IpAddr => { record with rdata := ip.toRData }
        { answers := acc.answers ++ (other.addrs.filter isAnswer).map substitute
          additionals := acc.additionals ++
            (other.addrs.filter fun ip => !isAnswer ip).map substitute
          aliasSet := acc.aliasSet ++ [other.mark] }

/-- The records of a reply that pass the filters. -/
def filterAnswers (options : LookupIpOptions) (server : NameServer) (records : List Record) :
    Filtered :=
  records.foldl (filterRecord options server) ⟨[], [], []⟩

/-- What is left of an answer after the filters; nothing left is an error. -/
def filterLookup (options : LookupIpOptions) (server : NameServer) : Lookup → Lookup
  | .error e => .error e
  | .ok lookup =>
    let filtered := filterAnswers options server lookup.records
    if filtered.answers.isEmpty then
      .error (.proto (.noRecordsFound ⟨lookup.query, none, .NXDomain⟩))
    else
      .ok { lookup with
        message := { lookup.message with
          answers := filtered.answers
          additionals := lookup.message.additionals ++ filtered.additionals } }

def perNameserverLookupIp (group : ServerGroup) (server : NameServer) (name : Name)
    (options : LookupIpOptions) : Async Lookup := do
  let res ← Prog.perform (Op.serverLookup group server name options.lookupOptions)
  if !server.whitelistIp && !server.blacklistIp && options.ignoreIp.isEmpty &&
      options.ipAlias.isEmpty then
    return res
  else return filterLookup options server res

/-! ## Choosing an address -/

/-- How often an address occurs in the answers. -/
def ipCount (okTasks : List DnsResponse) (ip : IpAddr) : Nat :=
  (okTasks.flatMap DnsResponse.ipAddrs).count ip

/-- The addresses that occur most often; which one a hash map yields is not fixed. -/
def mostFrequentIps (okTasks : List DnsResponse) : List IpAddr :=
  let ips := (okTasks.flatMap DnsResponse.ipAddrs).dedup
  ips.filter fun ip => ips.all fun ip' => ipCount okTasks ip' ≤ ipCount okTasks ip

def mostFrequentIp (okTasks : List DnsResponse) : Async (Option IpAddr) :=
  match mostFrequentIps okTasks with
  | [] => return none
  | ips => do
    let i ← Prog.perform (Op.next ips.length)
    return ips[i]?

/-- The answer cut down to the record of the selected address. -/
def selectRecord (selected : IpAddr) (res : DnsResponse) : Option DnsResponse :=
  (res.records.find? fun r => r.rdata.ipAddr == some selected).map fun record =>
    { res with message := { res.message with answers := [record] } }

/-- `handle_strategy_result` on a selected address. -/
def selectedIp (selected : IpAddr) (okTasks : List DnsResponse) : Lookup :=
  match okTasks.findSome? (selectRecord selected) with
  | some res => .ok res
  | none => .error (.proto (.other "unreachable"))

/-- `handle_strategy_result` when no address was selected. -/
def fallback (okTasks : List DnsResponse) (errTasks : List DnsError) : Lookup :=
  match okTasks with
  | lookup :: _ => .ok lookup
  | [] =>
    match errTasks with
    | err :: _ => .error err
    | [] => noConnections

/-- The address a ping chose, else a most frequent one, else the first answer. -/
def chooseIp (fastest : Option IpAddr) (okTasks : List DnsResponse) (errTasks : List DnsError) :
    Async Lookup :=
  match fastest with
  | some ip => return selectedIp ip okTasks
  | none => do
    match ← mostFrequentIp okTasks with
    | some ip => return selectedIp ip okTasks
    | none => return fallback okTasks errTasks

/-! ## Pings -/

/-- `multi_mode_ping_fastest` and `multi_mode_ping`: the first mode that gives a result. -/
def multiModePing (addrs : List IpAddr) : List SpeedCheckMode → Async (Option (IpAddr × Nat))
  | [] => return none
  | mode :: modes => do
    match ← Prog.perform (Op.ping addrs mode) with
    | some out => return some out
    | none => multiModePing addrs modes

/-! ## Strategies -/

section Strategies

variable (client : DnsClient) (group : ServerGroup) (name : Name) (options : LookupIpOptions)

/-- `lookup_ip_fastest_response`: the first answer without an error code; the same error
twice ends the wait early. -/
def fastestResponseLoop :
    Nat → List NameServer → Option DnsResponse → Option DnsError → Async Lookup
  | 0, _, lastOk, lastError =>
    match lastOk, lastError with
    | some ok, _ => return .ok ok
    | none, some err => return .error err
    | none, none => return noConnections
  | n + 1, pending, lastOk, lastError => do
    let i ← Prog.perform (Op.next (n + 1))
    match pending[i]? with
    | none => return noConnections
    | some ns =>
      match ← perNameserverLookupIp group ns name options with
      | .ok response =>
        if response.responseCode = .NoError then return .ok response
        else fastestResponseLoop n (pending.eraseIdx i) (some response) lastError
      | .error err =>
        if !err.isNoConnections && lastError.any fun e => client.sameError e err then
          match lastOk with
          | some ok => return .ok ok
          | none => return .error err
        else fastestResponseLoop n (pending.eraseIdx i) lastOk (some err)

def lookupIpFastestResponse (servers : List NameServer) : Async Lookup :=
  fastestResponseLoop client group name options servers.length servers none none

/-- `lookup_ip_first_ping`: an answer with one address wins, else the first ping to end. -/
def firstPingLoop (modes : List SpeedCheckMode) :
    Nat → List NameServer → List (List IpAddr) → List DnsResponse → List DnsError → Async Lookup
  | 0, _, pings, okTasks, errTasks =>
    match pings with
    | [] => chooseIp none okTasks errTasks
    | _ => do
      let i ← Prog.perform (Op.next pings.length)
      let out ← multiModePing (pings[i]?.getD []) modes
      chooseIp (out.map Prod.fst) okTasks errTasks
  | n + 1, pending, pings, okTasks, errTasks => do
    let i ← Prog.perform (Op.next (n + 1 + pings.length))
    match pending[i]? with
    | none =>
      let out ← multiModePing (pings[i - pending.length]?.getD []) modes
      chooseIp (out.map Prod.fst) okTasks errTasks
    | some ns =>
      match ← perNameserverLookupIp group ns name options with
      | .ok lookup =>
        if lookup.ipAddrs.length = 1 then return .ok lookup
        else
          firstPingLoop modes n (pending.eraseIdx i) (pings ++ [lookup.ipAddrs])
            (okTasks ++ [lookup]) errTasks
      | .error err =>
        firstPingLoop modes n (pending.eraseIdx i) pings okTasks (errTasks ++ [err])

def lookupIpFirstPing (servers : List NameServer) (modes : List SpeedCheckMode) : Async Lookup :=
  firstPingLoop group name options modes servers.length servers [] [] []

/-- The state of `lookup_ip_fastest_ip` between two events. -/
structure PingRace where
  pending : List NameServer
  pings : List IpAddr
  pinged : List IpAddr
  fastest : Option (IpAddr × Nat)
  okTasks : List DnsResponse
  errTasks : List DnsError

/-- A ping has ended. -/
def PingRace.pingDone (race : PingRace) (i : Nat) (out : Option (IpAddr × Nat)) : PingRace :=
  let better :=
    match out, race.fastest with
    | some o, some t => if o.2 < t.2 then some o else some t
    | some o, none => some o
    | none, t => t
  { race with pings := race.pings.eraseIdx i, fastest := better }

/-- A server has answered; every address not seen before is pinged. -/
def PingRace.queryDone (race : PingRace) (i : Nat) (res : Lookup) : PingRace :=
  match res with
  | .ok lookup =>
    let fresh := lookup.ipAddrs.dedup.filter fun ip => !race.pinged.contains ip
    { race with
      pending := race.pending.eraseIdx i
      pings := race.pings ++ fresh
      pinged := race.pinged ++ fresh
      okTasks := race.okTasks ++ [lookup] }
  | .error err =>
    { race with
      pending := race.pending.eraseIdx i
      errTasks := race.errTasks ++ [err] }

/-- Take pings until a server answers or nothing is outstanding. -/
def drainPings (modes : List SpeedCheckMode) (onQuery : Nat → PingRace → Async Lookup) :
    Nat → PingRace → Async Lookup
  | 0, race =>
    match race.pending with
    | [] => chooseIp (race.fastest.map Prod.fst) race.okTasks race.errTasks
    | _ => do
      let i ← Prog.perform (Op.next race.pending.length)
      onQuery i race
  | n + 1, race => do
    let i ← Prog.perform (Op.next (race.pending.length + n + 1))
    if i < race.pending.length then onQuery i race
    else
      let j := i - race.pending.length
      let out ← multiModePing (race.pings[j]?.toList) modes
      drainPings modes onQuery n (race.pingDone j out)

/-- `lookup_ip_fastest_ip`: wait for every server and every ping. -/
def fastestIpLoop (modes : List SpeedCheckMode) : Nat → PingRace → Async Lookup
  | 0, race =>
    drainPings modes
      (fun _ race => chooseIp (race.fastest.map Prod.fst) race.okTasks race.errTasks)
      race.pings.length race
  | n + 1, race =>
    drainPings modes
      (fun i race => do
        match race.pending[i]? with
        | none => return noConnections
        | some ns =>
          let res ← perNameserverLookupIp group ns name options
          fastestIpLoop modes n (race.queryDone i res))
      race.pings.length race

def lookupIpFastestIp (servers : List NameServer) (modes : List SpeedCheckMode) : Async Lookup :=
  fastestIpLoop group name options modes servers.length ⟨servers, [], [], none, [], []⟩

end Strategies

/-- The strategy in effect and the modes it pings with. -/
def strategyOf (options : LookupIpOptions) : ResponseMode × List SpeedCheckMode :=
  let strategy :=
    if options.noSpeedCheck || options.speedCheckMode.isNone then .FastestResponse
    else options.responseStrategy
  let modes := options.speedCheckMode.getD []
  if modes.any fun mode => decide (mode = .None) then (.FastestResponse, []) else (strategy, modes)

/-- Asks a group for addresses by its response mode. -/
def lookupIp (client : DnsClient) (server : NameServerGroup) (name : Name)
    (options : LookupIpOptions) : Async Lookup :=
  if server.servers.isEmpty then return noConnections
  else
    match strategyOf options with
    | (.FirstPing, modes) => lookupIpFirstPing server.group name options server.servers modes
    | (.FastestIp, modes) => lookupIpFastestIp server.group name options server.servers modes
    | (.FastestResponse, _) =>
      lookupIpFastestResponse client server.group name options server.servers

/-! ## The middleware -/

def localZone : Name := Name.ofLabels ["local"]

/-- Whether a name is resolved over multicast DNS. -/
def isMulticast (cfg : RuntimeConfig) (name : Name) : Bool :=
  (cfg.mdnsLookup && localZone.zoneOf name) ||
    (cfg.localDomain.map fun suffix => suffix.zoneOf name).getD false

/-- The group a name is sent to under a group name. -/
def nameServerFor (client : DnsClient) (cfg : RuntimeConfig) (groupName : String) (name : Name) :
    Option NameServerGroup :=
  let multicast := if isMulticast cfg name then client.getServerGroup "mdns" else none
  multicast.or (client.getServerGroup groupName)

/-- The filters and the strategy for an address query. -/
def lookupIpOptions (ctx : DnsContext) (req : DnsRequest) (lookupOptions : LookupOptions) :
    LookupIpOptions :=
  let sets := ctx.cfg.ipRuleSetsFor req.src
  let mode :=
    match ctx.domainRule with
    | some rule => (nodeGet rule (·.responseMode)).getD ctx.cfg.responseMode
    | none => ctx.cfg.responseMode
  { responseStrategy := if ctx.serverOpts.isBackground then .FastestIp else mode
    speedCheckMode := (headGet ctx.domainRule (·.speedCheckMode)).or ctx.cfg.speedCheckMode
    noSpeedCheck := ctx.serverOpts.noSpeedCheck.getD false
    ignoreIp := sets.1
    blacklistIp := sets.2.1
    whitelistIp := sets.2.2
    ipAlias := ctx.cfg.ipAlias
    lookupOptions := lookupOptions }

/-- The lookup options of a request: its own subnet, else the rule's. -/
def lookupOptionsOf (ctx : DnsContext) (req : DnsRequest) : LookupOptions where
  isDnssec := req.isDnssec
  recordType := req.query.queryType
  clientSubnet := (req.message.extensions.bind (·.subnet)).or (headGet ctx.domainRule (·.subnet))

/-- `DnsClient::lookup_nameserver`: the address of an upstream server itself. -/
def lookupNameserver (req : DnsRequest) : Async (Option DnsResponse) :=
  if req.query.queryType.isIpAddr then do
    let query := Query.query req.lowerName req.query.queryType
    return (← Prog.perform (Op.localLookup query)).map (DnsResponse.newWithMaxTtl query)
  else return none

/-- `NameServerMiddleware`, the end of the chain. -/
def nameServerLayer (client : DnsClient) : Layer := fun _ ctx req => do
  let name := req.lowerName
  let options := lookupOptionsOf ctx req
  Prog.perform (Op.forward ctx req)
  match ← lookupNameserver req with
  | some lookup => return (.ok lookup, { ctx with noCache := true })
  | none =>
    if ctx.serverOpts.noRuleNameserver.getD false then
      return (← groupLookup client.defaultServerGroup name options, ctx)
    else
      match nameServerFor client ctx.cfg ctx.serverGroupName name with
      | none => return (noConnections, ctx)
      | some server =>
        let res ←
          if req.query.queryType.isIpAddr then
            lookupIp client server name (lookupIpOptions ctx req options)
          else groupLookup server name options
        return (res.map fun r => r.withNameServerGroup ctx.serverGroupName, ctx)

end SmartDns.Ports.Upstream
