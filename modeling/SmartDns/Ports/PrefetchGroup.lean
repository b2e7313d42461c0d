import SmartDns.Ports.GroupIsolation

/-!
# The server group of a refresh

The prefetch worker asks for the question of a cached entry on behalf of nobody:
the request comes from the loopback address, in the background. It carries the
label of the entry, which is a server group, in the place of a rule group, and
`search` replaces that by the group of the client rule for the loopback address.
So the label has no part in where the refresh goes; the rules that hold for the
loopback address decide alone.
-/

namespace SmartDns.Ports.PrefetchGroup

open Verified DomainName DnsMessage DnsLookup RequestContext Middleware AccessControl Upstream
open InnerChain OuterChain ServerRuns LookupRules Process GroupIsolation LookupChoice BelowCache
open FileLayers

/-! ## The worker -/

/-- The options the worker sends a request with. -/
def refreshOpts (ruleGroup : Option String) : ServerOpts :=
  { ServerOpts.default with isBackground := true, ruleGroup := ruleGroup }

/-- What `SerialMessage::from` makes of a question. -/
def refreshRequest (id : Nat) (query : Query) : DnsRequest :=
  DnsRequest.new ((Message.query id).addQuery query) DnsRequest.localhost

/-- `prefetch_worker`: one task, the label of the entry standing for a rule group. -/
def refresh (cfg : RuntimeConfig) (client : DnsClient) (id : Nat) (query : Query)
    (ruleGroup : Option String) : Async Message :=
  send cfg (buildMiddleware cfg client) (.ok (refreshRequest id query)) (refreshOpts ruleGroup)

/-- The rule group of requests from the loopback address. -/
def workerRuleGroup (cfg : RuntimeConfig) : Option String :=
  (cfg.clientRules.find? fun rule => rule.matchIp DnsRequest.localhost).map (·.group)

/-- The options a refresh is resolved with, whatever it was sent with. -/
def workerOpts (cfg : RuntimeConfig) : ServerOpts := refreshOpts (workerRuleGroup cfg)

/-! ## The chain, for a request in its group -/

/-- Lookups go to `target`, and entries are stored under `label`. -/
def ForGroup (target : Option ServerGroup) (label : String) : Op → Prop
  | .serverLookup group _ _ _ => target = some group
  | .insertNegative _ _ _ label' _ => label' = label
  | .insertRecords _ _ _ label' => label' = label
  | _ => True

/-- A refresh that is being resolved under the label, its name being sent to the target. -/
structure Ready (cfg : RuntimeConfig) (client : DnsClient) (target : Option ServerGroup)
    (label : String) (ctx : DnsContext) (req : DnsRequest) : Prop where
  config : ctx.cfg = cfg
  opts : ctx.serverOpts = workerOpts cfg
  group : ctx.serverGroupName = label
  sent : (nameServerFor client cfg label req.lowerName).map (·.group) = target

/-- The program keeps to the group and leaves the context ready. -/
abbrev InGroup (cfg : RuntimeConfig) (client : DnsClient) (target : Option ServerGroup)
    (label : String) (req : DnsRequest) (p : Async Outcome) : Prop :=
  Only (ForGroup target label)
    (fun outcome : Outcome => Ready cfg client target label outcome.2 req) p

/-- A handler that keeps refreshes in their group. -/
def Confined (cfg : RuntimeConfig) (client : DnsClient) (target : Option ServerGroup)
    (label : String) (next : Handler) : Prop :=
  ∀ ctx req, Ready cfg client target label ctx req →
    InGroup cfg client target label req (next ctx req)

section Chain

variable {cfg : RuntimeConfig} {client : DnsClient} {target : Option ServerGroup}
  {label : String} {ctx ctx' : DnsContext} {req req' : DnsRequest} {next : Handler}

/-- Only the name of a request and the rest of its context matter. -/
theorem Ready.congr (h : Ready cfg client target label ctx req)
    (hCtx : ctx' = { ctx with noCache := ctx'.noCache }) (hName : req'.lowerName = req.lowerName) :
    Ready cfg client target label ctx' req' := by
  refine ⟨?_, ?_, ?_, ?_⟩
  · rw [hCtx]
    exact h.config
  · rw [hCtx]
    exact h.opts
  · rw [hCtx]
    exact h.group
  · rw [hName]
    exact h.sent

/-- A request ready for the group has it as target. -/
theorem Ready.targetGroup (h : Ready cfg client target label ctx req) :
    targetGroup client ctx req = target := by
  have hRules : ctx.serverOpts.noRuleNameserver.getD false = false := by
    rw [h.opts]
    rfl
  unfold LookupRules.targetGroup
  rw [hRules, if_neg Bool.false_ne_true, h.config, h.group]
  exact h.sent

/-- Below the cache only the group's servers are asked. -/
theorem lowerChain_confined : Confined cfg client target label (lowerChain cfg client) := by
  intro ctx req hReady
  refine (Only.iff_ensures _).mpr (lowerChain_asks (fun _ _ hOutcome => hOutcome) ?_)
  refine nameServerLayer_asks (Q := fun _ => True) trivial ?_ ?_ trivial (fun _ _ => hReady)
    (fun _ _ _ => trivial)
  · intro _
    exact Ensures.mono (fun _ _ _ _ => hReady.congr rfl rfl) _
      (lookupNameserver_ensures (F := fun _ => True) trivial fun _ _ => trivial)
  · intro _ server hServer
    refine (Only.iff_ensures _).mp (Only.weaken ?_ _ (askGroup_only client server _ _ _))
    intro o hGroup
    cases o with
    | serverLookup group ns name options =>
      rw [show group = server.group from hGroup]
      exact hReady.targetGroup.symm.trans hServer
    | ping | next => trivial
    | _ => exact hGroup.elim

/-! ### Dual-stack selection -/

theorem racing_forGroup : Racing (ForGroup target label) :=
  ⟨trivial, trivial, fun _ _ => trivial, fun _ _ => trivial⟩

/-- The selection layer stays with the group. -/
theorem dualStackLayer_confined (hNext : Confined cfg client target label next) :
    Confined cfg client target label (dualStackLayer next) := by
  intro ctx req hReady
  have hThis := (Only.iff_ensures _).mp (hNext ctx req hReady)
  have hThat := (Only.iff_ensures _).mp
    (hNext ctx (req.setQueryType (thatType req.query.queryType)) ⟨hReady.config, hReady.opts,
      hReady.group, hReady.sent⟩)
  exact (Only.iff_ensures _).mpr
    (dualStackLayer_ensures racing_forGroup (fun _ _ hOutcome => hOutcome) (fun _ => hReady) hThis
      (Ensures.mono (fun _ _ => trivial) _ hThat))

/-! ### The cache -/

/-- An answer is stored under the group's label. -/
theorem storeLookup_only (lookup : DnsResponse) (hReady : Ready cfg client target label ctx req) :
    Only (ForGroup target label) (fun _ => True) (storeLookup ctx req lookup) := by
  unfold storeLookup
  split
  · exact Only.perform trivial fun _ => ⟨hReady.group, fun _ => trivial⟩
  · split
    · trivial
    · split
      · exact Only.perform trivial fun _ => ⟨hReady.group, fun _ => trivial⟩
      · trivial

theorem storeError_only (err : DnsError) (cached : Cached)
    (hReady : Ready cfg client target label ctx req) :
    Only (ForGroup target label) (fun _ => True) (storeError ctx req err cached) := by
  unfold storeError
  dsimp only
  split
  · exact Only.perform trivial fun _ => ⟨hReady.group, fun _ => ⟨trivial, fun _ => trivial⟩⟩
  · split
    · exact Only.perform trivial fun _ => trivial
    · trivial

theorem passBy_confined (hNext : Confined cfg client target label next) :
    Confined cfg client target label (passBy next) := by
  intro ctx req hReady
  refine Only.perform trivial ?_
  intro _
  refine Only.seq _ (hNext ctx req hReady) ?_
  intro outcome hOutcome
  cases hResult : outcome.1 with
  | error e => exact hOutcome
  | ok lookup => exact Only.perform trivial fun _ => hOutcome

/-- A refresh finds nothing in the store, and what it stores is labelled with its group. -/
theorem cacheLayer_confined (hNext : Confined cfg client target label next) :
    Confined cfg client target label (cacheLayer next) := by
  intro ctx req hReady
  have hAbsent : lookupCache ctx req = pure .absent := by
    unfold lookupCache
    rw [hReady.opts]
    rfl
  unfold cacheLayer
  split
  · exact passBy_confined hNext ctx req hReady
  · refine Only.perform trivial ?_
    intro _
    rw [hAbsent]
    show Only _ _ (next ctx req >>= _)
    refine Only.seq _ (hNext ctx req hReady) ?_
    intro outcome hOutcome
    cases hResult : outcome.1 with
    | error e => exact Only.seq _ (storeError_only e .absent hOutcome) fun _ _ => hOutcome
    | ok lookup =>
      refine Only.seq _ (storeLookup_only lookup hOutcome) ?_
      intro _ _
      exact Only.perform trivial fun _ => hOutcome

/-- The cache and what lies below it stay with the group. -/
theorem storeChain_confined :
    Confined cfg client target label (execute defaultHandler (storeLayers cfg client)) := by
  have hInner : Confined cfg client target label
      (execute defaultHandler (innerLayers cfg client)) :=
    dualStackLayer_confined lowerChain_confined
  unfold storeLayers
  split
  · exact cacheLayer_confined hInner
  · exact passBy_confined hInner

/-! ### The layers above the cache -/

/-- What the rest of the chain returns may be reworked. -/
theorem reworked_only {p : Async Outcome} (f : Outcome → Except DnsError DnsResponse)
    (hp : InGroup cfg client target label req p) :
    InGroup cfg client target label req (p >>= fun outcome => pure (f outcome, outcome.2)) :=
  Only.seq p hp fun _ hOutcome => hOutcome

theorem addressLayer_confined (hNext : Confined cfg client target label next) :
    Confined cfg client target label (addressLayer next) := by
  intro ctx req hReady
  unfold addressLayer
  split
  · exact hReady
  · exact reworked_only _ (hNext ctx req hReady)

theorem consults_confined {C : Prop} {p : Handler → Async Outcome} (h : Consults ctx req C p)
    (hNext : Confined cfg client target label next)
    (hReady : Ready cfg client target label ctx req) :
    InGroup cfg client target label req (p next) := by
  induction h with
  | answer => exact hReady
  | rest => exact hNext ctx req hReady
  | filtered => exact reworked_only _ (hNext ctx req hReady)
  | @ask _ o _ hSilent _ ih =>
    cases o with
    | serverLookup | insertNegative | insertRecords => exact absurd hSilent (by simp [silent])
    | _ => trivial

/-- The second question is for the same name, in the context the first one left. -/
theorem dns64Layer_confined (net : IpNetwork.Cidr 128)
    (hNext : Confined cfg client target label next) :
    Confined cfg client target label (dns64Layer net next) := by
  intro ctx req hReady
  unfold dns64Layer
  split
  · exact hNext ctx req hReady
  · refine Only.seq _ (hNext ctx req hReady) ?_
    intro outcome hOutcome
    cases hResult : outcome.1 with
    | ok lookup => exact hOutcome
    | error err =>
      refine Only.seq _ (hNext outcome.2 _ ⟨hOutcome.config, hOutcome.opts, hOutcome.group,
        hOutcome.sent⟩) ?_
      intro outcome' hOutcome'
      have hBack : Ready cfg client target label outcome'.2 req :=
        ⟨hOutcome'.config, hOutcome'.opts, hOutcome'.group, hReady.sent⟩
      cases hResult' : outcome'.1 with
      | error | ok => exact hBack

theorem forceNoCnameLayer_only
    (hNext : Only (ForGroup target label) (fun _ => True) (next ctx req)) :
    Only (ForGroup target label) (fun _ => True) (forceNoCnameLayer next ctx req) := by
  refine Only.seq _ hNext ?_
  intro outcome _
  cases hResult : outcome.1 with
  | error e => trivial
  | ok lookup =>
    dsimp only
    split <;> trivial

/-- An alias is resolved in a context of its own, and nothing else is looked up. -/
theorem cnameLayer_only (hNext : Confined cfg client target label next)
    (hReady : cnameOf ctx = none → Ready cfg client target label ctx req)
    (hAlias : ∀ cname, cnameOf ctx = some cname →
      Ready cfg client target label (DnsContext.new (cname.setFqdn true) ctx.cfg ctx.serverOpts)
        (req.withCname (cname.setFqdn true))) :
    Only (ForGroup target label) (fun _ => True) (cnameLayer next ctx req) := by
  unfold cnameLayer
  split
  · rename_i hNone
    exact Only.mono (fun _ _ => trivial) _ (hNext ctx req (hReady hNone))
  · rename_i cname hSome
    split
    · trivial
    · refine Only.seq _ (hNext _ _ (hAlias cname hSome)) ?_
      intro outcome _
      cases hResult : outcome.1 with
      | error | ok => trivial

/-! ### The whole chain -/

/-- The layers between the aliases and the cache. -/
def middleLayers (cfg : RuntimeConfig) : List Layer :=
  (cfg.dns64Prefix.map dns64Layer).toList ++ [addressLayer] ++
  (if cfg.hasLeaseFile then [dnsmasqLayer] else []) ++ [zoneLayer] ++
  (if cfg.resolvHostname then [hostsLayer] else [])

/-- Every layer over the cache stays with the group. -/
theorem middleLayers_confined {l : Layer} (hLayer : l ∈ middleLayers cfg)
    (hNext : Confined cfg client target label next) :
    Confined cfg client target label (l next) := by
  have hSplit : middleLayers cfg =
      (cfg.dns64Prefix.map dns64Layer).toList ++ ([addressLayer] ++ fileLayers cfg) := by
    simp [middleLayers, fileLayers]
  rw [hSplit, List.mem_append, List.mem_append] at hLayer
  rcases hLayer with h | h | h
  · obtain ⟨net, -, hEq⟩ := Option.map_eq_some_iff.mp (Option.mem_toList.mp h)
    rw [← hEq]
    exact dns64Layer_confined net hNext
  · rw [List.mem_singleton.mp h]
    exact addressLayer_confined hNext
  · exact fun ctx req => consults_confined (fileLayers_consults h ctx req) hNext

theorem buildMiddleware_eq :
    buildMiddleware cfg client =
      execute (execute (execute defaultHandler (middleLayers cfg ++ storeLayers cfg client))
        (if cfg.hasCnames then [cnameLayer] else []))
        (if cfg.forceNoCname then [forceNoCnameLayer] else []) := by
  unfold buildMiddleware outerLayers middleLayers execute
  simp

/-- What the chain looks up and stores: everything under the alias, if there is one, and
everything under the name itself otherwise. -/
theorem buildMiddleware_only
    (hReady : (cfg.hasCnames = true → cnameOf ctx = none) → Ready cfg client target label ctx req)
    (hAlias : cfg.hasCnames = true → ∀ cname, cnameOf ctx = some cname →
      Ready cfg client target label (DnsContext.new (cname.setFqdn true) ctx.cfg ctx.serverOpts)
        (req.withCname (cname.setFqdn true))) :
    Only (ForGroup target label) (fun _ => True) (buildMiddleware cfg client ctx req) := by
  have hMiddle : Confined cfg client target label
      (execute defaultHandler (middleLayers cfg ++ storeLayers cfg client)) :=
    execute_append storeChain_confined (middleLayers cfg)
      fun l hl next hNext => middleLayers_confined hl hNext
  have hCname : Only (ForGroup target label) (fun _ => True)
      (execute (execute defaultHandler (middleLayers cfg ++ storeLayers cfg client))
        (if cfg.hasCnames then [cnameLayer] else []) ctx req) := by
    split
    · rename_i hCnames
      exact cnameLayer_only hMiddle (fun hNone => hReady fun _ => hNone) (hAlias hCnames)
    · rename_i hCnames
      exact Only.mono (fun _ _ => trivial) _ (hMiddle ctx req (hReady fun h => absurd h hCnames))
  rw [buildMiddleware_eq]
  cases cfg.forceNoCname with
  | true => exact forceNoCnameLayer_only hCname
  | false => exact hCname

end Chain

/-! ## Refreshes -/

/-- The context in which the worker's request for a name is resolved. -/
def workerContext (cfg : RuntimeConfig) (name : Name) : DnsContext :=
  DnsContext.new name cfg (workerOpts cfg)

/-- The alias that a question is resolved under, if a rule that holds for the loopback address
gives it one. -/
def refreshedAlias (cfg : RuntimeConfig) (query : Query) : Option Name :=
  if cfg.hasCnames then
    (cnameOf (workerContext cfg query.name.toLowercase)).map (·.setFqdn true)
  else none

/-- The label under which the refresh of a question is resolved: that of its alias or its own. -/
def refreshedLabel (cfg : RuntimeConfig) (query : Query) : String :=
  (workerContext cfg ((refreshedAlias cfg query).getD query.name.toLowercase)).serverGroupName

/-- The servers that it is sent to; names of multicast DNS have their own. -/
def refreshedTarget (cfg : RuntimeConfig) (client : DnsClient) (query : Query) :
    Option ServerGroup :=
  (nameServerFor client cfg (refreshedLabel cfg query)
    ((refreshedAlias cfg query).getD query.name).toLowercase).map (·.group)

/-- Whatever the label of the entry is, a refresh looks up and stores as the rules for the
loopback address have it. -/
theorem refresh_only (cfg : RuntimeConfig) (client : DnsClient) (id : Nat) (query : Query)
    (ruleGroup : Option String) :
    Only (ForGroup (refreshedTarget cfg client query) (refreshedLabel cfg query)) (fun _ => True)
      (refresh cfg client id query ruleGroup) := by
  have hChain : Only (ForGroup (refreshedTarget cfg client query) (refreshedLabel cfg query))
      (fun _ => True) (buildMiddleware cfg client (workerContext cfg query.name.toLowercase)
        (refreshRequest id query)) := by
    refine buildMiddleware_only ?_ ?_
    · intro hNone
      have hAlias : refreshedAlias cfg query = none := by
        unfold refreshedAlias
        split
        · rename_i hCnames
          rw [hNone hCnames]
          rfl
        · rfl
      refine ⟨rfl, rfl, ?_, ?_⟩
      · rw [refreshedLabel, hAlias]
        rfl
      · rw [refreshedTarget, hAlias]
        rfl
    · intro hCnames cname hSome
      have hAlias : refreshedAlias cfg query = some (cname.setFqdn true) := by
        rw [refreshedAlias, if_pos hCnames, hSome]
        rfl
      refine ⟨rfl, rfl, ?_, ?_⟩
      · rw [refreshedLabel, hAlias]
        rfl
      · rw [refreshedTarget, hAlias]
        rfl
  have hSearch : search cfg (buildMiddleware cfg client) (refreshOpts ruleGroup)
      (refreshRequest id query) =
      (buildMiddleware cfg client (workerContext cfg query.name.toLowercase)
        (refreshRequest id query) >>= fun outcome => pure outcome.1) := by
    exact if_neg (by simp [refreshOpts])
  refine Only.perform trivial ?_
  intro dispatch
  cases dispatch with
  | refused | dropped => trivial
  | processed =>
    have hSearched : Only (ForGroup (refreshedTarget cfg client query) (refreshedLabel cfg query))
        (fun _ => True) (search cfg (buildMiddleware cfg client) (refreshOpts ruleGroup)
          (refreshRequest id query)) := by
      rw [hSearch]
      exact Only.seq _ hChain fun _ _ => trivial
    have hProcess : Only (ForGroup (refreshedTarget cfg client query) (refreshedLabel cfg query))
        (fun _ => True) (process cfg (buildMiddleware cfg client) (.ok (refreshRequest id query))
          (refreshOpts ruleGroup)) :=
      Only.seq _ hSearched fun _ _ => trivial
    exact Only.seq _ hProcess fun _ _ => trivial

/-- An upstream server is asked. -/
def isLookup : Op → Bool
  | .serverLookup _ _ _ _ => true
  | _ => false

/-- An answer is stored, positive or negative. -/
def isStore : Op → Bool
  | .insertNegative _ _ _ _ _ | .insertRecords _ _ _ _ => true
  | _ => false

/-- In every run, the refresh of an entry labelled `g` goes to the servers of `g` and stores under
`g`, exactly if the rules for the loopback address send what it looks up to these servers and
label what it stores `g`. -/
theorem refresh_keeps_group (cfg : RuntimeConfig) (client : DnsClient) (id : Nat) (query : Query)
    (g : String) (t : List (Sigma Op.Resp)) (reply : Message)
    (hRun : Prog.Yields (refresh cfg client id query (some g)) t reply) :
    (∀ x ∈ t, ForGroup ((client.getServerGroup g).map (·.group)) g x.1) ↔
      ((∃ x ∈ t, isLookup x.1 = true) →
        refreshedTarget cfg client query = (client.getServerGroup g).map (·.group)) ∧
      ((∃ x ∈ t, isStore x.1 = true) → refreshedLabel cfg query = g) := by
  have hOps := Only.trace hRun (refresh_only cfg client id query (some g))
  constructor
  · intro hAll
    constructor
    · rintro ⟨⟨o, r⟩, hx, hOp⟩
      have hHere := hOps _ hx
      have hClaimed := hAll _ hx
      cases o with
      | serverLookup => exact Eq.trans hHere (Eq.symm hClaimed)
      | _ => cases hOp
    · rintro ⟨⟨o, r⟩, hx, hOp⟩
      have hHere := hOps _ hx
      have hClaimed := hAll _ hx
      cases o with
      | insertNegative | insertRecords => exact Eq.trans (Eq.symm hHere) hClaimed
      | _ => cases hOp
  · rintro ⟨hAsks, hStores⟩ ⟨o, r⟩ hx
    have hHere := hOps _ hx
    cases o with
    | serverLookup => exact (hAsks ⟨_, hx, rfl⟩).symm.trans hHere
    | insertNegative | insertRecords => exact Eq.trans hHere (hStores ⟨_, hx, rfl⟩)
    | _ => trivial

/-- A refresh under rules that hold for everybody, its server answering with an address. -/
def officeRefresh : List (Sigma Op.Resp) :=
  (refresh officeConfig officeClient 8 exampleQuery (some "office")).traceOf
    (quietAnswers fun name options =>
      .ok (DnsResponse.newWithMaxTtl (Query.query name options.recordType)
        [Record.fromRdata name 300 exampleAddress]))

/-- The rules for `example.com` hold for everybody, so also for the worker: what it asks and what
it stores is in the group of the entry. -/
theorem refresh_keeps_group_officeRefresh :
    officeRefresh.any (fun x => isLookup x.1) = true ∧
      officeRefresh.any (fun x => isStore x.1) = true ∧
      ∀ x ∈ officeRefresh,
        ForGroup ((officeClient.getServerGroup "office").map (·.group)) "office" x.1 :=
  ⟨by decide +kernel, by decide +kernel, (refresh_keeps_group officeConfig officeClient 8
    exampleQuery "office" officeRefresh _ (Prog.yields_traceOf _ _)).mpr
    ⟨fun _ => by decide +kernel, fun _ => by decide +kernel⟩⟩

/-! ## Rules for one network -/

/-- The rule for `example.com` holds for the clients of `192.168.1.0/24` only. -/
def branchConfig : RuntimeConfig :=
  { RuntimeConfig.default with
    clientRules := [⟨.IpAddr lanNet, "branch"⟩]
    findDomainRule := fun name ruleGroup =>
      if ruleGroup = "branch" then officeConfig.findDomainRule name ruleGroup else none }

/-- A client of the network asks for `example.com`. -/
def clientEvents : List ServerEvent :=
  [.spawn ⟨.ok (askFor exampleName .A exampleSource), ServerOpts.default⟩] ++
    steps 0 (missAnswers ++ lookupAnswers (exampleAnswer exampleAddress) ++ storeAnswers)

/-- Then the worker refreshes the entry. -/
def workerEvents : List ServerEvent :=
  [.spawn ⟨.ok (refreshRequest 8 exampleQuery), refreshOpts (some "office")⟩] ++
    steps 1 ([.dispatch .processed, .unit] ++ lookupAnswers (exampleAnswer exampleAddress) ++
      storeAnswers)

/-- The label stored with a question. -/
def labelOf (p : ServerPool) (query : Query) : Option String :=
  (p.world.cache.peekEntry exampleEnv query).bind fun b => b.2.data.nameServerGroup

/-- The groups that were asked for what is stored with a question. -/
def askedFor (p : ServerPool) (query : Query) : Option (List ServerGroup) :=
  (p.world.origin query.key).map (·.asked)

/-- The entry of a client's answer is labelled with the group of that client. The refresh of the
entry asks the default group and replaces the label. -/
theorem refresh_leaves_group :
    ∃ p p', runTrace (server branchConfig officeClient exampleEnv).step ⟨exampleWorld, []⟩
        clientEvents = some p ∧
      runTrace (server branchConfig officeClient exampleEnv).step p workerEvents = some p' ∧
      labelOf p exampleQuery = some "office" ∧
      askedFor p exampleQuery = some [.named "office"] ∧
      labelOf p' exampleQuery = some "default" ∧
      askedFor p' exampleQuery = some [.default] := by
  have hRuns : ((runTrace (server branchConfig officeClient exampleEnv).step ⟨exampleWorld, []⟩
      clientEvents).any fun p =>
      (runTrace (server branchConfig officeClient exampleEnv).step p workerEvents).any fun p' =>
        decide (labelOf p exampleQuery = some "office" ∧
          askedFor p exampleQuery = some [.named "office"] ∧
          labelOf p' exampleQuery = some "default" ∧
          askedFor p' exampleQuery = some [.default])) = true := by
    decide +kernel
  obtain ⟨p, hClient, hRest⟩ := (Option.any_eq_true _ _).mp hRuns
  obtain ⟨p', hWorker, hLabels⟩ := (Option.any_eq_true _ _).mp hRest
  exact ⟨p, p', hClient, hWorker, of_decide_eq_true hLabels⟩

end SmartDns.Ports.PrefetchGroup
