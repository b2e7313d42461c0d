import SmartDns.Ports.LookupChoice

/-!
# What the layers below the cache return

The layers below the cache, as programs that rely on the answers they get and
not on any history. What holds of the answer that a lookup chooses holds of what
`NameServerMiddleware` returns; the bogus-address check and dual-stack selection pass
it on or turn it into a failure, however the two families race.
-/

namespace SmartDns.Ports.BelowCache

open Verified DomainName DnsMessage DnsLookup RequestContext RuleTree Middleware Upstream
open InnerChain ServerRuns LookupRules LookupChoice

variable {A : Op → Prop} {B : (o : Op) → Op.Resp o → Prop} {ctx : DnsContext} {req : DnsRequest}
  {next : Handler}

/-! ## Lookups -/

/-- The operations below the cache. -/
def Below : Op → Prop
  | .forward _ _ => True
  | .localLookup _ => True
  | .serverLookup _ _ _ _ => True
  | .ping _ _ => True
  | .next _ => True
  | .select => True
  | .timeout => True
  | .logDualStack _ _ => True
  | _ => False

theorem below_of_asks {name : Name} {options : LookupOptions} {o : Op} (h : Asks name options o) :
    Below o := by
  cases o <;> trivial

/-- What an operation below the cache returns in a run is possible. -/
theorem possible_of_exec {env : CacheStore.CacheEnv} {w w' : World} {g g' : Ghost} {o : Op}
    {a : Answer} {r : Op.Resp o} (hBelow : Below o)
    (hExec : exec env w g o a = some (r, w', g')) : Possible ⟨o, r⟩ := by
  cases o with
  | forward | localLookup | serverLookup | ping | next | select | timeout | logDualStack =>
    obtain ⟨r', hRun, hEq⟩ := Option.map_eq_some_iff.mp hExec
    cases hEq
    exact ⟨a, hRun⟩
  | _ => exact hBelow.elim

variable {client : DnsClient} {H : Lookup → Prop}

/-- What a lookup relies on: possible answers, those of servers being in `H` once they are
given to it. -/
theorem askGroup_ensures {server : NameServerGroup} {name : Name} {options : LookupIpOptions}
    {isIp : Bool} (hPossible : ∀ o r, Below o → B o r → Possible ⟨o, r⟩)
    (hHeard : ∀ group ns res, B (.serverLookup group ns name options.lookupOptions) res →
      H (given options isIp ns res))
    (hServers : server.servers ≠ []) :
    Ensures (InGroup server.group) B (fun res => ∃ hs, Chosen options isIp res hs ∧ ∀ x ∈ hs, H x)
      (askGroup client server name options isIp) := by
  refine Ensures.weaken (fun _ h => h.2) _
    (Ensures.within _ (Ensures.of_sat (fun _ _ h => h) ?_ _ (lookup_chooses hServers) (by simp))
      (askGroup_only client server name options isIp))
  intro o hs r hAsks hr hAll
  refine ⟨_, ⟨hPossible o r (below_of_asks hAsks) hr, rfl⟩, ?_⟩
  cases o with
  | serverLookup group ns name' options' =>
    obtain ⟨rfl, rfl⟩ := hAsks
    exact forall_mem_concat hAll (hHeard group ns r hr)
  | ping addrs mode =>
    rw [show hs ++ heardBy (given options isIp) ⟨.ping addrs mode, r⟩ = hs from List.append_nil hs]
    exact hAll
  | next n =>
    rw [show hs ++ heardBy (given options isIp) ⟨.next n, r⟩ = hs from List.append_nil hs]
    exact hAll
  | _ => exact hAsks.elim

theorem below_of_inGroup {group : ServerGroup} {o : Op} (h : InGroup group o) : Below o := by
  cases o <;> trivial

/-! ## The end of the chain -/

/-- A handler's result is in `F`, and its context differs in the cache flag at most. -/
def Leaves (ctx : DnsContext) (F : DnsResponse → Prop) (outcome : Outcome) : Prop :=
  outcome.2 = { ctx with noCache := outcome.2.noCache } ∧ ∀ r, outcome.1 = .ok r → F r

variable {F : DnsResponse → Prop}

theorem Leaves.error {outcome : Outcome} (h : Leaves ctx F outcome) (e : DnsError) :
    Leaves ctx F (.error e, outcome.2) :=
  ⟨h.1, fun r hr => absurd hr (by simp)⟩

theorem leaves_error (e : DnsError) : Leaves ctx F (.error e, ctx) :=
  ⟨rfl, fun r hr => absurd hr (by simp)⟩

/-- What a request relies on: the addresses of upstream servers, and whatever its lookup
chooses, are in `F`. -/
structure Supplies (B : (o : Op) → Op.Resp o → Prop) (ctx : DnsContext) (req : DnsRequest)
    (H : Lookup → Prop) (F : DnsResponse → Prop) : Prop where
  possible : ∀ o r, B o r → Possible ⟨o, r⟩
  bootstrap : ∀ records, B (.localLookup (bootstrapQuery req)) (some records) →
    F (DnsResponse.newWithMaxTtl (bootstrapQuery req) records)
  heard : ∀ group ns res,
    B (.serverLookup group ns req.lowerName (lookupOptionsOf ctx req)) res →
    H (given (lookupIpOptions ctx req (lookupOptionsOf ctx req)) (isFiltered ctx req) ns res)
  chosen : ∀ r hs, Chosen (lookupIpOptions ctx req (lookupOptionsOf ctx req))
    (isFiltered ctx req) (.ok r) hs → (∀ x ∈ hs, H x) → F r
  label : ∀ r group, F r → F (r.withNameServerGroup group)

theorem Supplies.anything (hPossible : ∀ o r, B o r → Possible ⟨o, r⟩) :
    Supplies B ctx req (fun _ => True) (fun _ => True) :=
  ⟨hPossible, fun _ _ => trivial, fun _ _ _ _ => trivial, fun _ _ _ _ => trivial,
    fun _ _ _ => trivial⟩

/-- A group without servers cannot be asked. -/
theorem askGroup_empty {server : NameServerGroup} (name : Name) (options : LookupIpOptions)
    (isIp : Bool) (hServers : server.servers = []) :
    askGroup client server name options isIp = .done noConnections := by
  cases isIp with
  | true => simp [askGroup, lookupIp, hServers]
  | false => simp [askGroup, groupLookup, hServers, groupLoop]

/-- The bootstrap lookup asks the local store alone and supplies what it finds. -/
theorem lookupNameserver_ensures (hLocal : A (.localLookup (bootstrapQuery req)))
    (hFound : ∀ records, B (.localLookup (bootstrapQuery req)) (some records) →
      F (DnsResponse.newWithMaxTtl (bootstrapQuery req) records)) :
    Ensures A B (fun found => ∀ r, found = some r → F r) (lookupNameserver req) := by
  unfold lookupNameserver
  split
  · refine Ensures.perform hLocal ?_
    intro found hB r hr
    obtain ⟨records, hRecords, hEq⟩ := Option.map_eq_some_iff.mp hr
    rw [hRecords] at hB
    rw [← hEq]
    exact hFound records hB
  · exact fun r hr => absurd hr (by simp)

/-- The end of the chain, from what asking a group ensures. -/
theorem nameServerLayer_asks {Q : Lookup → Prop} {Q' : Outcome → Prop}
    (hForward : A (.forward ctx req))
    (hLocal : B (.forward ctx req) () → Ensures A B (fun found => ∀ r, found = some r →
      Q' (.ok r, { ctx with noCache := true }))
      (lookupNameserver req))
    (hAsked : B (.forward ctx req) () → ∀ server, targetGroup client ctx req = some server.group →
      Ensures A B Q (askGroup client server req.lowerName
        (lookupIpOptions ctx req (lookupOptionsOf ctx req)) (isFiltered ctx req)))
    (hNone : Q noConnections) (hDone : ∀ res, Q res → Q' (res, ctx))
    (hLabel : ∀ res group, Q res → Q (res.map fun r => r.withNameServerGroup group)) :
    Ensures A B Q' (nameServerLayer client next ctx req) := by
  refine Ensures.perform hForward ?_
  intro _ hB
  refine Ensures.seq _ (hLocal hB) ?_
  intro found hFound
  replace hAsked := hAsked hB
  unfold targetGroup at hAsked
  cases found with
  | some lookup => exact hFound lookup rfl
  | none =>
    by_cases hRule : ctx.serverOpts.noRuleNameserver.getD false = true
    · rw [if_pos hRule] at hAsked ⊢
      rw [show isFiltered ctx req = false by simp [isFiltered, hRule]] at hAsked
      exact Ensures.seq _ (hAsked client.defaultServerGroup rfl) hDone
    · rw [if_neg hRule] at hAsked ⊢
      cases hServer : nameServerFor client ctx.cfg ctx.serverGroupName req.lowerName with
      | none => exact hDone _ hNone
      | some server =>
        rw [hServer] at hAsked
        have hLabelled : Ensures A B Q'
            (askGroup client server req.lowerName
              (lookupIpOptions ctx req (lookupOptionsOf ctx req)) (isFiltered ctx req) >>=
              fun res => pure (res.map fun r => r.withNameServerGroup ctx.serverGroupName, ctx)) :=
          Ensures.seq _ (hAsked server rfl) fun res hRes => hDone _ (hLabel res _ hRes)
        dsimp only
        by_cases hIp : req.query.queryType.isIpAddr = true
        · rw [if_pos hIp]
          rw [show isFiltered ctx req = true by simp [isFiltered, hRule, hIp]] at hLabelled
          exact hLabelled
        · rw [if_neg hIp]
          rw [show isFiltered ctx req = false by simp [isFiltered, hIp]] at hLabelled
          exact hLabelled

section NameServer

variable {client : DnsClient} {H : Lookup → Prop} {F : DnsResponse → Prop}
  (hSupplies : Supplies B ctx req H F)

include hSupplies

/-- What the group gives is among the replies supplied. -/
theorem asked_ensures (server : NameServerGroup) :
    Ensures Below B (fun res => ∀ r, res = .ok r → F r)
      (askGroup client server req.lowerName (lookupIpOptions ctx req (lookupOptionsOf ctx req))
        (isFiltered ctx req)) := by
  by_cases hServers : server.servers = []
  · rw [askGroup_empty _ _ _ hServers]
    exact fun r hr => absurd hr (by simp [noConnections])
  · refine Ensures.weaken (fun _ => below_of_inGroup) _ (Ensures.mono ?_ _
      (askGroup_ensures (fun o r _ => hSupplies.possible o r) hSupplies.heard hServers))
    rintro res ⟨hs, hChosen, hAll⟩ r hr
    rw [hr] at hChosen
    exact hSupplies.chosen r hs hChosen hAll

/-- The bottom layer stays below the cache and leaves a supplied reply. -/
theorem nameServerLayer_ensures :
    Ensures Below B (Leaves ctx F) (nameServerLayer client next ctx req) := by
  refine nameServerLayer_asks trivial ?_ (fun _ server _ => asked_ensures hSupplies server) ?_
    (fun res hRes => ⟨rfl, hRes⟩) ?_
  · intro _
    refine Ensures.mono ?_ _ (lookupNameserver_ensures trivial hSupplies.bootstrap)
    intro found hFound r hr
    refine ⟨rfl, ?_⟩
    rintro r' ⟨⟩
    exact hFound r hr
  · exact fun r hr => absurd hr (by simp [noConnections])
  · intro res group hRes r hr
    cases res with
    | error e => exact absurd hr (by simp [Except.map])
    | ok r' =>
      rw [← Except.ok.inj hr]
      exact hSupplies.label r' _ (hRes r' rfl)

end NameServer

variable {Q : Outcome → Prop}

/-! ## Bogus addresses -/

theorem bogusLayer_ensures (hError : ∀ outcome e, Q outcome → Q (.error e, outcome.2))
    (hNext : Ensures A B Q (next ctx req)) : Ensures A B Q (bogusLayer next ctx req) := by
  refine Ensures.seq _ hNext ?_
  rintro ⟨res, ctx'⟩ hOutcome
  cases res with
  | error e => exact hOutcome
  | ok lookup =>
    dsimp only
    split
    · exact hError _ _ hOutcome
    · exact hOutcome

/-- The handlers below dual-stack selection. -/
def lowerChain (cfg : RuntimeConfig) (client : DnsClient) : Handler :=
  execute defaultHandler
    ((if cfg.bogusNxdomain.isEmpty then [] else [bogusLayer]) ++ [nameServerLayer client])

variable {cfg : RuntimeConfig}

/-- A property that errors keep passes from the bottom layer to the chain. -/
theorem lowerChain_asks (hError : ∀ outcome e, Q outcome → Q (.error e, outcome.2))
    (hBottom : Ensures A B Q (nameServerLayer client defaultHandler ctx req)) :
    Ensures A B Q (lowerChain cfg client ctx req) := by
  unfold lowerChain
  split
  · exact hBottom
  · exact bogusLayer_ensures hError hBottom

theorem lowerChain_ensures (hSupplies : Supplies B ctx req H F) :
    Ensures Below B (Leaves ctx F) (lowerChain cfg client ctx req) :=
  lowerChain_asks (fun _ e hLeaves => hLeaves.error e) (nameServerLayer_ensures hSupplies)

/-! ## Dual-stack selection -/

/-- The operations of the race between the families. -/
structure Racing (A : Op → Prop) : Prop where
  select : A .select
  timeout : A .timeout
  ping : ∀ addrs mode, A (.ping addrs mode)
  log : ∀ name chosen, A (.logDualStack name chosen)

theorem Racing.below : Racing Below := ⟨trivial, trivial, fun _ _ => trivial, fun _ _ => trivial⟩

section DualStack

variable (hA : Racing A)

include hA

/-- A result in time is a result of the program under the timeout. -/
theorem withTimeout_ensures {α : Type} {p : Async α} {Q : α → Prop} (hp : Ensures A B Q p) :
    Ensures A B (fun out => ∀ a, out = some a → Q a) (withTimeout p) := by
  have hTimer : Ensures A B (fun _ => True) (Prog.perform Op.timeout : Async Unit) :=
    ⟨hA.timeout, fun _ _ => trivial⟩
  refine Ensures.seq _ (Ensures.select hA.select p hp _ hTimer) ?_
  intro winner hWinner
  cases winner with
  | left a that =>
    intro b hEq
    cases hEq
    exact hWinner.1
  | right b this =>
    intro a hEq
    cases hEq

theorem pingFastest_ensures (addrs : List IpAddr) (modes : List SpeedCheckMode) :
    Ensures A B (fun _ => True) (pingFastest addrs modes) := by
  induction modes with
  | nil => trivial
  | cons mode modes ih =>
    refine Ensures.perform (hA.ping addrs mode) ?_
    intro out _
    cases out with
    | some out => trivial
    | none =>
      refine Ensures.perform hA.select ?_
      intro expired _
      split
      · trivial
      · exact ih

theorem whichFaster_ensures (this that : DnsResponse) (modes : List SpeedCheckMode)
    (threshold : Nat) :
    Ensures A B (fun _ => True) (whichFaster this that modes threshold) := by
  refine Ensures.perform hA.select ?_
  intro thatFirst _
  split
  · refine Ensures.seq _ (pingFastest_ensures hA _ modes) ?_
    intro thatDura _
    exact Ensures.seq _ (pingFastest_ensures hA _ modes) fun _ _ => trivial
  · exact Ensures.seq _ (pingFastest_ensures hA _ modes) fun _ _ => trivial

/-- Comparing the families keeps what holds of the outcome and of its errors. -/
theorem compareFamilies_ensures (hError : ∀ outcome e, Q outcome → Q (.error e, outcome.2))
    {this that : DnsResponse} {outcome : Outcome} (hOutcome : Q outcome) :
    Ensures A B Q (compareFamilies ctx req this that outcome) := by
  refine Ensures.seq _ (whichFaster_ensures hA _ _ _ _) ?_
  intro thatFaster _
  dsimp only
  split
  · exact ⟨hA.log _ _, fun _ _ => hError outcome _ hOutcome⟩
  · exact hOutcome

/-- Whichever family is faster, the result is that of the query's own lookup, or a failure. -/
theorem dualStackLayer_ensures (hError : ∀ outcome e, Q outcome → Q (.error e, outcome.2))
    (hFail : ∀ e, Q (.error e, ctx)) (hThis : Ensures A B Q (next ctx req))
    (hThat : Ensures A B (fun _ => True)
      (next ctx (req.setQueryType (thatType req.query.queryType)))) :
    Ensures A B Q (dualStackLayer next ctx req) := by
  unfold dualStackLayer
  split
  · exact hThis
  · refine Ensures.seq _ (Ensures.select hA.select _ hThis _ hThat) ?_
    intro winner hWinner
    cases winner with
    | left outcome that =>
      obtain ⟨hOutcome, hRest⟩ := hWinner
      dsimp only
      cases hResult : outcome.1 with
      | error e => exact hOutcome
      | ok this =>
        refine Ensures.seq _ (withTimeout_ensures hA hRest) ?_
        intro late _
        match late with
        | some (.ok thatLookup, _) => exact compareFamilies_ensures hA hError hOutcome
        | some (.error _, _) => exact hOutcome
        | none => exact hOutcome
    | right thatOutcome this =>
      obtain ⟨-, hRest⟩ := hWinner
      dsimp only
      cases hResult : thatOutcome.1 with
      | error e => exact hRest
      | ok thatLookup =>
        refine Ensures.seq _ (withTimeout_ensures hA hRest) ?_
        intro late hLate
        match late with
        | some (.ok thisLookup, ctx') =>
          exact compareFamilies_ensures hA hError (hLate _ rfl)
        | some (.error e, ctx') => exact hLate _ rfl
        | none => exact ⟨hA.log _ _, fun _ _ => hFail _⟩

end DualStack

/-- Everything below the cache. -/
theorem innerChain_ensures (hSupplies : Supplies B ctx req H F) :
    Ensures Below B (Leaves ctx F) (execute defaultHandler (innerLayers cfg client) ctx req) := by
  have hThat : Ensures Below B (fun _ => True)
      (lowerChain cfg client ctx (req.setQueryType (thatType req.query.queryType))) :=
    Ensures.mono (fun _ _ => trivial) _
      (lowerChain_ensures (Supplies.anything hSupplies.possible))
  exact dualStackLayer_ensures Racing.below (fun _ e hLeaves => hLeaves.error e) leaves_error
    (lowerChain_ensures hSupplies) hThat

end SmartDns.Ports.BelowCache
