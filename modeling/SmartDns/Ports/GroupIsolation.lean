import SmartDns.Ports.OuterRules

/-!
# Server groups and the cache

An entry of the cache carries the name of a server group, and a hit counts only
if it is the name resolved for the request. The name is resolved from the
listener and the domain rules alone. Two things that decide where a request is
sent are not part of it: a listener with `no-rule-nameserver` asks the default
group whatever the name says, and a name below the multicast zones goes to the
`mdns` group, also when its records arrive in the answer for another name.

Outside these two cases a hit only ever replays what the request's own group
has answered.
-/

namespace SmartDns.Ports.GroupIsolation

open Verified DomainName DnsMessage DnsLookup RequestContext RuleTree Middleware CacheStore Upstream
open ServerRuns LookupRules ChainRules OuterRules

/-- The group that a name is sent to under a group label. -/
def ruleTarget (client : DnsClient) (cfg : RuntimeConfig) (label : String) (name : Name) :
    Option ServerGroup :=
  (nameServerFor client cfg label name).map (·.group)

/-- Labels tell where requests are sent: a listener that ignores the rules asks the group the
rules name, and the records of an answer belong to names that go where the question went. -/
def LabelsTell (client : DnsClient) (cfg : RuntimeConfig) : Ghost → (o : Op) → Op.Resp o → Prop
  | _, .consult ctx req, _ =>
    ctx.serverOpts.noRuleNameserver.getD false = true →
      ruleTarget client cfg ctx.serverGroupName req.lowerName = some .default
  | g, .serverLookup _ _ name _, res =>
    ∀ o r, g.current = some o → o.stores = true → res = Except.ok r → ∀ x ∈ r.records,
      ruleTarget client cfg o.ctx.serverGroupName x.name.toLowercase =
        ruleTarget client cfg o.ctx.serverGroupName name
  | _, _, _ => True

/-- A stored answer comes from the group that its question goes to under its label. -/
def FromTarget (client : DnsClient) (cfg : RuntimeConfig) (k : Query) (d : DnsResponse)
    (o : Origin) : Prop :=
  ∀ label, d.nameServerGroup = some label →
    ∀ s ∈ o.asked, ruleTarget client cfg label k.name = some s

/-- A request is served what the group it would be sent to has answered. -/
def ServedFromTarget (client : DnsClient) (ctx : DnsContext) (req : DnsRequest) (_ : DnsResponse)
    (cached : Bool) (g : Ghost) : Prop :=
  cached = true → ∃ o, g.hit = some o ∧ ∀ s ∈ o.asked, targetGroup client ctx req = some s

/-- The records that may be stored for a request belong to names that go where it goes. -/
def OwnersAgree (client : DnsClient) (cfg : RuntimeConfig) (req : DnsRequest) (b : Bool)
    (r : DnsResponse) (g : Ghost) : Prop :=
  b = false → ∀ o, g.current = some o → o.stores = true → ∀ x ∈ r.records,
    ruleTarget client cfg o.ctx.serverGroupName x.name.toLowercase =
      ruleTarget client cfg o.ctx.serverGroupName req.lowerName

section Policy

variable {client : DnsClient} {cfg : RuntimeConfig} {ctx : DnsContext} {req : DnsRequest}

/-- Where labels tell the group, the target is that of the rules. -/
theorem targetGroup_eq {g : Ghost} (hCfg : ctx.cfg = cfg)
    (hConsult : LabelsTell client cfg g (.consult ctx req) ()) :
    targetGroup client ctx req = ruleTarget client cfg ctx.serverGroupName req.lowerName := by
  unfold targetGroup
  split
  · rename_i hRule
    exact (hConsult hRule).symm
  · rw [hCfg]
    rfl

/-- Every group asked on behalf of a request is the one that its label names. -/
theorem asked_target {g : Ghost} {o : Origin} (hCfg : ctx.cfg = cfg)
    (hConsult : LabelsTell client cfg g (.consult ctx req) ())
    (hExt : Extends (askedBy client ctx req) (Origin.fresh ctx req true) o) :
    ∀ s ∈ o.asked, ruleTarget client cfg ctx.serverGroupName req.lowerName = some s := by
  intro s hs
  rcases hExt.asked s hs with hNone | hAsked
  · cases hNone
  · exact (targetGroup_eq hCfg hConsult).symm.trans hAsked

theorem ownersAgree_graded (T : ServerGroup → Prop) : Graded T (OwnersAgree client cfg req) where
  stored :=
    { mono := by
        intro r g g' hLater hAgree hStored o' hCurrent hStores x hx
        obtain ⟨o, hEarlier, hExt⟩ := hearing_earlier hLater hCurrent
        rw [hExt.ctx]
        exact hAgree hStored o hEarlier (hExt.stores.symm.trans hStores) x hx
      pick := by
        intro ip r r' g hSelect hAgree hStored o hCurrent hStores x hx
        exact hAgree hStored o hCurrent hStores x ((selectRecord_records hSelect).2 x hx)
      label := fun _ _ _ hAgree => hAgree }
  mono := by
    intro r g g' _ _ hStored
    cases hStored
  weaken := by
    intro r g _ hStored
    cases hStored

theorem kept_name {options : LookupIpOptions} {ns : NameServer} {records : List Record}
    {x : Record} (h : Kept options ns records x) : ∃ y ∈ records, x.name = y.name := by
  rcases h with ⟨hMem, -⟩ | ⟨record, hMem, _, _, _, _, _, hEq⟩
  · exact ⟨x, hMem, rfl⟩
  · exact ⟨record, hMem, by rw [hEq]⟩

/-- What a server answers agrees with the owners' groups. -/
theorem ownersAgree_sourced :
    Sourced (LabelsTell client cfg) ctx req (OwnersAgree client cfg req) where
  bootstrap := by
    intro _ _ _ _ _ hStored
    cases hStored
  plain := by
    intro _ g group ns r _ _ hE _ o' hCurrent hStores x hx
    obtain ⟨o, hEarlier, hEq⟩ := track_current hCurrent
    subst hEq
    exact hE o r hEarlier hStores rfl x hx
  filtered := by
    intro _ g group ns res _ _ hE r hr _ o' hCurrent hStores x hx
    obtain ⟨heard, hHeard, -, hKept⟩ := perServer_ok hr
    obtain ⟨y, hy, hName⟩ := kept_name (hKept x hx)
    obtain ⟨o, hEarlier, hEq⟩ := track_current hCurrent
    subst hEq
    rw [hName]
    exact hE o heard hEarlier hStores hHeard y hy

/-- The chain stores what the target group answered. -/
theorem group_policy (hCfg : ctx.cfg = cfg) :
    StorePolicy (FromTarget client cfg) (ServedFromTarget client) (LabelsTell client cfg) client
      (OwnersAgree client cfg req) (Echoes False req) ctx req where
  promise := ownersAgree_graded _
  sourced := ownersAgree_sourced
  cache :=
    { final := fun _ _ _ _ hFalse => hFalse.elim
      answer := fun _ _ _ _ _ _ _ _ hCached => absurd hCached (by simp)
      serve := by
        intro g₀ g d o r b hConsult hHit hFrom hServed hLabel
        refine ⟨fun _ => ⟨o, hHit, ?_⟩, fun hFalse => hFalse.elim⟩
        intro s hs
        have hData : d.nameServerGroup = some ctx.serverGroupName := by
          rw [← hServed.label, hLabel]
        exact (targetGroup_eq hCfg hConsult).trans (hFrom ctx.serverGroupName hData s hs)
      store := by
        intro g₀ g o r hConsult hCurrent hExt hAgree
        have hTarget := asked_target hCfg hConsult hExt
        refine ⟨?_, ?_⟩
        · intro label hLabel s hs
          have hName : ctx.serverGroupName = label := Option.some.inj hLabel
          rw [← hName]
          exact hTarget s hs
        · intro p hp label hLabel s hs
          obtain ⟨hQuestion, -, hGroup, -⟩ := written_clamp hp
          have hName : ctx.serverGroupName = label := Option.some.inj (hGroup.symm.trans hLabel)
          rw [← hName]
          rcases hQuestion with hQuery | ⟨x, hx, hOwner⟩
          · rw [hQuery]
            exact hTarget s hs
          · have hCtx : o.ctx = ctx := hExt.ctx
            have hSame := hAgree.1 rfl o hCurrent hExt.stores x hx
            rw [hCtx] at hSame
            rw [hOwner]
            exact hSame.trans (hTarget s hs)
      negative := by
        intro g₀ g o e r b hConsult _ hExt _ _ _
        refine ⟨?_, fun hCached => absurd hCached (by simp), fun hFalse => hFalse.elim⟩
        intro label hLabel s hs
        have hName : ctx.serverGroupName = label := Option.some.inj hLabel
        rw [← hName]
        exact asked_target hCfg hConsult hExt s hs }

end Policy

/-- In every run in which labels tell where requests are sent, whatever the cache answers was
obtained from the group that the request would be sent to. -/
theorem cache_respects_groups (cfg : RuntimeConfig) (client : DnsClient) (env : CacheEnv)
    (cacheSize expiredTtl expiredReplyTtl maxBytes : Nat) (es : List ServerEvent) (p : ServerPool)
    (hMeet : StepsMeet (server cfg client env).step
      (System.Meets (fun _ => True) (EnvMeets (LabelsTell client cfg) env))
      ⟨World.init cacheSize expiredTtl expiredReplyTtl maxBytes, []⟩ es)
    (hRun : runTrace (server cfg client env).step
      ⟨World.init cacheSize expiredTtl expiredReplyTtl maxBytes, []⟩ es = some p) :
    ∀ t ∈ p.threads, ∀ ctx req res k, t.prog = .call (.answer ctx req res true) k →
      ∃ o, t.ghost.hit = some o ∧ ∀ s ∈ o.asked, targetGroup client ctx req = some s := by
  intro t ht ctx req res k hProg
  have hInv := chain_invariant False (fun ctx req hCfg => ⟨_, group_policy hCfg⟩)
    (fun hFalse => hFalse.elim) hMeet hRun
  exact hInv.pre_of_call ht hProg rfl

/-! ## A listener that ignores the rules -/

/-- The rules send `example.com` to the group `office`. -/
def officeConfig : RuntimeConfig :=
  { RuntimeConfig.default with
    findDomainRule := fun name _ =>
      if name = exampleName then
        some (.mk (.Default name) { DomainRule.default with nameserver := some "office" } none)
      else none }

def officeClient : DnsClient :=
  { exampleClient with
    servers := fun name => if name = "office" then some [⟨1, false, false⟩] else none }

/-- A request on a listener that ignores the rules for servers or does not. -/
def arrival (ignoresRules : Bool) : Arrival where
  incoming := .ok (askFor exampleName .A exampleSource)
  serverOpts := { ServerOpts.default with noRuleNameserver := some ignoresRules }

/-- A request on one listener is resolved and stored, then the same question is asked on the
listener that follows the rules. -/
def officeRun (ignoresRules : Bool) : List ServerEvent :=
  [.spawn (arrival ignoresRules)] ++
    steps 0 (missAnswers ++ lookupAnswers (exampleAnswer exampleAddress) ++ storeAnswers) ++
    [.spawn (arrival false)] ++ steps 1 hitAnswers

/-- A request that would be sent to one group is served what another one answered. -/
def servedFrom (target source : ServerGroup) (ctx : DnsContext) (req : DnsRequest)
    (_ : DnsResponse) (o : Origin) : Bool :=
  decide (targetGroup officeClient ctx req = some target ∧ o.asked = [source])

/-- The condition on a run, computed. -/
def labelCheck (client : DnsClient) (cfg : RuntimeConfig) : Ghost → (o : Op) → Op.Resp o → Bool
  | _, .consult ctx req, _ =>
    !ctx.serverOpts.noRuleNameserver.getD false ||
      decide (ruleTarget client cfg ctx.serverGroupName req.lowerName = some .default)
  | g, .serverLookup _ _ name _, res =>
    g.current.all fun o => res.toOption.all fun r => r.records.all fun x =>
      decide (ruleTarget client cfg o.ctx.serverGroupName x.name.toLowercase =
        ruleTarget client cfg o.ctx.serverGroupName name)
  | _, _, _ => true

theorem labelsTell_of_check {client : DnsClient} {cfg : RuntimeConfig} (g : Ghost) (o : Op)
    (r : Op.Resp o) (h : labelCheck client cfg g o r = true) : LabelsTell client cfg g o r := by
  cases o with
  | consult ctx req =>
    intro hRule
    simpa [labelCheck, hRule] using h
  | serverLookup group server name options =>
    intro o res hCurrent _ hRes x hx
    subst hRes
    simp only [labelCheck, hCurrent, Option.all_some, Except.toOption, List.all_eq_true,
      decide_eq_true_eq] at h
    exact h x hx
  | _ => trivial

theorem cache_respects_groups_officeRun :
    ∃ p, runTrace (server officeConfig officeClient exampleEnv).step ⟨exampleWorld, []⟩
        (officeRun false) = some p ∧
      ∃ t ∈ p.threads, ∃ ctx req res k, t.prog = .call (.answer ctx req res true) k ∧
        ∃ o, t.ghost.hit = some o ∧ ∀ s ∈ o.asked, targetGroup officeClient ctx req = some s := by
  refine exists_served (servedFrom (.named "office") (.named "office")) (by decide +kernel)
    fun p t ctx req res k o hRun ht hProg _ _ => ?_
  exact ⟨ctx, req, res, k, hProg,
    cache_respects_groups officeConfig officeClient exampleEnv 4 0 0 0 (officeRun false) p
      (stepsMeet_of_meets _ (meets_of_stepCheck (labelCheck officeClient officeConfig)
        labelsTell_of_check) _ (by decide +kernel)) hRun t ht ctx req res k hProg⟩

/-- The answer of the default group is served to a request that the rules send elsewhere. -/
theorem group_label_misleads :
    ∃ p, runTrace (server officeConfig officeClient exampleEnv).step ⟨exampleWorld, []⟩
        (officeRun true) = some p ∧
      ∃ t ∈ p.threads, ∃ ctx req res k o, t.prog = .call (.answer ctx req res true) k ∧
        targetGroup officeClient ctx req = some (.named "office") ∧ t.ghost.hit = some o ∧
        o.asked = [.default] := by
  refine exists_served (servedFrom (.named "office") .default) (by decide +kernel)
    fun p t ctx req res k o _ _ hProg hHit hServed => ?_
  obtain ⟨hTarget, hAsked⟩ := of_decide_eq_true hServed
  exact ⟨ctx, req, res, k, o, hProg, hTarget, hHit, hAsked⟩

end SmartDns.Ports.GroupIsolation
