import SmartDns.Ports.ConnectedAnswers

/-!
# Replies and the aliases they need

An answer is stored and found again, its aliases are stripped, its addresses limited in
number and synthesised, and an alias by rule is put in front of it. A hit renames the
addresses of an entry that has lost its aliases; nothing does so for the answer that the
entry was made from.
-/

namespace SmartDns.Ports.ReplyConnectivity

open Verified DomainName DnsMessage DnsLookup RequestContext RuleTree Middleware CacheStore Upstream
open InnerChain OuterChain AccessControl Process ServerRuns LookupRules ChainRules FileLayers
open BelowCache AliasChains ConnectedAnswers List

variable {cfg : RuntimeConfig}

/-! ## The cache -/

/-- The outcome for a request that somebody waits for. -/
def Replies (ctx : DnsContext) (F : List Record → Prop) (outcome : Outcome) : Prop :=
  outcome.2.cfg = ctx.cfg ∧ outcome.2.serverOpts = ctx.serverOpts ∧
    (ctx.serverOpts.isBackground = false → ∀ r, outcome.1 = .ok r → F r.records)

/-- Every request is answered with such records. -/
def Serves (cfg : RuntimeConfig) (F : Query → List Record → Prop) (next : Handler) : Prop :=
  ∀ ctx req g, ctx.cfg = cfg →
    Sat (connectivity cfg) (next ctx req) g (fun outcome _ => Replies ctx (F req.query) outcome)

section Layers

variable {F : Query → List Record → Prop} {ctx : DnsContext} {req : DnsRequest} {g : Ghost}
  {next : Handler}

theorem replies_ok {P : List Record → Prop} {r : DnsResponse} (h : P r.records) :
    Replies ctx P (.ok r, ctx) := by
  refine ⟨rfl, rfl, ?_⟩
  rintro - r' ⟨⟩
  exact h

theorem replies_error {P : List Record → Prop} (e : DnsError) : Replies ctx P (.error e, ctx) :=
  ⟨rfl, rfl, fun _ r hr => absurd hr (by simp)⟩

/-- What the store has for a request. -/
def CachedSound (cfg : RuntimeConfig) (query : Query) (cached : Cached) : Prop :=
  ∀ r, cached = .fresh r ∨ cached = .stale r → Sound cfg query r.records

theorem cachedSound_absent (query : Query) : CachedSound cfg query .absent := by
  rintro r (hEq | hEq) <;> cases hEq

theorem serveCached_sat {r : DnsResponse} (hr : Sound cfg req.query r.records) :
    Sat (connectivity cfg) (serveCached ctx req r) g
      (fun cached g' => CachedSound cfg req.query cached ∧ subject g' = subject g) := by
  have hServed : CachedSound cfg req.query (.fresh r.markFromCache) := by
    rintro r' (hEq | hEq) <;> cases hEq
    exact hr
  unfold serveCached
  dsimp only
  split
  · refine Sat.perform trivial ?_
    rintro _ g₁ ⟨hSubject, -⟩
    refine Sat.perform trivial ?_
    rintro _ g₂ ⟨hSubject', -⟩
    exact ⟨hServed, hSubject'.trans hSubject⟩
  · refine Sat.perform trivial ?_
    rintro _ g₁ ⟨hSubject, -⟩
    exact ⟨hServed, hSubject⟩

/-- What the cache gives is sound for the question. -/
theorem lookupCache_sat :
    Sat (connectivity cfg) (lookupCache ctx req) g
      (fun cached g' => CachedSound cfg req.query cached ∧ subject g' = subject g) := by
  unfold lookupCache
  split
  · exact ⟨cachedSound_absent _, rfl⟩
  · refine Sat.perform trivial ?_
    rintro now g₁ ⟨hSubject, -⟩
    refine Sat.perform trivial ?_
    rintro found g₂ ⟨hSubject', hSound⟩
    have hSame : subject g₂ = subject g := hSubject'.trans hSubject
    cases found with
    | none => exact ⟨cachedSound_absent _, hSame⟩
    | some reply =>
      obtain ⟨res, status⟩ := reply
      have hRes : Sound cfg req.query res.records := hSound res status rfl
      have hServe : Sat (connectivity cfg) (serveCached ctx req res) g₂
          (fun cached g' => CachedSound cfg req.query cached ∧ subject g' = subject g₂) :=
        serveCached_sat hRes
      rw [hSame] at hServe
      dsimp only
      split
      · cases status with
        | Valid => exact hServe
        | Expired =>
          dsimp only
          split
          · exact hServe
          · refine ⟨?_, hSame⟩
            rintro r (hEq | hEq) <;> cases hEq
            exact hRes
      · exact ⟨cachedSound_absent _, hSame⟩

/-- Storing a storable answer keeps the cache sound. -/
theorem storeLookup_sat {lookup : DnsResponse} (h : Storable cfg req.query lookup.records) :
    Sat (connectivity cfg) (storeLookup ctx req lookup) g (fun _ _ => True) := by
  unfold storeLookup
  split
  · exact Sat.perform trivial fun _ _ _ => Sat.perform h fun _ _ _ => trivial
  · split
    · trivial
    · split
      · exact Sat.perform trivial fun _ _ _ =>
          Sat.perform (h.map (faithful_clampTtlBounds _)) fun _ _ _ => trivial
      · trivial

theorem storeError_sat {err : DnsError} {cached : Cached}
    (hCached : CachedSound cfg req.query cached) :
    Sat (connectivity cfg) (storeError ctx req err cached) g
      (fun res _ => ∀ r, res = .ok r → Sound cfg req.query r.records) := by
  unfold storeError
  dsimp only
  split
  · rename_i neg hNeg
    have hNone : Sound cfg req.query neg.records := by
      refine NoAddress.sound ?_
      split at hNeg
      · intro x hx
        rw [DnsResponse.records, (negativeResponseFromError_spec hNeg).2] at hx
        cases hx
      · cases hNeg
    refine Sat.perform trivial fun _ _ _ => Sat.perform (.inl hNone) fun _ _ _ =>
      Sat.perform trivial fun _ _ _ => ?_
    rintro r ⟨⟩
    exact hNone
  · split
    · rename_i res
      refine Sat.perform trivial fun _ _ _ => ?_
      rintro r ⟨⟩
      exact hCached res (.inr rfl)
    · intro r hr
      cases hr

/-- What the layers around the cache rely on: the layers below, for the request they resolve. -/
def Resolves (cfg : RuntimeConfig) (next : Handler) : Prop :=
  ∀ ctx req g, ctx.cfg = cfg → subject g = some (ctx, req) →
    Sat (connectivity cfg) (next ctx req) g
      (fun outcome _ => Leaves ctx (Good cfg ctx req) outcome)

theorem Leaves.replies {outcome : Outcome} (h : Leaves ctx (Good cfg ctx req) outcome) :
    Replies ctx (Sound cfg req.query) outcome := by
  refine ⟨by rw [h.1], by rw [h.1], ?_⟩
  intro hFront r hr
  exact (h.2 r hr).2 hFront

theorem passBy_serves (hNext : Resolves cfg next) : Serves cfg (Sound cfg) (passBy next) := by
  intro ctx req g hCfg
  refine Sat.perform trivial ?_
  rintro _ g₁ ⟨hSubject, -⟩
  refine Sat.seq (hNext ctx req g₁ hCfg hSubject) ?_
  rintro ⟨res, ctx'⟩ g₂ hLeaves
  have hReplies := Leaves.replies hLeaves
  cases res with
  | ok lookup => exact Sat.perform trivial fun _ _ _ => hReplies
  | error e => exact hReplies

/-- The cache layer serves sound replies over a sound chain. -/
theorem cacheLayer_serves (hNext : Resolves cfg next) :
    Serves cfg (Sound cfg) (cacheLayer next) := by
  intro ctx req g hCfg
  unfold cacheLayer
  split
  · exact passBy_serves hNext ctx req g hCfg
  · refine Sat.perform trivial ?_
    rintro _ g₁ ⟨hSubject, -⟩
    refine Sat.seq lookupCache_sat ?_
    rintro cached g₂ ⟨hCached, hSame⟩
    have hNow : subject g₂ = some (ctx, req) := hSame.trans hSubject
    have hBelow : Sat (connectivity cfg) (next ctx req >>= finishLookup ctx req cached) g₂
        (fun outcome _ => Replies ctx (Sound cfg req.query) outcome) := by
      refine Sat.seq (hNext ctx req g₂ hCfg hNow) ?_
      rintro ⟨res, ctx'⟩ g₃ hLeaves
      have hReplies := Leaves.replies hLeaves
      cases res with
      | ok lookup =>
        exact Sat.seq (storeLookup_sat (hLeaves.2 lookup rfl).1) fun _ _ _ =>
          Sat.perform trivial fun _ _ _ => hReplies
      | error err =>
        refine Sat.seq (storeError_sat hCached) ?_
        intro res' g₄ hSound
        exact ⟨hReplies.1, hReplies.2.1, fun _ => hSound⟩
    cases cached with
    | fresh res => exact Sat.perform trivial fun _ _ _ => replies_ok (hCached res (.inl rfl))
    | stale | absent => exact hBelow

/-- The cache and everything below it. -/
theorem storeChain_serves (client : DnsClient) :
    Serves cfg (Sound cfg) (execute defaultHandler (storeLayers cfg client)) := by
  have hInner : Resolves cfg (execute defaultHandler (innerLayers cfg client)) := by
    intro ctx req g hCfg hg
    rw [← hCfg]
    exact innerChain_sat client hg
  unfold storeLayers
  split
  · exact cacheLayer_serves hInner
  · exact passBy_serves hInner

/-! ## Files and builtin zones -/

variable {records : List Record}

theorem sound_of_fitting {query : Query} (h : Fitting query records) : Sound cfg query records := by
  rcases h with hQuestion | hOther
  · refine Direct.sound (fun x hx _ => (hQuestion x hx).1) ?_
    intro hOther x hx
    rw [(hQuestion x hx).2]
    exact hOther
  · exact NoAddress.sound hOther

/-- Run the rest of the chain and rework its response. -/
theorem sat_reworked {F' : Query → List Record → Prop} {f : DnsContext → DnsResponse → DnsResponse}
    (hNext : Serves cfg F next) (hCfg : ctx.cfg = cfg)
    (hf : ∀ ctx' r, ctx'.cfg = cfg → F req.query r.records → F' req.query (f ctx' r).records) :
    Sat (connectivity cfg)
      (next ctx req >>= fun outcome => pure (outcome.1.map (f outcome.2), outcome.2)) g
      (fun outcome _ => Replies ctx (F' req.query) outcome) := by
  refine Sat.seq (hNext ctx req g hCfg) ?_
  rintro ⟨res, ctx'⟩ g' ⟨hCfg', hOpts, hRecords⟩
  refine ⟨hCfg', hOpts, ?_⟩
  intro hFront r hr
  cases res with
  | error e => cases hr
  | ok lookup =>
    cases hr
    exact hf ctx' lookup (hCfg'.trans hCfg) (hRecords hFront lookup rfl)

theorem promised_files {o : Op} {r : Op.Resp o} (hSilent : silent o = true)
    (h : Promised cfg g o r) : FromFiles o r := by
  cases o with
  | cacheGet => exact absurd hSilent (by simp [silent])
  | _ => exact h.2.1

/-- A layer that reads files serves sound replies. -/
theorem consults_serves {C : Prop} {p : Handler → Async Outcome} (h : Consults ctx req C p)
    (hNext : Serves cfg (Sound cfg) next) (hCfg : ctx.cfg = cfg) (hC : C) :
    Sat (connectivity cfg) (p next) g
      (fun outcome _ => Replies ctx (Sound cfg req.query) outcome) := by
  induction h generalizing g with
  | answer _ hFits => exact replies_ok (sound_of_fitting (hFits hC))
  | rest => exact hNext ctx req g hCfg
  | filtered noIpv4Hint noIpv6Hint =>
    exact sat_reworked (f := fun _ r => r.mapAnswers (filterHints noIpv4Hint noIpv6Hint))
      hNext hCfg fun _ _ _ h => h.map (faithful_filterHints _ _)
  | @ask _ o _ hSilent _ ih =>
    refine ⟨?_, fun r g' hPost => ih r ⟨hC, promised_files hSilent hPost.2⟩⟩
    cases o with
    | insertNegative | insertRecords => exact absurd hSilent (by simp [silent])
    | _ => trivial

/-! ## Address rules, synthesis and aliases -/

theorem handleRuleAddr_other {queryType : RecordType} {rdatas : List RData}
    (hOther : queryType.isIpAddr = false) (h : handleRuleAddr queryType ctx = some rdatas) :
    rdatas = [.SOA defaultSoa] := by
  unfold handleRuleAddr at h
  dsimp only at h
  split at h
  · cases h
    rfl
  · rw [hOther, Bool.not_false, Bool.or_true] at h
    cases h

/-- The address layer serves replies that fit. -/
theorem addressLayer_serves (hNext : Serves cfg (Sound cfg) next) :
    Serves cfg (Fit cfg) (addressLayer next) := by
  intro ctx req g hCfg
  unfold addressLayer
  split
  · rename_i rdatas hRule
    refine replies_ok (Sound.toFit (Direct.sound ?_ ?_))
    · intro x hx _
      obtain ⟨rdata, -, rfl⟩ := mem_map.mp hx
      rfl
    · intro hOther x hx
      obtain ⟨rdata, hData, rfl⟩ := mem_map.mp hx
      rw [handleRuleAddr_other hOther hRule, mem_singleton] at hData
      rw [hData]
      rfl
  · refine sat_reworked (f := fun ctx' => reworkReply ctx' req.query.queryType) hNext hCfg ?_
    intro ctx' r hCfg' hSound
    rw [← hCfg'] at hSound ⊢
    exact hSound.rework

theorem Fit.congr {query query' : Query} (h : Fit cfg query records)
    (hName : query'.name = query.name) (hStrips : strips cfg query' = strips cfg query)
    (hIp : query'.queryType.isIpAddr = query.queryType.isIpAddr) : Fit cfg query' records where
  connected := by
    rw [hName]
    exact h.connected
  bare := by
    rw [hName, hStrips]
    exact h.bare
  typed := by
    rw [hStrips, hIp]
    exact h.typed

/-- The DNS64 layer serves replies that fit. -/
theorem dns64Layer_serves (net : IpNetwork.Cidr 128) (hNext : Serves cfg (Fit cfg) next) :
    Serves cfg (Fit cfg) (dns64Layer net next) := by
  intro ctx req g hCfg
  unfold dns64Layer
  split
  · exact hNext ctx req g hCfg
  · rename_i hType
    have hAaaa : req.query.queryType = .AAAA := by simpa using hType
    refine Sat.seq (hNext ctx req g hCfg) ?_
    rintro ⟨res, ctx'⟩ g₁ ⟨hCfg', hOpts, hRecords⟩
    cases res with
    | ok r => exact ⟨hCfg', hOpts, hRecords⟩
    | error err =>
      refine Sat.seq (hNext ctx' _ g₁ (hCfg'.trans hCfg)) ?_
      rintro ⟨res', ctx''⟩ g₂ ⟨hCfg'', hOpts', hRecords'⟩
      have hFrame : ctx''.cfg = ctx.cfg ∧ ctx''.serverOpts = ctx.serverOpts :=
        ⟨hCfg''.trans hCfg', hOpts'.trans hOpts⟩
      cases res' with
      | error e => exact ⟨hFrame.1, hFrame.2, fun _ r hr => absurd hr (by simp)⟩
      | ok lookup =>
        refine ⟨hFrame.1, hFrame.2, ?_⟩
        rintro hFront r ⟨⟩
        rw [← hOpts] at hFront
        have hFit : Fit cfg { req.query with queryType := .A } lookup.records :=
          hRecords' hFront lookup rfl
        exact Fit.congr (hFit.map (faithful_synthesise net)) rfl
          (by rw [strips, hAaaa]; rfl) (by rw [hAaaa]; rfl)

/-- Where aliases are stripped, alias rules for addresses lead nowhere else. -/
def PlainAliases (ctx : DnsContext) (req : DnsRequest) : Prop :=
  strips ctx.cfg req.query = true → ctx.cfg.hasCnames = true →
    req.query.queryType.isIpAddr = true →
    ∀ target, cnameOf ctx = some target → target.lowerLabels = req.query.name.lowerLabels

/-- Once aliases by rule are added, and before aliases are stripped. -/
def Aliased (ctx : DnsContext) (req : DnsRequest) (records : List Record) : Prop :=
  Connected req.query.name records ∧
    (strips ctx.cfg req.query = true → PlainAliases ctx req → Direct req.query.name records)

theorem Serves.aliased (hNext : Serves cfg (Fit cfg) next) (hCfg : ctx.cfg = cfg) :
    Sat (connectivity cfg) (next ctx req) g
      (fun outcome _ => Replies ctx (Aliased ctx req) outcome) := by
  refine Sat.mono ?_ _ (hNext ctx req g hCfg)
  rintro outcome g' ⟨hCfg', hOpts, hRecords⟩
  refine ⟨hCfg', hOpts, ?_⟩
  intro hFront r hr
  have hFit := hRecords hFront r hr
  rw [← hCfg] at hFit
  exact ⟨hFit.connected, fun hStrips _ => hFit.bare hStrips⟩

/-- The replies of the alias layer are aliased as the context says. -/
theorem cnameLayer_sat (hNext : Serves cfg (Fit cfg) next) (hCfg : ctx.cfg = cfg)
    (hCnames : cfg.hasCnames = true) :
    Sat (connectivity cfg) (cnameLayer next ctx req) g
      (fun outcome _ => Replies ctx (Aliased ctx req) outcome) := by
  unfold cnameLayer
  split
  · exact hNext.aliased hCfg
  · rename_i target hTarget
    split
    · have hNone : NoAddress [Record.fromRdata req.query.name (ctx.cfg.localTtl % 2 ^ 32)
          (.CNAME (target.setFqdn true))] := by
        exact forall_mem_singleton.mpr rfl
      exact replies_ok ⟨(hNone.direct _).connected, fun _ _ => hNone.direct _⟩
    · refine Sat.seq (hNext _ (req.withCname (target.setFqdn true)) g hCfg) ?_
      rintro ⟨res, ctx'⟩ g₁ ⟨-, -, hRecords⟩
      cases res with
      | error e => exact replies_error e
      | ok lookup =>
        refine ⟨rfl, rfl, ?_⟩
        rintro hFront r ⟨⟩
        have hFit : Fit cfg (req.withCname (target.setFqdn true)).query lookup.records :=
          hRecords hFront lookup rfl
        rw [← hCfg] at hFit hCnames
        refine ⟨hFit.connected.alias _, ?_⟩
        intro hStrips hPlain x hx hAddress
        rcases mem_cons.mp hx with rfl | hRest
        · exact absurd hAddress Bool.false_ne_true
        · cases hIp : req.query.queryType.isIpAddr with
          | true =>
            rw [← hPlain hStrips hCnames hIp target hTarget]
            exact hFit.bare hStrips x hRest hAddress
          | false =>
            rw [hFit.typed hStrips hCnames hIp x hRest] at hAddress
            exact absurd hAddress Bool.false_ne_true

/-- What the chain returns for a request. -/
def Final (ctx : DnsContext) (req : DnsRequest) (records : List Record) : Prop :=
  PlainAliases ctx req → Connected req.query.name records

theorem forceNoCnameLayer_sat (hForce : ctx.cfg.forceNoCname = true)
    (hNext : Sat (connectivity cfg) (next ctx req) g
      (fun outcome _ => Replies ctx (Aliased ctx req) outcome)) :
    Sat (connectivity cfg) (forceNoCnameLayer next ctx req) g
      (fun outcome _ => Replies ctx (Final ctx req) outcome) := by
  refine Sat.seq hNext ?_
  rintro ⟨res, ctx'⟩ g₁ ⟨hCfg, hOpts, hRecords⟩
  cases res with
  | error e => exact ⟨hCfg, hOpts, fun _ r hr => absurd hr (by simp)⟩
  | ok lookup =>
    dsimp only
    split
    · rename_i hOther
      refine ⟨hCfg, hOpts, ?_⟩
      rintro hFront r ⟨⟩ hPlain
      have hStrips : strips ctx.cfg req.query = true := by
        rw [strips, hForce, hOther]
        rfl
      have hDirect := (hRecords hFront lookup rfl).2 hStrips hPlain
      exact (hDirect.subset fun x hx => mem_of_mem_filter hx).connected
    · exact ⟨hCfg, hOpts, fun hFront r hr _ => (hRecords hFront r hr).1⟩

/-! ## The whole chain -/

theorem fileLayers_serves {l : Layer} (hLayer : l ∈ fileLayers cfg)
    (hNext : Serves cfg (Sound cfg) next) : Serves cfg (Sound cfg) (l next) :=
  fun ctx req _ hCfg => consults_serves (fileLayers_consults hLayer ctx req) hNext hCfg trivial

/-- The chain below the aliases by rule. -/
def unaliased (cfg : RuntimeConfig) (client : DnsClient) : Handler :=
  execute (execute defaultHandler
    ([addressLayer] ++ (fileLayers cfg ++ storeLayers cfg client)))
    (cfg.dns64Prefix.map dns64Layer).toList

/-- The chain below the aliases serves replies that fit. -/
theorem unaliased_serves (client : DnsClient) : Serves cfg (Fit cfg) (unaliased cfg client) := by
  have hFiles : Serves cfg (Sound cfg)
      (execute defaultHandler (fileLayers cfg ++ storeLayers cfg client)) :=
    execute_append (storeChain_serves client) (fileLayers cfg)
      fun l hl next hNext => fileLayers_serves hl hNext
  have hAddress : Serves cfg (Fit cfg)
      (execute defaultHandler ([addressLayer] ++ (fileLayers cfg ++ storeLayers cfg client))) :=
    addressLayer_serves hFiles
  unfold unaliased
  cases cfg.dns64Prefix with
  | none => exact hAddress
  | some net => exact dns64Layer_serves net hAddress

theorem buildMiddleware_eq (cfg : RuntimeConfig) (client : DnsClient) :
    buildMiddleware cfg client =
      execute (execute (unaliased cfg client) (if cfg.hasCnames then [cnameLayer] else []))
        (if cfg.forceNoCname then [forceNoCnameLayer] else []) := by
  unfold buildMiddleware outerLayers unaliased fileLayers execute
  simp

/-- The whole chain answers with connected records. -/
theorem buildMiddleware_sat (client : DnsClient) (hCfg : ctx.cfg = cfg) :
    Sat (connectivity cfg) (buildMiddleware cfg client ctx req) g
      (fun outcome _ => Replies ctx (Final ctx req) outcome) := by
  have hAliased : Sat (connectivity cfg)
      (execute (unaliased cfg client) (if cfg.hasCnames then [cnameLayer] else []) ctx req) g
      (fun outcome _ => Replies ctx (Aliased ctx req) outcome) := by
    split
    · rename_i hCnames
      exact cnameLayer_sat (unaliased_serves client) hCfg hCnames
    · exact (unaliased_serves client).aliased hCfg
  rw [buildMiddleware_eq]
  cases hForce : cfg.forceNoCname with
  | true => exact forceNoCnameLayer_sat (by rw [hCfg, hForce]) hAliased
  | false =>
    refine Sat.mono ?_ _ hAliased
    rintro outcome g' ⟨hCfg', hOpts, hRecords⟩
    exact ⟨hCfg', hOpts, fun hFront r hr _ => (hRecords hFront r hr).1⟩

/-! ## Replies -/

/-- The context that a request is resolved in. -/
def contextOf (cfg : RuntimeConfig) (serverOpts : ServerOpts) (req : DnsRequest) : DnsContext :=
  DnsContext.new req.lowerName cfg
    { serverOpts with ruleGroup := (matchedRule cfg req).map (·.group) }

/-- The reply to a request that somebody waits for. -/
def ReplyConnected (cfg : RuntimeConfig) (a : Arrival) (reply : Message) : Prop :=
  ∀ req, a.incoming = .ok req → a.serverOpts.isBackground = false →
    PlainAliases (contextOf cfg a.serverOpts req) req → Connected req.query.name reply.answers

theorem search_sat (client : DnsClient) (serverOpts : ServerOpts) :
    Sat (connectivity cfg) (search cfg (buildMiddleware cfg client) serverOpts req) g
      (fun res _ => serverOpts.isBackground = false →
        ∀ r, res = .ok r → Final (contextOf cfg serverOpts req) req r.records) := by
  unfold search
  dsimp only
  split
  · intro _ r hr
    cases hr
  · refine Sat.seq (buildMiddleware_sat client rfl) ?_
    intro outcome g' hReplies
    exact hReplies.2.2

theorem connected_of_nil {name : Name} (h : records = []) : Connected name records := by
  rw [h]
  exact nofun

theorem respond_connected {res : Except DnsError DnsResponse}
    (hRes : ∀ r, res = .ok r → Connected req.query.name r.records) :
    Connected req.query.name (respond req res).1.answers := by
  cases res with
  | ok r => exact hRes r rfl
  | error e =>
    refine connected_of_nil ?_
    show (settle req (.error e)).1.message.answers = []
    unfold settle
    dsimp only
    split
    · rename_i soa hSoa
      exact (DnsError.asSoa_spec hSoa).2
    · split <;> rfl

/-- Processing a message answers with connected records. -/
theorem process_sat (client : DnsClient) (a : Arrival) :
    Sat (connectivity cfg) (process cfg (buildMiddleware cfg client) a.incoming a.serverOpts) g
      (fun reply _ => ReplyConnected cfg a reply.1) := by
  have hBare : ∀ reply : Message, reply.answers = [] → ReplyConnected cfg a reply :=
    fun reply hNil _ _ _ _ => connected_of_nil hNil
  unfold process
  split
  · rename_i req hIncoming
    split
    · split
      · refine Sat.seq (search_sat client a.serverOpts) ?_
        intro res g' hRes req' hEq hFront hPlain
        rw [hIncoming] at hEq
        cases hEq
        exact respond_connected fun r hr => hRes hFront r hr hPlain
      · exact hBare _ rfl
    · exact hBare _ rfl
  · exact hBare _ rfl
  · exact hBare _ rfl

theorem send_sat (client : DnsClient) (a : Arrival) :
    Sat (connectivity cfg) (send cfg (buildMiddleware cfg client) a.incoming a.serverOpts) g
      (fun reply _ => ReplyConnected cfg a reply) := by
  refine Sat.perform trivial ?_
  intro dispatch g' _
  cases dispatch with
  | processed =>
    refine Sat.seq (process_sat client a) ?_
    intro reply g'' hReply
    exact hReply
  | refused =>
    intro req hEq _ _
    refine connected_of_nil ?_
    rw [hEq]
    rfl
  | dropped freshId => exact fun _ _ _ _ => connected_of_nil rfl

end Layers

/-- In every run whose upstream servers and files answer as described, every reply to a client
is connected. -/
theorem reply_connected (cfg : RuntimeConfig) (client : DnsClient) (env : CacheEnv)
    (cacheSize expiredTtl expiredReplyTtl maxBytes : Nat) (es : List ServerEvent) (p : ServerPool)
    (hMeet : StepsMeet (server cfg client env).step
      (System.Meets (fun _ => True) (EnvMeets (Upheld cfg) env))
      ⟨World.init cacheSize expiredTtl expiredReplyTtl maxBytes, []⟩ es)
    (hRun : runTrace (server cfg client env).step
      ⟨World.init cacheSize expiredTtl expiredReplyTtl maxBytes, []⟩ es = some p)
    (t : Thread Op Op.Resp Ghost Arrival Message) (ht : t ∈ p.threads) (reply : Message)
    (hProg : t.prog = .done reply) (req : DnsRequest) (hIncoming : t.info.incoming = .ok req)
    (hFront : t.info.serverOpts.isBackground = false)
    (hAliases : PlainAliases (contextOf cfg t.info.serverOpts req) req) :
    Connected req.query.name reply.answers := by
  have hInv : System.Inv (connectivity cfg) (WorldSound cfg env)
      (fun a reply _ => ReplyConnected cfg a reply) p :=
    System.invariant (fun a _ => send_sat client a)
      (fun _ _ _ _ _ _ _ hInv hPre hEnv hExec => exec_connected hInv hPre hEnv hExec)
      (WorldSound.init cacheSize expiredTtl expiredReplyTtl maxBytes) hMeet hRun
  exact hInv.post_of_done ht hProg req hIncoming hFront hAliases

/-! ## Runs -/

/-- `cdn.example.com`, where the address is. -/
def cdnName : Name := Name.ofLabels ["cdn", "example", "com"]

def aliasRecord : Record := Record.fromRdata exampleName 300 (.CNAME cdnName)

def addressRecord : Record := Record.fromRdata cdnName 300 exampleAddress

def aliasedRecords : List Record := [aliasRecord, addressRecord]

/-- An upstream answer to a question for an address. -/
def answerWith (name : Name) (records : List Record) : Answer :=
  .lookup (.ok (DnsResponse.newWithMaxTtl (Query.query name .A) records))

def exampleArrival : Arrival where
  incoming := .ok (askFor exampleName .A exampleSource)
  serverOpts := ServerOpts.default

/-- A question is resolved through the upstream server. -/
def resolvedRun (name : Name) (records : List Record) (pings : List Answer) : List ServerEvent :=
  [.spawn exampleArrival] ++
    steps 0 (missAnswers ++ lookupAnswers (answerWith name records) ++ pings ++ storeAnswers)

/-- The request has been replied to with these records. -/
def repliedWith (records : List Record) (t : Thread Op Op.Resp Ghost Arrival Message) : Bool :=
  match t.prog with
  | .done reply =>
    decide (t.info.incoming.toOption = some (askFor exampleName .A exampleSource) ∧
      t.info.serverOpts.isBackground = false ∧ reply.answers = records)
  | .call _ _ => false

variable {records : List Record}

theorem repliedWith_spec {t : Thread Op Op.Resp Ghost Arrival Message}
    (h : repliedWith records t = true) :
    ∃ reply, t.prog = .done reply ∧ t.info.incoming = .ok (askFor exampleName .A exampleSource) ∧
      t.info.serverOpts.isBackground = false ∧ reply.answers = records := by
  unfold repliedWith at h
  split at h
  · rename_i reply hProg
    obtain ⟨hIncoming, hReply⟩ := of_decide_eq_true h
    exact ⟨reply, hProg, eq_ok_of_toOption hIncoming, hReply⟩
  · cases h

theorem addressRecord_connected : Connected cdnName [addressRecord] := by
  refine Direct.connected ?_
  intro x hx _
  rw [mem_singleton.mp hx]
  rfl

theorem aliasedRecords_connected : Connected exampleName aliasedRecords :=
  addressRecord_connected.alias 300

/-- The server answers with the alias and the address, and nothing changes them. -/
def wholeCheck : Ghost → (o : Op) → Op.Resp o → Bool
  | g, .serverLookup _ server _ _, res =>
    (subject g).all fun x => decide (x.2.query.name = exampleName) &&
      res.toOption.all fun r =>
        passedWhole x.1 x.2 server r && decide (r.records = aliasedRecords)
  | _, .localLookup _, found => found.isNone
  | _, .hosts _, found => found.isNone
  | _, .lease _ _, found => found.isNone
  | _, .reverseLease _, found => found.isNone
  | _, _, _ => true

theorem harmless_default (query : Query) (records : List Record) :
    Harmless RuntimeConfig.default query records where
  bare hStrips := absurd hStrips (by simp [strips, RuntimeConfig.default])
  typed hStrips := absurd hStrips (by simp [strips, RuntimeConfig.default])
  limited := .inr fun _ n hLimit => absurd hLimit (by simp [RuntimeConfig.default])

theorem upheld_of_wholeCheck (g : Ghost) (o : Op) (r : Op.Resp o) (h : wholeCheck g o r = true) :
    Upheld RuntimeConfig.default g o r := by
  cases o with
  | serverLookup group server name options =>
    refine ⟨trivial, ?_⟩
    intro ctx req hSubject
    simp only [wholeCheck, hSubject, Option.all_some, Bool.and_eq_true, decide_eq_true_eq] at h
    obtain ⟨hName, hOk⟩ := h
    cases r with
    | error e => trivial
    | ok res =>
      simp only [Except.toOption, Option.all_some, Bool.and_eq_true, decide_eq_true_eq] at hOk
      intro _
      refine ⟨?_, fun _ => harmless_default _ _, ?_⟩
      · rw [hName, hOk.2]
        exact aliasedRecords_connected
      · intro hCut
        rw [hOk.1] at hCut
        cases hCut
  | localLookup | hosts | lease | reverseLease =>
    rw [Option.isNone_iff_eq_none.mp h]
    exact ⟨trivial, fun _ _ _ => trivial⟩
  | _ => exact ⟨trivial, fun _ _ _ => trivial⟩

theorem reply_connected_aliasedRecords :
    ∃ p, runTrace (server RuntimeConfig.default exampleClient exampleEnv).step ⟨exampleWorld, []⟩
        (resolvedRun exampleName aliasedRecords []) = some p ∧
      ∃ t ∈ p.threads, ∃ reply, t.prog = .done reply ∧ reply.answers = aliasedRecords ∧
        Connected exampleName reply.answers := by
  refine exists_thread (repliedWith aliasedRecords) (by decide +kernel)
    fun p t hRun ht hReplied => ?_
  obtain ⟨reply, hProg, hIncoming, hFront, hAnswers⟩ := repliedWith_spec hReplied
  exact ⟨reply, hProg, hAnswers,
    reply_connected RuntimeConfig.default exampleClient exampleEnv 4 0 0 0 _ p
      (stepsMeet_of_meets _ (meets_of_stepCheck wholeCheck upheld_of_wholeCheck) _
        (by decide +kernel)) hRun t ht
      reply hProg _ hIncoming hFront fun _ hCnames => absurd hCnames Bool.false_ne_true⟩

/-! ## Lost aliases -/

/-- All that is said of the upstream servers is that their answers are connected. -/
def ConnectedUpstream (g : Ghost) : (o : Op) → Op.Resp o → Prop
  | .serverLookup _ _ _ _, .ok r =>
    ∀ ctx req, subject g = some (ctx, req) → Connected req.query.name r.records
  | _, _ => True

/-- A run with connected answers and a reply that is not. -/
def Disconnects (cfg : RuntimeConfig) (es : List ServerEvent) : Prop :=
  StepsMeet (server cfg exampleClient exampleEnv).step
      (System.Meets (fun _ => True) (EnvMeets ConnectedUpstream exampleEnv)) ⟨exampleWorld, []⟩ es ∧
    ∃ p, runTrace (server cfg exampleClient exampleEnv).step ⟨exampleWorld, []⟩ es = some p ∧
      ∃ t ∈ p.threads, ∃ reply, t.prog = .done reply ∧
        t.info.incoming = .ok (askFor exampleName .A exampleSource) ∧
        t.info.serverOpts.isBackground = false ∧ ¬ Connected exampleName reply.answers

/-- The answers of the servers in the runs below. -/
def answersCheck (name : Name) (records : List Record) : Ghost → (o : Op) → Op.Resp o → Bool
  | g, .serverLookup _ _ _ _, res =>
    (subject g).all fun x => decide (x.2.query.name = name) &&
      res.toOption.all fun r => decide (r.records = records)
  | _, _, _ => true

theorem connectedUpstream_of_check {name : Name} (hConnected : Connected name records) (g : Ghost)
    (o : Op) (r : Op.Resp o) (h : answersCheck name records g o r = true) : ConnectedUpstream g o r
      := by
  cases o with
  | serverLookup group server name options =>
    cases r with
    | error e => trivial
    | ok res =>
      intro ctx req hSubject
      simp only [answersCheck, hSubject, Except.toOption, Option.all_some, Bool.and_eq_true,
        decide_eq_true_eq] at h
      rw [h.1, h.2]
      exact hConnected
  | _ => trivial

theorem addressRecord_disconnected : ¬ Connected exampleName [addressRecord] := by
  rw [connected_iff_direct (by decide)]
  intro hDirect
  exact absurd (hDirect addressRecord mem_cons_self rfl) (by decide)

/-- Runs in which the reply is the bare address. -/
theorem disconnects_of_bare {cfg : RuntimeConfig} {name : Name} {es : List ServerEvent}
    (hConnected : Connected name records)
    (hMeet : meets (server cfg exampleClient exampleEnv).step
      (stepCheck exampleEnv (answersCheck name records)) ⟨exampleWorld, []⟩ es = true)
    (hRun : ((runTrace (server cfg exampleClient exampleEnv).step ⟨exampleWorld, []⟩ es).any
      fun p => p.threads.any (repliedWith [addressRecord])) = true) :
    Disconnects cfg es := by
  refine ⟨stepsMeet_of_meets _ (meets_of_stepCheck _ (connectedUpstream_of_check hConnected)) es
    hMeet, ?_⟩
  refine exists_thread (repliedWith [addressRecord]) hRun fun _ _ _ _ hReplied => ?_
  obtain ⟨reply, hProg, hIncoming, hFront, hAnswers⟩ := repliedWith_spec hReplied
  refine ⟨reply, hProg, hIncoming, hFront, ?_⟩
  rw [hAnswers]
  exact addressRecord_disconnected

/-- An address is ignored, though not the one that is asked for here. -/
def ignoringConfig : RuntimeConfig :=
  { RuntimeConfig.default with
    ignoreIp := IpNetwork.IpSet.new [singleHost] }

/-- The fastest address is chosen by pings. -/
def pingingConfig : RuntimeConfig :=
  { RuntimeConfig.default with
    responseMode := .FastestIp
    speedCheckMode := some [.Ping]
    dualstackIpSelection := false }

def strippingConfig : RuntimeConfig := { RuntimeConfig.default with forceNoCname := true }

def limitingConfig : RuntimeConfig := { RuntimeConfig.default with maxReplyIpNum := some 1 }

/-- The alias is a rule, and aliases are stripped. -/
def aliasingConfig : RuntimeConfig :=
  { RuntimeConfig.default with
    forceNoCname := true
    hasCnames := true
    findDomainRule := fun name _ =>
      if name = exampleName then
        some (.mk (.Default name) { DomainRule.default with cname := some (.Value cdnName) } none)
      else none }

def pingAnswers : List Answer := [.index 0, .ping (exampleAddress.ipAddr.map fun ip => (ip, 3))]

/-- The alias is lost to the filter by address, to the choice of an address, to the stripping of
aliases, also where it is a rule, and to the limit on addresses if it comes after them. -/
theorem reply_disconnected :
    Disconnects ignoringConfig (resolvedRun exampleName aliasedRecords []) ∧
    Disconnects pingingConfig (resolvedRun exampleName aliasedRecords pingAnswers) ∧
    Disconnects strippingConfig (resolvedRun exampleName aliasedRecords []) ∧
    Disconnects aliasingConfig (resolvedRun cdnName [addressRecord] []) ∧
    Disconnects limitingConfig (resolvedRun exampleName aliasedRecords.reverse []) := by
  have hReverse : Connected exampleName aliasedRecords.reverse :=
    aliasedRecords_connected.subset (fun x hx => mem_reverse.mp hx)
      fun x hx _ => mem_reverse.mpr hx
  refine ⟨?_, ?_, ?_, ?_, ?_⟩
  · exact disconnects_of_bare aliasedRecords_connected (by decide +kernel) (by decide +kernel)
  · exact disconnects_of_bare aliasedRecords_connected (by decide +kernel) (by decide +kernel)
  · exact disconnects_of_bare aliasedRecords_connected (by decide +kernel) (by decide +kernel)
  · exact disconnects_of_bare addressRecord_connected (by decide +kernel) (by decide +kernel)
  · exact disconnects_of_bare hReverse (by decide +kernel) (by decide +kernel)

end SmartDns.Ports.ReplyConnectivity
