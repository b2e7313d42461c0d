import SmartDns.Ports.TtlConservation

/-!
# Serving entries past their deadline

The configuration decides whether an entry past its deadline may still be
served: globally, for the matched rule, for the listener, and for how long after
the deadline. The cache middleware returns such an entry on two paths. On a hit
it asks for the global setting and the rule, not for the listener or the age.
When the layers below fail and their failure does not stand for a negative
answer, it returns the entry it had put aside, without asking at all: that is
the path of the entries whose rule or configuration forbids to serve them.
-/

namespace SmartDns.Ports.StalePolicy

open Verified DnsMessage DnsLookup RequestContext Middleware CacheStore CacheAccounting
open CacheContents PrefetchScan CacheHistory InnerChain Process ServerRuns TtlConservation

/-! ## The policy -/

/-- Whether the configuration and the matched rule let expired entries be served. -/
def servesExpired (ctx : DnsContext) : Bool :=
  ctx.cfg.serveExpired && !(headGet ctx.domainRule (·.noServeExpired)).getD false

/-- What the listener says, and how long after its deadline an entry is still good. -/
structure ListenerAllows (ctx : DnsContext) (expiredTtl now : Nat) (entry : DnsCacheEntry) :
    Prop where
  listener : ctx.serverOpts.noServeExpired.getD false = false
  age : 0 < expiredTtl → now ≤ entry.validUntil + secs expiredTtl

/-- The policy: everyone asked allows the entry to be served. -/
structure StaleAllowed (ctx : DnsContext) (expiredTtl now : Nat) (entry : DnsCacheEntry) :
    Prop where
  global : ctx.cfg.serveExpired = true
  rule : (headGet ctx.domainRule (·.noServeExpired)).getD false = false
  listener : ListenerAllows ctx expiredTtl now entry

variable {ctx : DnsContext} {now : Nat}

/-- The policy is the test of the code with the leave of the listener. -/
theorem staleAllowed_iff {expiredTtl : Nat} {entry : DnsCacheEntry} :
    StaleAllowed ctx expiredTtl now entry ↔
      servesExpired ctx = true ∧ ListenerAllows ctx expiredTtl now entry := by
  unfold servesExpired
  constructor
  · rintro ⟨hGlobal, hRule, hListener⟩
    exact ⟨by simp [hGlobal, hRule], hListener⟩
  · rintro ⟨hServes, hListener⟩
    have hBoth : ctx.cfg.serveExpired = true ∧
        (headGet ctx.domainRule (·.noServeExpired)).getD false = false := by simpa using hServes
    exact ⟨hBoth.1, hBoth.2, hListener⟩

/-! ## Runs of the middleware -/

/-- The operations of a run up to the store's answer. -/
def lookupTrace (ctx : DnsContext) (req : DnsRequest) (now : Nat)
    (reply : Option (DnsResponse × CacheStatus)) : List (Sigma Op.Resp) :=
  [⟨.consult ctx req, ()⟩, ⟨.now, now⟩, ⟨.cacheGet req.query now, reply⟩]

/-- The run ends with a response from the store. -/
def ServesStored (trace : List (Sigma Op.Resp)) (outcome : Outcome) : Prop :=
  ∃ ctx req res, trace.getLast? = some ⟨.answer ctx req res true, ()⟩ ∧ outcome.1 = .ok res

/-- The negative answer that a failure of the layers below stands for. -/
def negativeOf (ctx : DnsContext) (err : DnsError) (query : Query) : Option DnsResponse :=
  if !ctx.noCache && ctx.cfg.cacheNegative then negativeResponseFromError err query else none

/-- In this run the layers below fail, and the failure stands for no negative answer. -/
def FallsBack (next : Handler) (ctx : DnsContext) (req : DnsRequest)
    (rest : List (Sigma Op.Resp)) : Prop :=
  ∃ inner tail err ctx', rest = inner ++ tail ∧
    Prog.Yields (next ctx req) inner (.error err, ctx') ∧ negativeOf ctx' err req.query = none

/-- An entry that the middleware looks at: the request is a client's and the label is its. -/
def Considered (ctx : DnsContext) (entry : DnsCacheEntry) : Prop :=
  ctx.serverOpts.isBackground = false ∧ entry.data.nameServerGroup = some ctx.serverGroupName

/-- The circumstances in which the checks that are not made would not have mattered. -/
def StaleSafe (next : Handler) (ctx : DnsContext) (req : DnsRequest) (expiredTtl now : Nat)
    (entry : DnsCacheEntry) (rest : List (Sigma Op.Resp)) : Prop :=
  Considered ctx entry →
    if servesExpired ctx then ListenerAllows ctx expiredTtl now entry
    else ¬ FallsBack next ctx req rest

/-- What the middleware makes of the store's answer. -/
def judge (ctx : DnsContext) (req : DnsRequest) :
    Option (DnsResponse × CacheStatus) → Async Cached
  | none => return .absent
  | some (res, status) =>
    if res.nameServerGroup = some ctx.serverGroupName then
      match status with
      | .Valid => serveCached ctx req res
      | .Expired => if servesExpired ctx then serveCached ctx req res else return .stale res
    else return .absent

/-- What it does after the lookup. -/
def resume (next : Handler) (ctx : DnsContext) (req : DnsRequest) (cached : Cached) :
    Async Outcome := do
  match cached with
  | .fresh res =>
    Prog.perform (Op.answer ctx req res true)
    return (.ok res, ctx)
  | _ => next ctx req >>= finishLookup ctx req cached

theorem lookupCache_eq (req : DnsRequest) (hClient : ctx.serverOpts.isBackground = false) :
    lookupCache ctx req = (do
      let now ← Prog.perform Op.now
      let reply ← Prog.perform (Op.cacheGet req.query now)
      judge ctx req reply) := by
  unfold lookupCache
  rw [hClient]
  refine congrArg (Prog.call Op.now) (funext fun now => ?_)
  refine congrArg (Prog.call (Op.cacheGet req.query now)) (funext fun reply => ?_)
  match reply with
  | none => rfl
  | some (res, .Valid) => rfl
  | some (res, .Expired) => rfl

variable {req : DnsRequest}

/-- For a request that uses it, the cache layer looks up, asks and stores. -/
theorem cacheLayer_eq (next : Handler)
    (hUses : (ctx.serverOpts.noCache.getD false || ctx.noCache || req.isDnssec) = false) :
    cacheLayer next ctx req = (do
      Prog.perform (Op.consult ctx req)
      let cached ← lookupCache ctx req
      resume next ctx req cached) := by
  unfold cacheLayer
  rw [hUses]
  rfl

variable {next : Handler} {rest : List (Sigma Op.Resp)} {outcome : Outcome}

/-- A run that consults the store is not one that skips it. -/
theorem uses_of_consult
    (h : Prog.Yields (cacheLayer next ctx req) (⟨.consult ctx req, ()⟩ :: rest) outcome) :
    (ctx.serverOpts.noCache.getD false || ctx.noCache || req.isDnssec) = false := by
  cases hUses : (ctx.serverOpts.noCache.getD false || ctx.noCache || req.isDnssec) with
  | true =>
    unfold cacheLayer at h
    rw [hUses] at h
    cases h
  | false => rfl

/-- A run that starts at the store: what is left of it after the store's answer. -/
theorem yields_judge {reply : Option (DnsResponse × CacheStatus)}
    (hClient : ctx.serverOpts.isBackground = false)
    (h : Prog.Yields (cacheLayer next ctx req) (lookupTrace ctx req now reply ++ rest) outcome) :
    ∃ t₁ t₂ cached, rest = t₁ ++ t₂ ∧ Prog.Yields (judge ctx req reply) t₁ cached ∧
      Prog.Yields (resume next ctx req cached) t₂ outcome := by
  rw [cacheLayer_eq next (uses_of_consult h), lookupCache_eq req hClient] at h
  cases h with
  | call h =>
    cases h with
    | call h =>
      cases h with
      | call h => exact Prog.Yields.bind_inv _ h

/-- A refresh goes to the layers below without asking the store. -/
theorem yields_background (hBackground : ctx.serverOpts.isBackground = true)
    (h : Prog.Yields (cacheLayer next ctx req) (⟨.consult ctx req, ()⟩ :: rest) outcome) :
    Prog.Yields (resume next ctx req .absent) rest outcome := by
  have hAbsent : lookupCache ctx req = .done .absent := by
    unfold lookupCache
    rw [hBackground]
    rfl
  rw [cacheLayer_eq next (uses_of_consult h), hAbsent] at h
  cases h with
  | call h => exact h

/-- A run that ends with an answer of the layers below does not serve from the store. -/
theorem not_servesStored_of_last {t : List (Sigma Op.Resp)} {res : DnsResponse}
    (hLast : t.getLast? = some ⟨.answer ctx req res false, ()⟩) : ¬ ServesStored t outcome := by
  rintro ⟨ctx', req', res', hStored, -⟩
  rw [hLast] at hStored
  injection hStored with hEq
  injection hEq with hOp
  injection hOp with _ _ _ hFlag
  cases hFlag

/-- A run that ends after a failure without an answer has nothing to serve. -/
theorem not_servesStored_error {t : List (Sigma Op.Resp)} {err : DnsError} :
    ¬ ServesStored t (.error err, ctx) := by
  rintro ⟨_, _, _, -, hOk⟩
  cases hOk

variable {cached : Cached}

/-- Once the layers below have returned, the entry put aside is served exactly if they failed
and the failure stands for no negative answer. -/
theorem finishLookup_serves_iff (pre : List (Sigma Op.Resp)) {outcome' : Outcome}
    {tail : List (Sigma Op.Resp)} (hFresh : ∀ res, cached ≠ .fresh res)
    (h : Prog.Yields (finishLookup ctx req cached outcome) tail outcome') :
    ServesStored (pre ++ tail) outcome' ↔
      (∃ res, cached = .stale res) ∧
        ∃ err, outcome.1 = .error err ∧ negativeOf outcome.2 err req.query = none := by
  obtain ⟨result, ctx'⟩ := outcome
  cases result with
  | ok lookup =>
    obtain ⟨t₁, t₂, _, hTail, -, hAnswer⟩ := Prog.Yields.bind_inv _ h
    cases hAnswer with
    | call hDone =>
      cases hDone
      rw [hTail, ← List.append_assoc]
      constructor
      · intro hServes
        exact absurd hServes (not_servesStored_of_last List.getLast?_concat)
      · rintro ⟨-, err, hErr, -⟩
        cases hErr
  | error err =>
    obtain ⟨t₁, t₂, reply, hTail, hError, hDone⟩ := Prog.Yields.bind_inv _ h
    cases hDone
    subst hTail
    unfold storeError at hError
    have hNegative : (if !ctx'.noCache && ctx'.cfg.cacheNegative then
        negativeResponseFromError err req.query else none) = negativeOf ctx' err req.query := rfl
    rw [hNegative] at hError
    cases hFound : negativeOf ctx' err req.query with
    | some neg =>
      rw [hFound] at hError
      constructor
      · intro hServes
        cases hError with
        | call hError =>
          cases hError with
          | call hError =>
            cases hError with
            | call hError =>
              cases hError
              apply absurd hServes
              apply not_servesStored_of_last
              exact List.getLast?_append
      · rintro ⟨-, err', hErr, hNone⟩
        cases hErr
        rw [hFound] at hNone
        cases hNone
    | none =>
      rw [hFound] at hError
      cases cached with
      | fresh res => exact absurd rfl (hFresh res)
      | absent =>
        cases hError
        constructor
        · intro hServes
          exact absurd hServes not_servesStored_error
        · rintro ⟨⟨res, hRes⟩, -⟩
          cases hRes
      | stale res =>
        cases hError with
        | call hError =>
          cases hError
          constructor
          · intro _
            exact ⟨⟨res, rfl⟩, err, rfl, hFound⟩
          · intro _
            exact ⟨_, _, res, List.getLast?_concat, rfl⟩

/-- A resumed run that was not served at once: the layers below, then the rest. -/
theorem resume_serves_iff (pre : List (Sigma Op.Resp)) (hFresh : ∀ res, cached ≠ .fresh res)
    (h : Prog.Yields (resume next ctx req cached) rest outcome) :
    ServesStored (pre ++ rest) outcome ↔
      (∃ res, cached = .stale res) ∧ FallsBack next ctx req rest := by
  have hNext : Prog.Yields (next ctx req >>= finishLookup ctx req cached) rest outcome := by
    cases cached with
    | fresh res => exact absurd rfl (hFresh res)
    | stale | absent => exact h
  obtain ⟨inner, tail, ⟨result, ctx'⟩, hRest, hInner, hTail⟩ := Prog.Yields.bind_inv _ hNext
  rw [hRest, ← List.append_assoc, finishLookup_serves_iff _ hFresh hTail]
  apply and_congr_right
  intro _
  constructor
  · rintro ⟨err, hErr, hNone⟩
    cases hErr
    exact ⟨inner, tail, err, ctx', rfl, hInner, hNone⟩
  · rintro ⟨inner', tail', err, ctx'', hEq, hInner', hNone⟩
    obtain ⟨-, hSame⟩ := hInner.prefix_unique hInner' hEq
    cases hSame
    exact ⟨err, rfl, hNone⟩

/-- Serving a hit: the store's response is the answer. -/
theorem serveCached_serves {res : DnsResponse} {pre t₁ t₂ : List (Sigma Op.Resp)}
    (hHit : Prog.Yields (serveCached ctx req res) t₁ cached)
    (hRest : Prog.Yields (resume next ctx req cached) t₂ outcome) :
    ServesStored (pre ++ (t₁ ++ t₂)) outcome := by
  have hFresh : cached = .fresh res.markFromCache := by
    unfold serveCached at hHit
    dsimp only at hHit
    split at hHit
    · cases hHit with
      | call hHit =>
        cases hHit with
        | call hHit =>
          cases hHit
          rfl
    · cases hHit with
      | call hHit =>
        cases hHit
        rfl
  subst hFresh
  cases hRest with
  | call hRest =>
    cases hRest
    rw [← List.append_assoc]
    exact ⟨ctx, req, _, List.getLast?_concat, rfl⟩

/-- What the store answers for an entry past its deadline. -/
theorem get_expired_entry {env : CacheEnv} {cap : Nat} {c : DnsCache} (h : StoreInv env cap c)
    {query : Query} {p : Query × DnsCacheEntry} (hp : p ∈ c.entries) (hKey : (p.1 == query) = true)
    (hPast : p.2.validUntil < now) :
    ∃ res, (c.get env query now).2 = some (res, .Expired) ∧
      res.nameServerGroup = p.2.data.nameServerGroup := by
  have hCurrent : p.2.isCurrent now = false := by
    unfold DnsCacheEntry.isCurrent
    simpa using hPast
  refine ⟨(c.entryReply query now p.2).1, (get_eq_some h).mpr ⟨p, hp, hKey, ?_⟩, ?_⟩
  · rw [entryReply_eq, hCurrent]
    rfl
  · exact (entryReply_replays query now p.2).served.label

/-- Exactly when a run past an expired entry ends with that entry. -/
theorem serves_iff {env : CacheEnv} {cap : Nat} {c : DnsCache} (hStore : StoreInv env cap c)
    {p : Query × DnsCacheEntry} (hp : p ∈ c.entries) (hKey : (p.1 == req.query) = true)
    (hPast : p.2.validUntil < now)
    (hRun : Prog.Yields (cacheLayer next ctx req)
      (lookupTrace ctx req now (c.get env req.query now).2 ++ rest) outcome) :
    ServesStored (lookupTrace ctx req now (c.get env req.query now).2 ++ rest) outcome ↔
      Considered ctx p.2 ∧ (servesExpired ctx = false → FallsBack next ctx req rest) := by
  obtain ⟨res, hGet, hLabel⟩ := get_expired_entry hStore hp hKey hPast
  rw [hGet] at hRun ⊢
  cases hClient : ctx.serverOpts.isBackground with
  | true =>
    have hOther : ¬ Considered ctx p.2 := fun h => absurd (hClient.symm.trans h.1) (by decide)
    have hServed : ServesStored (lookupTrace ctx req now (some (res, .Expired)) ++ rest) outcome ↔
        (∃ res', Cached.absent = .stale res') ∧ FallsBack next ctx req _ :=
      resume_serves_iff [⟨.consult ctx req, ()⟩] (by simp) (yields_background hClient hRun)
    rw [hServed]
    simp [hOther]
  | false =>
    obtain ⟨t₁, t₂, cached, hRest, hJudge, hResume⟩ := yields_judge hClient hRun
    unfold judge at hJudge
    dsimp only at hJudge
    by_cases hOwn : res.nameServerGroup = some ctx.serverGroupName
    · rw [if_pos hOwn] at hJudge
      have hConsidered : Considered ctx p.2 := ⟨hClient, hLabel ▸ hOwn⟩
      cases hServes : servesExpired ctx with
      | true =>
        rw [hServes] at hJudge
        rw [hRest]
        simp only [serveCached_serves hJudge hResume, true_iff]
        exact ⟨hConsidered, fun hFalse => absurd hFalse (by decide)⟩
      | false =>
        rw [hServes] at hJudge
        cases hJudge
        rw [hRest, List.nil_append, resume_serves_iff _ (by simp) hResume]
        simp [hConsidered]
    · rw [if_neg hOwn] at hJudge
      cases hJudge
      rw [hRest, List.nil_append, resume_serves_iff _ (by simp) hResume]
      have hOther : ¬ Considered ctx p.2 := fun h => hOwn (hLabel.trans h.2)
      simp [hOther]

/--
A cache after any history holds an entry past its deadline for a request's
question, and the middleware runs on that request from the lookup at `t` to its
end. It keeps to the policy exactly if the entry is not one it looks at, or the
configuration and the rule allow to serve it and so do the listener and the age,
or they do not and the layers below do not fail.
-/
theorem stale_policy_iff (env : CacheEnv) (order : HeapOrder)
    (cacheSize expiredTtl expiredReplyTtl maxBytes : Nat) (es : List CacheEvent) (next : Handler)
    (ctx : DnsContext) (req : DnsRequest) (t : Nat) (p : Query × DnsCacheEntry)
    (rest : List (Sigma Op.Resp)) (outcome : Outcome)
    (hp : p ∈ (runEvents env order
      (DnsCache.new cacheSize expiredTtl expiredReplyTtl maxBytes) es).entries)
    (hKey : (p.1 == req.query) = true) (hPast : p.2.validUntil < t)
    (hRun : Prog.Yields (cacheLayer next ctx req) (lookupTrace ctx req t
      ((runEvents env order (DnsCache.new cacheSize expiredTtl expiredReplyTtl maxBytes) es).get
        env req.query t).2 ++ rest) outcome) :
    (ServesStored (lookupTrace ctx req t
        ((runEvents env order (DnsCache.new cacheSize expiredTtl expiredReplyTtl maxBytes) es).get
          env req.query t).2 ++ rest) outcome →
      StaleAllowed ctx expiredTtl t p.2) ↔
      StaleSafe next ctx req expiredTtl t p.2 rest := by
  have hInv := BudgetInv.new env cacheSize expiredTtl expiredReplyTtl maxBytes
  rw [serves_iff (runEvents_inv hInv es).store hp hKey hPast hRun, staleAllowed_iff]
  unfold StaleSafe
  cases servesExpired ctx with
  | true | false => simp

/-! ## Runs past one entry -/

/-- An address that is stored at the start, for five minutes. -/
def exampleHistory (expiredTtl : Nat) : DnsCache :=
  runEvents exampleEnv firstOrder (DnsCache.new 4 expiredTtl 3 0) [storedAnswer]

def exampleEntry : DnsCacheEntry :=
  DnsCacheEntry.new (entryData exampleQuery
    [(Record.fromRdata exampleName 300 exampleAddress, 300)] "default") (secs 300)

theorem mem_exampleHistory (expiredTtl : Nat) :
    (exampleQuery, exampleEntry) ∈ (exampleHistory expiredTtl).entries :=
  List.mem_singleton.mpr rfl

/-- The operations of the middleware at `t`, on a question for the address. -/
def exampleTrace (cfg : RuntimeConfig) (serverOpts : ServerOpts) (expiredTtl t : Nat)
    (rest : List (Sigma Op.Resp)) : List (Sigma Op.Resp) :=
  lookupTrace (DnsContext.new exampleName cfg serverOpts) (askFor exampleName .A exampleSource) t
    ((exampleHistory expiredTtl).get exampleEnv exampleQuery t).2 ++ rest

/-- A run of the middleware at `t`, on a question for the address. -/
def ExampleRun (cfg : RuntimeConfig) (serverOpts : ServerOpts) (expiredTtl t : Nat)
    (next : Handler) (rest : List (Sigma Op.Resp)) (outcome : Outcome) : Prop :=
  Prog.Yields
    (cacheLayer next (DnsContext.new exampleName cfg serverOpts)
      (askFor exampleName .A exampleSource))
    (exampleTrace cfg serverOpts expiredTtl t rest) outcome

/-- Ten seconds past its deadline, the entry is returned and may be. -/
theorem stale_policy_iff_exampleEntry :
    ∃ rest outcome,
      ExampleRun RuntimeConfig.default ServerOpts.default 60
        (secs 310) defaultHandler rest outcome ∧
      (ServesStored
          (exampleTrace RuntimeConfig.default ServerOpts.default 60 (secs 310) rest) outcome →
        StaleAllowed (DnsContext.new exampleName RuntimeConfig.default ServerOpts.default) 60
          (secs 310) exampleEntry) := by
  obtain ⟨rest, outcome, hRun⟩ : ∃ rest outcome, ExampleRun RuntimeConfig.default
      ServerOpts.default 60 (secs 310) defaultHandler rest outcome :=
    ⟨_, _, .call (.call (.call (.call (r := ()) (.call (r := ()) (.call (r := ())
      (.done _))))))⟩
  refine ⟨rest, outcome, hRun, (stale_policy_iff exampleEnv firstOrder 4 60 3 0 [storedAnswer]
    defaultHandler _ _ (secs 310) (exampleQuery, exampleEntry) rest outcome
    (mem_exampleHistory 60) (by decide +kernel) (by decide +kernel) hRun).mpr ?_⟩
  intro _
  exact ⟨rfl, fun _ => by decide +kernel⟩

/-- The middleware returns the entry at `t` although it may not. -/
def Violates (cfg : RuntimeConfig) (serverOpts : ServerOpts) (expiredTtl t : Nat)
    (next : Handler) : Prop :=
  (exampleQuery, exampleEntry) ∈ (exampleHistory expiredTtl).entries ∧
    exampleEntry.validUntil < t ∧ ∃ rest outcome,
    ExampleRun cfg serverOpts expiredTtl t next rest outcome ∧
    ServesStored (exampleTrace cfg serverOpts expiredTtl t rest) outcome ∧
    ¬ StaleAllowed (DnsContext.new exampleName cfg serverOpts) expiredTtl t exampleEntry

/--
A hit is served although the listener forbids it, and although it is older than
allowed; after a failure below, an entry is served although nothing is to be.
-/
theorem stale_policy_violated :
    Violates RuntimeConfig.default { ServerOpts.default with noServeExpired := some true } 0
        (secs 400) defaultHandler ∧
      Violates RuntimeConfig.default ServerOpts.default 60 (secs 400) defaultHandler ∧
      Violates { RuntimeConfig.default with serveExpired := false } ServerOpts.default 0 (secs 400)
        (settledChain (.error (.proto .timeout))) := by
  refine ⟨?_, ?_, ?_⟩
  · refine ⟨mem_exampleHistory _, by decide +kernel, _, _,
      .call (.call (.call (.call (r := ()) (.call (r := ()) (.call (r := ()) (.done _)))))),
      ⟨_, _, _, rfl, rfl⟩, ?_⟩
    intro h
    exact absurd h.listener.listener (by decide)
  · refine ⟨mem_exampleHistory _, by decide +kernel, _, _,
      .call (.call (.call (.call (r := ()) (.call (r := ()) (.call (r := ()) (.done _)))))),
      ⟨_, _, _, rfl, rfl⟩, ?_⟩
    intro h
    exact absurd (h.listener.age (by decide)) (by decide +kernel)
  · refine ⟨mem_exampleHistory _, by decide +kernel, _, _,
      .call (.call (.call (.call (r := ()) (.done _)))), ⟨_, _, _, rfl, rfl⟩, ?_⟩
    intro h
    exact absurd h.global (by decide)

end SmartDns.Ports.StalePolicy
