import SmartDns.Ports.StalePolicy

/-!
# Response codes

The header of a reply is built from the request's header, and the only codes
written into it are those of `ResponseCode` errors. A response that the chain
returns loses its own code, and `NXDOMAIN` inside a negative upstream answer is
never read. On the way up the cache makes matters worse: with negative caching
an error that stands for a negative answer becomes a response, and a response
is answered `NOERROR`, now and whenever the cache replays it.
-/

namespace SmartDns.Ports.ResponseCodes

open Verified DnsMessage DnsLookup RequestContext Middleware AccessControl Process InnerChain
open CacheStore StalePolicy

/-! ## From the outcome to the reply -/

/-- The response code an outcome stands for, where it stands for one. -/
def outcomeCode : Except DnsError DnsResponse → Option ResponseCode
  | .ok resp => some resp.responseCode
  | .error (.responseCode code) => some code
  | .error (.proto (.noRecordsFound ⟨_, _, .NXDomain⟩)) => some .NXDomain
  | .error _ => none

/-- The outcomes whose code survives: `NOERROR` responses, and errors that are not a
negative upstream answer for a name that does not exist. -/
def CodeSurvives : Except DnsError DnsResponse → Prop
  | .ok resp => resp.responseCode = .NoError
  | .error (.proto (.noRecordsFound noRecords)) => noRecords.responseCode ≠ .NXDomain
  | .error _ => True

/-- A negative upstream answer is answered `NOERROR` with its authority, else `SERVFAIL`. -/
theorem settle_noRecordsFound (req : DnsRequest) (noRecords : NoRecords) :
    (settle req (.error (.proto (.noRecordsFound noRecords)))).2.1 =
      if noRecords.soa.isSome then .NoError else .ServFail := by
  obtain ⟨query, soa, code⟩ := noRecords
  cases soa with
  | none | some => rfl

theorem settle_noRecordsFound_ne (req : DnsRequest) (noRecords : NoRecords) :
    (settle req (.error (.proto (.noRecordsFound noRecords)))).2.1 ≠ .NXDomain := by
  rw [settle_noRecordsFound]
  split <;> decide

theorem outcomeCode_noRecordsFound (noRecords : NoRecords) :
    outcomeCode (.error (.proto (.noRecordsFound noRecords))) =
      if noRecords.responseCode = .NXDomain then some .NXDomain else none := by
  obtain ⟨query, soa, code⟩ := noRecords
  cases code <;> rfl

/-- Without a code of its own an outcome has nothing to lose. -/
private theorem code_vacuous {req : DnsRequest} {res : Except DnsError DnsResponse}
    (hNone : outcomeCode res = none) (hSurvives : CodeSurvives res) :
    (∀ code, outcomeCode res = some code → (respond req res).1.responseCode = code) ↔
      CodeSurvives res := by
  refine ⟨fun _ => hSurvives, ?_⟩
  intro _ code hCode
  rw [hNone] at hCode
  cases hCode

/-- What `respond` does to the code of an outcome. -/
theorem respond_code_iff (req : DnsRequest) (res : Except DnsError DnsResponse) :
    (∀ code, outcomeCode res = some code → (respond req res).1.responseCode = code) ↔
      CodeSurvives res := by
  match res with
  | .ok resp =>
    have hNoError : (respond req (.ok resp)).1.responseCode = .NoError := rfl
    constructor
    · intro h
      exact (h resp.responseCode rfl).symm
    · intro h code hCode
      rw [← Option.some.inj hCode]
      exact h.symm
  | .error (.responseCode c) =>
    refine ⟨fun _ => trivial, ?_⟩
    intro _ code hCode
    exact Option.some.inj hCode
  | .error (.proto (.noRecordsFound noRecords)) =>
    rw [outcomeCode_noRecordsFound]
    constructor
    · intro h hNx
      exact settle_noRecordsFound_ne req noRecords (h .NXDomain (by rw [if_pos hNx]))
    · intro h code hCode
      rw [if_neg h] at hCode
      cases hCode
  | .error .nameExists => exact code_vacuous rfl trivial
  | .error (.io _) => exact code_vacuous rfl trivial
  | .error (.proto .noConnections) => exact code_vacuous rfl trivial
  | .error (.proto .timeout) => exact code_vacuous rfl trivial
  | .error (.proto (.other _)) => exact code_vacuous rfl trivial

/-- The client is told `NXDOMAIN` by one outcome only. -/
theorem respond_nxDomain_iff (req : DnsRequest) (res : Except DnsError DnsResponse) :
    (respond req res).1.responseCode = .NXDomain ↔ res = .error (.responseCode .NXDomain) := by
  constructor
  · intro h
    match res with
    | .ok resp => cases h
    | .error (.responseCode c) =>
      have hCode : c = .NXDomain := h
      rw [hCode]
    | .error (.proto (.noRecordsFound noRecords)) =>
      exact absurd h (settle_noRecordsFound_ne req noRecords)
    | .error .nameExists => cases h
    | .error (.io _) => cases h
    | .error (.proto .noConnections) => cases h
    | .error (.proto .timeout) => cases h
    | .error (.proto (.other _)) => cases h
  · rintro rfl
    rfl

/-! ## From the layers below the cache to the outcome -/

section Cache

variable {below : Handler} {ctx : DnsContext} {req : DnsRequest} {t : List (Sigma Op.Resp)}
variable {cached : Option Cached} {outcome final : Outcome}

/-- In this run of the cache layer the layers below it returned `outcome`; the store was passed
by, or consulted and found to have `cached`. -/
inductive Asked (below : Handler) (ctx : DnsContext) (req : DnsRequest) :
    List (Sigma Op.Resp) → Option Cached → Outcome → Prop where
  | passed {t rest : List (Sigma Op.Resp)} {outcome : Outcome}
      (hBelow : Prog.Yields (below ctx req) t outcome) :
      Asked below ctx req (⟨.bypass ctx req, ()⟩ :: (t ++ rest)) none outcome
  | consulted {t t' rest : List (Sigma Op.Resp)} {cached : Cached} {outcome : Outcome}
      (hLookup : Prog.Yields (lookupCache ctx req) t cached)
      (hMiss : ∀ res, cached ≠ .fresh res) (hBelow : Prog.Yields (below ctx req) t' outcome) :
      Asked below ctx req (⟨.consult ctx req, ()⟩ :: (t ++ (t' ++ rest))) (some cached) outcome

/-- In this run the store answers. -/
def Stored (ctx : DnsContext) (req : DnsRequest) (t : List (Sigma Op.Resp)) : Prop :=
  ∃ found rest res, t = ⟨.consult ctx req, ()⟩ :: (found ++ rest) ∧
    Prog.Yields (lookupCache ctx req) found (.fresh res)

/-- A failure that stands for a negative answer is turned into a response: the answer is cached,
or an entry past its deadline had been put aside. -/
def Replaced (cached : Option Cached) (ctx : DnsContext) : Prop :=
  cached.isSome = true ∧ ctx.noCache = false ∧ ctx.cfg.cacheNegative = true ∨
    ∃ res, cached = some (.stale res)

theorem passBy_result (h : Prog.Yields (passBy below ctx req) t final)
    (hAsked : Asked below ctx req t cached outcome) : cached = none ∧ final.1 = outcome.1 := by
  cases hAsked with
  | consulted => cases h
  | passed hBelow =>
    cases h with
    | call h =>
      obtain ⟨_, _, outcome', hEq, hRun, hRest⟩ := Prog.Yields.bind_inv (below ctx req) h
      obtain ⟨-, hSame⟩ := hBelow.prefix_unique hRun hEq
      subst hSame
      obtain ⟨result, ctx'⟩ := outcome
      cases result with
      | error =>
        cases hRest
        exact ⟨rfl, rfl⟩
      | ok =>
        cases hRest with
        | call hRest =>
          cases hRest
          exact ⟨rfl, rfl⟩

/-- What the cache returns for a failure of the layers below. -/
theorem storeError_result {err : DnsError} {cached : Cached} {lookup : Upstream.Lookup}
    (hMiss : ∀ res, cached ≠ .fresh res)
    (h : Prog.Yields (storeError ctx req err cached) t lookup) :
    lookup = .error err ∧ negativeOf ctx err req.query = none ∧ (∀ res, cached ≠ .stale res) ∨
      (∃ res, lookup = .ok res) ∧
        (negativeOf ctx err req.query ≠ none ∨ ∃ res, cached = .stale res) := by
  unfold storeError at h
  have hNegative : (if !ctx.noCache && ctx.cfg.cacheNegative then
      negativeResponseFromError err req.query else none) = negativeOf ctx err req.query := rfl
  rw [hNegative] at h
  cases hFound : negativeOf ctx err req.query with
  | some neg =>
    rw [hFound] at h
    cases h with
    | call h =>
      cases h with
      | call h =>
        cases h with
        | call h =>
          cases h
          simp
  | none =>
    rw [hFound] at h
    cases cached with
    | fresh res => exact absurd rfl (hMiss res)
    | absent =>
      cases h
      simp
    | stale res =>
      cases h with
      | call h =>
        cases h
        simp

theorem negativeOf_nxDomain (query : Query) :
    negativeOf ctx (.responseCode .NXDomain) query = none ↔
      ¬ (ctx.noCache = false ∧ ctx.cfg.cacheNegative = true) := by
  unfold negativeOf
  cases ctx.noCache <;> cases ctx.cfg.cacheNegative <;>
    simp [negativeResponseFromError, DnsError.isNxDomain]

/-- Of all failures below it, the cache layer passes on an explicit `NXDOMAIN` only, and that
only if it is not replaced. -/
theorem cacheLayer_nxDomain_iff (h : Prog.Yields (cacheLayer below ctx req) t final)
    (hAsked : Asked below ctx req t cached outcome) :
    final.1 = .error (.responseCode .NXDomain) ↔
      outcome.1 = .error (.responseCode .NXDomain) ∧ ¬ Replaced cached outcome.2 := by
  unfold cacheLayer at h
  split at h
  · obtain ⟨hCached, hSame⟩ := passBy_result h hAsked
    rw [hSame, hCached]
    simp [Replaced]
  · cases hAsked with
    | passed => cases h
    | @consulted t₁ t₂ _ cached _ hLookup hMiss hBelow =>
      cases h with
      | call h =>
        obtain ⟨u₁, u₂, cached', hEq, hFound, hRest⟩ :=
          Prog.Yields.bind_inv (lookupCache ctx req) h
        obtain ⟨hSplit, hSame⟩ := hLookup.prefix_unique hFound hEq
        subst hSplit hSame
        rw [List.append_cancel_left_eq] at hEq
        have hNext : Prog.Yields (below ctx req >>= finishLookup ctx req cached) u₂ final := by
          cases cached with
          | fresh res => exact absurd rfl (hMiss res)
          | stale | absent => exact hRest
        obtain ⟨v₁, v₂, outcome', hEq', hRun, hFinish⟩ := Prog.Yields.bind_inv _ hNext
        obtain ⟨-, hSame⟩ := hBelow.prefix_unique hRun (hEq.trans hEq')
        subst hSame
        obtain ⟨result, ctx'⟩ := outcome
        cases result with
        | ok lookup =>
          obtain ⟨_, _, _, -, -, hAnswer⟩ := Prog.Yields.bind_inv _ hFinish
          cases hAnswer with
          | call hDone =>
            cases hDone
            simp
        | error err =>
          obtain ⟨_, _, lookup, -, hError, hDone⟩ := Prog.Yields.bind_inv _ hFinish
          cases hDone
          rcases storeError_result hMiss hError with
            ⟨rfl, hNone, hStale⟩ | ⟨⟨res, rfl⟩, hReplaced⟩
          · refine ⟨?_, And.left⟩
            intro hErr
            refine ⟨hErr, ?_⟩
            cases hErr
            rintro (⟨-, hBoth⟩ | ⟨res, hEntry⟩)
            · exact (negativeOf_nxDomain req.query).mp hNone hBoth
            · exact hStale res (Option.some.inj hEntry)
          · refine ⟨nofun, ?_⟩
            rintro ⟨hErr, hKept⟩
            cases hErr
            rcases hReplaced with hSome | ⟨res, rfl⟩
            · refine absurd ((negativeOf_nxDomain req.query).mpr ?_) hSome
              exact fun hBoth => hKept (.inl ⟨rfl, hBoth⟩)
            · exact absurd (.inr ⟨res, rfl⟩) hKept

/-- What the store answers is a response. -/
theorem cacheLayer_stored (h : Prog.Yields (cacheLayer below ctx req) t final)
    (hStored : Stored ctx req t) : ∃ res, final.1 = .ok res := by
  obtain ⟨found, rest, res, rfl, hLookup⟩ := hStored
  rw [cacheLayer_eq below (uses_of_consult h)] at h
  cases h with
  | call h =>
    obtain ⟨_, _, _, hEq, hFound, hRest⟩ := Prog.Yields.bind_inv (lookupCache ctx req) h
    obtain ⟨-, hSame⟩ := hLookup.prefix_unique hFound hEq
    subst hSame
    cases hRest with
    | call hRest =>
      cases hRest
      exact ⟨res, rfl⟩

end Cache

/-- In every resolution of a standard query the reply carries the response code of the chain's
outcome exactly if the outcome is one whose code survives. Where the chain hands on what the
cache layer returns, the client is told `NXDOMAIN` exactly if the layers below say so by an
explicit error that the cache does not replace: never for a negative upstream answer, and never
for what the store answers, which goes out as `NOERROR`. -/
theorem response_code_kept_iff (cfg : RuntimeConfig) (host : Handler) (serverOpts : ServerOpts)
    (req : DnsRequest) (hStandard : StandardQuery req) (t : List (Sigma Op.Resp))
    (res : Except DnsError DnsResponse) (reply : Message × Bool)
    (hOutcome : Prog.Yields (search cfg host serverOpts req) t res)
    (hReply : Prog.Yields (process cfg host (.ok req) serverOpts) t reply) :
    ((∀ code, outcomeCode res = some code → reply.1.responseCode = code) ↔ CodeSurvives res) ∧
    ∀ below ctx req' t' ctx', Prog.Yields (cacheLayer below ctx req') t' (res, ctx') →
      (∀ cached outcome, Asked below ctx req' t' cached outcome →
        (reply.1.responseCode = .NXDomain ↔
          outcome.1 = .error (.responseCode .NXDomain) ∧ ¬ Replaced cached outcome.2)) ∧
      (Stored ctx req' t' → reply.1.responseCode = .NoError) := by
  rw [process_standard cfg host serverOpts hStandard] at hReply
  rw [← (hOutcome.map (respond req)).unique hReply]
  refine ⟨respond_code_iff req res, ?_⟩
  intro below ctx req' t' ctx' hRun
  constructor
  · intro cached outcome hAsked
    rw [respond_nxDomain_iff]
    exact cacheLayer_nxDomain_iff hRun hAsked
  · intro hStored
    obtain ⟨resp, hResp⟩ := cacheLayer_stored hRun hStored
    rw [show res = .ok resp from hResp]
    rfl

/-! ## A name that does not exist -/

def exampleAsk : DnsRequest := exampleRequest insider none

/-- The context in which the chain gets it. -/
def askContext (cfg : RuntimeConfig) : DnsContext :=
  DnsContext.new exampleAsk.lowerName cfg { ServerOpts.default with ruleGroup := none }

def withoutNegatives : RuntimeConfig := { RuntimeConfig.default with cacheNegative := false }

/-- The upstream's word that `example.com` does not exist, with the authority's record. -/
def nxDomainError : DnsError :=
  .proto (.noRecordsFound
    ⟨exampleAsk.query, some ⟨exampleAsk.query.name, 900, .IN, defaultSoa⟩, .NXDomain⟩)

/-- The same as the response the negative cache keeps for an explicit `NXDOMAIN`. -/
def nxDomainResponse : DnsResponse :=
  { DnsResponse.newWithMaxTtl exampleAsk.query [] with
    message := (DnsResponse.newWithMaxTtl exampleAsk.query []).message.setResponseCode .NXDomain }

/-- The store's answer for it, under the label of the request. -/
def storedNxDomain : DnsResponse := nxDomainResponse.withNameServerGroup "default"

/-- What the cache layer does before the layers below it, or the store, has a say. -/
def lookedUp (found : Option (DnsResponse × CacheStatus)) : List (Sigma Op.Resp) :=
  [⟨.now, (0 : Nat)⟩, ⟨.cacheGet exampleAsk.query 0, found⟩]

/-- A chain that is nothing but the cache over a settled outcome. -/
def cachedChain (res : Except DnsError DnsResponse) : Handler := cacheLayer (settledChain res)

/-- A run of the chain is one of `search` and of `process`, where nothing is refused. -/
theorem process_of_chain {cfg : RuntimeConfig} {host : Handler} {t : List (Sigma Op.Resp)}
    {outcome : Outcome}
    (hSearch : search cfg host ServerOpts.default exampleAsk =
      (host (askContext cfg) exampleAsk >>= fun outcome => pure outcome.1))
    (hRun : Prog.Yields (host (askContext cfg) exampleAsk) t outcome) :
    Prog.Yields (search cfg host ServerOpts.default exampleAsk) t outcome.1 ∧
      Prog.Yields (process cfg host (.ok exampleAsk) ServerOpts.default) t
        (respond exampleAsk outcome.1) := by
  have hOutcome := hRun.map Prod.fst
  rw [process_standard cfg host _ ⟨rfl, rfl⟩, hSearch]
  exact ⟨hOutcome, hOutcome.map (respond exampleAsk)⟩

/-- Without negative caching an explicit `NXDOMAIN` arrives. From the store it does not. -/
theorem response_code_kept_iff_withoutNegatives :
    (∃ t reply, Prog.Yields (process withoutNegatives
          (cachedChain (.error (.responseCode .NXDomain))) (.ok exampleAsk) ServerOpts.default)
        t reply ∧ reply.1.responseCode = .NXDomain) ∧
    ∃ t reply, Prog.Yields (process RuntimeConfig.default
          (cachedChain (.error (.responseCode .NXDomain))) (.ok exampleAsk) ServerOpts.default)
        (⟨.consult (askContext RuntimeConfig.default) exampleAsk, ()⟩ ::
          (lookedUp (some (storedNxDomain, .Valid)) ++ t)) reply ∧
        reply.1.responseCode = .NoError := by
  constructor
  · have hRun : Prog.Yields (cachedChain (.error (.responseCode .NXDomain))
        (askContext withoutNegatives) exampleAsk)
        (⟨.consult (askContext withoutNegatives) exampleAsk, ()⟩ :: (lookedUp none ++ ([] ++ [])))
        (.error (.responseCode .NXDomain), askContext withoutNegatives) :=
      .call (.call (.call (.done _)))
    have hLookup : Prog.Yields (lookupCache (askContext withoutNegatives) exampleAsk)
        (lookedUp none) .absent := .call (.call (.done _))
    have hBelow : Prog.Yields (settledChain (.error (.responseCode .NXDomain))
        (askContext withoutNegatives) exampleAsk) [] _ := .done _
    have hMiss : ∀ res, Cached.absent ≠ .fresh res := by
      intro res h
      cases h
    obtain ⟨hOutcome, hReply⟩ := process_of_chain rfl hRun
    refine ⟨_, _, hReply, ((response_code_kept_iff withoutNegatives _ ServerOpts.default exampleAsk
      ⟨rfl, rfl⟩ _ _ _ hOutcome hReply).2 _ _ _ _ _ hRun).1 _ _
      (.consulted hLookup hMiss hBelow) |>.mpr ⟨rfl, ?_⟩⟩
    rintro (⟨-, -, hNegative⟩ | ⟨res, hStale⟩)
    · cases hNegative
    · cases hStale
  · obtain ⟨found, rest, res, hRun, hFound⟩ : ∃ found rest res,
        Prog.Yields (cachedChain (.error (.responseCode .NXDomain))
          (askContext RuntimeConfig.default) exampleAsk)
          (⟨.consult (askContext RuntimeConfig.default) exampleAsk, ()⟩ ::
            (lookedUp (some (storedNxDomain, .Valid)) ++ (found ++ rest)))
          (.ok res, askContext RuntimeConfig.default) ∧
        Prog.Yields (lookupCache (askContext RuntimeConfig.default) exampleAsk)
          (lookedUp (some (storedNxDomain, .Valid)) ++ found) (.fresh res) :=
      ⟨[⟨.queryHit, ()⟩], [⟨.answer _ _ _ _, ()⟩], _,
        .call (.call (.call (.call (.call (.done _))))), .call (.call (.call (.done _)))⟩
    obtain ⟨hOutcome, hReply⟩ := process_of_chain rfl hRun
    refine ⟨_, _, hReply, ((response_code_kept_iff RuntimeConfig.default _ ServerOpts.default
      exampleAsk ⟨rfl, rfl⟩ _ _ _ hOutcome hReply).2 _ _ _ _ _ hRun).2 ⟨_, rest, res, ?_, hFound⟩⟩
    rw [List.append_assoc]

/-- A name that does not exist is answered `NOERROR`, be it an error or a response, and with the
cache in between. -/
theorem response_code_lost :
    ∃ reply reply' : Message × Bool,
      process RuntimeConfig.default (settledChain (.error nxDomainError)) (.ok exampleAsk)
          ServerOpts.default = .done reply ∧
        reply.1.responseCode = .NoError ∧
      process RuntimeConfig.default (settledChain (.ok nxDomainResponse)) (.ok exampleAsk)
          ServerOpts.default = .done reply' ∧
        nxDomainResponse.responseCode = .NXDomain ∧ reply'.1.responseCode = .NoError ∧
      ∃ rest reply, Prog.Yields (process RuntimeConfig.default
          (cachedChain (.error nxDomainError)) (.ok exampleAsk) ServerOpts.default)
          (⟨.consult (askContext RuntimeConfig.default) exampleAsk, ()⟩ ::
            (lookedUp none ++ rest)) reply ∧
        reply.1.responseCode = .NoError :=
  ⟨_, _, rfl, rfl, rfl, rfl, rfl, _, _, .call (.call (.call (.call (r := (0 : Nat))
    (.call (r := ()) (.call (r := ()) (.done _)))))), rfl⟩

end SmartDns.Ports.ResponseCodes
