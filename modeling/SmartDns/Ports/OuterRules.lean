import SmartDns.Ports.ChainRules
import SmartDns.Ports.FileLayers

/-!
# Proof rules for the whole chain

Above the cache a middleware answers on its own or reworks an answer of the
rest of the chain. Neither touches the store, so a policy for the chain from
the cache down is a policy for every request the server takes. What the layers
do to the question of a response is followed as well: each of them returns a
response to the question it was asked, provided the layers below do.
-/

namespace SmartDns.Ports.OuterRules

open Verified DnsMessage DnsLookup RequestContext Middleware Upstream OuterChain AccessControl
open Process ServerRuns LookupRules ChainRules FileLayers

/-- A response carries the question of the request and no other. -/
def Echoes (strict : Prop) (req : DnsRequest) (r : DnsResponse) : Prop :=
  strict → r.message.queries = [req.query]

/-- A handler that meets its contract and answers the question it is asked. -/
def Spec (Φ : Query → DnsResponse → Origin → Prop)
    (P : DnsContext → DnsRequest → DnsResponse → Bool → Ghost → Prop)
    (E : Ghost → (o : Op) → Op.Resp o → Prop) (cfg : RuntimeConfig) (strict : Prop)
    (h : Handler) : Prop :=
  ∀ ctx req g, ctx.cfg = cfg →
    Sat (provenance Φ P E) (h ctx req) g (Answered cfg (Echoes strict req))

section Layers

variable {Φ : Query → DnsResponse → Origin → Prop}
  {P : DnsContext → DnsRequest → DnsResponse → Bool → Ghost → Prop}
  {E : Ghost → (o : Op) → Op.Resp o → Prop} {cfg : RuntimeConfig} {strict : Prop}
  {next : Handler} {ctx : DnsContext} {req : DnsRequest} {g : Ghost}

/-! ## Small steps -/

theorem answered_ok {r : DnsResponse} (hCfg : ctx.cfg = cfg) (hEchoes : Echoes strict req r) :
    Answered cfg (Echoes strict req) (.ok r, ctx) g := by
  refine ⟨hCfg, ?_⟩
  intro r' hr
  cases hr
  exact hEchoes

theorem answered_error {e : DnsError} (hCfg : ctx.cfg = cfg) :
    Answered cfg (Echoes strict req) (.error e, ctx) g := by
  refine ⟨hCfg, ?_⟩
  intro r hr
  cases hr

/-- Run the rest of the chain and rework its response. -/
theorem sat_reworked {f : DnsContext → DnsResponse → DnsResponse}
    (hNext : Spec Φ P E cfg strict next)
    (hCfg : ctx.cfg = cfg)
    (hf : ∀ ctx' r, r.message.queries = [req.query] → (f ctx' r).message.queries = [req.query]) :
    Sat (provenance Φ P E)
      (next ctx req >>= fun outcome => pure (outcome.1.map (f outcome.2), outcome.2)) g
      (Answered cfg (Echoes strict req)) := by
  refine Sat.seq (hNext ctx req g hCfg) ?_
  rintro ⟨res, ctx'⟩ g' ⟨hCfg', hEchoes⟩
  cases res with
  | error e => exact answered_error hCfg'
  | ok r => exact answered_ok hCfg' fun hStrict => hf ctx' r (hEchoes r rfl hStrict)

/-- Stripping aliases keeps the specification below. -/
theorem forceNoCnameLayer_spec (hNext : Spec Φ P E cfg strict next) :
    Spec Φ P E cfg strict (forceNoCnameLayer next) := by
  intro ctx req g hCfg
  refine Sat.seq (hNext ctx req g hCfg) ?_
  rintro ⟨res, ctx'⟩ g' ⟨hCfg', hEchoes⟩
  cases res with
  | error e => exact answered_error hCfg'
  | ok r =>
    dsimp only
    split
    · exact answered_ok hCfg' (hEchoes r rfl)
    · exact answered_ok hCfg' (hEchoes r rfl)

/-- The alias is asked for, but the response is given the question of the request. -/
theorem cnameLayer_spec (hNext : Spec Φ P E cfg strict next) :
    Spec Φ P E cfg strict (cnameLayer next) := by
  intro ctx req g hCfg
  unfold cnameLayer
  split
  · exact hNext ctx req g hCfg
  · split
    · exact answered_ok hCfg fun _ => rfl
    · refine Sat.seq (hNext _ _ g hCfg) ?_
      rintro ⟨res, ctx'⟩ g' -
      cases res with
      | error e => exact answered_error hCfg
      | ok r => exact answered_ok hCfg fun _ => rfl

/-- The DNS64 layer keeps the specification below. -/
theorem dns64Layer_spec (net : IpNetwork.Cidr 128) (hNext : Spec Φ P E cfg strict next) :
    Spec Φ P E cfg strict (dns64Layer net next) := by
  intro ctx req g hCfg
  unfold dns64Layer
  split
  · exact hNext ctx req g hCfg
  · rename_i hType
    have hAaaa : req.query.queryType = .AAAA := by simpa using hType
    refine Sat.seq (hNext ctx req g hCfg) ?_
    rintro ⟨res, ctx'⟩ g' ⟨hCfg', hEchoes⟩
    cases res with
    | ok r => exact answered_ok hCfg' (hEchoes r rfl)
    | error err =>
      refine Sat.seq (hNext ctx' _ g' hCfg') ?_
      rintro ⟨res', ctx''⟩ g'' ⟨hCfg'', hEchoes'⟩
      cases res' with
      | error e => exact answered_error hCfg''
      | ok r =>
        refine answered_ok hCfg'' ?_
        intro hStrict
        have hAsked : r.message.queries = [{ req.query with queryType := .A }] :=
          hEchoes' r rfl hStrict
        rw [hAsked, ← hAaaa]
        rfl

theorem reworkReply_queries {queryType : RecordType} {r : DnsResponse}
    (h : r.message.queries = [req.query]) :
    (reworkReply ctx queryType r).message.queries = [req.query] := by
  have hQuery : r.query = req.query := by
    rw [DnsResponse.query, h]
    rfl
  unfold reworkReply
  dsimp only
  split
  · rw [hQuery]
    rfl
  · exact h

/-- The address layer keeps the specification below. -/
theorem addressLayer_spec (hNext : Spec Φ P E cfg strict next) :
    Spec Φ P E cfg strict (addressLayer next) := by
  intro ctx req g hCfg
  unfold addressLayer
  split
  · exact answered_ok hCfg fun _ => rfl
  · exact sat_reworked (f := fun ctx' => reworkReply ctx' req.query.queryType) hNext hCfg
      fun _ _ h => reworkReply_queries h

/-! ## Answers of the host -/

theorem consults_spec {C : Prop} {p : Handler → Async Outcome} (h : Consults ctx req C p)
    (hNext : Spec Φ P E cfg strict next) (hCfg : ctx.cfg = cfg) :
    Sat (provenance Φ P E) (p next) g (Answered cfg (Echoes strict req)) := by
  induction h with
  | answer hQuestion _ => exact answered_ok hCfg fun _ => hQuestion
  | rest => exact hNext ctx req g hCfg
  | filtered noIpv4Hint noIpv6Hint =>
    exact sat_reworked (f := fun _ r => r.mapAnswers (filterHints noIpv4Hint noIpv6Hint))
      hNext hCfg fun _ _ h => h
  | ask hSilent _ ih => exact sat_silent hSilent fun r _ => ih r

/-! ## The whole chain -/

/-- Every outer layer keeps the specification below. -/
theorem outerLayers_spec {cfg' : RuntimeConfig} {l : Layer} (hLayer : l ∈ outerLayers cfg')
    {next : Handler} (hNext : Spec Φ P E cfg strict next) : Spec Φ P E cfg strict (l next) := by
  have hSplit : outerLayers cfg' = (if cfg'.forceNoCname then [forceNoCnameLayer] else []) ++
      ((if cfg'.hasCnames then [cnameLayer] else []) ++ ((cfg'.dns64Prefix.map dns64Layer).toList ++
        ([addressLayer] ++ fileLayers cfg'))) := by
    simp [outerLayers, fileLayers]
  simp only [hSplit, List.mem_append] at hLayer
  rcases hLayer with h | h | h | h | h
  · rw [eq_of_mem_optional h]
    exact forceNoCnameLayer_spec hNext
  · rw [eq_of_mem_optional h]
    exact cnameLayer_spec hNext
  · obtain ⟨net, -, hEq⟩ := Option.map_eq_some_iff.mp (Option.mem_toList.mp h)
    rw [← hEq]
    exact dns64Layer_spec net hNext
  · rw [List.mem_singleton.mp h]
    exact addressLayer_spec hNext
  · exact fun ctx req g => consults_spec (fileLayers_consults h ctx req) hNext

/-- The chain of a configuration, given a policy for every request that reaches the cache. -/
theorem buildMiddleware_spec {client : DnsClient}
    (hPolicy : ∀ ctx req, ctx.cfg = cfg →
      ∃ Good, StorePolicy Φ P E client Good (Echoes strict req) ctx req) :
    Spec Φ P (realistic E) cfg strict (buildMiddleware cfg client) := by
  refine execute_append ?_ (outerLayers cfg) fun l hl next hNext => outerLayers_spec hl hNext
  intro ctx req g hCfg
  obtain ⟨Good, hStore⟩ := hPolicy ctx req hCfg
  have hSat := storeChain_sat hStore g
  rw [hCfg] at hSat
  exact hSat

/-! ## Replies -/

/-- The reply has the identifier of the message and its question, unchanged. -/
def Corresponds (incoming : Incoming) (reply : Message) : Prop :=
  ∀ req, incoming = .ok req → StandardQuery req → req.message.queries = [req.query] →
    reply.header.id = req.message.header.id ∧ reply.queries = req.message.queries

/-- The message sent carries the id and the question of the request. -/
theorem respond_corresponds (req : DnsRequest) {res : Except DnsError DnsResponse}
    (hRes : ∀ r, res = .ok r → r.message.queries = [req.query]) :
    (respond req res).1.header.id = req.message.header.id ∧
      (respond req res).1.queries = [req.query] := by
  refine ⟨rfl, ?_⟩
  cases res with
  | ok r => exact hRes r rfl
  | error e =>
    show (settle req (.error e)).1.message.queries = _
    unfold settle
    dsimp only
    split
    · rename_i soa hSoa
      exact (DnsError.asSoa_spec hSoa).1
    · split <;> rfl

variable {host : Handler}

theorem search_sat (hHost : Spec Φ P E cfg strict host) (serverOpts : ServerOpts) (req : DnsRequest)
    (g : Ghost) :
    Sat (provenance Φ P E) (search cfg host serverOpts req) g
      (fun res _ => ∀ r, res = .ok r → Echoes strict req r) := by
  unfold search
  dsimp only
  split
  · intro r hr
    cases hr
  · refine Sat.seq (hHost _ req g rfl) ?_
    intro outcome g' hAnswered
    exact hAnswered.2

/-- Processing a message answers it as the chain does. -/
theorem process_sat (hHost : Spec Φ P E cfg strict host) (incoming : Incoming)
    (serverOpts : ServerOpts) (g : Ghost) :
    Sat (provenance Φ P E) (process cfg host incoming serverOpts) g
      (fun reply _ => strict → Corresponds incoming reply.1) := by
  match incoming with
  | .error (.formError _) => exact fun _ _ hReq => absurd hReq (by simp)
  | .error .other => exact fun _ _ hReq => absurd hReq (by simp)
  | .ok req =>
    by_cases hStandard : StandardQuery req
    · rw [process_standard cfg host serverOpts hStandard]
      refine Sat.seq (search_sat hHost serverOpts req g) ?_
      intro res g' hRes hStrict req' hEq _ hSingle
      cases hEq
      obtain ⟨hId, hQueries⟩ := respond_corresponds req fun r hr => hRes r hr hStrict
      exact ⟨hId, hQueries.trans hSingle.symm⟩
    · have hVacuous : ∀ reply : Message, strict → Corresponds (.ok req) reply := by
        intro reply _ req' hEq hStandard'
        cases hEq
        exact absurd hStandard' hStandard
      unfold process
      dsimp only
      split
      · rename_i hType
        split
        · rename_i hOp
          exact absurd ⟨hType, hOp⟩ hStandard
        · exact hVacuous _
      · exact hVacuous _

/-- A request from the handle to its reply; the reply corresponds to the request unless the
request was lost on the way. -/
theorem send_sat (hHost : Spec Φ P E cfg strict host)
    (hDispatch : strict → ∀ g freshId, ¬ E g .dispatch (.dropped freshId)) (incoming : Incoming)
    (serverOpts : ServerOpts) (g : Ghost) :
    Sat (provenance Φ P E) (send cfg host incoming serverOpts) g
      (fun reply _ => strict → Corresponds incoming reply) := by
  refine sat_silent rfl ?_
  intro dispatch hE
  cases dispatch with
  | processed =>
    refine Sat.seq (process_sat hHost incoming serverOpts g) ?_
    intro reply g' hReply
    exact hReply
  | refused =>
    intro _ req hEq _ _
    subst hEq
    exact ⟨rfl, rfl⟩
  | dropped freshId =>
    intro hStrict
    exact absurd hE (hDispatch hStrict g freshId)

/-- In every run whose environment answers as `E` says, all that is stored has its origin,
and every request in flight meets its contract. -/
theorem chain_invariant (strict : Prop) {client : DnsClient} {env : CacheStore.CacheEnv}
    (hPolicy : ∀ ctx req, ctx.cfg = cfg →
      ∃ Good, StorePolicy Φ P E client Good (Echoes strict req) ctx req)
    (hDispatch : strict → ∀ g freshId, ¬ E g .dispatch (.dropped freshId))
    {cacheSize expiredTtl expiredReplyTtl maxBytes : Nat} {es : List ServerEvent}
    {p : ServerPool}
    (hMeet : StepsMeet (server cfg client env).step
      (System.Meets (fun _ => True) (EnvMeets E env))
      ⟨World.init cacheSize expiredTtl expiredReplyTtl maxBytes, []⟩ es)
    (hRun : runTrace (server cfg client env).step
      ⟨World.init cacheSize expiredTtl expiredReplyTtl maxBytes, []⟩ es = some p) :
    System.Inv (provenance Φ P (realistic E)) (WorldInv Φ env)
      (fun a reply _ => strict → Corresponds a.incoming reply) p := by
  have hSend : ∀ a : Arrival, Sat (provenance Φ P (realistic E))
      (send cfg (buildMiddleware cfg client) a.incoming a.serverOpts) Ghost.init
      (fun reply _ => strict → Corresponds a.incoming reply) := fun a =>
    send_sat (buildMiddleware_spec hPolicy) (fun hStrict g freshId hE =>
      hDispatch hStrict g freshId hE.1) a.incoming a.serverOpts Ghost.init
  refine System.invariant (fun a _ => hSend a) ?_
    (WorldInv.init cacheSize expiredTtl expiredReplyTtl maxBytes) hMeet hRun
  intro w g o e r w' g' hInv hPre hEnv hExec
  refine exec_sound hInv hPre ?_ hExec
  intro r w' g' hExec
  exact ⟨hEnv r w' g' hExec, fun hBelow => BelowCache.possible_of_exec hBelow hExec⟩

end Layers

end SmartDns.Ports.OuterRules
