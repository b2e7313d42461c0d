import SmartDns.Ports.OuterRules

/-!
# Dual-stack selection and the listeners that refuse it

When dual-stack selection decides against an address family, the cache stores
the resulting failure as a negative answer. The store does not record whose
selection it was, so the answer is also given to requests from listeners with
`no-dualstack-selection`.

What remains true is that the mark of selection does not travel between
questions: as long as no question is put to the cache, under one group label,
both by a request with selection in force and by a request from such a
listener, the latter is never answered from a suppressed entry.
-/

namespace SmartDns.Ports.DualStackIsolation

open Verified DnsMessage DnsLookup RequestContext Middleware CacheStore Upstream InnerChain
open ServerRuns LookupRules ChainRules OuterRules

/-- The request came in on a listener with `no-dualstack-selection`. -/
def refusesSelection (ctx : DnsContext) : Bool := ctx.serverOpts.noDualstackSelection.getD false

/-- Selection may leave its result for this request in the store. -/
def storesSelection (ctx : DnsContext) (req : DnsRequest) : Bool :=
  dualstackApplies ctx req && ctx.cfg.cacheNegative

/-- The questions in `plain`, each with a group label, are put to the cache by requests whose
selection cannot end up in the store; listeners that refuse selection ask only these. -/
def SelectionApart (plain : Query → String → Prop) : Ghost → (o : Op) → Op.Resp o → Prop
  | _, .consult ctx req, _ =>
    (refusesSelection ctx = true → plain req.query.key ctx.serverGroupName) ∧
      (storesSelection ctx req = true → ¬ plain req.query.key ctx.serverGroupName)
  | _, _, _ => True

/-- A stored answer to a plain question is not the work of selection. -/
def Unsuppressed (plain : Query → String → Prop) (k : Query) (d : DnsResponse) (o : Origin) :
    Prop :=
  ∀ label, d.nameServerGroup = some label → plain k label → o.suppressed = false

/-- A listener that refuses selection is served from an entry selection had no part in. -/
def ServedUnsuppressed (ctx : DnsContext) (_ : DnsRequest) (_ : DnsResponse) (cached : Bool)
    (g : Ghost) : Prop :=
  cached = true → refusesSelection ctx = true → ∃ o, g.hit = some o ∧ o.suppressed = false

section Policy

variable {plain : Query → String → Prop} {client : DnsClient}

/-- The chain stores what was not suppressed, under the label asked. -/
theorem selection_policy (ctx : DnsContext) (req : DnsRequest) :
    StorePolicy (Unsuppressed plain) ServedUnsuppressed (SelectionApart plain) client
      (fun _ _ _ => True) (Echoes False req) ctx req where
  promise := Graded.anything _
  sourced := Sourced.anything _ ctx req
  cache :=
    { final := fun _ _ _ _ hFalse => hFalse.elim
      answer := fun _ _ _ _ _ _ _ _ hCached => absurd hCached (by simp)
      serve := by
        intro g₀ g d o r b hConsult hHit hOrigin hServed hLabel
        refine ⟨?_, fun hFalse => hFalse.elim⟩
        intro _ hRefuses
        refine ⟨o, hHit, hOrigin ctx.serverGroupName ?_ (hConsult.1 hRefuses)⟩
        rw [← hServed.label, hLabel]
      store := by
        intro g₀ g o r _ _ hExt _
        exact ⟨fun _ _ _ => hExt.suppressed, fun _ _ _ _ _ => hExt.suppressed⟩
      negative := by
        intro g₀ g o e r b hConsult _ _ hSuppressed hNegative _
        refine ⟨?_, fun hCached => absurd hCached (by simp), fun hFalse => hFalse.elim⟩
        intro label hLabel hPlain
        cases hMark : o.suppressed with
        | false => rfl
        | true =>
          have hStores : storesSelection ctx req = true := by
            rw [storesSelection, hSuppressed hMark, hNegative]
            rfl
          have hName : ctx.serverGroupName = label := Option.some.inj hLabel
          rw [← hName] at hPlain
          exact absurd hPlain (hConsult.2 hStores) }

end Policy

/-- In every run in which no question reaches the cache both with selection in force and from
a listener that refuses it, such a listener is never answered with the result of selection. -/
theorem no_foreign_suppression (cfg : RuntimeConfig) (client : DnsClient) (env : CacheEnv)
    (plain : Query → String → Prop) (cacheSize expiredTtl expiredReplyTtl maxBytes : Nat)
    (es : List ServerEvent) (p : ServerPool)
    (hMeet : StepsMeet (server cfg client env).step
      (System.Meets (fun _ => True) (EnvMeets (SelectionApart plain) env))
      ⟨World.init cacheSize expiredTtl expiredReplyTtl maxBytes, []⟩ es)
    (hRun : runTrace (server cfg client env).step
      ⟨World.init cacheSize expiredTtl expiredReplyTtl maxBytes, []⟩ es = some p) :
    ∀ t ∈ p.threads, ∀ ctx req res k, t.prog = .call (.answer ctx req res true) k →
      refusesSelection ctx = true → ∃ o, t.ghost.hit = some o ∧ o.suppressed = false := by
  intro t ht ctx req res k hProg hRefuses
  have hInv := chain_invariant False (fun ctx req _ => ⟨_, selection_policy ctx req⟩)
    (fun hFalse => hFalse.elim) hMeet hRun
  exact hInv.pre_of_call ht hProg rfl hRefuses

/-! ## Two listeners -/

/-- Selection by ping, with the answers of the fastest server. -/
def pingConfig : RuntimeConfig :=
  { RuntimeConfig.default with
    speedCheckMode := some [.Ping]
    responseMode := .FastestResponse }

/-- A request on a listener that refuses selection or does not. -/
def arrival (queryType : RecordType) (refuses : Bool) : Arrival where
  incoming := .ok (askFor exampleName queryType exampleSource)
  serverOpts := { ServerOpts.default with noDualstackSelection := some refuses }

def exampleAddress6 : RData := .AAAA 0x20010db8000000000000000000000001#128

/-- One family of a race is resolved, always taking its turn. -/
def racedAnswers (rdata : RData) : List Answer :=
  [.flag true, .unit, .flag true, .records none, .flag true, .index 0, .flag true,
    exampleAnswer rdata]

/-- The ping of the other family returns, the one of the family asked for does not. -/
def pingAnswers : List Answer :=
  [.flag true, .ping (some (.v4 0x5db8d822#32, 1000)), .ping none, .flag true, .unit]

/-- An IPv6 query is decided against and stored; then it is asked on the other listener. -/
def suppressedRun : List ServerEvent :=
  [.spawn (arrival .AAAA false)] ++
    steps 0 (missAnswers ++ racedAnswers exampleAddress6 ++
      racedAnswers exampleAddress ++ pingAnswers ++ storeAnswers) ++
    [.spawn (arrival .AAAA true)] ++ steps 1 (missAnswers ++ [.unit])

/-- The same, but the other listener is asked for the IPv4 address, twice. -/
def separateRun : List ServerEvent :=
  [.spawn (arrival .AAAA false)] ++
    steps 0 (missAnswers ++ racedAnswers exampleAddress6 ++
      racedAnswers exampleAddress ++ pingAnswers ++ storeAnswers) ++
    [.spawn (arrival .A true)] ++
    steps 1 (missAnswers ++ lookupAnswers (exampleAnswer exampleAddress) ++ storeAnswers) ++
    [.spawn (arrival .A true)] ++ steps 2 hitAnswers

/-- A listener that refuses selection is served an empty answer that selection left for a request
of another listener, or an answer that selection had no part in. -/
def servedBy (selection : Bool) (ctx : DnsContext) (_ : DnsRequest) (res : DnsResponse)
    (o : Origin) : Bool :=
  decide (refusesSelection ctx = true ∧ res.records.isEmpty = selection ∧
    o.suppressed = selection ∧ refusesSelection o.ctx = !selection)

/-- The condition on a run, for a Boolean set of plain questions. -/
def selectionCheck (plain : Query → String → Bool) : Ghost → (o : Op) → Op.Resp o → Bool
  | _, .consult ctx req, _ =>
    (!refusesSelection ctx || plain req.query.key ctx.serverGroupName) &&
      (!storesSelection ctx req || !plain req.query.key ctx.serverGroupName)
  | _, _, _ => true

theorem selectionApart_of_check {plain : Query → String → Bool} (g : Ghost) (o : Op)
    (r : Op.Resp o) (h : selectionCheck plain g o r = true) :
    SelectionApart (fun k label => plain k label = true) g o r := by
  cases o with
  | consult ctx req =>
    simp only [selectionCheck, Bool.and_eq_true, Bool.or_eq_true] at h
    refine ⟨fun hRefuses => ?_, fun hStores => ?_⟩
    · exact h.1.resolve_left (by simp [hRefuses])
    · simpa using h.2.resolve_left (by simp [hStores])
  | _ => trivial

def ipv4Questions (k : Query) (_ : String) : Bool := decide (k.queryType = .A)

theorem no_foreign_suppression_separateRun :
    ∃ p, runTrace (server pingConfig exampleClient exampleEnv).step ⟨exampleWorld, []⟩
        separateRun = some p ∧
      ∃ t ∈ p.threads, ∃ ctx req res k, t.prog = .call (.answer ctx req res true) k ∧
        refusesSelection ctx = true ∧ ∃ o, t.ghost.hit = some o ∧ o.suppressed = false := by
  refine exists_served (servedBy false) (by decide +kernel)
    fun p t ctx req res k o hRun ht hProg _ hServed => ?_
  have hRefuses := (of_decide_eq_true hServed).1
  exact ⟨ctx, req, res, k, hProg, hRefuses,
    no_foreign_suppression pingConfig exampleClient exampleEnv _ 4 0 0 0 separateRun p
      (stepsMeet_of_meets _ (meets_of_stepCheck (selectionCheck ipv4Questions)
        selectionApart_of_check) _ (by decide +kernel)) hRun t ht ctx req res k hProg hRefuses⟩

/-- The empty answer that selection left for one listener is served on the other. -/
theorem suppression_replayed :
    ∃ p, runTrace (server pingConfig exampleClient exampleEnv).step ⟨exampleWorld, []⟩
        suppressedRun = some p ∧
      ∃ t ∈ p.threads, ∃ ctx req res k o, t.prog = .call (.answer ctx req res true) k ∧
        refusesSelection ctx = true ∧ res.records.isEmpty = true ∧ t.ghost.hit = some o ∧
        o.suppressed = true ∧ refusesSelection o.ctx = false := by
  refine exists_served (servedBy true) (by decide +kernel)
    fun p t ctx req res k o _ _ hProg hHit hServed => ?_
  obtain ⟨hRefuses, hEmpty, hMark, hOther⟩ := of_decide_eq_true hServed
  exact ⟨ctx, req, res, k, o, hProg, hRefuses, hEmpty, hHit, hMark, hOther⟩

end SmartDns.Ports.DualStackIsolation
