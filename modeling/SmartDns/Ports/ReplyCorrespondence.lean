import SmartDns.Ports.OuterRules

/-!
# Which question a reply answers

The header of a reply is built from the request, but its question section is
the one of the response that the chain returned. Failures and local answers
carry the question as the client wrote it. An upstream answer carries the name
in lower case and the class `IN`, and an entry of the cache carries the
question of the request that created it, or the owner name of a record. Since
the cache does not distinguish letter case, neither need be the client's own.

A reply corresponds to its request, identifier and question, in every run in
which only lowercase questions of class `IN` reach the cache and the upstream
servers, these answer in kind, and no request is lost by the dispatcher.
-/

namespace SmartDns.Ports.ReplyCorrespondence

open Verified DomainName DnsMessage DnsLookup RequestContext Middleware CacheStore CacheContents
open Upstream ServerRuns LookupRules ChainRules OuterRules

/-- A record is owned by a name in lower case. -/
def LowerOwner (x : Record) : Prop := x.name.toLowercase = x.name

/-- Questions that reach the cache are spelled as its keys are, those that go further are also
of class `IN`; the servers repeat the question and spell owner names in lower case; and no
request is lost. -/
def Canonical : Ghost → (o : Op) → Op.Resp o → Prop
  | _, .dispatch, d => ∀ freshId, d ≠ Dispatch.dropped freshId
  | _, .consult _ req, _ => req.query.key = req.query
  | _, .forward _ req, _ => bootstrapQuery req = req.query
  | _, .serverLookup _ _ name options, res =>
    ∀ r, res = Except.ok r → r.message.queries = [Query.query name options.recordType] ∧
      ∀ x ∈ r.records, LowerOwner x
  | _, _, _ => True

/-- What is stored for a question answers this question. -/
def StoredFor (k : Query) (d : DnsResponse) (_ : Origin) : Prop := d.message.queries = [k]

/-- A response to the question at hand; if it may be stored, so may its records. -/
def Answers (req : DnsRequest) (b : Bool) (r : DnsResponse) (_ : Ghost) : Prop :=
  r.message.queries = [req.query] ∧ (b = false → ∀ x ∈ r.records, LowerOwner x)

section Policy

variable {client : DnsClient} {ctx : DnsContext} {req : DnsRequest}

theorem answers_graded (T : ServerGroup → Prop) : Graded T (Answers req) where
  stored :=
    { mono := fun _ _ _ _ h => h
      pick := by
        intro ip r r' g hSelect h
        obtain ⟨hQueries, hSubset⟩ := selectRecord_records hSelect
        exact ⟨hQueries.trans h.1, fun hStored x hx => h.2 hStored x (hSubset x hx)⟩
      label := fun _ _ _ h => h }
  mono := fun _ _ _ _ h => h
  weaken := fun _ _ h => ⟨h.1, fun hStored => absurd hStored (by simp)⟩

theorem kept_lowerOwner {options : LookupIpOptions} {ns : NameServer} {records : List Record}
    {x : Record} (hKept : Kept options ns records x) (h : ∀ y ∈ records, LowerOwner y) :
    LowerOwner x := by
  rcases hKept with ⟨hMem, -⟩ | ⟨record, hMem, _, _, _, _, _, hEq⟩
  · exact h x hMem
  · rw [hEq]
    exact h record hMem

/-- What the servers answer is for the question. -/
theorem answers_sourced : Sourced Canonical ctx req (Answers req) where
  bootstrap := by
    intro _ g records hForward _
    refine ⟨?_, fun hStored => absurd hStored (by simp)⟩
    rw [← show bootstrapQuery req = req.query from hForward]
    rfl
  plain := by
    intro _ g group ns r hForward _ hE
    obtain ⟨hQueries, hOwners⟩ := hE r rfl
    exact ⟨hQueries.trans (congrArg (fun q => [q]) hForward), fun _ => hOwners⟩
  filtered := by
    intro _ g group ns res hForward _ hE r hr
    obtain ⟨heard, hHeard, hQueries, hKept⟩ := perServer_ok hr
    obtain ⟨hAsked, hOwners⟩ := hE heard hHeard
    refine ⟨(hQueries.trans hAsked).trans (congrArg (fun q => [q]) hForward), ?_⟩
    intro _ x hx
    exact kept_lowerOwner (hKept x hx) hOwners

/-- The chain stores answers for the question they are stored under. -/
theorem correspondence_policy :
    StorePolicy StoredFor (fun _ _ _ _ _ => True) Canonical client (Answers req)
      (Echoes True req) ctx req where
  promise := answers_graded _
  sourced := answers_sourced
  cache :=
    { final := fun _ _ _ h _ => h.1.1
      answer := fun _ _ _ _ _ _ _ _ => trivial
      serve := by
        intro g₀ g d o r b hConsult _ hStored hServed _
        refine ⟨trivial, fun _ => ?_⟩
        rw [hServed.queries, show d.message.queries = [req.query.key] from hStored,
          show req.query.key = req.query from hConsult]
      store := by
        intro g₀ g o r hConsult _ _ h
        have hKey : req.query.key = req.query := hConsult
        refine ⟨?_, ?_⟩
        · rw [hKey]
          exact h.1.1
        · intro p hp
          obtain ⟨hQuestion, hQueries, -⟩ := written_clamp hp
          show p.2.message.queries = [p.1.key]
          rw [hQueries]
          rcases hQuestion with hQuery | ⟨x, hx, hOwner⟩
          · rw [hQuery, hKey]
          · have hLower : x.name.toLowercase = x.name := h.1.2 rfl x hx
            rw [hOwner, ownerQuery, Query.key, hLower]
      negative := by
        intro g₀ g o e r b hConsult _ _ _ _ hNegative
        have hQueries := (negativeResponseFromError_spec hNegative).1
        refine ⟨?_, trivial, fun _ => hQueries⟩
        show r.message.queries = [req.query.key]
        rw [hQueries, show req.query.key = req.query from hConsult] }

end Policy

/-- In every run with canonical questions and answers, every reply to a standard query with one
question has its identifier and its question, letter for letter. -/
theorem replies_correspond (cfg : RuntimeConfig) (client : DnsClient) (env : CacheEnv)
    (cacheSize expiredTtl expiredReplyTtl maxBytes : Nat) (es : List ServerEvent) (p : ServerPool)
    (hMeet : StepsMeet (server cfg client env).step
      (System.Meets (fun _ => True) (EnvMeets Canonical env))
      ⟨World.init cacheSize expiredTtl expiredReplyTtl maxBytes, []⟩ es)
    (hRun : runTrace (server cfg client env).step
      ⟨World.init cacheSize expiredTtl expiredReplyTtl maxBytes, []⟩ es = some p) :
    ∀ t ∈ p.threads, ∀ reply, t.prog = .done reply → Corresponds t.info.incoming reply := by
  intro t ht reply hProg
  have hInv := chain_invariant True (fun ctx req _ => ⟨_, correspondence_policy⟩)
    (fun _ g freshId hDropped => hDropped freshId rfl) hMeet hRun
  exact hInv.post_of_done ht hProg trivial

/-! ## Altered questions -/

def capitalName : Name := Name.ofLabels ["Example", "com"]

def arrival (name : Name) : Arrival where
  incoming := .ok (askFor name .A exampleSource)
  serverOpts := ServerOpts.default

/-- A question is resolved through the upstream server. -/
def resolvedRun (name : Name) : List ServerEvent :=
  [.spawn (arrival name)] ++
    steps 0 (missAnswers ++ lookupAnswers (exampleAnswer exampleAddress) ++ storeAnswers)

/-- Then it is asked again. -/
def repeatedRun : List ServerEvent :=
  resolvedRun exampleName ++ [.spawn (arrival exampleName)] ++ steps 1 (hitAnswers ++ [.unit])

/-- The dispatcher loses the request. -/
def lostRun : List ServerEvent :=
  [.spawn (arrival exampleName)] ++ steps 0 [.dispatch (.dropped 4711)]

/-- A request for a name that has been replied to with a given identifier and question. -/
def repliedWith (name : Name) (id : Nat) (queries : List Query)
    (t : Thread Op Op.Resp Ghost Arrival Message) : Bool :=
  match t.prog with
  | .done reply =>
    decide (t.info.incoming.toOption = some (askFor name .A exampleSource) ∧
      reply.header.id = id ∧ reply.queries = queries)
  | .call _ _ => false

theorem repliedWith_spec {name : Name} {id : Nat} {queries : List Query}
    {t : Thread Op Op.Resp Ghost Arrival Message} (h : repliedWith name id queries t = true) :
    ∃ reply, t.prog = .done reply ∧ t.info.incoming = .ok (askFor name .A exampleSource) ∧
      reply.header.id = id ∧ reply.queries = queries := by
  unfold repliedWith at h
  split at h
  · rename_i reply hProg
    obtain ⟨hIncoming, hReply⟩ := of_decide_eq_true h
    exact ⟨reply, hProg, eq_ok_of_toOption hIncoming, hReply⟩
  · cases h

/-- The condition on a run, computed. -/
def canonicalCheck : Ghost → (o : Op) → Op.Resp o → Bool
  | _, .dispatch, d => decide (d = Dispatch.processed)
  | _, .consult _ req, _ => decide (req.query.key = req.query)
  | _, .forward _ req, _ => decide (bootstrapQuery req = req.query)
  | _, .serverLookup _ _ name options, res =>
    res.toOption.all fun r =>
      decide (r.message.queries = [Query.query name options.recordType]) &&
        r.records.all fun x => decide (x.name.toLowercase = x.name)
  | _, _, _ => true

theorem canonical_of_check (g : Ghost) (o : Op) (r : Op.Resp o)
    (h : canonicalCheck g o r = true) : Canonical g o r := by
  cases o with
  | dispatch =>
    intro freshId hDropped
    have hProcessed : r = Dispatch.processed := of_decide_eq_true h
    exact absurd (hDropped.symm.trans hProcessed) (by simp)
  | consult ctx req =>
    show req.query.key = req.query
    exact of_decide_eq_true h
  | forward ctx req =>
    show bootstrapQuery req = req.query
    exact of_decide_eq_true h
  | serverLookup group server name options =>
    intro res hRes
    subst hRes
    simp only [canonicalCheck, Except.toOption, Option.all_some, Bool.and_eq_true,
      List.all_eq_true, decide_eq_true_eq] at h
    exact h
  | _ => trivial

theorem replies_correspond_repeatedRun :
    ∃ p, runTrace (server RuntimeConfig.default exampleClient exampleEnv).step
        ⟨exampleWorld, []⟩ repeatedRun = some p ∧
      ∃ t ∈ p.threads, ∃ reply, t.prog = .done reply ∧ t.ghost.hit.isSome = true ∧
        reply.header.id = (askFor exampleName .A exampleSource).message.header.id ∧
        reply.queries = (askFor exampleName .A exampleSource).message.queries := by
  refine exists_thread (fun t => t.ghost.hit.isSome &&
    repliedWith exampleName 7 [Query.query exampleName .A] t) (by decide +kernel)
    fun p t hRun ht hReplied => ?_
  rw [Bool.and_eq_true] at hReplied
  obtain ⟨reply, hProg, hIncoming, -⟩ := repliedWith_spec hReplied.2
  exact ⟨reply, hProg, hReplied.1,
    replies_correspond RuntimeConfig.default exampleClient exampleEnv 4 0 0 0 repeatedRun p
      (stepsMeet_of_meets _ (meets_of_stepCheck canonicalCheck canonical_of_check) _
        (by decide +kernel)) hRun t ht reply hProg _ hIncoming ⟨rfl, rfl⟩ rfl⟩

/-- The reply to a question with a capital letter has it in lower case; the reply to a request
that the dispatcher lost has another identifier and no question. -/
theorem question_altered :
    (∃ p, runTrace (server RuntimeConfig.default exampleClient exampleEnv).step
        ⟨exampleWorld, []⟩ (resolvedRun capitalName) = some p ∧
      ∃ t ∈ p.threads, ∃ reply, t.prog = .done reply ∧
        t.info.incoming = .ok (askFor capitalName .A exampleSource) ∧ reply.header.id = 7 ∧
        reply.queries = [Query.query exampleName .A]) ∧
    (askFor capitalName .A exampleSource).message.queries ≠ [Query.query exampleName .A] ∧
    ∃ p, runTrace (server RuntimeConfig.default exampleClient exampleEnv).step
        ⟨exampleWorld, []⟩ lostRun = some p ∧
      ∃ t ∈ p.threads, ∃ reply, t.prog = .done reply ∧
        t.info.incoming = .ok (askFor exampleName .A exampleSource) ∧ reply.header.id = 4711 ∧
        reply.queries = [] := by
  refine ⟨?_, by decide, ?_⟩
  · exact exists_thread (repliedWith capitalName 7 [Query.query exampleName .A])
      (by decide +kernel) fun _ _ _ _ => repliedWith_spec
  · exact exists_thread (repliedWith exampleName 4711 []) (by decide +kernel)
      fun _ _ _ _ => repliedWith_spec

end SmartDns.Ports.ReplyCorrespondence
