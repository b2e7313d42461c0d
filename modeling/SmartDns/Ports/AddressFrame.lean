import SmartDns.Ports.ServerRuns

/-!
# What the address middleware leaves alone

When no address or SOA rule decides the query, `AddressMiddleware` passes on the
response of the layers below, with the answer section cut after the address that
`max-reply-ip-num` allows last and with its TTLs bounded. The source borrows the
records until one of the two steps has to write. From then on it owns a copy, and
a copy is returned in a response built from scratch.

`Frame` is what a reader expects of such a step, and `Plain` describes the
responses that look the same when they are built from scratch.
-/

namespace SmartDns.Ports.AddressFrame

open Verified DnsMessage DnsLookup RequestContext Middleware InnerChain OuterChain Process
open ServerRuns

/-! ## The limit on addresses -/

/-- The records up to the `n`-th address, where there is one. -/
def UpToAddress (n : Nat) (records kept : List Record) : Prop :=
  ∃ front last rest, records = front ++ last :: rest ∧ kept = front ++ [last] ∧
    last.recordType.isIpAddr = true ∧ (front.countP fun r => r.recordType.isIpAddr) + 1 = n

theorem UpToAddress.cons {n : Nat} {records kept : List Record} (h : UpToAddress n records kept)
    (r : Record) :
    UpToAddress (n + if r.recordType.isIpAddr then 1 else 0) (r :: records) (r :: kept) := by
  obtain ⟨front, last, rest, hRecords, hKept, hLast, hCount⟩ := h
  refine ⟨r :: front, last, rest, by rw [hRecords]; rfl, by rw [hKept]; rfl, hLast, ?_⟩
  rw [List.countP_cons]
  omega

def addressCount (records : List Record) : Nat := records.countP fun r => r.recordType.isIpAddr

/-- With enough addresses the cut ends at the `n`th; with fewer nothing is cut. -/
theorem takeAddresses_spec (records : List Record) :
    ∀ n, 0 < n →
      if n ≤ addressCount records then UpToAddress n records (takeAddresses n records)
      else takeAddresses n records = records := by
  induction records with
  | nil =>
    intro n hn
    rw [if_neg (show ¬n ≤ addressCount [] from Nat.not_le.mpr hn)]
    rfl
  | cons r rest ih =>
    intro n hn
    have hCount : addressCount (r :: rest) =
        addressCount rest + if r.recordType.isIpAddr then 1 else 0 := List.countP_cons
    unfold takeAddresses
    by_cases hAddr : r.recordType.isIpAddr = true
    · rw [if_pos hAddr] at hCount ⊢
      by_cases hOne : n ≤ 1
      · rw [if_pos hOne, if_pos (by omega)]
        exact ⟨[], r, rest, rfl, rfl, hAddr, by simp; omega⟩
      · rw [if_neg hOne]
        have hRest := ih (n - 1) (by omega)
        by_cases hReached : n ≤ addressCount (r :: rest)
        · rw [if_pos (by omega)] at hRest
          have hNext := hRest.cons r
          rw [if_pos hAddr, show n - 1 + 1 = n by omega] at hNext
          rw [if_pos hReached]
          exact hNext
        · rw [if_neg (by omega)] at hRest
          rw [if_neg hReached, hRest]
    · rw [if_neg hAddr] at hCount ⊢
      have hRest := ih n hn
      by_cases hReached : n ≤ addressCount (r :: rest)
      · rw [if_pos (by omega)] at hRest
        have hNext := hRest.cons r
        rw [if_neg hAddr] at hNext
        rw [if_pos hReached]
        exact hNext
      · rw [if_neg (by omega)] at hRest
        rw [if_neg hReached, hRest]

theorem takeAddresses_cases (records : List Record) {n : Nat} (hn : 0 < n) :
    takeAddresses n records = records ∨ UpToAddress n records (takeAddresses n records) := by
  have hSpec := takeAddresses_spec records n hn
  split at hSpec
  · exact .inr hSpec
  · exact .inl hSpec

/-! ## The frame -/

/-- The same record under another TTL. -/
def SameButTtl (r r' : Record) : Prop := r' = { r with ttl := r'.ttl }

/-- The answers `kept` are those of a response, or those up to the last address allowed. -/
def Kept (limit : Option Nat) (records kept : List Record) : Prop :=
  kept = records ∨ ∃ n, limit = some n ∧ UpToAddress n records kept

/-- The reply is the response with other TTLs and without the answers beyond the limit. Its
message may have drawn another identifier, which the reply to the client does not carry. -/
structure Frame (limit : Option Nat) (r reply : DnsResponse) : Prop where
  answers : ∃ kept, Kept limit r.records kept ∧ List.Forall₂ SameButTtl kept reply.records
  header : { reply.message.header with id := r.message.header.id } = r.message.header
  queries : reply.message.queries = r.message.queries
  authorities : reply.message.authorities = r.message.authorities
  additionals : reply.message.additionals = r.message.additionals
  extensions : reply.message.extensions = r.message.extensions
  nameServerGroup : reply.nameServerGroup = r.nameServerGroup
  fromCache : reply.fromCache = r.fromCache

theorem Frame.refl (limit : Option Nat) (r : DnsResponse) : Frame limit r r where
  answers := ⟨r.records, .inl rfl, List.forall₂_same.mpr fun _ _ => rfl⟩
  header := rfl
  queries := rfl
  authorities := rfl
  additionals := rfl
  extensions := rfl
  nameServerGroup := rfl
  fromCache := rfl

/-- A message of one question and some answers, under a header that says nothing else. -/
def Plain (r : DnsResponse) : Prop :=
  ∃ id query, r.message =
    { (Message.query id).toResponse.addQuery query with answers := r.message.answers }

/-- Whether the records of a response are written to, which makes the source copy them. -/
def rebuilds (ctx : DnsContext) (queryType : RecordType) (r : DnsResponse) : Bool :=
  (limitAddresses ctx queryType r.records).2 ||
    ((rrTtlBounds ctx).1.isSome || (rrTtlBounds ctx).2.isSome || ctx.cfg.rrTtlReplyMax.isSome)

/-! ## The two branches -/

private theorem message_eq {m m' : Message} (hHeader : m.header = m'.header)
    (hQueries : m.queries = m'.queries) (hAnswers : m.answers = m'.answers)
    (hAuthorities : m.authorities = m'.authorities)
    (hAdditionals : m.additionals = m'.additionals)
    (hExtensions : m.extensions = m'.extensions) : m = m' := by
  cases m
  simp_all

section Branches

variable {ctx : DnsContext} {queryType : RecordType} {r : DnsResponse}

theorem limitAddresses_kept (ctx : DnsContext) (queryType : RecordType) (records : List Record) :
    Kept ctx.cfg.maxReplyIpNum records (limitAddresses ctx queryType records).1 := by
  unfold limitAddresses
  split
  · rename_i n hLimit
    split
    · rename_i hApplies
      have hn : 0 < n := by simpa using (Bool.and_eq_true_iff.mp hApplies).2
      cases takeAddresses_cases records hn with
      | inl hAll => exact .inl hAll
      | inr hCut => exact .inr ⟨n, hLimit, hCut⟩
    · exact .inl rfl
  · exact .inl rfl

/-- The bounds on a record's TTL, the one on replies last. -/
def boundTtl (ctx : DnsContext) (record : Record) : Record :=
  let record := clampTtlBounds (rrTtlBounds ctx) record
  ((ctx.cfg.rrTtlReplyMax.map (· % 2 ^ 32)).map record.setMaxTtl).getD record

theorem sameButTtl_boundTtl (record : Record) : SameButTtl record (boundTtl ctx record) := by
  unfold boundTtl clampTtlBounds
  cases (rrTtlBounds ctx).1 <;> cases (rrTtlBounds ctx).2 <;> cases ctx.cfg.rrTtlReplyMax <;>
    simp [SameButTtl]

theorem reworkReply_of_not_rebuilds (h : rebuilds ctx queryType r = false) :
    reworkReply ctx queryType r = r := by
  unfold reworkReply
  dsimp only
  rw [Option.isSome_map]
  exact if_neg (Bool.eq_false_iff.mp h)

theorem reworkReply_of_rebuilds (h : rebuilds ctx queryType r = true) :
    reworkReply ctx queryType r =
      { DnsResponse.newWithDeadline r.query
          ((limitAddresses ctx queryType r.records).1.map (boundTtl ctx)) with
        nameServerGroup := r.nameServerGroup
        fromCache := r.fromCache } := by
  unfold reworkReply
  dsimp only
  rw [Option.isSome_map]
  exact if_pos h

/-- The answers are within the frame whether or not the response is rebuilt. -/
theorem rebuilt_answers :
    ∃ kept, Kept ctx.cfg.maxReplyIpNum r.records kept ∧
      List.Forall₂ SameButTtl kept
        ((limitAddresses ctx queryType r.records).1.map (boundTtl ctx)) := by
  refine ⟨_, limitAddresses_kept ctx queryType r.records, ?_⟩
  rw [List.forall₂_map_right_iff]
  exact List.forall₂_same.mpr fun record _ => sameButTtl_boundTtl record

/-- A reply rebuilt from a plain answer keeps its frame. -/
theorem frame_of_plain (h : rebuilds ctx queryType r = true) (hPlain : Plain r) :
    Frame ctx.cfg.maxReplyIpNum r (reworkReply ctx queryType r) := by
  obtain ⟨id, query, hMessage⟩ := hPlain
  have hQuery : r.query = query := by
    rw [DnsResponse.query, hMessage]
    rfl
  rw [reworkReply_of_rebuilds h]
  exact {
    answers := rebuilt_answers
    header := by rw [hMessage]; rfl
    queries := by rw [hMessage, hQuery]; rfl
    authorities := by rw [hMessage]; rfl
    additionals := by rw [hMessage]; rfl
    extensions := by rw [hMessage]; rfl
    nameServerGroup := rfl
    fromCache := rfl }

theorem plain_of_frame (h : rebuilds ctx queryType r = true)
    (hFrame : Frame ctx.cfg.maxReplyIpNum r (reworkReply ctx queryType r)) : Plain r := by
  rw [reworkReply_of_rebuilds h] at hFrame
  -- everything but the answers is what the constructor puts there
  exact ⟨r.message.header.id, r.query, message_eq hFrame.header.symm hFrame.queries.symm rfl
    hFrame.authorities.symm hFrame.additionals.symm hFrame.extensions.symm⟩

/-- Rework keeps the frame exactly when it rebuilds plain answers only. -/
theorem reworkReply_frame_iff :
    Frame ctx.cfg.maxReplyIpNum r (reworkReply ctx queryType r) ↔
      (rebuilds ctx queryType r = true → Plain r) := by
  cases h : rebuilds ctx queryType r with
  | false =>
    rw [reworkReply_of_not_rebuilds h]
    exact ⟨fun _ hFalse => absurd hFalse Bool.false_ne_true, fun _ => Frame.refl _ r⟩
  | true =>
    exact ⟨fun hFrame _ => plain_of_frame h hFrame, fun hPlain => frame_of_plain h (hPlain rfl)⟩

end Branches

/-! ## The middleware -/

/-- Where no rule decides the query, the middleware returns whatever the inner chain returns,
and keeps its frame exactly if it has nothing to write or the response is plain. -/
theorem address_frame_iff (next : Handler) (ctx ctx' : DnsContext) (req : DnsRequest)
    (t : List (Sigma Op.Resp)) (r : DnsResponse)
    (hNoRule : handleRuleAddr req.query.queryType ctx = none)
    (hInner : Prog.Yields (next ctx req) t (.ok r, ctx')) :
    ∃ reply, Prog.Yields (addressLayer next ctx req) t (.ok reply, ctx') ∧
      (Frame ctx'.cfg.maxReplyIpNum r reply ↔
        (rebuilds ctx' req.query.queryType r = true → Plain r)) := by
  refine ⟨reworkReply ctx' req.query.queryType r, ?_, reworkReply_frame_iff⟩
  unfold addressLayer
  rw [hNoRule]
  exact hInner.map fun outcome =>
    (outcome.1.map (reworkReply outcome.2 req.query.queryType), outcome.2)

/-- Replies may not be cached for longer than five minutes. -/
def boundedConfig : RuntimeConfig := { RuntimeConfig.default with rrTtlMaxSetting := some 300 }

def boundedContext : DnsContext := DnsContext.new exampleName boundedConfig ServerOpts.default

def boundedRequest : DnsRequest := askFor exampleName .A exampleSource

/-- The answer of an upstream server, with its one address for an hour. -/
def plainAnswer : DnsResponse :=
  DnsResponse.newWithMaxTtl exampleQuery [Record.fromRdata exampleName 3600 exampleAddress]

theorem address_frame_iff_plainAnswer :
    ∃ reply, Prog.Yields (addressLayer (settledChain (.ok plainAnswer)) boundedContext
        boundedRequest) [] (.ok reply, boundedContext) ∧
      Frame none plainAnswer reply := by
  obtain ⟨reply, hReply, hFrame⟩ := address_frame_iff (settledChain (.ok plainAnswer))
    boundedContext boundedContext boundedRequest [] plainAnswer (by decide) (.done _)
  exact ⟨reply, hReply, hFrame.mpr fun _ => ⟨0, exampleQuery, rfl⟩⟩

/-- The word of the authority that `example.com` does not exist, as the cache keeps it. -/
def missingDomain : DnsResponse :=
  let res := (DnsResponse.newWithMaxTtl exampleQuery []).addAuthority
    (Record.fromRdata exampleName 900 (.SOA defaultSoa))
  { res with message := res.message.setResponseCode .NXDomain
             nameServerGroup := some "default" }

/-- The layers below find it there. -/
def missingDomainHit : List (Sigma Op.Resp) :=
  [⟨.consult boundedContext boundedRequest, ()⟩, ⟨.now, 0⟩,
    ⟨.cacheGet exampleQuery 0, some (missingDomain, .Valid)⟩, ⟨.queryHit, ()⟩,
    ⟨.answer boundedContext boundedRequest missingDomain.markFromCache true, ()⟩]

/-- Under a bound on TTLs, a cached answer without any record to bound loses its response code
and its authority. -/
theorem address_frame_lost :
    handleRuleAddr boundedRequest.query.queryType boundedContext = none ∧
    Prog.Yields (execute defaultHandler (storeLayers boundedConfig exampleClient) boundedContext
      boundedRequest) missingDomainHit (.ok missingDomain.markFromCache, boundedContext) ∧
    missingDomain.responseCode = .NXDomain ∧ missingDomain.message.authorities.length = 1 ∧
    ∃ reply, Prog.Yields (addressLayer (execute defaultHandler
        (storeLayers boundedConfig exampleClient)) boundedContext boundedRequest)
          missingDomainHit (.ok reply, boundedContext) ∧
      reply.responseCode = .NoError ∧ reply.message.authorities = [] ∧
      ¬ Frame none missingDomain.markFromCache reply := by
  refine ⟨by decide, .call (.call (.call (.call (.call (.done _))))), rfl, rfl, _,
    .call (.call (.call (.call (.call (.done _))))), rfl, rfl, ?_⟩
  intro hFrame
  have hAuthorities := hFrame.authorities
  cases hAuthorities

end SmartDns.Ports.AddressFrame
