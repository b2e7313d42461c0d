import SmartDns.Ports.CacheHistory
import SmartDns.Ports.ServerRuns

/-!
# Lifetimes of cached records

A cached record may be handed out for as long as its TTL says, counted from the
moment it was stored, so what a hit promises for the future and the time already
spent in the cache must not add up to more. For positive answers they do not:
the deadline of an entry is set by its shortest TTL, and a hit caps every TTL at
what is left until then, in whole seconds.

For negative answers the deadline comes from the authority's minimum instead.
The cap covers the answer section alone, so the records of the authority section
are handed out with their full TTL each time, and an alias whose TTL is shorter
than the negative lifetime is only capped at what is left of the latter.
-/

namespace SmartDns.Ports.TtlConservation

open DnsMessage DnsLookup CacheStore CacheAccounting CacheContents PrefetchScan CacheHistory
open InnerChain ServerRuns

/-! ## Arithmetic of lifetimes -/

theorem secs_asSecsU32_le (d : Nat) : secs (asSecsU32 d) ≤ d := by
  unfold secs asSecsU32
  omega

theorem foldl_min_le (ttls : List Nat) :
    ∀ init : Nat, ttls.foldl min init ≤ init ∧ ∀ ttl ∈ ttls, ttls.foldl min init ≤ ttl := by
  induction ttls with
  | nil =>
    intro init
    exact ⟨Nat.le_refl init, by simp⟩
  | cons x rest ih =>
    intro init
    obtain ⟨hInit, hRest⟩ := ih (min init x)
    rw [List.foldl_cons]
    refine ⟨by omega, ?_⟩
    intro ttl hTtl
    rcases List.mem_cons.mp hTtl with hHead | hTail
    · omega
    · exact hRest ttl hTail

/-- The lifetime of an entry is no longer than the TTL of any of its records. -/
theorem collapseTtl_le {recordsAndTtl : List (Record × Nat)} {x : Record × Nat}
    (hx : x ∈ recordsAndTtl) : (collapseTtl recordsAndTtl).2 ≤ x.2 :=
  (foldl_min_le _ 600).2 x.2 (List.mem_map_of_mem hx)

/-! ## Valid hits -/

/-- A record as it was given to the cache and as a hit returns it: the time spent in between
and the TTL served add up to the original TTL at most. -/
structure ServedWithin (query : Query) (storedAt servedAt : Nat) (r served : Record) : Prop where
  rdata : served.rdata = r.rdata
  dnsClass : served.dnsClass = r.dnsClass
  name : served.name = r.name ∨ served.name = query.name
  ttl : servedAt + secs served.ttl ≤ storedAt + secs r.ttl

/-- A served record has its own TTL or the time left, the smaller. -/
theorem servedRecord_ttl (query : Query) (answers : List Record) (ttl : Nat) (r : Record) :
    (servedRecord query answers ttl r).ttl = min r.ttl ttl := by
  rw [servedRecord_eq]

variable {query : Query}

/-- A record whose entry lives no longer than its TTL allows. -/
theorem servedWithin_of_le {answers : List Record} {storedAt servedAt : Nat} {validUntil : Nat}
    {r : Record} (hNow : servedAt ≤ validUntil) (hUntil : validUntil ≤ storedAt + secs r.ttl) :
    ServedWithin query storedAt servedAt r
      (servedRecord query answers (asSecsU32 (validUntil - servedAt)) r) := by
  have hLeft := secs_asSecsU32_le (validUntil - servedAt)
  refine ⟨servedRecord_rdata query answers _ r, ?_, ?_, ?_⟩
  · rw [servedRecord_eq]
  · rw [servedRecord_eq]
    dsimp only
    split
    · exact .inr rfl
    · exact .inl rfl
  · rw [servedRecord_ttl]
    unfold secs at hLeft hUntil ⊢
    omega

/-- What a valid hit returns, from the binding it is made of. -/
theorem get_valid {env : CacheEnv} {cap : Nat} {c : DnsCache} (h : StoreInv env cap c) {now : Nat}
    {res : DnsResponse} (hGet : (c.get env query now).2 = some (res, .Valid)) :
    ∃ p ∈ c.entries, (p.1 == query) = true ∧ now ≤ p.2.validUntil ∧
      res = p.2.data.mapAnswers (servedRecord query p.2.data.message.answers
        (asSecsU32 (p.2.validUntil - now))) := by
  obtain ⟨p, hp, hKey, hReply⟩ := (get_eq_some h).mp hGet
  rw [entryReply_eq, Prod.mk.injEq] at hReply
  obtain ⟨hRes, hStatus⟩ := hReply
  have hCurrent : p.2.isCurrent now = true := by
    by_contra hPast
    rw [if_neg hPast] at hStatus
    cases hStatus
  refine ⟨p, hp, hKey, of_decide_eq_true hCurrent, ?_⟩
  rw [← hRes, servedTtl, if_pos hCurrent]
  rfl

/--
**Positive TTL conservation**: a valid hit is made of what the last operation on
its question has stored. If that was `insert_records` at `t₀`, every record
served at `t` is one of those given to it, and the time since then and the TTL
served do not exceed the TTL it was given with.
-/
theorem positive_ttl_conserved (env : CacheEnv) (order : HeapOrder)
    (cacheSize expiredTtl expiredReplyTtl maxBytes : Nat) (es : List CacheEvent) (query : Query)
    (t : Nat) (res : DnsResponse)
    (hGet : ((runEvents env order
      (DnsCache.new cacheSize expiredTtl expiredReplyTtl maxBytes) es).get env query t).2 =
        some (res, .Valid)) :
    ∃ e, LastWrite es query e ∧ e.Overwrites query ∧
      ∀ q rs t₀ group, e = .op (.insertRecords q rs t₀ group) →
        ∃ stored : List Record, (∀ r ∈ stored, r ∈ rs) ∧
          List.Forall₂ (ServedWithin query t₀ t) stored res.records := by
  have hInv := BudgetInv.new env cacheSize expiredTtl expiredReplyTtl maxBytes
  obtain ⟨p, hp, hKey, hNow, hRes⟩ := get_valid (runEvents_inv hInv es).store hGet
  obtain ⟨e, hLast, hWrites⟩ := produced hInv (entries_new _ _ _ _) es hp
  refine ⟨e, hLast.congr hKey, hWrites.overwrites.congr hKey, ?_⟩
  rintro q rs t₀ group rfl
  obtain ⟨g, hg, hWritten⟩ := hWrites
  have hContent := (mem_writtenGroups hg).2
  have hAnswers : p.2.data.message.answers = g.2.map Prod.fst := by
    rw [hWritten.data]
    rfl
  refine ⟨g.2.map Prod.fst, ?_, ?_⟩
  · intro r hr
    obtain ⟨x, hx, hEq⟩ := List.mem_map.mp hr
    rw [← hEq]
    exact (hContent x hx).1
  · show List.Forall₂ _ _ res.message.answers
    rw [hRes, DnsResponse.mapAnswers_answers, hAnswers, List.forall₂_map_right_iff,
      List.forall₂_same]
    intro r hr
    obtain ⟨x, hx, hEq⟩ := List.mem_map.mp hr
    apply servedWithin_of_le hNow
    rw [hWritten.validUntil, ← hEq, ← (hContent x hx).2]
    have hLe := collapseTtl_le hx
    unfold secs
    omega

/-- An address with a TTL of five minutes is stored. -/
def storedAnswer : CacheEvent :=
  .op (.insertRecords exampleQuery [Record.fromRdata exampleName 300 exampleAddress] 0 "default")

theorem positive_ttl_conserved_storedAnswer :
    ∃ res, ((runEvents exampleEnv firstOrder (DnsCache.new 4 0 0 0) [storedAnswer]).get
        exampleEnv exampleQuery (secs 100)).2 = some (res, .Valid) ∧
      ∃ e, LastWrite [storedAnswer] exampleQuery e ∧ e.Overwrites exampleQuery ∧
        ∀ q rs t₀ group, e = .op (.insertRecords q rs t₀ group) →
          ∃ stored : List Record, (∀ r ∈ stored, r ∈ rs) ∧
            List.Forall₂ (ServedWithin exampleQuery t₀ (secs 100)) stored res.records := by
  refine ⟨_, rfl, ?_⟩
  exact positive_ttl_conserved exampleEnv firstOrder 4 0 0 0 [storedAnswer] exampleQuery
    (secs 100) _ rfl

/-! ## Negative answers -/

/-- Record by record, the time spent in the cache and the TTL served add up to the original
TTL at most. -/
def TtlsConserved (storedAt servedAt : Nat) (stored served : List Record) : Prop :=
  List.Forall₂ (fun r s => servedAt + secs s.ttl ≤ storedAt + secs r.ttl) stored served

/-- Negative answers live a whole number of seconds, one hour at most. -/
theorem negativeTtl_eq (resp : DnsResponse) : ∃ n ≤ 3600, negativeTtl resp = secs n :=
  ⟨_, Nat.min_le_right _ _, rfl⟩

/-- An answer of a negative response keeps to its TTL unless that is the shorter lifetime. -/
theorem negative_answer_iff {t₀ t n ttl : Nat} (hn : n ≤ 3600) (hStored : t₀ ≤ t)
    (hNow : t ≤ t₀ + secs n) :
    t + secs (min (min ttl n) (asSecsU32 (t₀ + secs n - t))) ≤ t₀ + secs ttl ↔
      t = t₀ ∨ n ≤ ttl := by
  unfold secs asSecsU32 at *
  omega

/-- A valid hit on a negative answer: the answers are capped twice, the authority is as given. -/
theorem get_negative {q : Query} {resp res : DnsResponse} {group : String} {t₀ t n : Nat}
    (hn : n ≤ 3600) {p : Query × DnsCacheEntry}
    (hWritten : Written q (negativeData resp (secs n) group) (t₀ + secs n) p)
    (hRes : res = p.2.data.mapAnswers (servedRecord query p.2.data.message.answers
      (asSecsU32 (p.2.validUntil - t)))) :
    res.message.authorities = resp.message.authorities ∧
      ∃ f : Record → Record, res.message.answers = resp.message.answers.map f ∧
        ∀ r, (f r).ttl = min (min r.ttl n) (asSecsU32 (t₀ + secs n - t)) := by
  have hSecs : asSecsU32 (secs n) = n := by
    unfold asSecsU32 secs
    omega
  have hStored : p.2.data.message.answers = resp.message.answers.map fun r => r.setMaxTtl n := by
    rw [hWritten.data]
    show (resp.message.answers.map fun r => r.setMaxTtl (asSecsU32 (secs n))) = _
    rw [hSecs]
  constructor
  · rw [hRes, hWritten.data]
    rfl
  · refine ⟨servedRecord query p.2.data.message.answers (asSecsU32 (t₀ + secs n - t)) ∘
      fun r => r.setMaxTtl n, ?_, ?_⟩
    · rw [← List.map_map, ← hStored, hRes, hWritten.validUntil]
      rfl
    · intro r
      rw [Function.comp_apply, servedRecord_ttl, Record.setMaxTtl_eq]

/--
**Negative TTL conservation**: a valid hit at `t` on a negative answer stored at
`t₀` keeps every record of the answer and authority sections within its TTL
exactly if no time has passed, or the answer has no authority records and no
answer record with a TTL shorter than the negative lifetime.
-/
theorem negative_ttl_conserved_iff (env : CacheEnv) (order : HeapOrder)
    (cacheSize expiredTtl expiredReplyTtl maxBytes : Nat) (es : List CacheEvent)
    (q : Query) (resp : DnsResponse) (group : String) (t₀ : Nat)
    (hLast : LastWrite es q (.op (.insertNegative q resp (negativeTtl resp) group t₀)))
    (query : Query) (hQuery : (query == q) = true) (t : Nat) (hStored : t₀ ≤ t)
    (res : DnsResponse)
    (hGet : ((runEvents env order
      (DnsCache.new cacheSize expiredTtl expiredReplyTtl maxBytes) es).get env query t).2 =
        some (res, .Valid)) :
    (TtlsConserved t₀ t resp.message.answers res.message.answers ∧
        TtlsConserved t₀ t resp.message.authorities res.message.authorities) ↔
      t = t₀ ∨ (resp.message.authorities = [] ∧
        ∀ r ∈ resp.message.answers, negativeTtl resp ≤ secs r.ttl) := by
  have hInv := BudgetInv.new env cacheSize expiredTtl expiredReplyTtl maxBytes
  obtain ⟨p, hp, hKey, hNow, hRes⟩ := get_valid (runEvents_inv hInv es).store hGet
  obtain ⟨e, hLast', hWrites⟩ := produced hInv (entries_new _ _ _ _) es hp
  -- the entry hit is the one that was written last
  have hSame : (p.1 == q) = true := BEq.trans hKey hQuery
  have hEvent := (hLast'.congr hSame).unique (hWrites.overwrites.congr hSame) hLast BEq.rfl
  subst hEvent
  obtain ⟨n, hn, hTtl⟩ := negativeTtl_eq resp
  have hWritten : Written q (negativeData resp (negativeTtl resp) group)
      (t₀ + negativeTtl resp) p := hWrites
  rw [hTtl] at hWritten ⊢
  rw [hWritten.validUntil] at hNow
  obtain ⟨hAuthorities, f, hAnswers, hCapped⟩ := get_negative hn hWritten hRes
  unfold TtlsConserved
  rw [hAuthorities, hAnswers, List.forall₂_map_right_iff, List.forall₂_same, List.forall₂_same]
  simp only [hCapped, negative_answer_iff hn hStored hNow]
  constructor
  · rintro ⟨hAnswer, hAuthority⟩
    by_cases hAge : t = t₀
    · exact .inl hAge
    · right
      constructor
      · rw [List.eq_nil_iff_forall_not_mem]
        intro r hr
        have := hAuthority r hr
        omega
      · intro r hr
        have hLong := (hAnswer r hr).resolve_left hAge
        unfold secs
        omega
  · rintro (hAge | ⟨hNone, hLong⟩)
    · exact ⟨fun r _ => .inl hAge, fun r _ => by rw [hAge]⟩
    · refine ⟨fun r hr => .inr ?_, by simp [hNone]⟩
      have := hLong r hr
      unfold secs at this
      omega

/-- The name does not exist, says an authority whose record lives for an hour. -/
def missingName : DnsResponse :=
  { DnsResponse.newWithMaxTtl exampleQuery [] with
    message := { (DnsResponse.newWithMaxTtl exampleQuery []).message.setResponseCode .NXDomain with
      authorities := [⟨exampleName, 3600, .IN, .SOA defaultSoa⟩] } }

/-- The name is an alias and the target has no address: a single alias record with a TTL of
fifteen minutes, longer than the ten minutes of a negative answer without an authority. -/
def aliasAlone : DnsResponse :=
  DnsResponse.newWithMaxTtl exampleQuery
    [Record.fromRdata exampleName 900 (.CNAME exampleName)]

/-- A negative answer for the example's question is stored at time 0. -/
def storedNegative (resp : DnsResponse) : CacheEvent :=
  .op (.insertNegative exampleQuery resp (negativeTtl resp) "default" 0)

/-- A hundred seconds later the alias is served for 500 seconds, what is left of the ten
minutes and less than what is left of its own TTL. -/
theorem negative_ttl_conserved_aliasAlone :
    isNegativeResponse aliasAlone exampleQuery = true ∧
    ∃ res, ((runEvents exampleEnv firstOrder (DnsCache.new 4 0 0 0)
        [storedNegative aliasAlone]).get exampleEnv exampleQuery (secs 100)).2 =
          some (res, .Valid) ∧
      res.message.answers.map Record.ttl = [500] ∧
      TtlsConserved 0 (secs 100) aliasAlone.message.answers res.message.answers ∧
      TtlsConserved 0 (secs 100) aliasAlone.message.authorities res.message.authorities := by
  refine ⟨rfl, _, rfl, rfl, ?_⟩
  exact (negative_ttl_conserved_iff exampleEnv firstOrder 4 0 0 0
    [storedNegative aliasAlone] exampleQuery aliasAlone "default" 0
    ⟨[], [], rfl, by simp⟩ exampleQuery rfl (secs 100) (by decide) _ rfl).mpr
    (.inr ⟨rfl, by decide⟩)

/-- A hundred seconds later the authority's record is served for another hour. -/
theorem negative_ttl_restarts :
    isNegativeResponse missingName exampleQuery = true ∧
    ∃ res, ((runEvents exampleEnv firstOrder (DnsCache.new 4 0 0 0)
        [storedNegative missingName]).get exampleEnv exampleQuery (secs 100)).2 =
          some (res, .Valid) ∧
      ¬ TtlsConserved 0 (secs 100) missingName.message.authorities res.message.authorities := by
  refine ⟨rfl, _, rfl, ?_⟩
  intro hConserved
  cases hConserved with
  | cons hHead _ => exact absurd hHead (by decide)

end SmartDns.Ports.TtlConservation
