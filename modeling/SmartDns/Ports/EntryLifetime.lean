import SmartDns.Ports.TtlConservation

/-!
# How long an entry lives

Three computations decide the life of a positive answer in the cache. Before it
is stored, `clamp_ttl_bounds` brings its TTLs between `rr-ttl-min` and
`rr-ttl-max`. `insert` turns the smallest of them into a deadline, by a fold that
starts from ten minutes. And a hit reads the TTL that is left, capped by that
deadline, to decide whether the answer should be refreshed in the background.

`Lifetime` says what the three are to achieve together: the entry is valid for
the smallest of its TTLs, for `rr-ttl-min` at least, and is not refreshed before
the prefetch window of that TTL begins.
-/

namespace SmartDns.Ports.EntryLifetime

open Verified DnsMessage DnsLookup RequestContext Middleware CacheStore CacheAccounting
open CacheContents PrefetchScan CacheHistory TtlConservation InnerChain ServerRuns

/-! ## The clamp -/

/-- The bounds as they are configured, the domain's rule before the global setting. -/
def configuredBounds (ctx : DnsContext) : Option Nat × Option Nat :=
  ((headGet ctx.domainRule (·.rrTtlMin)).or ctx.cfg.rrTtlMin,
    (headGet ctx.domainRule (·.rrTtlMax)).or ctx.cfg.rrTtlMax)

/-- The lower bound fits 32 bits, to which both are cut, and the upper bound does not undercut
it. -/
def Attainable (bounds : Option Nat × Option Nat) : Prop :=
  ∀ lo, bounds.1 = some lo → lo < 2 ^ 32 ∧ ∀ hi, bounds.2 = some hi → lo ≤ hi % 2 ^ 32

/-- The bounds the code reads are the configured ones modulo 2^32. -/
theorem rrTtlBounds_eq (ctx : DnsContext) :
    rrTtlBounds ctx = ((configuredBounds ctx).1.map (· % 2 ^ 32),
      (configuredBounds ctx).2.map (· % 2 ^ 32)) := rfl

theorem clampTtlBounds_ttl_ge {bounds : Option Nat × Option Nat} {lo : Nat}
    (hLow : bounds.1 = some lo) (hOrder : ∀ hi, bounds.2 = some hi → lo ≤ hi) (r : Record) :
    lo ≤ (clampTtlBounds bounds r).ttl := by
  obtain ⟨low, high⟩ := bounds
  cases hLow
  cases high with
  | none =>
    show lo ≤ (r.setMinTtl lo).ttl
    rw [Record.setMinTtl_eq]
    exact Nat.le_max_right _ _
  | some hi =>
    have hLe : lo ≤ hi := hOrder hi rfl
    show lo ≤ ((r.setMinTtl lo).setMaxTtl hi).ttl
    rw [Record.setMaxTtl_eq, Record.setMinTtl_eq]
    exact Nat.le_min.mpr ⟨Nat.le_max_right _ _, hLe⟩

/-- The upper bound is applied last and wins. -/
theorem clampTtlBounds_ttl_le {bounds : Option Nat × Option Nat} {hi : Nat}
    (hHigh : bounds.2 = some hi) (r : Record) : (clampTtlBounds bounds r).ttl ≤ hi := by
  obtain ⟨low, high⟩ := bounds
  cases hHigh
  show (Record.setMaxTtl _ hi).ttl ≤ hi
  rw [Record.setMaxTtl_eq]
  exact Nat.min_le_right _ _

variable {ctx : DnsContext} {req : DnsRequest}

variable {query : Query} {t₀ : Nat}

/-- The records `storeLookup` hands to the cache are those of the lookup, clamped. -/
theorem storeLookup_records {lookup : DnsResponse} {records : List Record} {group : String}
    (h : Prog.Yields (storeLookup ctx req lookup)
      [⟨.now, t₀⟩, ⟨.insertRecords query records t₀ group, ()⟩] ()) :
    records = lookup.records.map (clampTtlBounds (rrTtlBounds ctx)) := by
  unfold storeLookup at h
  split at h
  · cases h with
    | call h => cases h
  · split at h
    · cases h
    · split at h
      · cases h with
        | call h =>
          cases h with
          | call h => rfl
      · cases h

/-! ## The deadline -/

theorem collapseTtl_eq {recordsAndTtl : List (Record × Nat)} {m : Nat}
    (hMin : (recordsAndTtl.map Prod.snd).min? = some m) :
    (collapseTtl recordsAndTtl).2 = min 600 m := by
  show (recordsAndTtl.map Prod.snd).foldl min 600 = _
  rw [List.foldl_min, hMin, Option.getD_some]

/-- The smallest TTL of the records of an entry. -/
def minTtl (p : Query × DnsCacheEntry) : Option Nat :=
  (p.2.data.records.map fun r => r.ttl).min?

/-- An entry that `insert_records` wrote last: its records are some of those given, and its
deadline is that of their smallest TTL, if this is no more than ten minutes. -/
theorem entry_of_lastWrite {env : CacheEnv} {order : HeapOrder} {cap maxBytes : Nat} {c : DnsCache}
    (h : BudgetInv env cap maxBytes c) (hEmpty : c.entries = []) {es : List CacheEvent}
    {p : Query × DnsCacheEntry} (hp : p ∈ (runEvents env order c es).entries)
    {records : List Record} {group : String}
    (hLast : LastWrite es p.1 (.op (.insertRecords query records t₀ group)))
    (hWrite : CacheEvent.Overwrites p.1 (.op (.insertRecords query records t₀ group))) {m : Nat}
    (hMin : minTtl p = some m) :
    p.2.validUntil = t₀ + secs (min 600 m) ∧ ∀ r ∈ p.2.data.records, r ∈ records := by
  obtain ⟨e, hLast', hWrites⟩ := produced h hEmpty es hp
  have hEvent := hLast'.unique hWrites.overwrites hLast hWrite
  subst hEvent
  obtain ⟨g, hg, hWritten⟩ := hWrites
  have hContent := (mem_writtenGroups hg).2
  have hRecords : p.2.data.records = g.2.map Prod.fst := by
    rw [hWritten.data]
    rfl
  have hTtls : g.2.map Prod.snd = p.2.data.records.map fun r => r.ttl := by
    rw [hRecords, List.map_map]
    exact List.map_congr_left fun x hx => (hContent x hx).2
  constructor
  · rw [hWritten.validUntil, collapseTtl_eq (by rw [hTtls]; exact hMin)]
  · intro r hr
    rw [hRecords] at hr
    obtain ⟨x, hx, hEq⟩ := List.mem_map.mp hr
    rw [← hEq]
    exact (hContent x hx).1

/-! ## Hits that ask for a refresh -/

/-- A refresh is queued in the course of a program. -/
def QueuesRefresh (t : List (Sigma Op.Resp)) : Prop :=
  ∃ query group, (⟨.tryPrefetch query group, ()⟩ : Sigma Op.Resp) ∈ t

variable {cached : Cached}

theorem serveCached_refresh {res : DnsResponse} {t : List (Sigma Op.Resp)}
    (h : Prog.Yields (serveCached ctx req res) t cached) (hQueues : QueuesRefresh t) :
    res.maxAnswerTtl.getD 0 < onHitPrefetchRemainingTtl ctx.cfg := by
  obtain ⟨query, group, hMem⟩ := hQueues
  by_contra hHigh
  unfold serveCached at h
  simp only [hHigh, decide_false, Bool.and_false] at h
  -- all that is left to do is to count the hit
  cases h with
  | call h =>
    cases h
    simp at hMem

/-- A refresh is queued only for a hit with little of its TTL left. -/
theorem lookupCache_refresh {now : Nat} {found : Option (DnsResponse × CacheStatus)}
    {t : List (Sigma Op.Resp)} (h : Prog.Yields (lookupCache ctx req)
      (⟨.now, now⟩ :: ⟨.cacheGet req.query now, found⟩ :: t) cached) (hQueues : QueuesRefresh t) :
    ∃ res status, found = some (res, status) ∧
      res.maxAnswerTtl.getD 0 < onHitPrefetchRemainingTtl ctx.cfg := by
  have hNothing : ∀ {t : List (Sigma Op.Resp)} {c : Cached},
      Prog.Yields (Prog.done c : Async Cached) t cached → ¬ QueuesRefresh t := by
    intro t c hDone hQueues
    obtain ⟨_, _, hMem⟩ := hQueues
    cases hDone
    cases hMem
  unfold lookupCache at h
  split at h
  · cases h
  · cases h with
    | call h =>
      cases h with
      | call h =>
        cases found with
        | none => exact absurd hQueues (hNothing h)
        | some hit =>
          obtain ⟨res, status⟩ := hit
          refine ⟨res, status, rfl, ?_⟩
          dsimp only [Prog.bind] at h
          split at h
          · cases status with
            | Valid => exact serveCached_refresh h hQueues
            | Expired =>
              dsimp only at h
              split at h
              · exact serveCached_refresh h hQueues
              · exact absurd hQueues (hNothing h)
          · exact absurd hQueues (hNothing h)

/-! ## Lifetimes -/

/-- The entry, stored at `t₀` with `m` as its smallest TTL, is valid for exactly that long and
for the lower bound at least, and a hit asks for a refresh only if less than the window is left
of that TTL. -/
structure Lifetime (env : CacheEnv) (c : DnsCache) (bounds : Option Nat × Option Nat)
    (p : Query × DnsCacheEntry) (t₀ m : Nat) : Prop where
  valid : ∀ query, (p.1 == query) = true → ∀ t,
    (∃ res, (c.get env query t).2 = some (res, .Valid)) ↔ t ≤ t₀ + secs m
  atLeast : ∀ lo, bounds.1 = some lo → ∀ query, (p.1 == query) = true → ∀ t ≤ t₀ + secs lo,
    ∃ res, (c.get env query t).2 = some (res, .Valid)
  refresh : ∀ (ctx : DnsContext) (req : DnsRequest), (p.1 == req.query) = true → ∀ t, t₀ ≤ t →
    ∀ (trace : List (Sigma Op.Resp)) (cached : Cached), Prog.Yields (lookupCache ctx req)
      (⟨.now, t⟩ :: ⟨.cacheGet req.query t, (c.get env req.query t).2⟩ :: trace) cached →
    QueuesRefresh trace → t₀ + secs m < t + secs (onHitPrefetchRemainingTtl ctx.cfg)

section Hits

variable {env : CacheEnv} {cap : Nat} {c : DnsCache} {p : Query × DnsCacheEntry}

theorem get_of_mem (h : StoreInv env cap c) (hp : p ∈ c.entries) (hKey : (p.1 == query) = true)
    (t : Nat) : (c.get env query t).2 = some (c.entryReply query t p.2) :=
  (get_eq_some h).mpr ⟨p, hp, hKey, rfl⟩

/-- An entry is served as valid until the instant it holds. -/
theorem get_valid_iff (h : StoreInv env cap c) (hp : p ∈ c.entries) (hKey : (p.1 == query) = true)
    (t : Nat) : (∃ res, (c.get env query t).2 = some (res, .Valid)) ↔ t ≤ p.2.validUntil := by
  rw [get_of_mem h hp hKey, entryReply_eq]
  by_cases hNow : t ≤ p.2.validUntil
  · have hCurrent : p.2.isCurrent t = true := decide_eq_true hNow
    simp [hCurrent, hNow]
  · have hPast : p.2.isCurrent t = false := decide_eq_false hNow
    simp [hPast, hNow]

variable {m : Nat}

/-- What a hit promises is no less than the smallest TTL of the entry under its cap. -/
theorem maxAnswerTtl_ge (hMin : minTtl p = some m) (query : Query) (t : Nat) :
    min m (servedTtl c t p.2) ≤ (c.entryReply query t p.2).1.maxAnswerTtl.getD 0 := by
  obtain ⟨r, hr, hTtl⟩ := List.mem_map.mp (List.min?_mem hMin)
  rw [entryReply_eq]
  apply List.le_max?_getD_of_mem
  rw [DnsResponse.mapAnswers_answers, List.map_map]
  refine List.mem_map.mpr ⟨r, hr, ?_⟩
  rw [Function.comp_apply, servedRecord_ttl, hTtl]

/-- Of an entry that lives for `m` seconds, whole seconds below `w` mean less than `w`. -/
theorem left_lt_of_served_lt {t w : Nat} (hAfter : t₀ ≤ t) (hm : m ≤ 600)
    (h : min m (asSecsU32 (t₀ + secs m - t)) < w) : t₀ + secs m < t + secs w := by
  unfold secs asSecsU32 at *
  omega

/-- A hit on an entry that lives for its smallest TTL asks for a refresh in the window only. -/
theorem refresh_in_window (h : StoreInv env cap c) (hp : p ∈ c.entries)
    (hUntil : p.2.validUntil = t₀ + secs m) (hMin : minTtl p = some m) (hm : m ≤ 600)
    {ctx : DnsContext} {req : DnsRequest} (hKey : (p.1 == req.query) = true) {t : Nat}
    (hAfter : t₀ ≤ t) {trace : List (Sigma Op.Resp)} (hRun : Prog.Yields (lookupCache ctx req)
      (⟨.now, t⟩ :: ⟨.cacheGet req.query t, (c.get env req.query t).2⟩ :: trace) cached)
    (hQueues : QueuesRefresh trace) :
    t₀ + secs m < t + secs (onHitPrefetchRemainingTtl ctx.cfg) := by
  obtain ⟨res, status, hFound, hLow⟩ := lookupCache_refresh hRun hQueues
  rw [get_of_mem h hp hKey] at hFound
  have hServed := maxAnswerTtl_ge (c := c) hMin req.query t
  rw [Option.some.inj hFound] at hServed
  by_cases hNow : t ≤ p.2.validUntil
  · have hCurrent : p.2.isCurrent t = true := decide_eq_true hNow
    rw [servedTtl, if_pos hCurrent, DnsCacheEntry.ttl, hUntil] at hServed
    exact left_lt_of_served_lt hAfter hm (Nat.lt_of_le_of_lt hServed hLow)
  · omega

end Hits

/--
**Entry lifetime.** An entry that `insert_records` wrote last for its question
has the lifetime that its records and the configured bounds call for exactly if
the smallest of its TTLs is no more than ten minutes, and `rr-ttl-min` fits 32
bits and is not above what `rr-ttl-max` is cut to.
-/
theorem entry_lifetime_iff (env : CacheEnv) (order : HeapOrder)
    (cacheSize expiredTtl expiredReplyTtl maxBytes : Nat) (es : List CacheEvent)
    (ctx₀ : DnsContext) (req₀ : DnsRequest) (lookup : DnsResponse) (query : Query)
    (records : List Record) (t₀ : Nat) (group : String)
    (hStored : Prog.Yields (storeLookup ctx₀ req₀ lookup)
      [⟨.now, t₀⟩, ⟨.insertRecords query records t₀ group, ()⟩] ())
    (p : Query × DnsCacheEntry)
    (hp : p ∈ (runEvents env order
      (DnsCache.new cacheSize expiredTtl expiredReplyTtl maxBytes) es).entries)
    (hLast : LastWrite es p.1 (.op (.insertRecords query records t₀ group)))
    (hWrite : CacheEvent.Overwrites p.1 (.op (.insertRecords query records t₀ group)))
    (m : Nat) (hMin : minTtl p = some m) :
    Lifetime env (runEvents env order
        (DnsCache.new cacheSize expiredTtl expiredReplyTtl maxBytes) es)
        (configuredBounds ctx₀) p t₀ m ↔
      m ≤ 600 ∧ Attainable (configuredBounds ctx₀) := by
  have hInv := BudgetInv.new env cacheSize expiredTtl expiredReplyTtl maxBytes
  have hStore : StoreInv env _ (runEvents env order _ es) := (runEvents_inv hInv es).store
  obtain ⟨hUntil, hRecords⟩ := entry_of_lastWrite hInv (entries_new _ _ _ _) hp hLast hWrite hMin
  have hClamped := storeLookup_records hStored
  obtain ⟨r, hr, hTtl⟩ := List.mem_map.mp (List.min?_mem hMin)
  have hrStored := hRecords r hr
  rw [hClamped] at hrStored
  obtain ⟨r', -, hr'⟩ := List.mem_map.mp hrStored
  constructor
  · intro hLife
    -- the last moment at which the entry should be valid is one at which it is
    have hEnd : t₀ + secs m ≤ p.2.validUntil := (get_valid_iff hStore hp BEq.rfl _).mp
      ((hLife.valid p.1 BEq.rfl _).mpr (Nat.le_refl _))
    have hm : m ≤ 600 := by
      unfold secs at *
      omega
    refine ⟨hm, fun lo hLow => ?_⟩
    have hBottom := (hLife.valid p.1 BEq.rfl _).mp
      (hLife.atLeast lo hLow p.1 BEq.rfl _ (Nat.le_refl _))
    have hLe : lo ≤ m := by
      unfold secs at hBottom
      omega
    refine ⟨by omega, fun hi hHigh => ?_⟩
    have hTop : r.ttl ≤ hi % 2 ^ 32 := by
      rw [← hr']
      exact clampTtlBounds_ttl_le (by rw [rrTtlBounds_eq, hHigh]; rfl) r'
    omega
  · rintro ⟨hm, hAttainable⟩
    rw [Nat.min_eq_right hm] at hUntil
    have hValid : ∀ query, (p.1 == query) = true → ∀ t,
        (∃ res, ((runEvents env order (DnsCache.new cacheSize expiredTtl expiredReplyTtl
          maxBytes) es).get env query t).2 = some (res, .Valid)) ↔ t ≤ t₀ + secs m := by
      intro query hKey t
      rw [get_valid_iff hStore hp hKey, hUntil]
    refine ⟨hValid, ?_, ?_⟩
    · intro lo hLow query hKey t ht
      obtain ⟨hFits, hOrder⟩ := hAttainable lo hLow
      have hGe : lo ≤ r.ttl := by
        rw [← hr']
        refine clampTtlBounds_ttl_ge ?_ (fun hi hHigh => ?_) r'
        · rw [rrTtlBounds_eq, hLow, Option.map_some, Nat.mod_eq_of_lt hFits]
        · rw [rrTtlBounds_eq] at hHigh
          obtain ⟨hi', hHigh', rfl⟩ := Option.map_eq_some_iff.mp hHigh
          exact hOrder hi' hHigh'
      have hLonger : secs lo ≤ secs m := Nat.mul_le_mul_right _ (hTtl ▸ hGe)
      exact (hValid query hKey t).mpr (Nat.le_trans ht (Nat.add_le_add_left hLonger t₀))
    · intro ctx req hKey t hAfter trace cached hRun hQueues
      exact refresh_in_window hStore hp hUntil hMin hm hKey hAfter hRun hQueues

/-- The address of `example.com`, with the TTL the server gave it. -/
def addressFor (ttl : Nat) : DnsResponse :=
  DnsResponse.newWithMaxTtl exampleQuery [Record.fromRdata exampleName ttl exampleAddress]

def addressRequest : DnsRequest := askFor exampleName .A exampleSource

/-- Answers are kept for twenty minutes at least. -/
def longConfig : RuntimeConfig := { RuntimeConfig.default with rrTtlMinSetting := some 1200 }

def contextFor (cfg : RuntimeConfig) : DnsContext :=
  DnsContext.new exampleName cfg ServerOpts.default

/-- The cache with the address stored at time zero. -/
def storedFor (ttl : Nat) : CacheEvent :=
  .op (.insertRecords exampleQuery (addressFor ttl).records 0 "default")

def cacheFor (ttl : Nat) : DnsCache :=
  runEvents exampleEnv firstOrder (DnsCache.new 4 0 0 0) [storedFor ttl]

/-- Answers are kept between one minute and five. -/
def boundedConfig : RuntimeConfig :=
  { RuntimeConfig.default with rrTtlMinSetting := some 60, rrTtlMaxSetting := some 300 }

/-- An answer for an hour is stored for five minutes, and lives that long. -/
theorem entry_lifetime_iff_fiveMinutes :
    ∃ p ∈ (cacheFor 300).entries, minTtl p = some 300 ∧
      Lifetime exampleEnv (cacheFor 300) (configuredBounds (contextFor boundedConfig)) p 0
        300 := by
  refine ⟨_, .head _, rfl, ?_⟩
  refine (entry_lifetime_iff exampleEnv firstOrder 4 0 0 0 [storedFor 300]
    (contextFor boundedConfig) addressRequest (addressFor 3600) exampleQuery
    (addressFor 300).records 0 "default" (.call (.call (.done _))) _ (.head _)
    ⟨[], [], rfl, by simp⟩ ⟨_, .head _, rfl⟩ 300 rfl).mpr ⟨by decide, ?_⟩
  rintro lo hLow
  cases hLow
  refine ⟨by decide, fun hi hHigh => ?_⟩
  cases hHigh
  decide

/-- One second after an answer for an hour was stored, it is refreshed. -/
def earlyHit : List (Sigma Op.Resp) :=
  [⟨.tryPrefetch exampleQuery "default", ()⟩, ⟨.queryHit, ()⟩]

/-- An answer for an hour, under a lower bound of twenty minutes: it is no longer valid after
eleven minutes, and a hit one second after it was stored asks for a refresh, with 3599 seconds of
its TTL and all but one second of its lifetime left. -/
theorem entry_lifetime_cut :
    Prog.Yields (storeLookup (contextFor longConfig) addressRequest (addressFor 3600))
      [⟨.now, 0⟩, ⟨.insertRecords exampleQuery (addressFor 3600).records 0 "default", ()⟩] () ∧
    (∃ res, ((cacheFor 3600).get exampleEnv exampleQuery (secs 660)).2 = some (res, .Expired)) ∧
    (∃ cached, Prog.Yields (lookupCache (contextFor longConfig) addressRequest)
      (⟨.now, secs 1⟩ :: ⟨.cacheGet exampleQuery (secs 1),
        ((cacheFor 3600).get exampleEnv exampleQuery (secs 1)).2⟩ :: earlyHit) cached) ∧
    onHitPrefetchRemainingTtl longConfig = 600 ∧
    ∃ p ∈ (cacheFor 3600).entries, minTtl p = some 3600 ∧
      ¬ Lifetime exampleEnv (cacheFor 3600) (configuredBounds (contextFor longConfig)) p 0
        3600 := by
  refine ⟨.call (.call (.done _)), ⟨_, rfl⟩, ⟨_, .call (.call (.call (.call (.done _))))⟩, rfl, _,
    .head _, rfl, ?_⟩
  intro hLife
  obtain ⟨res, hRes⟩ := hLife.atLeast 1200 rfl exampleQuery rfl (secs 660) (by decide)
  have hStatus : CacheStatus.Expired = .Valid := (Prod.mk.inj (Option.some.inj hRes)).2
  cases hStatus

end SmartDns.Ports.EntryLifetime
