import SmartDns.Ports.PrefetchRearming
import SmartDns.Ports.TtlConservation
import Mathlib.Data.Finset.Card

/-!
# What the scan is brought to

Three questions about the heap of the prefetch scan. Does it bring a scan to
every entry that should be refreshed? It does: as long as an address that a
positive answer has stored is not marked, one of its keys comes no later than
its deadline. Does it bring a scan to other entries? It does that too: a key
outlives the entry it was pushed for, and loading pushes a key for whatever was
saved, so a scan can find a negative answer behind a key and hand its question
out. And when does the scan look again? When the earliest key left in the heap
comes up, unless that key has come up already: then the scan answers with the
delay of an empty heap, a full day, and what a full batch has left over waits
for that long.
-/

namespace SmartDns.Ports.PrefetchCoverage

open DnsMessage DnsLookup CacheStore CacheAccounting CacheContents PrefetchScan PrefetchHeap
open CacheHistory PrefetchRearming InnerChain ServerRuns List

variable {env : CacheEnv} {order : HeapOrder} {cap maxBytes : Nat}

/-! ## Positive entries -/

/-- Whether a response is negative depends on its code and the types of its answers. -/
theorem isNegativeResponse_congr {resp resp' : DnsResponse} {q q' : Query}
    (hCode : resp'.responseCode = resp.responseCode)
    (hTypes : resp'.records.map Record.recordType = resp.records.map Record.recordType)
    (hQuery : (q' == q) = true) : isNegativeResponse resp' q' = isNegativeResponse resp q := by
  have hType : q'.queryType = q.queryType := by
    have hKey : q'.key.queryType = q.key.queryType := by rw [Query.beq_iff_key.mp hQuery]
    exact hKey
  have hAny : ∀ r : DnsResponse, (r.records.any fun x => x.recordType == q.queryType) =
      (r.records.map Record.recordType).any fun t => t == q.queryType := fun r => by
    rw [any_map]
    rfl
  unfold isNegativeResponse
  rw [hCode, hType, hAny, hAny, hTypes]

/-- What `insert_negative` stores is as negative as what it is given. -/
theorem isNegativeResponse_negativeData (resp : DnsResponse) (ttl : Nat) (group : String)
    {q q' : Query} (hQuery : (q' == q) = true) :
    isNegativeResponse (negativeData resp ttl group) q' = isNegativeResponse resp q := by
  refine isNegativeResponse_congr rfl ?_ hQuery
  show (resp.records.map _).map Record.recordType = _
  rw [map_map]
  refine map_congr_left fun r _ => ?_
  show (r.setMaxTtl _).recordType = r.recordType
  rw [Record.setMaxTtl_eq]
  rfl

/-- The event stores nothing as a negative answer that is not one. -/
def Honest : CacheEvent → Prop
  | .op (.insertNegative query resp _ _ _) => isNegativeResponse resp query = true
  | _ => True

/-- A positive entry was written as one. -/
theorem lastPositive_of_honest {c : DnsCache} (hInv : BudgetInv env cap maxBytes c)
    (hEmpty : c.entries = []) {es : List CacheEvent} (hHonest : ∀ e ∈ es, Honest e)
    {p : Query × DnsCacheEntry} (hp : p ∈ (runEvents env order c es).entries)
    (hPositive : isNegativeResponse p.2.data p.1 = false) : LastPositive es p.1 := by
  obtain ⟨e, hLast, hWrites⟩ := produced hInv hEmpty es hp
  refine ⟨e, hLast, hWrites.overwrites, ?_⟩
  have he : e ∈ es := by
    obtain ⟨before, after, hEq, -⟩ := hLast
    rw [hEq]
    simp
  match e with
  | .op (.insert _ _ _ _) => trivial
  | .op (.insertRecords _ _ _ _) => trivial
  | .op (.load _) => trivial
  | .op (.insertNegative query resp ttl group now) =>
    have hNegative : isNegativeResponse resp query = true := hHonest _ he
    rw [hWrites.data, isNegativeResponse_negativeData resp ttl group hWrites.key,
      hNegative] at hPositive
    cases hPositive

/--
After every sequence of operations and scans on an empty cache: an unmarked
entry for addresses has a key in the heap whose time does not come after its
deadline, if it is positive: because its question was last written by anything
but `insert_negative`, or because its response is not a negative one and
`insert_negative` was only given those that are.
-/
theorem heap_coverage (env : CacheEnv) (order : HeapOrder)
    (cacheSize expiredTtl expiredReplyTtl maxBytes : Nat) (es : List CacheEvent)
    (p : Query × DnsCacheEntry)
    (hp : p ∈ (runEvents env order
      (DnsCache.new cacheSize expiredTtl expiredReplyTtl maxBytes) es).entries)
    (hPositive : LastPositive es p.1 ∨
      ((∀ e ∈ es, Honest e) ∧ isNegativeResponse p.2.data p.1 = false))
    (hIp : p.1.queryType.isIpAddr = true) (hUnmarked : p.2.isInPrefetching = false) :
    ∃ key ∈ (runEvents env order
        (DnsCache.new cacheSize expiredTtl expiredReplyTtl maxBytes) es).prefetchHeap,
      (key.2 == p.1) = true ∧ key.1 ≤ p.2.validUntil := by
  have hNew := BudgetInv.new env cacheSize expiredTtl expiredReplyTtl maxBytes
  have hEmpty := entries_new cacheSize expiredTtl expiredReplyTtl maxBytes
  have hLast : LastPositive es p.1 := by
    rcases hPositive with hLast | ⟨hHonest, hData⟩
    · exact hLast
    · exact lastPositive_of_honest hNew hEmpty hHonest hp hData
  exact armed hNew hEmpty es p hp hLast hIp hUnmarked

/-- Both addresses of `example.com` are stored, and a scan returns the one that expires first
and puts the key of the other back. -/
def halfScanned : List CacheEvent :=
  [storeAddress 300 0, storeAddress6 200 0, exampleScan (secs 200)]

/-- The entry that is stored for the address for five minutes. -/
def storedAddress : Query × DnsCacheEntry :=
  (exampleQuery, DnsCacheEntry.new (entryData exampleQuery
    [(Record.fromRdata exampleName 300 exampleAddress, 300)] "default") (secs 300))

theorem heap_coverage_halfScanned :
    ∃ key ∈ (runEvents exampleEnv firstOrder (DnsCache.new 4 0 0 0) halfScanned).prefetchHeap,
      (key.2 == exampleQuery) = true ∧ key.1 ≤ secs 300 :=
  heap_coverage exampleEnv firstOrder 4 0 0 0 halfScanned storedAddress
    (mem_cons_of_mem _ (mem_singleton.mpr rfl))
    (.inr ⟨by simp [halfScanned, Honest, storeAddress, storeAddress6, exampleScan],
      by decide +kernel⟩)
    (by decide +kernel) rfl

/-! ## Negative entries -/

/-- No key of the heap is that of a negative entry. -/
def KeysPositive (c : DnsCache) : Prop :=
  ∀ key ∈ c.prefetchHeap, ∀ p ∈ c.entries, (p.1 == key.2) = true →
    isNegativeResponse p.2.data p.1 = false

/-- The event puts no negative entry behind a key: what is stored together with a key has a
record of the type asked for, and a negative answer is stored only while there is no key for
its question. -/
def KeepsKeys (c : DnsCache) : CacheEvent → Prop
  | .op (.insert query recordsAndTtl _ _) =>
    ∃ x ∈ recordsAndTtl, x.1.recordType = query.queryType
  | .op (.insertNegative query _ _ _ _) => ∀ key ∈ c.prefetchHeap, (key.2 == query) = false
  | .op (.insertRecords query records _ _) => ∃ r ∈ records, r.recordType = query.queryType
  | .op (.load (some entries)) => ∀ e ∈ entries, isNegativeResponse e.data e.data.query = false
  | _ => True

section Keys

variable {c : DnsCache} {e : CacheEvent}

/-- Records of the type asked for make a positive entry. -/
theorem entryData_positive {query q : Query} {recordsAndTtl : List (Record × Nat)}
    (group : String) (hRecord : ∃ x ∈ recordsAndTtl, x.1.recordType = query.queryType)
    (hQuery : (q == query) = true) :
    isNegativeResponse (entryData query recordsAndTtl group) q = false := by
  obtain ⟨x, hx, hType⟩ := hRecord
  rw [isNegativeResponse_congr rfl rfl hQuery]
  show (!((recordsAndTtl.map Prod.fst).any fun r => r.recordType == query.queryType)) = false
  rw [Bool.not_eq_false', any_eq_true]
  exact ⟨x.1, mem_map_of_mem hx, by simp [hType]⟩

/-- Every group that `insert_records` writes has a record of the type of its question, if the
records have one of the type asked for. -/
theorem writtenGroups_type {query : Query} {records : List Record}
    {g : Query × List (Record × Nat)} (hRecord : ∃ r ∈ records, r.recordType = query.queryType)
    (hg : g ∈ writtenGroups query records) :
    ∃ x ∈ g.2, x.1.recordType = g.1.queryType := by
  have hGroups := grouping records
  rcases mem_append.mp hg with hFirst | hGroup
  · split at hFirst
    · rw [mem_singleton.mp hFirst]
      obtain ⟨r, hr, hType⟩ := hRecord
      obtain ⟨g', hg', hOwner⟩ := hGroups.total r hr
      refine ⟨(r, r.ttl), mem_flatMap.mpr ⟨g', hg', ?_⟩, hType⟩
      rw [hGroups.content g' hg']
      exact mem_map.mpr ⟨r, mem_filter.mpr ⟨hr, hOwner⟩, rfl⟩
    · cases hFirst
  · obtain ⟨r, hr, hOwner⟩ := hGroups.source g hGroup
    rw [hGroups.content g hGroup, hOwner]
    exact ⟨(r, r.ttl), mem_map.mpr ⟨r, mem_filter.mpr ⟨hr, BEq.rfl⟩, rfl⟩, rfl⟩

/-- A key in the heap after an event was there for its question before, or the event has
written the question. -/
theorem mem_heap_apply {key : PrefetchKey} (hKey : key ∈ (e.apply env order c).prefetchHeap) :
    (∃ key' ∈ c.prefetchHeap, key'.2 = key.2) ∨ e.Overwrites key.2 := by
  match e with
  | .op (.insert query recordsAndTtl now group) =>
    replace hKey : key ∈ (c.insert env query recordsAndTtl now group).1.prefetchHeap := hKey
    rw [insert_heap] at hKey
    rcases mem_cons.mp hKey with hNew | hOld
    · rw [hNew]
      exact .inr BEq.rfl
    · exact .inl ⟨key, hOld, rfl⟩
  | .op (.insertNegative query resp ttl group now) =>
    replace hKey : key ∈ (c.insertNegative env query resp ttl group now).prefetchHeap := hKey
    rw [insertNegative_heap] at hKey
    exact .inl ⟨key, hKey, rfl⟩
  | .op (.insertRecords query records now group) =>
    replace hKey : key ∈ (c.insertRecords env query records now group).1.prefetchHeap := hKey
    rw [insertRecords_eq, insertAll_heap] at hKey
    rcases mem_append.mp hKey with hNew | hOld
    · obtain ⟨g, hg, hEq⟩ := mem_map.mp (mem_reverse.mp hNew)
      rw [← hEq]
      exact .inr ⟨g, hg, BEq.rfl⟩
    · exact .inl ⟨key, hOld, rfl⟩
  | .op (.load none) => exact .inl ⟨key, hKey, rfl⟩
  | .op (.load (some entries)) =>
    replace hKey : key ∈ (DnsCache.enforceMemoryBudget env _).prefetchHeap := hKey
    rw [enforceMemoryBudget_heap, loadAll_heap] at hKey
    rcases mem_append.mp hKey with hNew | hOld
    · obtain ⟨e, he, hEq⟩ := mem_map.mp (mem_reverse.mp hNew)
      rw [← hEq]
      exact .inr ⟨e, he, BEq.rfl⟩
    · exact .inl ⟨key, hOld, rfl⟩
  | .op .clear => cases hKey
  | .op (.get query now) =>
    replace hKey : key ∈ (c.onShard env query _).prefetchHeap := hKey
    rw [onShard_heap] at hKey
    exact .inl ⟨key, hKey, rfl⟩
  | .getExpired now secondsAhead baseInterval maxCount =>
    obtain ⟨key', hKey', hSame⟩ := mem_map.mp
      ((getExpired_questions c now secondsAhead baseInterval maxCount).subset
        (mem_map_of_mem hKey))
    exact .inl ⟨key', hKey', hSame⟩

/-- One event that keeps to the condition. -/
theorem KeysPositive.apply (hInv : BudgetInv env cap maxBytes c) (h : KeysPositive c)
    (hKeeps : KeepsKeys c e) : KeysPositive (e.apply env order c) := by
  intro key hKey p hp hSame
  rcases mem_apply hInv hp with hWrites | ⟨hOther, q, hq, hName, hData, -, -⟩
  · match e with
    | .op (.insert _ _ _ group) =>
      rw [hWrites.data]
      exact entryData_positive group hKeeps hWrites.key
    | .op (.insertNegative query resp ttl group now) =>
      replace hKey : key ∈ (c.insertNegative env query resp ttl group now).prefetchHeap := hKey
      rw [insertNegative_heap] at hKey
      have hNone := hKeeps key hKey
      rw [BEq.trans (BEq.symm hSame) hWrites.key] at hNone
      cases hNone
    | .op (.insertRecords _ _ _ group) =>
      obtain ⟨g, hg, hWritten⟩ := hWrites
      rw [hWritten.data]
      exact entryData_positive group (writtenGroups_type hKeeps hg) hWritten.key
    | .op (.load (some _)) =>
      obtain ⟨e, he, hWritten⟩ := hWrites
      rw [hWritten.data, isNegativeResponse_congr rfl rfl hWritten.key]
      exact hKeeps e he
  · -- the entry is an old one and the event did not write its question, so neither is the key new
    rcases mem_heap_apply hKey with ⟨key', hKey', hQuestion⟩ | hWritten
    · rw [hName, ← hQuestion] at hSame
      rw [hData, hName]
      exact h key' hKey' q hq hSame
    · exact absurd (hWritten.congr (BEq.symm hSame)) hOther

end Keys

/-- A scan under way has returned nothing but questions of keys that were in the heap. -/
structure Heard (heap : List PrefetchKey) (s : Scan) : Prop where
  known : ∀ key ∈ s.cache.prefetchHeap, key ∈ heap
  returned : ∀ x ∈ s.expired, ∃ key ∈ heap, key.2 = x.1

/-- One visit returns no question but those of the keys. -/
theorem Heard.visits {threshold baseInterval maxCount : Nat} {heap : List PrefetchKey}
    {s s' : Scan} {key : PrefetchKey} {rest : List PrefetchKey} {go : Bool} (h : Heard heap s)
    (hPop : order.pop s.cache.prefetchHeap = some (key, rest))
    (hVisits : Visits env threshold baseInterval maxCount (s.popped rest) key s' go) :
    Heard heap s' := by
  have hKey : key ∈ heap := h.known key ((order.mem_pop hPop).mpr (.inl rfl))
  have hKnown : ∀ k ∈ s'.cache.prefetchHeap, k ∈ heap := by
    intro k hk
    rw [visits_heap hVisits] at hk
    exact h.known k ((order.mem_pop hPop).mpr (.inr hk))
  refine ⟨hKnown, ?_⟩
  cases hVisits with
  | stop | gone | skip | current => exact h.returned
  | due _ _ _ _ _ _ =>
    exact forall_mem_append.mpr ⟨h.returned, forall_mem_singleton.mpr ⟨key, hKey, rfl⟩⟩

/-- What a scan returns are questions of keys. -/
theorem getExpired_heard {c : DnsCache} {now : Nat} {secondsAhead : Option Nat}
    {baseInterval maxCount : Nat} {x : Query × Option String}
    (hx : x ∈ (getExpired env order c now secondsAhead baseInterval maxCount).expired) :
    ∃ key ∈ c.prefetchHeap, key.2 = x.1 := by
  obtain ⟨y, hy, hEq⟩ := mem_expired.mp hx
  rw [← hEq]
  have hHeard : Heard c.prefetchHeap (scanLoop env order (scanThreshold c now secondsAhead)
      baseInterval maxCount c.prefetchHeap.length ⟨c, [], []⟩) := by
    refine scanLoop_invariant (Heard c.prefetchHeap) ?_ _ ⟨fun _ hk => hk, nofun⟩
    intro s key rest s' go h hPop hVisits
    exact h.visits hPop hVisits
  exact hHeard.returned y hy

/--
**Negative entries are not prefetched** in any run of operations and scans on an
empty cache in which no step puts a negative entry behind a key: no scan of the
run returns a question whose entry is negative. Keys are followed through
overwrites, evictions, loads and earlier scans.
-/
theorem negatives_not_prefetched (env : CacheEnv) (order : HeapOrder)
    (cacheSize expiredTtl expiredReplyTtl maxBytes : Nat) (es : List CacheEvent)
    (hKeeps : ∀ before e after, es = before ++ e :: after →
      KeepsKeys (runEvents env order
        (DnsCache.new cacheSize expiredTtl expiredReplyTtl maxBytes) before) e)
    (before after : List CacheEvent) (now : Nat) (secondsAhead : Option Nat)
    (baseInterval maxCount : Nat)
    (hScan : es = before ++ .getExpired now secondsAhead baseInterval maxCount :: after) :
    let c := runEvents env order (DnsCache.new cacheSize expiredTtl expiredReplyTtl maxBytes) before
    let result := getExpired env order c now secondsAhead baseInterval maxCount
    ∀ x ∈ result.expired, ∀ p ∈ result.cache.entries, (p.1 == x.1) = true →
      isNegativeResponse p.2.data p.1 = false := by
  intro c result x hx p hp hSame
  have hNew := BudgetInv.new env cacheSize expiredTtl expiredReplyTtl maxBytes
  have hInv : BudgetInv env (max cacheSize 1) maxBytes c := runEvents_inv hNew before
  have hPositive : ∀ done, (∃ rest, before = done ++ rest) → KeysPositive (runEvents env order
      (DnsCache.new cacheSize expiredTtl expiredReplyTtl maxBytes) done) := by
    intro done
    induction done using reverseRecOn with
    | nil => exact fun _ key hKey => absurd hKey not_mem_nil
    | append_singleton done e ih =>
      rintro ⟨rest, hEq⟩
      rw [runEvents_concat]
      rw [append_assoc] at hEq
      refine KeysPositive.apply (runEvents_inv hNew done) (ih ⟨_, hEq⟩) (hKeeps done e
        (rest ++ .getExpired now secondsAhead baseInterval maxCount :: after) ?_)
      rw [hScan, hEq]
      simp
  obtain ⟨key, hKey, hQuestion⟩ := getExpired_heard hx
  obtain ⟨q, hq, hName, hAged⟩ := mem_getExpired hInv hp
  rw [← hQuestion, hName] at hSame
  rw [hAged.data, hName]
  exact hPositive before ⟨[], (append_nil _).symm⟩ key hKey q hq hSame

/-- The name has no IPv4 address, says a stored negative answer; its IPv6 address is stored and
due at the scan. -/
def negativeBeside : List CacheEvent :=
  [TtlConservation.storedNegative TtlConservation.missingName, storeAddress6 300 0]

theorem negatives_not_prefetched_negativeBeside :
    let c := runEvents exampleEnv firstOrder (DnsCache.new 4 0 0 0) negativeBeside
    let result := getExpired exampleEnv firstOrder c (secs 300) (some 5) (secs 1) 16
    (∃ p ∈ c.entries, isNegativeResponse p.2.data p.1 = true) ∧ result.expired.length = 1 ∧
      ∀ x ∈ result.expired, ∀ p ∈ result.cache.entries, (p.1 == x.1) = true →
        isNegativeResponse p.2.data p.1 = false := by
  refine ⟨by decide +kernel, by decide +kernel, ?_⟩
  refine negatives_not_prefetched exampleEnv firstOrder 4 0 0 0
    (negativeBeside ++ [exampleScan (secs 300)]) ?_ negativeBeside [] (secs 300) (some 5) (secs 1)
    16 rfl
  intro before e after hEq
  match before with
  | [] =>
    cases hEq
    exact fun key hKey => absurd hKey not_mem_nil
  | [_] =>
    cases hEq
    exact ⟨_, .head _, rfl⟩
  | [_, _] =>
    cases hEq
    trivial
  | _ :: _ :: _ :: _ => exact absurd (congrArg length hEq) (by simp [negativeBeside])

/-- A scan of the cache returns a question for which a negative answer is stored. -/
def PrefetchesNegative (c : DnsCache) (now : Nat) : Prop :=
  ∃ p ∈ c.entries, isNegativeResponse p.2.data p.1 = true ∧
    ((scanned c now).any fun x => p.1 == x) = true

/--
The name stops to exist after its address was stored: the key of the address is
still there, and a scan past the deadline of the negative answer returns the
question. So it does if the negative answer comes out of a file.
-/
theorem negatives_prefetched :
    PrefetchesNegative (exampleRun [TtlConservation.storedNegative TtlConservation.missingName])
        (secs 3600) ∧
      PrefetchesNegative (runEvents exampleEnv firstOrder (DnsCache.new 4 0 0 0)
        [.op (.load (some [DnsCacheEntry.new TtlConservation.missingName (secs 60)]))])
        (secs 60) := by
  refine ⟨⟨_, mem_singleton.mpr rfl, ?_, ?_⟩, ⟨_, mem_singleton.mpr rfl, ?_, ?_⟩⟩
  · decide +kernel
  · decide +kernel
  · decide +kernel
  · decide +kernel

/-! ## When to look again -/

/-- A delay after which no key of the heap has been waiting: none at all if one has come up. -/
def Prompt (delay : Nat) (heap : List PrefetchKey) (threshold : Nat) : Prop :=
  ∀ key ∈ heap, delay ≤ key.1 - threshold

theorem prompt_mostRecent_iff (order : HeapOrder) (heap : List PrefetchKey) (threshold : Nat) :
    Prompt (mostRecent order heap threshold) heap threshold ↔ ∀ key ∈ heap, threshold < key.1 := by
  have hDay : 0 < secs DnsResponse.maxTtl := by decide
  unfold mostRecent
  cases hPop : order.pop heap with
  | none =>
    rw [order.empty_of_none hPop]
    simp [Prompt]
  | some popped =>
    obtain ⟨first, rest⟩ := popped
    have hFirst : first ∈ heap := (order.mem_pop hPop).mpr (.inl rfl)
    dsimp only
    by_cases hLater : first.1 > threshold
    · rw [if_pos hLater]
      refine iff_of_true ?_ ?_
      all_goals
        intro key hKey
        have := order.rank_le hPop hKey
        omega
    · rw [if_neg hLater]
      refine iff_of_false ?_ ?_
      · intro hPrompt
        have := hPrompt first hFirst
        omega
      · intro hAll
        exact hLater (hAll first hFirst)

section Delays

variable (env : CacheEnv) (c : DnsCache) (threshold : Nat)

/-- The question is for an address, and its entry is not marked and has a deadline that `test`
accepts. -/
def entryTest (test : Nat → Bool) (q : Query) : Bool :=
  q.queryType.isIpAddr && (c.peekEntry env q).any fun p =>
    !p.2.isInPrefetching && test p.2.validUntil

/-- The question is due for a refresh. -/
def dueAt (q : Query) : Bool := entryTest env c (fun t => decide (t < threshold)) q

/-- The entry expires at the threshold itself, when it still counts as current. -/
def expiresAt (q : Query) : Bool := entryTest env c (fun t => decide (t = threshold)) q

/-- The questions that are due among those of some keys, without their spelling. -/
def dueKeys (keys : List PrefetchKey) : Finset Query :=
  (((keys.map Prod.snd).filter (dueAt env c threshold)).map Query.key).toFinset

/-- A batch has room for all keys that have come up: each of them is popped before the batch is
full, and none finds an entry that expires at the threshold itself. -/
def Affords (order : HeapOrder) (maxCount : Nat) : Prop :=
  ∀ earlier key later, order.inOrder c.prefetchHeap = earlier ++ key :: later →
    key.1 ≤ threshold →
    (dueKeys env c threshold earlier).card < maxCount ∧
      expiresAt env c threshold key.2 = false

end Delays

section Drains

variable {c : DnsCache} {threshold baseInterval maxCount : Nat} {s s' : Scan}
  {key : PrefetchKey} {rest earlier : List PrefetchKey}

theorem peekEntry_congr (h : StoreInv env cap c) {q q' : Query} (hSame : (q == q') = true) :
    c.peekEntry env q = c.peekEntry env q' := by
  ext p
  rw [peekEntry_eq_some h, peekEntry_eq_some h]
  exact and_congr_right fun _ =>
    ⟨fun hKey => BEq.trans hKey hSame, fun hKey => BEq.trans hKey (BEq.symm hSame)⟩

theorem entryTest_congr (h : StoreInv env cap c) (test : Nat → Bool) {q q' : Query}
    (hSame : (q == q') = true) : entryTest env c test q = entryTest env c test q' := by
  unfold entryTest
  rw [isIpAddr_eq hSame, peekEntry_congr h hSame]

/-- An update in place, as lookups see it. -/
theorem peekEntry_touch (h : BudgetInv env cap maxBytes c) {q : Query}
    {f : DnsCacheEntry → DnsCacheEntry} (hf : ∀ e, (f e).data = e.data) (q' : Query) :
    (c.touch env q f).peekEntry env q' =
      (c.peekEntry env q').map fun p => if (q' == q) = true then (p.1, f p.2) else p := by
  ext p
  rw [peekEntry_eq_some (h.touch q hf).store, mem_touch_iff h.store, Option.map_eq_some_iff]
  simp only [peekEntry_eq_some h.store]
  constructor
  · rintro ⟨⟨hp, hOther⟩ | ⟨p', hp', hKey, hEq⟩, hSame⟩
    · refine ⟨p, ⟨hp, hSame⟩, if_neg ?_⟩
      intro hTouched
      rw [BEq.trans hSame hTouched] at hOther
      cases hOther
    · rw [hEq] at hSame ⊢
      exact ⟨p', ⟨hp', hSame⟩, if_pos (BEq.trans (BEq.symm hSame) hKey)⟩
  · rintro ⟨p', ⟨hp', hSame⟩, hEq⟩
    by_cases hTouched : (q' == q) = true
    · rw [if_pos hTouched] at hEq
      rw [← hEq]
      exact ⟨.inr ⟨p', hp', BEq.trans hSame hTouched, rfl⟩, hSame⟩
    · rw [if_neg hTouched] at hEq
      rw [← hEq]
      refine ⟨.inl ⟨hp', eq_false_of_ne_true fun hKey => hTouched ?_⟩, hSame⟩
      exact BEq.trans (BEq.symm hSame) hKey

/-- A question is due when one of its keys is. -/
theorem mem_dueKeys {keys : List PrefetchKey} {q : Query} :
    q ∈ dueKeys env c threshold keys ↔
      ∃ key ∈ keys, dueAt env c threshold key.2 = true ∧ key.2.key = q := by
  simp only [dueKeys, mem_toFinset, mem_map, mem_filter]
  constructor
  · rintro ⟨_, ⟨⟨key, hKey, rfl⟩, hDue⟩, hq⟩
    exact ⟨key, hKey, hDue, hq⟩
  · rintro ⟨key, hKey, hDue, hq⟩
    exact ⟨_, ⟨⟨key, hKey, rfl⟩, hDue⟩, hq⟩

/-- One more key, if it is due. -/
theorem dueKeys_concat {keys : List PrefetchKey} (h : dueAt env c threshold key.2 = true) :
    dueKeys env c threshold (keys ++ [key]) =
      insert key.2.key (dueKeys env c threshold keys) := by
  ext q
  rw [Finset.mem_insert, mem_dueKeys, mem_dueKeys]
  simp only [mem_append, mem_singleton]
  constructor
  · rintro ⟨k, hKey | rfl, hDue, hq⟩
    · exact .inr ⟨k, hKey, hDue, hq⟩
    · exact .inl hq.symm
  · rintro (rfl | ⟨k, hKey, hDue, hq⟩)
    · exact ⟨key, .inr rfl, h, rfl⟩
    · exact ⟨k, .inl hKey, hDue, hq⟩

/-- One more key that is not due or whose question is among those already. -/
theorem dueKeys_concat_eq {keys : List PrefetchKey}
    (h : dueAt env c threshold key.2 = false ∨ key.2.key ∈ dueKeys env c threshold keys) :
    dueKeys env c threshold (keys ++ [key]) = dueKeys env c threshold keys := by
  cases hDue : dueAt env c threshold key.2 with
  | true =>
    rw [dueKeys_concat hDue]
    exact Finset.insert_eq_of_mem (h.resolve_left (by simp [hDue]))
  | false =>
    ext q
    rw [mem_dueKeys, mem_dueKeys]
    simp [or_and_right, exists_or, hDue]

/-- A scan that has popped `earlier` and not ended: what it has marked and returned are the
questions that were due among them. -/
structure Progress (env : CacheEnv) (cap maxBytes : Nat) (c : DnsCache) (threshold : Nat)
    (earlier : List PrefetchKey) (s : Scan) : Prop where
  inv : BudgetInv env cap maxBytes s.cache
  entries : ∀ q, s.cache.peekEntry env q = (c.peekEntry env q).map fun p =>
    if q.key ∈ dueKeys env c threshold earlier then (p.1, inPrefetching p.2) else p
  count : s.expired.length = (dueKeys env c threshold earlier).card

/-- A question that was due under an earlier key. -/
theorem dueAt_of_mem (hInv : StoreInv env cap c) {q : Query}
    (h : q.key ∈ dueKeys env c threshold earlier) : dueAt env c threshold q = true := by
  obtain ⟨key, -, hDue, hKey⟩ := mem_dueKeys.mp h
  rw [← hDue]
  exact entryTest_congr hInv _ (Query.beq_iff_key.mpr hKey.symm)

/-- A key that changes no entry and returns nothing, because its question was not due or was
returned before. -/
theorem Progress.pass (h : Progress env cap maxBytes c threshold earlier s)
    (hInv : BudgetInv env cap maxBytes s'.cache)
    (hPeek : ∀ q, s'.cache.peekEntry env q = s.cache.peekEntry env q)
    (hExpired : s'.expired = s.expired)
    (hNot : dueAt env c threshold key.2 = false ∨ key.2.key ∈ dueKeys env c threshold earlier) :
    Progress env cap maxBytes c threshold (earlier ++ [key]) s' := by
  refine ⟨hInv, fun q => ?_, ?_⟩
  · rw [hPeek, h.entries, dueKeys_concat_eq hNot]
  · rw [hExpired, h.count, dueKeys_concat_eq hNot]

/-- What a scan finds behind a key: the entry as it was, or, if an earlier key has returned the
question, the entry with a mark. -/
theorem Progress.found (h : Progress env cap maxBytes c threshold earlier s) {q : Query}
    {p : Query × DnsCacheEntry} (hPeek : s.cache.peekEntry env q = some p) :
    ∃ p₀, c.peekEntry env q = some p₀ ∧ p.2.validUntil = p₀.2.validUntil ∧
      p.2.prefetchFailureTime = p₀.2.prefetchFailureTime ∧
      (p.2.isInPrefetching = false ↔
        p₀.2.isInPrefetching = false ∧ q.key ∉ dueKeys env c threshold earlier) := by
  rw [h.entries] at hPeek
  obtain ⟨p₀, hFound, hEq⟩ := Option.map_eq_some_iff.mp hPeek
  refine ⟨p₀, hFound, ?_⟩
  rw [← hEq]
  split <;> simp_all [inPrefetching]

/-- One key that has come up, while the batch has room. -/
theorem Progress.visits {go : Bool} (hInv : BudgetInv env cap maxBytes c) (hUnfailed : Unfailed c)
    (h : Progress env cap maxBytes c threshold earlier s) (hKey : key.1 ≤ threshold)
    (hRoom : s.expired.length < maxCount)
    (hVisits : Visits env threshold baseInterval maxCount (s.popped rest) key s' go) :
    go = true ∧ Progress env cap maxBytes c threshold (earlier ++ [key]) s' ∧
      ((∀ k ∈ s'.requeue, threshold < k.1) ↔
        (∀ k ∈ s.requeue, threshold < k.1) ∧ expiresAt env c threshold key.2 = false) := by
  have hPopped : BudgetInv env cap maxBytes (s.popped rest).cache := withHeap_inv h.inv rest
  have hAfter := visits_inv hPopped hVisits
  have hTouch : ∀ f : DnsCacheEntry → DnsCacheEntry, (∀ e, (f e).data = e.data) →
      ∀ q, ((s.popped rest).cache.touch env key.2 f).peekEntry env q =
        (s.cache.peekEntry env q).map fun p => if (q == key.2) = true then (p.1, f p.2) else p :=
    fun f hf q => peekEntry_touch hPopped hf q
  have hUsed : ∀ q, ((s.popped rest).cache.touch env key.2 id).peekEntry env q =
      s.cache.peekEntry env q := by
    intro q
    rw [hTouch id (fun _ => rfl)]
    simp
  have hSame : ∀ {P : Prop}, P → ((∀ k ∈ s.requeue, threshold < k.1) ↔
      (∀ k ∈ s.requeue, threshold < k.1) ∧ P) := fun hP => ⟨fun hAll => ⟨hAll, hP⟩, And.left⟩
  cases hVisits with
  | stop hStop =>
    have hLength : (s.popped rest).expired.length = s.expired.length := rfl
    omega
  | gone _ _ hNone =>
    have hGone : c.peekEntry env key.2 = none := by
      have hEntries := h.entries key.2
      rw [show s.cache.peekEntry env key.2 = none from hNone] at hEntries
      exact Option.map_eq_none_iff.mp hEntries.symm
    refine ⟨rfl, h.pass hPopped (fun _ => rfl) rfl (.inl ?_), hSame ?_⟩
    · simp [dueAt, entryTest, hGone]
    · simp [expiresAt, entryTest, hGone]
  | @skip p _ _ hPeek hSkip =>
    obtain ⟨p₀, hFound, -, -, hMark⟩ := h.found hPeek
    by_cases hDue : key.2.key ∈ dueKeys env c threshold earlier
    · refine ⟨rfl, h.pass hAfter hUsed rfl (.inr hDue), hSame ?_⟩
      have hWasDue := dueAt_of_mem hInv.store hDue
      simp only [dueAt, entryTest, hFound, Option.any_some, Bool.and_eq_true, Bool.not_eq_true',
        decide_eq_true_eq] at hWasDue
      have hNe : p₀.2.validUntil ≠ threshold := by omega
      simp [expiresAt, entryTest, hFound, hNe]
    · have hNot : key.2.queryType.isIpAddr = false ∨ p₀.2.isInPrefetching = true := by
        by_contra hBoth
        rw [not_or, Bool.not_eq_false, Bool.not_eq_true] at hBoth
        have hUnmarked := hMark.mpr ⟨hBoth.2, hDue⟩
        exact (hSkip.elim (fun hRetry => by
          rw [shouldRetryPrefetch_of_unmarked hUnmarked] at hRetry
          cases hRetry) fun hOther => by
          rw [hBoth.1] at hOther
          cases hOther)
      refine ⟨rfl, h.pass hAfter hUsed rfl (.inl ?_), hSame ?_⟩
      · rcases hNot with hNot | hNot <;> simp [dueAt, entryTest, hFound, hNot]
      · rcases hNot with hNot | hNot <;> simp [expiresAt, entryTest, hFound, hNot]
  | @current p _ _ hPeek hRetry hIp hCurrent =>
    obtain ⟨p₀, hFound, hUntil, hFailure, hMark⟩ := h.found hPeek
    have hNone := hUnfailed p₀ ((peekEntry_eq_some hInv.store).mp hFound).1
    obtain ⟨hUnmarked, -⟩ := hMark.mp (unmarked_of_retry (hFailure.trans hNone) hRetry)
    have hNotPast : ¬ p₀.2.validUntil < threshold := by omega
    refine ⟨rfl, h.pass hAfter hUsed rfl (.inl ?_), ?_⟩
    · simp [dueAt, entryTest, hFound, hNotPast]
    · rw [forall_mem_append, forall_mem_singleton]
      refine and_congr_right fun _ => ?_
      have hLater : threshold < p.2.validUntil ↔ p₀.2.validUntil ≠ threshold := by omega
      simp [expiresAt, entryTest, hFound, hIp, hUnmarked, hLater]
  | @due p _ _ hPeek hRetry hIp hPast =>
    obtain ⟨p₀, hFound, hUntil, hFailure, hMark⟩ := h.found hPeek
    have hNone := hUnfailed p₀ ((peekEntry_eq_some hInv.store).mp hFound).1
    obtain ⟨hUnmarked, hNew⟩ := hMark.mp (unmarked_of_retry (hFailure.trans hNone) hRetry)
    rw [hUntil] at hPast
    have hDue : dueAt env c threshold key.2 = true := by
      simp [dueAt, entryTest, hFound, hIp, hUnmarked, hPast]
    refine ⟨rfl, ⟨hAfter, fun q => ?_, ?_⟩, hSame ?_⟩
    · rw [hTouch inPrefetching (fun _ => rfl), h.entries, dueKeys_concat hDue, Option.map_map]
      congr 1
      funext p'
      simp only [Function.comp_apply, Finset.mem_insert, Query.beq_iff_key]
      by_cases hHere : q.key = key.2.key
      · simp [hHere, hNew]
      · simp [hHere]
    · rw [dueKeys_concat hDue, Finset.card_insert_of_notMem hNew, ← h.count]
      exact length_append
    · simp [expiresAt, entryTest, hFound, hPast.ne]

/-- Every element of a list together with what stands before it. -/
theorem forall_split_cons {α : Type} {x : α} {xs : List α} {P : List α → α → Prop} :
    (∀ front y back, x :: xs = front ++ y :: back → P front y) ↔
      P [] x ∧ ∀ front y back, xs = front ++ y :: back → P (x :: front) y := by
  constructor
  · intro h
    refine ⟨h [] x xs rfl, fun front y back hEq => h (x :: front) y back ?_⟩
    rw [hEq, cons_append]
  · rintro ⟨hHead, hTail⟩ front y back hEq
    cases front with
    | nil =>
      obtain ⟨rfl, -⟩ := cons.inj hEq
      exact hHead
    | cons x' front =>
      obtain ⟨rfl, hRest⟩ := cons.inj hEq
      exact hTail front y back hRest

/-- With fuel for every key of the heap, a scan leaves no key that has come up exactly if it has
put back none so far and the batch has room for those that are still in the heap. -/
theorem scanLoop_drained_iff (hInv : BudgetInv env cap maxBytes c) (hUnfailed : Unfailed c)
    (fuel : Nat) :
    ∀ {s : Scan} {earlier : List PrefetchKey}, Progress env cap maxBytes c threshold earlier s →
      s.cache.prefetchHeap.length ≤ fuel →
      ((∀ k ∈ (scanLoop env order threshold baseInterval maxCount fuel s).requeue ++
          (scanLoop env order threshold baseInterval maxCount fuel s).cache.prefetchHeap,
          threshold < k.1) ↔
        (∀ k ∈ s.requeue, threshold < k.1) ∧
          ∀ next key later, order.inOrder s.cache.prefetchHeap = next ++ key :: later →
            key.1 ≤ threshold →
            (dueKeys env c threshold (earlier ++ next)).card < maxCount ∧
              expiresAt env c threshold key.2 = false) := by
  induction fuel with
  | zero =>
    intro s earlier h hFuel
    have hEmpty := eq_nil_of_length_eq_zero (Nat.le_zero.mp hFuel)
    unfold scanLoop
    rw [hEmpty, append_nil]
    refine ⟨fun hAll => ⟨hAll, fun next key later hEq => ?_⟩, And.left⟩
    exact absurd hEq (by simp [Verified.MinPop.inOrder, Verified.MinPop.drain])
  | succ fuel ih =>
    intro s earlier h hFuel
    unfold scanLoop
    cases hPop : order.pop s.cache.prefetchHeap with
    | none =>
      dsimp only
      rw [order.inOrder_of_none hPop, order.empty_of_none hPop, append_nil]
      refine ⟨fun hAll => ⟨hAll, fun next key later hEq => ?_⟩, And.left⟩
      exact absurd hEq (by simp)
    | some popped =>
      obtain ⟨key, rest⟩ := popped
      have hLength := order.length_pop hPop
      have hVisits : Visits env threshold baseInterval maxCount (s.popped rest) key _ _ :=
        PrefetchScan.visits (s.popped rest) key
      rw [order.inOrder_of_pop hPop, forall_split_cons, append_nil]
      dsimp only
      generalize (s.popped rest).visit env threshold baseInterval maxCount key = r at hVisits ⊢
      obtain ⟨s', go⟩ := r
      by_cases hCome : key.1 ≤ threshold ∧ s.expired.length < maxCount
      · obtain ⟨rfl, hNext, hRequeue⟩ := h.visits hInv hUnfailed hCome.1 hCome.2 hVisits
        have hHeap : s'.cache.prefetchHeap = rest := visits_heap hVisits
        have hStep := ih hNext (by rw [hHeap]; omega)
        simp only [hRequeue, hHeap, append_assoc, singleton_append] at hStep
        rw [if_pos rfl, hStep, and_assoc]
        refine and_congr_right fun _ => and_congr_left fun _ => ?_
        have hCount : (dueKeys env c threshold earlier).card < maxCount := by
          rw [← h.count]
          exact hCome.2
        exact ⟨fun hNot _ => ⟨hCount, hNot⟩, fun hAll => (hAll hCome.1).2⟩
      · -- the scan ends with this key: it has not come up, and no other has, or the batch is full
        have hStop : s' = { s.popped rest with requeue := s.requeue ++ [key] } ∧ go = false := by
          cases hVisits with
          | stop _ => exact ⟨rfl, rfl⟩
          | gone hKey hRoom | skip hKey hRoom | current hKey hRoom | due hKey hRoom =>
            exact absurd ⟨hKey, hRoom⟩ hCome
        obtain ⟨rfl, rfl⟩ := hStop
        rw [if_neg Bool.false_ne_true]
        show (∀ k ∈ (s.requeue ++ [key]) ++ rest, threshold < k.1) ↔ _
        rw [append_assoc, forall_mem_append]
        refine and_congr_right fun _ => ?_
        rw [singleton_append, forall_mem_cons]
        by_cases hKey : key.1 ≤ threshold
        · refine iff_of_false (fun hAll => absurd hAll.1 (by omega)) fun hAll => ?_
          refine hCome ⟨hKey, ?_⟩
          rw [h.count]
          exact (hAll.1 hKey).1
        · have hLater : ∀ k ∈ rest, threshold < k.1 := fun k hk =>
            Nat.lt_of_lt_of_le (Nat.lt_of_not_le hKey) (order.least hPop k hk)
          refine iff_of_true ⟨Nat.lt_of_not_le hKey, hLater⟩
            ⟨fun hCome => absurd hCome hKey, fun next k later hEq hCome => ?_⟩
          have hMem : k ∈ rest := order.mem_inOrder _ (by
            rw [show order.drain rest.length rest = _ from hEq]
            simp)
          have := hLater k hMem
          omega

end Drains

/--
**Scan scheduling.** For every cache that keeps the invariant of the store and
has no failed refresh on record, as every reachable one does, every threshold
and every batch limit: the delay a scan answers with is at most the time until
the earliest key left in the heap comes up, and zero if one has come up, exactly
if the batch affords all keys that have come up before the scan.
-/
theorem scan_delay (env : CacheEnv) (order : HeapOrder) (cap maxBytes : Nat) (c : DnsCache)
    (hInv : BudgetInv env cap maxBytes c) (hUnfailed : Unfailed c) (now : Nat)
    (secondsAhead : Option Nat) (baseInterval maxCount : Nat) :
    let threshold := scanThreshold c now secondsAhead
    let result := getExpired env order c now secondsAhead baseInterval maxCount
    Prompt result.mostRecent result.cache.prefetchHeap threshold ↔
      Affords env c threshold order maxCount := by
  intro threshold result
  have hStart : Progress env cap maxBytes c threshold [] ⟨c, [], []⟩ :=
    ⟨hInv, fun q => by simp [dueKeys], rfl⟩
  calc Prompt result.mostRecent result.cache.prefetchHeap threshold
    _ ↔ ∀ key ∈ result.cache.prefetchHeap, threshold < key.1 :=
      prompt_mostRecent_iff order result.cache.prefetchHeap threshold
    _ ↔ (∀ key ∈ ([] : List PrefetchKey), threshold < key.1) ∧
          Affords env c threshold order maxCount :=
      scanLoop_drained_iff hInv hUnfailed _ hStart (Nat.le_refl _)
    _ ↔ Affords env c threshold order maxCount := and_iff_right nofun

/-- The addresses of `example.com` in both families are stored for five minutes. -/
def bothFamilies : DnsCache := exampleRun [storeAddress6 300 0]

/-- With room for both the batch is full when both keys have been popped, and the delay is that
of an empty heap. -/
theorem scan_delay_bothFamilies :
    let result := getExpired exampleEnv firstOrder bothFamilies (secs 300) (some 5) (secs 1) 2
    result.expired.length = 2 ∧
      Prompt result.mostRecent result.cache.prefetchHeap (secs 305) := by
  refine ⟨by decide +kernel, ?_⟩
  refine (scan_delay exampleEnv firstOrder 4 0 bothFamilies
    (runEvents_inv (BudgetInv.new exampleEnv 4 0 0 0) _)
    (by unfold Unfailed; decide +kernel) (secs 300) (some 5) (secs 1) 2).mpr ?_
  intro earlier key later hEq hKey
  match earlier with
  | [] =>
    cases hEq
    decide +kernel
  | [_] =>
    cases hEq
    decide +kernel
  | a :: b :: more =>
    have hLength : 2 = (a :: b :: more ++ key :: later).length := congrArg length hEq
    simp only [length_append, length_cons] at hLength
    omega

/--
Both are due, and the batch has room for one: the key of the other has come up
and is left over, and the next scan is put off by a day.
-/
theorem full_batch_postponed :
    let result := getExpired exampleEnv firstOrder bothFamilies (secs 300) (some 5) (secs 1) 1
    result.expired.length = 1 ∧ result.cache.prefetchHeap.map Prod.fst = [secs 300] ∧
      scanThreshold bothFamilies (secs 300) (some 5) = secs 305 ∧
      result.mostRecent = secs 86400 ∧
      ¬ Prompt result.mostRecent result.cache.prefetchHeap (secs 305) := by
  intro result
  have hHeap : result.cache.prefetchHeap.map Prod.fst = [secs 300] := by decide +kernel
  have hDelay : result.mostRecent = secs 86400 := by decide +kernel
  refine ⟨by decide +kernel, hHeap, by decide +kernel, hDelay, ?_⟩
  obtain ⟨key, hKey, hTime⟩ : ∃ key ∈ result.cache.prefetchHeap, key.1 = secs 300 := by
    have hMem : secs 300 ∈ result.cache.prefetchHeap.map Prod.fst := by
      exact mem_singleton.mpr rfl
    exact mem_map.mp hMem
  intro hPrompt
  have hZero := hPrompt key hKey
  rw [hDelay, hTime] at hZero
  cases hZero

end SmartDns.Ports.PrefetchCoverage
