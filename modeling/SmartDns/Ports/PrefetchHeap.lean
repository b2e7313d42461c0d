import SmartDns.Ports.CacheHistory
import SmartDns.Ports.CacheRoom
import SmartDns.Ports.ServerRuns

/-!
# The size of the prefetch heap

Every insertion pushes a key, whether or not the heap already holds one for the
question, and nothing removes a key when its entry is replaced or evicted. With
prefetching off no scan runs at all; with prefetching on, a scan puts every key
back whose entry has been refreshed, so the keys of a question that is
refreshed in time are all kept.

A scan never adds a question to the heap. The size is therefore bounded as long
as no key is pushed on a heap that holds one for the question already, or one
whose entry is gone.
-/

namespace SmartDns.Ports.PrefetchHeap

open Verified DnsMessage DnsLookup CacheStore CacheAccounting CacheContents CacheRoom PrefetchScan
open CacheHistory ServerRuns List

variable {env : CacheEnv} {order : HeapOrder} {cap maxBytes : Nat} {c : DnsCache}

/-! ## What operations do to the heap -/

theorem onShard_heap (query : Query) (f : Shard → ByteCounter → Shard × ByteCounter) :
    (c.onShard env query f).prefetchHeap = c.prefetchHeap := by
  unfold DnsCache.onShard
  split <;> rfl

theorem enforceMemoryBudget_heap (c : DnsCache) :
    (c.enforceMemoryBudget env).prefetchHeap = c.prefetchHeap :=
  enforceMemoryBudget_keeps (P := fun c' => c'.prefetchHeap = c.prefetchHeap) (fun _ hc => hc) rfl

theorem insert_heap (query : Query) (recordsAndTtl : List (Record × Nat)) (now : Nat)
    (group : String) :
    (c.insert env query recordsAndTtl now group).1.prefetchHeap =
      (now + secs (collapseTtl recordsAndTtl).2, query) :: c.prefetchHeap := by
  unfold DnsCache.insert
  dsimp only
  rw [enforceMemoryBudget_heap, onShard_heap]

theorem insertNegative_heap (query : Query) (resp : DnsResponse) (ttl : Nat) (group : String)
    (now : Nat) :
    (c.insertNegative env query resp ttl group now).prefetchHeap = c.prefetchHeap := by
  unfold DnsCache.insertNegative
  rw [enforceMemoryBudget_heap, onShard_heap]

theorem loadEntry_heap (e : DnsCacheEntry) :
    (c.loadEntry env e).prefetchHeap = (e.validUntil, e.data.query) :: c.prefetchHeap := by
  unfold DnsCache.loadEntry
  dsimp only
  rw [onShard_heap]

/-- The keys that insertions push, the last one first. -/
theorem insertAll_heap (now : Nat) (group : String) (groups : List (Query × List (Record × Nat))) :
    ∀ {c : DnsCache}, (insertAll env now group groups c).prefetchHeap =
      (groups.map fun g => (now + secs (collapseTtl g.2).2, g.1)).reverse ++ c.prefetchHeap := by
  induction groups with
  | nil =>
    intro c
    rfl
  | cons g rest ih =>
    intro c
    show (insertAll env now group rest _).prefetchHeap = _
    rw [ih, insert_heap]
    simp

/-- Loading puts one key on the heap for each entry. -/
theorem loadAll_heap (entries : List DnsCacheEntry) :
    ∀ {c : DnsCache}, (entries.foldl (DnsCache.loadEntry env) c).prefetchHeap =
      (entries.map fun e => (e.validUntil, e.data.query)).reverse ++ c.prefetchHeap := by
  induction entries with
  | nil =>
    intro c
    rfl
  | cons e rest ih =>
    intro c
    rw [foldl_cons, ih, loadEntry_heap]
    simp

/-! ## What a scan does to the heap -/

/-- The questions of a scan, in the heap or to be put back. -/
def Scan.questions (s : Scan) : List Query :=
  (s.requeue ++ s.cache.prefetchHeap).map Prod.snd

variable {s : Scan} {key : PrefetchKey}

/-- A key leaves the heap; what becomes of it is still open. -/
theorem questions_popped {rest : List PrefetchKey}
    (hPop : order.pop s.cache.prefetchHeap = some (key, rest)) :
    (Scan.questions s).Perm (key.2 :: Scan.questions (s.popped rest)) := by
  have hPerm : (s.requeue ++ s.cache.prefetchHeap).Perm (key :: (s.requeue ++ rest)) :=
    ((order.perm hPop).append_left s.requeue).trans perm_middle
  exact hPerm.map Prod.snd

/-- A key that is put back, with whatever time. -/
theorem questions_requeue (s : Scan) (t : Nat) (q : Query) :
    (Scan.questions { s with requeue := s.requeue ++ [(t, q)] }).Perm (q :: Scan.questions s) := by
  have hMiddle : (s.requeue ++ (t, q) :: s.cache.prefetchHeap).Perm
      ((t, q) :: (s.requeue ++ s.cache.prefetchHeap)) := perm_middle
  unfold Scan.questions
  rw [append_assoc]
  exact hMiddle.map Prod.snd

/-- The heap has no part in what becomes of a key once it is popped. -/
theorem visits_heap {threshold baseInterval maxCount : Nat} {s' : Scan} {go : Bool}
    (h : Visits env threshold baseInterval maxCount s key s' go) :
    s'.cache.prefetchHeap = s.cache.prefetchHeap := by
  cases h with
  | stop | gone => rfl
  | skip | current | due => exact onShard_heap _ _

theorem visits_questions {threshold baseInterval maxCount : Nat} {s' : Scan} {go : Bool}
    (h : Visits env threshold baseInterval maxCount s key s' go) :
    (Scan.questions s').Subperm (key.2 :: Scan.questions s) := by
  have hHeap := visits_heap h
  have hSame : (Scan.questions s).Subperm (key.2 :: Scan.questions s) :=
    (sublist_cons_self _ _).subperm
  have hBack := fun t => (questions_requeue s t key.2).subperm
  unfold Scan.questions at hSame hBack ⊢
  rw [hHeap]
  cases h with
  | stop _ => exact hBack key.1
  | gone | skip => exact hSame
  | @current p _ _ _ _ _ _ => exact hBack p.2.validUntil
  | due _ _ _ _ _ _ => exact hSame

/-- A scan adds no question to the heap. -/
theorem getExpired_questions (c : DnsCache) (now : Nat) (secondsAhead : Option Nat)
    (baseInterval maxCount : Nat) :
    ((getExpired env order c now secondsAhead baseInterval maxCount).cache.prefetchHeap.map
      Prod.snd).Subperm (c.prefetchHeap.map Prod.snd) := by
  refine scanLoop_invariant
    (fun s => (Scan.questions s).Subperm (c.prefetchHeap.map Prod.snd)) ?_ _ (.refl _)
  intro s key rest s' go hInv hPop hVisits
  exact ((visits_questions hVisits).trans (questions_popped hPop).symm.subperm).trans hInv

/-! ## Pushes on a clean heap -/

/-- The heap holds no key for the question, and every key it holds names a stored entry. -/
def CleanAt (c : DnsCache) (q : Query) : Prop :=
  ∀ key ∈ c.prefetchHeap, (key.2 == q) = false ∧ ∃ p ∈ c.entries, (p.1 == key.2) = true

/-- Groups are inserted one after another, each on a clean heap. -/
def CleanInserts (env : CacheEnv) (now : Nat) (group : String) :
    List (Query × List (Record × Nat)) → DnsCache → Prop
  | [], _ => True
  | g :: rest, c =>
    CleanAt c g.1 ∧ CleanInserts env now group rest (c.insert env g.1 g.2 now group).1

/-- Entries are loaded one after another, each on a clean heap. -/
def CleanLoads (env : CacheEnv) : List DnsCacheEntry → DnsCache → Prop
  | [], _ => True
  | e :: rest, c => CleanAt c e.data.query ∧ CleanLoads env rest (c.loadEntry env e)

/-- Every key that the event pushes goes on a clean heap. -/
def Clean (env : CacheEnv) (c : DnsCache) : CacheEvent → Prop
  | .op (.insert query _ _ _) => CleanAt c query
  | .op (.insertRecords query records now group) =>
    CleanInserts env now group (writtenGroups query records) c
  | .op (.load (some entries)) => CleanLoads env entries c
  | _ => True

instance (c : DnsCache) (q : Query) : Decidable (CleanAt c q) :=
  inferInstanceAs (Decidable (∀ key ∈ c.prefetchHeap, _ ∧ ∃ p ∈ c.entries, _))

instance decidableCleanInserts (env : CacheEnv) (now : Nat) (group : String) :
    ∀ groups c, Decidable (CleanInserts env now group groups c)
  | [], _ => isTrue trivial
  | g :: rest, c =>
    haveI := decidableCleanInserts env now group rest (c.insert env g.1 g.2 now group).1
    inferInstanceAs (Decidable (CleanAt c g.1 ∧ CleanInserts env now group rest _))

/-- The heap holds one key for a question at most, and one key more than there is room for
entries. -/
structure HeapInv (cap : Nat) (c : DnsCache) : Prop where
  distinct : (c.prefetchHeap.map Prod.snd).Pairwise fun a b => (a == b) = false
  bound : c.prefetchHeap.length ≤ cap + 1

theorem length_entries (c : DnsCache) : c.entries.length = c.entryCount := by
  exact length_flatMap

/-- Keys that name different entries are no more than there are entries. -/
theorem length_le_of_stored (h : StoreInv env cap c)
    (hDistinct : (c.prefetchHeap.map Prod.snd).Pairwise fun a b => (a == b) = false)
    (hStored : ∀ key ∈ c.prefetchHeap, ∃ p ∈ c.entries, (p.1 == key.2) = true) :
    c.prefetchHeap.length ≤ cap := by
  have hNodup : (c.prefetchHeap.map fun key => key.2.key).Nodup := by
    rw [pairwise_map] at hDistinct
    rw [List.Nodup, pairwise_map]
    refine hDistinct.imp ?_
    intro a b hNe hEq
    rw [Query.beq_iff_key.mpr hEq] at hNe
    cases hNe
  have hSubset : (c.prefetchHeap.map fun key => key.2.key) ⊆ c.entries.map fun p => p.1.key := by
    intro k hk
    obtain ⟨key, hKey, hEq⟩ := mem_map.mp hk
    obtain ⟨p, hp, hSame⟩ := hStored key hKey
    rw [← hEq, ← Query.beq_iff_key.mp hSame]
    exact mem_map_of_mem hp
  have hLe := (subperm_of_subset hNodup hSubset).length_le
  rw [length_map, length_map, length_entries] at hLe
  exact hLe.trans h.entryCount_le

/-- A key pushed for a question without one keeps the bound. -/
theorem HeapInv.push {c' : DnsCache} {t : Nat} {q : Query} (h : HeapInv cap c)
    (hStore : StoreInv env cap c) (hClean : CleanAt c q)
    (hHeap : c'.prefetchHeap = (t, q) :: c.prefetchHeap) : HeapInv cap c' := by
  have hLe := length_le_of_stored hStore h.distinct fun key hKey => (hClean key hKey).2
  refine ⟨?_, ?_⟩
  · rw [hHeap, map_cons, pairwise_cons]
    refine ⟨?_, h.distinct⟩
    intro q' hq'
    obtain ⟨key, hKey, hEq⟩ := mem_map.mp hq'
    rw [← hEq]
    exact beq_false_comm (hClean key hKey).1
  · rw [hHeap, length_cons]
    omega

theorem HeapInv.insertAll (now : Nat) (group : String)
    (groups : List (Query × List (Record × Nat))) :
    ∀ {c : DnsCache}, BudgetInv env cap maxBytes c → HeapInv cap c →
      CleanInserts env now group groups c → HeapInv cap (insertAll env now group groups c) := by
  induction groups with
  | nil =>
    intro c _ h _
    exact h
  | cons g rest ih =>
    intro c hInv h hClean
    exact ih (hInv.insert g.1 g.2 now group)
      (h.push hInv.store hClean.1 (insert_heap g.1 g.2 now group)) hClean.2

/-- Clean loads keep the bound on the heap. -/
theorem HeapInv.loadAll (entries : List DnsCacheEntry) :
    ∀ {c : DnsCache}, StoreInv env cap c → HeapInv cap c → CleanLoads env entries c →
      HeapInv cap (entries.foldl (DnsCache.loadEntry env) c) := by
  induction entries with
  | nil =>
    intro c _ h _
    exact h
  | cons e rest ih =>
    intro c hInv h hClean
    exact ih (loadEntry_inv hInv e) (h.push hInv hClean.1 (loadEntry_heap e)) hClean.2

/-- A heap with no other questions than before. -/
theorem HeapInv.shrink {c' : DnsCache} (h : HeapInv cap c)
    (hSub : (c'.prefetchHeap.map Prod.snd).Subperm (c.prefetchHeap.map Prod.snd)) :
    HeapInv cap c' := by
  obtain ⟨heap, hPerm, hSublist⟩ := hSub
  refine ⟨?_, ?_⟩
  · exact (hPerm.pairwise_iff beq_false_comm).mp (h.distinct.sublist hSublist)
  · have hLe := hSublist.length_le
    rw [hPerm.length_eq, length_map, length_map] at hLe
    exact hLe.trans h.bound

/-- One event whose pushes are clean. -/
theorem HeapInv.apply (hInv : BudgetInv env cap maxBytes c) (h : HeapInv cap c) {e : CacheEvent}
    (hClean : Clean env c e) : HeapInv cap (e.apply env order c) := by
  match e with
  | .op (.insert query recordsAndTtl now group) =>
    exact h.push hInv.store hClean (insert_heap query recordsAndTtl now group)
  | .op (.insertNegative query resp ttl group now) =>
    refine h.shrink ?_
    show ((c.insertNegative env query resp ttl group now).prefetchHeap.map Prod.snd).Subperm _
    rw [insertNegative_heap]
  | .op (.insertRecords query records now group) =>
    show HeapInv cap (c.insertRecords env query records now group).1
    rw [insertRecords_eq]
    exact HeapInv.insertAll now group _ hInv h hClean
  | .op (.load none) => exact h
  | .op (.load (some entries)) =>
    refine (HeapInv.loadAll entries hInv.store h hClean).shrink ?_
    show ((DnsCache.enforceMemoryBudget env _).prefetchHeap.map Prod.snd).Subperm _
    rw [enforceMemoryBudget_heap]
  | .op .clear => exact h.shrink (nil_subperm)
  | .op (.get query now) =>
    refine h.shrink ?_
    show ((c.onShard env query _).prefetchHeap.map Prod.snd).Subperm _
    rw [onShard_heap]
  | .getExpired now secondsAhead baseInterval maxCount =>
    exact h.shrink (getExpired_questions c now secondsAhead baseInterval maxCount)

/--
In every history in which each key is pushed on a heap that holds none for its
question, and none whose entry is gone, the heap never holds more than one key
above the capacity of the cache.
-/
theorem prefetch_heap_bounded (env : CacheEnv) (order : HeapOrder)
    (cacheSize expiredTtl expiredReplyTtl maxBytes : Nat) (es : List CacheEvent)
    (hClean : ∀ before e after, es = before ++ e :: after →
      Clean env (runEvents env order
        (DnsCache.new cacheSize expiredTtl expiredReplyTtl maxBytes) before) e) :
    (runEvents env order (DnsCache.new cacheSize expiredTtl expiredReplyTtl maxBytes)
      es).prefetchHeap.length ≤ max cacheSize 1 + 1 := by
  have hNew := BudgetInv.new env cacheSize expiredTtl expiredReplyTtl maxBytes
  suffices HeapInv (max cacheSize 1) (runEvents env order
      (DnsCache.new cacheSize expiredTtl expiredReplyTtl maxBytes) es) from this.bound
  induction es using reverseRecOn with
  | nil => exact ⟨List.Pairwise.nil, Nat.zero_le _⟩
  | append_singleton es e ih =>
    rw [runEvents_concat]
    refine HeapInv.apply (runEvents_inv hNew es) (ih ?_) (hClean es e [] rfl)
    intro before e' after hEq
    exact hClean before e' (after ++ [e]) (by rw [hEq]; simp)

/-- The address of `example.com` is stored. -/
def storeAddress (ttl now : Nat) : CacheEvent :=
  .op (.insertRecords exampleQuery [Record.fromRdata exampleName ttl exampleAddress] now "default")

/-- The IPv6 address of `example.com` is stored. -/
def storeAddress6 (ttl now : Nat) : CacheEvent :=
  .op (.insertRecords (Query.query exampleName .AAAA)
    [Record.fromRdata exampleName ttl (.AAAA 0x20010db8000000000000000000000001#128)] now "default")

/-- Both addresses are stored; the IPv6 address expires first, a scan returns it and puts the
key of the other back; then it is refreshed, and a scan puts both keys back. -/
def refreshedRun : List CacheEvent :=
  [storeAddress 300 0, storeAddress6 200 0, .getExpired (secs 200) (some 5) (secs 1) 16,
    storeAddress6 400 (secs 201), .getExpired (secs 202) (some 5) (secs 1) 16]

theorem prefetch_heap_bounded_refreshedRun :
    (runEvents exampleEnv firstOrder (DnsCache.new 4 0 0 0) refreshedRun).prefetchHeap.length = 2 ∧
      (runEvents exampleEnv firstOrder (DnsCache.new 4 0 0 0)
        refreshedRun).prefetchHeap.length ≤ 5 := by
  refine ⟨by decide +kernel,
    prefetch_heap_bounded exampleEnv firstOrder 4 0 0 0 refreshedRun ?_⟩
  intro before e after hEq
  match before with
  | [] | [_] | [_, _, _] =>
    cases hEq
    show CleanInserts exampleEnv _ _ _ _
    decide +kernel
  | [_, _] | [_, _, _, _] =>
    cases hEq
    trivial
  | _ :: _ :: _ :: _ :: _ :: _ => exact absurd (congrArg length hEq) (by simp [refreshedRun])

/-! ## Keys that are never dropped -/

theorem mem_touch_id (h : StoreInv env cap c) (query : Query) (p : Query × DnsCacheEntry) :
    p ∈ (c.touch env query id).entries ↔ p ∈ c.entries := by
  rw [mem_touch_iff h]
  constructor
  · rintro (hOld | ⟨q, hq, -, hEq⟩)
    · exact hOld.1
    · rw [hEq]
      exact hq
  · intro hp
    cases hKey : p.1 == query with
    | true => exact .inr ⟨p, hp, hKey, rfl⟩
    | false => exact .inl ⟨hp, rfl⟩

theorem scanThreshold_le (c : DnsCache) (now : Nat) (secondsAhead : Option Nat) :
    scanThreshold c now secondsAhead ≤ now + secs (secondsAhead.getD 5) := by
  unfold scanThreshold
  split
  · split <;> omega
  · exact Nat.le_refl _

/-- A scan of `c` that has dropped no key and changed no entry. -/
structure Quiet (env : CacheEnv) (cap maxBytes : Nat) (c : DnsCache) (s : Scan) : Prop where
  inv : BudgetInv env cap maxBytes s.cache
  keys : (Scan.questions s).Perm (c.prefetchHeap.map Prod.snd)
  entries : ∀ p, p ∈ s.cache.entries ↔ p ∈ c.entries

/-- A scan over entries that are all current and unmarked keeps every key and every entry. -/
theorem getExpired_quiet (order : HeapOrder) (hInv : BudgetInv env cap maxBytes c) {now : Nat}
    {secondsAhead : Option Nat}
    (hKeys : ∀ q ∈ c.prefetchHeap.map Prod.snd,
      q.queryType.isIpAddr = true ∧ ∃ p ∈ c.entries, (p.1 == q) = true)
    (hFresh : ∀ p ∈ c.entries, p.2.isInPrefetching = false ∧
      scanThreshold c now secondsAhead ≤ p.2.validUntil)
    (baseInterval maxCount : Nat) :
    let c' := (getExpired env order c now secondsAhead baseInterval maxCount).cache
    (c'.prefetchHeap.map Prod.snd).Perm (c.prefetchHeap.map Prod.snd) ∧
      ∀ p, p ∈ c'.entries ↔ p ∈ c.entries := by
  suffices Quiet env cap maxBytes c (scanLoop env order (scanThreshold c now secondsAhead)
      baseInterval maxCount c.prefetchHeap.length ⟨c, [], []⟩) from ⟨this.keys, this.entries⟩
  refine scanLoop_invariant (Quiet env cap maxBytes c) ?_ _ ⟨hInv, .refl _, fun p => Iff.rfl⟩
  rintro s key rest s' go ⟨hBudget, hPerm, hSame⟩ hPop hVisits
  have hPopped : BudgetInv env cap maxBytes (s.popped rest).cache := withHeap_inv hBudget rest
  have hBefore := (questions_popped hPop).symm.trans hPerm
  obtain ⟨hIp, q, hq, hNamed⟩ := hKeys key.2 (hBefore.subset mem_cons_self)
  have hPeek := (peekEntry_eq_some hPopped.store).mpr ⟨(hSame q).mpr hq, hNamed⟩
  have hBack : ∀ t, (Scan.questions { s.popped rest with
      requeue := (s.popped rest).requeue ++ [(t, key.2)] }).Perm (c.prefetchHeap.map Prod.snd) :=
    fun t => (questions_requeue (s.popped rest) t key.2).trans hBefore
  have hAfter := visits_inv hPopped hVisits
  have hHeap := visits_heap hVisits
  cases hVisits with
  | stop _ => exact ⟨hAfter, hBack key.1, hSame⟩
  | gone _ _ hNone =>
    rw [hNone] at hPeek
    cases hPeek
  | skip _ _ hFound hSkip =>
    rw [hFound] at hPeek
    cases hPeek
    rcases hSkip with hRetry | hOther
    · exact absurd hRetry (by simp [shouldRetryPrefetch, (hFresh q hq).1])
    · rw [hOther] at hIp
      cases hIp
  | @current p _ _ _ _ _ _ =>
    refine ⟨hAfter, ?_, fun p' => (mem_touch_id hPopped.store key.2 p').trans (hSame p')⟩
    unfold Scan.questions
    rw [hHeap]
    exact hBack p.2.validUntil
  | due _ _ hFound _ _ hPast =>
    rw [hFound] at hPeek
    cases hPeek
    have hCurrent := (hFresh q hq).2
    omega

/-! ## Runs without a bound -/

theorem storeAddress_apply (c : DnsCache) (ttl now : Nat) :
    (storeAddress ttl now).apply exampleEnv order c =
      (c.insert exampleEnv exampleQuery [(Record.fromRdata exampleName ttl exampleAddress, ttl)] now
        "default").1 :=
  insertRecords_eq c exampleQuery [Record.fromRdata exampleName ttl exampleAddress] now "default"

/-- Prefetching is off, and the address is asked for once it has expired, `n` times. -/
def withoutScans (n : Nat) : List CacheEvent :=
  (List.range n).map fun k => storeAddress 300 (secs (400 * k))

/-- Without a scan every store leaves one more key. -/
theorem withoutScans_heap (n : Nat) :
    (runEvents exampleEnv firstOrder (DnsCache.new 4 0 0 0) (withoutScans n)).prefetchHeap.length =
      n := by
  induction n with
  | zero => rfl
  | succ n ih =>
    unfold withoutScans at ih ⊢
    rw [range_succ, map_append]
    rw [show (map (fun k => storeAddress 300 (secs (400 * k))) [n]) =
      [storeAddress 300 (secs (400 * n))] from rfl, runEvents_concat, storeAddress_apply,
      insert_heap, length_cons, ih]

/-- Prefetching is on: the address is refreshed every second, and a scan follows. -/
def withScans (n : Nat) : List CacheEvent :=
  (List.range n).flatMap fun k =>
    [storeAddress 600 (secs k), .getExpired (secs k) (some 5) (secs 1) 16]

/-- The cache after `n` rounds: as many keys, and one entry that is current for minutes. -/
structure Refreshed (n : Nat) (c : DnsCache) : Prop where
  inv : BudgetInv exampleEnv 4 0 c
  keys : ∀ q ∈ c.prefetchHeap.map Prod.snd, q = exampleQuery
  count : c.prefetchHeap.length = n
  entries : ∀ p ∈ c.entries, (p.1 == exampleQuery) = true ∧ p.2.isInPrefetching = false

/-- One more round. -/
theorem Refreshed.round (order : HeapOrder) {n : Nat} (h : Refreshed n c) :
    Refreshed (n + 1) (CacheEvent.apply exampleEnv order
      ((storeAddress 600 (secs n)).apply exampleEnv order c)
      (.getExpired (secs n) (some 5) (secs 1) 16)) := by
  obtain ⟨c', hc'⟩ : ∃ c', c' = (storeAddress 600 (secs n)).apply exampleEnv order c := ⟨_, rfl⟩
  rw [← hc']
  rw [storeAddress_apply] at hc'
  have hInv : BudgetInv exampleEnv 4 0 c' := by
    rw [hc']
    exact h.inv.insert _ _ _ _
  have hHeap : c'.prefetchHeap = (secs n + secs 600, exampleQuery) :: c.prefetchHeap := by
    rw [hc', insert_heap]
    rfl
  have hKeys : ∀ q ∈ c'.prefetchHeap.map Prod.snd, q = exampleQuery := by
    intro q hq
    rw [hHeap] at hq
    exact (mem_cons.mp hq).elim id (h.keys q)
  have hEntries : ∀ p ∈ c'.entries, (p.1 == exampleQuery) = true ∧
      p.2.isInPrefetching = false ∧ p.2.validUntil = secs n + secs 600 := by
    intro p hp
    rw [hc'] at hp
    have hUnmarked := store_keeps h.inv.store (P := fun e => e.isInPrefetching = false) rfl
      (fun _ hOld => hOld) (fun q hq => (h.entries q hq).2) p hp
    rcases mem_insert h.inv.store hp with hWritten | hOld
    · exact ⟨hWritten.key, hUnmarked, hWritten.validUntil⟩
    · have hOther := hOld.2
      rw [(h.entries p hOld.1).1] at hOther
      cases hOther
  have hStored : ∃ p ∈ c'.entries, (p.1 == exampleQuery) = true := by
    obtain ⟨s, hGet⟩ := exists_shard h.inv.store (by decide) exampleQuery
    have hRoom : c.maxBytes = 0 ∨ c.usedBytes + groupSize exampleEnv "default"
        (exampleQuery, [(Record.fromRdata exampleName 600 exampleAddress, 600)]) ≤ c.maxBytes :=
      .inl h.inv.limit
    obtain ⟨p, hWritten, s', hShard, -, hp⟩ := insert_recent h.inv.store (secs n) hRoom hGet
    rw [← hc'] at hShard
    exact ⟨p, mem_flatMap.mpr ⟨s', mem_of_getElem? hShard, mem_of_mem_take hp⟩,
      hWritten.key⟩
  have hThreshold := scanThreshold_le c' (secs n) (some 5)
  have hQuiet := getExpired_quiet order hInv
    (fun q hq => by rw [hKeys q hq]; exact ⟨rfl, hStored⟩)
    (fun p hp => ⟨(hEntries p hp).2.1, by
      rw [(hEntries p hp).2.2]
      exact hThreshold.trans (Nat.add_le_add_left (by decide) _)⟩) (secs 1) 16
  refine ⟨getExpired_inv hInv _ _ _ _, ?_, ?_, ?_⟩
  · exact fun q hq => hKeys q (hQuiet.1.subset hq)
  · have hLength := hQuiet.1.length_eq
    rw [length_map, length_map, hHeap, length_cons, h.count] at hLength
    exact hLength
  · intro p hp
    have hOld := hEntries p ((hQuiet.2 p).mp hp)
    exact ⟨hOld.1, hOld.2.1⟩

/-- With scans between them the stores still leave one key each. -/
theorem withScans_heap (n : Nat) :
    Refreshed n (runEvents exampleEnv firstOrder (DnsCache.new 4 0 0 0) (withScans n)) := by
  induction n with
  | zero =>
    refine ⟨BudgetInv.new exampleEnv 4 0 0 0, by simp [withScans, runEvents, DnsCache.new], rfl, ?_⟩
    intro p hp
    exact absurd hp (by simp [withScans, runEvents, entries_new])
  | succ n ih =>
    unfold withScans at ih ⊢
    rw [range_succ, flatMap_append]
    have hRound := ih.round firstOrder
    rw [← runEvents_concat, ← runEvents_concat, append_assoc] at hRound
    exact hRound

/-- No bound on the heap follows from the size of the cache, with scans or without. -/
theorem prefetch_heap_unbounded :
    (¬ ∃ bound : Nat → Nat, ∀ n, (runEvents exampleEnv firstOrder (DnsCache.new 4 0 0 0)
        (withoutScans n)).prefetchHeap.length ≤ bound 4) ∧
      ¬ ∃ bound : Nat → Nat, ∀ n, (runEvents exampleEnv firstOrder (DnsCache.new 4 0 0 0)
        (withScans n)).prefetchHeap.length ≤ bound 4 := by
  constructor
  · rintro ⟨bound, hBound⟩
    have hLe := hBound (bound 4 + 1)
    rw [withoutScans_heap] at hLe
    omega
  · rintro ⟨bound, hBound⟩
    have hLe := hBound (bound 4 + 1)
    rw [(withScans_heap (bound 4 + 1)).count] at hLe
    omega

end SmartDns.Ports.PrefetchHeap
