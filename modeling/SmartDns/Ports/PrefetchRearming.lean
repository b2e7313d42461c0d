import SmartDns.Ports.PrefetchHeap

/-!
# Prefetching an entry again

A scan that hands a question out for a refresh marks its entry, so that the next
scans leave it alone while the refresh is under way. The mark is meant to go
with the refresh, or to be ignored some time after the refresh has failed. It
does neither: an insertion over a stored entry keeps the mark, and no code
records a failure. The key has been dropped with the mark, and the key that the
insertion pushes is dropped by the scan that finds the mark.

An entry without the mark is handed out as it should be. What carries this over
whole histories is that such an entry always has a key in the heap whose time
does not come after the deadline.
-/

namespace SmartDns.Ports.PrefetchRearming

open Verified DnsMessage DnsLookup CacheStore CacheAccounting CacheContents PrefetchScan
open PrefetchHeap CacheHistory ServerRuns List

variable {env : CacheEnv} {order : HeapOrder} {cap maxBytes : Nat}

/-! ## Keys for unmarked entries -/

/-- A key brings a scan to the entry before its deadline has passed. -/
def Arms (p : Query × DnsCacheEntry) (key : PrefetchKey) : Prop :=
  (key.2 == p.1) = true ∧ key.1 ≤ p.2.validUntil

/-- Unmarked entries for addresses, of the questions in `S`, have a key that arms them. -/
def ArmedIn (S : Query → Prop) (keys : List PrefetchKey) (c : DnsCache) : Prop :=
  ∀ p ∈ c.entries, S p.1 → p.1.queryType.isIpAddr = true → p.2.isInPrefetching = false →
    ∃ key ∈ keys, Arms p key

theorem isIpAddr_eq {a b : Query} (h : (a == b) = true) :
    a.queryType.isIpAddr = b.queryType.isIpAddr := by
  have hType : a.key.queryType = b.key.queryType := by rw [Query.beq_iff_key.mp h]
  exact congrArg RecordType.isIpAddr hType

theorem shouldRetryPrefetch_of_unmarked {e : DnsCacheEntry} (h : e.isInPrefetching = false)
    (now baseInterval : Nat) : shouldRetryPrefetch e now baseInterval = true := by
  simp [shouldRetryPrefetch, h]

variable {q : Query}

/-- An unmarked entry is not passed over. -/
theorem not_skipped {p : Query × DnsCacheEntry} {now baseInterval : Nat} (hKey : (p.1 == q) = true)
    (hIp : p.1.queryType.isIpAddr = true) (hUnmarked : p.2.isInPrefetching = false)
    (hSkip : shouldRetryPrefetch p.2 now baseInterval = false ∨ q.queryType.isIpAddr = false) :
    False := by
  rcases hSkip with hRetry | hOther
  · rw [shouldRetryPrefetch_of_unmarked hUnmarked] at hRetry
    cases hRetry
  · rw [← isIpAddr_eq hKey, hIp] at hOther
    cases hOther

variable {key : PrefetchKey} {rest : List PrefetchKey}

/-- One key of a scan. -/
theorem visits_armed {S : Query → Prop} {threshold baseInterval maxCount : Nat} {s s' : Scan}
    {go : Bool} (hInv : BudgetInv env cap maxBytes s.cache)
    (hPop : order.pop s.cache.prefetchHeap = some (key, rest))
    (hVisits : Visits env threshold baseInterval maxCount (s.popped rest) key s' go)
    (hArmed : ArmedIn S (s.requeue ++ s.cache.prefetchHeap) s.cache) :
    ArmedIn S (s'.requeue ++ s'.cache.prefetchHeap) s'.cache := by
  have hPopped : BudgetInv env cap maxBytes (s.popped rest).cache := withHeap_inv hInv rest
  intro p hp hS hIp hUnmarked
  -- An entry without a mark is one the key has left alone.
  have hOld : p ∈ (s.popped rest).cache.entries := by
    obtain ⟨q, hq, hKey, hAged⟩ := mem_visits hPopped.store hVisits hp
    have hEq : p = q := Prod.ext hKey (hAged.eq_of_unmarked hUnmarked)
    rw [hEq]
    exact hq
  obtain ⟨key₀, hKey₀, hArms⟩ := hArmed p hOld hS hIp hUnmarked
  have hPeek : (key.2 == p.1) = true →
      (s.popped rest).cache.peekEntry env key.2 = some p := fun hSame =>
    (peekEntry_eq_some hPopped.store).mpr ⟨hOld, BEq.symm hSame⟩
  have hRequeued : ∀ k ∈ s.requeue, k ∈ s'.requeue := by
    intro k hk
    cases hVisits with
    | stop | current => exact mem_append_left _ hk
    | gone | skip | due => exact hk
  have hHeap : s'.cache.prefetchHeap = rest := visits_heap hVisits
  rw [hHeap]
  rcases mem_append.mp hKey₀ with hWaiting | hInHeap
  · exact ⟨key₀, mem_append_left _ (hRequeued key₀ hWaiting), hArms⟩
  rcases (order.mem_pop hPop).mp hInHeap with hHead | hRest
  · rw [hHead] at hArms
    have hFound := hPeek hArms.1
    cases hVisits with
    | stop _ => exact ⟨key, by simp, hArms⟩
    | gone _ _ hNone =>
      rw [hNone] at hFound
      cases hFound
    | skip _ _ hSome hSkip =>
      rw [hSome] at hFound
      cases hFound
      exact (not_skipped (BEq.symm hArms.1) hIp hUnmarked hSkip).elim
    | current _ _ hSome _ _ _ =>
      rw [hSome] at hFound
      cases hFound
      exact ⟨(p.2.validUntil, key.2), by simp, hArms.1, Nat.le_refl _⟩
    | due _ _ _ _ _ _ =>
      rcases (mem_touch_iff hPopped.store).mp hp with hOther | ⟨q, -, -, hEq⟩
      · have hNe := hOther.2
        rw [BEq.comm, hArms.1] at hNe
        cases hNe
      · rw [hEq] at hUnmarked
        exact absurd hUnmarked (by simp [inPrefetching])
  · exact ⟨key₀, mem_append_right _ hRest, hArms⟩

structure ArmedScan (env : CacheEnv) (cap maxBytes : Nat) (S : Query → Prop) (s : Scan) :
    Prop where
  inv : BudgetInv env cap maxBytes s.cache
  armed : ArmedIn S (s.requeue ++ s.cache.prefetchHeap) s.cache

variable {c : DnsCache}

/-- A scan keeps unmarked entries armed. -/
theorem getExpired_armed {S : Query → Prop} (hInv : BudgetInv env cap maxBytes c)
    (hArmed : ArmedIn S c.prefetchHeap c) (now : Nat) (secondsAhead : Option Nat)
    (baseInterval maxCount : Nat) :
    ArmedIn S (getExpired env order c now secondsAhead baseInterval maxCount).cache.prefetchHeap
      (getExpired env order c now secondsAhead baseInterval maxCount).cache := by
  suffices ArmedScan env cap maxBytes S (scanLoop env order (scanThreshold c now secondsAhead)
      baseInterval maxCount c.prefetchHeap.length ⟨c, [], []⟩) from this.armed
  refine scanLoop_invariant (ArmedScan env cap maxBytes S) ?_ _ ⟨hInv, hArmed⟩
  rintro s key rest s' go ⟨hBudget, hBefore⟩ hPop hVisits
  exact ⟨visits_inv (withHeap_inv hBudget rest) hVisits, visits_armed hBudget hPop hVisits hBefore⟩

/-! ## Histories -/

/-- An event that writes positive answers. -/
def Positive : CacheEvent → Prop
  | .op (.insert _ _ _ _) => True
  | .op (.insertRecords _ _ _ _) => True
  | .op (.load _) => True
  | _ => False

/-- What is stored for a question was written by a positive answer. -/
def LastPositive (es : List CacheEvent) (q : Query) : Prop :=
  ∃ e, LastWrite es q e ∧ e.Overwrites q ∧ Positive e

variable {e : CacheEvent}

theorem LastPositive.of_concat {es : List CacheEvent} (h : LastPositive (es ++ [e]) q)
    (hOther : ¬ e.Overwrites q) : LastPositive es q := by
  obtain ⟨e', hLast, hWrite, hPositive⟩ := h
  exact ⟨e', hLast.of_concat hWrite hOther, hWrite, hPositive⟩

theorem LastPositive.of_overwrites {es : List CacheEvent} (h : LastPositive (es ++ [e]) q)
    (hWrite : e.Overwrites q) : Positive e := by
  obtain ⟨e', hLast, hWrite', hPositive⟩ := h
  have hSame : e' = e := hLast.unique hWrite' ⟨es, [], rfl, by simp⟩ hWrite
  rw [← hSame]
  exact hPositive

/-- A positive answer is stored together with a key for its deadline. -/
theorem arms_of_writes (hPositive : Positive e) {p : Query × DnsCacheEntry} (hWrites : e.Writes p) :
    ∃ key ∈ (e.apply env order c).prefetchHeap, Arms p key := by
  match e with
  | .op (.insert query recordsAndTtl now group) =>
    refine ⟨(now + secs (collapseTtl recordsAndTtl).2, query), ?_, BEq.symm hWrites.key,
      hWrites.validUntil.ge⟩
    exact .head _
  | .op (.insertNegative _ _ _ _ _) => exact hPositive.elim
  | .op (.insertRecords query records now group) =>
    obtain ⟨g, hg, hWritten⟩ := hWrites
    refine ⟨(now + secs (collapseTtl g.2).2, g.1), ?_, BEq.symm hWritten.key,
      hWritten.validUntil.ge⟩
    show _ ∈ (c.insertRecords env query records now group).1.prefetchHeap
    rw [insertRecords_eq, insertAll_heap]
    exact mem_append_left _ (mem_reverse.mpr (mem_map.mpr ⟨g, hg, rfl⟩))
  | .op (.load none) => exact hWrites.elim
  | .op (.load (some entries)) =>
    obtain ⟨e, he, hWritten⟩ := hWrites
    refine ⟨(e.validUntil, e.data.query), ?_, BEq.symm hWritten.key, hWritten.validUntil.ge⟩
    show _ ∈ (DnsCache.enforceMemoryBudget env _).prefetchHeap
    rw [enforceMemoryBudget_heap, loadAll_heap]
    exact mem_append_left _ (mem_reverse.mpr (mem_map.mpr ⟨e, he, rfl⟩))
  | .op .clear => exact hPositive.elim
  | .op (.get _ _) => exact hPositive.elim
  | .getExpired _ _ _ _ => exact hPositive.elim

/-- Operations other than `clear` drop no key. -/
theorem mem_heap_op {o : CacheOp} (hOther : o ≠ .clear) (hKey : key ∈ c.prefetchHeap) :
    key ∈ (o.apply env c).prefetchHeap := by
  match o with
  | .insert query recordsAndTtl now group =>
    show key ∈ (c.insert env query recordsAndTtl now group).1.prefetchHeap
    rw [insert_heap]
    exact .tail _ hKey
  | .insertNegative query resp ttl group now =>
    show key ∈ (c.insertNegative env query resp ttl group now).prefetchHeap
    rw [insertNegative_heap]
    exact hKey
  | .insertRecords query records now group =>
    show key ∈ (c.insertRecords env query records now group).1.prefetchHeap
    rw [insertRecords_eq, insertAll_heap]
    exact mem_append_right _ hKey
  | .load none => exact hKey
  | .load (some entries) =>
    show key ∈ (DnsCache.enforceMemoryBudget env _).prefetchHeap
    rw [enforceMemoryBudget_heap, loadAll_heap]
    exact mem_append_right _ hKey
  | .clear => exact absurd rfl hOther
  | .get query now =>
    show key ∈ (c.onShard env query _).prefetchHeap
    rw [onShard_heap]
    exact hKey

/-- In every history the heap has a key for each unmarked entry for addresses that a positive
answer has written. -/
theorem armed (hInv : BudgetInv env cap maxBytes c) (hEmpty : c.entries = [])
    (es : List CacheEvent) :
    ArmedIn (LastPositive es) (runEvents env order c es).prefetchHeap
      (runEvents env order c es) := by
  induction es using reverseRecOn with
  | nil =>
    intro p hp
    replace hp : p ∈ c.entries := hp
    rw [hEmpty] at hp
    cases hp
  | append_singleton es e ih =>
    have hBefore : BudgetInv env cap maxBytes (runEvents env order c es) := runEvents_inv hInv es
    rw [runEvents_concat]
    intro p hp hPositive hIp hUnmarked
    rcases mem_apply hBefore hp with hWrites | ⟨hOther, q, hq, hKey, -, hUntil, hMark⟩
    · exact arms_of_writes (hPositive.of_overwrites hWrites.overwrites) hWrites
    · match e with
      | .op o =>
        have hNotMarked : q.2.isInPrefetching = false := by
          cases h : q.2.isInPrefetching with
          | false => rfl
          | true =>
            rw [hMark h] at hUnmarked
            cases hUnmarked
        have hNotClear : o ≠ .clear := by
          intro hClear
          rw [hClear] at hOther
          exact hOther trivial
        have hLast := hPositive.of_concat hOther
        rw [hKey] at hLast hIp
        obtain ⟨key, hMem, hArms⟩ := ih q hq hLast hIp hNotMarked
        refine ⟨key, mem_heap_op hNotClear hMem, ?_⟩
        unfold Arms at hArms ⊢
        rw [hKey, hUntil]
        exact hArms
      | .getExpired now secondsAhead baseInterval maxCount =>
        exact getExpired_armed hBefore ih now secondsAhead baseInterval maxCount p hp
          (hPositive.of_concat hOther) hIp hUnmarked

/-! ## What a scan returns -/

/-- What a scan has returned so far comes from keys of `heap` no later than `t`. -/
def Earlier (heap : List PrefetchKey) (t : Nat) (expired : List (Query × Nat × Option String)) :
    Prop :=
  ∀ x ∈ expired, ∃ key ∈ heap, key.2 = x.1 ∧ key.1 ≤ t

/-- The scan has returned the question of the entry. -/
def Returned (p : Query × DnsCacheEntry) (expired : List (Query × Nat × Option String)) : Prop :=
  ∃ x ∈ expired, (x.1 == p.1) = true

/-- A scan on its way to an entry that is due. -/
structure Pending (env : CacheEnv) (cap maxBytes : Nat) (heap : List PrefetchKey)
    (p : Query × DnsCacheEntry) (s : Scan) : Prop where
  inv : BudgetInv env cap maxBytes s.cache
  stored : p ∈ s.cache.entries
  armed : ∃ key ∈ s.cache.prefetchHeap, Arms p key
  known : ∀ key ∈ s.cache.prefetchHeap, key ∈ heap
  earlier : Earlier heap p.2.validUntil s.expired

section Returns

variable {threshold baseInterval maxCount : Nat} {heap : List PrefetchKey}
  {p : Query × DnsCacheEntry}

variable {s : Scan}

/-- Touching another question's entry leaves this one in the cache. -/
theorem touch_pending {q : Query} (f : DnsCacheEntry → DnsCacheEntry)
    (hInv : BudgetInv env cap maxBytes (s.popped rest).cache) (hStored : p ∈ s.cache.entries)
    (hOther : (q == p.1) = false) : p ∈ ((s.popped rest).cache.touch env q f).entries := by
  rw [mem_touch_iff hInv.store]
  exact .inl ⟨hStored, beq_false_comm hOther⟩

/-- One key of a scan on its way: the batch is full, the entry is returned, or the scan goes
on. -/
theorem Pending.visits {s' : Scan} {go : Bool} (h : Pending env cap maxBytes heap p s)
    (hIp : p.1.queryType.isIpAddr = true) (hUnmarked : p.2.isInPrefetching = false)
    (hPast : p.2.validUntil < threshold) (hPop : order.pop s.cache.prefetchHeap = some (key, rest))
    (hVisits : Visits env threshold baseInterval maxCount (s.popped rest) key s' go) :
    (go = false ∧ maxCount ≤ s'.expired.length ∧ Earlier heap p.2.validUntil s'.expired) ∨
      Returned p s'.expired ∨ (go = true ∧ Pending env cap maxBytes heap p s') := by
  have hPopped : BudgetInv env cap maxBytes (s.popped rest).cache := withHeap_inv h.inv rest
  obtain ⟨key₀, hKey₀, hArms⟩ := h.armed
  have hFirst : key.1 ≤ p.2.validUntil := (order.rank_le hPop hKey₀).trans hArms.2
  have hKey : key ∈ heap := h.known key ((order.mem_pop hPop).mpr (.inl rfl))
  have hAfter := visits_inv hPopped hVisits
  have hHeap : ∀ k ∈ rest, k ∈ heap := fun k hk => h.known k ((order.mem_pop hPop).mpr (.inr hk))
  have hRest : s'.cache.prefetchHeap = rest := visits_heap hVisits
  by_cases hSame : (key.2 == p.1) = true
  · have hFound : (s.popped rest).cache.peekEntry env key.2 = some p :=
      (peekEntry_eq_some hPopped.store).mpr ⟨h.stored, BEq.symm hSame⟩
    cases hVisits with
    | stop hStop => exact .inl ⟨rfl, hStop.resolve_left (by omega), h.earlier⟩
    | gone _ _ hNone =>
      rw [hNone] at hFound
      cases hFound
    | skip _ _ hSome hSkip =>
      rw [hSome] at hFound
      cases hFound
      exact (not_skipped (BEq.symm hSame) hIp hUnmarked hSkip).elim
    | current _ _ hSome _ _ hCurrent =>
      rw [hSome] at hFound
      cases hFound
      omega
    | due _ _ _ _ _ _ =>
      exact .inr (.inl ⟨_, mem_append_right _ mem_cons_self, hSame⟩)
  · have hOther : (key.2 == p.1) = false := eq_false_of_ne_true hSame
    have hArmed : ∃ key ∈ rest, Arms p key := by
      rcases (order.mem_pop hPop).mp hKey₀ with hHead | hRest
      · rw [hHead] at hArms
        exact absurd hArms.1 hSame
      · exact ⟨key₀, hRest, hArms⟩
    rw [← hRest] at hArmed hHeap
    cases hVisits with
    | stop hStop => exact .inl ⟨rfl, hStop.resolve_left (by omega), h.earlier⟩
    | gone _ _ _ => exact .inr (.inr ⟨rfl, hAfter, h.stored, hArmed, hHeap, h.earlier⟩)
    | skip | current =>
      exact .inr (.inr ⟨rfl, hAfter, touch_pending _ hPopped h.stored hOther, hArmed, hHeap,
        h.earlier⟩)
    | due _ _ _ _ _ _ =>
      refine .inr (.inr ⟨rfl, hAfter, touch_pending _ hPopped h.stored hOther, hArmed, hHeap, ?_⟩)
      intro x hx
      rcases mem_append.mp hx with hOld | hNew
      · exact h.earlier x hOld
      · rw [mem_singleton.mp hNew]
        exact ⟨key, hKey, rfl, hFirst⟩

/-- What a scan has returned it does not take back. -/
theorem scanLoop_returned (fuel : Nat) (h : Returned p s.expired) :
    Returned p (scanLoop env order threshold baseInterval maxCount fuel s).expired := by
  refine scanLoop_invariant (fun s => Returned p s.expired) ?_ fuel h
  rintro s key rest s' go ⟨x, hx, hKey⟩ - hVisits
  cases hVisits with
  | stop | gone | skip | current => exact ⟨x, hx, hKey⟩
  | due _ _ _ _ _ _ => exact ⟨x, mem_append_left _ hx, hKey⟩

/-- With fuel for every key of the heap, a scan returns the entry or fills the batch before. -/
theorem scanLoop_returns (hIp : p.1.queryType.isIpAddr = true)
    (hUnmarked : p.2.isInPrefetching = false) (hPast : p.2.validUntil < threshold) (fuel : Nat) :
    ∀ {s : Scan}, Pending env cap maxBytes heap p s → s.cache.prefetchHeap.length ≤ fuel →
      Returned p (scanLoop env order threshold baseInterval maxCount fuel s).expired ∨
        (maxCount ≤ (scanLoop env order threshold baseInterval maxCount fuel s).expired.length ∧
          Earlier heap p.2.validUntil
            (scanLoop env order threshold baseInterval maxCount fuel s).expired) := by
  induction fuel with
  | zero =>
    intro s h hFuel
    obtain ⟨key, hKey, -⟩ := h.armed
    exact absurd (length_pos_of_mem hKey) (by omega)
  | succ fuel ih =>
    intro s h hFuel
    obtain ⟨key₀, hKey₀, -⟩ := h.armed
    unfold scanLoop
    cases hPop : order.pop s.cache.prefetchHeap with
    | none =>
      rw [order.empty_of_none hPop] at hKey₀
      cases hKey₀
    | some popped =>
      obtain ⟨key, rest⟩ := popped
      have hVisits : Visits env threshold baseInterval maxCount (s.popped rest) key _ _ :=
        PrefetchScan.visits (s.popped rest) key
      have hLength := order.length_pop hPop
      dsimp only
      rcases h.visits hIp hUnmarked hPast hPop hVisits with
        ⟨hStop, hFull, hEarlier⟩ | hReturned | ⟨hGo, hPending⟩
      · rw [hStop]
        exact .inr ⟨hFull, hEarlier⟩
      · split
        · exact .inl (scanLoop_returned fuel hReturned)
        · exact .inl hReturned
      · rw [hGo]
        apply ih hPending
        rw [visits_heap hVisits]
        show rest.length ≤ fuel
        omega

end Returns

/-- The batch is full with questions whose keys are no later than `t`. -/
def Exhausted (c : DnsCache) (expired : List (Query × Option String)) (maxCount t : Nat) : Prop :=
  maxCount ≤ expired.length ∧ ∀ x ∈ expired, ∃ key ∈ c.prefetchHeap, key.2 = x.1 ∧ key.1 ≤ t

/-- What a scan returns is what its loop has found, in another order. -/
theorem mem_expired {c : DnsCache} {now : Nat} {secondsAhead : Option Nat}
    {baseInterval maxCount : Nat} {x : Query × Option String} :
    x ∈ (getExpired env order c now secondsAhead baseInterval maxCount).expired ↔
      ∃ y ∈ (scanLoop env order (scanThreshold c now secondsAhead) baseInterval maxCount
        c.prefetchHeap.length ⟨c, [], []⟩).expired, (y.1, y.2.2) = x := by
  unfold getExpired
  simp only [mem_map, mem_insertionSort]

/-- In every history: an unmarked address entry that a positive answer was the last to write is
returned by a scan past its deadline, unless earlier keys fill the batch. -/
theorem unmarked_returned {es : List CacheEvent} {p : Query × DnsCacheEntry} {c₀ : DnsCache}
    (hInv : BudgetInv env cap maxBytes c₀) (hEmpty : c₀.entries = [])
    (hLast : LastPositive es p.1) (hp : p ∈ (runEvents env order c₀ es).entries)
    (hIp : p.1.queryType.isIpAddr = true) (hUnmarked : p.2.isInPrefetching = false) {now : Nat}
    {secondsAhead : Option Nat}
    (hPast : p.2.validUntil < scanThreshold (runEvents env order c₀ es) now secondsAhead)
    (baseInterval maxCount : Nat) :
    let c := runEvents env order c₀ es
    let expired := (getExpired env order c now secondsAhead baseInterval maxCount).expired
    (∃ x ∈ expired, (x.1 == p.1) = true) ∨ Exhausted c expired maxCount p.2.validUntil := by
  intro c expired
  have hArmed := armed hInv hEmpty es p hp hLast hIp hUnmarked
  have hPending : Pending env cap maxBytes c.prefetchHeap p ⟨c, [], []⟩ :=
    ⟨runEvents_inv hInv es, hp, hArmed, fun _ hk => hk, nofun⟩
  rcases scanLoop_returns hIp hUnmarked hPast _ hPending (Nat.le_refl _) with
    ⟨x, hx, hSame⟩ | ⟨hFull, hEarlier⟩
  · exact .inl ⟨(x.1, x.2.2), mem_expired.mpr ⟨x, hx, rfl⟩, hSame⟩
  · refine .inr ⟨?_, ?_⟩
    · show maxCount ≤ (map _ _).length
      rw [length_map, (perm_insertionSort _ _).length_eq]
      exact hFull
    · intro x hx
      obtain ⟨y, hy, hEq⟩ := mem_expired.mp hx
      rw [← hEq]
      exact hEarlier y hy

/-! ## Marks -/

/-- No entry has a failed refresh on record. No code of the server records one. -/
def Unfailed (c : DnsCache) : Prop := ∀ p ∈ c.entries, p.2.prefetchFailureTime = none

/-- Loaded entries have no failed refresh on record, as decoding a file leaves them. -/
def LoadsUnfailed : CacheEvent → Prop
  | .op (.load (some entries)) => ∀ e ∈ entries, e.prefetchFailureTime = none
  | _ => True

section Marks

variable {c : DnsCache} {e : CacheEvent} {q : Query} {es : List CacheEvent}

theorem store_unfailed {query : Query} {data : DnsResponse} {validUntil : Nat}
    (hInv : StoreInv env cap c) (h : Unfailed c) :
    Unfailed ((c.onShard env query (storeEntry env query data validUntil)).enforceMemoryBudget
      env) :=
  store_keeps hInv (P := fun e => e.prefetchFailureTime = none) rfl (fun _ hOld => hOld) h

theorem insertAll_unfailed (now : Nat) (group : String)
    (groups : List (Query × List (Record × Nat))) :
    ∀ {c : DnsCache}, BudgetInv env cap maxBytes c → Unfailed c →
      Unfailed (insertAll env now group groups c) := by
  induction groups with
  | nil =>
    intro c _ h
    exact h
  | cons g rest ih =>
    intro c hInv h
    exact ih (hInv.insert g.1 g.2 now group) (store_unfailed hInv.store h)

/-- An insertion keeps what is recorded of failures and a scan does not touch it. -/
theorem apply_unfailed (hInv : BudgetInv env cap maxBytes c) (h : Unfailed c)
    (hLoads : LoadsUnfailed e) : Unfailed (e.apply env order c) := by
  match e with
  | .op (.insert query recordsAndTtl now group) => exact store_unfailed hInv.store h
  | .op (.insertNegative query resp ttl group now) => exact store_unfailed hInv.store h
  | .op (.insertRecords query records now group) =>
    show Unfailed (c.insertRecords env query records now group).1
    rw [insertRecords_eq]
    exact insertAll_unfailed now group _ hInv h
  | .op (.load none) => exact h
  | .op (.load (some entries)) =>
    intro p hp
    rcases mem_loadEntries entries hInv.store (mem_enforceMemoryBudget hp) with
      ⟨e, he, hEq⟩ | hOld
    · rw [hEq]
      exact hLoads e he
    · exact h p hOld.1
  | .op .clear =>
    intro p hp
    obtain ⟨s, hs, hps⟩ := mem_flatMap.mp hp
    obtain ⟨s', -, hEq⟩ := mem_map.mp hs
    rw [← hEq] at hps
    cases hps
  | .op (.get query now) =>
    intro p hp
    rcases (mem_touch_iff hInv.store).mp hp with hOld | ⟨q, hq, -, hEq⟩
    · exact h p hOld.1
    · rw [hEq]
      exact h q hq
  | .getExpired now secondsAhead baseInterval maxCount =>
    intro p hp
    obtain ⟨q, hq, -, hAged⟩ := mem_getExpired hInv hp
    rw [hAged.prefetchFailureTime]
    exact h q hq

/-- Without failed loads no entry has a failure on record. -/
theorem runEvents_unfailed (hInv : BudgetInv env cap maxBytes c) (h : Unfailed c)
    (hLoads : ∀ e ∈ es, LoadsUnfailed e) : Unfailed (runEvents env order c es) := by
  induction es using reverseRecOn with
  | nil => exact h
  | append_singleton es e ih =>
    rw [runEvents_concat]
    exact apply_unfailed (runEvents_inv hInv es)
      (ih fun e' he' => hLoads e' (mem_append_left _ he')) (hLoads e (by simp))

/-- Without a failure on record only unmarked entries are due. -/
theorem unmarked_of_retry {e : DnsCacheEntry} {now baseInterval : Nat}
    (hFailure : e.prefetchFailureTime = none)
    (hRetry : shouldRetryPrefetch e now baseInterval = true) : e.isInPrefetching = false := by
  simpa [shouldRetryPrefetch, hFailure] using hRetry

/-- A scan of `c` under way: what it has returned was not marked, and is now. -/
structure Marking (env : CacheEnv) (cap maxBytes : Nat) (c : DnsCache) (s : Scan) : Prop where
  inv : BudgetInv env cap maxBytes s.cache
  aged : ∀ p ∈ s.cache.entries, ∃ q ∈ c.entries, p.1 = q.1 ∧ Aged q.2 p.2
  unmarked : ∀ x ∈ s.expired, ∃ q ∈ c.entries, (q.1 == x.1) = true ∧ q.2.isInPrefetching = false
  marked : ∀ x ∈ s.expired, ∀ p ∈ s.cache.entries, (p.1 == x.1) = true →
    p.2.isInPrefetching = true

/-- A visit keeps the account: what was returned is marked now and was not before. -/
theorem Marking.visits {threshold baseInterval maxCount : Nat} {s s' : Scan} {key : PrefetchKey}
    {rest : List PrefetchKey} {go : Bool} (hUnfailed : Unfailed c)
    (h : Marking env cap maxBytes c s)
    (hVisits : Visits env threshold baseInterval maxCount (s.popped rest) key s' go) :
    Marking env cap maxBytes c s' := by
  have hPopped : BudgetInv env cap maxBytes (s.popped rest).cache := withHeap_inv h.inv rest
  have hAfter := visits_inv hPopped hVisits
  have hAged : ∀ p ∈ s'.cache.entries, ∃ q ∈ c.entries, p.1 = q.1 ∧ Aged q.2 p.2 := by
    intro p hp
    obtain ⟨q, hq, hKey, hOnce⟩ := mem_visits hPopped.store hVisits hp
    obtain ⟨q', hq', hKey', hBefore⟩ := h.aged q hq
    exact ⟨q', hq', hKey.trans hKey', hBefore.trans hOnce⟩
  have hMarked : ∀ x ∈ s.expired, ∀ p ∈ s'.cache.entries, (p.1 == x.1) = true →
      p.2.isInPrefetching = true := by
    intro x hx p hp hSame
    obtain ⟨q, hq, hKey, hOnce⟩ := mem_visits hPopped.store hVisits hp
    rw [hKey] at hSame
    exact hOnce.marked (h.marked x hx q hq hSame)
  cases hVisits with
  | stop | gone | skip | current => exact ⟨hAfter, hAged, h.unmarked, hMarked⟩
  | @due p _ _ hPeek hRetry _ _ =>
    obtain ⟨hStored, hKey⟩ := (peekEntry_eq_some hPopped.store).mp hPeek
    refine ⟨hAfter, hAged, ?_, ?_⟩
    · refine forall_mem_append.mpr ⟨h.unmarked, forall_mem_singleton.mpr ?_⟩
      obtain ⟨q, hq, hName, hOnce⟩ := h.aged p hStored
      have hUnmarked := unmarked_of_retry
        (hOnce.prefetchFailureTime.trans (hUnfailed q hq)) hRetry
      rw [hName] at hKey
      rw [hOnce.eq_of_unmarked hUnmarked] at hUnmarked
      exact ⟨q, hq, hKey, hUnmarked⟩
    · refine forall_mem_append.mpr ⟨hMarked, forall_mem_singleton.mpr ?_⟩
      intro p' hp' hSame
      rcases (mem_touch_iff hPopped.store).mp hp' with hOther | ⟨q, -, -, hEq⟩
      · rw [hOther.2] at hSame
        cases hSame
      · rw [hEq]
        rfl

/-- A scan returns questions of unmarked entries and leaves their entries marked. -/
theorem getExpired_marks (hInv : BudgetInv env cap maxBytes c) (hUnfailed : Unfailed c)
    {now : Nat} {secondsAhead : Option Nat} {baseInterval maxCount : Nat}
    {x : Query × Option String}
    (hx : x ∈ (getExpired env order c now secondsAhead baseInterval maxCount).expired) :
    (∃ p ∈ c.entries, (p.1 == x.1) = true ∧ p.2.isInPrefetching = false) ∧
      ∀ p ∈ (getExpired env order c now secondsAhead baseInterval maxCount).cache.entries,
        (p.1 == x.1) = true → p.2.isInPrefetching = true := by
  obtain ⟨y, hy, hEq⟩ := mem_expired.mp hx
  rw [← hEq]
  have hScan : Marking env cap maxBytes c (scanLoop env order (scanThreshold c now secondsAhead)
      baseInterval maxCount c.prefetchHeap.length ⟨c, [], []⟩) := by
    refine scanLoop_invariant (Marking env cap maxBytes c) ?_ _
      ⟨hInv, fun p hp => ⟨p, hp, rfl, .inl rfl⟩, nofun, nofun⟩
    intro s key rest s' go h _ hVisits
    exact h.visits hUnfailed hVisits
  exact ⟨hScan.unmarked y hy, hScan.marked y hy⟩

/-- A question that a scan returns is stored without a mark. -/
theorem unmarked_of_returned (hInv : BudgetInv env cap maxBytes c) (hUnfailed : Unfailed c)
    {p : Query × DnsCacheEntry} (hp : p ∈ c.entries) (hKey : (p.1 == q) = true) {now : Nat}
    {secondsAhead : Option Nat} {baseInterval maxCount : Nat}
    (hReturned : ∃ x ∈ (getExpired env order c now secondsAhead baseInterval maxCount).expired,
      (x.1 == q) = true) : p.2.isInPrefetching = false := by
  obtain ⟨x, hx, hSame⟩ := hReturned
  obtain ⟨p', hp', hKey', hUnmarked⟩ := (getExpired_marks hInv hUnfailed hx).1
  -- a question has one entry
  have hPeek := (peekEntry_eq_some hInv.store).mpr ⟨hp, hKey⟩
  rw [(peekEntry_eq_some hInv.store).mpr ⟨hp', BEq.trans hKey' hSame⟩] at hPeek
  cases hPeek
  exact hUnmarked

/-- The mark stays as long as nothing writes the question. -/
theorem marked_of_untouched (hInv : BudgetInv env cap maxBytes c)
    (hMarked : ∀ p ∈ c.entries, (p.1 == q) = true → p.2.isInPrefetching = true)
    (hOther : ∀ e ∈ es, ¬ e.Overwrites q) :
    ∀ p ∈ (runEvents env order c es).entries, (p.1 == q) = true →
      p.2.isInPrefetching = true := by
  induction es using reverseRecOn with
  | nil => exact hMarked
  | append_singleton es e ih =>
    intro p hp hSame
    rw [runEvents_concat] at hp
    rcases mem_apply (runEvents_inv hInv es) hp with hWrites | ⟨-, p', hp', hKey, -, -, hMark⟩
    · exact absurd (hWrites.overwrites.congr hSame) (hOther e (by simp))
    · rw [hKey] at hSame
      exact hMark (ih (fun e' he' => hOther e' (mem_append_left _ he')) p' hp' hSame)

end Marks

theorem runEvents_append (c : DnsCache) (es es' : List CacheEvent) :
    runEvents env order c (es ++ es') = runEvents env order (runEvents env order c es) es' :=
  foldl_append

/--
**Re-arming.** In every history in which a scan has returned an address question
`q`, a later scan:

* if `q` has been refreshed in between and its deadline is past the threshold of
  the later scan, whose batch is not filled by earlier keys: the scan returns `q`
  exactly if the entry does not carry the mark of the first scan any more;
* if nothing has written `q` since: the scan does not return `q`, whatever time
  has passed.
-/
theorem prefetch_rearmed (env : CacheEnv) (order : HeapOrder)
    (cacheSize expiredTtl expiredReplyTtl maxBytes : Nat) (before after : List CacheEvent)
    (now₁ : Nat) (secondsAhead₁ : Option Nat) (baseInterval₁ maxCount₁ : Nat) (q : Query)
    (hLoads : ∀ e ∈ before ++ after, LoadsUnfailed e) (hIp : q.queryType.isIpAddr = true)
    (hReturned : ∃ x ∈ (getExpired env order (runEvents env order
        (DnsCache.new cacheSize expiredTtl expiredReplyTtl maxBytes) before) now₁ secondsAhead₁
        baseInterval₁ maxCount₁).expired, (x.1 == q) = true)
    (now : Nat) (secondsAhead : Option Nat) (baseInterval maxCount : Nat) :
    let c := runEvents env order (DnsCache.new cacheSize expiredTtl expiredReplyTtl maxBytes)
      (before ++ .getExpired now₁ secondsAhead₁ baseInterval₁ maxCount₁ :: after)
    let expired := (getExpired env order c now secondsAhead baseInterval maxCount).expired
    (LastPositive after q → ∀ p ∈ c.entries, (p.1 == q) = true →
        p.2.validUntil < scanThreshold c now secondsAhead →
        ¬ Exhausted c expired maxCount p.2.validUntil →
        ((∃ x ∈ expired, (x.1 == q) = true) ↔ p.2.isInPrefetching = false)) ∧
      ((∀ e ∈ after, ¬ e.Overwrites q) → ∀ x ∈ expired, (x.1 == q) = false) := by
  intro c expired
  have hNew := BudgetInv.new env cacheSize expiredTtl expiredReplyTtl maxBytes
  have hEmpty := entries_new cacheSize expiredTtl expiredReplyTtl maxBytes
  have hNone : Unfailed (DnsCache.new cacheSize expiredTtl expiredReplyTtl maxBytes) := by
    intro p hp
    rw [hEmpty] at hp
    cases hp
  obtain ⟨hBefore, hAfter⟩ := forall_mem_append.mp hLoads
  have hUnfailed : Unfailed c :=
    runEvents_unfailed hNew hNone
      (forall_mem_append.mpr ⟨hBefore, forall_mem_cons.mpr ⟨trivial, hAfter⟩⟩)
  have hInv : BudgetInv env (max cacheSize 1) maxBytes c := runEvents_inv hNew _
  constructor
  · rintro ⟨e, hLast, hWrite, hPositive⟩ p hp hKey hPast hRoom
    refine ⟨unmarked_of_returned hInv hUnfailed hp hKey, fun hUnmarked => ?_⟩
    have hRefreshed : LastPositive
        (before ++ .getExpired now₁ secondsAhead₁ baseInterval₁ maxCount₁ :: after) p.1 := by
      obtain ⟨init, tail, hEq, hTail⟩ := hLast.congr (BEq.symm hKey)
      refine ⟨e, ⟨before ++ .getExpired now₁ secondsAhead₁ baseInterval₁ maxCount₁ :: init, tail,
        by simp [hEq], hTail⟩, hWrite.congr (BEq.symm hKey), hPositive⟩
    rcases unmarked_returned hNew hEmpty hRefreshed hp ((isIpAddr_eq hKey).trans hIp) hUnmarked
      hPast baseInterval maxCount with ⟨x, hx, hSame⟩ | hFull
    · exact ⟨x, hx, BEq.trans hSame hKey⟩
    · exact absurd hFull hRoom
  · intro hUntouched x hx
    by_contra hSame
    have hSame := eq_true_of_ne_false hSame
    obtain ⟨y, hy, hFirst⟩ := hReturned
    have hMarked := (getExpired_marks (runEvents_inv hNew before)
      (runEvents_unfailed hNew hNone hBefore) hy).2
    obtain ⟨p, hp, hKey, hUnmarked⟩ := (getExpired_marks hInv hUnfailed hx).1
    have hKey := BEq.trans hKey hSame
    replace hp : p ∈ (runEvents env order (getExpired env order (runEvents env order
        (DnsCache.new cacheSize expiredTtl expiredReplyTtl maxBytes) before) now₁ secondsAhead₁
        baseInterval₁ maxCount₁).cache after).entries := by
      rw [show c = runEvents env order _ _ from runEvents_append _ before (_ :: after)] at hp
      exact hp
    have hStill := marked_of_untouched
      (getExpired_inv (runEvents_inv hNew before) now₁ secondsAhead₁ baseInterval₁ maxCount₁)
      (fun p hp hp' => hMarked p hp (BEq.trans hp' (BEq.symm hFirst))) hUntouched p hp hKey
    rw [hUnmarked] at hStill
    cases hStill

/-! ## One entry over two scans -/

/-- The cache after a history, holding an address that is first stored for five minutes. -/
def exampleRun (es : List CacheEvent) : DnsCache :=
  runEvents exampleEnv firstOrder (DnsCache.new 4 0 0 0) (storeAddress 300 0 :: es)

/-- A scan with the settings of the middleware. -/
def exampleScan (now : Nat) : CacheEvent := .getExpired now (some 5) (secs 1) 16

/-- The questions that such a scan returns. -/
def scanned (c : DnsCache) (now : Nat) : List Query :=
  (getExpired exampleEnv firstOrder c now (some 5) (secs 1) 16).expired.map Prod.fst

/-- The cache after a scan has returned the address, the cache has been cleared and the address
has been stored anew. -/
def clearedRun : DnsCache :=
  exampleRun [exampleScan (secs 300), .op .clear, storeAddress 300 (secs 400)]

/-- The scan at 300 s returns the question; stored anew, it is returned again at 700 s. -/
theorem prefetch_rearmed_clearedRun :
    (∃ x ∈ (getExpired exampleEnv firstOrder (exampleRun []) (secs 300) (some 5) (secs 1)
        16).expired, (x.1 == exampleQuery) = true) ∧
      ∃ x ∈ (getExpired exampleEnv firstOrder clearedRun (secs 700) (some 5) (secs 1) 16).expired,
        (x.1 == exampleQuery) = true := by
  have hReturned : ∃ x ∈ (getExpired exampleEnv firstOrder (exampleRun []) (secs 300) (some 5)
      (secs 1) 16).expired, (x.1 == exampleQuery) = true := by decide +kernel
  refine ⟨hReturned, ?_⟩
  refine ((prefetch_rearmed exampleEnv firstOrder 4 0 0 0 [storeAddress 300 0]
    [.op .clear, storeAddress 300 (secs 400)] (secs 300) (some 5) (secs 1) 16 exampleQuery
    ?_ rfl hReturned (secs 700) (some 5) (secs 1) 16).1 ?_ (exampleQuery,
      DnsCacheEntry.new (entryData exampleQuery
        [(Record.fromRdata exampleName 300 exampleAddress, 300)] "default") (secs 700))
    (mem_singleton.mpr rfl) (by decide +kernel) (by decide +kernel) ?_).mpr rfl
  · intro e he
    simp only [cons_append, nil_append, mem_cons, not_mem_nil, or_false] at he
    rcases he with rfl | rfl | rfl <;> trivial
  · exact ⟨storeAddress 300 (secs 400), ⟨[.op .clear], [], rfl, by simp⟩,
      ⟨_, .head _, by decide +kernel⟩, trivial⟩
  · intro hFull
    exact absurd hFull.1 (by decide +kernel)

/-- An entry for the address is past the threshold of a scan, which returns nothing. -/
def Overlooked (c : DnsCache) (now : Nat) : Prop :=
  (∃ p ∈ c.entries, (p.1 == exampleQuery) = true ∧
    p.2.validUntil < scanThreshold c now (some 5)) ∧ scanned c now = []

/--
A scan returns the question. After a refresh, a scan past the new deadline
overlooks it; without one, so does a scan ten seconds later.
-/
theorem prefetch_not_rearmed :
    scanned (exampleRun []) (secs 300) = [exampleQuery] ∧
      Overlooked (exampleRun [exampleScan (secs 300), storeAddress 300 (secs 301)]) (secs 600) ∧
      Overlooked (exampleRun [exampleScan (secs 300)]) (secs 310) := by
  refine ⟨by decide +kernel, ⟨⟨_, mem_singleton.mpr rfl, ?_, ?_⟩, by decide +kernel⟩,
    ⟨⟨_, mem_singleton.mpr rfl, ?_, ?_⟩, by decide +kernel⟩⟩
  · decide +kernel
  · decide +kernel
  · decide +kernel
  · decide +kernel

end SmartDns.Ports.PrefetchRearming
