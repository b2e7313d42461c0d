import SmartDns.Verified.MinHeap
import SmartDns.Ports.CacheContents
import Mathlib.Data.List.Sort

/-!
# The prefetch scan

Every insertion of a positive answer pushes the question and its deadline on a
heap. `get_expired` pops the keys whose time has come, looks at the entry each
of them names and hands out the questions that are due for a refresh; such an
entry is marked as being refreshed. A key is put back if its time has not come,
if the batch is full, or, with the new deadline, if the entry has been
refreshed in the meantime. Every other key is dropped.

Keys with one deadline are popped in an order that depends on the layout of the
heap, so the scan is defined for every `MinPop`. It runs on fuel; the heap never
grows while it runs, so its length is enough.
-/

namespace SmartDns.Ports.PrefetchScan

open Verified DnsMessage DnsLookup CacheStore CacheAccounting CacheContents

/-- `PrefetchKey`: when an entry expires and the question it is stored for. -/
abbrev PrefetchKey := Nat × Query

/-- The order in which the heap hands out its keys. -/
abbrev HeapOrder := MinPop PrefetchKey Prod.fst

/-- An order that can be computed. -/
def firstOrder : HeapOrder := MinPop.first PrefetchKey Prod.fst

def shouldRetryPrefetch (e : DnsCacheEntry) (now baseInterval : Nat) : Bool :=
  !e.isInPrefetching || e.prefetchFailureTime.any fun failure =>
    decide (failure + baseInterval * 2 ≤ now)

/-- The entry while a refresh of it is under way. -/
def inPrefetching (e : DnsCacheEntry) : DnsCacheEntry := { e with isInPrefetching := true }

/-- Until when an entry must be valid not to be due; before the origin of the clock nothing is
subtracted. -/
def scanThreshold (c : DnsCache) (now : Nat) (secondsAhead : Option Nat) : Nat :=
  (if c.expiredTtl > 0 then
    if secs c.expiredTtl ≤ now then now - secs c.expiredTtl else now
  else now) + secs (secondsAhead.getD 5)

/-- A scan under way: the store, the keys to put back and what is due so far. -/
structure Scan where
  cache : DnsCache
  requeue : List PrefetchKey
  expired : List (Query × Nat × Option String)

section Loop

variable (env : CacheEnv) (order : HeapOrder) (threshold baseInterval maxCount : Nat)

/-- What becomes of one key, and whether the scan goes on. -/
def Scan.visit (s : Scan) (key : PrefetchKey) : Scan × Bool :=
  if key.1 > threshold || s.expired.length ≥ maxCount then
    ({ s with requeue := s.requeue ++ [key] }, false)
  else
    match s.cache.peekEntry env key.2 with
    | none => (s, true)
    | some (_, entry) =>
      let used := { s with cache := s.cache.touch env key.2 id }
      if !shouldRetryPrefetch entry threshold baseInterval then (used, true)
      else if !key.2.queryType.isIpAddr then (used, true)
      else if entry.isCurrent threshold then
        ({ used with requeue := s.requeue ++ [(entry.validUntil, key.2)] }, true)
      else
        ({ s with
          cache := s.cache.touch env key.2 inPrefetching
          expired := s.expired ++ [(key.2, entry.hits, entry.data.nameServerGroup)] }, true)

/-- The store after a key has been popped. -/
def Scan.popped (s : Scan) (rest : List PrefetchKey) : Scan :=
  { s with cache := { s.cache with prefetchHeap := rest } }

def scanLoop : Nat → Scan → Scan
  | 0, s => s
  | fuel + 1, s =>
    match order.pop s.cache.prefetchHeap with
    | none => s
    | some (key, rest) =>
      let r := (s.popped rest).visit env threshold baseInterval maxCount key
      if r.2 then scanLoop fuel r.1 else r.1

end Loop

/-- How long until the earliest key, one day at most. -/
def mostRecent (order : HeapOrder) (heap : List PrefetchKey) (threshold : Nat) : Nat :=
  match order.pop heap with
  | some (key, _) =>
    if key.1 > threshold then min (key.1 - threshold) (secs DnsResponse.maxTtl)
    else secs DnsResponse.maxTtl
  | none => secs DnsResponse.maxTtl

/-- What a scan found. -/
structure ScanResult where
  cache : DnsCache
  expired : List (Query × Option String)
  mostRecent : Nat

/-- `DnsCache::get_expired`: the most used questions come first. -/
def getExpired (env : CacheEnv) (order : HeapOrder) (c : DnsCache) (now : Nat)
    (secondsAhead : Option Nat) (baseInterval maxCount : Nat) : ScanResult :=
  let threshold := scanThreshold c now secondsAhead
  let s := scanLoop env order threshold baseInterval maxCount c.prefetchHeap.length ⟨c, [], []⟩
  let heap := s.requeue ++ s.cache.prefetchHeap
  { cache := { s.cache with prefetchHeap := heap }
    expired := (s.expired.insertionSort fun a b => a.2.1 ≥ b.2.1).map fun x => (x.1, x.2.2)
    mostRecent := mostRecent order heap threshold }

/-! ## What one key can do -/

section Visits

variable {env : CacheEnv} {threshold baseInterval maxCount : Nat}

/-- All that a scan can do with one key. -/
inductive Visits (env : CacheEnv) (threshold baseInterval maxCount : Nat) (s : Scan)
    (key : PrefetchKey) : Scan → Bool → Prop where
  | stop (h : key.1 > threshold ∨ maxCount ≤ s.expired.length) :
      Visits env threshold baseInterval maxCount s key
        { s with requeue := s.requeue ++ [key] } false
  | gone (hKey : key.1 ≤ threshold) (hRoom : s.expired.length < maxCount)
      (h : s.cache.peekEntry env key.2 = none) :
      Visits env threshold baseInterval maxCount s key s true
  | skip {p : Query × DnsCacheEntry} (hKey : key.1 ≤ threshold)
      (hRoom : s.expired.length < maxCount) (h : s.cache.peekEntry env key.2 = some p)
      (hSkip : shouldRetryPrefetch p.2 threshold baseInterval = false ∨
        key.2.queryType.isIpAddr = false) :
      Visits env threshold baseInterval maxCount s key
        { s with cache := s.cache.touch env key.2 id } true
  | current {p : Query × DnsCacheEntry} (hKey : key.1 ≤ threshold)
      (hRoom : s.expired.length < maxCount) (h : s.cache.peekEntry env key.2 = some p)
      (hRetry : shouldRetryPrefetch p.2 threshold baseInterval = true)
      (hIp : key.2.queryType.isIpAddr = true) (hCurrent : threshold ≤ p.2.validUntil) :
      Visits env threshold baseInterval maxCount s key
        { s with
          cache := s.cache.touch env key.2 id
          requeue := s.requeue ++ [(p.2.validUntil, key.2)] } true
  | due {p : Query × DnsCacheEntry} (hKey : key.1 ≤ threshold)
      (hRoom : s.expired.length < maxCount) (h : s.cache.peekEntry env key.2 = some p)
      (hRetry : shouldRetryPrefetch p.2 threshold baseInterval = true)
      (hIp : key.2.queryType.isIpAddr = true) (hPast : p.2.validUntil < threshold) :
      Visits env threshold baseInterval maxCount s key
        { s with
          cache := s.cache.touch env key.2 inPrefetching
          expired := s.expired ++ [(key.2, p.2.hits, p.2.data.nameServerGroup)] } true

/-- A visit takes one of the cases listed. -/
theorem visits (s : Scan) (key : PrefetchKey) :
    Visits env threshold baseInterval maxCount s key
      (s.visit env threshold baseInterval maxCount key).1
      (s.visit env threshold baseInterval maxCount key).2 := by
  unfold Scan.visit
  by_cases hStop : (key.1 > threshold || s.expired.length ≥ maxCount) = true
  · rw [if_pos hStop]
    exact .stop (by simpa using hStop)
  · rw [if_neg hStop]
    have hGo : key.1 ≤ threshold ∧ s.expired.length < maxCount := by simpa using hStop
    cases hPeek : s.cache.peekEntry env key.2 with
    | none => exact .gone hGo.1 hGo.2 hPeek
    | some p =>
      dsimp only
      split
      · rename_i hRetry
        exact .skip hGo.1 hGo.2 hPeek (.inl (by simpa using hRetry))
      · rename_i hRetry
        split
        · rename_i hIp
          exact .skip hGo.1 hGo.2 hPeek (.inr (by simpa using hIp))
        · rename_i hIp
          split
          · rename_i hCurrent
            exact .current hGo.1 hGo.2 hPeek (by simpa using hRetry) (by simpa using hIp)
              (of_decide_eq_true hCurrent)
          · rename_i hPast
            refine .due hGo.1 hGo.2 hPeek (by simpa using hRetry) (by simpa using hIp) ?_
            simpa [DnsCacheEntry.isCurrent] using hPast

end Visits

/-! ## What a scan leaves alone -/

section Frame

variable {env : CacheEnv} {order : HeapOrder} {cap maxBytes : Nat}

variable {threshold baseInterval maxCount : Nat}

/-- A property of scans that every key keeps holds of the whole loop. -/
theorem scanLoop_invariant (Inv : Scan → Prop)
    (hStep : ∀ (s : Scan) (key : PrefetchKey) (rest : List PrefetchKey) (s' : Scan) (go : Bool),
      Inv s → order.pop s.cache.prefetchHeap = some (key, rest) →
      Visits env threshold baseInterval maxCount (s.popped rest) key s' go → Inv s')
    (fuel : Nat) :
    ∀ {s : Scan}, Inv s → Inv (scanLoop env order threshold baseInterval maxCount fuel s) := by
  induction fuel with
  | zero =>
    intro s h
    exact h
  | succ fuel ih =>
    intro s h
    unfold scanLoop
    split
    · exact h
    · rename_i key rest hPop
      have hNext := hStep s key rest _ _ h hPop (visits _ key)
      dsimp only
      split
      · exact ih hNext
      · exact hNext

variable {c : DnsCache}

/-- Keys of the heap do not enter the invariant of the store. -/
theorem withHeap_inv (h : BudgetInv env cap maxBytes c) (heap : List PrefetchKey) :
    BudgetInv env cap maxBytes { c with prefetchHeap := heap } :=
  ⟨h.store.congr rfl rfl, h.limit, h.budget⟩

theorem visits_inv {s s' : Scan} {key : PrefetchKey} {go : Bool}
    (h : BudgetInv env cap maxBytes s.cache)
    (hVisits : Visits env threshold baseInterval maxCount s key s' go) :
    BudgetInv env cap maxBytes s'.cache := by
  cases hVisits with
  | stop | gone => exact h
  | skip | current | due => exact h.touch _ fun _ => rfl

/-- The entry as it was, or marked. -/
def Aged (e e' : DnsCacheEntry) : Prop := e' = e ∨ e' = inPrefetching e

variable {e e' : DnsCacheEntry}

theorem Aged.data (h : Aged e e') : e'.data = e.data := by
  rcases h with h | h <;> rw [h]
  rfl

theorem Aged.validUntil (h : Aged e e') : e'.validUntil = e.validUntil := by
  rcases h with h | h <;> rw [h]
  rfl

theorem Aged.prefetchFailureTime (h : Aged e e') :
    e'.prefetchFailureTime = e.prefetchFailureTime := by
  rcases h with h | h <;> rw [h]
  rfl

/-- Marks stay. -/
theorem Aged.marked (h : Aged e e') (hMarked : e.isInPrefetching = true) :
    e'.isInPrefetching = true := by
  rcases h with h | h <;> rw [h]
  · exact hMarked
  · rfl

/-- An entry without a mark is as it was. -/
theorem Aged.eq_of_unmarked (h : Aged e e') (hUnmarked : e'.isInPrefetching = false) : e' = e := by
  rcases h with h | h
  · exact h
  · rw [h] at hUnmarked
    exact absurd hUnmarked (by simp [inPrefetching])

theorem Aged.trans {e'' : DnsCacheEntry} (h : Aged e e') (h' : Aged e' e'') : Aged e e'' := by
  rcases h with h | h
  · rw [h] at h'
    exact h'
  · right
    rcases h' with h' | h' <;> rw [h', h]
    rfl

variable {p : Query × DnsCacheEntry}

theorem mem_touch_aged (h : StoreInv env cap c) {query : Query} {f : DnsCacheEntry → DnsCacheEntry}
    (hf : ∀ e, Aged e (f e)) (hp : p ∈ (c.touch env query f).entries) :
    ∃ q ∈ c.entries, p.1 = q.1 ∧ Aged q.2 p.2 := by
  rcases (mem_touch_iff h).mp hp with hOld | ⟨q, hq, -, hEq⟩
  · exact ⟨p, hOld.1, rfl, .inl rfl⟩
  · rw [hEq]
    exact ⟨q, hq, rfl, hf q.2⟩

/-- A visit ages the entries and brings none in. -/
theorem mem_visits {s s' : Scan} {key : PrefetchKey} {go : Bool} (h : StoreInv env cap s.cache)
    (hVisits : Visits env threshold baseInterval maxCount s key s' go) (hp : p ∈ s'.cache.entries) :
    ∃ q ∈ s.cache.entries, p.1 = q.1 ∧ Aged q.2 p.2 := by
  cases hVisits with
  | stop | gone => exact ⟨p, hp, rfl, .inl rfl⟩
  | skip | current => exact mem_touch_aged h (fun _ => .inl rfl) hp
  | due _ _ _ _ _ _ => exact mem_touch_aged h (fun _ => .inr rfl) hp

/-- A scan keeps the store, and what it changes of an entry is the mark. -/
theorem scanLoop_frame (h : BudgetInv env cap maxBytes c) (fuel : Nat) :
    let s := scanLoop env order threshold baseInterval maxCount fuel ⟨c, [], []⟩
    BudgetInv env cap maxBytes s.cache ∧
      ∀ p ∈ s.cache.entries, ∃ q ∈ c.entries, p.1 = q.1 ∧ Aged q.2 p.2 := by
  refine scanLoop_invariant (fun s => BudgetInv env cap maxBytes s.cache ∧
    ∀ p ∈ s.cache.entries, ∃ q ∈ c.entries, p.1 = q.1 ∧ Aged q.2 p.2) ?_ fuel ?_
  · rintro s key rest s' go ⟨hInv, hAged⟩ - hVisits
    have hPopped : BudgetInv env cap maxBytes (s.popped rest).cache := withHeap_inv hInv rest
    refine ⟨visits_inv hPopped hVisits, ?_⟩
    intro p hp
    obtain ⟨q, hq, hKey, hOnce⟩ := mem_visits hPopped.store hVisits hp
    obtain ⟨q', hq', hKey', hBefore⟩ := hAged q hq
    exact ⟨q', hq', hKey.trans hKey', hBefore.trans hOnce⟩
  · exact ⟨h, fun p hp => ⟨p, hp, rfl, .inl rfl⟩⟩

/-- A scan keeps the cache within its budget. -/
theorem getExpired_inv (h : BudgetInv env cap maxBytes c) (now : Nat) (secondsAhead : Option Nat)
    (baseInterval maxCount : Nat) :
    BudgetInv env cap maxBytes
      (getExpired env order c now secondsAhead baseInterval maxCount).cache :=
  withHeap_inv (scanLoop_frame h _).1 _

/-- A scan ages the entries and brings none in. -/
theorem mem_getExpired (h : BudgetInv env cap maxBytes c) {now : Nat} {secondsAhead : Option Nat}
    (hp : p ∈ (getExpired env order c now secondsAhead baseInterval maxCount).cache.entries) :
    ∃ q ∈ c.entries, p.1 = q.1 ∧ Aged q.2 p.2 :=
  (scanLoop_frame h _).2 p hp

end Frame

end SmartDns.Ports.PrefetchScan
