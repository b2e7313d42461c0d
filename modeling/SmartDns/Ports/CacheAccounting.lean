import SmartDns.Ports.CacheStore

/-!
# Accounting and capacity of the cache

The cache keeps a running estimate of the bytes it holds and evicts by it, so
the estimate must be exact in every state an operation leaves behind: a counter
that drifts upwards makes the eviction loop empty the cache, one that drifts
downwards wraps around. `StoreInv` is the joint invariant. It says that every
entry sits in the shard its question is routed to, that the counter is the sum
of the entry sizes and never went below zero, and that the capacities of the
shards still add up to the configured size.

Every operation is a shard update followed by eviction. `ShardOp` is the
contract of a shard update, `StoreInv.onShard` lifts it to the cache and
`StoreInv.enforceMemoryBudget` adds the budget.
-/

namespace SmartDns.Ports.CacheAccounting

open Verified DnsMessage DnsLookup CacheStore List

/-! ## The counter -/

theorem addBytes_ofNat (t : ByteCounter) (n : Nat) :
    t.addBytes (n : Int) = ⟨t.value + n, t.underflow⟩ := by
  unfold ByteCounter.addBytes
  by_cases hZero : (n : Int) = 0
  · have hn : n = 0 := by omega
    simp [hn]
  · have hPos : (n : Int) > 0 := by omega
    rw [if_neg hZero, if_pos hPos]
    rfl

/-- A subtraction covered by the counter is exact and does not wrap. -/
theorem addBytes_neg {t : ByteCounter} {n : Nat} (h : n ≤ t.value) :
    t.addBytes (-(n : Int)) = ⟨t.value - n, t.underflow⟩ := by
  unfold ByteCounter.addBytes
  by_cases hZero : n = 0
  · simp [hZero]
  · have hNe : -(n : Int) ≠ 0 := by omega
    have hNeg : ¬ -(n : Int) > 0 := by omega
    have hAbs : (-(n : Int)).natAbs = n := by omega
    rw [if_neg hNe, if_neg hNeg, hAbs]
    exact if_pos h

/-- Trading an old size for a new one is exact when the counter covers the loss. -/
theorem addBytes_sub {t : ByteCounter} {new old : Nat} (h : old ≤ t.value + new) :
    t.addBytes ((new : Int) - (old : Int)) = ⟨t.value + new - old, t.underflow⟩ := by
  by_cases hLe : old ≤ new
  · have hDelta : (new : Int) - (old : Int) = ((new - old : Nat) : Int) := by omega
    rw [hDelta, addBytes_ofNat]
    congr 1
    omega
  · have hDelta : (new : Int) - (old : Int) = -((old - new : Nat) : Int) := by omega
    rw [hDelta, addBytes_neg (by omega)]
    congr 1
    omega

/-! ## Sums over the shards -/

/-- Replacing one summand changes the sum by that summand alone. -/
theorem sum_set {α : Type} (f : α → Nat) (xs : List α) :
    ∀ (i : Nat) (a : α), xs[i]? = some a →
      ∃ base, (xs.map f).sum = base + f a ∧ ∀ x, ((xs.set i x).map f).sum = base + f x := by
  induction xs with
  | nil =>
    intro i a h
    simp at h
  | cons y ys ih =>
    intro i a h
    cases i with
    | zero =>
      have hy : y = a := by simpa using h
      subst hy
      refine ⟨(ys.map f).sum, ?_, ?_⟩
      · simp only [map_cons, sum_cons]
        omega
      · simp only [set_cons_zero, map_cons, sum_cons]
        omega
    | succ i =>
      obtain ⟨base, hSum, hSet⟩ := ih i a (by simpa using h)
      refine ⟨f y + base, ?_, ?_⟩
      · simp only [map_cons, sum_cons]
        omega
      · intro x
        simp only [set_cons_succ, map_cons, sum_cons, hSet x]
        omega

/-- The bytes of all entries of a list of shards. -/
def shardBytes (env : CacheEnv) (shards : List Shard) : Nat :=
  (shards.map (Lru.weight (bindingSize env))).sum

/-- The number of entries of a list of shards. -/
def shardEntries (shards : List Shard) : Nat := (shards.map fun s => s.items.length).sum

theorem shardBytes_cons (env : CacheEnv) (s : Shard) (ss : List Shard) :
    shardBytes env (s :: ss) = s.weight (bindingSize env) + shardBytes env ss := by
  simp [shardBytes]

theorem shardEntries_cons (s : Shard) (ss : List Shard) :
    shardEntries (s :: ss) = s.items.length + shardEntries ss := by
  simp [shardEntries]

theorem shardBytes_eq_zero {env : CacheEnv} {shards : List Shard}
    (h : ∀ s ∈ shards, s.items = []) : shardBytes env shards = 0 := by
  apply sum_eq_zero
  intro n hn
  obtain ⟨s, hs, hWeight⟩ := mem_map.mp hn
  rw [← hWeight, Lru.weight, h s hs]
  rfl

/-! ## Shard updates -/

/-- The contract of an update of the shard that `query` is routed to. -/
structure ShardOp (env : CacheEnv) (query : Query)
    (f : Shard → ByteCounter → Shard × ByteCounter) : Prop where
  cap : ∀ s t, (f s t).1.cap = s.cap
  keys : ∀ s t, ∀ p ∈ (f s t).1.items, p.1 = query ∨ ∃ q ∈ s.items, q.1 = p.1
  bytes : ∀ s base, (f s ⟨base + s.weight (bindingSize env), false⟩).2 =
    ⟨base + (f s ⟨base + s.weight (bindingSize env), false⟩).1.weight (bindingSize env), false⟩

/-- Pushing an entry: refund what left, charge what came. -/
theorem pushEntry_shardOp (env : CacheEnv) (query : Query) (entry : DnsCacheEntry) :
    ShardOp env query (pushEntry env query entry) where
  cap s t := rfl
  keys s t p hp := by
    have hCases := Lru.mem_push hp
    rcases hCases with hNew | hOld
    · left
      rw [hNew]
    · right
      exact ⟨p, hOld.1, rfl⟩
  bytes s base := by
    unfold pushEntry
    cases hPush : (s.push query entry).1 with
    | none =>
      have hWeight := Lru.weight_push_none (bindingSize env) hPush
      simp only [hPush, addBytes_ofNat, hWeight]
      congr 1
      exact Nat.add_assoc _ _ _
    | some p =>
      have hWeight := Lru.weight_push_some (bindingSize env) hPush
      have hSize : bindingSize env p = entrySize env p.1 p.2 := rfl
      have hNew : bindingSize env (query, entry) = entrySize env query entry := rfl
      have hMem : bindingSize env p ≤ s.weight (bindingSize env) :=
        Lru.le_weight _ (Lru.push_some_mem hPush)
      simp only [hPush]
      rw [addBytes_neg (by show _ ≤ base + _; omega), addBytes_ofNat]
      congr 1
      show base + _ - _ + _ = base + _
      omega

/-- The keys of a shard after an update in place. -/
private theorem modify_keys (query : Query) (s : Shard) (g : DnsCacheEntry → DnsCacheEntry)
    (p : Query × DnsCacheEntry) (hp : p ∈ (s.modify query g).items) :
    p.1 = query ∨ ∃ q ∈ s.items, q.1 = p.1 := by
  right
  rcases Lru.mem_modify hp with hOld | hNew
  · exact ⟨p, hOld.1, rfl⟩
  · obtain ⟨q, hq, _, hEq⟩ := hNew
    exact ⟨q, hq, by rw [hEq]⟩

/-- The size of an entry splits into a part of its key and one of its answers. -/
theorem entrySize_split (env : CacheEnv) (query query' : Query) (entry entry' : DnsCacheEntry) :
    entrySize env query entry + entrySize env query' entry' =
      entrySize env query' entry + entrySize env query entry' := by
  unfold entrySize
  omega

/--
An update in place measures both entries under the question asked although the
binding is stored under another spelling. The name's share cancels, so the
difference charged is the difference of the stored binding.
-/
theorem storeEntry_shardOp (env : CacheEnv) (query : Query) (data : DnsResponse)
    (validUntil : Nat) : ShardOp env query (storeEntry env query data validUntil) where
  cap s t := by
    unfold storeEntry
    cases hPeek : s.peek query with
    | none => rfl
    | some p => exact Lru.cap_modify s query _
  keys s t p hp := by
    unfold storeEntry at hp
    cases hPeek : s.peek query with
    | none =>
      rw [hPeek] at hp
      exact (pushEntry_shardOp env query (DnsCacheEntry.new data validUntil)).keys s t p hp
    | some q =>
      rw [hPeek] at hp
      exact modify_keys query s _ p hp
  bytes s base := by
    unfold storeEntry
    cases hPeek : s.peek query with
    | none => exact (pushEntry_shardOp env query (DnsCacheEntry.new data validUntil)).bytes s base
    | some q =>
      have hWeight := Lru.weight_modify (bindingSize env)
        (fun e => e.refresh data validUntil) hPeek
      have hOld : bindingSize env q = entrySize env q.1 q.2 := rfl
      have hNew : bindingSize env (q.1, q.2.refresh data validUntil) =
          entrySize env q.1 (DnsCacheEntry.new data validUntil) := rfl
      have hSplit := entrySize_split env query q.1 (DnsCacheEntry.new data validUntil) q.2
      show ByteCounter.addBytes _ _ =
        ⟨base + (s.modify query fun e => e.refresh data validUntil).weight _, false⟩
      rw [addBytes_sub (by show _ ≤ base + _ + _; omega)]
      congr 1
      show base + s.weight (bindingSize env) + _ - _ = base + _
      omega

/-- An update in place that leaves the stored response alone changes no size. -/
theorem modify_shardOp (env : CacheEnv) (query : Query) {f : DnsCacheEntry → DnsCacheEntry}
    (hf : ∀ e, (f e).data = e.data) :
    ShardOp env query fun s t => (s.modify query f, t) where
  cap s t := Lru.cap_modify s query _
  keys s t p hp := modify_keys query s _ p hp
  bytes s base := by
    cases hPeek : s.peek query with
    | none => rw [Lru.modify_none _ hPeek]
    | some q =>
      have hWeight := Lru.weight_modify (bindingSize env) f hPeek
      have hSame : bindingSize env (q.1, f q.2) = bindingSize env q := by
        unfold bindingSize entrySize
        rw [hf]
      show (⟨base + s.weight (bindingSize env), false⟩ : ByteCounter) =
        ⟨base + (s.modify query f).weight (bindingSize env), false⟩
      congr 1
      omega

/-! ## The invariant -/

/-- The joint invariant of a cache whose shards hold `cap` entries at most. -/
structure StoreInv (env : CacheEnv) (cap : Nat) (c : DnsCache) : Prop where
  placed : ∀ (i : Nat) (s : Shard), c.shards[i]? = some s →
    ∀ p ∈ s.items, shardIndexOf env p.1 c.shards.length = i
  bytes : c.totalBytes = ⟨shardBytes env c.shards, false⟩
  caps : (c.shards.map Lru.cap).sum = cap

/-- Fields outside the shards and the counter do not enter the invariant. -/
theorem StoreInv.congr {env : CacheEnv} {cap : Nat} {c c' : DnsCache} (h : StoreInv env cap c)
    (hShards : c'.shards = c.shards) (hTotal : c'.totalBytes = c.totalBytes) :
    StoreInv env cap c' where
  placed := by
    rw [hShards]
    exact h.placed
  bytes := by
    rw [hTotal, hShards]
    exact h.bytes
  caps := by
    rw [hShards]
    exact h.caps

variable {query : Query}

/-- A shard update that keeps its contract keeps the invariant. -/
theorem StoreInv.onShard {env : CacheEnv} {cap : Nat} {c : DnsCache}
    {f : Shard → ByteCounter → Shard × ByteCounter} (h : StoreInv env cap c)
    (hOp : ShardOp env query f) : StoreInv env cap (c.onShard env query f) := by
  unfold DnsCache.onShard
  cases hGet : c.shards[shardIndexOf env query c.shards.length]? with
  | none => exact h
  | some shard =>
    obtain ⟨base, hSum, hSet⟩ :=
      sum_set (Lru.weight (bindingSize env)) c.shards _ shard hGet
    obtain ⟨capBase, hCapSum, hCapSet⟩ := sum_set Lru.cap c.shards _ shard hGet
    have hTotal : c.totalBytes = ⟨base + shard.weight (bindingSize env), false⟩ := by
      rw [h.bytes, shardBytes, hSum]
    refine ⟨?_, ?_, ?_⟩
    · intro i s hs p hp
      rw [length_set]
      rw [getElem?_set] at hs
      split at hs
      · rename_i hIdx
        split at hs
        · cases hs
          rcases hOp.keys shard c.totalBytes p hp with hNew | hOld
          · rw [hNew, hIdx]
          · obtain ⟨q, hq, hKey⟩ := hOld
            rw [← hKey, ← hIdx]
            exact h.placed _ shard hGet q hq
        · cases hs
      · exact h.placed i s hs p hp
    · rw [shardBytes, hSet, hTotal]
      exact hOp.bytes shard base
    · rw [hCapSet, hOp.cap, ← hCapSum]
      exact h.caps

/-! ## Eviction -/

/-- A round leaves every shard with its capacity and some of its entries. -/
theorem evictPass_shards (env : CacheEnv) (maxBytes : Nat) (shards : List Shard) :
    ∀ total : ByteCounter,
      List.Forall₂ (fun s' s => s'.cap = s.cap ∧ ∀ p ∈ s'.items, p ∈ s.items)
        (evictPass env maxBytes shards total).1 shards := by
  induction shards with
  | nil =>
    intro total
    exact List.Forall₂.nil
  | cons shard rest ih =>
    intro total
    have hSame : ∀ ss : List Shard,
        List.Forall₂ (fun s' s => s'.cap = s.cap ∧ ∀ p ∈ s'.items, p ∈ s.items) ss ss := by
      intro ss
      exact forall₂_same.mpr fun s _ => ⟨rfl, fun p hp => hp⟩
    unfold evictPass
    split
    · rename_i query entry shard' hPop
      have hShard' : shard' = shard.popLru.2 := by rw [hPop]
      have hKeep : shard'.cap = shard.cap ∧ ∀ p ∈ shard'.items, p ∈ shard.items := by
        rw [hShard']
        exact ⟨rfl, fun p hp => Lru.mem_popLru hp⟩
      dsimp only
      split
      · exact List.Forall₂.cons hKeep (hSame rest)
      · exact List.Forall₂.cons hKeep (ih _)
    · exact List.Forall₂.cons ⟨rfl, fun p hp => hp⟩ (ih total)

/-- Evicting the oldest entry of a shard takes its size off the counter. -/
theorem addBytes_evict {env : CacheEnv} {shard shard' : Shard} {entry : DnsCacheEntry}
    (hPop : shard.popLru = (some (query, entry), shard')) (base : Nat) (rest : List Shard) :
    ByteCounter.addBytes ⟨base + shardBytes env (shard :: rest), false⟩
        (-(entrySize env query entry : Int)) =
      ⟨base + shard'.weight (bindingSize env) + shardBytes env rest, false⟩ := by
  have hWeight : shard'.weight (bindingSize env) + entrySize env query entry =
      shard.weight (bindingSize env) := by
    have hShard' : shard' = shard.popLru.2 := by rw [hPop]
    rw [hShard']
    exact Lru.weight_popLru (bindingSize env) (by rw [hPop])
  rw [shardBytes_cons, addBytes_neg (by show _ ≤ base + _; omega)]
  congr 1
  show base + _ - _ = _
  omega

/-- A round keeps the counter exact. -/
theorem evictPass_bytes (env : CacheEnv) (maxBytes : Nat) (shards : List Shard) :
    ∀ base : Nat,
      (evictPass env maxBytes shards ⟨base + shardBytes env shards, false⟩).2.1 =
        ⟨base + shardBytes env
          (evictPass env maxBytes shards ⟨base + shardBytes env shards, false⟩).1, false⟩ := by
  induction shards with
  | nil =>
    intro base
    rfl
  | cons shard rest ih =>
    intro base
    unfold evictPass
    split
    · rename_i query entry shard' hPop
      dsimp only
      rw [addBytes_evict hPop]
      split
      · rw [shardBytes_cons, ← Nat.add_assoc]
      · rw [ih (base + shard'.weight (bindingSize env)), shardBytes_cons, Nat.add_assoc]
    · rw [shardBytes_cons, ← Nat.add_assoc, ih (base + shard.weight (bindingSize env)),
        shardBytes_cons, Nat.add_assoc]

/-- A round that evicts removes an entry. -/
theorem evictPass_entries (env : CacheEnv) (maxBytes : Nat) (shards : List Shard) :
    ∀ total : ByteCounter,
      shardEntries (evictPass env maxBytes shards total).1 +
        (if (evictPass env maxBytes shards total).2.2 then 1 else 0) ≤ shardEntries shards := by
  induction shards with
  | nil =>
    simp [evictPass]
  | cons shard rest ih =>
    intro total
    unfold evictPass
    split
    · rename_i query entry shard' hPop
      have hShard' : shard' = shard.popLru.2 := by rw [hPop]
      have hLen : shard'.items.length + 1 = shard.items.length := by
        rw [hShard']
        exact Lru.length_popLru (by rw [hPop])
      dsimp only
      split
      · simp only [shardEntries_cons, if_true]
        omega
      · have ihRest := ih (total.addBytes (-(entrySize env query entry : Int)))
        simp only [shardEntries_cons, if_true]
        omega
    · have ihRest := ih total
      simp only [shardEntries_cons]
      omega

/-- A round that evicts nothing found every shard empty. -/
theorem evictPass_none (env : CacheEnv) (maxBytes : Nat) (shards : List Shard) :
    ∀ total : ByteCounter, (evictPass env maxBytes shards total).2.2 = false →
      shardBytes env shards = 0 ∧ (evictPass env maxBytes shards total).1 = shards := by
  induction shards with
  | nil =>
    intro total _
    exact ⟨rfl, rfl⟩
  | cons shard rest ih =>
    intro total hNone
    unfold evictPass at hNone ⊢
    split at hNone
    · dsimp only at hNone
      split at hNone <;> cases hNone
    · rename_i hPop
      obtain ⟨hRest, hShards⟩ := ih total hNone
      have hItems : shard.items = [] := Lru.items_of_popLru_none (by rw [hPop])
      have hEmpty : shard.weight (bindingSize env) = 0 := by simp [Lru.weight, hItems]
      refine ⟨by rw [shardBytes_cons, hEmpty, hRest], ?_⟩
      dsimp only
      rw [hShards]

/-- The cache after one round of eviction. -/
def afterPass (env : CacheEnv) (c : DnsCache) : DnsCache :=
  { c with
    shards := (evictPass env c.maxBytes c.shards c.totalBytes).1
    totalBytes := (evictPass env c.maxBytes c.shards c.totalBytes).2.1 }

private theorem enforceLoop_succ (env : CacheEnv) (fuel : Nat) (c : DnsCache) :
    c.enforceLoop env (fuel + 1) =
      if c.usedBytes > c.maxBytes then
        if (evictPass env c.maxBytes c.shards c.totalBytes).2.2 then
          (afterPass env c).enforceLoop env fuel
        else some (afterPass env c)
      else some c := rfl

/-- The eviction loop ends: every round but the last removes an entry. -/
theorem enforceLoop_isSome (env : CacheEnv) (fuel : Nat) :
    ∀ c : DnsCache, c.entryCount < fuel → (c.enforceLoop env fuel).isSome := by
  induction fuel with
  | zero =>
    omega
  | succ fuel ih =>
    intro c h
    rw [enforceLoop_succ]
    have hEntries := evictPass_entries env c.maxBytes c.shards c.totalBytes
    split
    · split
      · rename_i hEvicted
        apply ih
        rw [hEvicted] at hEntries
        have hCount : (afterPass env c).entryCount + 1 ≤ c.entryCount := hEntries
        omega
      · rfl
    · rfl

/-- A pass of evictions keeps the counter equal to the bytes held. -/
theorem StoreInv.afterPass {env : CacheEnv} {cap : Nat} {c : DnsCache}
    (h : StoreInv env cap c) : StoreInv env cap (afterPass env c) := by
  have hShards := evictPass_shards env c.maxBytes c.shards c.totalBytes
  have hBytes := evictPass_bytes env c.maxBytes c.shards 0
  rw [Nat.zero_add, ← h.bytes, Nat.zero_add] at hBytes
  refine ⟨?_, hBytes, ?_⟩
  · intro i s hs p hp
    have hLen := hShards.length_eq
    rw [show (CacheAccounting.afterPass env c).shards.length = c.shards.length from hLen]
    obtain ⟨hi, hEq⟩ := List.getElem?_eq_some_iff.mp hs
    have hi' : i < c.shards.length := by
      rw [← hLen]
      exact hi
    have hPair := hShards.get hi hi'
    apply h.placed i c.shards[i] (getElem?_eq_getElem hi')
    apply hPair.2
    have hGet : (evictPass env c.maxBytes c.shards c.totalBytes).1.get ⟨i, hi⟩ = s := hEq
    rw [hGet]
    exact hp
  · have hCaps : (CacheAccounting.afterPass env c).shards.map Lru.cap = c.shards.map Lru.cap := by
      have hRel : List.Forall₂ (fun a b => a = b)
          ((CacheAccounting.afterPass env c).shards.map Lru.cap) (c.shards.map Lru.cap) := by
        rw [forall₂_map_left_iff, forall₂_map_right_iff]
        exact hShards.imp fun _ _ hCap => hCap.1
      exact forall₂_eq_eq_eq ▸ hRel
    rw [hCaps]
    exact h.caps

/-- What the eviction loop returns keeps the invariant and meets the budget. -/
theorem StoreInv.enforceLoop {env : CacheEnv} {cap : Nat} (fuel : Nat) :
    ∀ {c c' : DnsCache}, StoreInv env cap c → c.enforceLoop env fuel = some c' →
      StoreInv env cap c' ∧ c'.usedBytes ≤ c.maxBytes ∧ c'.maxBytes = c.maxBytes := by
  induction fuel with
  | zero =>
    intro c c' _ h
    exact absurd h (by simp [DnsCache.enforceLoop])
  | succ fuel ih =>
    intro c c' hInv h
    rw [enforceLoop_succ] at h
    split at h
    · split at h
      · have hRest := ih hInv.afterPass h
        exact hRest
      · rename_i hNone
        cases h
        have hEvicted : (evictPass env c.maxBytes c.shards c.totalBytes).2.2 = false := by
          simpa using hNone
        obtain ⟨hZero, hShards⟩ :=
          evictPass_none env c.maxBytes c.shards c.totalBytes hEvicted
        have hAfter := hInv.afterPass
        have hUsed : (CacheAccounting.afterPass env c).usedBytes = 0 := by
          have hTotal := hAfter.bytes
          unfold DnsCache.usedBytes
          rw [hTotal]
          show shardBytes env (evictPass env c.maxBytes c.shards c.totalBytes).1 = 0
          rw [hShards, hZero]
        exact ⟨hAfter, by omega, rfl⟩
    · cases h
      exact ⟨hInv, by omega, rfl⟩

section Rule

variable {env : CacheEnv} {P : DnsCache → Prop} (hPass : ∀ c, P c → P (afterPass env c))

include hPass

theorem enforceLoop_keeps (fuel : Nat) :
    ∀ {c c' : DnsCache}, P c → c.enforceLoop env fuel = some c' → P c' := by
  induction fuel with
  | zero =>
    intro c c' _ h
    exact absurd h (by simp [DnsCache.enforceLoop])
  | succ fuel ih =>
    intro c c' hc h
    rw [enforceLoop_succ] at h
    split at h
    · split at h
      · exact ih (hPass c hc) h
      · cases h
        exact hPass c hc
    · cases h
      exact hc

/-- What one round of eviction keeps is kept by all of them. -/
theorem enforceMemoryBudget_keeps {c : DnsCache} (hc : P c) : P (c.enforceMemoryBudget env) := by
  unfold DnsCache.enforceMemoryBudget
  split
  · exact hc
  · cases hLoop : c.enforceLoop env (c.entryCount + 1) with
    | none => exact hc
    | some c' => exact enforceLoop_keeps hPass _ hc hLoop

end Rule

/-- Eviction keeps the invariant and brings the cache within its budget. -/
theorem StoreInv.enforceMemoryBudget {env : CacheEnv} {cap : Nat} {c : DnsCache}
    (h : StoreInv env cap c) :
    StoreInv env cap (c.enforceMemoryBudget env) ∧
      (c.enforceMemoryBudget env).maxBytes = c.maxBytes ∧
      (0 < c.maxBytes → (c.enforceMemoryBudget env).usedBytes ≤ c.maxBytes) := by
  unfold DnsCache.enforceMemoryBudget
  split
  · exact ⟨h, rfl, fun hPos => by omega⟩
  · have hSome := enforceLoop_isSome env (c.entryCount + 1) c (Nat.lt_succ_self _)
    obtain ⟨c', hc'⟩ := Option.isSome_iff_exists.mp hSome
    obtain ⟨hInv, hUsed, hMax⟩ := h.enforceLoop _ hc'
    rw [hc']
    exact ⟨hInv, hMax, fun _ => hUsed⟩

/-- A cache within its budget is left alone. -/
theorem enforceMemoryBudget_eq_self {env : CacheEnv} {c : DnsCache}
    (h : c.maxBytes = 0 ∨ c.usedBytes ≤ c.maxBytes) : c.enforceMemoryBudget env = c := by
  unfold DnsCache.enforceMemoryBudget
  split
  · rfl
  · rw [enforceLoop_succ, if_neg (by omega)]
    rfl

/-! ## Operations -/

/-- The operations a cache sees one after another. -/
inductive CacheOp where
  | insert (query : Query) (recordsAndTtl : List (Record × Nat)) (now : Nat) (group : String)
  | insertNegative (query : Query) (resp : DnsResponse) (ttl : Nat) (group : String) (now : Nat)
  | insertRecords (query : Query) (records : List Record) (now : Nat) (group : String)
  | load (data : Option (List DnsCacheEntry))
  | clear
  | get (query : Query) (now : Nat)

/-- The cache after one operation. -/
def CacheOp.apply (env : CacheEnv) (c : DnsCache) : CacheOp → DnsCache
  | .insert query recordsAndTtl now group => (c.insert env query recordsAndTtl now group).1
  | .insertNegative query resp ttl group now => c.insertNegative env query resp ttl group now
  | .insertRecords query records now group => (c.insertRecords env query records now group).1
  | .load data => c.load env data
  | .clear => c.clear
  | .get query now => (c.get env query now).1

/-- The cache after a sequence of operations. -/
def runOps (env : CacheEnv) (c : DnsCache) (ops : List CacheOp) : DnsCache :=
  ops.foldl (CacheOp.apply env) c

/-- The invariant together with the byte budget `maxBytes`. -/
structure BudgetInv (env : CacheEnv) (cap maxBytes : Nat) (c : DnsCache) : Prop where
  store : StoreInv env cap c
  limit : c.maxBytes = maxBytes
  budget : 0 < maxBytes → c.usedBytes ≤ maxBytes

variable {env : CacheEnv} {cap maxBytes : Nat} {c : DnsCache}

theorem onShard_maxBytes (query : Query) (f : Shard → ByteCounter → Shard × ByteCounter) :
    (c.onShard env query f).maxBytes = c.maxBytes := by
  unfold DnsCache.onShard
  split <;> rfl

/-- A shard update followed by eviction. -/
theorem BudgetInv.store_then_enforce (h : StoreInv env cap c) (hMax : c.maxBytes = maxBytes)
    {f : Shard → ByteCounter → Shard × ByteCounter} (hOp : ShardOp env query f) :
    BudgetInv env cap maxBytes ((c.onShard env query f).enforceMemoryBudget env) := by
  obtain ⟨hStore, hKeep, hUsed⟩ := (h.onShard hOp).enforceMemoryBudget
  rw [onShard_maxBytes, hMax] at hKeep hUsed
  exact ⟨hStore, hKeep, hUsed⟩

/-- Storing a group of records keeps the cache within its budget. -/
theorem BudgetInv.insert (h : BudgetInv env cap maxBytes c) (query : Query)
    (recordsAndTtl : List (Record × Nat)) (now : Nat) (group : String) :
    BudgetInv env cap maxBytes (c.insert env query recordsAndTtl now group).1 := by
  have hStored := BudgetInv.store_then_enforce h.store h.limit
    (storeEntry_shardOp env query
      ((DnsResponse.newWithDeadline query (collapseTtl recordsAndTtl).1).withNameServerGroup group)
      (now + secs (collapseTtl recordsAndTtl).2))
  exact ⟨hStored.store.congr rfl rfl, hStored.limit, hStored.budget⟩

theorem BudgetInv.insertGroups (originalQuery : Query) (now : Nat) (group : String)
    (groups : List (Query × List (Record × Nat))) :
    ∀ (c : DnsCache) (lookup : Option DnsResponse), BudgetInv env cap maxBytes c →
      BudgetInv env cap maxBytes
        (DnsCache.insertGroups env originalQuery now group groups c lookup).1 := by
  induction groups with
  | nil =>
    intro c lookup h
    exact h
  | cons g rest ih =>
    intro c lookup h
    exact ih _ _ (h.insert g.1 g.2 now group)

/-- Storing an answer keeps the cache within its budget. -/
theorem BudgetInv.insertRecords (h : BudgetInv env cap maxBytes c) (query : Query)
    (records : List Record) (now : Nat) (group : String) :
    BudgetInv env cap maxBytes (c.insertRecords env query records now group).1 := by
  unfold DnsCache.insertRecords
  dsimp only
  split
  · exact BudgetInv.insertGroups _ _ _ _ _ _ (h.insert _ _ now group)
  · exact BudgetInv.insertGroups _ _ _ _ _ _ h

/-- Loading pushes without eviction; the budget is enforced once at the end. -/
theorem BudgetInv.load (h : BudgetInv env cap maxBytes c) (data : Option (List DnsCacheEntry)) :
    BudgetInv env cap maxBytes (c.load env data) := by
  cases data with
  | none => exact h
  | some entries =>
    have hFold : ∀ (entries : List DnsCacheEntry) (c : DnsCache), StoreInv env cap c →
        c.maxBytes = maxBytes →
        StoreInv env cap (entries.foldl (DnsCache.loadEntry env) c) ∧
          (entries.foldl (DnsCache.loadEntry env) c).maxBytes = maxBytes := by
      intro entries
      induction entries with
      | nil =>
        intro c hStore hMax
        exact ⟨hStore, hMax⟩
      | cons entry rest ih =>
        intro c hStore hMax
        have hPush := hStore.onShard (pushEntry_shardOp env entry.data.query entry)
        apply ih
        · exact hPush.congr rfl rfl
        · show (c.onShard env _ _).maxBytes = maxBytes
          rw [onShard_maxBytes, hMax]
    obtain ⟨hStore, hMax⟩ := hFold entries c h.store h.limit
    obtain ⟨hStore', hKeep, hUsed⟩ := hStore.enforceMemoryBudget
    rw [hMax] at hKeep hUsed
    exact ⟨hStore', hKeep, hUsed⟩

theorem BudgetInv.clear (h : BudgetInv env cap maxBytes c) :
    BudgetInv env cap maxBytes c.clear := by
  have hBytes : shardBytes env (c.shards.map Lru.clear) = 0 := by
    apply shardBytes_eq_zero
    intro s hs
    obtain ⟨s', _, hs'⟩ := mem_map.mp hs
    rw [← hs']
    rfl
  refine ⟨⟨?_, ?_, ?_⟩, h.limit, fun _ => Nat.zero_le _⟩
  · intro i s hs p hp
    replace hs : (c.shards.map Lru.clear)[i]? = some s := hs
    rw [getElem?_map] at hs
    obtain ⟨s', _, hs'⟩ := Option.map_eq_some_iff.mp hs
    rw [← hs'] at hp
    cases hp
  · show ByteCounter.zero = ⟨shardBytes env (c.shards.map Lru.clear), false⟩
    rw [hBytes]
    rfl
  · show ((c.shards.map Lru.clear).map Lru.cap).sum = cap
    rw [map_map]
    exact h.store.caps

/-- Changing an entry but not its data keeps the budget. -/
theorem BudgetInv.touch (h : BudgetInv env cap maxBytes c) (query : Query)
    {f : DnsCacheEntry → DnsCacheEntry} (hf : ∀ e, (f e).data = e.data) :
    BudgetInv env cap maxBytes (c.touch env query f) := by
  refine ⟨h.store.onShard (modify_shardOp env query hf), ?_, ?_⟩
  · exact (onShard_maxBytes query _).trans h.limit
  · intro hPos
    have hSame : (c.touch env query f).totalBytes = c.totalBytes := by
      unfold DnsCache.touch DnsCache.onShard
      split <;> rfl
    unfold DnsCache.usedBytes
    rw [hSame]
    exact h.budget hPos

/-- Every operation keeps the invariant and the budget. -/
theorem BudgetInv.apply (h : BudgetInv env cap maxBytes c) (op : CacheOp) :
    BudgetInv env cap maxBytes (op.apply env c) := by
  cases op with
  | insert query recordsAndTtl now group => exact h.insert query recordsAndTtl now group
  | insertNegative query resp ttl group now =>
    exact BudgetInv.store_then_enforce h.store h.limit (storeEntry_shardOp env query _ _)
  | insertRecords query records now group => exact h.insertRecords query records now group
  | load data => exact h.load data
  | clear => exact h.clear
  | get query now => exact h.touch query fun _ => rfl

/-- Every sequence of operations keeps the invariant and the budget. -/
theorem BudgetInv.run (ops : List CacheOp) :
    ∀ {c : DnsCache}, BudgetInv env cap maxBytes c →
      BudgetInv env cap maxBytes (runOps env c ops) := by
  induction ops with
  | nil =>
    intro c h
    exact h
  | cons op rest ih =>
    intro c h
    exact ih (h.apply op)

/-! ## A fresh cache -/

private theorem sum_range_spread (n per remainder : Nat) :
    ((range n).map fun i => per + if i < remainder then 1 else 0).sum =
      n * per + min remainder n := by
  induction n with
  | zero => simp
  | succ n ih =>
    rw [range_succ, map_append, sum_append, Nat.succ_mul]
    simp only [map_cons, map_nil, sum_cons, sum_nil]
    by_cases hLt : n < remainder
    · rw [if_pos hLt]
      omega
    · rw [if_neg hLt]
      omega

/-- The shard capacities add up to the configured size, and to one at least. -/
theorem shardCaps_sum (cacheSize : Nat) :
    ((range (shardCountFor cacheSize)).map (shardCap cacheSize)).sum = max cacheSize 1 := by
  have hSpread := sum_range_spread (shardCountFor cacheSize) (perShardFor cacheSize)
    (cacheSize - perShardFor cacheSize * shardCountFor cacheSize)
  have hFun : (fun i => perShardFor cacheSize +
      if i < cacheSize - perShardFor cacheSize * shardCountFor cacheSize then 1 else 0) =
        shardCap cacheSize := rfl
  rw [hFun] at hSpread
  rw [hSpread]
  unfold perShardFor shardCountFor cacheShardCount
  split
  · omega
  · omega

/-- A new cache is within its budget. -/
theorem BudgetInv.new (env : CacheEnv) (cacheSize expiredTtl expiredReplyTtl maxBytes : Nat) :
    BudgetInv env (max cacheSize 1) maxBytes
      (DnsCache.new cacheSize expiredTtl expiredReplyTtl maxBytes) := by
  refine ⟨⟨?_, ?_, ?_⟩, rfl, fun _ => Nat.zero_le _⟩
  · intro i s hs p hp
    obtain ⟨j, _, hj⟩ := mem_map.mp (mem_of_getElem? hs)
    rw [← hj] at hp
    cases hp
  · have hZero : shardBytes env
        (DnsCache.new cacheSize expiredTtl expiredReplyTtl maxBytes).shards = 0 := by
      apply shardBytes_eq_zero
      intro s hs
      obtain ⟨j, _, hj⟩ := mem_map.mp hs
      rw [← hj]
      rfl
    rw [hZero]
    rfl
  · show (((range (shardCountFor cacheSize)).map _).map Lru.cap).sum = _
    rw [map_map]
    exact shardCaps_sum cacheSize

/-! ## What an observer sees -/

/-- Entries of different shards have different questions. -/
theorem distinct_of_placed (h : ∀ (i : Nat) (s : Shard), c.shards[i]? = some s →
    ∀ p ∈ s.items, shardIndexOf env p.1 c.shards.length = i) : DistinctKeys c.entries := by
  unfold DistinctKeys DnsCache.entries
  rw [pairwise_flatMap]
  refine ⟨fun s _ => s.distinct, ?_⟩
  rw [pairwise_iff_getElem]
  intro i j hi hj hLt p hp q hq
  by_contra hEq
  have hHash := env.hash_eq p.1 q.1 (eq_true_of_ne_false hEq)
  have hP := h i c.shards[i] (getElem?_eq_getElem hi) p hp
  have hQ := h j c.shards[j] (getElem?_eq_getElem hj) q hq
  unfold shardIndexOf at hP hQ
  rw [hHash] at hP
  omega

/-- The cache never holds more entries than it was made for. -/
theorem StoreInv.entryCount_le (h : StoreInv env cap c) : c.entryCount ≤ cap := by
  rw [← h.caps]
  exact sum_le_sum fun s _ => s.lengthLe

theorem shardBytes_eq_entries (shards : List Shard) :
    shardBytes env shards =
      ((shards.flatMap fun s => s.items).map fun p => entrySize env p.1 p.2).sum := by
  induction shards with
  | nil => rfl
  | cons s rest ih =>
    rw [shardBytes_cons, flatMap_cons, map_append, sum_append, ih]
    rfl

/--
**Cache accounting and capacity**: after every sequence of operations on a
fresh cache, every entry is in the shard of its question, no question has two
entries, the entries fit the configured size, the byte counter is the exact sum
of the entry sizes and has never wrapped, and the byte budget is met. The
eviction loop ends on every cache.
-/
theorem cache_accounting_and_capacity (env : CacheEnv)
    (cacheSize expiredTtl expiredReplyTtl maxBytes : Nat) (ops : List CacheOp) :
    let c := runOps env (DnsCache.new cacheSize expiredTtl expiredReplyTtl maxBytes) ops
    (∀ (i : Nat) (s : Shard), c.shards[i]? = some s →
        ∀ p ∈ s.items, shardIndexOf env p.1 c.shards.length = i) ∧
      (c.entries.Pairwise fun a b => (a.1 == b.1) = false) ∧
      c.entryCount ≤ max cacheSize 1 ∧
      c.usedBytes = (c.entries.map fun p => entrySize env p.1 p.2).sum ∧
      c.totalBytes.underflow = false ∧
      (0 < maxBytes → c.usedBytes ≤ maxBytes) ∧
      ∀ d : DnsCache, (d.enforceLoop env (d.entryCount + 1)).isSome := by
  intro c
  have hInv : BudgetInv env (max cacheSize 1) maxBytes c :=
    BudgetInv.run ops (BudgetInv.new env cacheSize expiredTtl expiredReplyTtl maxBytes)
  have hBytes := hInv.store.bytes
  refine ⟨hInv.store.placed, distinct_of_placed hInv.store.placed, hInv.store.entryCount_le, ?_, ?_,
    hInv.budget, ?_⟩
  · unfold DnsCache.usedBytes
    rw [hBytes]
    exact shardBytes_eq_entries c.shards
  · rw [hBytes]
  · intro d
    exact enforceLoop_isSome env (d.entryCount + 1) d (Nat.lt_succ_self _)

end SmartDns.Ports.CacheAccounting
