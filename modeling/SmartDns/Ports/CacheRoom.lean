import SmartDns.Ports.CacheContents

/-!
# Room in the cache

An insertion may push other entries out, by the capacity of their shard or by
the byte budget. Where there is room for everything that is inserted, it does
not: what was stored last is the most recent binding of its shard, and falls
back by one place at most with every insertion that is routed there.
-/

namespace SmartDns.Ports.CacheRoom

open Verified DnsMessage DnsLookup CacheStore CacheAccounting CacheContents List

/-- The size of the entry that a group becomes. -/
def groupSize (env : CacheEnv) (group : String) (g : Query × List (Record × Nat)) : Nat :=
  entrySize env g.1 (DnsCacheEntry.new (entryData g.1 g.2 group) 0)

/-- The deadline of an entry does not matter to its size. -/
theorem entrySize_new (env : CacheEnv) (query : Query) (data : DnsResponse) (v w : Nat) :
    entrySize env query (DnsCacheEntry.new data v) =
      entrySize env query (DnsCacheEntry.new data w) := by
  simp only [entrySize, DnsCacheEntry.new]

/-- The groups that are routed to one of `n` shards. -/
def routed (env : CacheEnv) (n i : Nat) (groups : List (Query × List (Record × Nat))) :
    List (Query × List (Record × Nat)) :=
  groups.filter fun g => decide (shardIndexOf env g.1 n = i)

/-- Every shard has room for the groups routed to it, and the budget for all of them. -/
structure RoomFor (env : CacheEnv) (c : DnsCache) (group : String)
    (groups : List (Query × List (Record × Nat))) : Prop where
  entries : ∀ i s, c.shards[i]? = some s → (routed env c.shards.length i groups).length ≤ s.cap
  bytes : c.maxBytes = 0 ∨ c.usedBytes + (groups.map (groupSize env group)).sum ≤ c.maxBytes

variable {env : CacheEnv} {cap maxBytes : Nat} {c : DnsCache}

/-! ## One shard -/

/-- A cache has a shard for every question. -/
theorem exists_shard (h : StoreInv env cap c) (hCap : 0 < cap) (query : Query) :
    ∃ s, c.shards[shardIndexOf env query c.shards.length]? = some s := by
  have hPos : 0 < c.shards.length := by
    apply length_pos_iff.mpr
    intro hNil
    have hSum := h.caps
    rw [hNil] at hSum
    exact absurd hSum (by simp; omega)
  exact ⟨_, getElem?_eq_getElem (Nat.mod_lt _ hPos)⟩

theorem onShard_length (query : Query) (f : Shard → ByteCounter → Shard × ByteCounter) :
    (c.onShard env query f).shards.length = c.shards.length := by
  unfold DnsCache.onShard
  split
  · rfl
  · exact length_set

variable {query : Query} {s : Shard}

theorem onShard_getElem?_self (f : Shard → ByteCounter → Shard × ByteCounter)
    (h : c.shards[shardIndexOf env query c.shards.length]? = some s) :
    (c.onShard env query f).shards[shardIndexOf env query c.shards.length]? =
      some (f s c.totalBytes).1 := by
  have hLt := (List.getElem?_eq_some_iff.mp h).1
  unfold DnsCache.onShard
  rw [h]
  exact List.getElem?_set_self hLt

theorem onShard_getElem?_ne {i : Nat} (f : Shard → ByteCounter → Shard × ByteCounter)
    (h : shardIndexOf env query c.shards.length ≠ i) :
    (c.onShard env query f).shards[i]? = c.shards[i]? := by
  unfold DnsCache.onShard
  split
  · rfl
  · exact getElem?_set_ne h

/-- Storing an entry adds its size at most. -/
theorem storeEntry_weight_le (query : Query) (data : DnsResponse) (validUntil : Nat) (s : Shard)
    (t : ByteCounter) :
    (storeEntry env query data validUntil s t).1.weight (bindingSize env) ≤
      s.weight (bindingSize env) + entrySize env query (DnsCacheEntry.new data validUntil) := by
  unfold storeEntry
  cases hPeek : s.peek query with
  | none =>
    show (s.push query _).2.weight _ ≤ _
    cases hPush : (s.push query (DnsCacheEntry.new data validUntil)).1 with
    | none => exact (Lru.weight_push_none (bindingSize env) hPush).le
    | some p =>
      have hWeight := Lru.weight_push_some (bindingSize env) hPush
      have hNew : bindingSize env (query, DnsCacheEntry.new data validUntil) =
          entrySize env query (DnsCacheEntry.new data validUntil) := rfl
      omega
  | some p =>
    have hWeight := Lru.weight_modify (bindingSize env) (fun e => e.refresh data validUntil) hPeek
    have hOld : bindingSize env p = entrySize env p.1 p.2 := rfl
    have hNew : bindingSize env (p.1, p.2.refresh data validUntil) =
        entrySize env p.1 (DnsCacheEntry.new data validUntil) := rfl
    have hSplit := entrySize_split env query p.1 (DnsCacheEntry.new data validUntil) p.2
    show (s.modify query _).weight _ ≤ _
    omega

/-- Storing an entry adds its size to the bytes held, at most. -/
theorem usedBytes_onShard_le (h : StoreInv env cap c) (query : Query) (data : DnsResponse)
    (validUntil : Nat) :
    (c.onShard env query (storeEntry env query data validUntil)).usedBytes ≤
      c.usedBytes + entrySize env query (DnsCacheEntry.new data validUntil) := by
  have hAfter := (h.onShard (storeEntry_shardOp env query data validUntil)).bytes
  unfold DnsCache.usedBytes
  rw [hAfter, h.bytes]
  show shardBytes env _ ≤ shardBytes env _ + _
  unfold DnsCache.onShard
  cases hGet : c.shards[shardIndexOf env query c.shards.length]? with
  | none => exact Nat.le_add_right _ _
  | some s =>
    obtain ⟨base, hSum, hSet⟩ := sum_set (Lru.weight (bindingSize env)) c.shards _ s hGet
    have hLe : (storeEntry env query data validUntil s c.totalBytes).1.weight
        (bindingSize env) ≤ _ := storeEntry_weight_le query data validUntil s c.totalBytes
    unfold shardBytes
    rw [hSet]
    omega

/-- The first part of an insertion: the shard is written, nothing is evicted yet. -/
def storeGroup (env : CacheEnv) (now : Nat) (group : String) (c : DnsCache)
    (g : Query × List (Record × Nat)) : DnsCache :=
  c.onShard env g.1
    (storeEntry env g.1 (entryData g.1 g.2 group) (now + secs (collapseTtl g.2).2))

theorem insert_eq (now : Nat) (group : String) (g : Query × List (Record × Nat)) :
    (c.insert env g.1 g.2 now group).1 =
      { (storeGroup env now group c g).enforceMemoryBudget env with
        prefetchHeap := (now + secs (collapseTtl g.2).2, g.1) ::
          ((storeGroup env now group c g).enforceMemoryBudget env).prefetchHeap } := rfl

variable {g : Query × List (Record × Nat)} {group : String}

/-- Storing a group for which there is room evicts nothing. -/
theorem insert_room (h : StoreInv env cap c) (now : Nat)
    (hRoom : c.maxBytes = 0 ∨ c.usedBytes + groupSize env group g ≤ c.maxBytes) :
    (c.insert env g.1 g.2 now group).1.shards = (storeGroup env now group c g).shards ∧
      (c.insert env g.1 g.2 now group).1.usedBytes ≤ c.usedBytes + groupSize env group g ∧
      (c.insert env g.1 g.2 now group).1.maxBytes = c.maxBytes := by
  have hUsed : (storeGroup env now group c g).usedBytes ≤ c.usedBytes + groupSize env group g := by
    rw [groupSize, entrySize_new env g.1 _ 0 (now + secs (collapseTtl g.2).2)]
    exact usedBytes_onShard_le h g.1 (entryData g.1 g.2 group) _
  have hMax : (storeGroup env now group c g).maxBytes = c.maxBytes := onShard_maxBytes _ _
  have hSame : (storeGroup env now group c g).enforceMemoryBudget env =
      storeGroup env now group c g := by
    apply enforceMemoryBudget_eq_self
    rw [hMax]
    exact hRoom.imp_right (Nat.le_trans hUsed)
  rw [insert_eq, hSame]
  exact ⟨rfl, hUsed, hMax⟩

/-- What was stored last is the most recent binding of its shard. -/
theorem storeEntry_recent (query : Query) (data : DnsResponse) (validUntil : Nat) (s : Shard)
    (t : ByteCounter) :
    ∃ p ∈ (storeEntry env query data validUntil s t).1.items.take 1,
      Written query data validUntil p := by
  unfold storeEntry
  cases hPeek : s.peek query with
  | none =>
    refine ⟨(query, DnsCacheEntry.new data validUntil), ?_, BEq.rfl, rfl, rfl⟩
    exact Lru.mem_take_push_self
  | some q =>
    refine ⟨(q.1, q.2.refresh data validUntil), ?_, (Lru.peek_eq_some.mp hPeek).2, rfl, rfl⟩
    rw [Lru.items_modify_some _ hPeek]
    exact .head _

/-- Another binding falls back by one place at most. -/
theorem storeEntry_keeps {data : DnsResponse} {validUntil : Nat} {t : ByteCounter}
    {p : Query × DnsCacheEntry} {j : Nat} (hp : p ∈ s.items.take j) (hKey : (p.1 == query) = false)
    (hj : j < s.cap) :
    p ∈ (storeEntry env query data validUntil s t).1.items.take (j + 1) := by
  unfold storeEntry
  cases hPeek : s.peek query with
  | none => exact Lru.mem_take_push hp hKey hj
  | some q => exact Lru.mem_take_modify _ hp hKey

/-- The shard of a group after its insertion. -/
theorem insert_getElem?_self (h : StoreInv env cap c) (now : Nat)
    (hRoom : c.maxBytes = 0 ∨ c.usedBytes + groupSize env group g ≤ c.maxBytes)
    (hGet : c.shards[shardIndexOf env g.1 c.shards.length]? = some s) :
    (c.insert env g.1 g.2 now group).1.shards[shardIndexOf env g.1 c.shards.length]? =
      some (storeEntry env g.1 (entryData g.1 g.2 group) (now + secs (collapseTtl g.2).2) s
        c.totalBytes).1 := by
  rw [(insert_room h now hRoom).1]
  exact onShard_getElem?_self _ hGet

/-- A binding is among the `j` most recent ones of a shard. -/
def Recent (c : DnsCache) (i shardCap j : Nat) (p : Query × DnsCacheEntry) : Prop :=
  ∃ s, c.shards[i]? = some s ∧ s.cap = shardCap ∧ p ∈ s.items.take j

/-- Storing a group makes it the most recent of its shard. -/
theorem insert_recent (h : StoreInv env cap c) (now : Nat)
    (hRoom : c.maxBytes = 0 ∨ c.usedBytes + groupSize env group g ≤ c.maxBytes)
    (hGet : c.shards[shardIndexOf env g.1 c.shards.length]? = some s) :
    ∃ p, Written g.1 (entryData g.1 g.2 group) (now + secs (collapseTtl g.2).2) p ∧
      Recent (c.insert env g.1 g.2 now group).1 (shardIndexOf env g.1 c.shards.length) s.cap 1
        p := by
  have hAfter := insert_getElem?_self h now hRoom hGet
  obtain ⟨p, hp, hWritten⟩ := storeEntry_recent _ _ _ s c.totalBytes
  exact ⟨p, hWritten, _, hAfter, (storeEntry_shardOp env g.1 _ _).cap s c.totalBytes, hp⟩

/-- Storing another group moves a binding back by one place, if it is routed to its shard. -/
theorem insert_keeps (h : StoreInv env cap c) (now : Nat)
    (hRoom : c.maxBytes = 0 ∨ c.usedBytes + groupSize env group g ≤ c.maxBytes) {i shardCap j : Nat}
    {p : Query × DnsCacheEntry} (hRecent : Recent c i shardCap j p) (hKey : (p.1 == g.1) = false)
    (hj : j + (routed env c.shards.length i [g]).length ≤ shardCap) :
    Recent (c.insert env g.1 g.2 now group).1 i shardCap
      (j + (routed env c.shards.length i [g]).length) p := by
  obtain ⟨s, hGet, hCap, hp⟩ := hRecent
  by_cases hShard : shardIndexOf env g.1 c.shards.length = i
  · have hOne : (routed env c.shards.length i [g]).length = 1 := by simp [routed, hShard]
    rw [hOne] at hj ⊢
    subst hShard
    have hAfter := insert_getElem?_self h now hRoom hGet
    refine ⟨_, hAfter, ?_, storeEntry_keeps hp hKey (by omega)⟩
    rw [← hCap]
    exact (storeEntry_shardOp env g.1 _ _).cap s c.totalBytes
  · have hNone : (routed env c.shards.length i [g]).length = 0 := by simp [routed, hShard]
    rw [hNone]
    refine ⟨s, ?_, hCap, hp⟩
    rw [(insert_room h now hRoom).1]
    exact (onShard_getElem?_ne _ hShard).trans hGet

/-- A binding stays while other groups are stored, as long as there is room. -/
theorem insertAll_keeps (now : Nat) (group : String) (groups : List (Query × List (Record × Nat))) :
    ∀ {c : DnsCache} {i shardCap j : Nat} {p : Query × DnsCacheEntry},
      BudgetInv env cap maxBytes c →
      (c.maxBytes = 0 ∨ c.usedBytes + (groups.map (groupSize env group)).sum ≤ c.maxBytes) →
      Recent c i shardCap j p → (∀ g ∈ groups, (p.1 == g.1) = false) →
      j + (routed env c.shards.length i groups).length ≤ shardCap →
      p ∈ (insertAll env now group groups c).entries := by
  induction groups with
  | nil =>
    intro c i shardCap j p _ _ hRecent _ _
    obtain ⟨s, hGet, -, hp⟩ := hRecent
    exact mem_flatMap.mpr ⟨s, mem_of_getElem? hGet, mem_of_mem_take hp⟩
  | cons g rest ih =>
    intro c i shardCap j p hInv hRoom hRecent hKeys hj
    simp only [map_cons, sum_cons] at hRoom
    have hSplit : (routed env c.shards.length i (g :: rest)).length =
        (routed env c.shards.length i [g]).length + (routed env c.shards.length i rest).length := by
      rw [← length_append, routed, routed, routed, ← filter_append]
      rfl
    have hHere : c.maxBytes = 0 ∨ c.usedBytes + groupSize env group g ≤ c.maxBytes := by omega
    obtain ⟨hShards, hUsed, hMax⟩ := insert_room hInv.store now hHere
    have hLength : (c.insert env g.1 g.2 now group).1.shards.length = c.shards.length := by
      rw [hShards]
      exact onShard_length _ _
    apply ih (hInv.insert g.1 g.2 now group)
    · omega
    · exact insert_keeps hInv.store now hHere hRecent (hKeys g mem_cons_self) (by omega)
    · exact fun g' hg' => hKeys g' (.tail _ hg')
    · rw [hLength]
      omega

/-- The room that is left after the first group has been stored. -/
theorem RoomFor.insert {rest : List (Query × List (Record × Nat))} (h : StoreInv env cap c)
    (now : Nat) (hRoom : RoomFor env c group (g :: rest)) :
    RoomFor env (c.insert env g.1 g.2 now group).1 group rest := by
  have hBytes := hRoom.bytes
  simp only [map_cons, sum_cons] at hBytes
  have hHere : c.maxBytes = 0 ∨ c.usedBytes + groupSize env group g ≤ c.maxBytes := by omega
  obtain ⟨hShards, hUsed, hMax⟩ := insert_room h now hHere
  refine ⟨?_, by omega⟩
  intro i s' hs'
  rw [hShards] at hs' ⊢
  rw [storeGroup, onShard_length]
  -- a shard keeps its capacity
  obtain ⟨s, hs, hCap⟩ : ∃ s, c.shards[i]? = some s ∧ s'.cap = s.cap := by
    by_cases hShard : shardIndexOf env g.1 c.shards.length = i
    · subst hShard
      cases hGet : c.shards[shardIndexOf env g.1 c.shards.length]? with
      | none =>
        rw [storeGroup, DnsCache.onShard, hGet] at hs'
        rw [hs'] at hGet
        cases hGet
      | some s =>
        rw [storeGroup, onShard_getElem?_self _ hGet] at hs'
        cases hs'
        exact ⟨s, rfl, (storeEntry_shardOp env g.1 _ _).cap s c.totalBytes⟩
    · rw [storeGroup, onShard_getElem?_ne _ hShard] at hs'
      exact ⟨s', hs', rfl⟩
  rw [hCap]
  refine Nat.le_trans ?_ (hRoom.entries i s hs)
  exact ((sublist_cons_self g rest).filter _).length_le

/-- With room for all groups, the last group for a question is stored. -/
theorem insertAll_stores (now : Nat) (hCap : 0 < cap)
    {back : List (Query × List (Record × Nat))} (hLast : ∀ g' ∈ back, (g.1 == g'.1) = false)
    (front : List (Query × List (Record × Nat))) :
    ∀ {c : DnsCache}, BudgetInv env cap maxBytes c → RoomFor env c group (front ++ g :: back) →
      ∃ p ∈ (insertAll env now group (front ++ g :: back) c).entries,
        Written g.1 (entryData g.1 g.2 group) (now + secs (collapseTtl g.2).2) p := by
  induction front with
  | nil =>
    intro c h hRoom
    have hBytes := hRoom.bytes
    simp only [nil_append, map_cons, sum_cons] at hBytes
    have hHere : c.maxBytes = 0 ∨ c.usedBytes + groupSize env group g ≤ c.maxBytes := by omega
    obtain ⟨s, hGet⟩ := exists_shard h.store hCap g.1
    obtain ⟨hShards, hUsed, hMax⟩ := insert_room h.store now hHere
    obtain ⟨p, hWritten, hRecent⟩ := insert_recent h.store now hHere hGet
    have hEntries := hRoom.entries _ s hGet
    rw [nil_append, routed, filter_cons_of_pos (by simp), length_cons] at hEntries
    refine ⟨p, ?_, hWritten⟩
    show p ∈ (insertAll env now group back (c.insert env g.1 g.2 now group).1).entries
    apply insertAll_keeps now group back (h.insert g.1 g.2 now group) (by omega) hRecent
    · intro g' hg'
      exact beq_false_comm (beq_false_of_beq (BEq.symm hWritten.key) (hLast g' hg'))
    · rw [hShards, storeGroup, onShard_length, routed]
      omega
  | cons g₀ front ih =>
    intro c h hRoom
    exact ih (h.insert g₀.1 g₀.2 now group) (hRoom.insert h.store now)

end SmartDns.Ports.CacheRoom
