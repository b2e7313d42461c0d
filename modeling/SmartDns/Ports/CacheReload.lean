import SmartDns.Ports.CacheFile
import SmartDns.Ports.CacheRoom
import SmartDns.Ports.ServerRuns

/-!
# A cache read back from its file

The snapshot that is written takes the shards one after another, each from its
most to its least recently used entry. Loading pushes what the file holds in
that order, and the entry that is pushed last is the most recently used one. So
a shard comes back in reverse, and a smaller one keeps what was least recently
used. Only a shard with a single entry comes back as it was.
-/

namespace SmartDns.Ports.CacheReload

open Verified DomainName DnsMessage CacheStore CacheAccounting CacheContents CacheRoom CacheFile
open List

def snapshotEntries (c : DnsCache) : List DnsCacheEntry :=
  c.shards.flatMap fun s => s.items.map Prod.snd

/-- `persist_to`: what the file holds. -/
def persistTo (codec : MessageCodec) (clock : Nat → Nat) (c : DnsCache) : List UInt8 :=
  serializeMany codec clock (snapshotEntries c)

/-- The questions a shard has entries for, the most recently used first. -/
def questions (s : Shard) : List Query := s.items.map fun p => p.1.key

theorem nodup_questions (s : Shard) : (questions s).Nodup := by
  rw [questions, List.Nodup, pairwise_map]
  refine s.distinct.imp ?_
  intro a b hNe hKey
  rw [Query.beq_iff_key.mpr hKey] at hNe
  cases hNe

variable {env : CacheEnv} {cap : Nat} {c : DnsCache}

/-! ## Loading, shard by shard -/

/-- What loading pushes on one of `n` shards. -/
def pushedOn (env : CacheEnv) (n i : Nat) (entries : List DnsCacheEntry) :
    List (Query × DnsCacheEntry) :=
  (entries.filter fun e => decide (shardIndexOf env e.data.query n = i)).map fun e =>
    (e.data.query, e)

theorem loadEntry_length (c : DnsCache) (e : DnsCacheEntry) :
    (c.loadEntry env e).shards.length = c.shards.length :=
  onShard_length _ _

/-- Loading pushes onto each shard the entries that belong to it. -/
theorem loadAll_getElem? (entries : List DnsCacheEntry) :
    ∀ {c : DnsCache} {i : Nat} {s : Shard}, c.shards[i]? = some s →
      (entries.foldl (DnsCache.loadEntry env) c).shards[i]? =
        some (s.pushAll (pushedOn env c.shards.length i entries)) := by
  induction entries with
  | nil =>
    intro c i s hs
    exact hs
  | cons e entries ih =>
    intro c i s hs
    rw [foldl_cons]
    by_cases hRoute : shardIndexOf env e.data.query c.shards.length = i
    · have hPushed : (c.loadEntry env e).shards[i]? = some (s.push e.data.query e).2 := by
        rw [← hRoute] at hs ⊢
        exact onShard_getElem?_self _ hs
      have hFirst : pushedOn env c.shards.length i (e :: entries) =
          (e.data.query, e) :: pushedOn env c.shards.length i entries := by
        simp [pushedOn, hRoute]
      rw [ih hPushed, loadEntry_length, hFirst]
      rfl
    · have hSame : (c.loadEntry env e).shards[i]? = some s :=
        (onShard_getElem?_ne _ hRoute).trans hs
      have hRest : pushedOn env c.shards.length i (e :: entries) =
          pushedOn env c.shards.length i entries := by
        simp [pushedOn, hRoute]
      rw [ih hSame, loadEntry_length, hRest]

theorem loadAll_maxBytes (entries : List DnsCacheEntry) (c : DnsCache) :
    (entries.foldl (DnsCache.loadEntry env) c).maxBytes = c.maxBytes := by
  induction entries generalizing c with
  | nil => rfl
  | cons e entries ih =>
    rw [foldl_cons, ih]
    exact onShard_maxBytes _ _

/-! ## The byte budget -/

/-- Shards that keep their most recently used entries. -/
abbrev Shortened : List Shard → List Shard → Prop :=
  List.Forall₂ fun s' s => s'.items <+: s.items

/-- A pass only drops entries from the end of each shard. -/
theorem evictPass_shortened (env : CacheEnv) (maxBytes : Nat) (shards : List Shard) :
    ∀ total, Shortened (evictPass env maxBytes shards total).1 shards := by
  have hSame : ∀ ss : List Shard, Shortened ss ss := fun ss =>
    forall₂_same.mpr fun s _ => prefix_rfl
  induction shards with
  | nil =>
    intro total
    exact .nil
  | cons shard rest ih =>
    intro total
    unfold evictPass
    split
    · rename_i query entry shard' hPop
      have hItems : shard'.items <+: shard.items := by
        have hShard' : shard' = shard.popLru.2 := by rw [hPop]
        rw [hShard']
        exact dropLast_prefix _
      dsimp only
      split
      · exact .cons hItems (hSame rest)
      · exact .cons hItems (ih _)
    · exact .cons prefix_rfl (ih total)

theorem Shortened.trans {a b d : List Shard} (h : Shortened a b) (h' : Shortened b d) :
    Shortened a d := by
  induction h generalizing d with
  | nil => exact h'
  | cons hHead _ ih =>
    cases h' with
    | cons hHead' hTail' => exact .cons (hHead.trans hHead') (ih hTail')

/-- The byte budget takes the least recently used entries of a shard. -/
theorem enforceMemoryBudget_shortened (env : CacheEnv) (c : DnsCache) :
    Shortened (c.enforceMemoryBudget env).shards c.shards := by
  refine enforceMemoryBudget_keeps (P := fun c' => Shortened c'.shards c.shards) ?_
    (forall₂_same.mpr fun s _ => prefix_rfl)
  intro c' hc'
  exact (evictPass_shortened env c'.maxBytes c'.shards c'.totalBytes).trans hc'

variable {i : Nat} {s : Shard}

/-- A shortened shard holds an initial part of the questions. -/
theorem Shortened.questions_le {a b : List Shard} (h : Shortened a b) {s' : Shard}
    (hs' : a[i]? = some s') (hs : b[i]? = some s) : questions s' <+: questions s := by
  obtain ⟨hi', hEq'⟩ := List.getElem?_eq_some_iff.mp hs'
  obtain ⟨hi, hEq⟩ := List.getElem?_eq_some_iff.mp hs
  have hItems := h.get hi' hi
  rw [get_eq_getElem, get_eq_getElem, hEq', hEq] at hItems
  exact hItems.map _

/-! ## What was saved for a shard -/

/-- Entries that are where their number says are found there. -/
theorem filter_flatMap_items (route : Query × DnsCacheEntry → Nat) (shards : List Shard) :
    ∀ (k : Nat), (∀ (i : Nat) (s : Shard), shards[i]? = some s → ∀ p ∈ s.items, route p = k + i) →
      ∀ {i : Nat} {s : Shard}, shards[i]? = some s →
        (shards.flatMap fun s => s.items).filter (fun p => decide (route p = k + i)) = s.items := by
  induction shards with
  | nil =>
    intro k _ i s hs
    cases hs
  | cons shard rest ih =>
    intro k hPlaced i s hs
    have hHead : ∀ p ∈ shard.items, route p = k := hPlaced 0 shard rfl
    have hRest : ∀ (j : Nat) (s : Shard), rest[j]? = some s →
        ∀ p ∈ s.items, route p = k + 1 + j := by
      intro j s hs p hp
      have := hPlaced (j + 1) s hs p hp
      omega
    rw [flatMap_cons, filter_append]
    cases i with
    | zero =>
      cases hs
      have hAll : shard.items.filter (fun p => decide (route p = k + 0)) = shard.items :=
        filter_eq_self.mpr fun p hp => decide_eq_true (hHead p hp)
      have hNone : (rest.flatMap fun s => s.items).filter
          (fun p => decide (route p = k + 0)) = [] := by
        apply filter_eq_nil_iff.mpr
        intro p hp
        obtain ⟨s, hs, hps⟩ := mem_flatMap.mp hp
        obtain ⟨j, hj⟩ := mem_iff_getElem?.mp hs
        have := hRest j s hj p hps
        simp only [decide_eq_true_eq]
        omega
      rw [hAll, hNone, append_nil]
    | succ j =>
      have hNone : shard.items.filter (fun p => decide (route p = k + (j + 1))) = [] := by
        apply filter_eq_nil_iff.mpr
        intro p hp
        have := hHead p hp
        simp only [decide_eq_true_eq]
        omega
      have hThere := ih (k + 1) hRest (i := j) (s := s) hs
      rw [show k + 1 + j = k + (j + 1) by omega] at hThere
      rw [hNone, nil_append, hThere]

/-- Every response is stored for the question it answers. -/
def Own (c : DnsCache) : Prop := ∀ p ∈ c.entries, (p.2.data.query == p.1) = true

/-- The questions of the entries that loading pushes on a shard depend on their responses only. -/
theorem questions_pushedOn (n i : Nat) (entries : List DnsCacheEntry) :
    (pushedOn env n i entries).map (fun p => p.1.key) =
      ((entries.map fun e => e.data.query).filter fun q =>
        decide (shardIndexOf env q n = i)).map Query.key := by
  rw [pushedOn, map_map, filter_map, map_map]
  rfl

/-- What is read back for a shard are the questions that the shard had. -/
theorem questions_saved (hInv : StoreInv env cap c) (hOwn : Own c) (hs : c.shards[i]? = some s)
    {entries : List DnsCacheEntry}
    (hEntries :
      (entries.map fun e => e.data.query) = (snapshotEntries c).map fun e => e.data.query) :
    (pushedOn env c.shards.length i entries).map (fun p => p.1.key) = questions s := by
  have hSnapshot : ((snapshotEntries c).map fun e => e.data.query) =
      c.entries.map fun p => p.2.data.query := by
    simp only [snapshotEntries, DnsCache.entries, map_flatMap, map_map]
    rfl
  have hRoute : ∀ p ∈ c.entries, decide (shardIndexOf env p.2.data.query c.shards.length = i) =
      decide (shardIndexOf env p.1 c.shards.length = i) := by
    intro p hp
    rw [shardIndexOf_eq (hOwn p hp)]
  have hThere : c.entries.filter (fun p => decide (shardIndexOf env p.1 c.shards.length = i)) =
      s.items := by
    have hPlaced := filter_flatMap_items (fun p => shardIndexOf env p.1 c.shards.length)
      c.shards 0 (fun j s hj p hp => by rw [hInv.placed j s hj p hp, Nat.zero_add]) hs
    rw [Nat.zero_add] at hPlaced
    exact hPlaced
  rw [questions_pushedOn, hEntries, hSnapshot, filter_map, map_map,
    filter_congr (q := fun p => decide (shardIndexOf env p.1 c.shards.length = i)) hRoute,
    hThere]
  refine map_congr_left fun p hp => ?_
  have hMem : p ∈ c.entries := mem_flatMap.mpr ⟨s, mem_of_getElem? hs, hp⟩
  exact Query.beq_iff_key.mp (hOwn p hMem)

/-- Pushed on an empty shard, entries for different questions are found in reverse. -/
theorem questions_pushAll (hEmpty : s.items = []) {xs : List (Query × DnsCacheEntry)}
    (hDistinct : (xs.map fun p => p.1.key).Nodup) :
    questions (s.pushAll xs) = (xs.map fun p => p.1.key).reverse.take s.cap := by
  have hKeys : DistinctKeys xs := by
    rw [List.Nodup, pairwise_map] at hDistinct
    refine hDistinct.imp ?_
    intro a b hNe
    exact eq_false_of_ne_true fun hSame => hNe (Query.beq_iff_key.mp hSame)
  have hFresh : ∀ x ∈ xs, s.peek x.1 = none := by
    intro x _
    rw [Lru.peek, hEmpty]
    rfl
  rw [questions, Lru.items_pushAll xs hKeys hFresh, hEmpty, append_nil, map_take,
    map_reverse]

/-! ## The order of use -/

/-- Reversed, a list of different elements begins as before only if it has one at most. -/
theorem take_reverse_eq_iff {α : Type} {xs : List α} (hNodup : xs.Nodup) {n : Nat} (hn : 0 < n) :
    xs.reverse.take n = xs.take n ↔ xs.length ≤ 1 := by
  match xs with
  | [] => simp
  | [x] => simp
  | x :: y :: rest =>
    refine iff_of_false ?_ (by simp)
    intro hEq
    have hHead := congrArg head? hEq
    rw [head?_take, head?_take, if_neg (by omega), if_neg (by omega), head?_reverse] at hHead
    have hLast : x ∈ y :: rest := mem_of_getLast? hHead
    exact (nodup_cons.mp hNodup).1 hLast

/-- A cache with room for `cacheSize` entries after the file of `c` has been loaded. -/
def reloaded (env : CacheEnv) (codec : MessageCodec) (saved loaded : Nat → Nat) (c : DnsCache)
    (cacheSize expiredTtl expiredReplyTtl maxBytes : Nat) : DnsCache :=
  loadFrom env codec loaded (DnsCache.new cacheSize expiredTtl expiredReplyTtl maxBytes)
    (some (persistTo codec saved c))

/-- Before the byte budget is enforced: each shard in reverse, as far as there is room. -/
theorem questions_load (hInv : StoreInv env cap c) (hOwn : Own c) {entries : List DnsCacheEntry}
    (hEntries : (entries.map fun e => e.data.query) = (snapshotEntries c).map fun e => e.data.query)
    (cacheSize expiredTtl expiredReplyTtl maxBytes : Nat)
    (hCount : shardCountFor cacheSize = c.shards.length) (hs : c.shards[i]? = some s) :
    ∃ s', (entries.foldl (DnsCache.loadEntry env)
        (DnsCache.new cacheSize expiredTtl expiredReplyTtl maxBytes)).shards[i]? = some s' ∧
      questions s' = (questions s).reverse.take (shardCap cacheSize i) := by
  have hi : i < shardCountFor cacheSize := by
    rw [hCount]
    exact (List.getElem?_eq_some_iff.mp hs).1
  have hNew : (DnsCache.new cacheSize expiredTtl expiredReplyTtl maxBytes).shards[i]? =
      some (Lru.empty (shardCap cacheSize i) (shardCap_pos cacheSize i)) := by
    show ((range (shardCountFor cacheSize)).map _)[i]? = _
    rw [getElem?_map, getElem?_range hi]
    rfl
  have hLength : (DnsCache.new cacheSize expiredTtl expiredReplyTtl maxBytes).shards.length =
      c.shards.length := by
    rw [← hCount]
    show ((range (shardCountFor cacheSize)).map _).length = _
    rw [length_map, length_range]
  have hQuestions := questions_saved hInv hOwn hs hEntries
  refine ⟨_, loadAll_getElem? entries hNew, ?_⟩
  rw [hLength, questions_pushAll rfl, hQuestions]
  · rfl
  · rw [hQuestions]
    exact nodup_questions s

/--
For every cache whose entries can be written and answer the questions they are
stored for, and every new cache with as many shards: a shard comes back in
reverse order of use, shortened to its capacity and by the byte budget. Without
a byte budget it holds what was most recently used, in that order, exactly if
there was one entry at most; one entry is in order under every budget.
-/
theorem reload_order (env : CacheEnv) (codec : MessageCodec) (saved loaded : Nat → Nat)
    (c : DnsCache) (cap : Nat) (hInv : StoreInv env cap c) (hOwn : Own c)
    (hSaved : AllPersistable codec saved (snapshotEntries c))
    (cacheSize expiredTtl expiredReplyTtl maxBytes : Nat)
    (hCount : shardCountFor cacheSize = c.shards.length) (i : Nat) (s : Shard)
    (hs : c.shards[i]? = some s) :
    ∃ s', (reloaded env codec saved loaded c cacheSize expiredTtl expiredReplyTtl
        maxBytes).shards[i]? = some s' ∧
      questions s' <+: (questions s).reverse.take (shardCap cacheSize i) ∧
      (maxBytes = 0 →
        (questions s' = (questions s).take (shardCap cacheSize i) ↔ s.items.length ≤ 1)) ∧
      (s.items.length ≤ 1 → questions s' <+: questions s) := by
  have hBack := deserializeMany_serializeMany hSaved loaded
  have hEntries : ((snapshotEntries c).mapIdx fun i e =>
      restored (saved i) (loaded i) e).map (fun e => e.data.query) =
        (snapshotEntries c).map fun e => e.data.query := by
    apply ext_getElem?
    intro j
    simp only [getElem?_map, getElem?_mapIdx, Option.map_map]
    rfl
  obtain ⟨s₁, hs₁, hReverse⟩ := questions_load hInv hOwn hEntries cacheSize expiredTtl
    expiredReplyTtl maxBytes hCount hs
  have hReloaded : reloaded env codec saved loaded c cacheSize expiredTtl expiredReplyTtl maxBytes =
      DnsCache.enforceMemoryBudget env (((snapshotEntries c).mapIdx fun i e =>
        restored (saved i) (loaded i) e).foldl (DnsCache.loadEntry env)
          (DnsCache.new cacheSize expiredTtl expiredReplyTtl maxBytes)) := by
    rw [reloaded, loadFrom, persistTo, Option.bind_some, hBack]
    rfl
  have hShort := enforceMemoryBudget_shortened env (((snapshotEntries c).mapIdx fun i e =>
    restored (saved i) (loaded i) e).foldl (DnsCache.loadEntry env)
      (DnsCache.new cacheSize expiredTtl expiredReplyTtl maxBytes))
  rw [← hReloaded] at hShort
  have hi := (List.getElem?_eq_some_iff.mp hs₁).1
  have hGet := getElem?_eq_getElem (hShort.length_eq ▸ hi)
  have hPrefix := hShort.questions_le hGet hs₁
  rw [hReverse] at hPrefix
  refine ⟨_, hGet, hPrefix, ?_, ?_⟩
  · intro hUnlimited
    have hSame : (reloaded env codec saved loaded c cacheSize expiredTtl expiredReplyTtl
        maxBytes).shards[i]? = some s₁ := by
      rw [hReloaded, DnsCache.enforceMemoryBudget, if_pos, hs₁]
      rw [loadAll_maxBytes]
      exact hUnlimited
    rw [hGet] at hSame
    rw [Option.some.inj hSame, hReverse,
      take_reverse_eq_iff (nodup_questions s) (shardCap_pos cacheSize i), questions,
      length_map]
  · intro hOne
    refine hPrefix.trans ?_
    have hLength : (questions s).length ≤ 1 := by
      rw [questions, length_map]
      exact hOne
    rw [(take_reverse_eq_iff (nodup_questions s) (shardCap_pos cacheSize i)).mpr hLength]
    exact take_prefix _ _

/-! ## One shard, saved and loaded -/

/-- A cache of one shard in which addresses of `example.com` were stored, the last one last. -/
def stored (families : List RecordType) : DnsCache :=
  (DnsCache.new 4 0 0 0).load ServerRuns.exampleEnv
    (some (families.map fun family => savedUntil family (secs 300)))

/-- The shard of a cache with one entry. -/
def singleShard : Shard :=
  ((Lru.empty 4 (by decide) : Shard).push (Query.query (Name.ofLabels ["example", "com"]) .A)
    (savedUntil .A (secs 300))).2

theorem reload_order_singleShard :
    ∃ s', (reloaded ServerRuns.exampleEnv exampleCodec (fun _ => secs 1) (fun _ => secs 9)
        (stored [.A]) 1 0 0 0).shards[0]? = some s' ∧
      questions s' <+: (questions singleShard).reverse.take (shardCap 1 0) ∧
      (0 = 0 → (questions s' = (questions singleShard).take (shardCap 1 0) ↔
        singleShard.items.length ≤ 1)) ∧
      (singleShard.items.length ≤ 1 → questions s' <+: questions singleShard) := by
  refine reload_order ServerRuns.exampleEnv exampleCodec (fun _ => secs 1) (fun _ => secs 9)
    (stored [.A]) (max 4 1) ((BudgetInv.new _ 4 0 0 0).load _).store ?_ ?_ 1 0 0 0 rfl 0 singleShard
    rfl
  · exact forall_mem_singleton.mpr BEq.rfl
  · exact single_persistable (secs 300) _

/-- The families in the only shard of a cache, the most recently used first. -/
def families (c : DnsCache) : List (List RecordType) :=
  c.shards.map fun s => (questions s).map Query.queryType

/--
The IPv6 address was used last. Loaded into a cache of the same size it comes
second, and where there is room for one entry it is lost.
-/
theorem reload_reverses :
    families (stored [.A, .AAAA]) = [[.AAAA, .A]] ∧
      families (reloaded ServerRuns.exampleEnv exampleCodec (fun _ => 0) (fun _ => 0)
        (stored [.A, .AAAA]) 4 0 0 0) = [[.A, .AAAA]] ∧
      families (reloaded ServerRuns.exampleEnv exampleCodec (fun _ => 0) (fun _ => 0)
        (stored [.A, .AAAA]) 1 0 0 0) = [[.A]] := by
  refine ⟨?_, ?_, ?_⟩
  · decide +kernel
  · decide +kernel
  · decide +kernel

end SmartDns.Ports.CacheReload
