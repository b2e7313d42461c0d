import SmartDns.Ports.CacheAccounting

/-!
# What a cache operation stores and returns

The cache as a relation between questions, up to the letter case of their
names, and the responses stored for them. Routing by hash keeps every spelling
of a question in one shard, so storing a response replaces whatever was stored
for the question, and nothing else appears that was not there before.
-/

namespace SmartDns.Ports.CacheContents

open Verified DnsMessage DnsLookup CacheStore CacheAccounting List

/-- The cache holds the response for the question with this canonical key. -/
def Stores (c : DnsCache) (k : Query) (d : DnsResponse) : Prop :=
  ∃ p ∈ c.entries, p.1.key = k ∧ p.2.data = d

variable {env : CacheEnv} {cap : Nat} {c : DnsCache}

/-! ## Eviction removes, and does nothing else -/

private theorem mem_flatMap_of_forall₂ {xs ys : List Shard}
    (h : List.Forall₂ (fun s' s => s'.cap = s.cap ∧ ∀ p ∈ s'.items, p ∈ s.items) xs ys) :
    ∀ p, p ∈ xs.flatMap (fun s => s.items) → p ∈ ys.flatMap (fun s => s.items) := by
  induction h with
  | nil =>
    intro p hp
    exact hp
  | cons hHead _ ih =>
    intro p hp
    rw [flatMap_cons, mem_append] at hp ⊢
    exact hp.imp (hHead.2 p) (ih p)

variable {p : Query × DnsCacheEntry}

/-- Evictions bring no entry in. -/
theorem mem_enforceMemoryBudget (hp : p ∈ (c.enforceMemoryBudget env).entries) : p ∈ c.entries := by
  refine enforceMemoryBudget_keeps (P := fun c' => p ∈ c'.entries → p ∈ c.entries) ?_ id hp
  intro c' hIn hp'
  exact hIn (mem_flatMap_of_forall₂
    (evictPass_shards env c'.maxBytes c'.shards c'.totalBytes) p hp')

/-! ## Updates of one shard -/

theorem mem_entries :
    p ∈ c.entries ↔ ∃ (i : Nat) (s : Shard), c.shards[i]? = some s ∧ p ∈ s.items := by
  unfold DnsCache.entries
  rw [mem_flatMap]
  constructor
  · rintro ⟨s, hs, hp⟩
    obtain ⟨i, hGet⟩ := mem_iff_getElem?.mp hs
    exact ⟨i, s, hGet, hp⟩
  · rintro ⟨i, s, hGet, hp⟩
    exact ⟨s, mem_of_getElem? hGet, hp⟩

theorem entries_new (cacheSize expiredTtl expiredReplyTtl maxBytes : Nat) :
    (DnsCache.new cacheSize expiredTtl expiredReplyTtl maxBytes).entries = [] := by
  unfold DnsCache.entries
  rw [flatMap_eq_nil_iff]
  intro s hs
  obtain ⟨i, -, hi⟩ := mem_map.mp hs
  rw [← hi]
  rfl

/-- A question and its other spellings are routed to one shard. -/
theorem shardIndexOf_eq {a b : Query} (hab : (a == b) = true) (n : Nat) :
    shardIndexOf env a n = shardIndexOf env b n := by
  rw [shardIndexOf, shardIndexOf, env.hash_eq a b hab]

variable {query : Query}

/-- The bindings after an update of one shard: those of the updated shard, and those of the
questions that are routed elsewhere. -/
theorem mem_onShard_iff {f : Shard → ByteCounter → Shard × ByteCounter} (h : StoreInv env cap c)
    {shard : Shard} (hGet : c.shards[shardIndexOf env query c.shards.length]? = some shard) :
    p ∈ (c.onShard env query f).entries ↔
      p ∈ (f shard c.totalBytes).1.items ∨
        (p ∈ c.entries ∧
          shardIndexOf env p.1 c.shards.length ≠ shardIndexOf env query c.shards.length) := by
  have hLt := (List.getElem?_eq_some_iff.mp hGet).1
  have hShards : (c.onShard env query f).shards =
      c.shards.set (shardIndexOf env query c.shards.length) (f shard c.totalBytes).1 := by
    unfold DnsCache.onShard
    rw [hGet]
  simp only [mem_entries, hShards]
  constructor
  · rintro ⟨i, s, hAt, hps⟩
    by_cases hHere : shardIndexOf env query c.shards.length = i
    · subst hHere
      rw [List.getElem?_set_self hLt] at hAt
      cases hAt
      exact .inl hps
    · rw [List.getElem?_set_ne hHere] at hAt
      refine .inr ⟨⟨i, s, hAt, hps⟩, ?_⟩
      rw [h.placed i s hAt p hps]
      exact fun hSame => hHere hSame.symm
  · rintro (hNew | ⟨⟨i, s, hAt, hps⟩, hElsewhere⟩)
    · exact ⟨_, _, List.getElem?_set_self hLt, hNew⟩
    · rw [h.placed i s hAt p hps] at hElsewhere
      exact ⟨i, s, by rw [List.getElem?_set_ne hElsewhere.symm]; exact hAt, hps⟩

/-- A binding after a shard update is in the updated shard, or belongs to another question. -/
theorem mem_onShard {f : Shard → ByteCounter → Shard × ByteCounter} (h : StoreInv env cap c)
    (hp : p ∈ (c.onShard env query f).entries) :
    (∃ s ∈ c.shards, p ∈ (f s c.totalBytes).1.items) ∨
      (p ∈ c.entries ∧ (p.1 == query) = false) := by
  cases hGet : c.shards[shardIndexOf env query c.shards.length]? with
  | none =>
    unfold DnsCache.onShard at hp
    rw [hGet] at hp
    refine .inr ⟨hp, ?_⟩
    by_contra hSame
    -- a question that is stored has a shard
    obtain ⟨i, s, hAt, hps⟩ := mem_entries.mp hp
    have hIndex := h.placed i s hAt p hps
    rw [shardIndexOf_eq (eq_true_of_ne_false hSame)] at hIndex
    rw [hIndex, hAt] at hGet
    cases hGet
  | some shard =>
    rcases (mem_onShard_iff h hGet).mp hp with hNew | ⟨hOld, hElsewhere⟩
    · exact .inl ⟨shard, mem_of_getElem? hGet, hNew⟩
    · refine .inr ⟨hOld, ?_⟩
      by_contra hSame
      exact hElsewhere (shardIndexOf_eq (eq_true_of_ne_false hSame) _)

/-- A lookup finds the only binding stored for a question. -/
theorem peekEntry_eq_some (h : StoreInv env cap c) :
    c.peekEntry env query = some p ↔ p ∈ c.entries ∧ (p.1 == query) = true := by
  unfold DnsCache.peekEntry
  constructor
  · intro hPeek
    obtain ⟨shard, hShard, hFound⟩ := Option.bind_eq_some_iff.mp hPeek
    obtain ⟨hMem, hKey⟩ := Lru.peek_eq_some.mp hFound
    exact ⟨mem_flatMap.mpr ⟨shard, mem_of_getElem? hShard, hMem⟩, hKey⟩
  · rintro ⟨hp, hKey⟩
    obtain ⟨i, shard, hGet, hMem⟩ := mem_entries.mp hp
    rw [← shardIndexOf_eq hKey, h.placed i shard hGet p hMem, hGet]
    exact Lru.peek_eq_some.mpr ⟨hMem, hKey⟩

/-- An update in place changes the binding of its question and no other. -/
theorem mem_touch_iff (h : StoreInv env cap c) {f : DnsCacheEntry → DnsCacheEntry} :
    p ∈ (c.touch env query f).entries ↔
      (p ∈ c.entries ∧ (p.1 == query) = false) ∨
        ∃ q ∈ c.entries, (q.1 == query) = true ∧ p = (q.1, f q.2) := by
  constructor
  · intro hp
    rcases mem_onShard h hp with ⟨s, hs, hps⟩ | hOld
    · rcases Lru.mem_modify hps with hKept | ⟨q, hq, hKey, hEq⟩
      · exact .inl ⟨mem_flatMap.mpr ⟨s, hs, hKept.1⟩, hKept.2⟩
      · exact .inr ⟨q, mem_flatMap.mpr ⟨s, hs, hq⟩, hKey, hEq⟩
    · exact .inl hOld
  · rintro (⟨hp, hNe⟩ | ⟨q, hq, hKey, hEq⟩)
    · cases hGet : c.shards[shardIndexOf env query c.shards.length]? with
      | none =>
        unfold DnsCache.touch DnsCache.onShard
        rw [hGet]
        exact hp
      | some shard =>
        refine (mem_onShard_iff h hGet).mpr ?_
        by_cases hShard : shardIndexOf env p.1 c.shards.length =
            shardIndexOf env query c.shards.length
        · have hPeek := (peekEntry_eq_some h).mpr ⟨hp, (BEq.rfl : (p.1 == p.1) = true)⟩
          unfold DnsCache.peekEntry at hPeek
          rw [hShard, hGet] at hPeek
          exact .inl (Lru.mem_modify_iff.mpr (.inl ⟨(Lru.peek_eq_some.mp hPeek).1, hNe⟩))
        · exact .inr ⟨hp, hShard⟩
    · have hPeek := (peekEntry_eq_some h).mpr ⟨hq, hKey⟩
      obtain ⟨shard, hGet, hFound⟩ := Option.bind_eq_some_iff.mp hPeek
      refine (mem_onShard_iff h hGet).mpr (.inl ?_)
      exact Lru.mem_modify_iff.mpr (.inr ⟨q, (Lru.peek_eq_some.mp hFound).1, hKey, hEq⟩)

theorem mem_storeEntry {data : DnsResponse} {validUntil : Nat} {s : Shard} {t : ByteCounter}
    (hp : p ∈ (storeEntry env query data validUntil s t).1.items) :
    ((p.1 == query) = true ∧ p.2.data = data ∧ p.2.validUntil = validUntil) ∨
      (p ∈ s.items ∧ (p.1 == query) = false) := by
  unfold storeEntry at hp
  cases hPeek : s.peek query with
  | none =>
    rw [hPeek] at hp
    rcases Lru.mem_push hp with hNew | hOld
    · rw [hNew]
      exact .inl ⟨BEq.rfl, rfl, rfl⟩
    · exact .inr hOld
  | some q =>
    rw [hPeek] at hp
    rcases Lru.mem_modify hp with hOld | hNew
    · exact .inr hOld
    · obtain ⟨q, _, hKey, hEq⟩ := hNew
      rw [hEq]
      exact .inl ⟨hKey, rfl, rfl⟩

/-- Storing a response and evicting: a binding holds the response, or it is an old one. -/
theorem mem_store (h : StoreInv env cap c) {data : DnsResponse} {validUntil : Nat}
    (hp : p ∈ ((c.onShard env query (storeEntry env query data validUntil)).enforceMemoryBudget
      env).entries) :
    ((p.1 == query) = true ∧ p.2.data = data ∧ p.2.validUntil = validUntil) ∨
      (p ∈ c.entries ∧ (p.1 == query) = false) := by
  rcases mem_onShard h (mem_enforceMemoryBudget hp) with hUpdated | hOld
  · obtain ⟨s, hs, hps⟩ := hUpdated
    rcases mem_storeEntry hps with hNew | hKept
    · exact .inl hNew
    · exact .inr ⟨mem_flatMap.mpr ⟨s, hs, hKept.1⟩, hKept.2⟩
  · exact .inr hOld

/-- What holds of every entry, of new ones and of refreshed ones, holds after storing. -/
theorem store_keeps (h : StoreInv env cap c) {P : DnsCacheEntry → Prop} {data : DnsResponse}
    {validUntil : Nat} (hNew : P (.new data validUntil))
    (hRefresh : ∀ e, P e → P (e.refresh data validUntil)) (hAll : ∀ p ∈ c.entries, P p.2) :
    ∀ p ∈ ((c.onShard env query (storeEntry env query data validUntil)).enforceMemoryBudget
      env).entries, P p.2 := by
  intro p hp
  rcases mem_onShard h (mem_enforceMemoryBudget hp) with ⟨s, hs, hps⟩ | hOld
  · have hShard : ∀ q ∈ s.items, P q.2 := fun q hq => hAll q (mem_flatMap.mpr ⟨s, hs, hq⟩)
    unfold storeEntry at hps
    cases hPeek : s.peek query with
    | none =>
      rw [hPeek] at hps
      rcases Lru.mem_push hps with hPushed | hKept
      · rw [hPushed]
        exact hNew
      · exact hShard p hKept.1
    | some q =>
      rw [hPeek] at hps
      rcases Lru.mem_modify hps with hKept | ⟨q', hq', -, hEq⟩
      · exact hShard p hKept.1
      · rw [hEq]
        exact hRefresh _ (hShard q' hq')
  · exact hAll p hOld.1

/-! ## What insertions write -/

/-- The response `insert` stores for a question. -/
def entryData (query : Query) (recordsAndTtl : List (Record × Nat)) (group : String) :
    DnsResponse :=
  (DnsResponse.newWithDeadline query (collapseTtl recordsAndTtl).1).withNameServerGroup group

/-- The response `insert_negative` stores. -/
def negativeData (resp : DnsResponse) (ttl : Nat) (group : String) : DnsResponse :=
  (resp.withNameServerGroup group).setMaxTtl (asSecsU32 ttl)

/-- The questions `insert_records` writes and the responses it writes for them. -/
def written (originalQuery : Query) (records : List Record) (group : String) :
    List (Query × DnsResponse) :=
  let groups := records.foldl groupRecord []
  let isCnameQuery := records.any fun r =>
    !(originalQuery == (⟨r.name, r.recordType, r.dnsClass⟩ : Query))
  (if isCnameQuery then
    [(originalQuery, entryData originalQuery (groups.flatMap Prod.snd) group)] else []) ++
    groups.map fun g => (g.1, entryData g.1 g.2 group)

/-- The question that a record answers. -/
def ownerQuery (r : Record) : Query := ⟨r.name, r.recordType, r.dnsClass⟩

/-- The questions `insert_records` inserts, in this order, with the records for each. -/
def writtenGroups (originalQuery : Query) (records : List Record) :
    List (Query × List (Record × Nat)) :=
  let groups := records.foldl groupRecord []
  let isCnameQuery := records.any fun r => !(originalQuery == ownerQuery r)
  (if isCnameQuery then [(originalQuery, groups.flatMap Prod.snd)] else []) ++ groups

theorem written_eq (originalQuery : Query) (records : List Record) (group : String) :
    written originalQuery records group =
      (writtenGroups originalQuery records).map fun g => (g.1, entryData g.1 g.2 group) := by
  unfold written writtenGroups ownerQuery
  dsimp only
  split <;> rfl

/-! ### Grouping -/

/-- The groups of a list of records: one for each question that a record answers, with all
the records that answer it, in their order. -/
structure Grouping (records : List Record) (groups : List (Query × List (Record × Nat))) :
    Prop where
  distinct : DistinctKeys groups
  source : ∀ g ∈ groups, ∃ r ∈ records, g.1 = ownerQuery r
  content : ∀ g ∈ groups,
    g.2 = (records.filter fun r => ownerQuery r == g.1).map fun r => (r, r.ttl)
  total : ∀ r ∈ records, ∃ g ∈ groups, (ownerQuery r == g.1) = true

theorem groupRecord_eq (groups : List (Query × List (Record × Nat))) (record : Record) :
    groupRecord groups record =
      upsert (ownerQuery record) (· ++ [(record, record.ttl)]) [] groups := by
  show (if groups.any fun e => e.1 == ownerQuery record then
      groups.modify (groups.findIdx fun e => e.1 == ownerQuery record) fun e =>
        (e.1, e.2 ++ [(record, record.ttl)])
    else groups ++ [(ownerQuery record, [(record, record.ttl)])]) = _
  induction groups with
  | nil => rfl
  | cons g gs ih =>
    rw [upsert, ← ih, findIdx_cons, any_cons]
    by_cases hHead : (g.1 == ownerQuery record) = true
    · simp [hHead]
    · rw [eq_false_of_ne_true hHead]
      simp only [Bool.false_or, Bool.false_eq_true, if_false, cond_false, modify_succ_cons]
      split <;> rfl

variable {records : List Record}

/-- The records grouped by owner are a table of upserts. -/
theorem groups_eq (records : List Record) : records.foldl groupRecord [] =
    tabulate ownerQuery (fun record => (· ++ [(record, record.ttl)])) [] records := by
  simp only [tabulate, ← groupRecord_eq]

/-- How `insert_records` sorts the records of a response. -/
theorem grouping (records : List Record) : Grouping records (records.foldl groupRecord []) := by
  rw [groups_eq]
  refine ⟨distinctKeys_tabulate .., ?_, ?_, ?_⟩
  · intro g hg
    obtain ⟨hFirst, -⟩ := (mem_tabulate ..).mp hg
    obtain ⟨r, hr, hOwner⟩ := mem_map.mp (mem_of_find?_eq_some hFirst)
    exact ⟨r, hr, hOwner.symm⟩
  · intro g hg
    obtain ⟨-, hContent⟩ := (mem_tabulate ..).mp hg
    rw [hContent, foldl_append_eq_append, nil_append, ← flatMap_def, map_eq_flatMap]
  · intro r hr
    have hFind := find_tabulate ownerQuery (fun record => (· ++ [(record, record.ttl)])) [] records
      (ownerQuery r)
    obtain ⟨k, hk⟩ : ∃ k, (records.map ownerQuery).find? (· == ownerQuery r) = some k :=
      Option.isSome_iff_exists.mp (find?_isSome.mpr ⟨_, mem_map_of_mem hr, BEq.rfl⟩)
    have hSame : (k == ownerQuery r) = true := by simpa using find?_some hk
    rw [hk] at hFind
    exact ⟨_, mem_of_find?_eq_some hFind, BEq.symm hSame⟩

/-- Every record that `insert_records` writes is one of those given, under its own TTL. -/
theorem mem_writtenGroups {g : Query × List (Record × Nat)} (hg : g ∈ writtenGroups query records) :
    (g.1 = query ∨ ∃ r ∈ records, g.1 = ownerQuery r) ∧
      ∀ x ∈ g.2, x.1 ∈ records ∧ x.2 = x.1.ttl := by
  have hGroups := grouping records
  have hContent : ∀ g ∈ records.foldl groupRecord [], ∀ x ∈ g.2,
      x.1 ∈ records ∧ x.2 = x.1.ttl := by
    intro g hg x hx
    rw [hGroups.content g hg] at hx
    obtain ⟨r, hr, hEq⟩ := mem_map.mp hx
    rw [← hEq]
    exact ⟨(mem_filter.mp hr).1, rfl⟩
  rcases mem_append.mp hg with hFirst | hGroup
  · split at hFirst
    · rw [mem_singleton.mp hFirst]
      refine ⟨.inl rfl, ?_⟩
      intro x hx
      obtain ⟨g', hg', hxg⟩ := mem_flatMap.mp hx
      exact hContent g' hg' x hxg
    · cases hFirst
  · exact ⟨.inr (hGroups.source g hGroup), hContent g hGroup⟩

variable {group : String}

/-- What `insert_records` writes: for the question asked or one a record answers, a response
to that question, under the group's label, with some of the records. -/
theorem written_spec {p : Query × DnsResponse} (hp : p ∈ written query records group) :
    (p.1 = query ∨ ∃ r ∈ records, p.1 = ownerQuery r) ∧
      p.2.message.queries = [p.1] ∧ p.2.nameServerGroup = some group ∧
      p.2.responseCode = .NoError ∧ ∀ r ∈ p.2.records, r ∈ records := by
  rw [written_eq] at hp
  obtain ⟨g, hg, hEq⟩ := mem_map.mp hp
  obtain ⟨hQuestion, hContent⟩ := mem_writtenGroups hg
  rw [← hEq]
  refine ⟨hQuestion, rfl, rfl, rfl, ?_⟩
  intro r hr
  obtain ⟨x, hx, hxr⟩ := mem_map.mp hr
  rw [← hxr]
  exact (hContent x hx).1

/-! ## Insertions -/

/-- Insert groups of records one after another. -/
def insertAll (env : CacheEnv) (now : Nat) (group : String)
    (groups : List (Query × List (Record × Nat))) (c : DnsCache) : DnsCache :=
  groups.foldl (fun c g => (c.insert env g.1 g.2 now group).1) c

/-- Storing the groups one by one leaves the cache that `insertAll` gives. -/
theorem insertGroups_eq (originalQuery : Query) (now : Nat) (group : String)
    (groups : List (Query × List (Record × Nat))) :
    ∀ (c : DnsCache) (lookup : Option DnsResponse),
      (DnsCache.insertGroups env originalQuery now group groups c lookup).1 =
        insertAll env now group groups c := by
  induction groups with
  | nil =>
    intro c lookup
    rfl
  | cons g rest ih =>
    intro c lookup
    exact ih _ _

/-- `insert_records` is a sequence of insertions. -/
theorem insertRecords_eq (c : DnsCache) (query : Query) (records : List Record) (now : Nat)
    (group : String) :
    (c.insertRecords env query records now group).1 =
      insertAll env now group (writtenGroups query records) c := by
  unfold DnsCache.insertRecords writtenGroups ownerQuery
  dsimp only
  split
  · exact insertGroups_eq _ _ _ _ _ _
  · exact insertGroups_eq _ _ _ _ _ _

/-- A binding holds what an insertion writes for its question. -/
structure Written (query : Query) (data : DnsResponse) (validUntil : Nat)
    (p : Query × DnsCacheEntry) : Prop where
  key : (p.1 == query) = true
  data : p.2.data = data
  validUntil : p.2.validUntil = validUntil

variable {now : Nat}

theorem mem_insert (h : StoreInv env cap c) {recordsAndTtl : List (Record × Nat)}
    (hp : p ∈ (c.insert env query recordsAndTtl now group).1.entries) :
    Written query (entryData query recordsAndTtl group)
        (now + secs (collapseTtl recordsAndTtl).2) p ∨
      (p ∈ c.entries ∧ (p.1 == query) = false) :=
  (mem_store h hp).imp_left fun hNew => ⟨hNew.1, hNew.2.1, hNew.2.2⟩

theorem mem_insertNegative (h : StoreInv env cap c) {resp : DnsResponse} {ttl : Nat}
    (hp : p ∈ (c.insertNegative env query resp ttl group now).entries) :
    Written query (negativeData resp ttl group) (now + ttl) p ∨
      (p ∈ c.entries ∧ (p.1 == query) = false) :=
  (mem_store h hp).imp_left fun hNew => ⟨hNew.1, hNew.2.1, hNew.2.2⟩

variable {maxBytes : Nat}

theorem mem_insertAll (now : Nat) (group : String) (groups : List (Query × List (Record × Nat))) :
    ∀ {c : DnsCache} {p : Query × DnsCacheEntry}, BudgetInv env cap maxBytes c →
      p ∈ (insertAll env now group groups c).entries →
      (∃ g ∈ groups, Written g.1 (entryData g.1 g.2 group) (now + secs (collapseTtl g.2).2) p) ∨
        (p ∈ c.entries ∧ ∀ g ∈ groups, (p.1 == g.1) = false) := by
  induction groups with
  | nil =>
    intro c p _ hp
    exact .inr ⟨hp, nofun⟩
  | cons g rest ih =>
    intro c p hInv hp
    rcases ih (hInv.insert g.1 g.2 now group) hp with hRest | hRest
    · obtain ⟨g', hg', hWritten⟩ := hRest
      exact .inl ⟨g', .tail _ hg', hWritten⟩
    · rcases mem_insert hInv.store hRest.1 with hHead | hOld
      · exact .inl ⟨g, .head _, hHead⟩
      · refine .inr ⟨hOld.1, ?_⟩
        exact forall_mem_cons.mpr ⟨hOld.2, hRest.2⟩

/-- After storing an answer, an entry was written by it or was there before. -/
theorem mem_insertRecords (h : BudgetInv env cap maxBytes c)
    (hp : p ∈ (c.insertRecords env query records now group).1.entries) :
    (∃ g ∈ writtenGroups query records,
        Written g.1 (entryData g.1 g.2 group) (now + secs (collapseTtl g.2).2) p) ∨
      (p ∈ c.entries ∧ ∀ g ∈ writtenGroups query records, (p.1 == g.1) = false) := by
  rw [insertRecords_eq] at hp
  exact mem_insertAll now group _ h hp

/-! ## Responses and their questions -/

variable {k : Query}

/-- Questions that differ have different keys. -/
theorem key_ne {q : Query} (hKey : p.1.key = k) (hNe : (p.1 == q) = false) : k ≠ q.key := by
  intro hSame
  rw [← hKey, ← Query.beq_iff_key] at hSame
  rw [hSame] at hNe
  cases hNe

variable {d : DnsResponse}

/-- A negative answer is stored under its question and nothing else is. -/
theorem stores_insertNegative (h : StoreInv env cap c) {resp : DnsResponse} {ttl : Nat}
    (hStores : Stores (c.insertNegative env query resp ttl group now) k d) :
    (k = query.key ∧ d = negativeData resp ttl group) ∨ (k ≠ query.key ∧ Stores c k d) := by
  obtain ⟨p, hp, hKey, hData⟩ := hStores
  rcases mem_insertNegative h hp with hNew | hOld
  · rw [← hKey, ← hData]
    exact .inl ⟨Query.beq_iff_key.mp hNew.key, hNew.data⟩
  · exact .inr ⟨key_ne hKey hOld.2, p, hOld.1, hKey, hData⟩

theorem stores_insertRecords (h : BudgetInv env cap maxBytes c)
    (hStores : Stores (c.insertRecords env query records now group).1 k d) :
    (∃ p ∈ written query records group, k = p.1.key ∧ d = p.2) ∨
      ((∀ p ∈ written query records group, k ≠ p.1.key) ∧ Stores c k d) := by
  obtain ⟨p, hp, hKey, hData⟩ := hStores
  rw [written_eq]
  rcases mem_insertRecords h hp with hNew | hOld
  · obtain ⟨g, hg, hWritten⟩ := hNew
    refine .inl ⟨_, mem_map_of_mem hg, ?_, ?_⟩
    · rw [← hKey]
      exact Query.beq_iff_key.mp hWritten.key
    · rw [← hData]
      exact hWritten.data
  · refine .inr ⟨?_, p, hOld.1, hKey, hData⟩
    intro w hw
    obtain ⟨g, hg, hEq⟩ := mem_map.mp hw
    rw [← hEq]
    exact key_ne hKey (hOld.2 g hg)

/-! ## Lookups -/

/-- Looking a question up stores nothing new. -/
theorem stores_get (h : StoreInv env cap c) (query : Query) (now : Nat)
    (hStores : Stores (c.get env query now).1 k d) : Stores c k d := by
  obtain ⟨p, hp, hKey, hData⟩ := hStores
  rcases mem_onShard h hp with hUpdated | hOld
  · obtain ⟨s, hs, hps⟩ := hUpdated
    rcases Lru.mem_modify hps with hKept | hHit
    · exact ⟨p, mem_flatMap.mpr ⟨s, hs, hKept.1⟩, hKey, hData⟩
    · obtain ⟨q, hq, _, hEq⟩ := hHit
      refine ⟨q, mem_flatMap.mpr ⟨s, hs, hq⟩, ?_, ?_⟩
      · rw [← hKey, hEq]
      · rw [← hData, hEq]
        rfl
  · exact ⟨p, hOld.1, hKey, hData⟩

/-- A response that differs from a stored one in owner names and TTLs of answers only. -/
def Replays (d res : DnsResponse) : Prop :=
  ∃ f : Record → Record, (∀ r, (f r).rdata = r.rdata) ∧ res = d.mapAnswers f

theorem Replays.refl (d : DnsResponse) : Replays d d :=
  ⟨id, fun _ => rfl, by simp [DnsResponse.mapAnswers]⟩

variable {res : DnsResponse}

theorem Replays.mapAnswers {f : Record → Record} (h : Replays d res)
    (hData : ∀ r, (f r).rdata = r.rdata) : Replays d (res.mapAnswers f) := by
  obtain ⟨g, hg, hEq⟩ := h
  refine ⟨f ∘ g, fun r => (hData (g r)).trans (hg r), ?_⟩
  rw [hEq]
  simp [DnsResponse.mapAnswers]

theorem Replays.setMaxTtl (ttl : Nat) (h : Replays d res) : Replays d (res.setMaxTtl ttl) :=
  h.mapAnswers fun r => by rw [Record.setMaxTtl_eq]

/-- What a reply made from a stored response has in common with it. -/
structure Served (d r : DnsResponse) : Prop where
  queries : r.message.queries = d.message.queries
  label : r.nameServerGroup = d.nameServerGroup
  addrs : r.ipAddrs = d.ipAddrs

theorem Replays.served (h : Replays d res) : Served d res := by
  obtain ⟨f, hf, hEq⟩ := h
  rw [hEq]
  refine ⟨rfl, rfl, ?_⟩
  unfold DnsResponse.ipAddrs
  rw [DnsResponse.mapAnswers_answers, filterMap_map]
  congr 1
  funext r
  exact congrArg RData.ipAddr (hf r)

theorem negativeData_ipAddrs (r : DnsResponse) (ttl : Nat) (group : String) :
    (negativeData r ttl group).ipAddrs = r.ipAddrs :=
  ((Replays.refl (r.withNameServerGroup group)).setMaxTtl _).served.addrs

theorem Served.markFromCache {r : DnsResponse} (h : Served d r) : Served d r.markFromCache :=
  ⟨h.queries, h.label, h.addrs⟩

/-- A record of a stored response as a hit returns it. -/
def servedRecord (query : Query) (answers : List Record) (ttl : Nat) (r : Record) : Record :=
  (if DnsCache.needsRename query answers then r.setName query.name else r).setMaxTtl ttl

/-- The TTL a hit caps the answers at. -/
def servedTtl (c : DnsCache) (now : Nat) (entry : DnsCacheEntry) : Nat :=
  if entry.isCurrent now then asSecsU32 (entry.ttl now) else c.expiredReplyTtl % 2 ^ 32

theorem entryReply_eq (c : DnsCache) (query : Query) (now : Nat) (entry : DnsCacheEntry) :
    c.entryReply query now entry =
      (entry.data.mapAnswers
          (servedRecord query entry.data.message.answers (servedTtl c now entry)),
        if entry.isCurrent now then .Valid else .Expired) := by
  unfold DnsCache.entryReply servedTtl servedRecord
  by_cases hRename : DnsCache.needsRename query entry.data.message.answers = true <;>
    by_cases hCurrent : entry.isCurrent now = true <;>
      simp [hRename, hCurrent, DnsResponse.setMaxTtl, DnsResponse.mapAnswers]

theorem servedRecord_eq (query : Query) (answers : List Record) (ttl : Nat) (r : Record) :
    servedRecord query answers ttl r =
      { r with
        name := if DnsCache.needsRename query answers then query.name else r.name
        ttl := min r.ttl ttl } := by
  unfold servedRecord
  rw [Record.setMaxTtl_eq]
  split <;> rfl

theorem servedRecord_rdata (query : Query) (answers : List Record) (ttl : Nat) (r : Record) :
    (servedRecord query answers ttl r).rdata = r.rdata := by
  rw [servedRecord_eq]

/-- The reply made of an entry replays its data. -/
theorem entryReply_replays (query : Query) (now : Nat) (entry : DnsCacheEntry) :
    Replays entry.data (c.entryReply query now entry).1 := by
  rw [entryReply_eq]
  exact ⟨_, servedRecord_rdata query _ _, rfl⟩

/-- A hit is made from the binding stored for the question. -/
theorem get_eq (c : DnsCache) (query : Query) (now : Nat) :
    (c.get env query now).2 = (c.peekEntry env query).map fun p => c.entryReply query now p.2 := by
  unfold DnsCache.get DnsCache.peekEntry
  cases c.shards[shardIndexOf env query c.shards.length]? <;> rfl

/-- A lookup finds exactly the entry stored for an equal question. -/
theorem get_eq_some (h : StoreInv env cap c) {reply : DnsResponse × CacheStatus} :
    (c.get env query now).2 = some reply ↔
      ∃ p ∈ c.entries, (p.1 == query) = true ∧ c.entryReply query now p.2 = reply := by
  rw [get_eq, Option.map_eq_some_iff]
  simp only [peekEntry_eq_some h, and_assoc]

/-- What a lookup returns replays something stored. -/
theorem get_reply {status : CacheStatus} (hGet : (c.get env query now).2 = some (res, status)) :
    ∃ d, Stores c query.key d ∧ Replays d res := by
  obtain ⟨shard, hShard, hReply⟩ := Option.bind_eq_some_iff.mp hGet
  obtain ⟨p, hPeek, hEntry⟩ := Option.map_eq_some_iff.mp hReply
  have hKey : (p.1 == query) = true := by simpa using find?_some hPeek
  have hMem : p ∈ c.entries := mem_flatMap.mpr
    ⟨shard, mem_of_getElem? hShard, mem_of_find?_eq_some hPeek⟩
  refine ⟨p.2.data, ⟨p, hMem, Query.beq_iff_key.mp hKey, rfl⟩, ?_⟩
  have hReplays := entryReply_replays (c := c) query now p.2
  rw [hEntry] at hReplays
  exact hReplays

end SmartDns.Ports.CacheContents
