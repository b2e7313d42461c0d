import SmartDns.Ports.PrefetchScan

/-!
# Which operation produced an entry

The operations on one cache in the order in which they happen, prefetch scans
included. An operation that writes a question replaces what was stored for it,
and nothing else but eviction takes an entry away, so the response and the
deadline of every entry are those of the last operation that wrote its
question.
-/

namespace SmartDns.Ports.CacheHistory

open Verified DnsMessage DnsLookup CacheStore CacheAccounting CacheContents PrefetchScan List

/-- What can happen to a cache. -/
inductive CacheEvent where
  | op (op : CacheOp)
  | getExpired (now : Nat) (secondsAhead : Option Nat) (baseInterval maxCount : Nat)

namespace CacheEvent

def apply (env : CacheEnv) (order : HeapOrder) (c : DnsCache) : CacheEvent → DnsCache
  | .op o => o.apply env c
  | .getExpired now secondsAhead baseInterval maxCount =>
    (PrefetchScan.getExpired env order c now secondsAhead baseInterval maxCount).cache

/-- The binding holds what the event writes for its question. -/
def Writes (p : Query × DnsCacheEntry) : CacheEvent → Prop
  | .op (.insert query recordsAndTtl now group) =>
    Written query (entryData query recordsAndTtl group)
      (now + secs (collapseTtl recordsAndTtl).2) p
  | .op (.insertNegative query resp ttl group now) =>
    Written query (negativeData resp ttl group) (now + ttl) p
  | .op (.insertRecords query records now group) =>
    ∃ g ∈ writtenGroups query records,
      Written g.1 (entryData g.1 g.2 group) (now + secs (collapseTtl g.2).2) p
  | .op (.load (some entries)) =>
    ∃ e ∈ entries, Written e.data.query e.data e.validUntil p
  | _ => False

/-- The event replaces or removes what is stored for a question. -/
def Overwrites (q : Query) : CacheEvent → Prop
  | .op (.insert query _ _ _) => (q == query) = true
  | .op (.insertNegative query _ _ _ _) => (q == query) = true
  | .op (.insertRecords query records _ _) =>
    ∃ g ∈ writtenGroups query records, (q == g.1) = true
  | .op (.load (some entries)) => ∃ e ∈ entries, (q == e.data.query) = true
  | .op .clear => True
  | _ => False

variable {e : CacheEvent}

theorem Writes.overwrites {p : Query × DnsCacheEntry} (h : e.Writes p) : e.Overwrites p.1 := by
  match e with
  | .op (.insert _ _ _ _) => exact h.key
  | .op (.insertNegative _ _ _ _ _) => exact h.key
  | .op (.insertRecords _ _ _ _) =>
    obtain ⟨g, hg, hWritten⟩ := h
    exact ⟨g, hg, hWritten.key⟩
  | .op (.load (some _)) =>
    obtain ⟨e, he, hWritten⟩ := h
    exact ⟨e, he, hWritten.key⟩

/-- Statistics and marks do not matter to what was written. -/
theorem Writes.congr {p q : Query × DnsCacheEntry} (hKey : p.1 = q.1) (hData : p.2.data = q.2.data)
    (hUntil : p.2.validUntil = q.2.validUntil) (h : e.Writes q) : e.Writes p := by
  have hWritten : ∀ {query : Query} {data : DnsResponse} {validUntil : Nat},
      Written query data validUntil q → Written query data validUntil p := fun hq =>
    ⟨by rw [hKey]; exact hq.key, hData.trans hq.data, hUntil.trans hq.validUntil⟩
  match e with
  | .op (.insert _ _ _ _) => exact hWritten h
  | .op (.insertNegative _ _ _ _ _) => exact hWritten h
  | .op (.insertRecords _ _ _ _) =>
    obtain ⟨g, hg, hq⟩ := h
    exact ⟨g, hg, hWritten hq⟩
  | .op (.load (some _)) =>
    obtain ⟨e, he, hq⟩ := h
    exact ⟨e, he, hWritten hq⟩

/-- Spellings of a question are overwritten together. -/
theorem Overwrites.congr {q q' : Query} (hq : (q == q') = true) (h : e.Overwrites q) :
    e.Overwrites q' := by
  match e with
  | .op (.insert _ _ _ _) => exact BEq.trans (BEq.symm hq) h
  | .op (.insertNegative _ _ _ _ _) => exact BEq.trans (BEq.symm hq) h
  | .op (.insertRecords _ _ _ _) =>
    obtain ⟨g, hg, hKey⟩ := h
    exact ⟨g, hg, BEq.trans (BEq.symm hq) hKey⟩
  | .op (.load (some _)) =>
    obtain ⟨e, he, hKey⟩ := h
    exact ⟨e, he, BEq.trans (BEq.symm hq) hKey⟩
  | .op .clear => trivial

end CacheEvent

/-- The cache after a sequence of events. -/
def runEvents (env : CacheEnv) (order : HeapOrder) (c : DnsCache) (es : List CacheEvent) :
    DnsCache :=
  es.foldl (CacheEvent.apply env order) c

theorem runEvents_concat (env : CacheEnv) (order : HeapOrder) (c : DnsCache)
    (es : List CacheEvent) (e : CacheEvent) :
    runEvents env order c (es ++ [e]) = e.apply env order (runEvents env order c es) := by
  simp [runEvents]

variable {env : CacheEnv} {order : HeapOrder} {cap maxBytes : Nat}

/-! ## One event -/

variable {c : DnsCache}

/-- Every event of the cache keeps its budget. -/
theorem apply_inv (h : BudgetInv env cap maxBytes c) (e : CacheEvent) :
    BudgetInv env cap maxBytes (e.apply env order c) := by
  cases e with
  | op op => exact h.apply op
  | getExpired now secondsAhead baseInterval maxCount => exact getExpired_inv h _ _ _ _

/-- The binding is an older one whose statistics may differ; it may have been marked since. -/
def Remains (c : DnsCache) (p : Query × DnsCacheEntry) : Prop :=
  ∃ q ∈ c.entries, p.1 = q.1 ∧ p.2.data = q.2.data ∧ p.2.validUntil = q.2.validUntil ∧
    (q.2.isInPrefetching = true → p.2.isInPrefetching = true)

variable {p : Query × DnsCacheEntry}

theorem Remains.of_mem (hp : p ∈ c.entries) : Remains c p :=
  ⟨p, hp, rfl, rfl, rfl, id⟩

/-- Pushing an entry: a binding is the one pushed, or an old one. -/
theorem mem_loadEntry (h : StoreInv env cap c) {e : DnsCacheEntry}
    (hp : p ∈ (c.loadEntry env e).entries) :
    p = (e.data.query, e) ∨ (p ∈ c.entries ∧ (p.1 == e.data.query) = false) := by
  rcases mem_onShard h hp with ⟨s, hs, hps⟩ | hOld
  · exact (Lru.mem_push hps).imp_right fun hKept =>
      ⟨mem_flatMap.mpr ⟨s, hs, hKept.1⟩, hKept.2⟩
  · exact .inr hOld

theorem loadEntry_inv (h : StoreInv env cap c) (e : DnsCacheEntry) :
    StoreInv env cap (c.loadEntry env e) :=
  (h.onShard (pushEntry_shardOp env e.data.query e)).congr rfl rfl

/-- After loading, an entry was loaded or was there before. -/
theorem mem_loadEntries (entries : List DnsCacheEntry) :
    ∀ {c : DnsCache} {p : Query × DnsCacheEntry}, StoreInv env cap c →
      p ∈ (entries.foldl (DnsCache.loadEntry env) c).entries →
      (∃ e ∈ entries, p = (e.data.query, e)) ∨
        (p ∈ c.entries ∧ ∀ e ∈ entries, (p.1 == e.data.query) = false) := by
  induction entries with
  | nil =>
    intro c p _ hp
    exact .inr ⟨hp, fun e he => absurd he not_mem_nil⟩
  | cons e rest ih =>
    intro c p h hp
    rcases ih (loadEntry_inv h e) hp with ⟨e', he', hEq⟩ | hRest
    · exact .inl ⟨e', .tail _ he', hEq⟩
    · rcases mem_loadEntry h hRest.1 with hHead | hOld
      · exact .inl ⟨e, .head _, hHead⟩
      · refine .inr ⟨hOld.1, ?_⟩
        exact forall_mem_cons.mpr ⟨hOld.2, hRest.2⟩

variable {e : CacheEvent}

/-- What an event does to the entries, in one statement. -/
theorem mem_apply (h : BudgetInv env cap maxBytes c) (hp : p ∈ (e.apply env order c).entries) :
    e.Writes p ∨ (¬ e.Overwrites p.1 ∧ Remains c p) := by
  match e with
  | .op (.insert query recordsAndTtl now group) =>
    refine (mem_insert h.store hp).imp_right fun hOld => ⟨?_, .of_mem hOld.1⟩
    simp [CacheEvent.Overwrites, hOld.2]
  | .op (.insertNegative query resp ttl group now) =>
    refine (mem_insertNegative h.store hp).imp_right fun hOld => ⟨?_, .of_mem hOld.1⟩
    simp [CacheEvent.Overwrites, hOld.2]
  | .op (.insertRecords query records now group) =>
    refine (mem_insertRecords h hp).imp_right fun hOld => ⟨?_, .of_mem hOld.1⟩
    rintro ⟨g, hg, hKey⟩
    rw [hOld.2 g hg] at hKey
    exact absurd hKey (by decide)
  | .op (.load none) => exact .inr ⟨fun hFalse => hFalse, .of_mem hp⟩
  | .op (.load (some entries)) =>
    have hLoaded : p ∈ (entries.foldl (DnsCache.loadEntry env) c).entries :=
      mem_enforceMemoryBudget hp
    rcases mem_loadEntries entries h.store hLoaded with ⟨e, he, hEq⟩ | hOld
    · rw [hEq]
      exact .inl ⟨e, he, BEq.rfl, rfl, rfl⟩
    · refine .inr ⟨?_, .of_mem hOld.1⟩
      rintro ⟨e, he, hKey⟩
      rw [hOld.2 e he] at hKey
      cases hKey
  | .op .clear =>
    obtain ⟨s, hs, hps⟩ := mem_flatMap.mp hp
    obtain ⟨s', -, hEq⟩ := mem_map.mp hs
    rw [← hEq] at hps
    cases hps
  | .op (.get query now) =>
    refine .inr ⟨fun hFalse => hFalse, ?_⟩
    rcases (mem_touch_iff h.store).mp hp with hOld | ⟨q, hq, -, hEq⟩
    · exact .of_mem hOld.1
    · rw [hEq]
      exact ⟨q, hq, rfl, rfl, rfl, id⟩
  | .getExpired now secondsAhead baseInterval maxCount =>
    refine .inr ⟨fun hFalse => hFalse, ?_⟩
    obtain ⟨q, hq, hKey, hAged⟩ := mem_getExpired h hp
    exact ⟨q, hq, hKey, hAged.data, hAged.validUntil, hAged.marked⟩

/-! ## Histories -/

/-- The budget holds after every sequence of events. -/
theorem runEvents_inv (h : BudgetInv env cap maxBytes c) (es : List CacheEvent) :
    BudgetInv env cap maxBytes (runEvents env order c es) := by
  induction es using reverseRecOn with
  | nil => exact h
  | append_singleton es e ih =>
    rw [runEvents_concat]
    exact apply_inv ih e

/-- The last event of a history that concerns a question. -/
def LastWrite (es : List CacheEvent) (q : Query) (e : CacheEvent) : Prop :=
  ∃ before after, es = before ++ e :: after ∧ ∀ e' ∈ after, ¬ e'.Overwrites q

variable {es : List CacheEvent} {q : Query} {e' : CacheEvent}

theorem LastWrite.concat (h : LastWrite es q e) (hOther : ¬ e'.Overwrites q) :
    LastWrite (es ++ [e']) q e := by
  obtain ⟨before, after, hEq, hAfter⟩ := h
  refine ⟨before, after ++ [e'], by simp [hEq], ?_⟩
  exact forall_mem_append.mpr ⟨hAfter, forall_mem_singleton.mpr hOther⟩

/-- An event that does not concern the question is not the last write. -/
theorem LastWrite.of_concat (h : LastWrite (es ++ [e']) q e) (hWrite : e.Overwrites q)
    (hOther : ¬ e'.Overwrites q) :
    LastWrite es q e := by
  obtain ⟨before, after, hEq, hAfter⟩ := h
  rcases eq_nil_or_concat after with hNil | ⟨after', x, hConcat⟩
  · rw [hNil] at hEq
    have hSame : e' = e := singleton_inj.mp (append_inj' hEq rfl).2
    rw [hSame] at hOther
    exact absurd hWrite hOther
  · rw [concat_eq_append] at hConcat
    rw [hConcat, ← cons_append, ← append_assoc] at hEq
    have hInit : es = before ++ e :: after' := (append_inj' hEq rfl).1
    refine ⟨before, after', hInit, ?_⟩
    intro e'' he''
    exact hAfter e'' (by rw [hConcat]; exact mem_append_left _ he'')

theorem LastWrite.congr {q' : Query} (hq : (q == q') = true) (h : LastWrite es q e) :
    LastWrite es q' e := by
  obtain ⟨before, after, hEq, hAfter⟩ := h
  exact ⟨before, after, hEq, fun e' he' hOver =>
    hAfter e' he' (hOver.congr (BEq.symm hq))⟩

/-- A history has one last write of a question. -/
theorem LastWrite.unique (h : LastWrite es q e) (hWrite : e.Overwrites q) (h' : LastWrite es q e')
    (hWrite' : e'.Overwrites q) : e = e' := by
  obtain ⟨before, after, hEq, hAfter⟩ := h
  obtain ⟨before', after', hEq', hAfter'⟩ := h'
  rw [hEq] at hEq'
  rcases append_eq_append_iff.mp hEq' with ⟨mid, hMid, hRest⟩ | ⟨mid, hMid, hRest⟩
  · cases mid with
    | nil => exact (cons.inj hRest).1
    | cons x mid =>
      have hIn : e' ∈ after := by
        rw [(cons.inj hRest).2]
        simp
      exact absurd hWrite' (hAfter e' hIn)
  · cases mid with
    | nil => exact (cons.inj hRest).1.symm
    | cons x mid =>
      have hIn : e ∈ after' := by
        rw [(cons.inj hRest).2]
        simp
      exact absurd hWrite (hAfter' e hIn)

/-- An entry holds what the last event that wrote its question has written. -/
theorem produced (h : BudgetInv env cap maxBytes c) (hEmpty : c.entries = [])
    (es : List CacheEvent) :
    ∀ {p : Query × DnsCacheEntry}, p ∈ (runEvents env order c es).entries →
      ∃ e, LastWrite es p.1 e ∧ e.Writes p := by
  induction es using reverseRecOn with
  | nil =>
    intro p hp
    replace hp : p ∈ c.entries := hp
    rw [hEmpty] at hp
    cases hp
  | append_singleton es e ih =>
    intro p hp
    rw [runEvents_concat] at hp
    rcases mem_apply (runEvents_inv h es) hp with hWrites |
      ⟨hOther, q, hq, hKey, hData, hUntil, -⟩
    · exact ⟨e, ⟨es, [], rfl, by simp⟩, hWrites⟩
    · obtain ⟨e', hLast, hWrites⟩ := ih hq
      rw [← hKey] at hLast
      exact ⟨e', hLast.concat hOther, hWrites.congr hKey hData hUntil⟩

end SmartDns.Ports.CacheHistory
