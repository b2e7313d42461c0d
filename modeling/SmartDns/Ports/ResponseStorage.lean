import SmartDns.Ports.CacheRoom
import SmartDns.Ports.TtlConservation

/-!
# Storing a response

`insert_records` sorts the records of a response by owner and type, stores the
whole list for the question asked if some record answers another question, and
then stores every group for the question that its records answer. It takes the
records as they come: an owner that has nothing to do with the question asked
gets an entry like any other, and where the question asked is itself one of the
groups, that group replaces the whole list stored first. The groups stand in
the order of their first records, so a list in which the questions alternate is
not stored in its own order.
-/

namespace SmartDns.Ports.ResponseStorage

open Verified DomainName DnsMessage DnsLookup CacheStore CacheAccounting CacheContents
open PrefetchScan CacheHistory CacheRoom TtlConservation ServerRuns List

/-! ## Names that a response may speak about -/

/-- The names a response leads to from a name by its aliases. -/
inductive LeadsTo (records : List Record) (n : Name) : Name → Prop where
  | start {m : Name} (hName : (m == n) = true) : LeadsTo records n m
  | follow {m m' target : Name} {r : Record} (h : LeadsTo records n m) (hRecord : r ∈ records)
      (hOwner : (r.name == m) = true) (hTarget : r.rdata = .CNAME target)
      (hName : (m' == target) = true) : LeadsTo records n m'

variable {records : List Record}

/-- Spellings of a name are led to together. -/
theorem LeadsTo.congr {n m m' : Name} (h : LeadsTo records n m) (hName : (m' == m) = true) :
    LeadsTo records n m' := by
  cases h with
  | start hStart => exact .start (BEq.trans hName hStart)
  | follow hBefore hRecord hOwner hTarget hEnd =>
    exact .follow hBefore hRecord hOwner hTarget (BEq.trans hName hEnd)

theorem name_beq {a b : Query} (h : (a == b) = true) : (a.name == b.name) = true := by
  rw [Query.beq_iff_key] at h
  exact Name.beq_iff_toLowercase.mpr (congrArg Query.name h)

variable {query : Query}

/-- The names `insert_records` writes: the one asked for and those of the owners. -/
theorem name_of_written {g : Query × List (Record × Nat)} (hg : g ∈ writtenGroups query records) :
    g.1.name = query.name ∨ ∃ r ∈ records, g.1.name = r.name := by
  rcases (mem_writtenGroups hg).1 with hQuery | ⟨r, hr, hOwner⟩
  · exact .inl (congrArg Query.name hQuery)
  · exact .inr ⟨r, hr, congrArg Query.name hOwner⟩

/-- A name that a response leads to is the one asked for or the target of an alias. -/
theorem LeadsTo.target {n m : Name} (h : LeadsTo records n m) :
    (m == n) = true ∨ ∃ r ∈ records, ∃ target, r.rdata = .CNAME target ∧ (m == target) = true := by
  cases h with
  | start hName => exact .inl hName
  | follow _ hRecord _ hTarget hName => exact .inr ⟨_, hRecord, _, hTarget, hName⟩

/-- What is stored afterwards for a name that the response does not lead to was stored before,
as it is. -/
def BailiwickKept (records : List Record) (n : Name) (c c' : DnsCache) : Prop :=
  ∀ p ∈ c'.entries, ¬ LeadsTo records n p.1.name → p ∈ c.entries

section Bailiwick

variable {env : CacheEnv} {cap maxBytes : Nat} {c : DnsCache} {now : Nat} {group : String}

/-- Answers whose owners lead from the question stay in its bailiwick. -/
theorem kept_of_owners (h : BudgetInv env cap maxBytes c)
    (hOwners : ∀ r ∈ records, LeadsTo records query.name r.name) :
    BailiwickKept records query.name c (c.insertRecords env query records now group).1 := by
  intro p hp hForeign
  rcases mem_insertRecords h hp with ⟨g, hg, hWritten⟩ | hOld
  · have hName : (p.1.name == g.1.name) = true := name_beq hWritten.key
    have hLeads : LeadsTo records query.name g.1.name := by
      rcases name_of_written hg with hQuery | ⟨r, hr, hOwner⟩
      · exact .start (by rw [hQuery]; exact BEq.rfl)
      · rw [hOwner]
        exact hOwners r hr
    exact absurd (hLeads.congr hName) hForeign
  · exact hOld.1

/-- The group of a record is the last one for its question, whatever stands before the
groups. -/
theorem exists_group (query : Query) {r : Record} (hr : r ∈ records) :
    ∃ front g back, writtenGroups query records = front ++ g :: back ∧
      (ownerQuery r == g.1) = true ∧ (∀ g' ∈ back, (g.1 == g'.1) = false) ∧
      g.2 = (records.filter fun x => ownerQuery x == g.1).map fun x => (x, x.ttl) := by
  have hGroups := grouping records
  obtain ⟨g, hg, hOwner⟩ := hGroups.total r hr
  obtain ⟨front, back, hSplit⟩ := append_of_mem hg
  have hDistinct := hGroups.distinct
  rw [hSplit, DistinctKeys, pairwise_append, pairwise_cons] at hDistinct
  obtain ⟨first, hWritten⟩ : ∃ first, writtenGroups query records =
      first ++ records.foldl groupRecord [] := ⟨_, rfl⟩
  refine ⟨first ++ front, g, back, ?_, hOwner, hDistinct.2.1.1, hGroups.content g hg⟩
  rw [hWritten, hSplit, append_assoc]

/-- An answer kept in its bailiwick has owners that lead from the question. -/
theorem owners_of_kept (h : BudgetInv env cap maxBytes c) (hCap : 0 < cap)
    (hRoom : RoomFor env c group (writtenGroups query records))
    (hLater : ∀ p ∈ c.entries, ∀ g ∈ writtenGroups query records,
      p.2.validUntil ≠ now + secs (collapseTtl g.2).2)
    (hKept : BailiwickKept records query.name c (c.insertRecords env query records now group).1) :
    ∀ r ∈ records, LeadsTo records query.name r.name := by
  intro r hr
  by_contra hForeign
  obtain ⟨front, g, back, hGroups, hOwner, hLast, -⟩ := exists_group query hr
  rw [hGroups] at hRoom
  obtain ⟨p, hp, hWritten⟩ := insertAll_stores now hCap hLast front h hRoom
  rw [← hGroups, ← insertRecords_eq] at hp
  have hName : (r.name == p.1.name) = true :=
    name_beq (BEq.trans hOwner (BEq.symm hWritten.key))
  refine hLater p (hKept p hp fun hLeads => hForeign (hLeads.congr hName)) g ?_ hWritten.validUntil
  rw [hGroups]
  simp

end Bailiwick

/--
**Bailiwick.** In every state of a cache, storing a response leaves the entries
of names that its aliases do not lead to as they are, if they lead from the name
asked for to the owner of each of its records. Where there is room for what is
stored and no entry has the same deadline already, it does so only then.
-/
theorem bailiwick_kept (env : CacheEnv) (order : HeapOrder)
    (cacheSize expiredTtl expiredReplyTtl maxBytes : Nat) (es : List CacheEvent) (query : Query)
    (records : List Record) (now : Nat) (group : String) :
    let c := runEvents env order (DnsCache.new cacheSize expiredTtl expiredReplyTtl maxBytes) es
    let c' := (c.insertRecords env query records now group).1
    ((∀ r ∈ records, LeadsTo records query.name r.name) →
        BailiwickKept records query.name c c') ∧
      (RoomFor env c group (writtenGroups query records) →
        (∀ p ∈ c.entries, ∀ g ∈ writtenGroups query records,
          p.2.validUntil ≠ now + secs (collapseTtl g.2).2) →
        BailiwickKept records query.name c c' →
        ∀ r ∈ records, LeadsTo records query.name r.name) := by
  intro c c'
  have hInv : BudgetInv env (max cacheSize 1) maxBytes c :=
    runEvents_inv (BudgetInv.new _ _ _ _ _) es
  exact ⟨kept_of_owners hInv, owners_of_kept hInv (by omega)⟩

def bankName : Name := Name.ofLabels ["bank", "test"]

/-- The address of `bank.test`, as its own servers give it. -/
def genuineAnswer : CacheEvent :=
  .op (.insertRecords (Query.query bankName .A)
    [Record.fromRdata bankName 300 (.A 0xc0000201#32)] 0 "default")

/-- A cache that holds the address of `bank.test`. -/
def bankCache : DnsCache := runEvents exampleEnv firstOrder (DnsCache.new 4 0 0 0) [genuineAnswer]

/-- The address of `example.com` by way of `web.test`. -/
def aliasedRecords : List Record :=
  [Record.fromRdata exampleName 300 (.CNAME (Name.ofLabels ["web", "test"])),
    Record.fromRdata (Name.ofLabels ["web", "test"]) 300 exampleAddress]

theorem leadsTo_aliasedRecords {m : Name} (h : LeadsTo aliasedRecords exampleName m) :
    (m == exampleName || m == Name.ofLabels ["web", "test"]) = true := by
  rw [Bool.or_eq_true]
  refine h.target.imp_right ?_
  rintro ⟨r, hr, target, hTarget, hName⟩
  rcases mem_cons.mp hr with rfl | hRest
  · cases hTarget
    exact hName
  · rw [mem_singleton.mp hRest] at hTarget
    cases hTarget

/-- An answer for `example.com` by way of `web.test` leaves the entry of `bank.test` alone. -/
theorem bailiwick_kept_aliasedRecords :
    let c' := (bankCache.insertRecords exampleEnv exampleQuery aliasedRecords (secs 1) "default").1
    (∃ p ∈ c'.entries, ¬ LeadsTo aliasedRecords exampleQuery.name p.1.name) ∧
      BailiwickKept aliasedRecords exampleQuery.name bankCache c' := by
  refine ⟨?_, (bailiwick_kept exampleEnv firstOrder 4 0 0 0 [genuineAnswer] exampleQuery
    aliasedRecords (secs 1) "default").1 ?_⟩
  · refine ⟨_, mem_of_getElem? (rfl : _[3]? = some _), fun hLeads => ?_⟩
    exact absurd (leadsTo_aliasedRecords hLeads) (by decide +kernel)
  · have hStart : LeadsTo aliasedRecords exampleQuery.name exampleName := .start BEq.rfl
    intro r hr
    rcases mem_cons.mp hr with hAlias | hRest
    · rw [hAlias]
      exact hStart
    · rw [mem_singleton.mp hRest]
      exact .follow hStart mem_cons_self BEq.rfl rfl BEq.rfl

/-- A response to a question for `example.com` that speaks about `bank.test` as well. -/
def foreignRecords : List Record :=
  [Record.fromRdata exampleName 300 exampleAddress, Record.fromRdata bankName 300 exampleAddress]

/-- The address stored for `bank.test` is replaced by an answer about `example.com`. -/
theorem bailiwick_left :
    ¬ BailiwickKept foreignRecords exampleQuery.name bankCache
      (bankCache.insertRecords exampleEnv exampleQuery foreignRecords (secs 1) "default").1 := by
  intro hKept
  have hMem := hKept _ (.head _) ?_
  · have hUntil := congrArg (fun p => p.2.validUntil) (mem_singleton.mp hMem)
    exact absurd hUntil (by decide +kernel)
  · -- neither record is an alias
    intro hLeads
    rcases hLeads.target with hName | ⟨r, hr, target, hTarget, -⟩
    · exact absurd hName (by decide +kernel)
    · rcases mem_cons.mp hr with rfl | hRest
      · cases hTarget
      · rw [mem_singleton.mp hRest] at hTarget
        cases hTarget

/-! ## The order of the groups -/

/-- The questions that the records answer, in the order of their first records. -/
def owners (records : List Record) : List Query :=
  records.foldl (fun qs r =>
    if qs.any fun q => q == ownerQuery r then qs else qs ++ [ownerQuery r]) []

/-- The records with those for one question moved together. -/
def regroup (records : List Record) : List Record :=
  (owners records).flatMap fun q => records.filter fun r => ownerQuery r == q

theorem keys_groups (records : List Record) :
    (records.foldl groupRecord []).map Prod.fst = owners records := by
  induction records using reverseRecOn with
  | nil => rfl
  | append_singleton records r ih =>
    unfold owners at ih ⊢
    rw [foldl_append, foldl_append, foldl_cons, foldl_cons, foldl_nil, foldl_nil, groupRecord_eq,
      keys_upsert, ← ih, any_map]
    rfl

/-- What `insert_records` stores for a question that no record answers. -/
theorem groups_flatten (records : List Record) :
    (records.foldl groupRecord []).flatMap Prod.snd =
      (regroup records).map fun r => (r, r.ttl) := by
  have hContent := (grouping records).content
  rw [regroup, ← keys_groups, flatMap_map, map_flatMap]
  exact flatMap_congr hContent

theorem mem_regroup {r : Record} : r ∈ regroup records ↔ r ∈ records := by
  have hGroups := grouping records
  rw [regroup, ← keys_groups, flatMap_map, mem_flatMap]
  constructor
  · rintro ⟨g, -, hr⟩
    exact (mem_filter.mp hr).1
  · intro hr
    obtain ⟨g, hg, hOwner⟩ := hGroups.total r hr
    exact ⟨g, hg, mem_filter.mpr ⟨hr, hOwner⟩⟩

/-! ## Reading back what was stored -/

/-- A record read back for a question, as one of the records stored for it. -/
structure ServedAs (query : Query) (records : List Record) (r s : Record) : Prop where
  rdata : s.rdata = r.rdata
  dnsClass : s.dnsClass = r.dnsClass
  ttl : s.ttl ≤ r.ttl
  name : (s.name == r.name) = true ∨
    (s.name = query.name ∧ ∀ x ∈ records, x.recordType.isIpAddr = true)

/-- Two records say the same, the owner apart in a list of addresses. -/
structure SaysSame (records : List Record) (r s : Record) : Prop where
  rdata : s.rdata = r.rdata
  dnsClass : s.dnsClass = r.dnsClass
  name : (s.name == r.name) = true ∨ ∀ x ∈ records, x.recordType.isIpAddr = true

/-- Either all the records answer the question, or none does and moving together the records for
one question changes nothing that can be seen. -/
def KeepsOrder (query : Query) (records : List Record) : Prop :=
  (∀ r ∈ records, (query == ownerQuery r) = true) ∨
    ((∀ r ∈ records, (query == ownerQuery r) = false) ∧
      List.Forall₂ (SaysSame records) records (regroup records))

/-- A record of a stored list as a hit returns it, with a TTL that is not longer. -/
theorem servedAs_iff {stored : List Record} {ttl : Nat} {r s : Record}
    (hStored : ∀ x, x ∈ stored ↔ x ∈ records) (hr : r ∈ records) (hs : s ∈ records)
    (hTtl : ttl ≤ r.ttl) :
    ServedAs query records r (servedRecord query stored ttl s) ↔ SaysSame records r s := by
  rw [servedRecord_eq]
  have hRenamed : DnsCache.needsRename query stored = true →
      ∀ x ∈ records, x.recordType.isIpAddr = true := by
    intro hRename x hx
    simp only [DnsCache.needsRename, Bool.and_eq_true] at hRename
    exact all_eq_true.mp hRename.1.2.2 x ((hStored x).mpr hx)
  constructor
  · rintro ⟨hData, hClass, -, hName⟩
    refine ⟨hData, hClass, ?_⟩
    by_cases hRename : DnsCache.needsRename query stored = true
    · exact .inr (hRenamed hRename)
    · rw [if_neg hRename] at hName
      exact hName.imp_right And.right
  · rintro ⟨hData, hClass, hName⟩
    refine ⟨hData, hClass, (Nat.min_le_right _ _).trans hTtl, ?_⟩
    by_cases hRename : DnsCache.needsRename query stored = true
    · rw [if_pos hRename]
      exact .inr ⟨rfl, hRenamed hRename⟩
    · rw [if_neg hRename]
      refine .inl (hName.elim id fun hAddresses => ?_)
      -- addresses are not renamed only if all of them have the name asked for
      have hNames : ∀ x ∈ records, (x.name == query.name) = true := by
        have hAll : ∀ x ∈ stored, x.recordType.isIpAddr = true :=
          fun x hx => hAddresses x ((hStored x).mp hx)
        have hNoAlias : ∀ x ∈ stored, x.recordType ≠ .CNAME := fun x hx hAlias => by
          have hIp := hAll x hx
          rw [hAlias] at hIp
          cases hIp
        have hFilled : stored ≠ [] := ne_nil_of_mem ((hStored r).mpr hr)
        intro x hx
        by_contra hOther
        refine hRename ?_
        simp only [DnsCache.needsRename, Bool.and_eq_true, Bool.not_eq_true', any_eq_false,
          all_eq_true, any_eq_true, decide_eq_true_eq, isEmpty_eq_false_iff]
        exact ⟨⟨hNoAlias, hFilled, hAll⟩, x, (hStored x).mpr hx, eq_false_of_ne_true hOther⟩
      exact BEq.trans (hNames s hs) (BEq.symm (hNames r hr))

variable (query) in
/-- The list of records that is stored for the question in the end. -/
theorem exists_own_group (hFilled : records ≠ []) :
    ∃ front g back stored, writtenGroups query records = front ++ g :: back ∧
      (g.1 == query) = true ∧ (∀ g' ∈ back, (g.1 == g'.1) = false) ∧
      g.2 = stored.map (fun r => (r, r.ttl)) ∧
      (((∃ r ∈ records, (query == ownerQuery r) = true) ∧
          stored = records.filter fun r => query == ownerQuery r) ∨
        ((∀ r ∈ records, (query == ownerQuery r) = false) ∧ stored = regroup records)) := by
  by_cases hOwn : ∃ r ∈ records, (query == ownerQuery r) = true
  · obtain ⟨r, hr, hSame⟩ := hOwn
    obtain ⟨front, g, back, hSplit, hOwner, hLast, hContent⟩ := exists_group query hr
    have hKey : (g.1 == query) = true := BEq.symm (BEq.trans hSame hOwner)
    refine ⟨front, g, back, _, hSplit, hKey, hLast, hContent, .inl ⟨⟨r, hr, hSame⟩, ?_⟩⟩
    refine filter_congr fun x _ => ?_
    rw [Bool.eq_iff_iff]
    exact ⟨fun h => BEq.symm (BEq.trans h hKey), fun h => BEq.symm (BEq.trans hKey h)⟩
  · have hNone : ∀ r ∈ records, (query == ownerQuery r) = false :=
      fun r hr => eq_false_of_ne_true fun hSame => hOwn ⟨r, hr, hSame⟩
    obtain ⟨r, hr⟩ := exists_mem_of_ne_nil records hFilled
    have hAliased : (records.any fun r => !(query == ownerQuery r)) = true :=
      any_eq_true.mpr ⟨r, hr, by simp [hNone r hr]⟩
    refine ⟨[], (query, (records.foldl groupRecord []).flatMap Prod.snd),
      records.foldl groupRecord [], _, ?_, BEq.rfl, ?_, groups_flatten records,
      .inr ⟨hNone, rfl⟩⟩
    · unfold writtenGroups
      rw [hAliased]
      rfl
    · intro g hg
      obtain ⟨x, hx, hOwner⟩ := (grouping records).source g hg
      rw [hOwner]
      exact hNone x hx

/-- Position by position, a hit returns what was given exactly if the order was kept. -/
theorem forall₂_served_iff {stored : List Record} {ttl : Nat} (hTtl : ∀ r ∈ stored, ttl ≤ r.ttl)
    (hStored : ((∃ r ∈ records, (query == ownerQuery r) = true) ∧
        stored = records.filter fun r => query == ownerQuery r) ∨
      ((∀ r ∈ records, (query == ownerQuery r) = false) ∧ stored = regroup records)) :
    List.Forall₂ (ServedAs query records) records (stored.map (servedRecord query stored ttl)) ↔
      KeepsOrder query records := by
  have hServed : (∀ x, x ∈ stored ↔ x ∈ records) →
      (List.Forall₂ (ServedAs query records) records (stored.map (servedRecord query stored ttl)) ↔
        List.Forall₂ (SaysSame records) records stored) := by
    intro hSame
    rw [forall₂_map_right_iff, forall₂_iff_zip, forall₂_iff_zip]
    refine and_congr_right fun _ => forall_congr' fun r => forall_congr' fun s =>
      forall_congr' fun hPair => ?_
    obtain ⟨hr, hs⟩ := of_mem_zip hPair
    exact servedAs_iff hSame hr ((hSame s).mp hs) (hTtl r ((hSame r).mpr hr))
  rcases hStored with ⟨⟨r, hr, hOwn⟩, rfl⟩ | ⟨hNone, rfl⟩
  · constructor
    · intro hAll
      refine .inl ?_
      have hLength := hAll.length_eq
      rw [length_map] at hLength
      exact filter_eq_self.mp (filter_sublist.eq_of_length hLength.symm)
    · rintro (hAll | ⟨hNone, -⟩)
      · rw [filter_eq_self.mpr hAll] at hServed ⊢
        refine (hServed fun _ => Iff.rfl).mpr (forall₂_same.mpr fun x _ => ?_)
        exact ⟨rfl, rfl, .inl BEq.rfl⟩
      · rw [hNone r hr] at hOwn
        cases hOwn
  · rw [hServed fun _ => mem_regroup]
    refine ⟨fun h => .inr ⟨hNone, h⟩, fun h => h.elim (fun hAll => ?_) And.right⟩
    have hEmpty : records = [] := by
      rw [eq_nil_iff_forall_not_mem]
      intro x hx
      have hOwn := hAll x hx
      rw [hNone x hx] at hOwn
      cases hOwn
    rw [hEmpty]
    exact .nil

/--
**Store, then read.** In every state of a cache with room for the groups of a
list of records that has one of the type asked for: a lookup at the moment of
storing returns the records in their order, up to their TTLs and to the owners
of addresses, exactly if all of them answer the question asked, or none does and
moving together the records for one question changes nothing that can be seen.
-/
theorem stored_records_returned_iff (env : CacheEnv) (order : HeapOrder)
    (cacheSize expiredTtl expiredReplyTtl maxBytes : Nat) (es : List CacheEvent) (query : Query)
    (records : List Record) (now : Nat) (group : String)
    (hType : ∃ r ∈ records, r.recordType = query.queryType)
    (hRoom : RoomFor env
      (runEvents env order (DnsCache.new cacheSize expiredTtl expiredReplyTtl maxBytes) es) group
      (writtenGroups query records)) :
    (∃ res status,
      ((((runEvents env order (DnsCache.new cacheSize expiredTtl expiredReplyTtl maxBytes)
        es).insertRecords env query records now group).1).get env query now).2 =
          some (res, status) ∧
      List.Forall₂ (ServedAs query records) records res.records) ↔ KeepsOrder query records := by
  have hInv := BudgetInv.new env cacheSize expiredTtl expiredReplyTtl maxBytes
  have hState : BudgetInv env _ maxBytes (runEvents env order _ es) := runEvents_inv hInv es
  have hFilled : records ≠ [] := by
    obtain ⟨r, hr, -⟩ := hType
    exact ne_nil_of_mem hr
  obtain ⟨front, g, back, stored, hGroups, hKey, hLast, hContent, hStored⟩ :=
    exists_own_group query hFilled
  rw [hGroups] at hRoom
  obtain ⟨p, hp, hWritten⟩ := insertAll_stores now (by omega) hLast front hState hRoom
  rw [← hGroups, ← insertRecords_eq] at hp
  have hGet := (get_eq_some (hState.insertRecords query records now group).store).mpr
    ⟨p, hp, BEq.trans hWritten.key hKey, entryReply_eq _ query now p.2⟩
  have hAnswers : p.2.data.message.answers = stored := by
    rw [hWritten.data]
    show g.2.map Prod.fst = stored
    rw [hContent, map_map]
    exact map_id stored
  have hTtl : ∀ r ∈ stored, servedTtl (DnsCache.insertRecords env
      (runEvents env order (DnsCache.new cacheSize expiredTtl expiredReplyTtl maxBytes) es) query
      records now group).1 now p.2 ≤ r.ttl := by
    intro r hr
    have hCurrent : p.2.isCurrent now = true :=
      decide_eq_true (by rw [hWritten.validUntil]; exact Nat.le_add_right _ _)
    have hLe := collapseTtl_le (show (r, r.ttl) ∈ g.2 by
      rw [hContent]
      exact mem_map_of_mem hr)
    rw [servedTtl, if_pos hCurrent, DnsCacheEntry.ttl, hWritten.validUntil, Nat.add_sub_cancel_left]
    unfold asSecsU32 secs
    omega
  refine Iff.trans ?_ (forall₂_served_iff hTtl hStored)
  rw [hGet, hAnswers]
  simp only [Option.some.injEq, Prod.mk.injEq, and_assoc, exists_eq_left', exists_and_left]
  show List.Forall₂ _ records (DnsResponse.mapAnswers _ _).message.answers ↔ _
  rw [DnsResponse.mapAnswers_answers, hAnswers]

/-- An empty cache of four entries without a budget has room for four groups. -/
theorem roomFor_new {group : String} {groups : List (Query × List (Record × Nat))}
    (hFew : groups.length ≤ 4) :
    RoomFor exampleEnv (runEvents exampleEnv firstOrder (DnsCache.new 4 0 0 0) []) group
      groups := by
  refine ⟨?_, .inl rfl⟩
  intro i s hs
  have hCap : s.cap = 4 := by
    obtain ⟨j, -, hj⟩ := mem_map.mp (mem_of_getElem? hs)
    rw [← hj]
    rfl
  rw [hCap]
  exact (length_filter_le _ _).trans hFew

theorem stored_records_returned_aliasedRecords :
    ∃ res status,
      (((runEvents exampleEnv firstOrder (DnsCache.new 4 0 0 0) []).insertRecords exampleEnv
        exampleQuery aliasedRecords 0 "default").1.get exampleEnv exampleQuery 0).2 =
          some (res, status) ∧
      List.Forall₂ (ServedAs exampleQuery aliasedRecords) aliasedRecords res.records :=
  (stored_records_returned_iff exampleEnv firstOrder 4 0 0 0 [] exampleQuery aliasedRecords 0
    "default" ⟨_, .tail _ mem_cons_self, rfl⟩ (roomFor_new (by decide +kernel))).mpr
    (.inr ⟨by decide +kernel, forall₂_same.mpr fun _ _ => ⟨rfl, rfl, .inl BEq.rfl⟩⟩)

/-- Addresses of two servers, in turns. -/
def alternatingRecords : List Record :=
  [Record.fromRdata (Name.ofLabels ["one", "test"]) 300 (.A 0xc0000201#32),
    Record.fromRdata (Name.ofLabels ["two", "test"]) 300 (.A 0xc0000202#32),
    Record.fromRdata (Name.ofLabels ["one", "test"]) 300 (.A 0xc0000203#32)]

/-- The records are stored for the question and something else is read back. -/
def ReadsOther (query : Query) (records : List Record) : Prop :=
  (∃ r ∈ records, r.recordType = query.queryType) ∧
    RoomFor exampleEnv (runEvents exampleEnv firstOrder (DnsCache.new 4 0 0 0) []) "default"
      (writtenGroups query records) ∧
    ∃ res status,
      (((runEvents exampleEnv firstOrder (DnsCache.new 4 0 0 0) []).insertRecords exampleEnv query
        records 0 "default").1.get exampleEnv query 0).2 = some (res, status) ∧
      ¬ List.Forall₂ (ServedAs query records) records res.records

/-- The alias alone is read back where it was asked for, and addresses in another order. -/
theorem stored_records_lost :
    ReadsOther (Query.query exampleName .CNAME) aliasedRecords ∧
      ReadsOther exampleQuery alternatingRecords := by
  constructor
  · refine ⟨⟨_, .head _, rfl⟩, roomFor_new (by decide +kernel), _, _, rfl, ?_⟩
    intro h
    exact absurd h.length_eq (by decide +kernel)
  · refine ⟨⟨_, .head _, rfl⟩, roomFor_new (by decide +kernel), _, _, rfl, ?_⟩
    intro h
    cases h with
    | cons _ hRest =>
      cases hRest with
      | cons hSecond _ => exact absurd hSecond.rdata (by decide +kernel)

end SmartDns.Ports.ResponseStorage
