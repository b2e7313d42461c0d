import Mathlib.Logic.Relation
import SmartDns.Ports.AddressFrame
import SmartDns.Ports.ChainRules

/-!
# Addresses and the aliases that lead to them

An answer is connected if each of its addresses belongs to the name asked for, or
to a name that the aliases of the answer lead to. What the server does to the
records of an answer may break this: it drops records beyond a limit, it strips
aliases, it sorts records into groups before it stores them and it renames those
it finds again.

`Sound` collects what an answer needs so that neither the limit nor the stripping
does any harm later on, and this module shows which of the operations on records
keep it. Names are compared as everywhere, by their labels in lower case.
-/

namespace SmartDns.Ports.AliasChains

open DomainName DnsMessage DnsLookup RequestContext CacheStore CacheContents InnerChain OuterChain
open ChainRules AddressFrame List

/-! ## Chains of aliases -/

/-- Some record makes the first name an alias of the second. -/
def Follows (records : List Record) (a b : List Label) : Prop :=
  ∃ x ∈ records, ∃ target, x.rdata = .CNAME target ∧ x.name.lowerLabels = a ∧ target.lowerLabels = b

/-- The aliases among the records lead from one name to the other. -/
def Reaches (records : List Record) (name other : Name) : Prop :=
  Relation.ReflTransGen (Follows records) name.lowerLabels other.lowerLabels

/-- Every address belongs to the name, or to one that it is an alias of. -/
def Connected (name : Name) (records : List Record) : Prop :=
  ∀ x ∈ records, x.recordType.isIpAddr = true → Reaches records name x.name

/-- Every address belongs to the name itself. -/
def Direct (name : Name) (records : List Record) : Prop :=
  ∀ x ∈ records, x.recordType.isIpAddr = true → x.name.lowerLabels = name.lowerLabels

def NoAddress (records : List Record) : Prop := ∀ x ∈ records, x.recordType.isIpAddr = false

def AllAddresses (records : List Record) : Prop :=
  records ≠ [] ∧ ∀ x ∈ records, x.recordType.isIpAddr = true

/-- No alias comes after an address. -/
def AliasesFirst (records : List Record) : Prop :=
  records.Pairwise fun a b => a.recordType.isIpAddr = true → b.recordType ≠ .CNAME

variable {name : Name}

/-- More aliases reach more names. -/
theorem Reaches.mono {records records' : List Record} {other : Name}
    (hAliases : ∀ a b, Follows records a b → Follows records' a b)
    (h : Reaches records name other) :
    Reaches records' name other :=
  Relation.ReflTransGen.mono hAliases _ _ h

theorem Direct.connected {records : List Record} (h : Direct name records) :
    Connected name records := by
  intro x hx hAddress
  rw [Reaches, h x hx hAddress]

theorem NoAddress.direct {records : List Record} (h : NoAddress records) (name : Name) :
    Direct name records := by
  intro x hx hAddress
  exact absurd hAddress (by simp [h x hx])

variable {kept : List Record}

theorem Direct.subset {records : List Record} (h : Direct name records)
    (hKept : ∀ x ∈ kept, x ∈ records) : Direct name kept :=
  fun x hx hAddress => h x (hKept x hx) hAddress

/-- Without aliases, nothing else is connected. -/
theorem connected_iff_direct {records : List Record} (h : ∀ x ∈ records, x.recordType ≠ .CNAME) :
    Connected name records ↔ Direct name records := by
  refine ⟨?_, Direct.connected⟩
  intro hConnected x hx hAddress
  rcases Relation.ReflTransGen.cases_tail (hConnected x hx hAddress) with hSame | ⟨b, -, hStep⟩
  · exact hSame
  · obtain ⟨y, hy, target, hTarget, -⟩ := hStep
    exact absurd (by rw [Record.recordType, hTarget]; rfl) (h y hy)

/-- Fewer addresses stay connected as long as no alias is lost. -/
theorem Connected.subset {records : List Record} (h : Connected name records)
    (hKept : ∀ x ∈ kept, x ∈ records) (hAliases : ∀ x ∈ records, x.recordType = .CNAME → x ∈ kept) :
    Connected name kept := by
  intro x hx hAddress
  refine (h x (hKept x hx) hAddress).mono ?_
  rintro a b ⟨y, hy, target, hTarget, hStep⟩
  exact ⟨y, hAliases y hy (by rw [Record.recordType, hTarget]; rfl), target, hTarget, hStep⟩

/-- One more alias, in front of the name that the rest of the answer is about. -/
theorem Connected.alias {target : Name} {records : List Record} (ttl : Nat)
    (h : Connected target records) :
    Connected name (Record.fromRdata name ttl (.CNAME target) :: records) := by
  intro x hx hAddress
  rcases mem_cons.mp hx with rfl | hRest
  · exact absurd hAddress Bool.false_ne_true
  · refine .head ⟨_, .head _, target, rfl, rfl, rfl⟩ ?_
    refine (h x hRest hAddress).mono ?_
    rintro a b ⟨y, hy, hStep⟩
    exact ⟨y, .tail _ hy, hStep⟩

/-! ## Sound answers -/

/-- Whether the aliases in the reply to a question are stripped. -/
def strips (cfg : RuntimeConfig) (query : Query) : Bool :=
  cfg.forceNoCname && query.queryType != .CNAME

/-- The limit on addresses is not reached, or comes after the last alias. -/
def WithinLimit (cfg : RuntimeConfig) (query : Query) (records : List Record) : Prop :=
  query.queryType.isIpAddr = true → ∀ n, cfg.maxReplyIpNum = some n → 0 < n →
    (records.countP fun x => x.recordType.isIpAddr) < n ∨ AliasesFirst records

/-- What a reply needs before its aliases are stripped. Where they are, and where there are
aliases by rule, addresses may only answer questions for addresses. -/
structure Fit (cfg : RuntimeConfig) (query : Query) (records : List Record) : Prop where
  connected : Connected query.name records
  bare : strips cfg query = true → Direct query.name records
  typed : strips cfg query = true → cfg.hasCnames = true → query.queryType.isIpAddr = false →
    NoAddress records

/-- What keeps a connected answer from harm, by the stripping and by the limit on addresses. -/
structure Harmless (cfg : RuntimeConfig) (query : Query) (records : List Record) : Prop where
  bare : strips cfg query = true → Direct query.name records
  typed : strips cfg query = true → cfg.hasCnames = true → query.queryType.isIpAddr = false →
    NoAddress records
  limited : Direct query.name records ∨ WithinLimit cfg query records

/-- What an answer needs before the limit on addresses applies. -/
structure Sound (cfg : RuntimeConfig) (query : Query) (records : List Record) : Prop
    extends Fit cfg query records, Harmless cfg query records

/-- What may be stored: also addresses of any name, because a hit renames them. -/
def Storable (cfg : RuntimeConfig) (query : Query) (records : List Record) : Prop :=
  Sound cfg query records ∨ (query.queryType.isIpAddr = true ∧ AllAddresses records)

variable {cfg : RuntimeConfig} {query query' : Query} {records : List Record}

/-- Records of the asked name alone are sound. -/
theorem Direct.sound (h : Direct query.name records)
    (hTyped : query.queryType.isIpAddr = false → NoAddress records) : Sound cfg query records where
  connected := h.connected
  bare _ := h
  typed _ _ := hTyped
  limited := .inl h

theorem NoAddress.sound (h : NoAddress records) : Sound cfg query records :=
  (h.direct query.name).sound fun _ => h

theorem Sound.congr (h : Sound cfg query records)
    (hName : query'.name.lowerLabels = query.name.lowerLabels)
    (hType : query'.queryType = query.queryType) : Sound cfg query' records where
  connected x hx hAddress := by
    rw [Reaches, hName]
    exact h.connected x hx hAddress
  bare hStrips x hx hAddress := by
    rw [hName]
    exact h.bare (by simpa [strips, hType] using hStrips) x hx hAddress
  typed hStrips hCnames hOther :=
    h.typed (by simpa [strips, hType] using hStrips) hCnames (hType ▸ hOther)
  limited := by
    refine h.limited.imp ?_ ?_
    · intro hDirect x hx hAddress
      rw [hName]
      exact hDirect x hx hAddress
    · intro hLimit hIp
      exact hLimit (hType ▸ hIp)

/-! ## Records one by one -/

/-- A rewriting of records that leaves owners, aliases and the kind of a record alone. -/
structure Faithful (f : Record → Record) : Prop where
  name : ∀ x, (f x).name = x.name
  address : ∀ x, (f x).recordType.isIpAddr = x.recordType.isIpAddr
  target : ∀ x target, (f x).rdata = .CNAME target ↔ x.rdata = .CNAME target

/-- A change that keeps names and data is faithful. -/
theorem faithful_of_rdata {f : Record → Record} (hName : ∀ x, (f x).name = x.name)
    (hData : ∀ x, (f x).rdata = x.rdata) : Faithful f where
  name := hName
  address x := by rw [Record.recordType, hData, Record.recordType]
  target x target := by rw [hData]

section Map

variable {f : Record → Record} (hf : Faithful f)

include hf

theorem Faithful.cname (x : Record) : (f x).recordType = .CNAME ↔ x.recordType = .CNAME := by
  have hType : ∀ y : Record, y.recordType = .CNAME ↔ ∃ target, y.rdata = .CNAME target := by
    intro y
    unfold Record.recordType
    cases y.rdata <;> simp [RData.recordType]
  rw [hType, hType]
  simp [hf.target]

theorem Direct.map {name : Name} (h : Direct name records) : Direct name (records.map f) := by
  intro y hy hAddress
  obtain ⟨x, hx, rfl⟩ := mem_map.mp hy
  rw [hf.address] at hAddress
  rw [hf.name]
  exact h x hx hAddress

/-- A faithful change of the records keeps them connected. -/
theorem Connected.map {name : Name} (h : Connected name records) :
    Connected name (records.map f) := by
  intro y hy hAddress
  obtain ⟨x, hx, rfl⟩ := mem_map.mp hy
  rw [hf.address] at hAddress
  rw [hf.name]
  refine (h x hx hAddress).mono ?_
  rintro a b ⟨z, hz, target, hTarget, hOwner, hStep⟩
  exact ⟨f z, mem_map_of_mem hz, target, (hf.target z target).mpr hTarget,
    by rw [hf.name, hOwner], hStep⟩

theorem NoAddress.map (h : NoAddress records) : NoAddress (records.map f) := by
  intro y hy
  obtain ⟨x, hx, rfl⟩ := mem_map.mp hy
  rw [hf.address]
  exact h x hx

theorem AllAddresses.map (h : AllAddresses records) : AllAddresses (records.map f) := by
  refine ⟨by simpa using h.1, ?_⟩
  intro y hy
  obtain ⟨x, hx, rfl⟩ := mem_map.mp hy
  rw [hf.address]
  exact h.2 x hx

theorem Fit.map (h : Fit cfg query records) : Fit cfg query (records.map f) where
  connected := h.connected.map hf
  bare hStrips := (h.bare hStrips).map hf
  typed hStrips hCnames hOther := (h.typed hStrips hCnames hOther).map hf

theorem WithinLimit.map (h : WithinLimit cfg query records) :
    WithinLimit cfg query (records.map f) := by
  intro hIp n hLimit hn
  refine (h hIp n hLimit hn).imp ?_ ?_
  · intro hCount
    rw [countP_map]
    simpa only [Function.comp_def, hf.address] using hCount
  · intro hFirst
    unfold AliasesFirst at hFirst ⊢
    rw [pairwise_map]
    simpa only [hf.address, ne_eq, hf.cname] using hFirst

theorem Sound.map (h : Sound cfg query records) : Sound cfg query (records.map f) where
  toFit := h.toFit.map hf
  limited := h.limited.imp (·.map hf) (·.map hf)

theorem Storable.map (h : Storable cfg query records) : Storable cfg query (records.map f) :=
  h.imp (·.map hf) fun hAll => ⟨hAll.1, hAll.2.map hf⟩

end Map

theorem faithful_setMaxTtl (ttl : Nat) : Faithful fun x => x.setMaxTtl ttl :=
  faithful_of_rdata (fun x => by rw [Record.setMaxTtl_eq]) fun x => by rw [Record.setMaxTtl_eq]

theorem faithful_clampTtlBounds (bounds : Option Nat × Option Nat) :
    Faithful (clampTtlBounds bounds) :=
  faithful_of_rdata (fun x => by rw [clampTtlBounds_eq]) (clampTtlBounds_rdata bounds)

theorem faithful_boundTtl (ctx : DnsContext) : Faithful (boundTtl ctx) := by
  have hSame : ∀ x, boundTtl ctx x = { x with ttl := (boundTtl ctx x).ttl } :=
    fun x => sameButTtl_boundTtl x
  exact faithful_of_rdata (fun x => by rw [hSame]) fun x => by rw [hSame]

/-- Turning an IPv4 address into a DNS64 one is faithful. -/
theorem faithful_synthesise (net : IpNetwork.Cidr 128) : Faithful (synthesise net) := by
  refine ⟨?_, ?_, ?_⟩
  · intro x
    unfold synthesise
    split <;> rfl
  all_goals
    intro x
    obtain ⟨name, ttl, dnsClass, rdata⟩ := x
    cases rdata <;> simp [synthesise, Record.recordType, RData.ipAddr, RData.recordType,
      RecordType.isIpAddr]

theorem faithful_filterHints (noIpv4Hint noIpv6Hint : Bool) :
    Faithful (filterHints noIpv4Hint noIpv6Hint) := by
  refine ⟨?_, ?_, ?_⟩
  · intro x
    unfold filterHints
    split <;> rfl
  all_goals
    intro x
    obtain ⟨name, ttl, dnsClass, rdata⟩ := x
    cases rdata <;> simp [filterHints, Record.recordType, RData.recordType]

/-! ## The limit on addresses -/

variable {n : Nat}

/-- Where the limit cuts an answer off, aliases that come first are kept. -/
theorem alias_mem_of_upToAddress (hCut : UpToAddress n records kept)
    (hFirst : AliasesFirst records) :
    ∀ x ∈ records, x.recordType = .CNAME → x ∈ kept := by
  obtain ⟨front, last, rest, hRecords, hKept, hLast, -⟩ := hCut
  intro x hx hAlias
  rw [AliasesFirst, hRecords, pairwise_append, pairwise_cons] at hFirst
  rw [hRecords, mem_append, mem_cons] at hx
  rw [hKept, mem_append, mem_singleton]
  rcases hx with hFront | hHere | hRest
  · exact .inl hFront
  · exact .inr hHere
  · exact absurd hAlias (hFirst.2.1.1 x hRest hLast)

theorem upToAddress_count (hCut : UpToAddress n records kept) :
    n ≤ records.countP fun x => x.recordType.isIpAddr := by
  obtain ⟨front, last, rest, hRecords, -, hLast, hCount⟩ := hCut
  rw [hRecords, countP_append, countP_cons, if_pos hLast]
  omega

theorem mem_of_upToAddress (hCut : UpToAddress n records kept) : ∀ x ∈ kept, x ∈ records := by
  obtain ⟨front, last, rest, hRecords, hKept, -⟩ := hCut
  intro x hx
  rw [hKept, mem_append, mem_singleton] at hx
  rw [hRecords, mem_append, mem_cons]
  exact hx.imp_right .inl

theorem Fit.subset (h : Fit cfg query records) (hConnected : Connected query.name kept)
    (hKept : ∀ x ∈ kept, x ∈ records) :
    Fit cfg query kept where
  connected := hConnected
  bare hStrips := (h.bare hStrips).subset hKept
  typed hStrips hCnames hOther x hx := h.typed hStrips hCnames hOther x (hKept x hx)

/-- Cutting sound records to the configured number leaves them fit. -/
theorem Sound.limit {ctx : DnsContext} (h : Sound ctx.cfg query records) :
    Fit ctx.cfg query (limitAddresses ctx query.queryType records).1 := by
  unfold limitAddresses
  split
  · rename_i n hLimit
    split
    · rename_i hApplies
      rw [Bool.and_eq_true, decide_eq_true_eq] at hApplies
      rcases takeAddresses_cases records hApplies.2 with hAll | hCut
      · rw [hAll]
        exact h.toFit
      · have hMem := mem_of_upToAddress hCut
        refine h.toFit.subset ?_ hMem
        rcases h.limited with hDirect | hWithin
        · exact (hDirect.subset hMem).connected
        · rcases hWithin hApplies.1 n hLimit hApplies.2 with hFew | hFirst
          · exact absurd (upToAddress_count hCut) (by omega)
          · exact h.connected.subset hMem (alias_mem_of_upToAddress hCut hFirst)
    · exact h.toFit
  · exact h.toFit

/-- The rework of a sound reply leaves it fit. -/
theorem Sound.rework {ctx : DnsContext} {r : DnsResponse}
    (h : Sound ctx.cfg query r.records) :
    Fit ctx.cfg query (reworkReply ctx query.queryType r).records := by
  cases hRebuilds : rebuilds ctx query.queryType r with
  | false =>
    rw [reworkReply_of_not_rebuilds hRebuilds]
    exact h.toFit
  | true =>
    rw [reworkReply_of_rebuilds hRebuilds]
    exact h.limit.map (faithful_boundTtl ctx)

/-! ## Storing an answer -/

/-- The records of an answer as `insert_records` stores them for the question asked. -/
def regrouped (records : List Record) : List Record :=
  ((records.foldl groupRecord []).flatMap Prod.snd).map Prod.fst

theorem groupRecord_perm (groups : List (Query × List (Record × Nat))) (record : Record) :
    ((groupRecord groups record).flatMap Prod.snd).Perm
      (groups.flatMap Prod.snd ++ [(record, record.ttl)]) := by
  rw [groupRecord_eq]
  induction groups with
  | nil => exact .refl _
  | cons g rest ih =>
    unfold Verified.upsert
    split
    · simp only [flatMap_cons, append_assoc]
      exact perm_append_comm.append_left g.2
    · simp only [flatMap_cons, append_assoc]
      exact ih.append_left g.2

/-- Grouping by owner loses no record and adds none. -/
theorem regrouped_perm (records : List Record) : (regrouped records).Perm records := by
  induction records using reverseRecOn with
  | nil => exact .refl _
  | append_singleton records record ih =>
    unfold regrouped at ih ⊢
    rw [foldl_append]
    refine ((groupRecord_perm _ record).map Prod.fst).trans ?_
    rw [map_append]
    exact ih.append_right _

/-- The questions that stand before one another in the groups. -/
theorem groups_aliasesFirst (hFirst : AliasesFirst records) :
    (records.foldl groupRecord []).Pairwise fun g g' =>
      g.1.queryType.isIpAddr = true → g'.1.queryType ≠ .CNAME := by
  induction records using reverseRecOn with
  | nil => exact .nil
  | append_singleton records record ih =>
    rw [AliasesFirst, pairwise_append] at hFirst
    have hGroups := ih hFirst.1
    rw [foldl_append]
    show (groupRecord (records.foldl groupRecord []) record).Pairwise _
    rw [← pairwise_map (f := Prod.fst)
      (R := fun q q' : Query => q.queryType.isIpAddr = true → q'.queryType ≠ .CNAME)] at hGroups ⊢
    rw [groupRecord_eq, Verified.keys_upsert]
    split
    · exact hGroups
    · rw [pairwise_append]
      refine ⟨hGroups, pairwise_singleton _ _, ?_⟩
      intro q hq q' hq'
      obtain ⟨g, hg, rfl⟩ := mem_map.mp hq
      obtain ⟨r, hr, hOwner⟩ := (grouping records).source g hg
      rw [mem_singleton.mp hq', hOwner]
      exact hFirst.2.2 r hr record (mem_singleton_self record)

/-- A record of a group has the owner and the type of the group's question. -/
theorem mem_group {g : Query × List (Record × Nat)} (hg : g ∈ records.foldl groupRecord [])
    {x : Record × Nat} (hx : x ∈ g.2) :
    x.1.name.lowerLabels = g.1.name.lowerLabels ∧ x.1.recordType = g.1.queryType := by
  rw [(grouping records).content g hg] at hx
  obtain ⟨r, hr, rfl⟩ := mem_map.mp hx
  have hKey := Query.beq_iff_key.mp (mem_filter.mp hr).2
  simp only [Query.key, Query.mk.injEq, Name.toLowercase, Name.mk.injEq] at hKey
  exact ⟨hKey.1.1, hKey.2.1⟩

theorem AliasesFirst.regrouped (hFirst : AliasesFirst records) :
    AliasesFirst (regrouped records) := by
  unfold AliasesFirst AliasChains.regrouped
  rw [pairwise_map, pairwise_flatMap]
  refine ⟨?_, ?_⟩
  · intro g hg
    refine pairwise_of_forall_mem_list ?_
    intro x hx y hy hAddress hAlias
    rw [(mem_group hg hx).2, ← (mem_group hg hy).2, hAlias] at hAddress
    cases hAddress
  · refine (groups_aliasesFirst hFirst).imp_of_mem ?_
    intro g g' hg hg' hBefore x hx y hy
    rw [(mem_group hg hx).2, (mem_group hg' hy).2]
    exact hBefore

/-- Sound records stay sound when the cache groups them by owner. -/
theorem Sound.regrouped (h : Sound cfg query records) : Sound cfg query (regrouped records) := by
  have hMem : ∀ x, x ∈ AliasChains.regrouped records ↔ x ∈ records :=
    fun x => (regrouped_perm records).mem_iff
  have hKept : ∀ x ∈ AliasChains.regrouped records, x ∈ records := fun x => (hMem x).mp
  refine { h.toFit.subset (h.connected.subset hKept fun x hx _ => (hMem x).mpr hx) hKept with
    limited := ?_ }
  refine h.limited.imp (·.subset hKept) ?_
  intro hWithin hIp n hLimit hn
  rw [(regrouped_perm records).countP_eq]
  exact (hWithin hIp n hLimit hn).imp_right AliasesFirst.regrouped

theorem AllAddresses.regrouped (h : AllAddresses records) : AllAddresses (regrouped records) := by
  refine ⟨?_, fun x hx => h.2 x ((regrouped_perm records).mem_iff.mp hx)⟩
  intro hNil
  have hPerm := regrouped_perm records
  rw [hNil] at hPerm
  exact h.1 hPerm.nil_eq.symm

/-- What `insert_records` writes: the answer, and an answer of its own for each owner. -/
theorem written_storable {group : String} (h : Storable cfg query records)
    {p : Query × DnsResponse} (hp : p ∈ written query records group) :
    Storable cfg p.1 p.2.records := by
  rw [written_eq] at hp
  obtain ⟨g, hg, rfl⟩ := mem_map.mp hp
  rcases mem_append.mp hg with hFirst | hGroup
  · split at hFirst
    · rw [mem_singleton.mp hFirst]
      exact h.imp Sound.regrouped fun hAll => ⟨hAll.1, hAll.2.regrouped⟩
    · cases hFirst
  · have hOwn : ∀ x ∈ g.2.map Prod.fst, x.name.lowerLabels = g.1.name.lowerLabels ∧
        x.recordType = g.1.queryType := by
      intro x hx
      obtain ⟨y, hy, rfl⟩ := mem_map.mp hx
      exact mem_group hGroup hy
    refine .inl (Direct.sound (fun x hx _ => (hOwn x hx).1) ?_)
    intro hOther x hx
    rw [(hOwn x hx).2]
    exact hOther

/-! ## Finding it again -/

variable {answers : List Record}

theorem names_of_not_needsRename (hAll : AllAddresses answers)
    (h : DnsCache.needsRename query answers = false) :
    ∀ x ∈ answers, x.name.lowerLabels = query.name.lowerLabels := by
  have hNoAlias : (answers.any fun r => decide (r.recordType = .CNAME)) = false := by
    rw [any_eq_false]
    intro x hx hAlias
    have hAddress := hAll.2 x hx
    rw [of_decide_eq_true hAlias] at hAddress
    cases hAddress
  have hEvery : (answers.all fun r => r.recordType.isIpAddr) = true :=
    all_eq_true.mpr hAll.2
  have hSome : answers.isEmpty = false := by simpa using hAll.1
  unfold DnsCache.needsRename at h
  rw [hNoAlias, hEvery, hSome] at h
  intro x hx
  have hSame := any_eq_false.mp h x hx
  exact (Name.beq_iff.mp (by simpa using hSame)).2

theorem allAddresses_of_needsRename (h : DnsCache.needsRename query answers = true) :
    AllAddresses answers := by
  simp only [DnsCache.needsRename, Bool.and_eq_true] at h
  obtain ⟨⟨-, hSome, hAll⟩, -⟩ := h
  exact ⟨by simpa using hSome, all_eq_true.mp hAll⟩

/-- A hit on a stored answer. -/
theorem served_sound {key : Query} (ttl : Nat) (hKey : (key == query) = true)
    (h : Storable cfg key answers) :
    Sound cfg query (answers.map (servedRecord query answers ttl)) := by
  have hSame := Query.beq_iff_key.mp hKey
  simp only [Query.key, Query.mk.injEq, Name.toLowercase, Name.mk.injEq] at hSame
  obtain ⟨⟨hName, -⟩, hType, -⟩ := hSame
  -- an answer of addresses only is stored for a question for addresses, or is sound anyway
  have hTyped : AllAddresses answers → strips cfg key = true → cfg.hasCnames = true →
      query.queryType.isIpAddr = false → False := by
    intro hAll hStrips hCnames hOther
    rw [← hType] at hOther
    rcases h with hSound | ⟨hIp, -⟩
    · obtain ⟨x, hx⟩ := exists_mem_of_ne_nil _ hAll.1
      have hNone := hSound.typed hStrips hCnames hOther x hx
      rw [hAll.2 x hx] at hNone
      cases hNone
    · rw [hIp] at hOther
      cases hOther
  have hOwned : AllAddresses answers →
      (∀ x ∈ answers, (servedRecord query answers ttl x).name.lowerLabels =
        query.name.lowerLabels) →
      Sound cfg query (answers.map (servedRecord query answers ttl)) := by
    intro hAll hNames
    have hDirect : Direct query.name (answers.map (servedRecord query answers ttl)) := by
      intro y hy _
      obtain ⟨x, hx, rfl⟩ := mem_map.mp hy
      exact hNames x hx
    exact {
      connected := hDirect.connected
      bare := fun _ => hDirect
      typed := fun hStrips hCnames hOther =>
        (hTyped hAll (by simpa [strips, hType] using hStrips) hCnames hOther).elim
      limited := .inl hDirect }
  cases hRename : DnsCache.needsRename query answers with
  | true =>
    refine hOwned (allAddresses_of_needsRename hRename) ?_
    intro x _
    rw [servedRecord, if_pos hRename, Record.setMaxTtl_eq]
    rfl
  | false =>
    have hServed : servedRecord query answers ttl = fun x => x.setMaxTtl ttl := by
      funext x
      rw [servedRecord, if_neg (by simp [hRename])]
    rcases h with hSound | ⟨-, hAll⟩
    · rw [hServed]
      exact (hSound.congr hName.symm hType.symm).map (faithful_setMaxTtl ttl)
    · refine hOwned hAll ?_
      intro x hx
      rw [hServed]
      dsimp only
      rw [Record.setMaxTtl_eq]
      exact names_of_not_needsRename hAll hRename x hx

end SmartDns.Ports.AliasChains
