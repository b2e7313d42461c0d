import SmartDns.Ports.RuleChain

/-!
# Leases of the local network

The store reads up to two lease files, one of dnsmasq and one of odhcpd, into
one table of hosts. A forward lookup looks at the files at most every two
seconds, and reads them again if the newer of their two times is another one
than at the last reading. A change of the older file that leaves it the older
one goes unseen. A reverse lookup never looks at the files: it answers from what
the last forward lookup left.
-/

namespace SmartDns.Ports.LeaseFiles

open DomainName DnsMessage PatternMap RuleChain List Option

/-- What lookups read of a lease. -/
structure ClientInfo where
  ip : IpAddr
  host : Name

/-- The zone of a store, and what it takes from elsewhere: the lease on a line, in the format of
odhcpd or of dnsmasq, and how names are extended and written. -/
structure LanClientStore (κ Line : Type) extends NameLib κ where
  zone : Option Name
  parse : Bool → Line → Option ClientInfo
  appendName : Name → Name → Option Name
  appendDomain : Name → Name → Option Name
  display : Name → String
  display_fqdn : ∀ n : Name, n.isFqdn = true → display n ≠ "*"

structure LeaseFile (Line : Type) where
  mtime : Nat
  /-- Nothing if the file cannot be opened. -/
  lines : Option (List Line)

/-- The files that are configured and there. -/
structure Disk (Line : Type) where
  file : Option (LeaseFile Line)
  odhcpdFile : Option (LeaseFile Line)

/-- The tables; that of the addresses has the last insertion first. -/
structure LeaseMappings (κ : Type) where
  nameToClient : DomainMap κ ClientInfo
  ipToClient : List (IpAddr × ClientInfo)

structure LeaseCache (κ : Type) where
  mappings : LeaseMappings κ
  modifiedAt : Option Nat
  checkedAt : Nat

variable {κ Line : Type} [DecidableEq κ] {disk : Disk Line} {now : Nat}

def leaseMtime (disk : Disk Line) : Option Nat :=
  match disk.file.map (·.mtime), disk.odhcpdFile.map (·.mtime) with
  | some primary, some odhcpd => some (max primary odhcpd)
  | primary, odhcpd => primary.or odhcpd

/-- `LEASE_FILE_STAT_INTERVAL`, in milliseconds. -/
def statInterval : Nat := 2000

namespace LanClientStore

variable (store : LanClientStore κ Line)

/-! ## Reading -/

/-- A name with the zone. -/
def hostName (name : Name) : Name :=
  ((store.zone.bind (store.appendName name)).getD name).setFqdn true

def collectLeaseFile (odhcpd : Bool) (file : Option (LeaseFile Line)) : Option (List ClientInfo) :=
  (file.bind (·.lines)).map fun lines =>
    (lines.filterMap (store.parse odhcpd)).map fun client =>
      { client with host := store.hostName client.host }

/-- The leases of both files, in the order of insertion; one has to be readable. -/
def leases (disk : Disk Line) : Option (List ClientInfo) :=
  match store.collectLeaseFile false disk.file, store.collectLeaseFile true disk.odhcpdFile with
  | none, none => none
  | primary, odhcpd => some (primary.getD [] ++ odhcpd.getD [])

/-- `WildcardName::from`. -/
def patternOf (host : Name) : WildcardName :=
  if host.isWildcard then .Sub ⟨[]⟩ host.baseName else .Default host

def mappings (leases : List ClientInfo) : LeaseMappings κ where
  nameToClient := .ofList store.toNameLib (leases.map fun c => (patternOf c.host, c))
  ipToClient := leases.reverse.map fun c => (c.ip, c)

def readLeaseFiles (disk : Disk Line) : Option (LeaseMappings κ) :=
  (store.leases disk).map store.mappings

/-! ## Lookups -/

/-- `cached_clients`: what it leaves in the cache, and returns. -/
def cachedClients (disk : Disk Line) (now : Nat) : Option (LeaseCache κ) → Option (LeaseCache κ)
  | none => (store.readLeaseFiles disk).map fun read => ⟨read, leaseMtime disk, now⟩
  | some cache =>
    if now - cache.checkedAt < statInterval then some cache
    else if cache.modifiedAt = leaseMtime disk then some { cache with checkedAt := now }
    else match store.readLeaseFiles disk with
      | some read => some ⟨read, leaseMtime disk, now⟩
      | none => some { cache with checkedAt := now }

/-- The client of a name, which is tried with the zone as well. -/
def findClient (clients : DomainMap κ ClientInfo) (name : Name) : Option ClientInfo :=
  let name := if name.isFqdn then name else store.hostName name
  (clients.find store.toNameLib name).or <|
    match store.zone with
    | some z =>
      if z.zoneOf name then none
      else (store.appendDomain name z).bind (clients.find store.toNameLib)
    | none => none

/-- The answer of the tables to a forward lookup. -/
def answer (name : Name) (recordType : RecordType) (tables : LeaseMappings κ) : Option RData :=
  (store.findClient tables.nameToClient name).bind fun client =>
    if client.ip.toRData.recordType = recordType then some client.ip.toRData else none

/-- `LanClientStore::lookup`, with the cache it leaves. -/
def lookup (disk : Disk Line) (now : Nat) (cache : Option (LeaseCache κ)) (name : Name)
    (recordType : RecordType) : Option RData × Option (LeaseCache κ) :=
  if recordType = .A ∨ recordType = .AAAA then
    let cache := store.cachedClients disk now cache
    (cache.bind fun c => store.answer name recordType c.mappings, cache)
  else (none, cache)

def reverseLookup (cache : Option (LeaseCache κ)) (ip : IpAddr) : Option RData :=
  cache.bind fun c => (c.mappings.ipToClient.lookup ip).bind fun client =>
    if store.display client.host ≠ "*" then some (.PTR client.host) else none

/-- The cache after lookups of addresses, each with the files as they were and its time. -/
def run (past : List (Disk Line × Nat)) : Option (LeaseCache κ) :=
  past.foldl (fun cache x => store.cachedClients x.1 x.2 cache) none

/-! ## Freshness -/

/-- The cache was read off files as they were at an earlier lookup. -/
def ReadFrom (past : List (Disk Line × Nat)) (cache : Option (LeaseCache κ)) : Prop :=
  ∀ c ∈ cache, ∃ x ∈ past, c.modifiedAt = leaseMtime x.1 ∧
    store.readLeaseFiles x.1 = some c.mappings

/-- The last look at the files is two seconds old, and the newer of the two times tells the
files from those read before. -/
structure Due (past : List (Disk Line × Nat)) (disk : Disk Line) (now : Nat) : Prop where
  checked : ∀ c ∈ store.run past, statInterval ≤ now - c.checkedAt
  told : ∀ x ∈ past, leaseMtime x.1 = leaseMtime disk →
    store.readLeaseFiles x.1 = store.readLeaseFiles disk

variable {store} {past : List (Disk Line × Nat)}

theorem ReadFrom.cachedClients {cache : Option (LeaseCache κ)} (h : store.ReadFrom past cache) :
    store.ReadFrom (past ++ [(disk, now)]) (store.cachedClients disk now cache) := by
  have hNew : ∀ read, store.readLeaseFiles disk = some read →
      store.ReadFrom (past ++ [(disk, now)]) (some ⟨read, leaseMtime disk, now⟩) := by
    rintro read hRead c ⟨⟩
    exact ⟨(disk, now), by simp, rfl, hRead⟩
  cases cache with
  | none =>
    rw [LanClientStore.cachedClients]
    cases hRead : store.readLeaseFiles disk with
    | none => nofun
    | some read => exact hNew read hRead
  | some cache =>
    obtain ⟨x, hx, hSource⟩ := h cache rfl
    have hOld : ∀ at', store.ReadFrom (past ++ [(disk, now)])
        (some { cache with checkedAt := at' }) := by
      rintro at' c ⟨⟩
      exact ⟨x, mem_append_left _ hx, hSource⟩
    rw [LanClientStore.cachedClients]
    split
    · exact hOld cache.checkedAt
    · split
      · exact hOld now
      · split
        · rename_i read hRead
          exact hNew read hRead
        · exact hOld now

/-- The cache was read off files as they were at an earlier lookup. -/
theorem readFrom_run (past : List (Disk Line × Nat)) : store.ReadFrom past (store.run past) := by
  induction past using reverseRecOn with
  | nil => nofun
  | append_singleton past x ih =>
    rw [run, foldl_append]
    exact ih.cachedClients

/-- A lookup that is due leaves the tables of the current files. -/
theorem Due.cachedClients (h : store.Due past disk now) {held : List ClientInfo}
    (hHeld : store.leases disk = some held) :
    ∃ c, store.cachedClients disk now (store.run past) = some c ∧
      c.mappings = store.mappings held := by
  have hRead : store.readLeaseFiles disk = some (store.mappings held) := by
    rw [readLeaseFiles, hHeld]
    rfl
  cases hCache : store.run past with
  | none => exact ⟨⟨_, _, now⟩, by rw [LanClientStore.cachedClients, hRead]; rfl, rfl⟩
  | some c =>
    obtain ⟨x, hx, hTime, hSource⟩ := readFrom_run past c hCache
    rw [LanClientStore.cachedClients, if_neg (Nat.not_lt.mpr (h.checked c hCache))]
    split
    · rename_i hSame
      rw [h.told x hx (hTime.symm.trans hSame), hRead] at hSource
      exact ⟨_, rfl, (some.inj hSource).symm⟩
    · rw [hRead]
      exact ⟨_, rfl, rfl⟩

/-- A lookup of an address that is due answers from the current files. -/
theorem lookup_current (h : store.Due past disk now) (name : Name) (recordType : RecordType)
    (hType : recordType = .A ∨ recordType = .AAAA)
    (hReadable : (store.leases disk).isSome = true) :
    (store.lookup disk now (store.run past) name recordType).1 =
      (store.readLeaseFiles disk).bind (store.answer name recordType) := by
  obtain ⟨held, hHeld⟩ := isSome_iff_exists.mp hReadable
  obtain ⟨c, hCache, hTables⟩ := h.cachedClients hHeld
  rw [lookup, if_pos hType, hCache, readLeaseFiles, hHeld, map_some, ← hTables]
  rfl

/-- Lines that are leases, and no zone. -/
def plain : LanClientStore WildcardName ClientInfo where
  toNameLib := exampleLib
  zone := none
  parse _ := some
  appendName _ _ := none
  appendDomain _ _ := none
  display n := if n.isFqdn then "." else "*"
  display_fqdn n h := by simp [h]

def nas : Name := Name.ofLabels ["nas"]

def lanFile (mtime : Nat) (addr : BitVec 32) : Option (LeaseFile ClientInfo) :=
  some ⟨mtime, some [⟨.v4 addr, nas⟩]⟩

/-- Both files: a printer in the one, and the lease of the other, which is the newer. -/
def bothFiles (mtime : Nat) (addr : BitVec 32) : Disk ClientInfo :=
  ⟨some ⟨3, some [⟨.v4 9, Name.ofLabels ["printer"]⟩]⟩, lanFile mtime addr⟩

/-- Two lookups, and then the newer file changes. -/
theorem due_newer : plain.Due [(bothFiles 5 1, 0), (bothFiles 5 1, 500)] (bothFiles 6 2) 2000 where
  checked := by
    rintro c ⟨⟩
    decide
  told x hx hSame := by
    rcases mem_pair.mp hx with rfl | rfl
    · cases hSame
    · cases hSame

theorem lookup_current_nas : (plain.lookup (bothFiles 6 2) 2000
    (plain.run [(bothFiles 5 1, 0), (bothFiles 5 1, 500)]) nas .A).1 = some (.A 2) := by
  rw [lookup_current due_newer nas .A (.inl rfl) rfl]
  decide +kernel

/-- The lease in the older file changes, and the lookup does not see it. -/
theorem lookup_stale :
    let disk addr : Disk ClientInfo := ⟨some ⟨10, some []⟩, addr⟩
    (plain.lookup (disk (lanFile 6 2)) 2000 (plain.run [(disk (lanFile 5 1), 0)]) nas .A).1 =
        some (.A 1) ∧
      (plain.readLeaseFiles (disk (lanFile 6 2))).bind (plain.answer nas .A) = some (.A 2) := by
  decide +kernel

/-! ## Names of addresses -/

/-- An address finds the last client that holds it. -/
theorem lookup_ipToClient (held : List ClientInfo) (ip : IpAddr) :
    (store.mappings held).ipToClient.lookup ip = held.reverse.find? fun c => ip == c.ip := by
  show (held.reverse.map fun c => (c.ip, c)).lookup ip = _
  induction held.reverse with
  | nil => rfl
  | cons c rest ih => rw [map_cons, lookup_cons, find?_cons, ih]

/-- What is found in a map was put there. -/
theorem mem_of_find {T : Type} {lib : NameLib κ} {entries : List (WildcardName × T)} {name : Name}
    {v : T} (h : (DomainMap.ofList lib entries).find lib name = some v) :
    ∃ e ∈ entries, e.2 = v := by
  have hLatest : ∀ p, latest entries p = some v → ∃ e ∈ entries, e.2 = v := by
    intro p hp
    obtain ⟨e, hFind, hEq⟩ := map_eq_some_iff.mp hp
    exact ⟨e, mem_reverse.mp (mem_of_find?_eq_some hFind), hEq⟩
  have hSpec : ∀ m, lookupSpec lib entries m = some v → ∃ e ∈ entries, e.2 = v := by
    intro m hm
    obtain ⟨p, -, hValue⟩ := bind_eq_some_iff.mp hm
    exact hLatest _ hValue
  rw [find_ofList_eq_climb] at h
  split at h
  · exact hSpec _ h
  · simp only [or_eq_some_iff] at h
    rcases h with h | ⟨-, h | ⟨-, h⟩⟩
    · exact hLatest _ h
    · exact hLatest _ h
    · exact hSpec _ h

theorem mem_of_findClient {held : List ClientInfo} {name : Name} {client : ClientInfo}
    (h : store.findClient (store.mappings held).nameToClient name = some client) :
    client ∈ held := by
  have hMem : ∀ n, (store.mappings held).nameToClient.find store.toNameLib n = some client →
      client ∈ held := by
    intro n hn
    obtain ⟨e, he, hEq⟩ := mem_of_find hn
    obtain ⟨c, hc, rfl⟩ := mem_map.mp he
    exact hEq ▸ hc
  unfold findClient at h
  generalize (if name.isFqdn then name else store.hostName name) = full at h
  rcases or_eq_some_iff.mp h with h | ⟨-, h⟩
  · exact hMem _ h
  · split at h
    · split at h
      · cases h
      · obtain ⟨n, -, hn⟩ := bind_eq_some_iff.mp h
        exact hMem n hn
    · cases h

omit [DecidableEq κ] in
/-- The clients of a lease file have fully qualified names. -/
theorem leases_fqdn {held : List ClientInfo} (h : store.leases disk = some held)
    {client : ClientInfo} (hMem : client ∈ held) : client.host.isFqdn = true := by
  have hFile : ∀ odhcpd file, ∀ c ∈ (store.collectLeaseFile odhcpd file).getD [],
      c.host.isFqdn = true := by
    intro odhcpd file c hc
    unfold collectLeaseFile at hc
    cases hLines : file.bind (·.lines) with
    | none => simp [hLines] at hc
    | some lines =>
      rw [hLines] at hc
      obtain ⟨c', -, rfl⟩ := mem_map.mp hc
      rfl
  unfold leases at h
  split at h
  · cases h
  · rw [← some.inj h] at hMem
    rcases mem_append.mp hMem with hMem | hMem
    · exact hFile _ _ _ hMem
    · exact hFile _ _ _ hMem

/-- A reverse lookup after a forward lookup that is due and finds the address: it names the
host of the current lease. -/
theorem reverseLookup_after_lookup (h : store.Due past disk now) {host : Name} {ip : IpAddr}
    {recordType : RecordType} {held : List ClientInfo} (hHeld : store.leases disk = some held)
    (hFound : (store.lookup disk now (store.run past) host recordType).1 = some ip.toRData)
    (hSingle : ∀ client ∈ held, client.ip = ip → client.host = host) :
    store.reverseLookup (store.lookup disk now (store.run past) host recordType).2 ip =
      some (.PTR host) := by
  obtain ⟨c, hCache, hTables⟩ := h.cachedClients hHeld
  unfold lookup at hFound ⊢
  split at hFound
  · rename_i hType
    rw [if_pos hType]
    simp only [hCache, bind_some, reverseLookup, hTables, lookup_ipToClient] at hFound ⊢
    obtain ⟨client, hClient, hAnswer⟩ := bind_eq_some_iff.mp hFound
    have hIp : client.ip = ip := by
      split at hAnswer
      · have hEq := some.inj hAnswer
        cases hOne : client.ip <;> cases ip <;> simp_all [IpAddr.toRData]
      · cases hAnswer
    obtain ⟨last, hLast⟩ : ∃ last, held.reverse.find? (fun c => ip == c.ip) = some last :=
      isSome_iff_exists.mp (find?_isSome.mpr
        ⟨client, mem_reverse.mpr (mem_of_findClient hClient), by simp [hIp]⟩)
    have hMem : last ∈ held := mem_reverse.mp (mem_of_find?_eq_some hLast)
    have hSame : ip = last.ip := by simpa using find?_some hLast
    rw [hLast, bind_some, if_pos (store.display_fqdn _ (leases_fqdn hHeld hMem)),
      hSingle last hMem hSame.symm]
  · cases hFound

theorem reverseLookup_nas : plain.reverseLookup (plain.lookup (bothFiles 6 2) 2000
    (plain.run [(bothFiles 5 1, 0), (bothFiles 5 1, 500)]) nas .A).2 (.v4 2) =
      some (.PTR nas) := by
  refine reverseLookup_after_lookup due_newer rfl (by decide +kernel) ?_
  rintro client hMem hAddr
  rcases mem_pair.mp hMem with rfl | rfl
  · cases hAddr
  · decide

/-- Without a forward lookup before it, a reverse lookup knows no lease. -/
theorem reverseLookup_unread :
    (plain.lookup ⟨none, lanFile 5 1⟩ 0 none nas .A).1 = some (.A 1) ∧
      plain.reverseLookup none (.v4 1) = none := by
  decide +kernel

/-- Reverse lookups answer from the files as they were at one lookup: the last lease counts. -/
theorem reverseLookup_snapshot : store.run past = none ∨
    ∃ x ∈ past, ∃ held, store.leases x.1 = some held ∧ ∀ ip,
      store.reverseLookup (store.run past) ip =
        (held.reverse.find? fun c => ip == c.ip).map fun c => .PTR c.host := by
  cases hCache : store.run past with
  | none => exact .inl rfl
  | some cache =>
    obtain ⟨x, hx, -, hRead⟩ := readFrom_run past cache hCache
    obtain ⟨held, hHeld, hTables⟩ := map_eq_some_iff.mp hRead
    refine .inr ⟨x, hx, held, hHeld, fun ip => ?_⟩
    rw [reverseLookup, bind_some, ← hTables, lookup_ipToClient]
    cases hFind : held.reverse.find? fun c => ip == c.ip with
    | none => rfl
    | some client =>
      have hMem := mem_reverse.mp (mem_of_find?_eq_some hFind)
      exact if_pos (store.display_fqdn _ (leases_fqdn hHeld hMem))

end LanClientStore

end SmartDns.Ports.LeaseFiles
