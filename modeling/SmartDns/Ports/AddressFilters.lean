import SmartDns.Ports.ConnectedAnswers

/-!
# What the IP filters make of a response

A server's whitelist and blacklist, the ignored addresses and the aliases act on
an upstream response in one loop, which also keeps track of the alias lists it has
used. `expand` says what comes out, address by address: an accepted address stands
for itself, or for the addresses of its alias list if it is the first one of the list.
-/

namespace SmartDns.Ports.AddressFilters

open Verified DomainName DnsMessage DnsLookup Middleware Upstream ServerRuns LookupRules
open ConnectedAnswers List

/-! ## The specification -/

section Spec

variable (options : LookupIpOptions) (server : NameServer)

/-- In an enabled whitelist, or else in no list that speaks against it. -/
def accepted (ip : IpAddr) : Bool :=
  (server.whitelistIp && options.whitelistIp.contains ip) ||
    (!(server.blacklistIp && options.blacklistIp.contains ip) && !options.ignoreIp.contains ip)

/-- The alias list of an address. -/
def listOf (ip : IpAddr) : Option Nat := (options.ipAlias.get ip).map (·.mark)

/-- What an address stands for, after the accepted addresses `before` it. -/
def standsFor (before : List IpAddr) (ip : IpAddr) : List IpAddr :=
  match options.ipAlias.get ip with
  | none => [ip]
  | some list =>
    if before.any fun earlier => listOf options earlier == some list.mark then []
    else list.addrs.filter (ofFamily options.lookupOptions.recordType)

def expand : List IpAddr → List IpAddr → List IpAddr
  | _, [] => []
  | before, ip :: rest => standsFor options before ip ++ expand (before ++ [ip]) rest

end Spec

/-! ## The loop -/

section Loop

variable {options : LookupIpOptions} {server : NameServer}

theorem ipFilter_eq (ip : IpAddr) : ipFilter options server ip = accepted options server ip := by
  unfold ipFilter accepted
  cases server.whitelistIp && options.whitelistIp.contains ip <;>
    cases server.blacklistIp && options.blacklistIp.contains ip <;> rfl

def addresses (records : List Record) : List IpAddr := records.filterMap fun x => x.rdata.ipAddr

theorem addresses_append (xs ys : List Record) :
    addresses (xs ++ ys) = addresses xs ++ addresses ys := filterMap_append

/-- A record under other addresses has these addresses. -/
theorem addresses_substitute (record : Record) (ips : List IpAddr) :
    addresses (ips.map fun ip => { record with rdata := ip.toRData }) = ips := by
  induction ips with
  | nil => rfl
  | cons ip ips ih =>
    cases ip with
    | v4 addr => exact congrArg (cons (IpAddr.v4 addr)) ih
    | v6 addr => exact congrArg (cons (IpAddr.v6 addr)) ih

/-- The lists used so far are those of the accepted addresses `before`. -/
def Tracks (options : LookupIpOptions) (acc : Filtered) (before : List IpAddr) : Prop :=
  ∀ mark, mark ∈ acc.aliasSet ↔ ∃ ip ∈ before, listOf options ip = some mark

theorem Tracks.contains {acc : Filtered} {before : List IpAddr} (h : Tracks options acc before)
    (mark : Nat) :
    acc.aliasSet.contains mark = before.any fun ip => listOf options ip == some mark := by
  rw [Bool.eq_iff_iff, contains_iff_mem, h mark]
  simp

/-- One accepted address. -/
theorem filterRecord_step {acc : Filtered} {before : List IpAddr} {record : Record} {ip : IpAddr}
    (h : Tracks options acc before) (hIp : record.rdata.ipAddr = some ip)
    (hAccepted : accepted options server ip = true) :
    Tracks options (filterRecord options server acc record) (before ++ [ip]) ∧
      addresses (filterRecord options server acc record).answers =
        addresses acc.answers ++ standsFor options before ip := by
  have hKept : record.rdata.ipAddr.filter (ipFilter options server) = some ip := by
    rw [hIp, Option.filter_some, ipFilter_eq, if_pos hAccepted]
  have hAppend : ∀ mark, (∃ x ∈ before ++ [ip], listOf options x = some mark) ↔
      (∃ x ∈ before, listOf options x = some mark) ∨ listOf options ip = some mark := by
    simp
  unfold filterRecord standsFor
  rw [hKept]
  dsimp only
  cases hAlias : options.ipAlias.get ip with
  | none =>
    have hList : listOf options ip = none := by rw [listOf, hAlias]; rfl
    refine ⟨fun mark => ?_, ?_⟩
    · rw [hAppend, hList]
      simpa using h mark
    · simp [addresses, hIp]
  | some list =>
    have hList : listOf options ip = some list.mark := by rw [listOf, hAlias]; rfl
    dsimp only
    rw [h.contains]
    split
    · rename_i hUsed
      have hEarlier := (h.contains list.mark).trans hUsed
      refine ⟨fun mark => ?_, (append_nil _).symm⟩
      rw [hAppend, hList, h mark]
      refine (or_iff_left_of_imp ?_).symm
      rintro ⟨⟩
      exact (h list.mark).mp (contains_iff_mem.mp hEarlier)
    · refine ⟨fun mark => ?_, ?_⟩
      · rw [hAppend, hList]
        rw [mem_append, h mark, mem_singleton, Option.some.injEq, eq_comm (a := mark)]
      · rw [addresses_append, addresses_substitute]

/-- From any state of the loop, the records left expand those accepted. -/
theorem foldl_filterRecord (records : List Record) : ∀ {acc : Filtered} {before : List IpAddr},
    Tracks options acc before →
    addresses (records.foldl (filterRecord options server) acc).answers =
      addresses acc.answers ++
        expand options before ((addresses records).filter (accepted options server)) := by
  induction records with
  | nil =>
    intro acc before _
    exact (append_nil _).symm
  | cons record records ih =>
    intro acc before h
    rw [foldl_cons]
    have hSkip : record.rdata.ipAddr.filter (ipFilter options server) = none →
        filterRecord options server acc record = acc := by
      intro hNone
      rw [filterRecord, hNone]
    cases hIp : record.rdata.ipAddr with
    | none =>
      rw [hSkip (by rw [hIp]; rfl), ih h]
      simp [addresses, hIp]
    | some ip =>
      cases hAccepted : accepted options server ip with
      | false =>
        rw [hSkip (by rw [hIp, Option.filter_some, ipFilter_eq, hAccepted]; rfl), ih h]
        simp [addresses, hIp, hAccepted]
      | true =>
        obtain ⟨hTracks, hAnswers⟩ := filterRecord_step h hIp hAccepted
        rw [ih hTracks, hAnswers]
        simp [addresses, hIp, hAccepted, expand]

/-- The loop over the answers filters and expands their addresses, in order. -/
theorem filterAnswers_eq (records : List Record) :
    addresses (filterAnswers options server records).answers =
      expand options [] ((addresses records).filter (accepted options server)) :=
  foldl_filterRecord records (by simp [Tracks])

end Loop

/-! ## The law -/

/-- Nothing was left of the response. -/
def noRecords (res : DnsResponse) : Lookup :=
  .error (.proto (.noRecordsFound ⟨res.query, none, .NXDomain⟩))

theorem noRecords_ne (res r : DnsResponse) : noRecords res ≠ .ok r := by simp [noRecords]

theorem filterAnswers_isEmpty (options : LookupIpOptions) (server : NameServer)
    (records : List Record) :
    (filterAnswers options server records).answers.isEmpty = true ↔
      expand options [] ((addresses records).filter (accepted options server)) = [] := by
  rw [← filterAnswers_eq, List.isEmpty_iff, addresses, List.filterMap_eq_nil_iff]
  constructor
  · intro hNil x hx
    rw [hNil] at hx
    cases hx
  · intro hNone
    apply List.eq_nil_iff_forall_not_mem.mpr
    intro x hx
    have hAddress := filterAnswers_addresses options server records x hx
    rw [isIpAddr_iff, hNone x hx] at hAddress
    cases hAddress

/-- **The law of the IP filters**: where a filter is in force, the addresses of the result are those
that the accepted addresses of the response stand for, and there is no result exactly if there are
none. -/
theorem filter_law (group : ServerGroup) (server : NameServer) (name : Name)
    (options : LookupIpOptions) (res : DnsResponse) (hActive : unfiltered options server = false) :
    ∃ out, Prog.Yields (perNameserverLookupIp group server name options)
        [⟨.serverLookup group server name options.lookupOptions, .ok res⟩] out ∧
      (∀ r, out = .ok r →
        r.ipAddrs = expand options [] (res.ipAddrs.filter (accepted options server))) ∧
      (out = noRecords res ↔
        expand options [] (res.ipAddrs.filter (accepted options server)) = []) ∧
      ((∃ r, out = .ok r) ↔
        expand options [] (res.ipAddrs.filter (accepted options server)) ≠ []) := by
  have hOut : perServer options server (.ok res) = filterLookup options server (.ok res) :=
    if_neg (Bool.eq_false_iff.mp hActive)
  refine ⟨perServer options server (.ok res), ?_, ?_⟩
  · rw [perNameserverLookupIp_eq]
    exact .call (.done _)
  have hIps : res.ipAddrs = addresses res.records := rfl
  rw [hOut]
  have hEmpty := filterAnswers_isEmpty options server res.records
  by_cases hNone : (filterAnswers options server res.records).answers.isEmpty = true
  · have hLookup : filterLookup options server (.ok res) = noRecords res := if_pos hNone
    have hNil := hEmpty.mp hNone
    rw [hLookup]
    refine ⟨fun r hOk => absurd hOk (noRecords_ne res r), iff_of_true rfl hNil, ?_⟩
    exact ⟨fun ⟨r, hOk⟩ => absurd hOk (noRecords_ne res r), fun hSome => absurd hNil hSome⟩
  · have hLookup : ∃ r, filterLookup options server (.ok res) = .ok r ∧
        r.ipAddrs = addresses (filterAnswers options server res.records).answers :=
      ⟨_, if_neg hNone, rfl⟩
    obtain ⟨r, hOk, hAddresses⟩ := hLookup
    have hSome := fun hNil => hNone (hEmpty.mpr hNil)
    rw [hOk]
    refine ⟨?_, iff_of_false (noRecords_ne res r).symm hSome, iff_of_true ⟨r, rfl⟩ hSome⟩
    rintro r ⟨⟩
    exact hAddresses.trans (filterAnswers_eq res.records)

/-- `203.0.113.0/24` goes by the addresses of one list. -/
def aliasOptions : LookupIpOptions where
  responseStrategy := .FastestResponse
  speedCheckMode := none
  noSpeedCheck := false
  ignoreIp := []
  blacklistIp := []
  whitelistIp := []
  ipAlias := [(.v4 ⟨0xcb007100#32, 24, Nat.le_add_right 24 8⟩,
    ⟨0, [.v4 0x0a000001#32, .v4 0x0a000002#32]⟩)]
  lookupOptions := ⟨false, .A, none⟩

/-- Two addresses of the list around one that is not. -/
def mixedAnswer : DnsResponse :=
  DnsResponse.newWithMaxTtl exampleQuery
    ([0xcb007101#32, 0x5db8d822#32, 0xcb007102#32].map fun addr =>
      Record.fromRdata exampleName 300 (.A addr))

theorem filter_law_mixedAnswer :
    ∃ out, Prog.Yields (perNameserverLookupIp .default ⟨0, false, false⟩ exampleName aliasOptions)
        [⟨.serverLookup .default ⟨0, false, false⟩ exampleName aliasOptions.lookupOptions,
          .ok mixedAnswer⟩] out ∧
      ∀ r, out = .ok r → r.ipAddrs = [.v4 0x0a000001#32, .v4 0x0a000002#32, .v4 0x5db8d822#32] := by
  obtain ⟨out, hRun, hAddresses, -⟩ := filter_law .default ⟨0, false, false⟩ exampleName
    aliasOptions mixedAnswer rfl
  exact ⟨out, hRun, fun r hr => (hAddresses r hr).trans (by decide)⟩

end SmartDns.Ports.AddressFilters
