import SmartDns.Ports.AliasChains
import SmartDns.Ports.FileLayers

/-!
# Answers below the cache and the aliases they need

A client follows the aliases of a reply from the name it asked for to the addresses.
The upstream servers are taken to give answers in which this is possible. On the way to
the cache an answer may be filtered by address, which drops its aliases, or cut down to
one address by the strategies that ping.

`FromServer` says of an answer that it is connected, and which answers survive: those that
are passed on whole without harm, and those whose addresses belong to the name asked for
once the filters are through with them. Refreshes are never replied to, and what they
store is renamed when it is found.
-/

namespace SmartDns.Ports.ConnectedAnswers

open Verified DomainName DnsMessage DnsLookup RequestContext Middleware CacheStore CacheAccounting
open CacheContents Upstream InnerChain ServerRuns LookupRules ChainRules FileLayers LookupChoice
open BelowCache AliasChains List

/-! ## What is known of answers -/

/-- Whether no filter looks at the answers of a server. -/
def unfiltered (options : LookupIpOptions) (server : NameServer) : Bool :=
  !server.whitelistIp && !server.blacklistIp && options.ignoreIp.isEmpty && options.ipAlias.isEmpty

/-- The records that are left of an answer to an address query. -/
def recordsLeft (options : LookupIpOptions) (server : NameServer) (r : DnsResponse) : List Record :=
  if unfiltered options server then r.records else (filterAnswers options server r.records).answers

def optionsFor (ctx : DnsContext) (req : DnsRequest) : LookupIpOptions :=
  lookupIpOptions ctx req (lookupOptionsOf ctx req)

/-- Whether an answer is passed on as it is, if it is the one that is chosen. -/
def passedWhole (ctx : DnsContext) (req : DnsRequest) (server : NameServer) (r : DnsResponse) :
    Bool :=
  !isFiltered ctx req ||
    (unfiltered (optionsFor ctx req) server &&
      match (strategyOf (optionsFor ctx req)).1 with
      | .FirstPing => decide (r.ipAddrs.length = 1)
      | .FastestIp => false
      | .FastestResponse => true)

/-- A connected answer of an upstream server that stays connected. -/
structure FromServer (cfg : RuntimeConfig) (ctx : DnsContext) (req : DnsRequest)
    (server : NameServer) (r : DnsResponse) : Prop where
  connected : Connected req.query.name r.records
  whole : passedWhole ctx req server r = true → Harmless cfg req.query r.records
  cut : passedWhole ctx req server r = false → ctx.serverOpts.isBackground = false →
    Direct req.query.name (recordsLeft (optionsFor ctx req) server r)

/-- What the upstream servers answer while a request is resolved, and what was learned of their
own addresses. Answers for the other address family decide nothing. -/
def FromUpstream (cfg : RuntimeConfig) (ctx : DnsContext) (req : DnsRequest) :
    (o : Op) → Op.Resp o → Prop
  | .serverLookup _ server _ options, .ok r =>
    options.recordType = req.query.queryType → FromServer cfg ctx req server r
  | .localLookup query, some records =>
    query.queryType = req.query.queryType → Sound cfg req.query records
  | _, _ => True

/-- The request that is being resolved. -/
def subject (g : Ghost) : Option (DnsContext × DnsRequest) := g.current.map fun o => (o.ctx, o.req)

/-- The environment answers as described. -/
def Upheld (cfg : RuntimeConfig) (g : Ghost) (o : Op) (r : Op.Resp o) : Prop :=
  FromFiles o r ∧ ∀ ctx req, subject g = some (ctx, req) → FromUpstream cfg ctx req o r

/-! ## The contract -/

/-- Only what may be stored is stored. -/
def connectivityPre (cfg : RuntimeConfig) : Op → Ghost → Prop
  | .insertNegative query resp _ _ _, _ => Storable cfg query resp.records
  | .insertRecords query records _ _, _ => Storable cfg query records
  | _, _ => True

/-- Hits are sound, other answers are possible and as described. -/
def Promised (cfg : RuntimeConfig) (g : Ghost) : (o : Op) → Op.Resp o → Prop
  | .cacheGet query _, found =>
    ∀ res status, found = some (res, status) → Sound cfg query res.records
  | o, r => (Below o → Possible ⟨o, r⟩) ∧ Upheld cfg g o r

def connectivity (cfg : RuntimeConfig) : Contract Op Op.Resp Ghost where
  pre := connectivityPre cfg
  post o g r g' := subject g' = subject (g.track o r) ∧ Promised cfg g o r

/-- What the cache holds may be stored. -/
structure WorldSound (cfg : RuntimeConfig) (env : CacheEnv) (w : World) : Prop where
  store : ∃ cap maxBytes, BudgetInv env cap maxBytes w.cache
  entries : ∀ k d, Stores w.cache k d → Storable cfg k d.records

variable {cfg : RuntimeConfig} {env : CacheEnv}

variable {query : Query}

theorem storable_key {records : List Record} (h : Storable cfg query records) :
    Storable cfg query.key records := by
  refine h.imp (fun hSound => hSound.congr ?_ rfl) fun hAll => hAll
  exact Name.toLowercase_lowerLabels query.name

theorem WorldSound.init (cacheSize expiredTtl expiredReplyTtl maxBytes : Nat) :
    WorldSound cfg env (World.init cacheSize expiredTtl expiredReplyTtl maxBytes) :=
  ⟨⟨_, _, BudgetInv.new env cacheSize expiredTtl expiredReplyTtl maxBytes⟩,
    fun _ _ hStores => (not_stores_init hStores).elim⟩

variable {w : World} {now : Nat}

/-- What a sound cache finds is sound for the question. -/
theorem WorldSound.hit (h : WorldSound cfg env w) {res : DnsResponse} {status : CacheStatus}
    (hGet : (w.cache.get env query now).2 = some (res, status)) : Sound cfg query res.records := by
  obtain ⟨cap, maxBytes, hStore⟩ := h.store
  obtain ⟨p, hp, hKey, hReply⟩ := (get_eq_some hStore.store).mp hGet
  have hStored := h.entries p.1.key p.2.data ⟨p, hp, rfl, rfl⟩
  have hSame : (p.1.key == query) = true := by
    rw [Query.beq_iff_key] at hKey ⊢
    rw [← hKey]
    show ({ p.1 with name := ⟨p.1.name.toLowercase.lowerLabels, p.1.name.isFqdn⟩ } : Query) = _
    rw [Name.toLowercase_lowerLabels]
    rfl
  rw [entryReply_eq] at hReply
  rw [← (Prod.mk.inj hReply).1]
  exact served_sound _ hSame hStored

/-- Every operation keeps the invariant and honours the contract. -/
theorem exec_connected {w' : World} {g g' : Ghost} {o : Op} {a : Answer} {r : Op.Resp o}
    (hInv : WorldSound cfg env w) (hPre : connectivityPre cfg o g)
    (hEnv : EnvMeets (Upheld cfg) env w g o a) (hExec : exec env w g o a = some (r, w', g')) :
    (connectivity cfg).post o g r g' ∧ WorldSound cfg env w' := by
  obtain ⟨cap, maxBytes, hStore⟩ := hInv.store
  obtain ⟨hStore', hStores⟩ := exec_stores hStore hExec
  refine ⟨?_, ⟨cap, maxBytes, hStore'⟩, fun k d hStored => ?_⟩
  · cases o with
    | cacheGet query now =>
      cases a <;> cases hExec
      exact ⟨rfl, fun res status hGet => hInv.hit hGet⟩
    | _ => exact ⟨congrArg subject (exec_track hExec nofun),
        fun hBelow => possible_of_exec hBelow hExec, hEnv r w' g' hExec⟩
  · rcases hStores k d hStored with ⟨hNew, -⟩ | ⟨hOld, -⟩
    · cases o with
      | insertNegative =>
        rw [hNew.1, hNew.2]
        exact storable_key (Storable.map (faithful_setMaxTtl _) hPre)
      | insertRecords =>
        obtain ⟨p, hp, hKey, hData⟩ := hNew
        rw [hKey, hData]
        exact storable_key (written_storable hPre hp)
      | _ => exact hNew.elim
    · exact hInv.entries k d hOld

/-! ## Below the cache -/

section Below

variable {ctx : DnsContext} {req : DnsRequest}

/-- What the layers below the cache rely on while a request is resolved. -/
def Relied (cfg : RuntimeConfig) (ctx : DnsContext) (req : DnsRequest) (o : Op)
    (r : Op.Resp o) : Prop :=
  Possible ⟨o, r⟩ ∧ FromUpstream cfg ctx req o r

variable {g : Ghost}

theorem subject_track {o : Op} (hBelow : Below o) (r : Op.Resp o) :
    subject (g.track o r) = subject g := by
  cases o with
  | serverLookup | logDualStack =>
    show (g.current.map _).map _ = _
    rw [Option.map_map]
    rfl
  | _ => first
      | rfl
      | exact hBelow.elim

/-- Below the cache a program meets the contract as long as the servers do. -/
theorem below_sat {α : Type} {p : Async α} {Q : α → Prop}
    (hp : Ensures Below (Relied cfg ctx req) Q p) (hg : subject g = some (ctx, req)) :
    Sat (connectivity cfg) p g (fun a g' => Q a ∧ subject g' = some (ctx, req)) := by
  refine Ensures.sat ?_ p hp hg
  intro o g hBelow hg
  refine ⟨?_, ?_⟩
  · cases o <;> trivial
  · rintro r g' ⟨hSubject, hPromised⟩
    rw [subject_track hBelow, hg] at hSubject
    cases o <;> first
      | exact ⟨⟨hPromised.1 hBelow, hPromised.2.2 ctx req hg⟩, hSubject⟩
      | exact hBelow.elim

theorem isIpAddr_iff (x : Record) : x.recordType.isIpAddr = x.rdata.ipAddr.isSome := by
  unfold Record.recordType
  cases x.rdata <;> rfl

variable {r : DnsResponse}

theorem noAddress_of_ipAddrs (h : r.ipAddrs = []) : NoAddress r.records := by
  intro x hx
  rw [isIpAddr_iff]
  unfold DnsResponse.ipAddrs at h
  rw [filterMap_eq_nil_iff] at h
  rw [h x hx]
  rfl

variable {server : NameServer}

theorem filterRecord_addresses {options : LookupIpOptions} {acc : Filtered}
    (hAcc : ∀ x ∈ acc.answers, x.recordType.isIpAddr = true) (record : Record) :
    ∀ x ∈ (filterRecord options server acc record).answers, x.recordType.isIpAddr = true := by
  unfold filterRecord
  split
  · exact hAcc
  · rename_i ip hIp
    obtain ⟨hAddr, -⟩ := Option.filter_eq_some_iff.mp hIp
    split
    · intro x hx
      rcases mem_append.mp hx with hOld | hNew
      · exact hAcc x hOld
      · rw [mem_singleton.mp hNew, isIpAddr_iff, hAddr]
        rfl
    · split
      · exact hAcc
      · intro x hx
        rcases mem_append.mp hx with hOld | hNew
        · exact hAcc x hOld
        · obtain ⟨ip', -, hEq⟩ := mem_map.mp hNew
          rw [← hEq]
          cases ip' <;> rfl

/-- The filters leave addresses, and nothing else. -/
theorem filterAnswers_addresses (options : LookupIpOptions) (server : NameServer)
    (records : List Record) :
    ∀ x ∈ (filterAnswers options server records).answers, x.recordType.isIpAddr = true := by
  unfold filterAnswers
  induction records using reverseRecOn with
  | nil => exact nofun
  | append_singleton records record ih =>
    rw [foldl_append]
    exact filterRecord_addresses ih record

/-- What is left of a server's reply: all of it unfiltered, addresses alone filtered. -/
theorem perServer_left {options : LookupIpOptions} {res : Lookup}
    (h : perServer options server res = .ok r) :
    ∃ heard, res = .ok heard ∧ r.records = recordsLeft options server heard ∧
      (unfiltered options server = true → r = heard) ∧
      (unfiltered options server = false → AllAddresses r.records) := by
  change (if unfiltered options server then res else filterLookup options server res) = _ at h
  cases hPlain : unfiltered options server with
  | true =>
    rw [if_pos hPlain] at h
    exact ⟨r, h, by rw [recordsLeft, if_pos hPlain], fun _ => rfl, by simp⟩
  | false =>
    rw [if_neg (Bool.eq_false_iff.mp hPlain)] at h
    cases res with
    | error e => cases h
    | ok heard =>
      unfold filterLookup at h
      dsimp only at h
      split at h
      · cases h
      · rename_i hSome
        cases h
        refine ⟨heard, rfl, ?_, by simp, fun _ => ⟨?_, ?_⟩⟩
        · rw [recordsLeft, if_neg (Bool.eq_false_iff.mp hPlain)]
          rfl
        · intro hNil
          exact hSome (isEmpty_iff.mpr hNil)
        · exact filterAnswers_addresses _ _ _

/-- What the layers below the cache return for a request. -/
def Good (cfg : RuntimeConfig) (ctx : DnsContext) (req : DnsRequest) (r : DnsResponse) : Prop :=
  Storable cfg req.query r.records ∧
    (ctx.serverOpts.isBackground = false → Sound cfg req.query r.records)

theorem Good.of_sound (h : Sound cfg req.query r.records) : Good cfg ctx req r :=
  ⟨.inl h, fun _ => h⟩

/-- Addresses by themselves, of the name asked for unless it is a refresh. -/
theorem Good.of_addresses (hIp : req.query.queryType.isIpAddr = true)
    (hAll : AllAddresses r.records)
    (hDirect : ctx.serverOpts.isBackground = false → Direct req.query.name r.records) :
    Good cfg ctx req r :=
  ⟨.inr ⟨hIp, hAll⟩, fun hFront =>
    (hDirect hFront).sound fun hOther => absurd hIp (by simp [hOther])⟩

/-- An answer that was heard, as it is given to the lookup. -/
def Heard (cfg : RuntimeConfig) (ctx : DnsContext) (req : DnsRequest) (x : Lookup) : Prop :=
  ∃ server res, x = given (optionsFor ctx req) (isFiltered ctx req) server res ∧
    ∀ r, res = .ok r → FromServer cfg ctx req server r

/-- A reply passed on whole is sound. -/
theorem FromServer.sound (h : FromServer cfg ctx req server r)
    (hWhole : passedWhole ctx req server r = true) :
    Sound cfg req.query r.records :=
  { h.whole hWhole with connected := h.connected }

section Filtered

variable (hFiltered : isFiltered ctx req = true)

include hFiltered

theorem isIpAddr_of_isFiltered : req.query.queryType.isIpAddr = true :=
  (Bool.and_eq_true_iff.mp hFiltered).2

variable {r : DnsResponse}

/-- A response that was heard: the server's own, or addresses that its filters have left. -/
theorem heard_ok (h : Heard cfg ctx req (.ok r)) :
    ∃ server heard, FromServer cfg ctx req server heard ∧
      r.records = recordsLeft (optionsFor ctx req) server heard ∧
      (unfiltered (optionsFor ctx req) server = true → r = heard) ∧
      (unfiltered (optionsFor ctx req) server = false → AllAddresses r.records) := by
  obtain ⟨server, res, hGiven, hFrom⟩ := h
  rw [hFiltered] at hGiven
  obtain ⟨heard, hRes, hRest⟩ := perServer_left hGiven.symm
  exact ⟨server, heard, hFrom heard hRes, hRest⟩

/-- A response of its own, under a strategy that returns such responses whole. -/
theorem good_of_whole (h : Heard cfg ctx req (.ok r))
    (hWhole : ∀ server, unfiltered (optionsFor ctx req) server = true →
      passedWhole ctx req server r = true) :
    Good cfg ctx req r := by
  obtain ⟨server, heard, hFrom, hLeft, hSame, hAll⟩ := heard_ok hFiltered h
  cases hPlain : unfiltered (optionsFor ctx req) server with
  | true =>
    rw [hSame hPlain] at hWhole ⊢
    exact .of_sound (hFrom.sound (hWhole server hPlain))
  | false =>
    have hCut : passedWhole ctx req server heard = false := by
      simp [passedWhole, hFiltered, hPlain]
    refine .of_addresses (isIpAddr_of_isFiltered hFiltered) (hAll hPlain) ?_
    intro hFront
    rw [hLeft]
    exact hFrom.cut hCut hFront

/-- Chosen by address, under a strategy that does not return such responses whole. -/
theorem good_of_chosenByAddress {hs : List Lookup} (h : ChosenByAddress (.ok r) hs)
    (hHeard : ∀ x ∈ hs, Heard cfg ctx req x)
    (hCut : ∀ server, ∀ heard ∈ oks hs, passedWhole ctx req server heard = false) :
    Good cfg ctx req r := by
  rcases h with ⟨ip, chosen, r', hFind, hSelect, hEq⟩ | ⟨hNone, hFirst⟩
  · cases hEq
    have hChosen := mem_of_find?_eq_some hFind
    obtain ⟨server, heard, hFrom, hLeft, hSame, hAll⟩ :=
      heard_ok hFiltered (hHeard _ (mem_of_oks hChosen))
    have hNotWhole : passedWhole ctx req server heard = false := by
      cases hPlain : unfiltered (optionsFor ctx req) server with
      | true =>
        rw [← hSame hPlain]
        exact hCut server chosen hChosen
      | false => simp [passedWhole, hFiltered, hPlain]
    obtain ⟨record, hRecord, hCutDown⟩ := Option.map_eq_some_iff.mp hSelect
    have hOne : r.records = [record] := by
      rw [← hCutDown]
      rfl
    have hAddress : record.recordType.isIpAddr = true := by
      have hIs := find?_some hRecord
      rw [isIpAddr_iff, eq_of_beq hIs]
      rfl
    refine .of_addresses (isIpAddr_of_isFiltered hFiltered) ?_ ?_
    · rw [hOne]
      exact ⟨by simp, by simpa using hAddress⟩
    · intro hFront
      have hDirect := hFrom.cut hNotWhole hFront
      rw [← hLeft] at hDirect
      rw [hOne]
      refine hDirect.subset ?_
      exact forall_mem_singleton.mpr (mem_of_find?_eq_some hRecord)
  · have hMem : r ∈ oks hs := by
      cases hHead : (oks hs).head? with
      | some first =>
        rw [hHead] at hFirst
        cases hFirst
        exact mem_of_head? hHead
      | none =>
        rw [hHead] at hFirst
        obtain ⟨e, -, he⟩ := Option.map_eq_some_iff.mp hFirst
        cases he
    exact .of_sound (noAddress_of_ipAddrs (hNone r hMem)).sound

end Filtered

/-- The reply chosen among good ones is good. -/
theorem good_of_chosen {hs : List Lookup}
    (h : Chosen (optionsFor ctx req) (isFiltered ctx req) (.ok r) hs)
    (hHeard : ∀ x ∈ hs, Heard cfg ctx req x) : Good cfg ctx req r := by
  cases hFiltered : isFiltered ctx req with
  | false =>
    rw [hFiltered] at h
    obtain ⟨server, res, hGiven, hFrom⟩ := hHeard _ (mem_of_groupSource h)
    rw [hFiltered] at hGiven
    refine .of_sound ((hFrom r hGiven.symm).sound ?_)
    rw [passedWhole, hFiltered]
    rfl
  | true =>
    rw [hFiltered] at h
    simp only [Chosen] at h
    cases hMode : (strategyOf (optionsFor ctx req)).1 with
    | FirstPing =>
      rw [hMode] at h
      rcases h with ⟨hLast, r', hEq, hSingle⟩ | ⟨hChosen, hMany⟩
      · cases hEq
        refine good_of_whole hFiltered (hHeard _ (mem_of_getLast? hLast)) ?_
        intro server hPlain
        simp [passedWhole, hPlain, hMode, hSingle]
      · refine good_of_chosenByAddress hFiltered hChosen hHeard ?_
        intro server heard hMem
        simp [passedWhole, hFiltered, hMode, hMany heard hMem]
    | FastestIp =>
      rw [hMode] at h
      refine good_of_chosenByAddress hFiltered h hHeard ?_
      simp [passedWhole, hFiltered, hMode]
    | FastestResponse =>
      rw [hMode] at h
      refine good_of_whole hFiltered (hHeard _ (mem_of_responseSource h)) ?_
      intro server hPlain
      simp [passedWhole, hPlain, hMode]

/-- Sound servers supply the chain with good replies. -/
theorem supplies_good (cfg : RuntimeConfig) (ctx : DnsContext) (req : DnsRequest) :
    Supplies (Relied cfg ctx req) ctx req (Heard cfg ctx req) (Good cfg ctx req) where
  possible _ _ h := h.1
  bootstrap _ h := .of_sound (h.2 rfl)
  heard _ server res h := by
    refine ⟨server, res, rfl, ?_⟩
    rintro r rfl
    exact h.2 rfl
  chosen _ _ hChosen hHeard := good_of_chosen hChosen hHeard
  label _ _ h := h

/-- Everything below the cache. -/
theorem innerChain_sat (client : DnsClient) (hg : subject g = some (ctx, req)) :
    Sat (connectivity cfg) (execute defaultHandler (innerLayers ctx.cfg client) ctx req) g
      (fun outcome _ => Leaves ctx (Good cfg ctx req) outcome) :=
  Sat.mono (fun _ _ h => h.1) _ (below_sat (innerChain_ensures (supplies_good cfg ctx req)) hg)

end Below

end SmartDns.Ports.ConnectedAnswers
