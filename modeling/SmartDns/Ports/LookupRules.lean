import SmartDns.Ports.ServerRuns

/-!
# Proof rules for upstream lookups

What a request may promise of the answer it gets from the upstream servers,
whichever strategy it uses and however the servers and the pings race. A
promise `Good` is made of each server's answer after the filters; since all
strategies return one of these answers, perhaps cut down to one address, it
carries over to their result.

While a lookup runs, the history of the request only grows: it hears more
answers, from the groups it was sent to.
-/

namespace SmartDns.Ports.LookupRules

open Verified DomainName DnsMessage DnsLookup RequestContext Middleware Upstream ServerRuns

/-! ## Growing histories -/

/-- A later stage of one history: more answers heard, and only groups in `T` asked. -/
structure Extends (T : ServerGroup → Prop) (o o' : Origin) : Prop where
  ctx : o'.ctx = o.ctx
  req : o'.req = o.req
  stores : o'.stores = o.stores
  suppressed : o'.suppressed = o.suppressed
  heard : ∀ x ∈ o.heard, x ∈ o'.heard
  asked : ∀ s ∈ o'.asked, s ∈ o.asked ∨ T s

namespace Extends

variable {T : ServerGroup → Prop}

theorem refl (o : Origin) : Extends T o o :=
  ⟨rfl, rfl, rfl, rfl, fun _ h => h, fun _ h => Or.inl h⟩

theorem trans {o o' o'' : Origin} (h : Extends T o o') (h' : Extends T o' o'') :
    Extends T o o'' where
  ctx := h'.ctx.trans h.ctx
  req := h'.req.trans h.req
  stores := h'.stores.trans h.stores
  suppressed := h'.suppressed.trans h.suppressed
  heard x hx := h'.heard x (h.heard x hx)
  asked s hs := (h'.asked s hs).elim (h.asked s) Or.inr

theorem hear (o : Origin) {group : ServerGroup} (hT : T group) (server : NameServer)
    (res : Lookup) : Extends T o (o.hear group server res) where
  ctx := rfl
  req := rfl
  stores := rfl
  suppressed := rfl
  heard _ hx := List.mem_append_left _ hx
  asked s hs := by
    rcases List.mem_append.mp hs with hOld | hNew
    · exact Or.inl hOld
    · rw [List.mem_singleton.mp hNew]
      exact Or.inr hT

end Extends

/-- What can happen to a request's history while it waits for upstream servers. -/
def hearing (T : ServerGroup → Prop) : Growth Ghost where
  le g g' := g'.hit = g.hit ∧ Option.Rel (Extends T) g.current g'.current
  refl g := by
    refine ⟨rfl, ?_⟩
    cases g.current with
    | none => exact .none
    | some o => exact .some (Extends.refl o)
  trans := by
    rintro ⟨c, hit⟩ ⟨c', hit'⟩ ⟨c'', hit''⟩ ⟨hHit, hRel⟩ ⟨hHit', hRel'⟩
    refine ⟨hHit'.trans hHit, ?_⟩
    cases hRel with
    | none =>
      cases hRel'
      exact .none
    | some hExt =>
      cases hRel' with
      | some hExt' => exact .some (hExt.trans hExt')

variable {T : ServerGroup → Prop} {g : Ghost}

/-- Looking back from a later stage. -/
theorem hearing_earlier {g' : Ghost} {o' : Origin} (hLater : (hearing T).le g g')
    (hCurrent : g'.current = some o') :
    ∃ o, g.current = some o ∧ Extends T o o' := by
  have hRel := hLater.2
  rw [hCurrent] at hRel
  generalize g.current = c at hRel
  cases hRel with
  | some hExt => exact ⟨_, rfl, hExt⟩

/-- Looking ahead from an earlier one. -/
theorem hearing_current {g' : Ghost} {o : Origin} (hLater : (hearing T).le g g')
    (hCurrent : g.current = some o) :
    ∃ o', g'.current = some o' ∧ Extends T o o' := by
  have hRel := hLater.2
  rw [hCurrent] at hRel
  generalize g'.current = c at hRel
  cases hRel with
  | some hExt => exact ⟨_, rfl, hExt⟩

theorem hearing_track (g : Ghost) {group : ServerGroup} (hT : T group) (ns : NameServer)
    (name : Name) (options : LookupOptions) (res : Lookup) :
    (hearing T).le g (g.track (.serverLookup group ns name options) res) := by
  refine ⟨rfl, ?_⟩
  show Option.Rel _ g.current (g.current.map _)
  cases g.current with
  | none => exact .none
  | some o => exact .some (Extends.hear o hT ns res)

variable {res : Lookup}

/-- A history after an answer was heard. -/
theorem track_current {group : ServerGroup} {ns : NameServer} {name : Name}
    {options : LookupOptions} {o' : Origin}
    (h : (g.track (.serverLookup group ns name options) res).current = some o') :
    ∃ o, g.current = some o ∧ o' = o.hear group ns res := by
  obtain ⟨o, hCurrent, hEq⟩ := Option.map_eq_some_iff.mp h
  exact ⟨o, hCurrent, hEq.symm⟩

/-! ## Rules for single operations -/

/-- Operations that leave the history alone and that anyone may perform. -/
def silent : Op → Bool
  | .cacheGet _ _ => false
  | .insertNegative _ _ _ _ _ => false
  | .insertRecords _ _ _ _ => false
  | .serverLookup _ _ _ _ => false
  | .logDualStack _ _ => false
  | .consult _ _ => false
  | .bypass _ _ => false
  | .answer _ _ _ _ => false
  | _ => true

section Rules

variable {Φ : Query → DnsResponse → Origin → Prop}
  {P : DnsContext → DnsRequest → DnsResponse → Bool → Ghost → Prop}
  {E : Ghost → (o : Op) → Op.Resp o → Prop} {T : ServerGroup → Prop} {α : Type}

variable {o : Op}

theorem silent_pre (hSilent : silent o = true) (g : Ghost) : provenancePre Φ P o g := by
  cases o <;> trivial

variable {g : Ghost}

/-- A silent operation leaves the ghost as it was. -/
theorem silent_post (hSilent : silent o = true) {g' : Ghost} {r : Op.Resp o}
    (hPost : provenancePost Φ E o g r g') : g' = g ∧ E g o r := by
  cases o <;> first
    | exact hPost
    | exact absurd hSilent (by simp [silent])

variable {Q : α → Ghost → Prop}

theorem keeps_silent (hSilent : silent o = true) {k : Op.Resp o → Async α}
    (hk : ∀ r g₁, (hearing T).le g g₁ → E g₁ o r →
      Keeps (provenance Φ P E) (hearing T) (k r) g₁ Q) :
    Keeps (provenance Φ P E) (hearing T) (Prog.perform o >>= k) g Q := by
  intro g₁ hLater
  refine ⟨silent_pre hSilent g₁, ?_⟩
  intro r g₂ hPost
  obtain ⟨hSame, hE⟩ := silent_post hSilent hPost
  rw [hSame]
  exact ⟨(hearing T).refl g₁, hk r g₁ hLater hE⟩

theorem sat_silent (hSilent : silent o = true) {k : Op.Resp o → Async α}
    (hk : ∀ r, E g o r → Sat (provenance Φ P E) (k r) g Q) :
    Sat (provenance Φ P E) (Prog.perform o >>= k) g Q := by
  refine ⟨silent_pre hSilent g, ?_⟩
  intro r g' hPost
  obtain ⟨hSame, hE⟩ := silent_post hSilent hPost
  rw [hSame]
  exact hk r hE

end Rules

/-! ## Strategies -/

variable {r : DnsResponse}

/-- The selected record comes from the reply, under its question. -/
theorem selectRecord_records {ip : IpAddr} {r' : DnsResponse} (h : selectRecord ip r = some r') :
    r'.message.queries = r.message.queries ∧ ∀ x ∈ r'.records, x ∈ r.records := by
  obtain ⟨record, hFind, hEq⟩ := Option.map_eq_some_iff.mp h
  cases hEq
  refine ⟨rfl, ?_⟩
  exact List.forall_mem_singleton.mpr (List.mem_of_find?_eq_some hFind)

/-- A promise about responses that survives what happens to a response on its way from a
server to the end of the chain. -/
structure Promise (T : ServerGroup → Prop) (Good : DnsResponse → Ghost → Prop) : Prop where
  mono : ∀ r g g', (hearing T).le g g' → Good r g → Good r g'
  pick : ∀ ip r r' g, selectRecord ip r = some r' → Good r g → Good r' g
  label : ∀ r g group, Good r g → Good (r.withNameServerGroup group) g

theorem Promise.anything (T : ServerGroup → Prop) : Promise T (fun _ _ => True) :=
  ⟨fun _ _ _ _ _ => trivial, fun _ _ _ _ _ _ => trivial, fun _ _ _ _ => trivial⟩

/-- A lookup that succeeded has a response that is as promised. -/
def OkMeets (Good : DnsResponse → Ghost → Prop) (res : Lookup) (g : Ghost) : Prop :=
  ∀ r, res = .ok r → Good r g

theorem okMeets_error {Good : DnsResponse → Ghost → Prop} {e : DnsError} :
    OkMeets Good (.error e) g := by
  intro r h
  cases h

theorem okMeets_ok {Good : DnsResponse → Ghost → Prop} (h : Good r g) : OkMeets Good (.ok r) g := by
  intro r' hEq
  cases hEq
  exact h

/-- One server's answer after its filters. -/
def perServer (options : LookupIpOptions) (server : NameServer) (res : Lookup) : Lookup :=
  if !server.whitelistIp && !server.blacklistIp && options.ignoreIp.isEmpty &&
      options.ipAlias.isEmpty then res
  else filterLookup options server res

theorem perNameserverLookupIp_eq (group : ServerGroup) (server : NameServer) (name : Name)
    (options : LookupIpOptions) :
    perNameserverLookupIp group server name options =
      (Prog.perform (Op.serverLookup group server name options.lookupOptions) >>= fun res =>
        .done (perServer options server res)) := by
  unfold perNameserverLookupIp perServer
  split <;> rfl

/-! ### What the filters keep -/

/-- A record that passed the filters, or the substitute of one that did. -/
def Kept (options : LookupIpOptions) (server : NameServer) (records : List Record)
    (x : Record) : Prop :=
  (x ∈ records ∧ ∀ ip, x.rdata.ipAddr = some ip → ipFilter options server ip = true) ∨
    ∃ record ∈ records, ∃ entry ∈ options.ipAlias, ∃ ip ∈ entry.2.addrs,
      ofFamily options.lookupOptions.recordType ip = true ∧
      x = { record with rdata := ip.toRData }

variable {options : LookupIpOptions} {server : NameServer}

theorem filterRecord_kept {records : List Record} {acc : Filtered} {record : Record}
    (hRecord : record ∈ records) (hAcc : ∀ x ∈ acc.answers, Kept options server records x) :
    ∀ x ∈ (filterRecord options server acc record).answers, Kept options server records x := by
  unfold filterRecord
  split
  · exact hAcc
  · rename_i ip hIp
    obtain ⟨hAddr, hFilter⟩ := Option.filter_eq_some_iff.mp hIp
    split
    · intro x hx
      rcases List.mem_append.mp hx with hOld | hNew
      · exact hAcc x hOld
      · rw [List.mem_singleton.mp hNew]
        refine Or.inl ⟨hRecord, ?_⟩
        intro ip' hAddr'
        rw [hAddr] at hAddr'
        cases hAddr'
        exact hFilter
    · rename_i other hOther
      obtain ⟨net, hNet⟩ := IpNetwork.IpMap.mem_of_get hOther
      split
      · exact hAcc
      · intro x hx
        rcases List.mem_append.mp hx with hOld | hNew
        · exact hAcc x hOld
        · obtain ⟨ip', hMem, hEq⟩ := List.mem_map.mp hNew
          obtain ⟨hAddrs, hFamily⟩ := List.mem_filter.mp hMem
          exact Or.inr ⟨record, hRecord, (net, other), hNet, ip', hAddrs, hFamily, hEq.symm⟩

/-- Every record the filter leaves comes from one of the reply's. -/
theorem filterAnswers_kept (options : LookupIpOptions) (server : NameServer)
    (records : List Record) :
    ∀ x ∈ (filterAnswers options server records).answers, Kept options server records x := by
  have hFold : ∀ (rest : List Record) (acc : Filtered), (∀ r ∈ rest, r ∈ records) →
      (∀ x ∈ acc.answers, Kept options server records x) →
      ∀ x ∈ (rest.foldl (filterRecord options server) acc).answers,
        Kept options server records x := by
    intro rest
    induction rest with
    | nil =>
      intro acc _ hAcc
      exact hAcc
    | cons record rest ih =>
      intro acc hRest hAcc
      exact ih _ (fun r hr => hRest r (.tail _ hr))
        (filterRecord_kept (hRest record (List.mem_cons_self ..)) hAcc)
  exact hFold records ⟨[], [], []⟩ (fun _ h => h) (by simp)

/-- A server without filters and a configuration without sets or substitutes reject nothing. -/
theorem ipFilter_of_unfiltered
    (h : (!server.whitelistIp && !server.blacklistIp && options.ignoreIp.isEmpty &&
      options.ipAlias.isEmpty) = true)
    (ip : IpAddr) : ipFilter options server ip = true := by
  simp only [Bool.and_eq_true, Bool.not_eq_true', List.isEmpty_iff] at h
  obtain ⟨⟨⟨hWhite, hBlack⟩, hIgnore⟩, -⟩ := h
  simp [ipFilter, hWhite, hBlack, hIgnore, IpNetwork.IpMap.contains, IpNetwork.IpMap.get]

/-- One server's answer after its filters: the same question, and kept records. -/
theorem perServer_ok (h : perServer options server res = .ok r) :
    ∃ heard, res = .ok heard ∧ r.message.queries = heard.message.queries ∧
      ∀ x ∈ r.records, Kept options server heard.records x := by
  unfold perServer at h
  split at h
  · rename_i hUnfiltered
    exact ⟨r, h, rfl, fun x hx => Or.inl ⟨hx, fun ip _ => ipFilter_of_unfiltered hUnfiltered ip⟩⟩
  · cases res with
    | error e => exact absurd h (by simp [filterLookup])
    | ok heard =>
      unfold filterLookup at h
      dsimp only at h
      split at h
      · cases h
      · cases h
        exact ⟨heard, rfl, rfl, filterAnswers_kept options server heard.records⟩

/-! ## The end of the chain -/

/-- The group a request is sent to when the cache has nothing for it. -/
def targetGroup (client : DnsClient) (ctx : DnsContext) (req : DnsRequest) : Option ServerGroup :=
  if ctx.serverOpts.noRuleNameserver.getD false then some .default
  else (nameServerFor client ctx.cfg ctx.serverGroupName req.lowerName).map (·.group)

/-- Whether the answers to a request pass through the address filters. -/
def isFiltered (ctx : DnsContext) (req : DnsRequest) : Bool :=
  !ctx.serverOpts.noRuleNameserver.getD false && req.query.queryType.isIpAddr

/-- The question a request puts to the addresses of the upstream servers themselves. -/
def bootstrapQuery (req : DnsRequest) : Query := Query.query req.lowerName req.query.queryType

/-- A promise in two grades: what may be stored (`false`), and what is kept out of the store
because the server knows it itself (`true`). -/
structure Graded (T : ServerGroup → Prop) (Good : Bool → DnsResponse → Ghost → Prop) : Prop where
  stored : Promise T (Good false)
  mono : ∀ r g g', (hearing T).le g g' → Good true r g → Good true r g'
  weaken : ∀ r g, Good false r g → Good true r g

theorem Graded.anything (T : ServerGroup → Prop) : Graded T (fun _ _ _ => True) :=
  ⟨Promise.anything T, fun _ _ _ _ _ => trivial, fun _ _ _ => trivial⟩

theorem Graded.of_stored {Good : Bool → DnsResponse → Ghost → Prop} (hGood : Graded T Good)
    (b : Bool) (h : OkMeets (Good false) res g) : OkMeets (Good b) res g := by
  intro r hr
  cases b with
  | false => exact h r hr
  | true => exact hGood.weaken r g (h r hr)

/-- The environment's answers to one request establish the promise. -/
structure Sourced (E : Ghost → (o : Op) → Op.Resp o → Prop) (ctx : DnsContext)
    (req : DnsRequest) (Good : Bool → DnsResponse → Ghost → Prop) : Prop where
  bootstrap : ∀ g₀ g records, E g₀ (.forward ctx req) () →
    E g (.localLookup (bootstrapQuery req)) (some records) →
    Good true (DnsResponse.newWithMaxTtl (bootstrapQuery req) records) g
  plain : ∀ g₀ g group ns r, E g₀ (.forward ctx req) () → isFiltered ctx req = false →
    E g (.serverLookup group ns req.lowerName (lookupOptionsOf ctx req)) (.ok r) →
    Good false r
      (g.track (.serverLookup group ns req.lowerName (lookupOptionsOf ctx req)) (.ok r))
  filtered : ∀ g₀ g group ns res, E g₀ (.forward ctx req) () → isFiltered ctx req = true →
    E g (.serverLookup group ns req.lowerName (lookupOptionsOf ctx req)) res →
    OkMeets (Good false) (perServer (lookupIpOptions ctx req (lookupOptionsOf ctx req)) ns res)
      (g.track (.serverLookup group ns req.lowerName (lookupOptionsOf ctx req)) res)

theorem Sourced.anything (E : Ghost → (o : Op) → Op.Resp o → Prop) (ctx : DnsContext)
    (req : DnsRequest) : Sourced E ctx req (fun _ _ _ => True) :=
  ⟨fun _ _ _ _ _ => trivial, fun _ _ _ _ _ _ _ _ => trivial, fun _ _ _ _ _ _ _ _ _ _ => trivial⟩

/-- A handler's result is as promised, and its context differs in the cache flag at most. -/
def OutcomeMeets (ctx : DnsContext) (Good : Bool → DnsResponse → Ghost → Prop)
    (outcome : Outcome) (g : Ghost) : Prop :=
  outcome.2 = { ctx with noCache := outcome.2.noCache } ∧
    OkMeets (Good outcome.2.noCache) outcome.1 g

theorem OutcomeMeets.cfg {ctx : DnsContext} {Good : Bool → DnsResponse → Ghost → Prop}
    {outcome : Outcome} (h : OutcomeMeets ctx Good outcome g) :
    outcome.2.cfg = ctx.cfg := by
  rw [h.1]

end SmartDns.Ports.LookupRules
