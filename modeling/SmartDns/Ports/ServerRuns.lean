import SmartDns.Verified.Pool
import SmartDns.Ports.CacheContents
import SmartDns.Ports.OuterChain
import SmartDns.Ports.Process

/-!
# Runs of the server

Any number of requests are resolved at once over one cache. A run starts with
an empty cache; its events let a request arrive, or let one request perform the
operation it is waiting for, with whatever answer the upstream servers, the
files and the scheduler give.

For each question stored in the cache the run remembers the `Origin` of what is
stored: the request that put it there, the server groups it had asked, the
answers it had heard and whether dual-stack selection had decided against it.
Requests that pass the cache by have a history of the same kind, marked as one
of which nothing is stored. None of this influences the run.
-/

namespace SmartDns.Ports.ServerRuns

open Verified DomainName DnsMessage DnsLookup RequestContext RuleTree Middleware CacheStore
open CacheAccounting CacheContents Upstream OuterChain Process

/-! ## Origins -/

/-- Where a response comes from. -/
structure Origin where
  ctx : DnsContext
  req : DnsRequest
  stores : Bool
  asked : List ServerGroup
  heard : List (NameServer × DnsResponse)
  suppressed : Bool

def Origin.fresh (ctx : DnsContext) (req : DnsRequest) (stores : Bool) : Origin :=
  ⟨ctx, req, stores, [], [], false⟩

/-- A server of a group has answered. -/
def Origin.hear (o : Origin) (group : ServerGroup) (server : NameServer) (res : Lookup) : Origin :=
  { o with
    asked := o.asked ++ [group]
    heard := o.heard ++ (res.toOption.map fun r => (server, r)).toList }

/-- The history of one request: what it is resolving, and the origin of what it found. -/
structure Ghost where
  current : Option Origin
  hit : Option Origin

def Ghost.init : Ghost := ⟨none, none⟩

def Ghost.update (g : Ghost) (f : Origin → Origin) : Ghost := { g with current := g.current.map f }

/-- What an operation other than a lookup does to the history. -/
def Ghost.track (g : Ghost) : (o : Op) → Op.Resp o → Ghost
  | .serverLookup group server _ _, res => g.update fun o => o.hear group server res
  | .logDualStack _ _, _ => g.update fun o => { o with suppressed := true }
  | .consult ctx req, _ => ⟨some (Origin.fresh ctx req true), none⟩
  | .bypass ctx req, _ => ⟨some (Origin.fresh ctx req false), none⟩
  | _, _ => g

/-! ## The world -/

/-- The state that requests share. -/
structure World where
  cache : DnsCache
  clock : Nat
  origin : Query → Option Origin

/-- Record the origin of what is now stored for some questions. -/
def World.attribute (w : World) (keys : List Query) (o : Option Origin) : Query → Option Origin :=
  fun k => if keys.any fun q => decide (q.key = k) then o else w.origin k

/-- The environment's share of an answer. -/
inductive Answer where
  | unit
  | time (t : Nat)
  | index (i : Nat)
  | flag (b : Bool)
  | dispatch (d : Dispatch)
  | lookup (res : Lookup)
  | records (records : Option (List Record))
  | rdata (rdata : Option RData)
  | texts (texts : Option (List (List UInt8)))
  | ptr (zone : PtrZone)
  | ping (out : Option (IpAddr × Nat))

/-- Whether a ping can end this way. -/
def pingPossible (addrs : List IpAddr) (mode : SpeedCheckMode) : Option (IpAddr × Nat) → Bool
  | none => true
  | some out => addrs.contains out.1 && decide (mode ≠ .None)

/-- Operations that touch neither the cache nor the clock. -/
def execEnv : (o : Op) → Answer → Option (Op.Resp o)
  | .dispatch, .dispatch d => some d
  | .localLookup _, .records r => some r
  | .serverLookup _ _ _ _, .lookup res => some res
  | .ping addrs mode, .ping out => if pingPossible addrs mode out then some out else none
  | .next n, .index i => if i < n then some i else none
  | .select, .flag b => some b
  | .hosts _, .records r => some r
  | .lease _ _, .rdata r => some r
  | .reverseLease _, .rdata r => some r
  | .ptrZone _, .ptr z => some z
  | .identity _ _, .texts t => some t
  | .timeout, .unit => some ()
  | .tryPrefetch _ _, .unit => some ()
  | .logDualStack _ _, .unit => some ()
  | .consult _ _, .unit => some ()
  | .bypass _ _, .unit => some ()
  | .forward _ _, .unit => some ()
  | .answer _ _ _ _, .unit => some ()
  | _, _ => none

/-- One operation of one request. -/
def exec (env : CacheEnv) (w : World) (g : Ghost) (o : Op) (a : Answer) :
    Option (Op.Resp o × World × Ghost) :=
  match o, a with
  | .now, .time t => if w.clock ≤ t then some (t, { w with clock := t }, g) else none
  | .cacheGet query now, .unit =>
    let r := w.cache.get env query now
    some (r.2, { w with cache := r.1 }, { g with hit := r.2.bind fun _ => w.origin query.key })
  | .insertNegative query resp ttl group now, .unit =>
    some ((), { w with
      cache := w.cache.insertNegative env query resp ttl group now
      origin := w.attribute [query] g.current }, g)
  | .insertRecords query records now group, .unit =>
    some ((), { w with
      cache := (w.cache.insertRecords env query records now group).1
      origin := w.attribute ((written query records group).map Prod.fst) g.current }, g)
  | .queryHit, .unit =>
    some ((), { w with cache := { w.cache with queryHits := w.cache.queryHits + 1 } }, g)
  | o, a => (execEnv o a).map fun r => (r, w, g.track o r)

/-- A request as it arrives: what it decodes to and the options of its listener. -/
structure Arrival where
  incoming : Incoming
  serverOpts : ServerOpts

/-- The server under a configuration, its upstream groups and its platform. -/
def server (cfg : RuntimeConfig) (client : DnsClient) (env : CacheEnv) :
    System Op Op.Resp World Ghost Arrival Answer Message where
  start a := send cfg (buildMiddleware cfg client) a.incoming a.serverOpts
  ghost _ := Ghost.init
  exec := exec env

/-- The requests in flight and the state they share. -/
abbrev ServerPool := Pool Op Op.Resp World Ghost Arrival Message

/-- A request arrives, or one in flight takes a step. -/
abbrev ServerEvent := PoolEvent Arrival Answer

/-- A world whose cache is empty. -/
def World.init (cacheSize expiredTtl expiredReplyTtl maxBytes : Nat) : World where
  cache := DnsCache.new cacheSize expiredTtl expiredReplyTtl maxBytes
  clock := 0
  origin := fun _ => none

/-! ## Provenance -/

section Provenance

variable (Φ : Query → DnsResponse → Origin → Prop)
  (P : DnsContext → DnsRequest → DnsResponse → Bool → Ghost → Prop)
  (E : Ghost → (o : Op) → Op.Resp o → Prop)

/-- Insertions establish `Φ`, and answers are given under `P`. -/
def provenancePre : Op → Ghost → Prop
  | .insertNegative query resp ttl group _, g =>
    ∃ o, g.current = some o ∧ Φ query.key (negativeData resp ttl group) o
  | .insertRecords query records _ group, g =>
    ∃ o, g.current = some o ∧ ∀ p ∈ written query records group, Φ p.1.key p.2 o
  | .answer ctx req res cached, g => P ctx req res cached g
  | _, _ => True

/-- A hit replays a response with its origin; other answers are as `E` says. -/
def provenancePost : (o : Op) → Ghost → Op.Resp o → Ghost → Prop
  | .cacheGet query _, g, r, g' =>
    g'.current = g.current ∧ ∀ res status, r = some (res, status) →
      ∃ d o, g'.hit = some o ∧ Φ query.key d o ∧ Replays d res
  | o, g, r, g' => g' = g.track o r ∧ E g o r

/-- The contract between a request and the run it is part of. -/
def provenance : Contract Op Op.Resp Ghost where
  pre := provenancePre Φ P
  post := provenancePost Φ E

/-- Whatever the answer makes an operation return, `E` allows it. -/
def EnvMeets (env : CacheEnv) (w : World) (g : Ghost) (o : Op) (a : Answer) : Prop :=
  ∀ r w' g', exec env w g o a = some (r, w', g') → E g o r

/-- What the cache holds has an origin related to it by `Φ`. -/
structure WorldInv (env : CacheEnv) (w : World) : Prop where
  store : ∃ cap maxBytes, BudgetInv env cap maxBytes w.cache
  origin : ∀ k d, Stores w.cache k d → ∃ o, w.origin k = some o ∧ Φ k d o

end Provenance

variable {Φ : Query → DnsResponse → Origin → Prop}
  {P : DnsContext → DnsRequest → DnsResponse → Bool → Ghost → Prop}
  {E : Ghost → (o : Op) → Op.Resp o → Prop} {env : CacheEnv}

theorem not_stores_init {cacheSize expiredTtl expiredReplyTtl maxBytes : Nat} {k : Query}
    {d : DnsResponse} :
    ¬Stores (World.init cacheSize expiredTtl expiredReplyTtl maxBytes).cache k d := by
  rintro ⟨p, hp, -⟩
  rw [show (World.init cacheSize expiredTtl expiredReplyTtl maxBytes).cache.entries = [] from
    entries_new cacheSize expiredTtl expiredReplyTtl maxBytes] at hp
  cases hp

/-- A fresh world meets the invariant. -/
theorem WorldInv.init (cacheSize expiredTtl expiredReplyTtl maxBytes : Nat) :
    WorldInv Φ env (World.init cacheSize expiredTtl expiredReplyTtl maxBytes) :=
  ⟨⟨_, _, BudgetInv.new env cacheSize expiredTtl expiredReplyTtl maxBytes⟩,
    fun _ _ hStores => (not_stores_init hStores).elim⟩

variable {w w' : World} {g g' : Ghost} {o : Op} {a : Answer} {r : Op.Resp o}

/-- Attribution to the keys just written, and to no others. -/
theorem attribute_of_mem {keys : List Query} {origin : Option Origin} {q : Query}
    (hq : q ∈ keys) : w.attribute keys origin q.key = origin := by
  unfold World.attribute
  rw [if_pos]
  exact List.any_eq_true.mpr ⟨q, hq, by simp⟩

theorem attribute_of_not_mem {keys : List Query} {origin : Option Origin} {k : Query}
    (hk : ∀ q ∈ keys, k ≠ q.key) : w.attribute keys origin k = w.origin k := by
  unfold World.attribute
  rw [if_neg]
  intro hAny
  obtain ⟨q, hq, hEq⟩ := List.any_eq_true.mp hAny
  exact hk q hq (of_decide_eq_true hEq).symm

/-- What an operation puts into the cache. -/
def Inserts : Op → Query → DnsResponse → Prop
  | .insertNegative query resp ttl group _, k, d => k = query.key ∧ d = negativeData resp ttl group
  | .insertRecords query records _ group, k, d =>
    ∃ p ∈ written query records group, k = p.1.key ∧ d = p.2
  | _, _, _ => False

/-- An operation keeps what is stored and its origin, apart from what it inserts. -/
theorem exec_stores {cap maxBytes : Nat} (hStore : BudgetInv env cap maxBytes w.cache)
    (hExec : exec env w g o a = some (r, w', g')) :
    BudgetInv env cap maxBytes w'.cache ∧ ∀ k d, Stores w'.cache k d →
      (Inserts o k d ∧ w'.origin k = g.current) ∨
        (Stores w.cache k d ∧ w'.origin k = w.origin k) := by
  unfold exec at hExec
  split at hExec
  · split at hExec
    · cases hExec
      exact ⟨hStore, fun _ _ hStores => .inr ⟨hStores, rfl⟩⟩
    · cases hExec
  · rename_i query now
    cases hExec
    exact ⟨hStore.apply (.get query now),
      fun _ _ hStores => .inr ⟨stores_get hStore.store query now hStores, rfl⟩⟩
  · rename_i query resp ttl group now
    cases hExec
    refine ⟨hStore.apply (.insertNegative query resp ttl group now), fun k d hStores => ?_⟩
    rcases stores_insertNegative hStore.store hStores with hNew | hOld
    · rw [hNew.1]
      exact .inl ⟨⟨rfl, hNew.2⟩, attribute_of_mem (List.mem_singleton.mpr rfl)⟩
    · exact .inr ⟨hOld.2, attribute_of_not_mem (List.forall_mem_singleton.mpr hOld.1)⟩
  · rename_i query records now group
    cases hExec
    refine ⟨hStore.apply (.insertRecords query records now group), fun k d hStores => ?_⟩
    rcases stores_insertRecords hStore hStores with hNew | hOld
    · obtain ⟨p, hp, hKey, hData⟩ := hNew
      rw [hKey]
      exact .inl ⟨⟨p, hp, rfl, hData⟩, attribute_of_mem (List.mem_map_of_mem hp)⟩
    · exact .inr ⟨hOld.2, attribute_of_not_mem (List.forall_mem_map.mpr hOld.1)⟩
  · cases hExec
    exact ⟨⟨hStore.store.congr rfl rfl, hStore.limit, hStore.budget⟩,
      fun _ _ hStores => .inr ⟨hStores, rfl⟩⟩
  · obtain ⟨r', -, hEq⟩ := Option.map_eq_some_iff.mp hExec
    cases hEq
    exact ⟨hStore, fun _ _ hStores => .inr ⟨hStores, rfl⟩⟩

/-- Apart from a search of the cache, an operation enters the history as `Ghost.track` says. -/
theorem exec_track (hExec : exec env w g o a = some (r, w', g'))
    (hSearch : ∀ query now, o ≠ .cacheGet query now) : g' = g.track o r := by
  unfold exec at hExec
  split at hExec
  · split at hExec <;> cases hExec
    rfl
  · exact absurd rfl (hSearch _ _)
  all_goals try (cases hExec; rfl)
  obtain ⟨r', -, hEq⟩ := Option.map_eq_some_iff.mp hExec
  cases hEq
  rfl

/-- Every operation keeps the invariant and honours the contract. -/
theorem exec_sound (hInv : WorldInv Φ env w) (hPre : provenancePre Φ P o g)
    (hEnv : EnvMeets E env w g o a) (hExec : exec env w g o a = some (r, w', g')) :
    provenancePost Φ E o g r g' ∧ WorldInv Φ env w' := by
  obtain ⟨cap, maxBytes, hStore⟩ := hInv.store
  obtain ⟨hStore', hStores⟩ := exec_stores hStore hExec
  refine ⟨?_, ⟨cap, maxBytes, hStore'⟩, fun k d hStored => ?_⟩
  · cases o with
    | cacheGet query now =>
      cases a <;> cases hExec
      refine ⟨rfl, fun res status hGet => ?_⟩
      obtain ⟨d, hStored, hReplays⟩ := get_reply hGet
      obtain ⟨origin, hOrigin, hΦ⟩ := hInv.origin query.key d hStored
      refine ⟨d, origin, ?_, hΦ, hReplays⟩
      rw [hGet]
      exact hOrigin
    | _ => exact ⟨exec_track hExec nofun, hEnv r w' g' hExec⟩
  · rcases hStores k d hStored with ⟨hNew, hOrigin⟩ | ⟨hOld, hOrigin⟩ <;> rw [hOrigin]
    · cases o with
      | insertNegative =>
        obtain ⟨origin, hCurrent, hΦ⟩ := hPre
        exact ⟨origin, hCurrent, hNew.1 ▸ hNew.2 ▸ hΦ⟩
      | insertRecords =>
        obtain ⟨origin, hCurrent, hΦ⟩ := hPre
        obtain ⟨p, hp, hKey, hData⟩ := hNew
        exact ⟨origin, hCurrent, hKey ▸ hData ▸ hΦ p hp⟩
      | _ => exact hNew.elim
    · exact hInv.origin k d hOld

/-! ## Runs that can be computed -/

/-- Whether what an event makes an operation return passes a Boolean check. -/
def stepCheck (env : CacheEnv) (check : Ghost → (o : Op) → Op.Resp o → Bool) (p : ServerPool) :
    ServerEvent → Bool
  | .spawn _ => true
  | .step tid a =>
    (p.threads[tid]?).all fun t =>
      match t.prog with
      | .done _ => true
      | .call o _ => (exec env p.world t.ghost o a).all fun x => check t.ghost o x.1

theorem meets_of_stepCheck (check : Ghost → (o : Op) → Op.Resp o → Bool)
    (hCheck : ∀ g o r, check g o r = true → E g o r) (p : ServerPool) (e : ServerEvent)
    (h : stepCheck env check p e = true) :
    System.Meets (fun _ => True) (EnvMeets E env) p e := by
  cases e with
  | spawn a => trivial
  | step tid a =>
    intro t o k hThread hProg r w' g' hExec
    apply hCheck
    simpa only [stepCheck, hThread, Option.all_some, hProg, hExec] using h

/-- A run that reaches a request in a given position. -/
theorem exists_thread {x : Option ServerPool}
    {P : ServerPool → Thread Op Op.Resp Ghost Arrival Message → Prop}
    (f : Thread Op Op.Resp Ghost Arrival Message → Bool)
    (h : (x.any fun p => p.threads.any f) = true)
    (hf : ∀ p t, x = some p → t ∈ p.threads → f t = true → P p t) :
    ∃ p, x = some p ∧ ∃ t ∈ p.threads, P p t := by
  obtain ⟨p, hRun, hAny⟩ := (Option.any_eq_true _ _).mp h
  obtain ⟨t, ht, hTest⟩ := List.any_eq_true.mp hAny
  exact ⟨p, hRun, t, ht, hf p t hRun ht hTest⟩

/-- The request is about to be answered from the cache, and its entry passes a test. -/
def servedFromCache (test : DnsContext → DnsRequest → DnsResponse → Origin → Bool)
    (t : Thread Op Op.Resp Ghost Arrival Message) : Bool :=
  match t.prog with
  | .call (.answer ctx req res true) _ => t.ghost.hit.any (test ctx req res)
  | _ => false

theorem exists_served {x : Option ServerPool}
    {P : ServerPool → Thread Op Op.Resp Ghost Arrival Message → Prop}
    (test : DnsContext → DnsRequest → DnsResponse → Origin → Bool)
    (h : (x.any fun p => p.threads.any (servedFromCache test)) = true)
    (hTest : ∀ p t ctx req res k o, x = some p → t ∈ p.threads →
      t.prog = .call (.answer ctx req res true) k → t.ghost.hit = some o →
      test ctx req res o = true → P p t) :
    ∃ p, x = some p ∧ ∃ t ∈ p.threads, P p t := by
  refine exists_thread _ h fun p t hRun ht hServed => ?_
  unfold servedFromCache at hServed
  split at hServed
  · rename_i ctx req res k hProg
    obtain ⟨o, hHit, hPasses⟩ := (Option.any_eq_true _ _).mp hServed
    exact hTest p t ctx req res k o hRun ht hProg hHit hPasses
  · cases hServed

/-- A platform on which all questions share a shard. -/
def exampleEnv : CacheEnv where
  hash := fun _ => 0
  hash_eq := fun _ _ _ => rfl
  sizeOfQuery := 80
  sizeOfEntry := 200
  sizeOfRecord := 100
  utf8Len := fun name => name.labels.length

/-- A single upstream server, in the default group. -/
def exampleServer : NameServer := ⟨0, false, false⟩

def exampleClient : DnsClient where
  default := [exampleServer]
  servers := fun _ => none
  errorText := fun _ => ""

/-- A world with an empty cache and no limit on its size in bytes. -/
def exampleWorld : World := World.init 4 0 0 0

theorem eq_ok_of_toOption {ε α : Type} {x : Except ε α} {a : α} (h : x.toOption = some a) :
    x = .ok a := by
  cases x with
  | error e => cases h
  | ok b => rw [Option.some.inj h]

def exampleName : Name := Name.ofLabels ["example", "com"]

/-- A question for the address of `example.com`. -/
def exampleQuery : Query := Query.query exampleName .A

/-- `192.168.1.7`. -/
def exampleSource : IpAddr := .v4 0xc0a80107#32

/-- `192.168.0.0/16`. -/
def privateNet : IpNetwork.IpNet := .v4 ⟨0xc0a80000#32, 16, by decide⟩

/-- `1.2.3.4/32`. -/
def singleHost : IpNetwork.IpNet := .v4 ⟨0x01020304#32, 32, by decide⟩

/-- `93.184.216.34`. -/
def exampleAddress : RData := .A 0x5db8d822#32

/-- A question in a message of its own. -/
def askFor (name : Name) (queryType : RecordType) (src : IpAddr) : DnsRequest :=
  DnsRequest.new ((Message.query 7).addQuery (Query.query name queryType)) src

/-- An upstream answer to a question for `example.com`. -/
def exampleAnswer (rdata : RData) : Answer :=
  .lookup (.ok (DnsResponse.newWithMaxTtl (Query.query exampleName rdata.recordType)
    [Record.fromRdata exampleName 300 rdata]))

/-- A request goes through the store without finding anything. -/
def missAnswers : List Answer := [.dispatch .processed, .unit, .time 0, .unit]

/-- Its question is put to the first server. -/
def lookupAnswers (answer : Answer) : List Answer := [.unit, .records none, .index 0, answer]

/-- What it found is stored and returned. -/
def storeAnswers : List Answer := [.time 0, .unit, .unit]

/-- A request finds an answer in the store and is about to return it. -/
def hitAnswers : List Answer := missAnswers ++ [.unit, .unit]

/-- Nothing is cached or known locally, and servers answer as given. -/
def quietAnswers (lookup : Name → LookupOptions → Lookup) : (o : Op) → Op.Resp o
  | .dispatch => .processed
  | .now => (0 : Nat)
  | .cacheGet _ _ => none
  | .insertNegative _ _ _ _ _ => ()
  | .insertRecords _ _ _ _ => ()
  | .queryHit => ()
  | .tryPrefetch _ _ => ()
  | .localLookup _ => none
  | .serverLookup _ _ name options => lookup name options
  | .ping _ _ => none
  | .next _ => (0 : Nat)
  | .select => false
  | .timeout => ()
  | .hosts _ => none
  | .lease _ _ => none
  | .reverseLease _ => none
  | .ptrZone _ => .foreign
  | .identity _ _ => none
  | .logDualStack _ _ => ()
  | .consult _ _ => ()
  | .bypass _ _ => ()
  | .forward _ _ => ()
  | .answer _ _ _ _ => ()

/-- One request takes several steps. -/
def steps (tid : Nat) (answers : List Answer) : List ServerEvent := answers.map (.step tid)

end SmartDns.Ports.ServerRuns
