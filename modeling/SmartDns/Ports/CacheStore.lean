import SmartDns.Verified.Lru
import SmartDns.Ports.DnsLookup

/-!
# The sharded DNS cache

The store behind the cache middleware: a fixed number of LRU maps, an estimate
of the bytes they hold and the heap of refresh deadlines. A question is routed
to a shard by its hash, so one shard sees every spelling of a name.

Two details of the source decide the accounting. An update in place charges
the size difference of the entry under the question asked, not under the
question stored, and a push charges the new entry after refunding whatever the
map gave back. The byte counter is unsigned; `ByteCounter` records whether a
subtraction ever went below zero, so that absence of underflow is a statement
about a run and not a property of truncated subtraction.

The eviction loop runs on fuel and reports running out of it, so that its
termination is a theorem about it.

Three facts about code outside the repository enter as the fields of
`CacheEnv`: the hash respects equality of questions, and the sizes of the
structures and of a name's text are arbitrary.
-/

namespace SmartDns.Ports.CacheStore

open Verified DomainName DnsMessage DnsLookup

/-- What the cache takes from its platform. -/
structure CacheEnv where
  hash : Query → Nat
  hash_eq : ∀ a b : Query, (a == b) = true → hash a = hash b
  sizeOfQuery : Nat
  sizeOfEntry : Nat
  sizeOfRecord : Nat
  utf8Len : Name → Nat

/-! ## Time -/

/-- Seconds as nanoseconds. -/
def secs (n : Nat) : Nat := n * 1000000000

/-- `Duration::as_secs() as u32`. -/
def asSecsU32 (d : Nat) : Nat := d / 1000000000 % 2 ^ 32

/-! ## The byte counter -/

/-- An unsigned counter that remembers whether it ever wrapped below zero. -/
structure ByteCounter where
  value : Nat
  underflow : Bool
  deriving DecidableEq

namespace ByteCounter

def zero : ByteCounter := ⟨0, false⟩

def fetchAdd (t : ByteCounter) (n : Nat) : ByteCounter := { t with value := t.value + n }

/-- `AtomicUsize::fetch_sub`, which wraps around when `n` is too large. -/
def fetchSub (t : ByteCounter) (n : Nat) : ByteCounter :=
  if n ≤ t.value then { t with value := t.value - n }
  else ⟨t.value + 2 ^ 64 - n, true⟩

/-- `DnsCache::add_bytes`. -/
def addBytes (t : ByteCounter) (delta : Int) : ByteCounter :=
  if delta = 0 then t
  else if delta > 0 then t.fetchAdd delta.toNat
  else t.fetchSub delta.natAbs

end ByteCounter

/-! ## Entries -/

/-- One cached answer, with its prefetch marks. -/
structure DnsCacheEntry where
  data : DnsResponse
  validUntil : Nat
  isInPrefetching : Bool
  prefetchFailureTime : Option Nat
  hits : Nat

namespace DnsCacheEntry

def new (data : DnsResponse) (validUntil : Nat) : DnsCacheEntry where
  data := data
  validUntil := validUntil
  isInPrefetching := false
  prefetchFailureTime := none
  hits := 0

def isCurrent (e : DnsCacheEntry) (now : Nat) : Bool := decide (now ≤ e.validUntil)

/-- The time left, zero once the entry is past its deadline. -/
def ttl (e : DnsCacheEntry) (now : Nat) : Nat := e.validUntil - now

/-- `DnsCacheStats::hit`. -/
def hit (e : DnsCacheEntry) : DnsCacheEntry := { e with hits := e.hits + 1 }

/-- The in-place update both insertions perform on a stored entry. -/
def refresh (e : DnsCacheEntry) (data : DnsResponse) (validUntil : Nat) : DnsCacheEntry :=
  { e with data := data, validUntil := validUntil, hits := e.hits + 1 }

end DnsCacheEntry

/-- The estimate for the answer section of a response. -/
def recordsSize (env : CacheEnv) (records : List Record) : Nat :=
  (records.map fun r => env.sizeOfRecord + env.utf8Len r.name + 128).sum

/-- The bytes an entry is charged with. -/
def entrySize (env : CacheEnv) (query : Query) (entry : DnsCacheEntry) : Nat :=
  env.sizeOfQuery + env.sizeOfEntry + env.utf8Len query.name + recordsSize env entry.data.records

/-! ## The cache -/

abbrev Shard := Lru Query DnsCacheEntry

/-- The shards, the prefetch heap and the byte counter. -/
structure DnsCache where
  shards : List Shard
  prefetchHeap : List (Nat × Query)
  expiredTtl : Nat
  expiredReplyTtl : Nat
  queryHits : Nat
  maxBytes : Nat
  totalBytes : ByteCounter

inductive CacheStatus where
  | Valid
  | Expired
  deriving DecidableEq

def cacheShardCount : Nat := 16

def shardIndexOf (env : CacheEnv) (query : Query) (n : Nat) : Nat := env.hash query % n

/-- The weight of one stored binding. -/
def bindingSize (env : CacheEnv) (p : Query × DnsCacheEntry) : Nat := entrySize env p.1 p.2

/-- The shard count `DnsCache::new` settles on. -/
def shardCountFor (cacheSize : Nat) : Nat :=
  if cacheSize ≥ cacheShardCount then cacheShardCount else 1

/-- The capacity every shard gets before the remainder is spread. -/
def perShardFor (cacheSize : Nat) : Nat := max (cacheSize / shardCountFor cacheSize) 1

theorem perShardFor_pos (cacheSize : Nat) : 0 < perShardFor cacheSize :=
  Nat.le_max_right _ 1

/-- The capacity of the shard at an index. -/
def shardCap (cacheSize i : Nat) : Nat :=
  perShardFor cacheSize +
    if i < cacheSize - perShardFor cacheSize * shardCountFor cacheSize then 1 else 0

theorem shardCap_pos (cacheSize i : Nat) : 0 < shardCap cacheSize i :=
  Nat.lt_of_lt_of_le (perShardFor_pos cacheSize) (Nat.le_add_right _ _)

namespace DnsCache

def new (cacheSize expiredTtl expiredReplyTtl maxBytes : Nat) : DnsCache where
  shards := (List.range (shardCountFor cacheSize)).map fun i =>
    Lru.empty (shardCap cacheSize i) (shardCap_pos cacheSize i)
  prefetchHeap := []
  expiredTtl := expiredTtl
  expiredReplyTtl := expiredReplyTtl
  queryHits := 0
  maxBytes := maxBytes
  totalBytes := .zero

def usedBytes (c : DnsCache) : Nat := c.totalBytes.value

def entryCount (c : DnsCache) : Nat := (c.shards.map fun s => s.items.length).sum

/-- Every stored binding, shard by shard. -/
def entries (c : DnsCache) : List (Query × DnsCacheEntry) := c.shards.flatMap fun s => s.items

end DnsCache

/-! ## Eviction -/

/-- One round over the shards; the flag says whether anything was evicted. -/
def evictPass (env : CacheEnv) (maxBytes : Nat) :
    List Shard → ByteCounter → List Shard × ByteCounter × Bool
  | [], total => ([], total, false)
  | shard :: rest, total =>
    match shard.popLru with
    | (some (query, entry), shard') =>
      let total' := total.addBytes (-(entrySize env query entry : Int))
      if total'.value ≤ maxBytes then (shard' :: rest, total', true)
      else
        let r := evictPass env maxBytes rest total'
        (shard' :: r.1, r.2.1, true)
    | (none, _) =>
      let r := evictPass env maxBytes rest total
      (shard :: r.1, r.2.1, r.2.2)

namespace DnsCache

/-- The `while` loop of `enforce_memory_budget`; `none` when fuel runs out. -/
def enforceLoop (env : CacheEnv) : Nat → DnsCache → Option DnsCache
  | 0, _ => none
  | fuel + 1, c =>
    if c.usedBytes > c.maxBytes then
      let r := evictPass env c.maxBytes c.shards c.totalBytes
      let c' := { c with shards := r.1, totalBytes := r.2.1 }
      if r.2.2 then enforceLoop env fuel c' else some c'
    else some c

/-- `enforce_memory_budget`, with one round of fuel per stored entry. -/
def enforceMemoryBudget (env : CacheEnv) (c : DnsCache) : DnsCache :=
  if c.maxBytes = 0 then c
  else (enforceLoop env (c.entryCount + 1) c).getD c

/-! ## Operations -/

/-- Run an update on the shard a question is routed to. -/
def onShard (env : CacheEnv) (c : DnsCache) (query : Query)
    (f : Shard → ByteCounter → Shard × ByteCounter) : DnsCache :=
  match c.shards[shardIndexOf env query c.shards.length]? with
  | none => c
  | some shard =>
    { c with
      shards := c.shards.set (shardIndexOf env query c.shards.length) (f shard c.totalBytes).1
      totalBytes := (f shard c.totalBytes).2 }

end DnsCache

/-- Push an entry, refunding what the map gave back and charging the entry. -/
def pushEntry (env : CacheEnv) (query : Query) (entry : DnsCacheEntry) (shard : Shard)
    (total : ByteCounter) : Shard × ByteCounter :=
  let pushed := shard.push query entry
  let refunded :=
    match pushed.1 with
    | some (evictedQuery, evictedEntry) =>
      total.addBytes (-(entrySize env evictedQuery evictedEntry : Int))
    | none => total
  (pushed.2, refunded.addBytes (entrySize env query entry : Int))

/-- Update the stored entry in place, or push a new one. -/
def storeEntry (env : CacheEnv) (query : Query) (data : DnsResponse) (validUntil : Nat)
    (shard : Shard) (total : ByteCounter) : Shard × ByteCounter :=
  let newEntry := DnsCacheEntry.new data validUntil
  match shard.peek query with
  | some (_, entry) =>
    (shard.modify query fun e => e.refresh data validUntil,
      total.addBytes ((entrySize env query newEntry : Int) - (entrySize env query entry : Int)))
  | none => pushEntry env query newEntry shard total

/-- The records of a lookup with the smallest of their TTLs, at most 600 s. -/
def collapseTtl (recordsAndTtl : List (Record × Nat)) : List Record × Nat :=
  (recordsAndTtl.map Prod.fst, (recordsAndTtl.map Prod.snd).foldl min 600)

/-- `insert_records`: the records by owner and type, in order of appearance. -/
def groupRecord (map : List (Query × List (Record × Nat))) (record : Record) :
    List (Query × List (Record × Nat)) :=
  let query : Query := ⟨record.name, record.recordType, record.dnsClass⟩
  if map.any fun e => e.1 == query then
    map.modify (map.findIdx fun e => e.1 == query) fun e =>
      (e.1, e.2 ++ [(record, record.ttl)])
  else map ++ [(query, [(record, record.ttl)])]

namespace DnsCache

def insert (env : CacheEnv) (c : DnsCache) (query : Query) (recordsAndTtl : List (Record × Nat))
    (now : Nat) (nameServerGroup : String) : DnsCache × DnsResponse :=
  let collapsed := collapseTtl recordsAndTtl
  let validUntil := now + secs collapsed.2
  let lookup := (DnsResponse.newWithDeadline query collapsed.1).withNameServerGroup nameServerGroup
  let stored :=
    (c.onShard env query (storeEntry env query lookup validUntil)).enforceMemoryBudget env
  ({ stored with prefetchHeap := (validUntil, query) :: stored.prefetchHeap }, lookup)

/-- Stores a negative answer for `ttl` seconds. -/
def insertNegative (env : CacheEnv) (c : DnsCache) (query : Query) (resp : DnsResponse)
    (ttl : Nat) (nameServerGroup : String) (now : Nat) : DnsCache :=
  let data := (resp.withNameServerGroup nameServerGroup).setMaxTtl (asSecsU32 ttl)
  (c.onShard env query (storeEntry env query data (now + ttl))).enforceMemoryBudget env

/-- Insert the groups one by one; the group of the question is the result. -/
def insertGroups (env : CacheEnv) (originalQuery : Query) (now : Nat) (group : String) :
    List (Query × List (Record × Nat)) → DnsCache → Option DnsResponse →
      DnsCache × Option DnsResponse
  | [], c, lookup => (c, lookup)
  | (query, recordsAndTtl) :: rest, c, lookup =>
    let r := c.insert env query recordsAndTtl now group
    insertGroups env originalQuery now group rest r.1
      (if originalQuery == query then some r.2 else lookup)

/-- Stores an answer, one entry for each owner. -/
def insertRecords (env : CacheEnv) (c : DnsCache) (originalQuery : Query) (records : List Record)
    (now : Nat) (group : String) : DnsCache × Option DnsResponse :=
  let groups := records.foldl groupRecord []
  let isCnameQuery := records.any fun r =>
    !(originalQuery == (⟨r.name, r.recordType, r.dnsClass⟩ : Query))
  if isCnameQuery then
    let r := c.insert env originalQuery (groups.flatMap Prod.snd) now group
    insertGroups env originalQuery now group groups r.1 (some r.2)
  else insertGroups env originalQuery now group groups c none

/-- One entry read back from the cache file. -/
def loadEntry (env : CacheEnv) (c : DnsCache) (entry : DnsCacheEntry) : DnsCache :=
  let query := entry.data.query
  let stored := c.onShard env query (pushEntry env query entry)
  { stored with prefetchHeap := (entry.validUntil, query) :: stored.prefetchHeap }

/-- `load_from`, given what the file decodes to; `none` leaves the cache alone. -/
def load (env : CacheEnv) (c : DnsCache) (data : Option (List DnsCacheEntry)) : DnsCache :=
  match data with
  | none => c
  | some entries => (entries.foldl (loadEntry env) c).enforceMemoryBudget env

def clear (c : DnsCache) : DnsCache :=
  { c with shards := c.shards.map Lru.clear, prefetchHeap := [], totalBytes := .zero }

/-- Whether a cached answer holds only addresses under other owner names. -/
def needsRename (query : Query) (answers : List Record) : Bool :=
  !(answers.any fun r => decide (r.recordType = .CNAME)) &&
    (!answers.isEmpty && answers.all fun r => r.recordType.isIpAddr) &&
    answers.any fun r => !(r.name == query.name)

/-- The response `get` builds from a stored entry. -/
def entryReply (c : DnsCache) (query : Query) (now : Nat) (entry : DnsCacheEntry) :
    DnsResponse × CacheStatus :=
  let res :=
    if needsRename query entry.data.message.answers then
      entry.data.mapAnswers fun r => r.setName query.name
    else entry.data
  if entry.isCurrent now then (res.setMaxTtl (asSecsU32 (entry.ttl now)), .Valid)
  else (res.setMaxTtl (c.expiredReplyTtl % 2 ^ 32), .Expired)

/-- The binding stored for a question. -/
def peekEntry (env : CacheEnv) (c : DnsCache) (query : Query) : Option (Query × DnsCacheEntry) :=
  (c.shards[shardIndexOf env query c.shards.length]?).bind fun shard => shard.peek query

/-- `LruCache::get_mut`: use the entry of a question and update it in place. -/
def touch (env : CacheEnv) (c : DnsCache) (query : Query) (f : DnsCacheEntry → DnsCacheEntry) :
    DnsCache :=
  c.onShard env query fun shard total => (shard.modify query f, total)

/-- Looks a question up and moves its entry to the front. -/
def get (env : CacheEnv) (c : DnsCache) (query : Query) (now : Nat) :
    DnsCache × Option (DnsResponse × CacheStatus) :=
  (c.onShard env query fun shard total => (shard.modify query DnsCacheEntry.hit, total),
    (c.shards[shardIndexOf env query c.shards.length]?).bind fun shard =>
      (shard.peek query).map fun p => c.entryReply query now p.2)

end DnsCache

end SmartDns.Ports.CacheStore
