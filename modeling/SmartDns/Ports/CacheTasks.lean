import SmartDns.Verified.Locks
import SmartDns.Ports.PrefetchScan
import SmartDns.Ports.ServerRuns

/-!
# Concurrent operations on the cache

The operations of the cache as tasks that share it. Every shard has a mutex and
so has the prefetch heap; the byte counter is an atomic that belongs to none of
them. A task is a program over the smallest steps that another task can observe:
taking and releasing a mutex, one access to what the mutex protects, one access
to the counter. The settings that never change, and the number of shards, are
read off `c₀`, the cache as it was created.

Loops whose length depends on what other tasks do run on fuel. A task that runs
out of it stops where it is and never ends, so with fuel left open every finite
run is a run of the model.

The ghost state of a task records the mutexes it holds, the entry it has stored
and not yet counted, the bytes it has taken out of the store and not yet taken
off the counter, and whether it is a `clear` that is still to reset the counter.
`protocol` says how the steps of a task follow each other, in these terms.
-/

namespace SmartDns.Ports.CacheTasks

open Verified DnsMessage DnsLookup CacheStore PrefetchScan List

/-! ## Steps -/

/-- The locks of the cache. -/
inductive LockId where
  | shard (i : Nat)
  | heap
  deriving DecidableEq

/-- What a task does with an entry whose response it leaves alone. -/
inductive Touch where
  | hit
  | use
  | mark
  deriving DecidableEq

def Touch.apply : Touch → DnsCacheEntry → DnsCacheEntry
  | .hit, e => e.hit
  | .use, e => e
  | .mark, e => inPrefetching e

/-- What a change of the counter is for: bytes that have left, or an entry stored. -/
inductive Charge where
  | refund
  | entry
  deriving DecidableEq

/-- The steps that tasks interleave at. -/
inductive Act where
  | lock (l : LockId)
  | unlock (l : LockId)
  | touch (i : Nat) (query : Query) (touch : Touch)
  | refresh (i : Nat) (query : Query) (data : DnsResponse) (validUntil : Nat)
  | push (i : Nat) (query : Query) (entry : DnsCacheEntry)
  | popLru (i : Nat)
  | clearShard (i : Nat)
  | items (i : Nat)
  | heapPush (key : PrefetchKey)
  | heapPop
  | heapPeek
  | heapClear
  | loadBytes
  | addBytes (charge : Charge) (delta : Int)
  | resetBytes
  | outOfFuel

abbrev Act.Resp : Act → Type
  | .touch _ _ _ => Option (Query × DnsCacheEntry)
  | .refresh _ _ _ _ => Option (Query × DnsCacheEntry)
  | .push _ _ _ => Option (Query × DnsCacheEntry)
  | .popLru _ => Option (Query × DnsCacheEntry)
  | .items _ => List (Query × DnsCacheEntry)
  | .heapPop => Option PrefetchKey
  | .heapPeek => Option PrefetchKey
  | .loadBytes => Nat
  | _ => Unit

/-- A cache method as the steps it takes. -/
abbrev CacheTask (α : Type) := Prog Act Act.Resp α

/-! ## Tasks -/

section Tasks

variable (env : CacheEnv) (c₀ : DnsCache)

/-- Hold a mutex for one step. -/
def locking (l : LockId) (o : Act) : CacheTask (Act.Resp o) := do
  Prog.perform (Act.lock l)
  let r ← Prog.perform o
  Prog.perform (Act.unlock l)
  return r

/-- The shard that a question is routed to. -/
def shardOf (query : Query) : Nat := shardIndexOf env query c₀.shards.length

/-- Take off the counter what a push has made leave. -/
def refundEvicted : Option (Query × DnsCacheEntry) → CacheTask Unit
  | some (query, entry) => Prog.perform (Act.addBytes .refund (-(entrySize env query entry : Int)))
  | none => return ()

/-- One round over the shards, each locked in turn until the budget is met. -/
def evictRound : List Nat → Bool → CacheTask Bool
  | [], evicted => return evicted
  | i :: rest, evicted => do
    Prog.perform (Act.lock (.shard i))
    match ← Prog.perform (Act.popLru i) with
    | some (query, entry) =>
      Prog.perform (Act.addBytes .refund (-(entrySize env query entry : Int)))
      let used ← Prog.perform Act.loadBytes
      Prog.perform (Act.unlock (.shard i))
      if used ≤ c₀.maxBytes then return true else evictRound rest true
    | none =>
      Prog.perform (Act.unlock (.shard i))
      evictRound rest evicted

def enforceLoop : Nat → CacheTask Unit
  | 0 => Prog.perform Act.outOfFuel
  | fuel + 1 => do
    let used ← Prog.perform Act.loadBytes
    if used > c₀.maxBytes then
      let evicted ← evictRound env c₀ (List.range c₀.shards.length) false
      if evicted then enforceLoop fuel else return ()
    else return ()

def enforceMemoryBudget (fuel : Nat) : CacheTask Unit :=
  if c₀.maxBytes = 0 then return () else enforceLoop env c₀ fuel

/-- A new entry: what leaves for it is refunded and the entry charged, under the mutex. -/
def pushNew (query : Query) (entry : DnsCacheEntry) : CacheTask Unit := do
  let evicted ← Prog.perform (Act.push (shardOf env c₀ query) query entry)
  refundEvicted env evicted
  Prog.perform (Act.addBytes .entry (entrySize env query entry : Int))

/-- The first part of an insertion: update in place or push, and count, under the mutex. -/
def storeEntry (query : Query) (data : DnsResponse) (validUntil : Nat) : CacheTask Unit := do
  let newEntry := DnsCacheEntry.new data validUntil
  Prog.perform (Act.lock (.shard (shardOf env c₀ query)))
  match ← Prog.perform (Act.refresh (shardOf env c₀ query) query data validUntil) with
  | some (_, entry) =>
    Prog.perform (Act.addBytes .entry
      ((entrySize env query newEntry : Int) - (entrySize env query entry : Int)))
    Prog.perform (Act.unlock (.shard (shardOf env c₀ query)))
  | none =>
    pushNew env c₀ query newEntry
    Prog.perform (Act.unlock (.shard (shardOf env c₀ query)))

def insert (fuel : Nat) (query : Query) (recordsAndTtl : List (Record × Nat)) (now : Nat)
    (nameServerGroup : String) : CacheTask DnsResponse := do
  let collapsed := collapseTtl recordsAndTtl
  let validUntil := now + secs collapsed.2
  let lookup := (DnsResponse.newWithDeadline query collapsed.1).withNameServerGroup nameServerGroup
  storeEntry env c₀ query lookup validUntil
  enforceMemoryBudget env c₀ fuel
  locking .heap (Act.heapPush (validUntil, query))
  return lookup

def insertNegative (fuel : Nat) (query : Query) (resp : DnsResponse) (ttl : Nat)
    (nameServerGroup : String) (now : Nat) : CacheTask Unit := do
  let data := (resp.withNameServerGroup nameServerGroup).setMaxTtl (asSecsU32 ttl)
  storeEntry env c₀ query data (now + ttl)
  enforceMemoryBudget env c₀ fuel

def insertGroups (fuel : Nat) (originalQuery : Query) (now : Nat) (group : String) :
    List (Query × List (Record × Nat)) → Option DnsResponse → CacheTask (Option DnsResponse)
  | [], lookup => return lookup
  | (query, recordsAndTtl) :: rest, lookup => do
    let inserted ← insert env c₀ fuel query recordsAndTtl now group
    insertGroups fuel originalQuery now group rest
      (if originalQuery == query then some inserted else lookup)

def insertRecords (fuel : Nat) (originalQuery : Query) (records : List Record) (now : Nat)
    (group : String) : CacheTask (Option DnsResponse) := do
  let groups := records.foldl groupRecord []
  let isCnameQuery := records.any fun r =>
    !(originalQuery == (⟨r.name, r.recordType, r.dnsClass⟩ : Query))
  if isCnameQuery then
    let lookup ← insert env c₀ fuel originalQuery (groups.flatMap Prod.snd) now group
    insertGroups env c₀ fuel originalQuery now group groups (some lookup)
  else insertGroups env c₀ fuel originalQuery now group groups none

/-- One entry of the cache file: it is counted after its shard has been released. -/
def loadEntry (entry : DnsCacheEntry) : CacheTask Unit := do
  let query := entry.data.query
  Prog.perform (Act.lock (.shard (shardOf env c₀ query)))
  let evicted ← Prog.perform (Act.push (shardOf env c₀ query) query entry)
  refundEvicted env evicted
  Prog.perform (Act.unlock (.shard (shardOf env c₀ query)))
  Prog.perform (Act.addBytes .entry (entrySize env query entry : Int))
  locking .heap (Act.heapPush (entry.validUntil, query))

def loadEntries : List DnsCacheEntry → CacheTask Unit
  | [] => return ()
  | entry :: rest => do
    loadEntry env c₀ entry
    loadEntries rest

def load (fuel : Nat) : Option (List DnsCacheEntry) → CacheTask Unit
  | none => return ()
  | some entries => do
    loadEntries env c₀ entries
    enforceMemoryBudget env c₀ fuel

def clearShards : List Nat → CacheTask Unit
  | [] => return ()
  | i :: rest => do
    locking (.shard i) (Act.clearShard i)
    clearShards rest

/-- The counter is reset once every mutex has been released. -/
def clear : CacheTask Unit := do
  clearShards (List.range c₀.shards.length)
  locking .heap Act.heapClear
  Prog.perform Act.resetBytes

def get (query : Query) (now : Nat) : CacheTask (Option (DnsResponse × CacheStatus)) := do
  let found ← locking (.shard (shardOf env c₀ query)) (Act.touch (shardOf env c₀ query) query .hit)
  return found.map fun p => c₀.entryReply query now p.2

/-- What becomes of a key whose shard is locked: the keys to put back and what is due. -/
def visitEntry (threshold baseInterval : Nat) (key : PrefetchKey) (requeue : List PrefetchKey)
    (expired : List (Query × Nat × Option String)) :
    CacheTask (List PrefetchKey × List (Query × Nat × Option String)) := do
  match ← Prog.perform (Act.touch (shardOf env c₀ key.2) key.2 .use) with
  | none => return (requeue, expired)
  | some (_, entry) =>
    if !shouldRetryPrefetch entry threshold baseInterval then return (requeue, expired)
    else if !key.2.queryType.isIpAddr then return (requeue, expired)
    else if entry.isCurrent threshold then
      return (requeue ++ [(entry.validUntil, key.2)], expired)
    else
      let _ ← Prog.perform (Act.touch (shardOf env c₀ key.2) key.2 .mark)
      return (requeue, expired ++ [(key.2, entry.hits, entry.data.nameServerGroup)])

/-- The loop of `get_expired`: the heap is released before a shard is locked. -/
def scanLoop (threshold baseInterval maxCount : Nat) :
    Nat → List PrefetchKey → List (Query × Nat × Option String) →
      CacheTask (List PrefetchKey × List (Query × Nat × Option String))
  | 0, requeue, expired => do
    Prog.perform Act.outOfFuel
    return (requeue, expired)
  | fuel + 1, requeue, expired => do
    match ← locking .heap Act.heapPop with
    | none => return (requeue, expired)
    | some key =>
      if key.1 > threshold || expired.length ≥ maxCount then
        return (requeue ++ [key], expired)
      else
        Prog.perform (Act.lock (.shard (shardOf env c₀ key.2)))
        let found ← visitEntry env c₀ threshold baseInterval key requeue expired
        Prog.perform (Act.unlock (.shard (shardOf env c₀ key.2)))
        scanLoop threshold baseInterval maxCount fuel found.1 found.2

def pushKeys : List PrefetchKey → CacheTask Unit
  | [] => return ()
  | key :: rest => do
    Prog.perform (Act.heapPush key)
    pushKeys rest

/-- The keys to put back go on the heap in one go. -/
def requeueKeys (requeue : List PrefetchKey) : CacheTask Unit :=
  if requeue.isEmpty then return ()
  else do
    Prog.perform (Act.lock .heap)
    pushKeys requeue
    Prog.perform (Act.unlock .heap)

/-- Scans the heap for entries that are due. -/
def getExpired (fuel : Nat) (now : Nat) (secondsAhead : Option Nat)
    (baseInterval maxCount : Nat) : CacheTask (List (Query × Option String) × Nat) := do
  let threshold := scanThreshold c₀ now secondsAhead
  let found ← scanLoop env c₀ threshold baseInterval maxCount fuel [] []
  requeueKeys found.1
  let top ← locking .heap Act.heapPeek
  let mostRecent :=
    match top with
    | some key =>
      if key.1 > threshold then min (key.1 - threshold) (secs DnsResponse.maxTtl)
      else secs DnsResponse.maxTtl
    | none => secs DnsResponse.maxTtl
  return ((found.2.insertionSort fun a b => a.2.1 ≥ b.2.1).map fun x => (x.1, x.2.2), mostRecent)

/-- The bindings of all shards, each locked in turn. -/
def collect : List Nat → CacheTask (List (Query × DnsCacheEntry))
  | [] => return []
  | i :: rest => do
    let items ← locking (.shard i) (Act.items i)
    let others ← collect rest
    return items ++ others

def entryCount : CacheTask Nat := do
  let items ← collect (List.range c₀.shards.length)
  return items.length

def snapshotEntries : CacheTask (List DnsCacheEntry) := do
  let items ← collect (List.range c₀.shards.length)
  return items.map Prod.snd

def cachedRecords : CacheTask (List (Query × List Record × Nat)) := do
  let items ← collect (List.range c₀.shards.length)
  return items.map fun p => (p.1, p.2.data.records, p.2.hits)

/-- The operations that may run at once. -/
inductive Task where
  | insert (query : Query) (recordsAndTtl : List (Record × Nat)) (now : Nat) (group : String)
  | insertNegative (query : Query) (resp : DnsResponse) (ttl : Nat) (group : String) (now : Nat)
  | insertRecords (query : Query) (records : List Record) (now : Nat) (group : String)
  | load (data : Option (List DnsCacheEntry))
  | clear
  | get (query : Query) (now : Nat)
  | getExpired (now : Nat) (secondsAhead : Option Nat) (baseInterval maxCount : Nat)
  | snapshotEntries
  | cachedRecords
  | entryCount
  | enforceMemoryBudget

/-- The program of an operation; its result goes to whoever called it. -/
def Task.prog (fuel : Nat) : Task → CacheTask Unit
  | .insert query recordsAndTtl now group => do
    let _ ← CacheTasks.insert env c₀ fuel query recordsAndTtl now group
  | .insertNegative query resp ttl group now =>
    CacheTasks.insertNegative env c₀ fuel query resp ttl group now
  | .insertRecords query records now group => do
    let _ ← CacheTasks.insertRecords env c₀ fuel query records now group
  | .load data => CacheTasks.load env c₀ fuel data
  | .clear => CacheTasks.clear c₀
  | .get query now => do
    let _ ← CacheTasks.get env c₀ query now
  | .getExpired now secondsAhead baseInterval maxCount => do
    let _ ← CacheTasks.getExpired env c₀ fuel now secondsAhead baseInterval maxCount
  | .snapshotEntries => do
    let _ ← CacheTasks.snapshotEntries c₀
  | .cachedRecords => do
    let _ ← CacheTasks.cachedRecords c₀
  | .entryCount => do
    let _ ← CacheTasks.entryCount c₀
  | .enforceMemoryBudget => CacheTasks.enforceMemoryBudget env c₀ fuel

end Tasks

/-! ## The shared cache -/

/-- The cache, the mutexes that are taken, and how many bytes of entries have been cleared since
the counter was last reset. -/
structure TaskWorld where
  cache : DnsCache
  locked : List LockId
  cleared : Nat

namespace TaskWorld

/-- Replace one shard and answer with what came out of it. -/
def onShard {β : Type} (w : TaskWorld) (i : Nat) (f : Shard → β × Shard) : Option (β × TaskWorld) :=
  (w.cache.shards[i]?).map fun s =>
    ((f s).1, { w with cache := { w.cache with shards := w.cache.shards.set i (f s).2 } })

def setHeap (w : TaskWorld) (heap : List PrefetchKey) : TaskWorld :=
  { w with cache := { w.cache with prefetchHeap := heap } }

def popHeap (w : TaskWorld) (order : HeapOrder) : Option PrefetchKey × TaskWorld :=
  match order.pop w.cache.prefetchHeap with
  | none => (none, w)
  | some (key, rest) => (some key, w.setHeap rest)

theorem popHeap_eq (w : TaskWorld) (order : HeapOrder) :
    ∃ heap, (w.popHeap order).2 = w.setHeap heap := by
  unfold popHeap
  split
  · exact ⟨w.cache.prefetchHeap, rfl⟩
  · exact ⟨_, rfl⟩

def setBytes (w : TaskWorld) (total : ByteCounter) : TaskWorld :=
  { w with cache := { w.cache with totalBytes := total } }

theorem onShard_eq_some {β : Type} {w w' : TaskWorld} {i : Nat} {f : Shard → β × Shard} {r : β}
    (h : w.onShard i f = some (r, w')) :
    ∃ s, w.cache.shards[i]? = some s ∧ r = (f s).1 ∧
      w' = { w with cache := { w.cache with shards := w.cache.shards.set i (f s).2 } } := by
  obtain ⟨s, hGet, hEq⟩ := Option.map_eq_some_iff.mp h
  cases hEq
  exact ⟨s, hGet, rfl, rfl⟩

/-- One step; a mutex that is taken cannot be taken. -/
def act (env : CacheEnv) (order : HeapOrder) (w : TaskWorld) :
    (o : Act) → Option (Act.Resp o × TaskWorld)
  | .lock l => if l ∈ w.locked then none else some ((), { w with locked := l :: w.locked })
  | .unlock l => some ((), { w with locked := w.locked.erase l })
  | .touch i query touch => w.onShard i fun s => (s.peek query, s.modify query touch.apply)
  | .refresh i query data validUntil =>
    w.onShard i fun s => (s.peek query, s.modify query fun e => e.refresh data validUntil)
  | .push i query entry => w.onShard i fun s => s.push query entry
  | .popLru i => w.onShard i fun s => s.popLru
  | .clearShard i =>
    (w.cache.shards[i]?).map fun s =>
      ((), { w with
        cache := { w.cache with shards := w.cache.shards.set i s.clear }
        cleared := w.cleared + s.weight (bindingSize env) })
  | .items i => (w.cache.shards[i]?).map fun s => (s.items, w)
  | .heapPush key => some ((), w.setHeap (key :: w.cache.prefetchHeap))
  | .heapPop => some (w.popHeap order)
  | .heapPeek => some ((order.pop w.cache.prefetchHeap).map Prod.fst, w)
  | .heapClear => some ((), w.setHeap [])
  | .loadBytes => some (w.cache.totalBytes.value, w)
  | .addBytes _ delta => some ((), w.setBytes (w.cache.totalBytes.addBytes delta))
  -- `store(0)`; that the counter has wrapped before is not forgotten
  | .resetBytes =>
    some ((), { w.setBytes { w.cache.totalBytes with value := 0 } with cleared := 0 })
  | .outOfFuel => none

end TaskWorld

/-! ## The protocol -/

/-- An entry that is stored and not yet counted. -/
structure Credit where
  key : Query
  size : Nat

/-- What a task has under way. -/
structure TaskGhost where
  held : List LockId
  credit : Option Credit
  refund : Nat
  resets : Bool

namespace TaskGhost

/-- A task that holds nothing and owes nothing to the counter. -/
def idle (resets : Bool) : TaskGhost := ⟨[], none, 0, resets⟩

/-- The same with one mutex taken. -/
def holding (l : LockId) (resets : Bool) : TaskGhost := ⟨[l], none, 0, resets⟩

/-- The bytes of the entry that left, if one did. -/
def leftBytes (env : CacheEnv) (left : Option (Query × DnsCacheEntry)) : Nat :=
  (left.map (bindingSize env)).getD 0

/-- What a step and its answer change. -/
def track (env : CacheEnv) (g : TaskGhost) : (o : Act) → Act.Resp o → TaskGhost
  | .lock l, _ => { g with held := l :: g.held }
  | .unlock l, _ => { g with held := g.held.erase l }
  | .refresh _ _ _ _, none => g
  -- the entry keeps the key it was stored under
  | .refresh _ _ data validUntil, some (key, entry) =>
    { g with
      credit := some ⟨key, entrySize env key (DnsCacheEntry.new data validUntil)⟩
      refund := entrySize env key entry }
  | .push _ query entry, evicted =>
    { g with
      credit := some ⟨query, entrySize env query entry⟩
      refund := leftBytes env evicted }
  | .popLru _, popped => { g with refund := leftBytes env popped }
  | .addBytes .refund _, _ => { g with refund := 0 }
  | .addBytes .entry _, _ => { g with credit := none, refund := 0 }
  | .resetBytes, _ => { g with resets := false }
  | _, _ => g

end TaskGhost

/-- The order in which a task takes its steps, for a cache of `n` shards. -/
def protocol (env : CacheEnv) (n : Nat) : Contract Act Act.Resp TaskGhost where
  pre
    | .lock _, g => g.held = [] ∧ g.credit = none
    | .unlock l, g => g.held = [l] ∧ g.refund = 0
    | .touch i _ _, g => g.held = [.shard i]
    | .refresh i query _ _, g =>
      g.held = [.shard i] ∧ shardIndexOf env query n = i ∧ g.credit = none ∧ g.refund = 0
    | .push i query _, g =>
      g.held = [.shard i] ∧ shardIndexOf env query n = i ∧ g.credit = none ∧ g.refund = 0
    | .popLru i, g => g.held = [.shard i] ∧ g.credit = none ∧ g.refund = 0
    | .clearShard i, g => g.held = [.shard i] ∧ g.credit = none ∧ g.resets = true
    | .items i, g => g.held = [.shard i]
    | .heapPush _, g => g.held = [.heap]
    | .heapPop, g => g.held = [.heap]
    | .heapPeek, g => g.held = [.heap]
    | .heapClear, g => g.held = [.heap]
    | .addBytes .refund delta, g => delta = -(g.refund : Int)
    | .addBytes .entry delta, g =>
      ∃ credit, g.credit = some credit ∧ delta = (credit.size : Int) - (g.refund : Int)
    | .resetBytes, g => g.held = [] ∧ g.resets = true
    | _, _ => True
  post o g r g' := g' = g.track env o r

/-! ## Every task keeps to the protocol -/

/-- The step that marks an entry. -/
def marking : Act → Bool
  | .touch _ _ .mark => true
  | _ => false

/-- The protocol for tasks of which only those with `m` mark entries. -/
def guarded (env : CacheEnv) (n : Nat) (m : Bool) : Contract Act Act.Resp TaskGhost :=
  (protocol env n).within fun o => marking o = true → m = true

section Sat

open TaskGhost

variable {env : CacheEnv} {c₀ : DnsCache} {m b : Bool}

/-- The program starts and ends with a task that holds and owes nothing. -/
def Rests {α : Type} (env : CacheEnv) (c₀ : DnsCache) (m b : Bool) (p : CacheTask α) : Prop :=
  Sat (guarded env c₀.shards.length m) p (idle b) fun _ g => g = idle b

variable {α : Type}

theorem Rests.done (a : α) : Rests env c₀ m b (.done a) := rfl

/-- A task that rests between two parts rests throughout. -/
theorem Rests.bind {β : Type} {p : CacheTask α} {f : α → CacheTask β} (hp : Rests env c₀ m b p)
    (hf : ∀ a, Rests env c₀ m b (f a)) : Rests env c₀ m b (p >>= f) := by
  refine Sat.seq hp ?_
  rintro a g rfl
  exact hf a

/-- Steps that need no mutex and leave the record of the task alone. -/
theorem Rests.perform {o : Act} {k : Act.Resp o → CacheTask α}
    (hPre : (guarded env c₀.shards.length m).pre o (idle b))
    (hTrack : ∀ r, (idle b).track env o r = idle b) (hk : ∀ r, Rests env c₀ m b (k r)) :
    Rests env c₀ m b (Prog.perform o >>= k) := by
  refine Sat.perform hPre ?_
  rintro r g rfl
  rw [hTrack]
  exact hk r

variable {l : LockId}

/-- Releasing the one mutex that is held, with nothing left to refund. -/
theorem sat_unlock {n : Nat} {credit : Option Credit} {k : Unit → CacheTask α}
    {Q : α → TaskGhost → Prop} (hk : Sat (guarded env n m) (k ()) ⟨[], credit, 0, b⟩ Q) :
    Sat (guarded env n m) (.call (Act.unlock l) k) ⟨[l], credit, 0, b⟩ Q := by
  refine ⟨⟨nofun, rfl, rfl⟩, ?_⟩
  rintro ⟨⟩ g hg
  have hRelease : g = ⟨[], credit, 0, b⟩ := by
    rw [hg]
    show TaskGhost.mk ([l].erase l) credit 0 b = _
    rw [erase_cons_head]
  rw [hRelease]
  exact hk

/-- An operation under its own lock leaves nothing held. -/
theorem rests_locking {o : Act} (hPre : (guarded env c₀.shards.length m).pre o (holding l b))
    (hTrack : ∀ r, (holding l b).track env o r = holding l b) :
    Rests env c₀ m b (locking l o) := by
  refine Sat.perform ⟨nofun, rfl, rfl⟩ ?_
  rintro _ _ rfl
  refine Sat.perform hPre ?_
  rintro r g hg
  have hSame : g = holding l b := hg.trans (hTrack r)
  rw [hSame]
  exact sat_unlock rfl

/-! ### Eviction and insertion -/

theorem rests_evictRound (is : List Nat) :
    ∀ evicted : Bool, Rests env c₀ m b (evictRound env c₀ is evicted) := by
  induction is with
  | nil =>
    intro evicted
    exact Rests.done evicted
  | cons i rest ih =>
    intro evicted
    refine Sat.perform ⟨nofun, rfl, rfl⟩ ?_
    rintro _ _ rfl
    refine Sat.perform ⟨nofun, rfl, rfl, rfl⟩ ?_
    rintro (_ | ⟨query, entry⟩) _ rfl
    · exact sat_unlock (ih evicted)
    · refine Sat.perform ⟨nofun, rfl⟩ ?_
      rintro _ _ rfl
      refine Sat.perform ⟨nofun, trivial⟩ ?_
      rintro used _ rfl
      refine sat_unlock ?_
      split
      · exact Rests.done true
      · exact ih true

theorem rests_enforceLoop (fuel : Nat) : Rests env c₀ m b (enforceLoop env c₀ fuel) := by
  induction fuel with
  | zero => exact Rests.perform ⟨nofun, trivial⟩ (fun _ => rfl) fun _ => rfl
  | succ fuel ih =>
    refine Rests.perform ⟨nofun, trivial⟩ (fun _ => rfl) ?_
    intro used
    split
    · refine Rests.bind (rests_evictRound _ false) ?_
      intro evicted
      split
      · exact ih
      · exact Rests.done ()
    · exact Rests.done ()

theorem rests_enforceMemoryBudget (fuel : Nat) :
    Rests env c₀ m b (enforceMemoryBudget env c₀ fuel) := by
  unfold enforceMemoryBudget
  split
  · exact Rests.done ()
  · exact rests_enforceLoop fuel

/-- What is evicted by a push is refunded before the entry is charged. -/
theorem sat_refundEvicted {n : Nat} {credit : Credit} {evicted : Option (Query × DnsCacheEntry)}
    {k : Unit → CacheTask α} {Q : α → TaskGhost → Prop}
    (hk : Sat (guarded env n m) (k ()) ⟨[l], some credit, 0, b⟩ Q) :
    Sat (guarded env n m) (refundEvicted env evicted >>= k)
      ⟨[l], some credit, leftBytes env evicted, b⟩ Q := by
  cases evicted with
  | none => exact hk
  | some p =>
    refine Sat.perform ⟨nofun, rfl⟩ ?_
    rintro ⟨⟩ _ rfl
    exact hk

/-- Pushing a new entry keeps to the protocol under the shard's lock. -/
theorem sat_pushNew (query : Query) (entry : DnsCacheEntry) :
    Sat (guarded env c₀.shards.length m) (pushNew env c₀ query entry)
      (holding (.shard (shardOf env c₀ query)) b)
      fun _ g => g = holding (.shard (shardOf env c₀ query)) b := by
  refine Sat.perform ⟨nofun, rfl, rfl, rfl, rfl⟩ ?_
  rintro evicted _ rfl
  refine sat_refundEvicted ?_
  refine ⟨⟨nofun, _, rfl, by simp⟩, ?_⟩
  rintro _ _ rfl
  rfl

/-- Both ways of storing an entry charge what they stored while the shard is locked. -/
theorem rests_storeEntry (query : Query) (data : DnsResponse) (validUntil : Nat) :
    Rests env c₀ m b (storeEntry env c₀ query data validUntil) := by
  refine Sat.perform ⟨nofun, rfl, rfl⟩ ?_
  rintro _ _ rfl
  refine Sat.perform ⟨nofun, rfl, rfl, rfl, rfl⟩ ?_
  rintro (_ | ⟨key, entry⟩) _ rfl
  · refine Sat.seq (sat_pushNew query (DnsCacheEntry.new data validUntil)) ?_
    rintro _ _ rfl
    exact sat_unlock rfl
  · have hSplit := CacheAccounting.entrySize_split env query key
      (DnsCacheEntry.new data validUntil) entry
    refine Sat.perform ⟨nofun, _, rfl, ?_⟩ ?_
    · show (entrySize env query (DnsCacheEntry.new data validUntil) : Int) -
        (entrySize env query entry : Int) =
        (entrySize env key (DnsCacheEntry.new data validUntil) : Int) -
          (entrySize env key entry : Int)
      omega
    · rintro _ _ rfl
      exact sat_unlock rfl

theorem rests_heapPush (key : PrefetchKey) : Rests env c₀ m b (locking .heap (Act.heapPush key)) :=
  rests_locking ⟨nofun, rfl⟩ fun _ => rfl

theorem rests_heapPeek : Rests env c₀ m b (locking .heap Act.heapPeek) :=
  rests_locking ⟨nofun, rfl⟩ fun _ => rfl

theorem rests_insert (fuel : Nat) (query : Query) (recordsAndTtl : List (Record × Nat)) (now : Nat)
    (group : String) : Rests env c₀ m b (insert env c₀ fuel query recordsAndTtl now group) := by
  refine Rests.bind (rests_storeEntry _ _ _) ?_
  intro _
  refine Rests.bind (rests_enforceMemoryBudget fuel) ?_
  intro _
  exact Rests.bind (rests_heapPush _) fun _ => Rests.done _

theorem rests_insertNegative (fuel : Nat) (query : Query) (resp : DnsResponse) (ttl : Nat)
    (group : String) (now : Nat) :
    Rests env c₀ m b (insertNegative env c₀ fuel query resp ttl group now) :=
  Rests.bind (rests_storeEntry _ _ _) fun _ => rests_enforceMemoryBudget fuel

theorem rests_insertGroups (fuel : Nat) (query : Query) (now : Nat) (group : String)
    (groups : List (Query × List (Record × Nat))) :
    ∀ lookup : Option DnsResponse,
      Rests env c₀ m b (insertGroups env c₀ fuel query now group groups lookup) := by
  induction groups with
  | nil =>
    intro lookup
    exact Rests.done lookup
  | cons g rest ih =>
    intro lookup
    exact Rests.bind (rests_insert fuel g.1 g.2 now group) fun inserted => ih _

/-- Storing an answer leaves nothing held. -/
theorem rests_insertRecords (fuel : Nat) (query : Query) (records : List Record) (now : Nat)
    (group : String) : Rests env c₀ m b (insertRecords env c₀ fuel query records now group) := by
  unfold insertRecords
  dsimp only
  split
  · refine Rests.bind (rests_insert fuel query _ now group) ?_
    intro lookup
    exact rests_insertGroups fuel query now group _ _
  · exact rests_insertGroups fuel query now group _ _

/-! ### Loading and clearing -/

theorem rests_loadEntry (entry : DnsCacheEntry) : Rests env c₀ m b (loadEntry env c₀ entry) := by
  refine Sat.perform ⟨nofun, rfl, rfl⟩ ?_
  rintro _ _ rfl
  refine Sat.perform ⟨nofun, rfl, rfl, rfl, rfl⟩ ?_
  rintro evicted _ rfl
  refine sat_refundEvicted ?_
  refine sat_unlock ?_
  refine Sat.perform ⟨nofun, _, rfl, by simp⟩ ?_
  rintro _ _ rfl
  exact rests_heapPush _

theorem rests_loadEntries (entries : List DnsCacheEntry) :
    Rests env c₀ m b (loadEntries env c₀ entries) := by
  induction entries with
  | nil => exact Rests.done ()
  | cons entry rest ih => exact Rests.bind (rests_loadEntry entry) fun _ => ih

theorem rests_load (fuel : Nat) (data : Option (List DnsCacheEntry)) :
    Rests env c₀ m b (load env c₀ fuel data) := by
  cases data with
  | none => exact Rests.done ()
  | some entries =>
    exact Rests.bind (rests_loadEntries entries) fun _ => rests_enforceMemoryBudget fuel

theorem rests_clearShards (is : List Nat) : Rests env c₀ m true (clearShards is) := by
  induction is with
  | nil => exact Rests.done ()
  | cons i rest ih =>
    exact Rests.bind (rests_locking ⟨nofun, rfl, rfl, rfl⟩ fun _ => rfl) fun _ => ih

/-- The one task that starts out with the counter to reset. -/
theorem sat_clear : Sat (guarded env c₀.shards.length m) (clear c₀) (idle true)
    fun _ g => g = idle false := by
  refine Sat.seq (rests_clearShards _) ?_
  rintro _ _ rfl
  refine Sat.seq (rests_locking ⟨nofun, rfl⟩ fun _ => rfl) ?_
  rintro _ _ rfl
  refine Sat.perform ⟨nofun, rfl, rfl⟩ ?_
  rintro _ _ rfl
  rfl

/-! ### Reading and scanning -/

theorem rests_get (query : Query) (now : Nat) : Rests env c₀ m b (get env c₀ query now) :=
  Rests.bind (rests_locking ⟨nofun, rfl⟩ fun _ => rfl) fun _ => Rests.done _

/-- Looking at an entry changes nothing of what the task has under way. -/
theorem sat_visitEntry (threshold baseInterval : Nat) (key : PrefetchKey)
    (requeue : List PrefetchKey) (expired : List (Query × Nat × Option String)) :
    Sat (guarded env c₀.shards.length true)
      (visitEntry env c₀ threshold baseInterval key requeue expired)
      (holding (.shard (shardOf env c₀ key.2)) b)
      fun _ g => g = holding (.shard (shardOf env c₀ key.2)) b := by
  refine Sat.perform ⟨nofun, rfl⟩ ?_
  rintro (_ | ⟨query, entry⟩) _ rfl
  · rfl
  · dsimp only
    split
    · rfl
    · split
      · rfl
      · split
        · rfl
        · refine Sat.perform ⟨fun _ => rfl, rfl⟩ ?_
          rintro _ _ rfl
          rfl

theorem rests_scanLoop (threshold baseInterval maxCount fuel : Nat) :
    ∀ (requeue : List PrefetchKey) (expired : List (Query × Nat × Option String)),
      Rests env c₀ true b
        (scanLoop env c₀ threshold baseInterval maxCount fuel requeue expired) := by
  induction fuel with
  | zero =>
    intro requeue expired
    exact Rests.perform ⟨nofun, trivial⟩ (fun _ => rfl) fun _ => rfl
  | succ fuel ih =>
    intro requeue expired
    refine Rests.bind rests_heapPeek ?_
    intro top
    cases top with
    | none => exact Rests.done _
    | some key =>
      dsimp only
      split
      · exact Rests.done _
      · refine Sat.perform ⟨nofun, rfl, rfl⟩ ?_
        rintro _ _ rfl
        refine Sat.seq (sat_visitEntry threshold baseInterval key requeue expired) ?_
        rintro found _ rfl
        exact sat_unlock (ih found.1 found.2)

theorem sat_pushKeys (keys : List PrefetchKey) :
    Sat (guarded env c₀.shards.length m) (pushKeys keys) (holding .heap b)
      fun _ g => g = holding .heap b := by
  induction keys with
  | nil => rfl
  | cons key rest ih =>
    refine Sat.perform ⟨nofun, rfl⟩ ?_
    rintro _ _ rfl
    exact ih

theorem rests_requeueKeys (requeue : List PrefetchKey) :
    Rests env c₀ m b (requeueKeys requeue) := by
  unfold requeueKeys
  split
  · exact Rests.done ()
  · refine Sat.perform ⟨nofun, rfl, rfl⟩ ?_
    rintro _ _ rfl
    refine Sat.seq (sat_pushKeys requeue) ?_
    rintro _ _ rfl
    exact sat_unlock rfl

/-- A scan for expired entries leaves nothing held. -/
theorem rests_getExpired (fuel now : Nat) (secondsAhead : Option Nat)
    (baseInterval maxCount : Nat) :
    Rests env c₀ true b (getExpired env c₀ fuel now secondsAhead baseInterval maxCount) := by
  refine Rests.bind (rests_scanLoop _ _ _ _ _ _) ?_
  intro found
  refine Rests.bind (rests_requeueKeys found.1) ?_
  intro _
  exact Rests.bind rests_heapPeek fun _ => Rests.done _

theorem rests_collect (is : List Nat) : Rests env c₀ m b (collect is) := by
  induction is with
  | nil => exact Rests.done []
  | cons i rest ih =>
    refine Rests.bind (rests_locking ⟨nofun, rfl⟩ fun _ => rfl) ?_
    intro items
    exact Rests.bind ih fun _ => Rests.done _

/-! ### All tasks -/

/-- Whether the task still has the counter to reset when it starts. -/
def Task.resets : Task → Bool
  | .clear => true
  | _ => false

def Task.scans : Task → Bool
  | .getExpired _ _ _ _ => true
  | _ => false

/-- Every task keeps to the protocol and ends with nothing held. -/
theorem sat_guarded (fuel : Nat) {task : Task} (hScan : task.scans = true → m = true) :
    Sat (guarded env c₀.shards.length m) (task.prog env c₀ fuel) (idle task.resets)
      fun _ g => g = idle false := by
  cases task with
  | insert query recordsAndTtl now group =>
    exact Rests.bind (rests_insert fuel query recordsAndTtl now group) fun _ => Rests.done ()
  | insertNegative query resp ttl group now =>
    exact rests_insertNegative fuel query resp ttl group now
  | insertRecords query records now group =>
    exact Rests.bind (rests_insertRecords fuel query records now group) fun _ => Rests.done ()
  | load data => exact rests_load fuel data
  | clear => exact sat_clear
  | get query now => exact Rests.bind (rests_get query now) fun _ => Rests.done ()
  | getExpired now secondsAhead baseInterval maxCount =>
    rw [hScan rfl]
    exact Rests.bind (rests_getExpired fuel now secondsAhead baseInterval maxCount)
      fun _ => Rests.done ()
  | snapshotEntries | cachedRecords | entryCount =>
    exact Rests.bind (Rests.bind (rests_collect _) fun _ => Rests.done _) fun _ => Rests.done ()
  | enforceMemoryBudget => exact rests_enforceMemoryBudget fuel

/-- Every task started from rest keeps to the protocol. -/
theorem sat_start (fuel : Nat) (task : Task) :
    Sat (protocol env c₀.shards.length) (task.prog env c₀ fuel) (idle task.resets)
      fun _ g => g = idle false :=
  Sat.of_within _ (sat_guarded (m := true) fuel fun _ => rfl)

end Sat

/-! ## Runs -/

/-- A task to start, with fuel for its loops. -/
structure Spawn where
  task : Task
  fuel : Nat

/-- Any number of tasks on the cache `c₀`. -/
def cacheSystem (env : CacheEnv) (order : HeapOrder) (c₀ : DnsCache) :
    System Act Act.Resp TaskWorld TaskGhost Spawn Unit Unit where
  start info := info.task.prog env c₀ info.fuel
  ghost info := .idle info.task.resets
  exec w g o _ := (w.act env order o).map fun x => (x.1, x.2, g.track env o x.1)

abbrev CachePool := Pool Act Act.Resp TaskWorld TaskGhost Spawn Unit

/-- Before any task has been started. -/
def startPool (c₀ : DnsCache) : CachePool := ⟨⟨c₀, [], 0⟩, []⟩

/-- A task waits at `lock` and holds what it has locked. -/
def lockView : LockView Act TaskGhost LockId where
  wants
    | .lock l => some l
    | _ => none
  held := TaskGhost.held

/-- All that a step can do. -/
theorem exec_eq {env : CacheEnv} {order : HeapOrder} {c₀ : DnsCache} {w w' : TaskWorld}
    {g g' : TaskGhost} {o : Act} {r : Act.Resp o}
    (h : (cacheSystem env order c₀).exec w g o () = some (r, w', g')) :
    w.act env order o = some (r, w') ∧ g' = g.track env o r := by
  obtain ⟨⟨r₁, w₁⟩, hAct, hEq⟩ := Option.map_eq_some_iff.mp h
  cases hEq
  exact ⟨hAct, rfl⟩

/-! ### Mutual exclusion -/

/-- The mutexes that are taken are those that tasks hold, each of them held once. -/
structure Exclusive (w : TaskWorld) (gs : List TaskGhost) : Prop where
  held : w.locked.Perm (gs.flatMap TaskGhost.held)
  once : w.locked.Nodup

section Exclusion

variable {env : CacheEnv} {order : HeapOrder} {n : Nat} {w w' : TaskWorld} {g : TaskGhost} {o : Act}
  {r : Act.Resp o}

/-- A mutex is taken by a task only while it is free. -/
theorem act_lock {l : LockId} {u : Unit}
    (hAct : w.act env order (.lock l) = some (u, w')) :
    l ∉ w.locked ∧ w' = { w with locked := l :: w.locked } := by
  replace hAct : (if l ∈ w.locked then none else some (_, _)) = some (u, w') := hAct
  split at hAct
  · cases hAct
  · rename_i hFree
    cases hAct
    exact ⟨hFree, rfl⟩

/-- Only two kinds of step change what is locked. -/
theorem act_locked (hAct : w.act env order o = some (r, w')) (hLock : ∀ l, o ≠ .lock l)
    (hUnlock : ∀ l, o ≠ .unlock l) : w'.locked = w.locked := by
  cases o with
  | lock l => exact absurd rfl (hLock l)
  | unlock l => exact absurd rfl (hUnlock l)
  | touch | refresh | push | popLru =>
    obtain ⟨s, -, -, rfl⟩ := TaskWorld.onShard_eq_some hAct
    rfl
  | clearShard | items =>
    obtain ⟨s, -, hEq⟩ := Option.map_eq_some_iff.mp hAct
    cases hEq
    rfl
  | heapPop =>
    have hPopped : (w.popHeap order).2 = w' := congrArg Prod.snd (Option.some.inj hAct)
    obtain ⟨heap, hHeap⟩ := w.popHeap_eq order
    rw [← hPopped, hHeap]
    rfl
  | heapPush | heapPeek | heapClear | loadBytes | addBytes | resetBytes => cases hAct; rfl
  | outOfFuel => cases hAct

theorem track_held (hLock : ∀ l, o ≠ .lock l) (hUnlock : ∀ l, o ≠ .unlock l) :
    (g.track env o r).held = g.held := by
  unfold TaskGhost.track
  split
  · exact absurd rfl (hLock _)
  · exact absurd rfl (hUnlock _)
  all_goals rfl

variable {rest : List TaskGhost}

/-- Steps that neither take nor release a mutex keep the exclusion. -/
theorem Exclusive.congr {g' : TaskGhost} (h : Exclusive w (g :: rest))
    (hLocked : w'.locked = w.locked) (hHeld : g'.held = g.held) : Exclusive w' (g' :: rest) := by
  refine ⟨?_, ?_⟩
  · rw [hLocked, flatMap_cons, hHeld]
    exact h.held
  · rw [hLocked]
    exact h.once

/-- One step of a task keeps every lock with one holder. -/
theorem Exclusive.step (h : Exclusive w (g :: rest)) (hPre : (protocol env n).pre o g)
    (hAct : w.act env order o = some (r, w')) :
    Exclusive w' (g.track env o r :: rest) := by
  by_cases hLock : ∃ l, o = .lock l
  · obtain ⟨l, rfl⟩ := hLock
    obtain ⟨hFree, rfl⟩ := act_lock hAct
    exact ⟨h.held.cons l, nodup_cons.mpr ⟨hFree, h.once⟩⟩
  · by_cases hUnlock : ∃ l, o = .unlock l
    · obtain ⟨l, rfl⟩ := hUnlock
      cases hAct
      obtain ⟨hHeld, -⟩ : g.held = [l] ∧ g.refund = 0 := hPre
      refine ⟨?_, h.once.erase l⟩
      have hLocked := h.held
      rw [flatMap_cons, hHeld] at hLocked
      have hRest := hLocked.erase l
      rw [singleton_append, erase_cons_head] at hRest
      show (w.locked.erase l).Perm (g.held.erase l ++ rest.flatMap TaskGhost.held)
      rw [hHeld, erase_cons_head]
      exact hRest
    · have hLock' : ∀ l, o ≠ .lock l := fun l hl => hLock ⟨l, hl⟩
      have hUnlock' : ∀ l, o ≠ .unlock l := fun l hl => hUnlock ⟨l, hl⟩
      exact h.congr (act_locked hAct hLock' hUnlock') (track_held hLock' hUnlock')

theorem Exclusive.perm {gs gs' : List TaskGhost} (h : Exclusive w gs) (hPerm : gs.Perm gs') :
    Exclusive w gs' :=
  ⟨h.held.trans (hPerm.flatMap_right _), h.once⟩

/-- A mutex that one task holds is held by no other. -/
theorem Exclusive.not_held (h : Exclusive w (g :: rest)) {l : LockId} (hl : l ∈ g.held)
    {u : TaskGhost} (hu : u ∈ rest) : l ∉ u.held := by
  intro hl'
  have hNodup := h.held.nodup_iff.mp h.once
  rw [flatMap_cons, nodup_append] at hNodup
  exact hNodup.2.2 l hl l (mem_flatMap.mpr ⟨u, hu, hl'⟩) rfl

end Exclusion

/-- In every run the mutexes are exclusive and every task is at a place the protocol allows. -/
theorem tasks_keep_protocol {env : CacheEnv} {order : HeapOrder} {c₀ : DnsCache}
    {es : List (PoolEvent Spawn Unit)} {p : CachePool}
    (hRun : runTrace (cacheSystem env order c₀).step (startPool c₀) es = some p) :
    System.PoolInv (protocol env c₀.shards.length) Exclusive
      (fun _ _ g => g = .idle false) p := by
  have hStart : Exclusive (startPool c₀).world [] := ⟨.nil, nodup_nil⟩
  refine System.symmetric_invariant ?_ ?_ ?_ hStart (stepsMeet_true _ es _) hRun
  · intro w gs gs' hPerm h
    exact h.perm hPerm
  · intro p info h _
    exact ⟨sat_start info.fuel info.task, h.held, h.once⟩
  · intro p tid a t o k r w' g' rest _ h _ _ hPre _ hExec
    obtain ⟨hAct, rfl⟩ := exec_eq hExec
    exact ⟨rfl, h.step hPre hAct⟩

/-- A task that is about to take a mutex holds none, so no tasks wait for each other in a
circle: any tasks, started at any time and interleaved in any way. -/
theorem lock_discipline (env : CacheEnv) (order : HeapOrder)
    (cacheSize expiredTtl expiredReplyTtl maxBytes : Nat) (es : List (PoolEvent Spawn Unit))
    (p : CachePool)
    (hRun : runTrace
      (cacheSystem env order (.new cacheSize expiredTtl expiredReplyTtl maxBytes)).step
      (startPool (.new cacheSize expiredTtl expiredReplyTtl maxBytes)) es = some p) :
    lockView.Disciplined p ∧ ¬ lockView.CircularWait p := by
  have hInv := tasks_keep_protocol hRun
  have hDisciplined : lockView.Disciplined p := by
    rintro t ht l ⟨o, k, hProg, hWants⟩
    have hPre := hInv.pre_of_call ht hProg
    cases o with
    | lock l' => exact hPre.1
    | _ => exact absurd hWants (by simp [lockView])
  exact ⟨hDisciplined, LockView.not_circularWait hDisciplined⟩

/-- An insertion has locked its shard, and a lookup of the same question waits for it. -/
def contendedRun : List (PoolEvent Spawn Unit) :=
  [.spawn ⟨.insert ServerRuns.exampleQuery [] 0 "default", 4⟩,
    .spawn ⟨.get ServerRuns.exampleQuery 0, 4⟩, .step 0 ()]

theorem lock_discipline_contendedRun :
    ∃ p, runTrace (cacheSystem ServerRuns.exampleEnv firstOrder (.new 4 0 0 0)).step
        (startPool (.new 4 0 0 0)) contendedRun = some p ∧
      lockView.WaitsFor p 1 0 ∧ lockView.Disciplined p ∧ ¬ lockView.CircularWait p := by
  refine ⟨_, rfl, ?_, lock_discipline _ _ _ _ _ _ contendedRun _ rfl⟩
  exact ⟨_, _, .shard 0, rfl, rfl, ⟨_, _, rfl, rfl⟩, mem_singleton_self _⟩

end SmartDns.Ports.CacheTasks
