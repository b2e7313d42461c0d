import SmartDns.Ports.ConfigLoader
import SmartDns.Verified.Trace

/-!
# Background tasks across reloads

Every chain of layers with a cache may start three tasks: a loop that writes the
cache to a file, a loop that scans the cache for entries to refresh, and a worker
that takes the refreshes from a channel. A reload builds a new chain and puts it
in the place of the old one. Requests that are under way keep the chain they
started with.

Nothing tells the tasks of the old chain to stop. The first loop ends with the
process only and the second never. The worker ends when the channel has no sender
left, but the scanning loop holds one.

Reloads run concurrently. Each stores its configuration, reads the stored one
back and then waits for the lock on the cache slot, under which it builds its
chain and installs it. The fields `built` and `written` of a `Runtime` are not in
the source: they record the chains built, the newest first, and the writes to
cache files. Chains are numbered in the order of building, and a cache and a
channel carry the number of their chain.
-/

namespace SmartDns.Ports.Reloads

open Verified ConfigLoader List

/-- What a configuration says about the tasks of the cache. -/
structure CacheSettings where
  cacheSize : Nat
  cachePersist : Bool
  cacheFile : Path
  prefetchDomain : Bool

/-- A chain of layers. -/
structure Chain where
  id : Nat
  settings : CacheSettings

namespace Chain

def hasCache (c : Chain) : Bool := decide (0 < c.settings.cacheSize)

/-- Does the chain start a loop that writes its cache to the file? -/
def persists (c : Chain) : Bool := c.hasCache && c.settings.cachePersist

/-- Does the chain start a scanning loop and a worker? -/
def prefetches (c : Chain) : Bool := c.hasCache && c.settings.prefetchDomain

/-- A cache, and the file it is written to. -/
def target (c : Chain) : Nat × Path := (c.id, c.settings.cacheFile)

end Chain

/-- A loop that writes a cache to a file, after it has tried to load the file. -/
structure Checkpoint where
  cache : Nat
  file : Path
  loaded : Bool

def Checkpoint.target (t : Checkpoint) : Nat × Path := (t.cache, t.file)

/-- A loop that scans a cache, with its clone of the sender. -/
structure Scan where
  cache : Nat
  sender : Option Nat

structure Runtime where
  cfg : CacheSettings
  /-- The chain that serves requests; there is none before the first is installed. -/
  current : Option Chain
  /-- The chain of the reload that holds the lock on the cache slot. -/
  building : Option Chain
  cacheSlot : Option Nat
  /-- Reloads that have stored their configuration and not read it back. -/
  unread : Nat
  /-- What the reloads that wait for the lock have read. -/
  waiting : List CacheSettings
  /-- The chains of the requests under way. -/
  requests : List Chain
  checkpoints : List Checkpoint
  /-- Snapshots on their way to a file. -/
  blocking : List (Nat × Path)
  scans : List Scan
  /-- The workers, by their channel. -/
  workers : List Nat
  terminating : Bool
  built : List Chain
  written : List (Nat × Path)

inductive Event where
  /-- `App::reload` reads the files; it gives up if they do not parse. -/
  | reload (loaded : Option CacheSettings)
  | readCfg
  /-- A reload takes the lock and builds its chain. -/
  | build (i : Nat)
  | install
  | requestBegins
  | requestEnds (i : Nat)
  | load (i : Nat)
  /-- The interval of a writing loop is over. -/
  | tick (i : Nat)
  /-- A snapshot reaches its file, or the file cannot be opened. -/
  | write (i : Nat) (opened : Bool)
  /-- A turn of a scanning loop, whatever it finds. -/
  | scan (i : Nat)
  /-- A turn of a worker. -/
  | recv (i : Nat)
  /-- The process is asked to terminate. -/
  | signal
  /-- A writing loop notices. -/
  | save (i : Nat) (opened : Bool)

namespace Runtime

/-- `App::new`, with the first build still to come. -/
def start (cfg : CacheSettings) : Runtime where
  cfg := cfg
  current := none
  building := none
  cacheSlot := none
  unread := 1
  waiting := []
  requests := []
  checkpoints := []
  blocking := []
  scans := []
  workers := []
  terminating := false
  built := []
  written := []

/-- Does the channel have a sender: one in a chain that is still held, or one in a loop? -/
def hasSender (s : Runtime) (channel : Nat) : Bool :=
  (s.current.toList ++ s.building.toList ++ s.requests).any
      (fun c => c.prefetches && c.id == channel) ||
    s.scans.any (fun t => t.sender == some channel)

/-- `build_middleware` with `DnsCacheMiddleware::new` and `start_prefetching`. -/
def buildMiddleware (s : Runtime) (c : Chain) : Runtime :=
  { s with
    building := some c
    built := c :: s.built
    cacheSlot := if c.hasCache then some c.id else s.cacheSlot
    checkpoints := if c.persists then ⟨c.id, c.settings.cacheFile, false⟩ :: s.checkpoints
      else s.checkpoints
    workers := if c.prefetches then c.id :: s.workers else s.workers
    scans := if c.prefetches then ⟨c.id, some c.id⟩ :: s.scans else s.scans }

def step (s : Runtime) : Event → Option Runtime
  | .reload none => some s
  | .reload (some cfg) => some { s with cfg := cfg, unread := s.unread + 1 }
  | .readCfg =>
    if 0 < s.unread then
      some { s with unread := s.unread - 1, waiting := s.waiting ++ [s.cfg] }
    else none
  | .build i =>
    match s.building, s.waiting[i]? with
    | none, some settings =>
      some (buildMiddleware { s with waiting := s.waiting.eraseIdx i }
        ⟨s.built.length, settings⟩)
    | _, _ => none
  | .install => s.building.map fun c => { s with current := some c, building := none }
  | .requestBegins => some { s with requests := s.current.toList ++ s.requests }
  | .requestEnds i => some { s with requests := s.requests.eraseIdx i }
  | .load i =>
    some { s with checkpoints := s.checkpoints.modify i fun t => { t with loaded := true } }
  | .tick i =>
    (s.checkpoints[i]?).bind fun t =>
      if t.loaded then some { s with blocking := t.target :: s.blocking } else none
  | .write i opened =>
    (s.blocking[i]?).map fun w =>
      { s with
        blocking := s.blocking.eraseIdx i
        written := if opened then w :: s.written else s.written }
  | .scan i => if i < s.scans.length then some s else none
  | .recv i =>
    (s.workers[i]?).map fun channel =>
      if s.hasSender channel then s else { s with workers := s.workers.eraseIdx i }
  | .signal => some { s with terminating := true }
  | .save i opened =>
    (s.checkpoints[i]?).bind fun t =>
      if s.terminating && t.loaded then
        some { s with
          checkpoints := s.checkpoints.eraseIdx i
          written := if opened then t.target :: s.written else s.written }
      else none

end Runtime

/-! ## What an event does -/

/-- All that an event can do to the chains, their tasks and what these write. -/
inductive Moves (s : Runtime) : Runtime → Prop where
  /-- Reading files, reading the settings, and requests that begin or end. -/
  | aside (cfg : CacheSettings) (unread : Nat) (waiting : List CacheSettings)
      (requests : List Chain) :
      Moves s { s with cfg := cfg, unread := unread, waiting := waiting, requests := requests }
  | build (waiting : List CacheSettings) (settings : CacheSettings) :
      Moves s (Runtime.buildMiddleware { s with waiting := waiting } ⟨s.built.length, settings⟩)
  | install {c : Chain} (h : s.building = some c) :
      Moves s { s with current := some c, building := none }
  | load (i : Nat) :
      Moves s { s with checkpoints := s.checkpoints.modify i fun t => { t with loaded := true } }
  | tick {t : Checkpoint} (h : t ∈ s.checkpoints) :
      Moves s { s with blocking := t.target :: s.blocking }
  | write {w : Nat × Path} (h : w ∈ s.blocking) (i : Nat) (opened : Bool) :
      Moves s { s with
        blocking := s.blocking.eraseIdx i
        written := if opened then w :: s.written else s.written }
  | recv {channel : Nat} (h : channel ∈ s.workers) (i : Nat) :
      Moves s (if s.hasSender channel then s else { s with workers := s.workers.eraseIdx i })
  | signal : Moves s { s with terminating := true }
  | save {t : Checkpoint} (h : t ∈ s.checkpoints) (hSignal : s.terminating = true) (i : Nat)
      (opened : Bool) :
      Moves s { s with
        checkpoints := s.checkpoints.eraseIdx i
        written := if opened then t.target :: s.written else s.written }

theorem Moves.refl (s : Runtime) : Moves s s := .aside s.cfg s.unread s.waiting s.requests

variable {s s' : Runtime} {e : Event}

/-- Every step moves the runtime in one of the ways listed. -/
theorem moves_of_step (h : s.step e = some s') : Moves s s' := by
  cases e with
  | reload loaded =>
    cases loaded with
    | none =>
      cases h
      exact .refl s
    | some cfg =>
      cases h
      exact .aside cfg (s.unread + 1) s.waiting s.requests
  | readCfg =>
    simp only [Runtime.step] at h
    split at h
    · cases h
      exact .aside s.cfg _ _ s.requests
    · cases h
  | build i =>
    simp only [Runtime.step] at h
    split at h
    · cases h
      exact .build _ _
    · cases h
  | install =>
    obtain ⟨c, hc, rfl⟩ := Option.map_eq_some_iff.mp h
    exact .install hc
  | requestBegins | requestEnds =>
    cases h
    exact .aside s.cfg s.unread s.waiting _
  | load i =>
    cases h
    exact .load i
  | tick i =>
    obtain ⟨t, ht, hLoaded⟩ := Option.bind_eq_some_iff.mp h
    split at hLoaded
    · cases hLoaded
      exact .tick (mem_of_getElem? ht)
    · cases hLoaded
  | write i opened =>
    obtain ⟨w, hw, rfl⟩ := Option.map_eq_some_iff.mp h
    exact .write (mem_of_getElem? hw) i opened
  | scan i =>
    simp only [Runtime.step] at h
    split at h
    · cases h
      exact .refl s
    · cases h
  | recv i =>
    obtain ⟨channel, hMem, rfl⟩ := Option.map_eq_some_iff.mp h
    exact .recv (mem_of_getElem? hMem) i
  | signal =>
    cases h
    exact .signal
  | save i opened =>
    obtain ⟨t, ht, hSaved⟩ := Option.bind_eq_some_iff.mp h
    split at hSaved
    · rename_i hBoth
      cases hSaved
      rw [Bool.and_eq_true] at hBoth
      exact .save (mem_of_getElem? ht) hBoth.1 i opened
    · cases hSaved

/-! ## The tasks of all chains -/

/-- The tasks of a run are those of the chains it has built. -/
structure Inv (s : Runtime) : Prop where
  numbered : ∀ c ∈ s.built, c.id < s.built.length
  nodup : (s.built.map Chain.id).Nodup
  newest : s.building.or s.current = s.built.head?
  checkpoints : (s.checkpoints.map Checkpoint.target).Sublist
    ((s.built.filter Chain.persists).map Chain.target)
  allCheckpoints : s.terminating = false →
    s.checkpoints.map Checkpoint.target = (s.built.filter Chain.persists).map Chain.target
  blocking : ∀ w ∈ s.blocking, w ∈ (s.built.filter Chain.persists).map Chain.target
  scans : s.scans = (s.built.filter Chain.prefetches).map fun c => ⟨c.id, some c.id⟩
  workers : s.workers = (s.built.filter Chain.prefetches).map Chain.id

/-- A worker is never without a sender, since the scanning loop of its chain is alive. -/
theorem Inv.hasSender (h : Inv s) {channel : Nat} (hMem : channel ∈ s.workers) :
    s.hasSender channel = true := by
  rw [h.workers] at hMem
  obtain ⟨c, hc, rfl⟩ := mem_map.mp hMem
  have hScan : (⟨c.id, some c.id⟩ : Scan) ∈ s.scans := by
    rw [h.scans]
    exact mem_map.mpr ⟨c, hc, rfl⟩
  rw [Runtime.hasSender, Bool.or_eq_true]
  exact .inr (any_eq_true.mpr ⟨_, hScan, beq_self_eq_true _⟩)

theorem inv_start (cfg : CacheSettings) : Inv (Runtime.start cfg) where
  numbered := by simp [Runtime.start]
  nodup := by simp [Runtime.start]
  newest := rfl
  checkpoints := by simp [Runtime.start]
  allCheckpoints := by simp [Runtime.start]
  blocking := by simp [Runtime.start]
  scans := rfl
  workers := rfl

theorem Inv.buildMiddleware (h : Inv s) (settings : CacheSettings) :
    Inv (s.buildMiddleware ⟨s.built.length, settings⟩) where
  numbered := by
    intro c hc
    rcases mem_cons.mp hc with hNew | hOld
    · rw [hNew]
      simp [Runtime.buildMiddleware]
    · exact Nat.lt_succ_of_lt (h.numbered c hOld)
  nodup := by
    refine nodup_cons.mpr ⟨?_, h.nodup⟩
    intro hMem
    obtain ⟨c, hc, hId⟩ := mem_map.mp hMem
    exact absurd hId (Nat.ne_of_lt (h.numbered c hc))
  newest := rfl
  checkpoints := by
    simp only [Runtime.buildMiddleware, filter_cons]
    split
    · exact h.checkpoints.cons_cons _
    · exact h.checkpoints
  allCheckpoints := by
    intro hLive
    simp only [Runtime.buildMiddleware, filter_cons]
    split
    · rw [map_cons, h.allCheckpoints hLive]
      rfl
    · exact h.allCheckpoints hLive
  blocking := by
    intro w hw
    have hOld := h.blocking w hw
    simp only [Runtime.buildMiddleware, filter_cons]
    split
    · exact .tail _ hOld
    · exact hOld
  scans := by
    simp only [Runtime.buildMiddleware, filter_cons]
    split
    · rw [map_cons, h.scans]
    · exact h.scans
  workers := by
    simp only [Runtime.buildMiddleware, filter_cons]
    split
    · rw [map_cons, h.workers]
    · exact h.workers

/-- Every step keeps the runtime's invariant. -/
theorem Inv.step (h : Inv s) (hStep : s.step e = some s') : Inv s' := by
  cases moves_of_step hStep with
  | aside cfg unread waiting requests => exact { h with }
  | build waiting settings =>
    have hWaiting : Inv { s with waiting := waiting } := { h with }
    exact hWaiting.buildMiddleware settings
  | install hc =>
    have hNewest := h.newest
    rw [hc] at hNewest
    exact { h with newest := hNewest }
  | load i =>
    have hSame : (s.checkpoints.modify i fun t => { t with loaded := true }).map
        Checkpoint.target = s.checkpoints.map Checkpoint.target := by
      refine ext_getElem? fun j => ?_
      rw [getElem?_map, getElem?_map, getElem?_modify]
      cases s.checkpoints[j]? with
      | none => rfl
      | some t => simp [Checkpoint.target, apply_ite Checkpoint.cache, apply_ite Checkpoint.file]
    exact { h with
      checkpoints := hSame ▸ h.checkpoints
      allCheckpoints := fun hLive => hSame.trans (h.allCheckpoints hLive) }
  | tick ht =>
    refine { h with blocking := ?_ }
    exact forall_mem_cons.mpr ⟨h.checkpoints.subset (mem_map_of_mem ht), h.blocking⟩
  | write _ i opened =>
    exact { h with blocking := fun w' hw' => h.blocking w' (mem_of_mem_eraseIdx hw') }
  | recv hMem i =>
    rw [if_pos (h.hasSender hMem)]
    exact h
  | signal =>
    exact { h with allCheckpoints := fun hLive => absurd hLive.symm Bool.false_ne_true }
  | save _ hSignal i opened =>
    refine { h with checkpoints := ?_, allCheckpoints := ?_ }
    · exact ((eraseIdx_sublist _ _).map _).trans h.checkpoints
    · intro hLive
      exact absurd (hLive.symm.trans hSignal) Bool.false_ne_true

/-- The runtime's invariant holds after every run. -/
theorem Inv.run {cfg : CacheSettings} {events : List Event}
    (hRun : runTrace Runtime.step (.start cfg) events = some s) : Inv s :=
  runTrace_always Runtime.step (fun _ _ _ h hStep => h.step hStep) events (inv_start cfg) hRun

/-! ## One chain with tasks -/

/-- At most one task of each kind, each with the cache of the current chain. -/
structure Bounded (s : Runtime) : Prop where
  checkpoints : s.checkpoints.length ≤ 1 ∧
    ∀ t ∈ s.checkpoints, s.current.map Chain.id = some t.cache
  scans : s.scans.length ≤ 1 ∧ ∀ t ∈ s.scans, s.current.map Chain.id = some t.cache
  workers : s.workers.length ≤ 1 ∧ ∀ channel ∈ s.workers, s.current.map Chain.id = some channel

/-- If only the newest chain passes a test, there is at most one that does. -/
theorem Inv.filter_newest (h : Inv s) (hIdle : s.building = none) {p : Chain → Bool}
    (hOld : ∀ c ∈ s.built.tail, p c = false) :
    (s.built.filter p).length ≤ 1 ∧ ∀ c ∈ s.built.filter p, s.current = some c := by
  have hNewest := h.newest
  rw [hIdle] at hNewest
  cases hBuilt : s.built with
  | nil => simp
  | cons newest old =>
    rw [hBuilt] at hOld hNewest
    have hNone : old.filter p = [] := filter_eq_nil_iff.mpr fun c hc => by simp [hOld c hc]
    rw [filter_cons, hNone]
    split
    · refine ⟨Nat.le_refl 1, fun c hc => ?_⟩
      rw [mem_singleton.mp hc]
      exact hNewest
    · exact ⟨Nat.zero_le 1, nofun⟩

/-- Only the current cache at the state `s` and those of later chains are written. -/
structure WritesOnly (s s' : Runtime) : Prop where
  grows : s.built.length ≤ s'.built.length
  checkpoints : ∀ t ∈ s'.checkpoints,
    s.current.map Chain.id = some t.cache ∨ s.built.length ≤ t.cache
  blocking : ∀ w ∈ s'.blocking, s.current.map Chain.id = some w.1 ∨ s.built.length ≤ w.1
  written : ∃ new, s'.written = new ++ s.written ∧
    ∀ w ∈ new, s.current.map Chain.id = some w.1 ∨ s.built.length ≤ w.1

theorem WritesOnly.write (h : WritesOnly s s') {w : Nat × Path} {opened : Bool}
    (hw : s.current.map Chain.id = some w.1 ∨ s.built.length ≤ w.1) :
    ∃ new, (if opened then w :: s'.written else s'.written) = new ++ s.written ∧
      ∀ w ∈ new, s.current.map Chain.id = some w.1 ∨ s.built.length ≤ w.1 := by
  obtain ⟨new, hNew, hAll⟩ := h.written
  cases opened with
  | false => exact ⟨new, hNew, hAll⟩
  | true =>
    refine ⟨w :: new, by rw [hNew]; rfl, ?_⟩
    exact forall_mem_cons.mpr ⟨hw, hAll⟩

theorem WritesOnly.buildMiddleware (h : WritesOnly s s') (settings : CacheSettings) :
    WritesOnly s (s'.buildMiddleware ⟨s'.built.length, settings⟩) where
  grows := Nat.le_succ_of_le h.grows
  checkpoints := by
    intro t ht
    simp only [Runtime.buildMiddleware] at ht
    split at ht
    · rcases mem_cons.mp ht with hNew | hOld
      · rw [hNew]
        exact .inr h.grows
      · exact h.checkpoints t hOld
    · exact h.checkpoints t ht
  blocking := h.blocking
  written := h.written

/-- A later step writes for the current chain or a newer one. -/
theorem WritesOnly.step {s'' : Runtime} (h : WritesOnly s s') (hStep : s'.step e = some s'') :
    WritesOnly s s'' := by
  cases moves_of_step hStep with
  | aside cfg unread waiting requests => exact { h with }
  | build waiting settings =>
    have hWaiting : WritesOnly s { s' with waiting := waiting } := { h with }
    exact hWaiting.buildMiddleware settings
  | install hc => exact { h with }
  | load i =>
    refine { h with checkpoints := ?_ }
    intro t ht
    obtain ⟨j, hj⟩ := mem_iff_getElem?.mp ht
    rw [getElem?_modify] at hj
    obtain ⟨t', ht', rfl⟩ := Option.map_eq_some_iff.mp hj
    have hOld := h.checkpoints t' (mem_of_getElem? ht')
    split
    · exact hOld
    · exact hOld
  | tick ht =>
    refine { h with blocking := ?_ }
    exact forall_mem_cons.mpr ⟨h.checkpoints _ ht, h.blocking⟩
  | write hw i opened =>
    exact { h with
      blocking := fun w' hw' => h.blocking w' (mem_of_mem_eraseIdx hw')
      written := h.write (h.blocking _ hw) }
  | recv hMem i =>
    split
    · exact h
    · exact { h with }
  | signal => exact { h with }
  | save ht _ i opened =>
    exact { h with
      checkpoints := fun t' ht' => h.checkpoints t' (mem_of_mem_eraseIdx ht')
      written := h.write (h.checkpoints _ ht) }

/-- **Background tasks stay bounded** over any number of reloads, if every chain built before
the newest has no cache, or neither writes it to a file nor prefetches: there is at most one
task of each kind, and from then on no cache is written but the current one and those of
chains still to be built. -/
theorem tasks_bounded (cfg : CacheSettings) (events : List Event) (s : Runtime)
    (hRun : runTrace Runtime.step (.start cfg) events = some s) (hIdle : s.building = none)
    (hOld : ∀ c ∈ s.built.tail, c.persists = false ∧ c.prefetches = false) :
    Bounded s ∧ ∀ later s', runTrace Runtime.step s later = some s' →
      ∃ new, s'.written = new ++ s.written ∧
        ∀ w ∈ new, s.current.map Chain.id = some w.1 ∨ s.built.length ≤ w.1 := by
  have hInv := Inv.run hRun
  have hPersists := hInv.filter_newest hIdle fun c hc => (hOld c hc).1
  have hPrefetches := hInv.filter_newest hIdle fun c hc => (hOld c hc).2
  have hTargets : ∀ w ∈ (s.built.filter Chain.persists).map Chain.target,
      s.current.map Chain.id = some w.1 := by
    intro w hw
    obtain ⟨c, hc, rfl⟩ := mem_map.mp hw
    rw [hPersists.2 c hc]
    rfl
  have hCheckpoints : ∀ t ∈ s.checkpoints, s.current.map Chain.id = some t.cache := fun t ht =>
    hTargets t.target (hInv.checkpoints.subset (mem_map_of_mem ht))
  refine ⟨⟨⟨?_, hCheckpoints⟩, ⟨?_, ?_⟩, ⟨?_, ?_⟩⟩, ?_⟩
  · have hLength := hInv.checkpoints.length_le
    rw [length_map, length_map] at hLength
    exact hLength.trans hPersists.1
  · rw [hInv.scans, length_map]
    exact hPrefetches.1
  · intro t ht
    rw [hInv.scans] at ht
    obtain ⟨c, hc, rfl⟩ := mem_map.mp ht
    rw [hPrefetches.2 c hc]
    rfl
  · rw [hInv.workers, length_map]
    exact hPrefetches.1
  · intro channel hChannel
    rw [hInv.workers] at hChannel
    obtain ⟨c, hc, rfl⟩ := mem_map.mp hChannel
    rw [hPrefetches.2 c hc]
    rfl
  · intro later s' hLater
    have hStart : WritesOnly s s :=
      { grows := Nat.le_refl _
        checkpoints := fun t ht => .inl (hCheckpoints t ht)
        blocking := fun w hw => .inl (hTargets w (hInv.blocking w hw))
        written := ⟨[], rfl, nofun⟩ }
    exact (runTrace_always Runtime.step (fun _ _ _ h hStep => WritesOnly.step h hStep) later hStart
      hLater).written

/-! ## Two configurations -/

/-- A cache in memory only. -/
def volatileSettings : CacheSettings := ⟨512, false, .ofName (ascii "smartdns.cache"), false⟩

/-- A cache with a file and prefetching. -/
def durableSettings : CacheSettings := ⟨512, true, .ofName (ascii "smartdns.cache"), true⟩

/-- The update of the handler, with nothing in between. -/
def update : List Event := [.readCfg, .build 0, .install]

/-- A reload to a configuration that writes its cache. -/
theorem tasks_bounded_durable :
    ∃ s, runTrace Runtime.step (.start volatileSettings)
        (update ++ .reload (some durableSettings) :: update) = some s ∧
      s.checkpoints.length = 1 ∧ s.scans.length = 1 ∧ s.workers.length = 1 ∧ Bounded s := by
  refine ⟨_, rfl, rfl, rfl, rfl, ?_⟩
  exact (tasks_bounded volatileSettings (update ++ .reload (some durableSettings) :: update) _
    rfl rfl (by decide)).1

/-- A reload from that configuration to itself: all tasks of the first chain live on, the worker
has its turn and goes on, and the loop of the first chain writes its cache to the file. -/
theorem reload_leaks_tasks :
    ∃ s, runTrace Runtime.step (.start durableSettings)
        (update ++ .reload (some durableSettings) :: update ++
          [.recv 1, .load 1, .tick 1, .write 0 true]) = some s ∧
      s.building = none ∧ s.requests.length = 0 ∧ s.current.map Chain.id = some 1 ∧
      s.checkpoints.map Checkpoint.cache = [1, 0] ∧ s.scans.map Scan.cache = [1, 0] ∧
      s.workers = [1, 0] ∧ s.written = [(0, .ofName (ascii "smartdns.cache"))] ∧ ¬Bounded s := by
  refine ⟨_, rfl, rfl, rfl, rfl, rfl, rfl, rfl, rfl, ?_⟩
  intro hBounded
  exact absurd hBounded.checkpoints.1 (by decide)

end SmartDns.Ports.Reloads
