import SmartDns.Ports.CacheRaces

/-!
# Prefetch scans under concurrency

Any number of scans may run at once, among insertions, evictions, loads and
clears. A scan pops a key under the mutex of the heap and looks at the entry
under the mutex of its shard, so other tasks come in between: the key may be
one of many for its question, and the entry another one than the key was pushed
for. What keeps two scans from handing out one question is the mark. It is
tested and set while the shard is locked, an update in place leaves it alone,
and an entry without it only comes in by a push.

The runs of this module record what matters, in the order of the steps: that an
entry was stored for a question, and that a question was handed out, with the
entry that the scan had found. A task's ghost state has the entry it is looking
at and the places in the record where it has handed something out.
-/

namespace SmartDns.Ports.PrefetchRaces

open Verified DnsMessage CacheStore PrefetchScan CacheTasks CacheRaces List

/-! ## Recorded runs -/

/-- An entry was stored, or a question handed out for the entry that was found, by a scan with a
threshold and an interval. -/
inductive Event where
  | stored (query : Query)
  | returned (query : Query) (entry : DnsCacheEntry) (threshold baseInterval : Nat)

structure LoggedWorld where
  world : TaskWorld
  log : List Event

/-- The binding that a task has found in a shard and looks at. -/
structure Seen where
  shard : Nat
  query : Query
  binding : Query × DnsCacheEntry

/-- What a scan looks at, and what it has handed out at which places of the record. -/
structure ScanGhost where
  threshold : Nat
  baseInterval : Nat
  seen : Option Seen
  marks : List (Nat × Query)

/-- What a step and its answer change, at a place of the record. -/
def ScanGhost.track (g : ScanGhost) (place : Nat) : (o : Act) → Act.Resp o → ScanGhost
  | .touch i query .use, found => { g with seen := found.map fun b => ⟨i, query, b⟩ }
  | .touch _ query .mark, _ => { g with seen := none, marks := g.marks ++ [(place, query)] }
  | _, _ => { g with seen := none }

/-- What a step adds to the record. -/
def ScanGhost.events (g : ScanGhost) : (o : Act) → Act.Resp o → List Event
  | .refresh _ query _ _, some _ => [.stored query]
  | .push _ query _, _ => [.stored query]
  | .touch _ query .mark, some (_, entry) => [.returned query entry g.threshold g.baseInterval]
  | _, _ => []

abbrev CallGhost := TaskGhost × ScanGhost

/-- A task before its first step. -/
def ScanGhost.start (c₀ : DnsCache) : Task → ScanGhost
  | .getExpired now secondsAhead baseInterval _ =>
    ⟨scanThreshold c₀ now secondsAhead, baseInterval, none, []⟩
  | _ => ⟨0, 0, none, []⟩

/-- The program of a task, with the questions it returns if it is a scan. -/
def returns (env : CacheEnv) (c₀ : DnsCache) (fuel : Nat) :
    Task → CacheTask (List (Query × Option String))
  | .getExpired now secondsAhead baseInterval maxCount => do
    let found ← CacheTasks.getExpired env c₀ fuel now secondsAhead baseInterval maxCount
    return found.1
  | task => do
    task.prog env c₀ fuel
    return []

/-- Any number of tasks on the cache `c₀`, with a record of what they do. -/
def prefetchSystem (env : CacheEnv) (order : HeapOrder) (c₀ : DnsCache) :
    System Act Act.Resp LoggedWorld CallGhost Spawn Unit (List (Query × Option String)) where
  start info := returns env c₀ info.fuel info.task
  ghost info := (.idle info.task.resets, .start c₀ info.task)
  exec w g o _ := (w.world.act env order o).map fun x =>
    (x.1, ⟨x.2, w.log ++ g.2.events o x.1⟩, (g.1.track env o x.1, g.2.track w.log.length o x.1))

abbrev PrefetchPool :=
  Pool Act Act.Resp LoggedWorld CallGhost Spawn (List (Query × Option String))

def startRecord (c₀ : DnsCache) : PrefetchPool := ⟨⟨⟨c₀, [], 0⟩, []⟩, []⟩

/-- All that a step can do. -/
theorem exec_eq {env : CacheEnv} {order : HeapOrder} {c₀ : DnsCache} {w w' : LoggedWorld}
    {g g' : CallGhost} {o : Act} {r : Act.Resp o}
    (h : (prefetchSystem env order c₀).exec w g o () = some (r, w', g')) :
    w.world.act env order o = some (r, w'.world) ∧ w'.log = w.log ++ g.2.events o r ∧
      g' = (g.1.track env o r, g.2.track w.log.length o r) := by
  obtain ⟨⟨r₁, w₁⟩, hAct, hEq⟩ := Option.map_eq_some_iff.mp h
  cases hEq
  exact ⟨hAct, rfl, rfl⟩

/-! ## The rules of a scan -/

/-- The entry is due for a refresh. -/
structure Due (threshold baseInterval : Nat) (query : Query) (entry : DnsCacheEntry) : Prop where
  ipAddr : query.queryType.isIpAddr = true
  past : entry.validUntil < threshold
  retry : shouldRetryPrefetch entry threshold baseInterval = true

/-- Only a due entry is marked, and only the one that is looked at, in the shard of its question. -/
def scanRules (env : CacheEnv) (n : Nat) : Contract Act Act.Resp ScanGhost where
  pre
    | .touch i query .mark, g =>
      i = shardIndexOf env query n ∧ ∃ b, g.seen = some ⟨i, query, b⟩ ∧
        Due g.threshold g.baseInterval query b.2
    | _, _ => True
  post o g r g' := ∃ place, g' = g.track place o r

theorem eq_mark {o : Act} (h : marking o = true) : ∃ i query, o = .touch i query .mark := by
  unfold marking at h
  split at h
  · exact ⟨_, _, rfl⟩
  · cases h

section Rules

variable {env : CacheEnv} {n : Nat} {g : ScanGhost} {o : Act}

theorem pre_of_not_marking (h : marking o = false) : (scanRules env n).pre o g := by
  unfold scanRules
  dsimp only
  split
  · cases h
  · trivial

/-- Other steps hand out nothing. -/
theorem track_of_not_marking (h : marking o = false) (place : Nat) (r : Act.Resp o) :
    (g.track place o r).threshold = g.threshold ∧
      (g.track place o r).baseInterval = g.baseInterval ∧
      (g.track place o r).marks = g.marks := by
  unfold ScanGhost.track
  split
  · exact ⟨rfl, rfl, rfl⟩
  · cases h
  · exact ⟨rfl, rfl, rfl⟩

/-- A scan with these settings has handed out these questions. -/
structure Reports (threshold baseInterval : Nat) (questions : List Query) (g : ScanGhost) :
    Prop where
  threshold : g.threshold = threshold
  baseInterval : g.baseInterval = baseInterval
  marks : g.marks.map Prod.snd = questions

theorem Reports.track {threshold baseInterval : Nat} {questions : List Query}
    (hg : Reports threshold baseInterval questions g) (h : marking o = false) (place : Nat)
    (r : Act.Resp o) : Reports threshold baseInterval questions (g.track place o r) := by
  obtain ⟨hThreshold, hInterval, hMarks⟩ := track_of_not_marking (g := g) h place r
  exact ⟨hThreshold.trans hg.threshold, hInterval.trans hg.baseInterval, by rw [hMarks, hg.marks]⟩

end Rules

/-! ## Scans -/

section Scans

variable {env : CacheEnv} {c₀ : DnsCache} {n threshold baseInterval maxCount : Nat}

/-- Steps of a task that is not allowed to mark an entry hand out nothing. -/
theorem sat_unmarked {α : Type} {p : CacheTask α} {g₀ : TaskGhost} {Q : α → TaskGhost → Prop}
    (hp : Sat (guarded env n false) p g₀ Q) {questions : List Query} {g : ScanGhost}
    (hg : Reports threshold baseInterval questions g) :
    Sat (scanRules env n) p g fun _ g' => Reports threshold baseInterval questions g' := by
  have hQuiet : ∀ o g, (guarded env n false).pre o g → marking o = false :=
    fun o g hPre => Bool.eq_false_iff.mpr fun hMark => nomatch hPre.1 hMark
  have hEnsures := Ensures.of_sat (B := fun _ _ => True) (J := fun _ => True) hQuiet
    (fun o g r _ _ _ => ⟨_, rfl, trivial⟩) p hp trivial
  have hSat := Ensures.sat (C := scanRules env n) (J := Reports threshold baseInterval questions)
    (fun o g hA hJ => ⟨pre_of_not_marking hA, ?_⟩) p hEnsures hg
  · exact Sat.mono (fun _ _ h => h.2) p hSat
  · rintro r _ ⟨place, rfl⟩
    exact ⟨trivial, hJ.track hA place r⟩

/-- One key: what is handed out is recorded, and it is one question at most. -/
theorem sat_visitEntry {key : PrefetchKey} {requeue : List PrefetchKey}
    {expired : List (Query × Nat × Option String)} {g : ScanGhost}
    (hg : Reports threshold baseInterval (expired.map Prod.fst) g) :
    Sat (scanRules env c₀.shards.length)
      (visitEntry env c₀ threshold baseInterval key requeue expired) g
      fun found g' => Reports threshold baseInterval (found.2.map Prod.fst) g' ∧
        found.2.length ≤ expired.length + 1 := by
  refine Sat.perform trivial ?_
  rintro (_ | ⟨query, entry⟩) _ ⟨place, rfl⟩
  · exact ⟨hg.track (o := .touch _ key.2 .use) rfl place none, Nat.le_succ _⟩
  · have hUsed := hg.track (o := .touch (shardOf env c₀ key.2) key.2 .use) rfl place
      (some (query, entry))
    dsimp only
    split
    · exact ⟨hUsed, Nat.le_succ _⟩
    · rename_i hRetry
      split
      · exact ⟨hUsed, Nat.le_succ _⟩
      · rename_i hIp
        split
        · exact ⟨hUsed, Nat.le_succ _⟩
        · rename_i hPast
          -- the mutex is still held, so the entry that is marked is the one just looked at
          refine Sat.perform ⟨rfl, (query, entry), rfl, ?_⟩ ?_
          · rw [hUsed.threshold, hUsed.baseInterval]
            refine ⟨by simpa using hIp, ?_, by simpa using hRetry⟩
            simpa [DnsCacheEntry.isCurrent] using hPast
          · rintro r _ ⟨place', rfl⟩
            refine ⟨⟨hg.threshold, hg.baseInterval, ?_⟩, by simp⟩
            show (g.marks ++ [(place', key.2)]).map Prod.snd = _
            rw [map_append, map_append, hg.marks]
            rfl

/-- The scan reports only what it marked. -/
theorem sat_scanLoop (fuel : Nat) :
    ∀ {requeue : List PrefetchKey} {expired : List (Query × Nat × Option String)} {g : ScanGhost},
      Reports threshold baseInterval (expired.map Prod.fst) g → expired.length ≤ maxCount →
      Sat (scanRules env c₀.shards.length)
        (scanLoop env c₀ threshold baseInterval maxCount fuel requeue expired) g
        fun found g' => Reports threshold baseInterval (found.2.map Prod.fst) g' ∧
          found.2.length ≤ maxCount := by
  induction fuel with
  | zero =>
    intro requeue expired g hg hRoom
    refine Sat.perform trivial ?_
    rintro r _ ⟨place, rfl⟩
    exact ⟨hg.track rfl place r, hRoom⟩
  | succ fuel ih =>
    intro requeue expired g hg hRoom
    refine Sat.seq (sat_unmarked (rests_heapPeek (b := false)) hg) ?_
    intro top g₁ hg₁
    cases top with
    | none => exact ⟨hg₁, hRoom⟩
    | some key =>
      dsimp only
      split
      · exact ⟨hg₁, hRoom⟩
      · rename_i hGo
        have hFree : expired.length < maxCount := by
          have hBoth : key.1 ≤ threshold ∧ expired.length < maxCount := by simpa using hGo
          exact hBoth.2
        refine Sat.perform trivial ?_
        rintro r _ ⟨place, rfl⟩
        refine Sat.seq (sat_visitEntry (hg₁.track rfl place r)) ?_
        intro found g₂ hFound
        refine Sat.perform trivial ?_
        rintro r' _ ⟨place', rfl⟩
        exact ih (hFound.1.track rfl place' r') (by omega)

/-- What a task that has ended returns is what it has handed out. -/
def Answers (c₀ : DnsCache) (info : Spawn) (result : List (Query × Option String))
    (g : ScanGhost) : Prop :=
  match info.task with
  | .getExpired now secondsAhead baseInterval maxCount =>
    result.length ≤ maxCount ∧
      Reports (scanThreshold c₀ now secondsAhead) baseInterval (g.marks.map Prod.snd) g ∧
      (result.map Prod.fst).Perm (g.marks.map Prod.snd)
  | _ => g.marks = []

theorem sat_getExpired (fuel now : Nat) (secondsAhead : Option Nat) (base limit : Nat) :
    Sat (scanRules env c₀.shards.length)
      (returns env c₀ fuel (.getExpired now secondsAhead base limit))
      (.start c₀ (.getExpired now secondsAhead base limit))
      (Answers c₀ ⟨.getExpired now secondsAhead base limit, fuel⟩) := by
  have hStart : Reports (scanThreshold c₀ now secondsAhead) base
      (([] : List (Query × Nat × Option String)).map Prod.fst)
      (.start c₀ (.getExpired now secondsAhead base limit)) := ⟨rfl, rfl, rfl⟩
  have hReturn : ∀ (found : List (Query × Option String) × Nat) (g : ScanGhost),
      Answers c₀ ⟨.getExpired now secondsAhead base limit, fuel⟩ found.1 g →
      Sat (scanRules env c₀.shards.length) (pure found.1) g
        (Answers c₀ ⟨.getExpired now secondsAhead base limit, fuel⟩) := fun _ _ h => h
  refine Sat.seq ?_ hReturn
  refine Sat.seq (sat_scanLoop fuel hStart (Nat.zero_le limit)) ?_
  rintro found g ⟨hReports, hLength⟩
  refine Sat.seq (sat_unmarked (rests_requeueKeys (b := false) found.1) hReports) ?_
  intro _ g₁ hReports₁
  refine Sat.seq (sat_unmarked (rests_heapPeek (b := false)) hReports₁) ?_
  intro top g₂ hReports₂
  have hSorted := perm_insertionSort
    (fun a b : Query × Nat × Option String => a.2.1 ≥ b.2.1) found.2
  refine ⟨?_, ⟨hReports₂.threshold, hReports₂.baseInterval, rfl⟩, ?_⟩
  · rw [length_map, hSorted.length_eq]
    exact hLength
  · rw [hReports₂.marks]
    rw [map_map]
    exact hSorted.map Prod.fst

/-- Every task returns what its marks account for. -/
theorem sat_returns (fuel : Nat) (task : Task) :
    Sat (scanRules env c₀.shards.length) (returns env c₀ fuel task) (.start c₀ task)
      (Answers c₀ ⟨task, fuel⟩) := by
  cases task with
  | getExpired now secondsAhead base limit =>
    exact sat_getExpired fuel now secondsAhead base limit
  | _ =>
    refine Sat.seq (sat_unmarked (sat_guarded fuel (by nofun)) ⟨rfl, rfl, rfl⟩) ?_
    intro _ g hReports
    exact map_eq_nil_iff.mp hReports.marks

/-- Both contracts at once. -/
theorem sat_both (info : Spawn) :
    Sat ((protocol env c₀.shards.length).prod (scanRules env c₀.shards.length))
      (returns env c₀ info.fuel info.task) (.idle info.task.resets, .start c₀ info.task)
      fun result g => g.1 = .idle false ∧ Answers c₀ info result g.2 := by
  obtain ⟨task, fuel⟩ := info
  have hIdle : Sat (protocol env c₀.shards.length) (returns env c₀ fuel task) (.idle task.resets)
      fun _ g => g = .idle false := by
    cases task with
    | getExpired now secondsAhead base limit =>
      exact Sat.of_within _
        (Rests.bind (rests_getExpired fuel now secondsAhead base limit) fun _ => Rests.done _)
    | _ =>
      refine Sat.seq (sat_start fuel _) ?_
      rintro _ _ rfl
      rfl
  exact Sat.prod _ hIdle (sat_returns fuel task)

end Scans

/-! ## The record -/

/-- An entry was stored for the question. -/
def Event.stores (query : Query) : Event → Bool
  | .stored q => q == query
  | .returned _ _ _ _ => false

/-- The question was handed out. -/
def Event.returns (query : Query) : Event → Bool
  | .stored _ => false
  | .returned q _ _ _ => q == query

/-- The question has been handed out and no entry stored for it since. -/
def Pending (log : List Event) (query : Query) : Prop :=
  ∃ (i : Nat) (event : Event), log[i]? = some event ∧ event.returns query = true ∧
    ∀ (k : Nat) (event' : Event), i < k → log[k]? = some event' → event'.stores query = false

/-- A question that is handed out is due; if it was handed out before and nothing stored for it
since, the entry was found marked. -/
def Flies (before : List Event) : Event → Prop
  | .stored _ => True
  | .returned query entry threshold baseInterval =>
    Due threshold baseInterval query entry ∧ (Pending before query → entry.isInPrefetching = true)

/-- Every event of the record, after those before it. -/
def AllFly (log : List Event) : Prop :=
  ∀ (i : Nat) (event : Event), log[i]? = some event → Flies (log.take i) event

section Records

variable {log : List Event} {event : Event} {query : Query}

theorem getElem?_concat_cases {i : Nat} {event' : Event}
    (h : (log ++ [event])[i]? = some event') :
    log[i]? = some event' ∧ i < log.length ∨ i = log.length ∧ event' = event := by
  by_cases hLt : i < log.length
  · rw [getElem?_append_left hLt] at h
    exact .inl ⟨h, hLt⟩
  · have hBound := (List.getElem?_eq_some_iff.mp h).1
    rw [length_append, length_singleton] at hBound
    have hEq : i = log.length := by omega
    rw [hEq, getElem?_concat_length] at h
    exact .inr ⟨hEq, (Option.some.inj h).symm⟩

theorem Pending.concat_inv (h : Pending (log ++ [event]) query) :
    event.returns query = true ∨ Pending log query ∧ event.stores query = false := by
  obtain ⟨i, found, hGet, hReturns, hSince⟩ := h
  rcases getElem?_concat_cases hGet with ⟨hOld, hLt⟩ | ⟨-, rfl⟩
  · refine .inr ⟨⟨i, found, hOld, hReturns, ?_⟩, ?_⟩
    · intro k event' hk hGet'
      have hBound := (List.getElem?_eq_some_iff.mp hGet').1
      exact hSince k event' hk ((getElem?_append_left hBound).trans hGet')
    · exact hSince log.length event hLt getElem?_concat_length
  · exact .inl hReturns

theorem AllFly.concat (h : AllFly log) (hNew : Flies log event) : AllFly (log ++ [event]) := by
  intro i event' hGet
  rcases getElem?_concat_cases hGet with ⟨hOld, hLt⟩ | ⟨rfl, rfl⟩
  · rw [take_append_of_le_length (Nat.le_of_lt hLt)]
    exact h i event' hOld
  · rw [take_left]
    exact hNew

end Records

/-- What a scan has handed out stands in the record, with the settings of the scan, at places
further and further on. -/
structure ScanGhost.Recorded (log : List Event) (g : ScanGhost) : Prop where
  later : (g.marks.map Prod.fst).Pairwise (· < ·)
  stands : ∀ m ∈ g.marks, ∃ entry, log[m.1]? = some (.returned m.2 entry g.threshold g.baseInterval)

variable {place : Nat}

namespace ScanGhost

variable {log : List Event} {g g' : ScanGhost}

theorem Recorded.lt (h : g.Recorded log) (hPlace : place ∈ g.marks.map Prod.fst) :
    place < log.length := by
  obtain ⟨m, hm, rfl⟩ := mem_map.mp hPlace
  obtain ⟨entry, hGet⟩ := h.stands m hm
  exact (List.getElem?_eq_some_iff.mp hGet).1

/-- The record grows while the scan hands out nothing. -/
theorem Recorded.grow (h : g.Recorded log) (events : List Event)
    (hThreshold : g'.threshold = g.threshold) (hInterval : g'.baseInterval = g.baseInterval)
    (hMarks : g'.marks = g.marks) : g'.Recorded (log ++ events) := by
  refine ⟨by rw [hMarks]; exact h.later, ?_⟩
  intro m hm
  rw [hMarks] at hm
  obtain ⟨entry, hGet⟩ := h.stands m hm
  refine ⟨entry, ?_⟩
  rw [hThreshold, hInterval, List.getElem?_append_left (List.getElem?_eq_some_iff.mp hGet).1]
  exact hGet

theorem Recorded.mark (h : g.Recorded log) (i : Nat) (query : Query) (entry : DnsCacheEntry)
    (r : Option (Query × DnsCacheEntry)) :
    (g.track log.length (.touch i query .mark) r).Recorded
      (log ++ [.returned query entry g.threshold g.baseInterval]) := by
  refine ⟨?_, ?_⟩
  · show ((g.marks ++ [(log.length, query)]).map Prod.fst).Pairwise (· < ·)
    rw [map_append, pairwise_append]
    refine ⟨h.later, pairwise_singleton _ _, ?_⟩
    intro place hPlace last hLast
    rw [mem_singleton.mp hLast]
    exact h.lt hPlace
  · intro m hm
    rcases mem_append.mp (show m ∈ g.marks ++ [(log.length, query)] from hm) with hOld | hNew
    · exact (h.grow [.returned query entry g.threshold g.baseInterval] rfl rfl rfl).stands m hOld
    · rw [mem_singleton.mp hNew]
      exact ⟨entry, getElem?_concat_length⟩

end ScanGhost

/-! ## What a step does to the shards -/

/-- The binding comes from an older one under the same key and has kept its mark. -/
def Stays (s : Shard) (b' : Query × DnsCacheEntry) : Prop :=
  ∃ b ∈ s.items, b.1 = b'.1 ∧ (b.2.isInPrefetching = true → b'.2.isInPrefetching = true)

variable {b : Query × DnsCacheEntry}

theorem Stays.of_mem {s : Shard} (hb : b ∈ s.items) : Stays s b :=
  ⟨b, hb, rfl, id⟩

/-- An update in place that keeps marks. -/
theorem stays_modify {s : Shard} {query : Query} {f : DnsCacheEntry → DnsCacheEntry}
    (hf : ∀ e, e.isInPrefetching = true → (f e).isInPrefetching = true)
    (hb : b ∈ (s.modify query f).items) : Stays s b := by
  rcases Lru.mem_modify hb with ⟨hOld, -⟩ | ⟨p, hp, -, rfl⟩
  · exact .of_mem hOld
  · exact ⟨p, hp, rfl, hf p.2⟩

/-- One shard has been replaced: every binding of it is as old as before, but for one that has just
been pushed. -/
structure Replaced (o : Act) (i : Nat) (before after : List Shard) (s s' : Shard) : Prop where
  found : before[i]? = some s
  set : after = before.set i s'
  stays : ∀ b ∈ s'.items, (∃ entry, o = .push i b.1 entry) ∨ Stays s b

section Shards

variable {env : CacheEnv} {order : HeapOrder} {n : Nat} {w w' : TaskWorld} {g : TaskGhost}
  {o : Act} {r : Act.Resp o}

/-- A step replaces the shard that the task has locked, or none. -/
theorem act_shards (hPre : (protocol env n).pre o g) (hAct : w.act env order o = some (r, w')) :
    w'.cache.shards = w.cache.shards ∨
      ∃ i s s', g.held = [.shard i] ∧ Replaced o i w.cache.shards w'.cache.shards s s' := by
  cases hQuiet : quiet o with
  | true => exact .inl (act_quiet hQuiet hAct).1
  | false =>
    cases o with
    | touch i query touch =>
      obtain ⟨s, hGet, -, rfl⟩ := TaskWorld.onShard_eq_some hAct
      refine .inr ⟨i, s, _, hPre, hGet, rfl, ?_⟩
      intro b hb
      refine .inr (stays_modify ?_ hb)
      intro e he
      cases touch with
      | hit | use => exact he
      | mark => rfl
    | refresh i query data validUntil =>
      obtain ⟨s, hGet, -, rfl⟩ := TaskWorld.onShard_eq_some hAct
      refine .inr ⟨i, s, _, hPre.1, hGet, rfl, ?_⟩
      intro b hb
      exact .inr (stays_modify (f := fun e => e.refresh data validUntil) (fun _ he => he) hb)
    | push i query entry =>
      obtain ⟨s, hGet, -, rfl⟩ := TaskWorld.onShard_eq_some hAct
      refine .inr ⟨i, s, _, hPre.1, hGet, rfl, ?_⟩
      intro b hb
      rcases Lru.mem_push hb with rfl | ⟨hOld, -⟩
      · exact .inl ⟨entry, rfl⟩
      · exact .inr (.of_mem hOld)
    | popLru i =>
      obtain ⟨s, hGet, -, rfl⟩ := TaskWorld.onShard_eq_some hAct
      exact .inr ⟨i, s, _, hPre.1, hGet, rfl, fun b hb => .inr (.of_mem (Lru.mem_popLru hb))⟩
    | clearShard i =>
      obtain ⟨s, hGet, hEq⟩ := Option.map_eq_some_iff.mp hAct
      cases hEq
      exact .inr ⟨i, s, _, hPre.1, hGet, rfl, fun b hb => absurd hb not_mem_nil⟩
    | addBytes | resetBytes =>
      cases hAct
      exact .inl rfl
    | lock | unlock | items | heapPush | heapPop | heapPeek | heapClear | loadBytes
    | outOfFuel => cases hQuiet

/-- A shard that the task has not locked stays. -/
theorem act_other_shard (hPre : (protocol env n).pre o g)
    (hAct : w.act env order o = some (r, w')) {j : Nat} (hFree : LockId.shard j ∉ g.held) :
    w'.cache.shards[j]? = w.cache.shards[j]? := by
  rcases act_shards hPre hAct with hSame | ⟨i, s, s', hHeld, hReplaced⟩
  · rw [hSame]
  · have hNe : i ≠ j := by
      rintro rfl
      rw [hHeld] at hFree
      exact hFree mem_cons_self
    rw [hReplaced.set, getElem?_set_ne hNe]

/-- Entries come in where they belong and stay there. -/
theorem act_placed (h : Placed env w.cache) (hLength : w.cache.shards.length = n)
    (hPre : (protocol env n).pre o g) (hAct : w.act env order o = some (r, w')) :
    Placed env w'.cache ∧ w'.cache.shards.length = n := by
  unfold Placed
  rcases act_shards hPre hAct with hSame | ⟨i, s, s', -, hFound, hSet, hStays⟩
  · rw [hSame]
    exact ⟨h, hLength⟩
  · rw [hSet, length_set]
    refine ⟨?_, hLength⟩
    intro j s₁ hGet b hb
    by_cases hIndex : i = j
    · subst hIndex
      rw [getElem?_set_self (List.getElem?_eq_some_iff.mp hFound).1] at hGet
      cases hGet
      rcases hStays b hb with ⟨entry, rfl⟩ | ⟨b', hb', hKey, -⟩
      · rw [hLength]
        exact hPre.2.1
      · rw [← hKey]
        exact h i s hFound b' hb'
    · rw [getElem?_set_ne hIndex] at hGet
      exact h j s₁ hGet b hb

end Shards

/-! ## The invariant -/

/-- The entry of the question, in whatever spelling, is marked if there is one. -/
def MarkedIn (env : CacheEnv) (n : Nat) (shards : List Shard) (query : Query) : Prop :=
  ∀ s, shards[shardIndexOf env query n]? = some s →
    ∀ b ∈ s.items, (b.1 == query) = true → b.2.isInPrefetching = true

/-- What a task looks at is still there, behind the mutex that the task holds. -/
def Looks (shards : List Shard) (g : CallGhost) : Prop :=
  ∀ x, g.2.seen = some x → g.1.held = [.shard x.shard] ∧
    ∃ s, shards[x.shard]? = some s ∧ s.peek x.query = some x.binding

/-- The places at which tasks have handed something out. -/
def places (gs : List CallGhost) : List Nat := gs.flatMap fun g => g.2.marks.map Prod.fst

structure FlightInv (env : CacheEnv) (n : Nat) (w : LoggedWorld) (gs : List CallGhost) : Prop where
  exclusive : Exclusive w.world (gs.map Prod.fst)
  looks : ∀ g ∈ gs, Looks w.world.cache.shards g
  recorded : ∀ g ∈ gs, g.2.Recorded w.log
  apart : (places gs).Nodup
  flies : AllFly w.log
  pending : ∀ query, Pending w.log query → MarkedIn env n w.world.cache.shards query

variable {entry : DnsCacheEntry}

section Steps

variable {env : CacheEnv} {order : HeapOrder} {n : Nat} {w w' : LoggedWorld} {g : CallGhost}
  {rest gs gs' : List CallGhost} {o : Act} {r : Act.Resp o}

theorem FlightInv.perm (h : FlightInv env n w gs) (hPerm : gs.Perm gs') :
    FlightInv env n w gs' where
  exclusive := h.exclusive.perm (hPerm.map _)
  looks g hg := h.looks g (hPerm.mem_iff.mpr hg)
  recorded g hg := h.recorded g (hPerm.mem_iff.mpr hg)
  apart := (hPerm.flatMap_right _).nodup_iff.mp h.apart
  flies := h.flies
  pending := h.pending

theorem FlightInv.lt_of_mem_places (h : FlightInv env n w gs) (hPlace : place ∈ places gs) :
    place < w.log.length := by
  obtain ⟨g, hg, hMark⟩ := mem_flatMap.mp hPlace
  exact (h.recorded g hg).lt hMark

/-- Only looking makes a task look at something. -/
theorem seen_track {g : ScanGhost} {x : Seen} (h : (g.track place o r).seen = some x) :
    ∃ i query, o = .touch i query .use ∧ HEq r (some x.binding) ∧ x.shard = i ∧
      x.query = query := by
  cases o with
  | touch i query touch =>
    cases touch with
    | hit | mark => cases h
    | use =>
      obtain ⟨b, hb, rfl⟩ := Option.map_eq_some_iff.mp (show Option.map _ r = some x from h)
      exact ⟨i, query, rfl, heq_of_eq hb, rfl, rfl⟩
  | _ => cases h

/-- What the task that moves looks at, and what the others look at. -/
theorem FlightInv.looks_step (h : FlightInv env n w (g :: rest))
    (hPre : (protocol env n).pre o g.1) (hAct : w.world.act env order o = some (r, w'.world)) :
    ∀ g' ∈ (g.1.track env o r, g.2.track w.log.length o r) :: rest,
      Looks w'.world.cache.shards g' := by
  rw [forall_mem_cons]
  refine ⟨?_, ?_⟩
  · intro x hx
    obtain ⟨i, query, rfl, hr, hShard, hQuery⟩ := seen_track hx
    obtain ⟨s, hGet, hr', hWorld⟩ := TaskWorld.onShard_eq_some hAct
    rw [hShard, hQuery]
    refine ⟨hPre, s.modify query Touch.use.apply, ?_, ?_⟩
    · rw [hWorld]
      exact List.getElem?_set_self (List.getElem?_eq_some_iff.mp hGet).1
    · have hPeek : s.peek query = some x.binding := hr'.symm.trans (eq_of_heq hr)
      obtain ⟨hMem, hKey⟩ := Lru.peek_eq_some.mp hPeek
      exact Lru.peek_eq_some.mpr ⟨Lru.mem_modify_iff.mpr (.inr ⟨_, hMem, hKey, rfl⟩), hKey⟩
  · intro u hu x hx
    obtain ⟨hHeld, s, hGet, hPeek⟩ := h.looks u (.tail _ hu) x hx
    refine ⟨hHeld, s, ?_, hPeek⟩
    -- two tasks do not hold one mutex, so the step is about another shard
    have hFree : LockId.shard x.shard ∉ g.1.held := by
      intro hBoth
      refine h.exclusive.not_held hBoth (mem_map_of_mem hu) ?_
      rw [hHeld]
      exact .head _
    rw [act_other_shard hPre hAct hFree]
    exact hGet

/-- A step that is not a mark records that an entry was stored, or nothing. -/
theorem events_of_not_marking {g : ScanGhost} (h : marking o = false) :
    g.events o r = [] ∨ ∃ query, g.events o r = [.stored query] := by
  unfold ScanGhost.events
  split
  · exact .inr ⟨_, rfl⟩
  · exact .inr ⟨_, rfl⟩
  · cases h
  · exact .inl rfl

variable {query : Query}

/-- Marks are only lost by a push, which is recorded. -/
theorem FlightInv.pending_step (h : FlightInv env n w (g :: rest))
    (hPre : (protocol env n).pre o g.1) (hMarking : marking o = false)
    (hAct : w.world.act env order o = some (r, w'.world))
    (hPending : Pending (w.log ++ g.2.events o r) query) :
    MarkedIn env n w'.world.cache.shards query := by
  have hBefore : Pending w.log query := by
    rcases events_of_not_marking (g := g.2) (r := r) hMarking with hNone | ⟨q, hStored⟩
    · rw [hNone, append_nil] at hPending
      exact hPending
    · rw [hStored] at hPending
      rcases hPending.concat_inv with hReturns | ⟨hOld, -⟩
      · cases hReturns
      · exact hOld
  have hMarked := h.pending query hBefore
  rcases act_shards hPre hAct with hSame | ⟨i, s, s', -, hReplaced⟩
  · rw [hSame]
    exact hMarked
  · intro s₁ hGet b hb hKey
    rw [hReplaced.set] at hGet
    by_cases hShard : i = shardIndexOf env query n
    · rw [← hShard, List.getElem?_set_self (List.getElem?_eq_some_iff.mp hReplaced.found).1] at hGet
      cases hGet
      rcases hReplaced.stays b hb with ⟨entry, rfl⟩ | ⟨b₀, hb₀, hSameKey, hMark⟩
      · rcases hPending.concat_inv with hReturns | ⟨-, hOther⟩
        · cases hReturns
        · rw [show Event.stores query (.stored b.1) = (b.1 == query) from rfl, hKey] at hOther
          cases hOther
      · refine hMark (hMarked s ?_ b₀ hb₀ ?_)
        · rw [← hShard]
          exact hReplaced.found
        · rw [hSameKey]
          exact hKey
    · rw [getElem?_set_ne hShard] at hGet
      exact hMarked s₁ hGet b hb hKey

/-- A step that hands out nothing. -/
theorem FlightInv.step_of_not_marking (h : FlightInv env n w (g :: rest))
    (hPre : (protocol env n).pre o g.1) (hMarking : marking o = false)
    (hAct : w.world.act env order o = some (r, w'.world))
    (hLog : w'.log = w.log ++ g.2.events o r) :
    FlightInv env n w' ((g.1.track env o r, g.2.track w.log.length o r) :: rest) := by
  obtain ⟨hThreshold, hInterval, hMarks⟩ :=
    track_of_not_marking (g := g.2) hMarking w.log.length r
  refine ⟨h.exclusive.step hPre hAct, h.looks_step hPre hAct, ?_, ?_, ?_, ?_⟩
  · rw [hLog, forall_mem_cons]
    refine ⟨?_, ?_⟩
    · exact (h.recorded g mem_cons_self).grow _ hThreshold hInterval hMarks
    · intro u hu
      exact (h.recorded u (.tail _ hu)).grow _ rfl rfl rfl
  · have hPlaces : places ((g.1.track env o r, g.2.track w.log.length o r) :: rest) =
        places (g :: rest) := by
      show (g.2.track w.log.length o r).marks.map Prod.fst ++ places rest = _
      rw [hMarks]
      rfl
    rw [hPlaces]
    exact h.apart
  · rw [hLog]
    rcases events_of_not_marking (g := g.2) (r := r) hMarking with hNone | ⟨q, hStored⟩
    · rw [hNone, append_nil]
      exact h.flies
    · rw [hStored]
      exact h.flies.concat trivial
  · intro query hPending
    rw [hLog] at hPending
    exact h.pending_step hPre hMarking hAct hPending

/-- The place of a new mark is beyond all others. -/
theorem FlightInv.apart_mark (h : FlightInv env n w (g :: rest)) (i : Nat) (query : Query)
    (r : Option (Query × DnsCacheEntry)) :
    (places ((g.1.track env (.touch i query .mark) r,
      g.2.track w.log.length (.touch i query .mark) r) :: rest)).Nodup := by
  have hPlaces : (places ((g.1.track env (.touch i query .mark) r,
      g.2.track w.log.length (.touch i query .mark) r) :: rest)).Perm
      (w.log.length :: places (g :: rest)) := by
    show ((g.2.marks ++ [(w.log.length, query)]).map Prod.fst ++ places rest).Perm _
    rw [map_append, append_assoc]
    exact perm_middle
  refine hPlaces.nodup_iff.mpr (nodup_cons.mpr ⟨?_, h.apart⟩)
  intro hPlace
  exact absurd (h.lt_of_mem_places hPlace) (Nat.lt_irrefl _)

/-- The question that is handed out is pending from now on, and its entry is marked. -/
theorem FlightInv.pending_mark {i : Nat} {s : Shard} {threshold baseInterval : Nat}
    (h : FlightInv env n w gs) (hShard : i = shardIndexOf env query n)
    (hGet : w.world.cache.shards[i]? = some s) {q : Query}
    (hPending : Pending (w.log ++ [.returned query entry threshold baseInterval]) q) :
    MarkedIn env n (w.world.cache.shards.set i (s.modify query inPrefetching)) q := by
  intro s₁ hGet₁ b hb hKey
  by_cases hRouted : i = shardIndexOf env q n
  · rw [← hRouted, List.getElem?_set_self (List.getElem?_eq_some_iff.mp hGet).1] at hGet₁
    cases hGet₁
    rcases Lru.mem_modify hb with ⟨hOld, hOther⟩ | ⟨p, -, -, rfl⟩
    · rcases hPending.concat_inv with hReturns | ⟨hBefore, -⟩
      · have hSpelled : (b.1 == query) = true := BEq.trans hKey (BEq.symm hReturns)
        rw [hSpelled] at hOther
        cases hOther
      · exact h.pending q hBefore s (by rw [← hRouted]; exact hGet) b hOld hKey
    · rfl
  · rw [getElem?_set_ne hRouted] at hGet₁
    rcases hPending.concat_inv with hReturns | ⟨hBefore, -⟩
    · exact absurd (hShard.trans (CacheContents.shardIndexOf_eq hReturns n)) hRouted
    · exact h.pending q hBefore s₁ hGet₁ b hb hKey

/-- The mark itself: what the task looks at is found, due and handed out. -/
theorem FlightInv.step_mark {i : Nat} {r : Option (Query × DnsCacheEntry)}
    (h : FlightInv env n w (g :: rest)) (hPre : (protocol env n).pre (.touch i query .mark) g.1)
    (hShard : i = shardIndexOf env query n) (hSeen : g.2.seen = some ⟨i, query, b⟩)
    (hDue : Due g.2.threshold g.2.baseInterval query b.2)
    (hAct : w.world.act env order (.touch i query .mark) = some (r, w'.world))
    (hLog : w'.log = w.log ++ g.2.events (.touch i query .mark) r) :
    FlightInv env n w' ((g.1.track env (.touch i query .mark) r,
      g.2.track w.log.length (.touch i query .mark) r) :: rest) := by
  obtain ⟨-, s₀, hGet₀, hPeek⟩ := h.looks g mem_cons_self _ hSeen
  obtain ⟨s, hGet, hr, hWorld⟩ := TaskWorld.onShard_eq_some hAct
  -- what the task has looked at is what the mark finds
  have hSame : s₀ = s := Option.some.inj (hGet₀.symm.trans hGet)
  rw [hSame] at hPeek
  obtain ⟨hMem, hKey⟩ := Lru.peek_eq_some.mp hPeek
  have hFound : r = some b := hr.trans hPeek
  have hLog' : w'.log = w.log ++ [.returned query b.2 g.2.threshold g.2.baseInterval] := by
    rw [hLog, hFound]
    rfl
  refine ⟨h.exclusive.step hPre hAct, h.looks_step hPre hAct, ?_, h.apart_mark i query r, ?_, ?_⟩
  · rw [hLog', forall_mem_cons]
    refine ⟨(h.recorded g mem_cons_self).mark i query b.2 r, ?_⟩
    intro u hu
    exact (h.recorded u (.tail _ hu)).grow _ rfl rfl rfl
  · rw [hLog']
    refine h.flies.concat ⟨hDue, ?_⟩
    intro hPending
    refine h.pending query hPending s ?_ b hMem hKey
    rw [← hShard]
    exact hGet
  · intro q hPending
    rw [hLog'] at hPending
    rw [hWorld]
    exact h.pending_mark hShard hGet hPending

/-- One operation keeps a single refresh under way for a question. -/
theorem FlightInv.step (h : FlightInv env n w (g :: rest))
    (hPre : ((protocol env n).prod (scanRules env n)).pre o g)
    (hAct : w.world.act env order o = some (r, w'.world))
    (hLog : w'.log = w.log ++ g.2.events o r) :
    FlightInv env n w' ((g.1.track env o r, g.2.track w.log.length o r) :: rest) := by
  cases hMarking : marking o with
  | false => exact h.step_of_not_marking hPre.1 hMarking hAct hLog
  | true =>
    obtain ⟨i, query, rfl⟩ := eq_mark hMarking
    obtain ⟨hShard, b, hSeen, hDue⟩ := hPre.2
    exact h.step_mark hPre.1 hShard hSeen hDue hAct hLog

/-- A fresh cache has no refresh under way. -/
theorem FlightInv.start (env : CacheEnv) (n : Nat) (c : DnsCache) :
    FlightInv env n ⟨⟨c, [], 0⟩, []⟩ [] where
  exclusive := ⟨.nil, nodup_nil⟩
  looks _ hg := absurd hg not_mem_nil
  recorded _ hg := absurd hg not_mem_nil
  apart := nodup_nil
  flies _ _ hGet := absurd hGet (by simp)
  pending _ := by
    rintro ⟨i, event, hGet, -⟩
    cases hGet

/-- A task that is added has done nothing yet. -/
theorem FlightInv.spawn (h : FlightInv env n w gs) (c₀ : DnsCache) (task : Task) :
    FlightInv env n w ((.idle task.resets, .start c₀ task) :: gs) := by
  have hFresh : (ScanGhost.start c₀ task).seen = none ∧ (ScanGhost.start c₀ task).marks = [] := by
    cases task <;> exact ⟨rfl, rfl⟩
  refine ⟨⟨h.exclusive.held, h.exclusive.once⟩, ?_, ?_, ?_, h.flies, h.pending⟩
  · rw [forall_mem_cons]
    refine ⟨?_, h.looks⟩
    intro x hx
    rw [show (ScanGhost.start c₀ task).seen = some x from hx] at hFresh
    cases hFresh.1
  · rw [forall_mem_cons]
    refine ⟨⟨?_, ?_⟩, h.recorded⟩
    · rw [hFresh.2]
      exact .nil
    · intro m hm
      rw [hFresh.2] at hm
      cases hm
  · show ((ScanGhost.start c₀ task).marks.map Prod.fst ++ places gs).Nodup
    rw [hFresh.2]
    exact h.apart

end Steps

/-- In every run. -/
theorem flights {env : CacheEnv} {order : HeapOrder} {c₀ : DnsCache}
    {es : List (PoolEvent Spawn Unit)} {p : PrefetchPool}
    (hRun : runTrace (prefetchSystem env order c₀).step (startRecord c₀) es = some p) :
    System.PoolInv ((protocol env c₀.shards.length).prod (scanRules env c₀.shards.length))
      (FlightInv env c₀.shards.length)
      (fun info result g => g.1 = .idle false ∧ Answers c₀ info result g.2) p := by
  refine System.symmetric_invariant ?_ ?_ ?_ (FlightInv.start env _ c₀) (stepsMeet_true _ es _) hRun
  · intro w gs gs' hPerm h
    exact h.perm hPerm
  · intro p info h _
    exact ⟨sat_both info, h.spawn c₀ info.task⟩
  · intro p tid a t o k r w' g' rest _ h _ _ hPre _ hExec
    obtain ⟨hAct, hLog, rfl⟩ := exec_eq hExec
    exact ⟨⟨rfl, _, rfl⟩, h.step hPre hAct hLog⟩

/-! ## Single flight -/

/-- An entry was stored for the question between the two places of the record. -/
def StoredBetween (log : List Event) (i j : Nat) (query : Query) : Prop :=
  ∃ (k : Nat) (q : Query), i < k ∧ k < j ∧ log[k]? = some (.stored q) ∧ (q == query) = true

/-- The entry is marked, and the refresh that it was marked for failed long enough ago. -/
structure RetryDue (threshold baseInterval : Nat) (entry : DnsCacheEntry) : Prop where
  marked : entry.isInPrefetching = true
  failed : ∃ failure, entry.prefetchFailureTime = some failure ∧
    failure + baseInterval * 2 ≤ threshold

/-- Why the question may be handed out at the second place after the first. -/
def Excused (log : List Event) (i j : Nat) (query : Query) : Prop :=
  StoredBetween log i j query ∨
    ∃ entry threshold baseInterval, log[j]? = some (.returned query entry threshold baseInterval) ∧
      RetryDue threshold baseInterval entry

/-- A scan that has ended, against what is recorded of it. -/
structure ScanReturns (log : List Event) (threshold baseInterval maxCount : Nat)
    (marks : List (Nat × Query)) (result : List (Query × Option String)) : Prop where
  atMost : result.length ≤ maxCount
  handedOut : (result.map Prod.fst).Perm (marks.map Prod.snd)
  due : ∀ m ∈ marks, ∃ entry, log[m.1]? = some (.returned m.2 entry threshold baseInterval) ∧
    Due threshold baseInterval m.2 entry
  once : (∀ x ∈ marks, ∀ y ∈ marks, x.1 < y.1 → (x.2 == y.2) = true → ¬ Excused log x.1 y.1 y.2) →
    (result.map Prod.fst).Pairwise fun a b => (a == b) = false

/-- The scans of a run taken together. -/
structure SingleFlight (c₀ : DnsCache) (p : PrefetchPool) : Prop where
  scans : ∀ t ∈ p.threads, ∀ now secondsAhead baseInterval maxCount result,
    t.info.task = .getExpired now secondsAhead baseInterval maxCount → t.prog = .done result →
    ScanReturns p.world.log (scanThreshold c₀ now secondsAhead) baseInterval maxCount
      t.ghost.2.marks result
  apart : (places (System.ghosts p)).Nodup
  excused : ∀ (i j : Nat) query query' entry entry' threshold threshold' baseInterval baseInterval',
    i < j → (query == query') = true →
    p.world.log[i]? = some (.returned query entry threshold baseInterval) →
    p.world.log[j]? = some (.returned query' entry' threshold' baseInterval') →
    Excused p.world.log i j query'

section Flight

variable {log : List Event}

theorem Due.retryDue {threshold baseInterval : Nat} {query : Query}
    (h : Due threshold baseInterval query entry) (hMarked : entry.isInPrefetching = true) :
    RetryDue threshold baseInterval entry := by
  have hRetry := h.retry
  unfold shouldRetryPrefetch at hRetry
  rw [hMarked, Bool.not_true, Bool.false_or, Option.any_eq_true] at hRetry
  obtain ⟨failure, hFailed, hElapsed⟩ := hRetry
  exact ⟨hMarked, failure, hFailed, of_decide_eq_true hElapsed⟩

/-- Handed out and handed out again: unless something was stored in between, the question was still
pending, and its entry marked. -/
theorem AllFly.excused (h : AllFly log) {i j : Nat} {query : Query} {event : Event}
    {threshold baseInterval : Nat} (hij : i < j) (hi : log[i]? = some event)
    (hReturns : event.returns query = true)
    (hj : log[j]? = some (.returned query entry threshold baseInterval)) :
    Excused log i j query := by
  -- without a store in between, the question is pending from the first place to the second
  by_cases hStored : StoredBetween log i j query
  · exact .inl hStored
  · obtain ⟨hDue, hMarked⟩ := h j _ hj
    have hPending : Pending (log.take j) query := by
      refine ⟨i, event, ?_, hReturns, ?_⟩
      · rw [getElem?_take_of_lt hij]
        exact hi
      · intro k event' hk hGet
        have hBound := (List.getElem?_eq_some_iff.mp hGet).1
        have hkj : k < j := lt_of_lt_of_le hBound (length_take_le j log)
        rw [getElem?_take_of_lt hkj] at hGet
        cases event' with
        | returned q e t b => rfl
        | stored q =>
          cases hKey : (q == query) with
          | false => exact hKey
          | true => exact absurd ⟨k, q, hk, hkj, hGet, hKey⟩ hStored
    exact .inr ⟨entry, threshold, baseInterval, hj, hDue.retryDue (hMarked hPending)⟩

/-- A scan hands out one question after the other, so a question stands twice in its result only
with an excuse. -/
theorem ScanGhost.Recorded.distinct {g : ScanGhost} (h : g.Recorded log)
    (hUnexcused : ∀ x ∈ g.marks, ∀ y ∈ g.marks, x.1 < y.1 → (x.2 == y.2) = true →
      ¬ Excused log x.1 y.1 y.2) (hFly : AllFly log) :
    (g.marks.map Prod.snd).Pairwise fun a b => (a == b) = false := by
  rw [pairwise_map]
  refine (pairwise_map.mp h.later).imp_of_mem ?_
  intro x y hx hy hLater
  cases hKey : (x.2 == y.2) with
  | false => rfl
  | true =>
    obtain ⟨entry, hGet⟩ := h.stands x hx
    obtain ⟨entry', hGet'⟩ := h.stands y hy
    exact absurd (hFly.excused hLater hGet hKey hGet') (hUnexcused x hx y hy hLater hKey)

end Flight

/-- Any tasks, started at any time and interleaved in any way. A scan returns at most as many
questions as it was asked for, all for addresses and with an entry past the threshold. No two scans
return a question for the same mark, and between two marks for one question an entry has been
stored for it, or the second is a retry that was due. -/
theorem single_flight (env : CacheEnv) (order : HeapOrder)
    (cacheSize expiredTtl expiredReplyTtl maxBytes : Nat) (es : List (PoolEvent Spawn Unit))
    (p : PrefetchPool)
    (hRun : runTrace
      (prefetchSystem env order (.new cacheSize expiredTtl expiredReplyTtl maxBytes)).step
      (startRecord (.new cacheSize expiredTtl expiredReplyTtl maxBytes)) es = some p) :
    SingleFlight (.new cacheSize expiredTtl expiredReplyTtl maxBytes) p := by
  have hInv := flights hRun
  have hFly := hInv.shared.flies
  refine ⟨?_, hInv.shared.apart, ?_⟩
  · intro t ht now secondsAhead baseInterval maxCount result hTask hDone
    have hAnswers := (hInv.post_of_done ht hDone).2
    unfold Answers at hAnswers
    rw [hTask] at hAnswers
    obtain ⟨hLength, hReports, hPerm⟩ := hAnswers
    have hRecorded := hInv.shared.recorded t.ghost (mem_map_of_mem ht)
    refine ⟨hLength, hPerm, ?_, ?_⟩
    · intro m hm
      obtain ⟨entry, hGet⟩ := hRecorded.stands m hm
      rw [hReports.threshold, hReports.baseInterval] at hGet
      exact ⟨entry, hGet, (hFly m.1 _ hGet).1⟩
    · intro hUnexcused
      exact (hPerm.pairwise_iff beq_false_comm).mpr (hRecorded.distinct hUnexcused hFly)
  · intro i j query query' _ _ _ _ _ _ hij hKey hi hj
    exact hFly.excused hij hi hKey hj

/-- A scan at the moment at which the address of `example.com` expires. -/
def exampleScan : Spawn := ⟨.getExpired (secs 300) none (secs 1) 16, 8⟩

/-- What the task at an index has returned. -/
def returnedBy (p : PrefetchPool) (tid : Nat) : Option (List Query) :=
  (p.threads[tid]?).bind fun t =>
    match t.prog with
    | .done result => some (result.map Prod.fst)
    | .call _ _ => none

/-- The address is stored twice, so that it has two keys, and each of two scans pops one of them
before either looks at the entry. -/
def contestedRun : List (PoolEvent Spawn Unit) :=
  [.spawn ⟨storeTask, 4⟩, .spawn ⟨storeTask, 4⟩, .spawn exampleScan, .spawn exampleScan] ++
    stepsOf 0 8 ++ stepsOf 1 7 ++ stepsOf 2 3 ++ stepsOf 3 3 ++ stepsOf 2 10 ++ stepsOf 3 9

theorem single_flight_contestedRun :
    ∃ p, runTrace (prefetchSystem ServerRuns.exampleEnv firstOrder (.new 4 0 0 0)).step
        (startRecord (.new 4 0 0 0)) contestedRun = some p ∧
      (returnedBy p 2).map List.length = some 1 ∧ (returnedBy p 3).map List.length = some 0 ∧
      SingleFlight (.new 4 0 0 0) p := by
  have hRun : ∃ p, runTrace
      (prefetchSystem ServerRuns.exampleEnv firstOrder (.new 4 0 0 0)).step
        (startRecord (.new 4 0 0 0)) contestedRun = some p ∧
      decide ((returnedBy p 2).map length = some 1 ∧
        (returnedBy p 3).map length = some 0) = true :=
    (Option.any_eq_true _ _).mp (by decide +kernel)
  obtain ⟨p, hRun, hEnd⟩ := hRun
  exact ⟨p, hRun, (of_decide_eq_true hEnd).1, (of_decide_eq_true hEnd).2,
    single_flight _ _ _ _ _ _ contestedRun p hRun⟩

/-- The address is stored again, for one second. -/
def restoreTask : Task :=
  .insert ServerRuns.exampleQuery
    [(Record.fromRdata ServerRuns.exampleName 1 ServerRuns.exampleAddress, 1)] (secs 300) "default"

/-- A scan has handed out the question when the cache is cleared and the address stored again. -/
def repeatedRun : List (PoolEvent Spawn Unit) :=
  [.spawn ⟨storeTask, 4⟩, .spawn exampleScan, .spawn ⟨.clear, 4⟩, .spawn ⟨restoreTask, 4⟩] ++
    stepsOf 0 8 ++ stepsOf 1 7 ++ stepsOf 2 7 ++ stepsOf 3 8 ++ stepsOf 1 13

/-- One scan may return a question twice. -/
theorem scan_repeats :
    ∃ p questions, runTrace
        (prefetchSystem ServerRuns.exampleEnv firstOrder (.new 4 0 0 0)).step
        (startRecord (.new 4 0 0 0)) repeatedRun = some p ∧
      returnedBy p 1 = some questions ∧ questions.length = 2 ∧
      ∀ q ∈ questions, (q == ServerRuns.exampleQuery) = true := by
  have hRun : ∃ p, runTrace
      (prefetchSystem ServerRuns.exampleEnv firstOrder (.new 4 0 0 0)).step
        (startRecord (.new 4 0 0 0)) repeatedRun = some p ∧
      ((returnedBy p 1).any fun questions => decide (questions.length = 2 ∧
        ∀ q ∈ questions, (q == ServerRuns.exampleQuery) = true)) = true :=
    (Option.any_eq_true _ _).mp (by decide +kernel)
  obtain ⟨p, hRun, hEnd⟩ := hRun
  obtain ⟨questions, hReturned, hTwice⟩ := (Option.any_eq_true _ _).mp hEnd
  exact ⟨p, questions, hRun, hReturned, of_decide_eq_true hTwice⟩

/-! ## One entry for a question -/

/-- Under any interleaving of any tasks, every entry is in the shard of its question, and no
question has two. -/
theorem concurrent_distinct (env : CacheEnv) (order : HeapOrder) (c₀ : DnsCache)
    (es : List (PoolEvent Spawn Unit)) (p : CachePool) (hPlaced : Placed env c₀)
    (hRun : runTrace (cacheSystem env order c₀).step (startPool c₀) es = some p) :
    Placed env p.world.cache ∧ DistinctKeys p.world.cache.entries := by
  suffices hInv : System.PoolInv (protocol env c₀.shards.length)
      (fun w _ => Placed env w.cache ∧ w.cache.shards.length = c₀.shards.length)
      (fun _ _ g => g = .idle false) p from
    ⟨hInv.shared.1, CacheAccounting.distinct_of_placed hInv.shared.1⟩
  refine System.pool_invariant ?_ ?_ ⟨hPlaced, rfl⟩ (stepsMeet_true _ es _) hRun
  · intro p info h _
    exact ⟨sat_start info.fuel info.task, h⟩
  · intro p tid a t o k r w' g' h _ _ hPre _ hExec
    obtain ⟨hAct, rfl⟩ := CacheTasks.exec_eq hExec
    exact ⟨rfl, act_placed h.1 h.2 hPre hAct⟩

theorem concurrent_distinct_wrappedRun :
    ∃ p, runTrace exampleSystem.step (startPool (.new 4 0 0 0)) wrappedRun = some p ∧
      p.world.cache.entryCount = 1 ∧ DistinctKeys p.world.cache.entries := by
  obtain ⟨p, hRun, hCount⟩ : ∃ p, runTrace exampleSystem.step (startPool (.new 4 0 0 0))
      wrappedRun = some p ∧ decide (p.world.cache.entryCount = 1) = true :=
    (Option.any_eq_true _ _).mp (by decide +kernel)
  exact ⟨p, hRun, of_decide_eq_true hCount,
    (concurrent_distinct _ _ _ wrappedRun p (RaceInv.start _ 4 0 0 0).placed hRun).2⟩

end SmartDns.Ports.PrefetchRaces
