import SmartDns.Ports.CacheTasks

/-!
# The byte counter under concurrency

Entries change under the mutex of their shard, the counter is an atomic of its
own. While tasks run, the counter is off by what is under way: entries stored and
not yet counted, entries gone and not yet taken off, entries cleared for which
the counter has not been reset. `Tally` is that balance. It also says that every
uncounted entry is still in the store, which is what keeps a subtraction from
reaching below zero.

Two places of the source break the balance. `load` counts an entry after it has
released the shard, so another task may take the entry away before it is counted;
`clear` resets the counter after it has released all shards, so entries that were
stored and counted in between are forgotten. `orderly` is the condition under
which neither happens.
-/

namespace SmartDns.Ports.CacheRaces

open Verified DnsMessage DnsLookup CacheStore CacheAccounting CacheContents PrefetchScan CacheTasks
open List

/-! ## Sums over matching lists -/

/-- If every element has a partner that weighs as much and no two share one, the sum is smaller. -/
theorem sum_map_le {α β : Type} {f : α → Nat} {g : β → Nat} {R : α → β → Prop} (xs : List α) :
    ∀ {ys : List β}, (∀ x ∈ xs, ∃ y ∈ ys, R x y ∧ f x ≤ g y) →
      xs.Pairwise (fun x x' => ∀ y, R x y → ¬ R x' y) →
      (xs.map f).sum ≤ (ys.map g).sum := by
  induction xs with
  | nil =>
    intro ys _ _
    exact Nat.zero_le _
  | cons x xs ih =>
    intro ys hMatch hApart
    rw [pairwise_cons] at hApart
    obtain ⟨y, hy, hR, hLe⟩ := hMatch x mem_cons_self
    obtain ⟨ys₁, ys₂, rfl⟩ := append_of_mem hy
    have hRest : (xs.map f).sum ≤ ((ys₁ ++ ys₂).map g).sum := by
      refine ih ?_ hApart.2
      intro x' hx'
      obtain ⟨y', hy', hR', hLe'⟩ := hMatch x' (.tail _ hx')
      refine ⟨y', ?_, hR', hLe'⟩
      rcases mem_append.mp hy' with hLeft | hRight
      · exact mem_append_left _ hLeft
      · rcases mem_cons.mp hRight with hSame | hRight
        · rw [hSame] at hR'
          exact absurd hR' (hApart.1 x' hx' y hR)
        · exact mem_append_right _ hRight
    simp only [map_cons, sum_cons, map_append, sum_append] at hRest ⊢
    omega

/-! ## The balance -/

/-- The entries that are stored and not yet counted. -/
def credits (gs : List TaskGhost) : List Credit := gs.filterMap TaskGhost.credit

/-- The bytes a task has stored and not yet counted. -/
def uncountedBytes (g : TaskGhost) : Nat := (g.credit.map Credit.size).getD 0

/-- The bytes of a list of bindings. -/
def bytesOf (env : CacheEnv) (entries : List (Query × DnsCacheEntry)) : Nat :=
  (entries.map (bindingSize env)).sum

/-- The counter differs from the bytes stored by what is under way. -/
structure Tally (env : CacheEnv) (entries : List (Query × DnsCacheEntry)) (total : ByteCounter)
    (cleared : Nat) (gs : List TaskGhost) : Prop where
  balance : total.value + (gs.map uncountedBytes).sum =
    bytesOf env entries + cleared + (gs.map TaskGhost.refund).sum
  noWrap : total.underflow = false
  stored : ∀ c ∈ credits gs, ∃ b ∈ entries, b.1 = c.key ∧ bindingSize env b = c.size
  apart : (credits gs).Pairwise fun c c' => (c.key == c'.key) = false

theorem credits_cons (g : TaskGhost) (gs : List TaskGhost) :
    credits (g :: gs) = g.credit.toList ++ credits gs := by
  unfold credits
  cases h : g.credit with
  | none => rw [filterMap_cons_none h]; rfl
  | some c => rw [filterMap_cons_some h]; rfl

theorem mem_credits {gs : List TaskGhost} {c : Credit} :
    c ∈ credits gs ↔ ∃ g ∈ gs, g.credit = some c :=
  mem_filterMap

theorem uncountedBytes_of_none {g : TaskGhost} (h : g.credit = none) : uncountedBytes g = 0 := by
  unfold uncountedBytes
  rw [h]
  rfl

theorem sum_credits (gs : List TaskGhost) :
    (gs.map uncountedBytes).sum = ((credits gs).map Credit.size).sum := by
  induction gs with
  | nil => rfl
  | cons g gs ih =>
    rw [credits_cons, map_cons, sum_cons, ih, map_append, sum_append]
    unfold uncountedBytes
    cases g.credit with
    | none => rfl
    | some c => simp

section Balance

variable {env : CacheEnv} {entries entries' : List (Query × DnsCacheEntry)} {total : ByteCounter}
  {cleared cleared' : Nat} {g g' : TaskGhost} {gs gs' rest : List TaskGhost}

/-- The tally does not depend on the order of the tasks. -/
theorem Tally.perm (h : Tally env entries total cleared gs) (hPerm : gs.Perm gs') :
    Tally env entries total cleared gs' where
  balance := by
    rw [← (hPerm.map uncountedBytes).sum_eq, ← (hPerm.map TaskGhost.refund).sum_eq]
    exact h.balance
  noWrap := h.noWrap
  stored c hc := h.stored c ((hPerm.filterMap _).mem_iff.mpr hc)
  apart := ((hPerm.filterMap _).pairwise_iff beq_false_comm).mp h.apart

/-- What is stored and not yet counted is part of what is stored. -/
theorem bytes_le_of_stored {cs : List Credit}
    (hStored : ∀ c ∈ cs, ∃ b ∈ entries, b.1 = c.key ∧ bindingSize env b = c.size)
    (hApart : cs.Pairwise fun c c' => (c.key == c'.key) = false) :
    (cs.map Credit.size).sum ≤ bytesOf env entries := by
  refine sum_map_le (R := fun c b => b.1 = c.key) cs ?_ ?_
  · intro c hc
    obtain ⟨b, hb, hKey, hSize⟩ := hStored c hc
    exact ⟨b, hb, hKey, hSize.ge⟩
  · refine hApart.imp ?_
    intro c c' hNe b hKey hKey'
    rw [← hKey, ← hKey', BEq.rfl] at hNe
    exact Bool.false_ne_true hNe.symm

/-- What a task does outside the store and the counter does not change the balance. -/
theorem Tally.congr (h : Tally env entries total cleared (g :: rest))
    (hCredit : g'.credit = g.credit) (hRefund : g'.refund = g.refund) :
    Tally env entries total cleared (g' :: rest) := by
  have hCredits : credits (g' :: rest) = credits (g :: rest) := by
    rw [credits_cons, credits_cons, hCredit]
  refine ⟨?_, h.noWrap, ?_, ?_⟩
  · have hBefore := h.balance
    rw [sum_credits] at hBefore ⊢
    rw [hCredits]
    simp only [map_cons, hRefund] at hBefore ⊢
    exact hBefore
  · rw [hCredits]
    exact h.stored
  · rw [hCredits]
    exact h.apart

/-- Entries may be replaced by others with the same key and size. -/
theorem Tally.replace (h : Tally env entries total cleared gs)
    (hBytes : bytesOf env entries' = bytesOf env entries)
    (hSame : ∀ b ∈ entries, ∃ b' ∈ entries', b'.1 = b.1 ∧ bindingSize env b' = bindingSize env b) :
    Tally env entries' total cleared gs := by
  refine ⟨?_, h.noWrap, ?_, h.apart⟩
  · rw [hBytes]
    exact h.balance
  · intro c hc
    obtain ⟨b, hb, hKey, hSize⟩ := h.stored c hc
    obtain ⟨b', hb', hKey', hSize'⟩ := hSame b hb
    exact ⟨b', hb', hKey'.trans hKey, hSize'.trans hSize⟩

/-- A task stores an entry or takes entries away, none of them an entry that another task has
stored and not yet counted. -/
theorem Tally.exchange {came gone : List (Query × DnsCacheEntry)}
    (h : Tally env entries total cleared (g :: rest))
    (hExchange : Lru.Exchange entries entries' came gone) (hNone : g.credit = none)
    (hGone : ∀ c ∈ credits rest, ∀ b ∈ gone, (c.key == b.1) = false)
    (hCredit : ∀ c, g'.credit = some c → ∃ b ∈ came, b.1 = c.key ∧ bindingSize env b = c.size)
    (hBalance : uncountedBytes g' + g.refund + bytesOf env gone + cleared =
      g'.refund + bytesOf env came + cleared') :
    Tally env entries' total cleared' (g' :: rest) := by
  have hOld : credits (g :: rest) = credits rest := by
    rw [credits_cons, hNone]
    rfl
  have hStored := h.stored
  have hApart := h.apart
  rw [hOld] at hStored hApart
  refine ⟨?_, h.noWrap, ?_, ?_⟩
  · have hBefore := h.balance
    have hWeight := hExchange.weight (bindingSize env)
    have hZero := uncountedBytes_of_none hNone
    simp only [map_cons, sum_cons] at hBefore ⊢
    unfold bytesOf at hBefore hBalance ⊢
    omega
  · intro c hc
    rw [credits_cons] at hc
    rcases mem_append.mp hc with hOwn | hOther
    · obtain ⟨b, hb, hKey, hSize⟩ := hCredit c (Option.mem_toList.mp hOwn)
      exact ⟨b, hExchange.stays b hb, hKey, hSize⟩
    · obtain ⟨b, hb, hKey, hSize⟩ := hStored c hOther
      refine ⟨b, hExchange.mem_after hb ?_, hKey, hSize⟩
      intro hIn
      have hNe := hGone c hOther b hIn
      rw [hKey, BEq.rfl] at hNe
      exact Bool.false_ne_true hNe.symm
  · rw [credits_cons, pairwise_append]
    refine ⟨?_, hApart, ?_⟩
    · cases g'.credit with
      | none => exact List.Pairwise.nil
      | some c => exact pairwise_singleton _ _
    · intro c hc c' hc'
      obtain ⟨b, hb, hKey, -⟩ := hCredit c (Option.mem_toList.mp hc)
      obtain ⟨b', hb', hKey', -⟩ := hStored c' hc'
      by_contra hSame
      have hEquiv : (b'.1 == b.1) = true := by
        rw [hKey, hKey', BEq.comm]
        simpa using hSame
      have hNe := hGone c' hc' b' (hExchange.fresh b hb b' hb' hEquiv)
      rw [hKey', BEq.rfl] at hNe
      exact Bool.false_ne_true hNe.symm

/-- A task brings the counter up to date, for an entry it stored or only for what has left. -/
theorem Tally.count {paid : Nat} {delta : Int} (h : Tally env entries total cleared (g :: rest))
    (hDelta : delta = (paid : Int) - (g.refund : Int))
    (hPaid : uncountedBytes g = uncountedBytes g' + paid) (hRefund : g'.refund = 0)
    (hCredit : g'.credit = none ∨ g'.credit = g.credit) :
    Tally env entries (total.addBytes delta) cleared (g' :: rest) := by
  have hSub : (credits (g' :: rest)).Sublist (credits (g :: rest)) := by
    rw [credits_cons, credits_cons]
    rcases hCredit with hNone | hSame
    · rw [hNone]
      exact sublist_append_right _ _
    · rw [hSame]
  have hStored : ∀ c ∈ credits (g' :: rest),
      ∃ b ∈ entries, b.1 = c.key ∧ bindingSize env b = c.size :=
    fun c hc => h.stored c (hSub.subset hc)
  have hApart := h.apart.sublist hSub
  have hBound := bytes_le_of_stored hStored hApart
  rw [← sum_credits] at hBound
  have hBefore := h.balance
  simp only [map_cons, sum_cons] at hBefore hBound
  rw [hDelta, addBytes_sub (by omega)]
  refine ⟨?_, h.noWrap, hStored, hApart⟩
  simp only [map_cons, sum_cons]
  omega

/-- The counter may be reset when nothing that is stored has been counted. -/
theorem Tally.reset (h : Tally env entries total cleared gs) (hDistinct : DistinctKeys entries)
    (hUncounted : ∀ b ∈ entries, ∃ c ∈ credits gs, (c.key == b.1) = true)
    (hRefund : ∀ g ∈ gs, g.refund = 0) :
    Tally env entries { total with value := 0 } 0 gs := by
  have hAbove := bytes_le_of_stored h.stored h.apart
  have hBelow : bytesOf env entries ≤ ((credits gs).map Credit.size).sum := by
    refine sum_map_le (R := fun b c => (b.1 == c.key) = true) entries ?_ ?_
    · intro b hb
      obtain ⟨c, hc, hKey⟩ := hUncounted b hb
      obtain ⟨b', hb', hKey', hSize⟩ := h.stored c hc
      -- the entry that the task has stored is this one
      have hSame : b' = b := hDistinct.eq_of_beq hb' hb (by rw [hKey']; exact hKey)
      rw [hSame] at hSize
      exact ⟨c, hc, by rw [BEq.comm]; exact hKey, hSize.le⟩
    · refine hDistinct.imp ?_
      intro b b' hNe c hKey hKey'
      have hEquiv : (b.1 == b'.1) = true := by
        refine BEq.trans hKey ?_
        rw [BEq.comm]
        exact hKey'
      rw [hEquiv] at hNe
      exact Bool.false_ne_true hNe.symm
  have hZero : (gs.map TaskGhost.refund).sum = 0 :=
    sum_eq_zero (forall_mem_map.mpr hRefund)
  refine ⟨?_, h.noWrap, h.stored, h.apart⟩
  rw [sum_credits]
  show 0 + _ = _
  omega

end Balance

/-! ## The store -/

/-- Every entry sits in the shard its question is routed to. -/
def Placed (env : CacheEnv) (c : DnsCache) : Prop :=
  ∀ (i : Nat) (s : Shard), c.shards[i]? = some s →
    ∀ p ∈ s.items, shardIndexOf env p.1 c.shards.length = i

/-- The cache with another shard at an index. -/
def setShard (c : DnsCache) (i : Nat) (s : Shard) : DnsCache :=
  { c with shards := c.shards.set i s }

section Store

variable {env : CacheEnv} {c : DnsCache} {i : Nat} {s s' : Shard}
  {came gone : List (Query × DnsCacheEntry)}

/-- What is exchanged in a shard is exchanged in the cache. -/
theorem exchange_entries (h : Placed env c) (hGet : c.shards[i]? = some s)
    (hExchange : Lru.Exchange s.items s'.items came gone)
    (hCame : ∀ b ∈ came, shardIndexOf env b.1 c.shards.length = i) :
    Lru.Exchange c.entries (setShard c i s').entries came gone := by
  obtain ⟨hLt, hEq⟩ := List.getElem?_eq_some_iff.mp hGet
  refine ⟨?_, ?_, ?_⟩
  · have hBefore : c.entries.Perm
        (s.items ++ (c.shards.eraseIdx i).flatMap fun s => s.items) := by
      have hShards := (getElem_cons_eraseIdx_perm hLt).symm
      rw [hEq] at hShards
      exact hShards.flatMap_right _
    have hAfter : (setShard c i s').entries.Perm
        (s'.items ++ (c.shards.eraseIdx i).flatMap fun s => s.items) :=
      (set_perm_cons_eraseIdx hLt s').flatMap_right _
    refine (hBefore.append_left came).trans ?_
    refine List.Perm.trans ?_ (hAfter.append_left gone).symm
    rw [← append_assoc, ← append_assoc]
    exact hExchange.perm.append_right _
  · intro b hb
    exact mem_entries.mpr ⟨i, s', getElem?_set_self hLt, hExchange.stays b hb⟩
  · intro b hb q hq hKey
    obtain ⟨j, s₁, hGet₁, hq₁⟩ := mem_entries.mp hq
    have hIndex := h j s₁ hGet₁ q hq₁
    rw [shardIndexOf_eq hKey, hCame b hb] at hIndex
    rw [← hIndex, hGet] at hGet₁
    cases hGet₁
    exact hExchange.fresh b hb q hq₁ hKey

/-- An exchange within a shard keeps every entry in the shard of its key. -/
theorem Placed.setShard (h : Placed env c) (hGet : c.shards[i]? = some s)
    (hExchange : Lru.Exchange s.items s'.items came gone)
    (hCame : ∀ b ∈ came, shardIndexOf env b.1 c.shards.length = i) :
    Placed env (setShard c i s') := by
  intro j s₁ hGet₁ p hp
  show shardIndexOf env p.1 (c.shards.set i s').length = j
  rw [length_set]
  replace hGet₁ : (c.shards.set i s')[j]? = some s₁ := hGet₁
  rw [getElem?_set] at hGet₁
  split at hGet₁
  · rename_i hSame
    split at hGet₁
    · cases hGet₁
      subst hSame
      have hFrom := hExchange.perm.symm.subset (mem_append_right gone hp)
      rcases mem_append.mp hFrom with hNew | hOld
      · exact hCame p hNew
      · exact h i s hGet p hOld
    · cases hGet₁
  · exact h j s₁ hGet₁ p hp

end Store

/-! ## Orderly steps -/

/-- The task has stored an entry for this question and not yet counted it. -/
def uncounted (g : TaskGhost) (b : Query × DnsCacheEntry) : Bool :=
  g.credit.any fun c => c.key == b.1

theorem uncounted_iff {g : TaskGhost} {b : Query × DnsCacheEntry} :
    uncounted g b = true ↔ ∃ c, g.credit = some c ∧ (c.key == b.1) = true := by
  unfold uncounted
  cases g.credit with
  | none | some => simp

/-- The entries that a step takes out of the store or overwrites. -/
def takes (c : DnsCache) : Act → List (Query × DnsCacheEntry)
  | .refresh i query _ _ => (c.shards[i]?).elim [] fun s => (s.peek query).toList
  | .push i query entry => (c.shards[i]?).elim [] fun s => (s.push query entry).1.toList
  | .popLru i => (c.shards[i]?).elim [] fun s => s.popLru.1.toList
  | .clearShard i => (c.shards[i]?).elim [] fun s => s.items
  | _ => []

/-- When the counter is reset, no entry in the store has been counted and nothing is about to be
taken off it. -/
def resetsInOrder (c : DnsCache) (gs : List TaskGhost) : Act → Bool
  | .resetBytes =>
    (c.entries.all fun b => gs.any fun u => uncounted u b) && gs.all fun u => decide (u.refund = 0)
  | _ => true

/-- A step neither takes away an entry that a task has yet to count although it has released the
shard, nor resets the counter while it counts something. -/
def orderlyAct (c : DnsCache) (gs : List TaskGhost) (o : Act) : Bool :=
  ((takes c o).all fun b => gs.all fun u => !(u.held.isEmpty && uncounted u b)) &&
    resetsInOrder c gs o

def orderly (p : CachePool) : PoolEvent Spawn Unit → Bool
  | .spawn _ => true
  | .step tid _ =>
    match (p.threads[tid]?).map Thread.prog with
    | some (.call o _) => orderlyAct p.world.cache (System.ghosts p) o
    | _ => true

section Orderly

variable {c : DnsCache} {gs : List TaskGhost} {o : Act}

/-- An orderly step takes no entry whose bytes a task has yet to count. -/
theorem orderlyAct_takes (h : orderlyAct c gs o = true) {b : Query × DnsCacheEntry}
    (hb : b ∈ takes c o) {u : TaskGhost} (hu : u ∈ gs) (hFree : u.held = []) :
    uncounted u b = false := by
  unfold orderlyAct at h
  rw [Bool.and_eq_true] at h
  have hAll := all_eq_true.mp (all_eq_true.mp h.1 b hb) u hu
  rw [hFree] at hAll
  simpa using hAll

theorem orderlyAct_reset (h : orderlyAct c gs .resetBytes = true) :
    (∀ b ∈ c.entries, ∃ u ∈ gs, uncounted u b = true) ∧ ∀ u ∈ gs, u.refund = 0 := by
  unfold orderlyAct at h
  rw [Bool.and_eq_true] at h
  have hReset : ((c.entries.all fun b => gs.any fun u => uncounted u b) &&
      gs.all fun u => decide (u.refund = 0)) = true := h.2
  rw [Bool.and_eq_true] at hReset
  refine ⟨?_, ?_⟩
  · intro b hb
    exact any_eq_true.mp (all_eq_true.mp hReset.1 b hb)
  · intro u hu
    exact of_decide_eq_true (all_eq_true.mp hReset.2 u hu)

/-- An orderly event of the pool is an orderly step of its task. -/
theorem orderly_step {p : CachePool} {tid : Nat} {a : Unit}
    {t : Thread Act Act.Resp TaskGhost Spawn Unit} {k : Act.Resp o → CacheTask Unit}
    (h : orderly p (.step tid a) = true) (hThread : p.threads[tid]? = some t)
    (hProg : t.prog = .call o k) : orderlyAct p.world.cache (System.ghosts p) o = true := by
  simp only [orderly, hThread, Option.map_some, hProg] at h
  exact h

end Orderly

/-! ## The invariant -/

/-- What holds of the cache and of all tasks while they run, for a cache of `n` shards. -/
structure RaceInv (env : CacheEnv) (n : Nat) (w : TaskWorld) (gs : List TaskGhost) : Prop where
  exclusive : Exclusive w gs
  length : w.cache.shards.length = n
  placed : Placed env w.cache
  tally : Tally env w.cache.entries w.cache.totalBytes w.cleared gs
  guarded : ∀ g ∈ gs, ∀ c, g.credit = some c →
    g.held = [] ∨ g.held = [.shard (shardIndexOf env c.key n)]
  resetting : 0 < w.cleared → ∃ g ∈ gs, g.resets = true

section Invariant

variable {env : CacheEnv} {n : Nat} {w : TaskWorld} {g g' : TaskGhost}
  {gs gs' rest : List TaskGhost} {i : Nat} {s s' : Shard}
  {came gone : List (Query × DnsCacheEntry)}

theorem RaceInv.perm (h : RaceInv env n w gs) (hPerm : gs.Perm gs') : RaceInv env n w gs' where
  exclusive := h.exclusive.perm hPerm
  length := h.length
  placed := h.placed
  tally := h.tally.perm hPerm
  guarded g hg := h.guarded g (hPerm.mem_iff.mpr hg)
  resetting hPos := by
    obtain ⟨g, hg, hResets⟩ := h.resetting hPos
    exact ⟨g, hPerm.mem_iff.mp hg, hResets⟩

/-- An entry of a shard that a task holds is not one that another task has yet to count, unless
that task has released the shard. -/
theorem RaceInv.not_credit (h : RaceInv env n w (g :: rest)) (hHeld : g.held = [.shard i])
    {b : Query × DnsCacheEntry} (hIndex : shardIndexOf env b.1 n = i)
    (hOrderly : ∀ u ∈ rest, u.held = [] → uncounted u b = false) {c : Credit}
    (hc : c ∈ credits rest) : (c.key == b.1) = false := by
  obtain ⟨u, hu, hCredit⟩ := mem_credits.mp hc
  by_contra hSame
  have hKey : (c.key == b.1) = true := by simpa using hSame
  rcases h.guarded u (.tail _ hu) c hCredit with hFree | hGuard
  · have hTrue := uncounted_iff.mpr ⟨c, hCredit, hKey⟩
    rw [hOrderly u hu hFree] at hTrue
    cases hTrue
  · rw [shardIndexOf_eq hKey, hIndex] at hGuard
    refine h.exclusive.not_held ?_ hu ?_ (l := .shard i)
    · rw [hHeld]
      exact mem_singleton_self _
    · rw [hGuard]
      exact mem_singleton_self _

/-- The other tasks are guarded as before. -/
theorem RaceInv.guarded_cons (h : RaceInv env n w (g :: rest))
    (hSelf : ∀ c, g'.credit = some c →
      g'.held = [] ∨ g'.held = [.shard (shardIndexOf env c.key n)]) :
    ∀ u ∈ g' :: rest, ∀ c, u.credit = some c →
      u.held = [] ∨ u.held = [.shard (shardIndexOf env c.key n)] :=
  forall_mem_cons.mpr ⟨hSelf, fun u hu => h.guarded u (.tail _ hu)⟩

/-- A task that holds a shard exchanges entries of it. -/
theorem RaceInv.store {cleared' : Nat} (h : RaceInv env n w (g :: rest))
    (hHeld : g.held = [.shard i]) (hNone : g.credit = none) (hGet : w.cache.shards[i]? = some s)
    (hExchange : Lru.Exchange s.items s'.items came gone)
    (hCame : ∀ b ∈ came, shardIndexOf env b.1 n = i)
    (hOrderly : ∀ b ∈ gone, ∀ u ∈ rest, u.held = [] → uncounted u b = false)
    (hHeld' : g'.held = g.held)
    (hCredit : ∀ c, g'.credit = some c → ∃ b ∈ came, b.1 = c.key ∧ bindingSize env b = c.size)
    (hBalance : uncountedBytes g' + g.refund + bytesOf env gone + w.cleared =
      g'.refund + bytesOf env came + cleared')
    (hResets : 0 < cleared' → ∃ u ∈ g' :: rest, u.resets = true) :
    RaceInv env n ⟨setShard w.cache i s', w.locked, cleared'⟩ (g' :: rest) := by
  have hCame' : ∀ b ∈ came, shardIndexOf env b.1 w.cache.shards.length = i := by
    rw [h.length]
    exact hCame
  have hGone : ∀ c ∈ credits rest, ∀ b ∈ gone, (c.key == b.1) = false := by
    intro c hc b hb
    refine h.not_credit hHeld ?_ (hOrderly b hb) hc
    have hFrom := hExchange.perm.symm.subset (mem_append_left _ hb)
    rcases mem_append.mp hFrom with hNew | hOld
    · exact hCame b hNew
    · rw [← h.length]
      exact h.placed i s hGet b hOld
  refine ⟨h.exclusive.congr rfl hHeld', ?_, h.placed.setShard hGet hExchange hCame', ?_,
    h.guarded_cons ?_, hResets⟩
  · show (w.cache.shards.set i s').length = n
    rw [length_set]
    exact h.length
  · exact h.tally.exchange (exchange_entries h.placed hGet hExchange hCame') hNone hGone hCredit
      hBalance
  · intro c hc
    obtain ⟨b, hb, hKey, -⟩ := hCredit c hc
    right
    rw [hHeld', hHeld, ← hKey, hCame b hb]

/-- An entry is used or marked; its key and its size stay. -/
theorem RaceInv.touch {query : Query} {f : DnsCacheEntry → DnsCacheEntry}
    (h : RaceInv env n w (g :: rest)) (hf : ∀ e, (f e).data = e.data)
    (hGet : w.cache.shards[i]? = some s) :
    RaceInv env n ⟨setShard w.cache i (s.modify query f), w.locked, w.cleared⟩ (g :: rest) := by
  have hLength : (setShard w.cache i (s.modify query f)).shards.length = n := by
    show (w.cache.shards.set i _).length = n
    rw [length_set]
    exact h.length
  have hSize : ∀ p : Query × DnsCacheEntry, bindingSize env (p.1, f p.2) = bindingSize env p := by
    intro p
    unfold bindingSize entrySize
    rw [hf]
  have hKeep : ∃ came gone, Lru.Exchange s.items (s.modify query f).items came gone ∧
      bytesOf env came = bytesOf env gone ∧
      (∀ b ∈ came, shardIndexOf env b.1 w.cache.shards.length = i) ∧
      ∀ b ∈ gone, ∃ b' ∈ came, b'.1 = b.1 ∧ bindingSize env b' = bindingSize env b := by
    cases hPeek : s.peek query with
    | none =>
      rw [Lru.modify_none f hPeek]
      exact ⟨[], [], Lru.Exchange.refl _, rfl, fun b hb => absurd hb not_mem_nil,
        fun b hb => absurd hb not_mem_nil⟩
    | some p =>
      refine ⟨_, _, Lru.exchange_modify f hPeek, ?_, ?_, ?_⟩
      · simp [bytesOf, hSize]
      · exact forall_mem_singleton.mpr (h.placed i s hGet p (Lru.peek_eq_some.mp hPeek).1)
      · exact forall_mem_singleton.mpr ⟨_, mem_singleton_self _, rfl, hSize p⟩
  obtain ⟨came, gone, hExchange, hBytes, hCame, hGone⟩ := hKeep
  have hEntries := exchange_entries h.placed hGet hExchange hCame
  refine ⟨⟨h.exclusive.held, h.exclusive.once⟩, hLength, h.placed.setShard hGet hExchange hCame,
    ?_, h.guarded, h.resetting⟩
  refine h.tally.replace ?_ ?_
  · have hWeight := hEntries.weight (bindingSize env)
    show bytesOf env (setShard w.cache i (s.modify query f)).entries = _
    unfold bytesOf at hBytes ⊢
    omega
  · intro b hb
    by_cases hTouched : b ∈ gone
    · obtain ⟨b', hb', hKey, hSame⟩ := hGone b hTouched
      exact ⟨b', hEntries.stays b' hb', hKey, hSame⟩
    · exact ⟨b, hEntries.mem_after hb hTouched, rfl, rfl⟩

end Invariant

/-! ## Every step -/

/-- Steps that leave the store and the counter alone. -/
def quiet : Act → Bool
  | .touch _ _ _ => false
  | .refresh _ _ _ _ => false
  | .push _ _ _ => false
  | .popLru _ => false
  | .clearShard _ => false
  | .addBytes _ _ => false
  | .resetBytes => false
  | _ => true

section Steps

variable {env : CacheEnv} {order : HeapOrder} {n : Nat} {w w' : TaskWorld} {g : TaskGhost}
  {rest : List TaskGhost} {o : Act} {r : Act.Resp o}

theorem act_quiet (hQuiet : quiet o = true) (hAct : w.act env order o = some (r, w')) :
    w'.cache.shards = w.cache.shards ∧ w'.cache.totalBytes = w.cache.totalBytes ∧
      w'.cleared = w.cleared := by
  cases o with
  | lock l =>
    obtain ⟨-, rfl⟩ := act_lock hAct
    exact ⟨rfl, rfl, rfl⟩
  | items i =>
    obtain ⟨s, -, hEq⟩ := Option.map_eq_some_iff.mp hAct
    cases hEq
    exact ⟨rfl, rfl, rfl⟩
  | heapPop =>
    have hPopped : (w.popHeap order).2 = w' := congrArg Prod.snd (Option.some.inj hAct)
    obtain ⟨heap, hHeap⟩ := w.popHeap_eq order
    rw [← hPopped, hHeap]
    exact ⟨rfl, rfl, rfl⟩
  | unlock | heapPush | heapPeek | heapClear | loadBytes => cases hAct; exact ⟨rfl, rfl, rfl⟩
  | outOfFuel => cases hAct
  | touch | refresh | push | popLru | clearShard | addBytes | resetBytes => cases hQuiet

theorem track_quiet (hQuiet : quiet o = true) :
    (g.track env o r).credit = g.credit ∧ (g.track env o r).refund = g.refund ∧
      (g.track env o r).resets = g.resets := by
  unfold TaskGhost.track
  split
  all_goals first | exact ⟨rfl, rfl, rfl⟩ | cases hQuiet

/-- A task that still has an entry to count takes no mutex. -/
theorem track_held_of_credit {c : Credit} (hPre : (protocol env n).pre o g)
    (hCredit : g.credit = some c) :
    (g.track env o r).held = g.held ∨ (g.track env o r).held = [] := by
  by_cases hLock : ∃ l, o = .lock l
  · obtain ⟨l, rfl⟩ := hLock
    have hNone : g.credit = none := hPre.2
    rw [hCredit] at hNone
    cases hNone
  · by_cases hUnlock : ∃ l, o = .unlock l
    · obtain ⟨l, rfl⟩ := hUnlock
      have hHeld : g.held = [l] := hPre.1
      right
      show g.held.erase l = []
      rw [hHeld, erase_cons_head]
    · left
      exact track_held (fun l hl => hLock ⟨l, hl⟩) fun l hl => hUnlock ⟨l, hl⟩

/-- The task that moves keeps what it has still to reset. -/
theorem RaceInv.resetting_cons {g' : TaskGhost} (h : RaceInv env n w (g :: rest))
    (hResets : g'.resets = g.resets) (hPos : 0 < w.cleared) :
    ∃ u ∈ g' :: rest, u.resets = true := by
  obtain ⟨u, hu, hTrue⟩ := h.resetting hPos
  rcases mem_cons.mp hu with hSelf | hOther
  · subst hSelf
    exact ⟨g', .head _, hResets.trans hTrue⟩
  · exact ⟨u, .tail _ hOther, hTrue⟩

/-- A step that touches neither entries nor counter keeps the invariant. -/
theorem RaceInv.quiet (h : RaceInv env n w (g :: rest)) (hPre : (protocol env n).pre o g)
    (hQuiet : quiet o = true) (hAct : w.act env order o = some (r, w')) :
    RaceInv env n w' (g.track env o r :: rest) := by
  obtain ⟨hShards, hTotal, hCleared⟩ := act_quiet hQuiet hAct
  have hTrack : (g.track env o r).credit = g.credit ∧ (g.track env o r).refund = g.refund ∧
      (g.track env o r).resets = g.resets := track_quiet hQuiet
  obtain ⟨hCredit, hRefund, hResets⟩ := hTrack
  have hEntries : w'.cache.entries = w.cache.entries := by
    unfold DnsCache.entries
    rw [hShards]
  refine ⟨h.exclusive.step hPre hAct, ?_, ?_, ?_, h.guarded_cons ?_, ?_⟩
  · rw [hShards]
    exact h.length
  · unfold Placed
    rw [hShards]
    exact h.placed
  · rw [hEntries, hTotal, hCleared]
    exact h.tally.congr hCredit hRefund
  · intro c hc
    rw [hCredit] at hc
    rcases track_held_of_credit hPre hc with hSame | hNone
    · rw [hSame]
      exact h.guarded g mem_cons_self c hc
    · exact .inl hNone
  · rw [hCleared]
    intro hPos
    exact h.resetting_cons hResets hPos

/-- The counter changes and what the task had under way is settled. -/
theorem RaceInv.settle {g' : TaskGhost} {total : ByteCounter} {cleared' : Nat}
    (h : RaceInv env n w (g :: rest)) (hHeld : g'.held = g.held)
    (hCredit : g'.credit = none ∨ g'.credit = g.credit)
    (hTally : Tally env w.cache.entries total cleared' (g' :: rest))
    (hResets : 0 < cleared' → ∃ u ∈ g' :: rest, u.resets = true) :
    RaceInv env n ⟨{ w.cache with totalBytes := total }, w.locked, cleared'⟩ (g' :: rest) := by
  refine ⟨h.exclusive.congr rfl hHeld, h.length, h.placed, hTally, h.guarded_cons ?_, hResets⟩
  intro c hc
  rw [hHeld]
  rcases hCredit with hNone | hSame
  · rw [hNone] at hc
    cases hc
  · rw [hSame] at hc
    exact h.guarded g mem_cons_self c hc

/-- Counting a task's own bytes keeps the invariant. -/
theorem RaceInv.count {charge : Charge} {delta : Int} (h : RaceInv env n w (g :: rest))
    (hPre : (protocol env n).pre (.addBytes charge delta) g) :
    RaceInv env n (w.setBytes (w.cache.totalBytes.addBytes delta))
      (g.track env (.addBytes charge delta) () :: rest) := by
  cases charge with
  | refund =>
    have hDelta : delta = -(g.refund : Int) := hPre
    refine h.settle rfl (.inr rfl) ?_ fun hPos => h.resetting_cons rfl hPos
    exact h.tally.count (by rw [hDelta]; simp) (Nat.add_zero _).symm rfl (.inr rfl)
  | entry =>
    obtain ⟨credit, hCredit, hDelta⟩ : ∃ credit, g.credit = some credit ∧
      delta = (credit.size : Int) - (g.refund : Int) := hPre
    refine h.settle rfl (.inl rfl) ?_ fun hPos => h.resetting_cons rfl hPos
    refine h.tally.count hDelta ?_ rfl (.inl rfl)
    unfold uncountedBytes
    rw [hCredit]
    exact (Nat.zero_add _).symm

/-- Resetting the counter keeps the invariant when all entries are uncounted. -/
theorem RaceInv.reset (h : RaceInv env n w (g :: rest))
    (hUncounted : ∀ b ∈ w.cache.entries, ∃ u ∈ g :: rest, uncounted u b = true)
    (hRefund : ∀ u ∈ g :: rest, u.refund = 0) :
    RaceInv env n { w.setBytes { w.cache.totalBytes with value := 0 } with cleared := 0 }
      (g.track env .resetBytes () :: rest) := by
  refine h.settle rfl (.inr rfl) ?_ fun hPos => absurd hPos (Nat.lt_irrefl 0)
  refine (h.tally.reset (distinct_of_placed h.placed) ?_ hRefund).congr rfl rfl
  intro b hb
  obtain ⟨u, hu, hTrue⟩ := hUncounted b hb
  obtain ⟨c, hCredit, hKey⟩ := uncounted_iff.mp hTrue
  exact ⟨c, mem_credits.mpr ⟨u, hu, hCredit⟩, hKey⟩

variable {i : Nat} {s : Shard}

/-- A shard is written by a task that holds it: nothing was under way, and what comes and goes is
recorded. -/
theorem RaceInv.refresh {query : Query} {data : DnsResponse} {validUntil : Nat}
    (h : RaceInv env n w (g :: rest))
    (hPre : (protocol env n).pre (.refresh i query data validUntil) g)
    (hGet : w.cache.shards[i]? = some s)
    (hTakes : ∀ b ∈ (s.peek query).toList, ∀ u ∈ rest, u.held = [] → uncounted u b = false) :
    RaceInv env n
      ⟨setShard w.cache i (s.modify query fun e => e.refresh data validUntil), w.locked, w.cleared⟩
      (g.track env (.refresh i query data validUntil) (s.peek query) :: rest) := by
  obtain ⟨hHeld, hIndex, hNone, hRefund⟩ := hPre
  cases hPeek : s.peek query with
  | none =>
    rw [Lru.modify_none _ hPeek]
    show RaceInv env n _ (g :: rest)
    refine h.store hHeld hNone hGet (Lru.Exchange.refl _)
      (fun b hb => absurd hb not_mem_nil) (fun b hb => absurd hb not_mem_nil) rfl ?_ ?_
      fun hPos => h.resetting hPos
    · intro c hc
      rw [hNone] at hc
      cases hc
    · rw [uncountedBytes_of_none hNone]
      simp
  | some p =>
    rw [hPeek] at hTakes
    have hFound := Lru.peek_eq_some.mp hPeek
    refine h.store hHeld hNone hGet (Lru.exchange_modify _ hPeek) ?_ ?_ rfl ?_ ?_
      fun hPos => h.resetting_cons rfl hPos
    · intro b hb
      rw [mem_singleton.mp hb, ← hIndex]
      exact shardIndexOf_eq hFound.2 n
    · exact hTakes
    · intro c hc
      cases hc
      exact ⟨_, mem_singleton_self _, rfl, rfl⟩
    · rw [hRefund]
      show entrySize env p.1 (DnsCacheEntry.new data validUntil) + 0 + (bindingSize env p + 0) +
        w.cleared = entrySize env p.1 p.2 +
          (bindingSize env (p.1, p.2.refresh data validUntil) + 0) + w.cleared
      have hOld : bindingSize env p = entrySize env p.1 p.2 := rfl
      have hNew : bindingSize env (p.1, p.2.refresh data validUntil) =
          entrySize env p.1 (DnsCacheEntry.new data validUntil) := rfl
      omega

/-- The bytes of an entry that left are those of the list it makes. -/
theorem bytesOf_toList (left : Option (Query × DnsCacheEntry)) :
    bytesOf env left.toList = TaskGhost.leftBytes env left := by
  cases left with
  | none => rfl
  | some p => exact Nat.add_zero _

/-- A push under the lock keeps the invariant. -/
theorem RaceInv.push {query : Query} {entry : DnsCacheEntry} (h : RaceInv env n w (g :: rest))
    (hPre : (protocol env n).pre (.push i query entry) g) (hGet : w.cache.shards[i]? = some s)
    (hTakes : ∀ b ∈ (s.push query entry).1.toList, ∀ u ∈ rest, u.held = [] →
      uncounted u b = false) :
    RaceInv env n ⟨setShard w.cache i (s.push query entry).2, w.locked, w.cleared⟩
      (g.track env (.push i query entry) (s.push query entry).1 :: rest) := by
  obtain ⟨hHeld, hIndex, hNone, hRefund⟩ := hPre
  refine h.store hHeld hNone hGet (Lru.exchange_push s query entry) ?_ hTakes rfl ?_ ?_
    fun hPos => h.resetting_cons rfl hPos
  · exact forall_mem_singleton.mpr hIndex
  · intro c hc
    cases hc
    exact ⟨_, mem_singleton_self _, rfl, rfl⟩
  · rw [hRefund, bytesOf_toList]
    show entrySize env query entry + 0 + _ + w.cleared =
      TaskGhost.leftBytes env _ + (bindingSize env (query, entry) + 0) + w.cleared
    have hNew : bindingSize env (query, entry) = entrySize env query entry := rfl
    omega

/-- An eviction under the lock keeps the invariant. -/
theorem RaceInv.popLru (h : RaceInv env n w (g :: rest)) (hPre : (protocol env n).pre (.popLru i) g)
    (hGet : w.cache.shards[i]? = some s)
    (hTakes : ∀ b ∈ s.popLru.1.toList, ∀ u ∈ rest, u.held = [] → uncounted u b = false) :
    RaceInv env n ⟨setShard w.cache i s.popLru.2, w.locked, w.cleared⟩
      (g.track env (.popLru i) s.popLru.1 :: rest) := by
  obtain ⟨hHeld, hNone, hRefund⟩ := hPre
  refine h.store hHeld hNone hGet (Lru.exchange_popLru s)
    (fun b hb => absurd hb not_mem_nil) hTakes rfl ?_ ?_ fun hPos => h.resetting_cons rfl hPos
  · intro c hc
    replace hc : g.credit = some c := hc
    rw [hNone] at hc
    cases hc
  · rw [hRefund, bytesOf_toList]
    have hNone' : (g.track env (.popLru i) s.popLru.1).credit = none := hNone
    rw [uncountedBytes_of_none hNone']
    show 0 + 0 + TaskGhost.leftBytes env _ + w.cleared =
      TaskGhost.leftBytes env _ + bytesOf env [] + w.cleared
    have hNil : bytesOf env [] = 0 := rfl
    omega

/-- Clearing a shard under its lock keeps the invariant. -/
theorem RaceInv.clearShard (h : RaceInv env n w (g :: rest))
    (hPre : (protocol env n).pre (.clearShard i) g) (hGet : w.cache.shards[i]? = some s)
    (hTakes : ∀ b ∈ s.items, ∀ u ∈ rest, u.held = [] → uncounted u b = false) :
    RaceInv env n
      ⟨setShard w.cache i s.clear, w.locked, w.cleared + s.weight (bindingSize env)⟩
      (g :: rest) := by
  obtain ⟨hHeld, hNone, hResets⟩ := hPre
  refine h.store hHeld hNone hGet (Lru.exchange_clear s)
    (fun b hb => absurd hb not_mem_nil) hTakes rfl ?_ ?_
    fun _ => ⟨g, .head _, hResets⟩
  · intro c hc
    rw [hNone] at hc
    cases hc
  · have hZero := uncountedBytes_of_none hNone
    have hNil : bytesOf env [] = 0 := rfl
    have hItems : bytesOf env s.items = s.weight (bindingSize env) := rfl
    omega

/-- Every orderly step keeps the invariant. -/
theorem RaceInv.step (h : RaceInv env n w (g :: rest)) (hPre : (protocol env n).pre o g)
    (hTakes : ∀ b ∈ takes w.cache o, ∀ u ∈ rest, u.held = [] → uncounted u b = false)
    (hReset : o = .resetBytes → (∀ b ∈ w.cache.entries, ∃ u ∈ g :: rest, uncounted u b = true) ∧
      ∀ u ∈ g :: rest, u.refund = 0)
    (hAct : w.act env order o = some (r, w')) : RaceInv env n w' (g.track env o r :: rest) := by
  cases hQuiet : CacheRaces.quiet o with
  | true => exact h.quiet hPre hQuiet hAct
  | false =>
    cases o with
    | touch i query touch =>
      obtain ⟨s, hGet, rfl, rfl⟩ := TaskWorld.onShard_eq_some hAct
      refine h.touch ?_ hGet
      intro e
      cases touch <;> rfl
    | refresh i query data validUntil =>
      obtain ⟨s, hGet, rfl, rfl⟩ := TaskWorld.onShard_eq_some hAct
      rw [takes, hGet] at hTakes
      exact h.refresh hPre hGet hTakes
    | push i query entry =>
      obtain ⟨s, hGet, rfl, rfl⟩ := TaskWorld.onShard_eq_some hAct
      rw [takes, hGet] at hTakes
      exact h.push hPre hGet hTakes
    | popLru i =>
      obtain ⟨s, hGet, rfl, rfl⟩ := TaskWorld.onShard_eq_some hAct
      rw [takes, hGet] at hTakes
      exact h.popLru hPre hGet hTakes
    | clearShard i =>
      obtain ⟨s, hGet, hEq⟩ := Option.map_eq_some_iff.mp hAct
      cases hEq
      rw [takes, hGet] at hTakes
      exact h.clearShard hPre hGet hTakes
    | addBytes charge delta =>
      cases hAct
      exact h.count hPre
    | resetBytes =>
      cases hAct
      exact h.reset (hReset rfl).1 (hReset rfl).2
    | _ => cases hQuiet

end Steps

/-! ## Runs -/

section Runs

variable {env : CacheEnv} {order : HeapOrder}

/-- A new cache with no task meets the invariant. -/
theorem RaceInv.start (env : CacheEnv) (cacheSize expiredTtl expiredReplyTtl maxBytes : Nat) :
    RaceInv env (DnsCache.new cacheSize expiredTtl expiredReplyTtl maxBytes).shards.length
      (startPool (.new cacheSize expiredTtl expiredReplyTtl maxBytes)).world [] := by
  have hEmpty : ∀ s ∈ (DnsCache.new cacheSize expiredTtl expiredReplyTtl maxBytes).shards,
      s.items = [] := by
    intro s hs
    obtain ⟨i, -, hEq⟩ := mem_map.mp hs
    rw [← hEq]
    rfl
  refine ⟨⟨.nil, nodup_nil⟩, rfl, ?_, ⟨?_, rfl, ?_, .nil⟩, ?_, ?_⟩
  · intro i s hGet p hp
    rw [hEmpty s (mem_of_getElem? hGet)] at hp
    cases hp
  · have hEntries : (DnsCache.new cacheSize expiredTtl expiredReplyTtl maxBytes).entries = [] :=
      flatMap_eq_nil_iff.mpr hEmpty
    show 0 + 0 = bytesOf env (DnsCache.new _ _ _ _).entries + 0 + 0
    rw [hEntries]
    rfl
  · intro c hc
    cases hc
  · intro g hg
    cases hg
  · intro hPos
    exact absurd hPos (Nat.lt_irrefl 0)

/-- A task that starts has nothing under way. -/
theorem RaceInv.spawn {n : Nat} {w : TaskWorld} {gs : List TaskGhost} (h : RaceInv env n w gs)
    (resets : Bool) : RaceInv env n w (.idle resets :: gs) := by
  refine ⟨⟨h.exclusive.held, h.exclusive.once⟩, h.length, h.placed,
    ⟨?_, h.tally.noWrap, h.tally.stored, h.tally.apart⟩, ?_, ?_⟩
  · have hCredit : uncountedBytes (.idle resets) = 0 := rfl
    have hRefund : (TaskGhost.idle resets).refund = 0 := rfl
    rw [map_cons, sum_cons, hCredit, map_cons, sum_cons, hRefund, Nat.zero_add,
      Nat.zero_add]
    exact h.tally.balance
  · intro g hg c hc
    rcases mem_cons.mp hg with hSelf | hOther
    · rw [hSelf] at hc
      cases hc
    · exact h.guarded g hOther c hc
  · intro hPos
    obtain ⟨g, hg, hResets⟩ := h.resetting hPos
    exact ⟨g, .tail _ hg, hResets⟩

/-- The invariant holds after every orderly run. -/
theorem orderly_runs {cacheSize expiredTtl expiredReplyTtl maxBytes : Nat}
    {es : List (PoolEvent Spawn Unit)} {p : CachePool}
    (hMeet : StepsMeet
      (cacheSystem env order (.new cacheSize expiredTtl expiredReplyTtl maxBytes)).step
      (fun p e => orderly p e = true)
      (startPool (.new cacheSize expiredTtl expiredReplyTtl maxBytes)) es)
    (hRun : runTrace
      (cacheSystem env order (.new cacheSize expiredTtl expiredReplyTtl maxBytes)).step
      (startPool (.new cacheSize expiredTtl expiredReplyTtl maxBytes)) es = some p) :
    System.PoolInv
      (protocol env (DnsCache.new cacheSize expiredTtl expiredReplyTtl maxBytes).shards.length)
      (RaceInv env (DnsCache.new cacheSize expiredTtl expiredReplyTtl maxBytes).shards.length)
      (fun _ _ g => g = .idle false) p := by
  refine System.symmetric_invariant ?_ ?_ ?_ (RaceInv.start env _ _ _ _) hMeet hRun
  · intro w gs gs' hPerm h
    exact h.perm hPerm
  · intro p info h _
    exact ⟨sat_start info.fuel info.task, h.spawn info.task.resets⟩
  · intro p tid a t o k r w' g' rest hPerm h hThread hProg hPre hOk hExec
    obtain ⟨hAct, rfl⟩ := exec_eq hExec
    have hOrderly := orderly_step hOk hThread hProg
    refine ⟨rfl, h.step hPre ?_ ?_ hAct⟩
    · intro b hb u hu hFree
      exact orderlyAct_takes hOrderly hb (hPerm.mem_iff.mpr (.tail _ hu)) hFree
    · intro hReset
      subst hReset
      obtain ⟨hUncounted, hRefund⟩ := orderlyAct_reset hOrderly
      refine ⟨?_, fun u hu => hRefund u (hPerm.mem_iff.mpr hu)⟩
      intro b hb
      obtain ⟨u, hu, hTrue⟩ := hUncounted b hb
      exact ⟨u, hPerm.mem_iff.mp hu, hTrue⟩

/-- No operation is in progress. -/
def AllDone (p : CachePool) : Prop := ∀ t ∈ p.threads, ∃ a, t.prog = .done a

def isDone : CacheTask Unit → Bool
  | .done _ => true
  | .call _ _ => false

theorem isDone_iff {prog : CacheTask Unit} : isDone prog = true ↔ ∃ a, prog = .done a := by
  cases prog with
  | done a => exact ⟨fun _ => ⟨a, rfl⟩, fun _ => rfl⟩
  | call o k =>
    constructor
    · intro h
      cases h
    · rintro ⟨a, h⟩
      cases h

instance (p : CachePool) : Decidable (AllDone p) :=
  decidable_of_iff ((p.threads.all fun t => isDone t.prog) = true) <| by
    rw [List.all_eq_true]
    exact forall₂_congr fun _ _ => isDone_iff

/-- Once every task is done, nothing is under way. -/
theorem RaceInv.exact_of_idle {n : Nat} {w : TaskWorld} {gs : List TaskGhost}
    (h : RaceInv env n w gs) (hIdle : ∀ g ∈ gs, g = .idle false) :
    w.cache.usedBytes = bytesOf env w.cache.entries := by
  have hCleared : w.cleared = 0 := by
    by_contra hNe
    obtain ⟨g, hg, hResets⟩ := h.resetting (Nat.pos_of_ne_zero hNe)
    rw [hIdle g hg] at hResets
    cases hResets
  have hUncounted : (gs.map uncountedBytes).sum = 0 := by
    refine sum_eq_zero (forall_mem_map.mpr ?_)
    intro g hg
    rw [hIdle g hg]
    rfl
  have hRefund : (gs.map TaskGhost.refund).sum = 0 := by
    refine sum_eq_zero (forall_mem_map.mpr ?_)
    intro g hg
    rw [hIdle g hg]
    rfl
  have hBalance := h.tally.balance
  unfold DnsCache.usedBytes
  omega

/-- The counter under any interleaving of any tasks, as long as no entry is taken away before the
task that loaded it has counted it and no reset forgets an entry that has been counted. -/
theorem concurrent_bytes (env : CacheEnv) (order : HeapOrder)
    (cacheSize expiredTtl expiredReplyTtl maxBytes : Nat) (es : List (PoolEvent Spawn Unit))
    (p : CachePool)
    (hMeet : StepsMeet
      (cacheSystem env order (.new cacheSize expiredTtl expiredReplyTtl maxBytes)).step
      (fun p e => orderly p e = true)
      (startPool (.new cacheSize expiredTtl expiredReplyTtl maxBytes)) es)
    (hRun : runTrace
      (cacheSystem env order (.new cacheSize expiredTtl expiredReplyTtl maxBytes)).step
      (startPool (.new cacheSize expiredTtl expiredReplyTtl maxBytes)) es = some p) :
    p.world.cache.totalBytes.underflow = false ∧
      (AllDone p → p.world.cache.usedBytes =
        (p.world.cache.entries.map (bindingSize env)).sum) := by
  have hInv := orderly_runs hMeet hRun
  refine ⟨hInv.shared.tally.noWrap, ?_⟩
  intro hDone
  refine hInv.shared.exact_of_idle ?_
  intro g hg
  obtain ⟨t, ht, hGhost⟩ := mem_map.mp hg
  obtain ⟨a, hProg⟩ := hDone t ht
  rw [← hGhost]
  exact hInv.post_of_done ht hProg

end Runs

/-! ## Concrete runs -/

/-- The task at an index takes its next `n` steps. -/
def stepsOf (tid n : Nat) : List (PoolEvent Spawn Unit) := List.replicate n (.step tid ())

/-- An entry for the address of `example.com`, as the cache file has it. -/
def savedEntry : DnsCacheEntry :=
  .new (DnsResponse.newWithDeadline ServerRuns.exampleQuery
    [Record.fromRdata ServerRuns.exampleName 300 ServerRuns.exampleAddress]) (secs 300)

/-- The address of `example.com` is stored. -/
def storeTask : Task :=
  .insert ServerRuns.exampleQuery
    [(Record.fromRdata ServerRuns.exampleName 300 ServerRuns.exampleAddress, 300)] 0 "default"

/-- `example.com` turns out not to exist. -/
def missingTask : Task :=
  .insertNegative ServerRuns.exampleQuery
    (DnsResponse.newWithDeadline ServerRuns.exampleQuery []) (secs 60) "default" 0

/-- A cache of four entries without a limit on its bytes. -/
def exampleSystem : System Act Act.Resp TaskWorld TaskGhost Spawn Unit Unit :=
  cacheSystem ServerRuns.exampleEnv firstOrder (.new 4 0 0 0)

/-- `load` has counted its entry before the insertion finds it, and `clear` resets the counter
before anything is stored again. -/
def orderlyRun : List (PoolEvent Spawn Unit) :=
  [.spawn ⟨.load (some [savedEntry]), 4⟩, .spawn ⟨missingTask, 4⟩, .spawn ⟨.clear, 4⟩,
    .spawn ⟨storeTask, 4⟩] ++
    stepsOf 0 4 ++ stepsOf 1 2 ++ stepsOf 0 3 ++ stepsOf 1 2 ++ stepsOf 2 7 ++ stepsOf 3 8

theorem concurrent_bytes_orderlyRun :
    ∃ p, runTrace exampleSystem.step (startPool (.new 4 0 0 0)) orderlyRun = some p ∧ AllDone p ∧
      0 < p.world.cache.usedBytes ∧ p.world.cache.totalBytes.underflow = false ∧
      (AllDone p → p.world.cache.usedBytes =
        (p.world.cache.entries.map (bindingSize ServerRuns.exampleEnv)).sum) := by
  have hRun : ∃ p, runTrace exampleSystem.step (startPool (.new 4 0 0 0)) orderlyRun = some p ∧
      decide (AllDone p ∧ 0 < p.world.cache.usedBytes) = true :=
    (Option.any_eq_true _ _).mp (by decide +kernel)
  obtain ⟨p, hRun, hEnd⟩ := hRun
  have hMeet : StepsMeet exampleSystem.step (fun p e => orderly p e = true)
      (startPool (.new 4 0 0 0)) orderlyRun :=
    stepsMeet_of_meets exampleSystem.step (fun _ _ h => h) orderlyRun (by decide +kernel)
  exact ⟨p, hRun, (of_decide_eq_true hEnd).1, (of_decide_eq_true hEnd).2,
    concurrent_bytes _ _ _ _ _ _ orderlyRun p hMeet hRun⟩

/-- The address is stored and counted after `clear` has emptied the shards and before it resets the
counter. -/
def forgottenRun : List (PoolEvent Spawn Unit) :=
  [.spawn ⟨.clear, 4⟩, .spawn ⟨storeTask, 4⟩] ++ stepsOf 0 6 ++ stepsOf 1 8 ++ stepsOf 0 1

/-- A negative answer replaces an entry that `load` has stored and not yet counted. -/
def wrappedRun : List (PoolEvent Spawn Unit) :=
  [.spawn ⟨.load (some [savedEntry]), 4⟩, .spawn ⟨missingTask, 4⟩] ++ stepsOf 0 3 ++ stepsOf 1 4

/-- The counter may be wrong with no operation in progress, and it may wrap below zero. -/
theorem concurrent_bytes_drift :
    (∃ p, runTrace exampleSystem.step (startPool (.new 4 0 0 0)) forgottenRun = some p ∧
      AllDone p ∧ p.world.cache.usedBytes ≠
        (p.world.cache.entries.map (bindingSize ServerRuns.exampleEnv)).sum) ∧
    ∃ p, runTrace exampleSystem.step (startPool (.new 4 0 0 0)) wrappedRun = some p ∧
      p.world.cache.totalBytes.underflow = true := by
  refine ⟨?_, ?_⟩
  · have hRun : ∃ p, runTrace exampleSystem.step (startPool (.new 4 0 0 0)) forgottenRun = some p ∧
        decide (AllDone p ∧ p.world.cache.usedBytes ≠
          (p.world.cache.entries.map (bindingSize ServerRuns.exampleEnv)).sum) = true :=
      (Option.any_eq_true _ _).mp (by decide +kernel)
    obtain ⟨p, hRun, hEnd⟩ := hRun
    exact ⟨p, hRun, of_decide_eq_true hEnd⟩
  · exact (Option.any_eq_true _ _).mp (by decide +kernel)

end SmartDns.Ports.CacheRaces
