import Mathlib.Algebra.GroupWithZero.Nat
import Mathlib.Algebra.Order.BigOperators.Group.List
import Mathlib.Algebra.Order.Group.Nat
import SmartDns.Verified.AssocList

/-!
# Bounded least-recently-used maps

A map with a fixed positive capacity whose bindings are kept in order of use,
most recent first. Keys are compared by a Boolean equivalence that may be
coarser than identity, so a lookup can return a binding stored under another
spelling of the key.

The structure carries its three invariants — a positive capacity, at most that
many bindings, and no two bindings with equivalent keys — so every operation
keeps them by construction. The accounting lemmas say how an arbitrary weight
summed over all bindings changes, which is what a caller that keeps a running
total has to match.
-/

namespace SmartDns.Verified

open List

variable {κ ν : Type} [BEq κ]

/-! ## The map -/

/-- A least-recently-used map, most recently used binding first. -/
structure Lru (κ ν : Type) [BEq κ] where
  cap : Nat
  items : List (κ × ν)
  capPos : 0 < cap
  lengthLe : items.length ≤ cap
  distinct : DistinctKeys items

namespace Lru

/-- A map with no bindings. -/
def empty (cap : Nat) (hCap : 0 < cap) : Lru κ ν where
  cap := cap
  items := []
  capPos := hCap
  lengthLe := Nat.zero_le cap
  distinct := List.Pairwise.nil

/-- Remove every binding. -/
def clear (m : Lru κ ν) : Lru κ ν := empty m.cap m.capPos

/-- The binding stored under a key equivalent to `k`. -/
def peek (m : Lru κ ν) (k : κ) : Option (κ × ν) := m.items.find? fun p => p.1 == k

/-- Remove and return the least recently used binding. -/
def popLru (m : Lru κ ν) : Option (κ × ν) × Lru κ ν :=
  (m.items.getLast?,
    { m with
      items := m.items.dropLast
      lengthLe := by
        have hLe := m.lengthLe
        rw [List.length_dropLast]
        omega
      distinct := m.distinct.sublist (List.dropLast_sublist _) })

/-- The sum of a weight over all bindings. -/
def weight (f : κ × ν → Nat) (m : Lru κ ν) : Nat := (m.items.map f).sum

/-! ### Lookups that fail and the least recently used binding -/

variable {m : Lru κ ν} {k : κ}

theorem peek_none (h : m.peek k = none) : ∀ p ∈ m.items, (p.1 == k) = false := by
  intro p hp
  have hNone := find?_eq_none.mp h p hp
  simpa using hNone

variable {p : κ × ν}

theorem length_popLru (h : m.popLru.1 = some p) : m.popLru.2.items.length + 1 = m.items.length := by
  have hNe : m.items ≠ [] := by
    intro hNil
    have hLast : m.items.getLast? = some p := h
    rw [hNil] at hLast
    cases hLast
  have hPos := length_pos_iff.mpr hNe
  show (m.items.dropLast).length + 1 = _
  rw [length_dropLast]
  omega

theorem items_of_popLru_none (h : m.popLru.1 = none) : m.items = [] :=
  getLast?_eq_none_iff.mp h

variable {q : κ × ν}

theorem mem_popLru (hq : q ∈ m.popLru.2.items) : q ∈ m.items :=
  dropLast_subset _ hq

/-! ### What an operation exchanges -/

/-- The bindings that came and those that are gone after an update. Whatever was bound to the key
of a new binding is gone. -/
structure Exchange (before after came gone : List (κ × ν)) : Prop where
  perm : (came ++ before).Perm (gone ++ after)
  stays : ∀ b ∈ came, b ∈ after
  fresh : ∀ b ∈ came, ∀ q ∈ before, (q.1 == b.1) = true → q ∈ gone

/-- An exchange changes the total weight by what came and what went. -/
theorem Exchange.weight {before after came gone : List (κ × ν)}
    (h : Exchange before after came gone) (w : κ × ν → Nat) :
    (came.map w).sum + (before.map w).sum = (gone.map w).sum + (after.map w).sum := by
  have hSum := (h.perm.map w).sum_eq
  simp only [map_append, sum_append] at hSum
  exact hSum

/-- A binding that is not gone is still there. -/
theorem Exchange.mem_after {before after came gone : List (κ × ν)}
    (h : Exchange before after came gone) {b : κ × ν} (hb : b ∈ before) (hGone : b ∉ gone) :
    b ∈ after := by
  have hAll := h.perm.subset (mem_append_right came hb)
  rcases mem_append.mp hAll with hLeft | hRight
  · exact absurd hLeft hGone
  · exact hRight

theorem Exchange.refl (xs : List (κ × ν)) : Exchange xs xs [] [] where
  perm := List.Perm.refl _
  stays _ hb := absurd hb not_mem_nil
  fresh _ hb := absurd hb not_mem_nil

private theorem perm_getLast {α : Type} (xs : List α) :
    xs.Perm (xs.getLast?.toList ++ xs.dropLast) := by
  cases hLast : xs.getLast? with
  | none =>
    rw [getLast?_eq_none_iff.mp hLast]
    rfl
  | some p =>
    have hItems := dropLast_append_getLast? p hLast
    conv_lhs => rw [← hItems]
    exact perm_append_singleton p _

/-- Popping the least recent binding takes that one away and brings none. -/
theorem exchange_popLru (m : Lru κ ν) :
    Exchange m.items m.popLru.2.items [] m.popLru.1.toList where
  perm := perm_getLast m.items
  stays _ hb := absurd hb not_mem_nil
  fresh _ hb := absurd hb not_mem_nil

theorem exchange_clear (m : Lru κ ν) : Exchange m.items m.clear.items [] m.items where
  perm := by
    show m.items.Perm (m.items ++ [])
    rw [append_nil]
  stays _ hb := absurd hb not_mem_nil
  fresh _ hb := absurd hb not_mem_nil

theorem le_weight (w : κ × ν → Nat) (hp : p ∈ m.items) : w p ≤ m.weight w :=
  le_sum_of_mem (mem_map_of_mem hp)

theorem weight_popLru (w : κ × ν → Nat) (h : m.popLru.1 = some p) :
    m.popLru.2.weight w + w p = m.weight w := by
  have hSum := (exchange_popLru m).weight w
  rw [h] at hSum
  simp only [Option.toList_some, map_cons, sum_cons] at hSum
  unfold weight
  omega

/-! ### Updates -/

variable [EquivBEq κ]

theorem perm_of_peek (h : m.peek k = some p) : m.items.Perm (p :: without k m.items) :=
  perm_cons_without m.distinct h

/-- Mark the binding of `k` as used and update its value in place. -/
def modify (m : Lru κ ν) (k : κ) (f : ν → ν) : Lru κ ν :=
  match h : m.peek k with
  | none => m
  | some p =>
    { m with
      items := (p.1, f p.2) :: without k m.items
      lengthLe := by
        have hLen := (perm_of_peek h).length_eq
        have hLe := m.lengthLe
        simp only [List.length_cons] at hLen ⊢
        omega
      distinct := (m.distinct.perm (perm_of_peek h)).setValue (f p.2) }

/-- The bindings after `push`, with the binding that had to leave. -/
def pushItems (m : Lru κ ν) (k : κ) (v : ν) : Option (κ × ν) × List (κ × ν) :=
  match m.peek k with
  | some p => (some p, (k, v) :: without k m.items)
  | none =>
    if m.items.length = m.cap then (m.items.getLast?, (k, v) :: m.items.dropLast)
    else (none, (k, v) :: m.items)

variable {v : ν}

private theorem distinct_cons {xs : List (κ × ν)} (hDistinct : DistinctKeys xs)
    (hFresh : ∀ p ∈ xs, (p.1 == k) = false) : DistinctKeys ((k, v) :: xs) := by
  rw [DistinctKeys, pairwise_cons]
  exact ⟨fun p hp => beq_false_comm (hFresh p hp), hDistinct⟩

/-- A push stays within the capacity. -/
theorem pushItems_length (m : Lru κ ν) (k : κ) (v : ν) : (m.pushItems k v).2.length ≤ m.cap := by
  have hLe := m.lengthLe
  have hPos := m.capPos
  unfold pushItems
  split
  · rename_i p hPeek
    have hLen := (perm_of_peek hPeek).length_eq
    simp only [length_cons] at hLen ⊢
    omega
  · split
    · simp only [length_cons, length_dropLast]
      omega
    · simp only [length_cons]
      omega

/-- A push keeps the keys distinct. -/
theorem pushItems_distinct (m : Lru κ ν) (k : κ) (v : ν) : DistinctKeys (m.pushItems k v).2 := by
  unfold pushItems
  split
  · refine distinct_cons (m.distinct.sublist filter_sublist) ?_
    intro q hq
    exact (mem_without.mp hq).2
  · rename_i hPeek
    have hFresh := peek_none hPeek
    split
    · refine distinct_cons (m.distinct.sublist (dropLast_sublist _)) ?_
      intro q hq
      exact hFresh q (dropLast_subset _ hq)
    · exact distinct_cons m.distinct hFresh

/--
Bind `k` as the most recently used key. The first component is the binding
that left: the one replaced, or the least recently used one of a full map.
-/
def push (m : Lru κ ν) (k : κ) (v : ν) : Option (κ × ν) × Lru κ ν :=
  ((m.pushItems k v).1,
    { m with
      items := (m.pushItems k v).2
      lengthLe := m.pushItems_length k v
      distinct := m.pushItems_distinct k v })

@[simp] theorem cap_modify (m : Lru κ ν) (k : κ) (f : ν → ν) : (m.modify k f).cap = m.cap := by
  unfold modify
  split <;> rfl

theorem items_modify_some (f : ν → ν) (h : m.peek k = some p) :
    (m.modify k f).items = (p.1, f p.2) :: without k m.items := by
  unfold modify
  split
  · rename_i hNone
    rw [h] at hNone
    cases hNone
  · rename_i q hSome
    rw [h] at hSome
    cases hSome
    rfl

theorem modify_none (f : ν → ν) (h : m.peek k = none) : m.modify k f = m := by
  unfold modify
  split
  · rfl
  · rename_i q hSome
    rw [h] at hSome
    cases hSome

/-! ## Where bindings come from -/

/-- A lookup finds the only binding whose key is equivalent. -/
theorem peek_eq_some : m.peek k = some p ↔ p ∈ m.items ∧ (p.1 == k) = true := by
  constructor
  · intro h
    exact ⟨mem_of_find?_eq_some h, by simpa using find?_some h⟩
  · rintro ⟨hp, hKey⟩
    cases h : m.peek k with
    | none => exact absurd hKey (by simp [peek_none h p hp])
    | some q =>
      rcases mem_cons.mp ((perm_of_peek h).mem_iff.mp hp) with hHead | hTail
      · rw [hHead]
      · exact absurd hKey (by simp [(mem_without.mp hTail).2])

/-- `modify` changes the bindings of its key alone. -/
theorem mem_modify_iff {f : ν → ν} :
    q ∈ (m.modify k f).items ↔
      (q ∈ m.items ∧ (q.1 == k) = false) ∨ ∃ p ∈ m.items, (p.1 == k) = true ∧ q = (p.1, f p.2) := by
  cases h : m.peek k with
  | none =>
    rw [modify_none f h]
    constructor
    · intro hq
      exact .inl ⟨hq, peek_none h q hq⟩
    · rintro (hOld | ⟨p, hp, hKey, -⟩)
      · exact hOld.1
      · exact absurd hKey (by simp [peek_none h p hp])
  | some p =>
    obtain ⟨hMem, hKey⟩ := peek_eq_some.mp h
    rw [items_modify_some f h, mem_cons]
    constructor
    · rintro (hHead | hTail)
      · exact .inr ⟨p, hMem, hKey, hHead⟩
      · exact .inl (mem_without.mp hTail)
    · rintro (hOld | ⟨p', hp', hKey', hEq⟩)
      · exact .inr (mem_without.mpr hOld)
      · have hSame : p = p' := Option.some.inj (h.symm.trans (peek_eq_some.mpr ⟨hp', hKey'⟩))
        rw [hSame]
        exact .inl hEq

theorem mem_modify {f : ν → ν} (hq : q ∈ (m.modify k f).items) :
    (q ∈ m.items ∧ (q.1 == k) = false) ∨ ∃ p ∈ m.items, (p.1 == k) = true ∧ q = (p.1, f p.2) :=
  mem_modify_iff.mp hq

theorem push_some_mem (h : (m.push k v).1 = some p) : p ∈ m.items := by
  replace h : (m.pushItems k v).1 = some p := h
  unfold pushItems at h
  split at h
  · rename_i q hPeek
    cases h
    exact mem_of_find?_eq_some hPeek
  · split at h
    · exact mem_of_getLast? h
    · cases h

theorem mem_push (hq : q ∈ (m.push k v).2.items) :
    q = (k, v) ∨ (q ∈ m.items ∧ (q.1 == k) = false) := by
  replace hq : q ∈ (m.pushItems k v).2 := hq
  unfold pushItems at hq
  split at hq
  · rw [mem_cons] at hq
    exact hq.imp id mem_without.mp
  · rename_i hPeek
    have hFresh := peek_none hPeek
    split at hq
    · rw [mem_cons] at hq
      refine hq.imp id fun hMem => ?_
      have hOld := dropLast_subset _ hMem
      exact ⟨hOld, hFresh q hOld⟩
    · rw [mem_cons] at hq
      exact hq.imp id fun hMem => ⟨hMem, hFresh q hMem⟩

/-! ## Accounting -/

theorem exchange_modify (f : ν → ν) (h : m.peek k = some p) :
    Exchange m.items (m.modify k f).items [(p.1, f p.2)] [p] where
  perm := by
    rw [items_modify_some f h]
    exact ((perm_of_peek h).cons _).trans (List.Perm.swap _ _ _)
  stays b hb := by
    rw [mem_singleton.mp hb, items_modify_some f h]
    exact .head _
  fresh b hb q hq hKey := by
    rw [mem_singleton.mp hb] at hKey
    have hFound := peek_eq_some.mp h
    have hSame : m.peek k = some q := peek_eq_some.mpr ⟨hq, BEq.trans hKey hFound.2⟩
    rw [h] at hSame
    exact mem_singleton.mpr (Option.some.inj hSame).symm

/-- A push brings its binding and takes away the one it reports. -/
theorem exchange_push (m : Lru κ ν) (k : κ) (v : ν) :
    Exchange m.items (m.push k v).2.items [(k, v)] (m.push k v).1.toList := by
  show Exchange m.items (m.pushItems k v).2 [(k, v)] (m.pushItems k v).1.toList
  unfold pushItems
  split
  · rename_i p hPeek
    refine ⟨((perm_of_peek hPeek).cons _).trans (List.Perm.swap _ _ _), ?_, ?_⟩
    · exact forall_mem_singleton.mpr mem_cons_self
    · intro b hb q hq hKey
      rw [mem_singleton.mp hb] at hKey
      have hSame := peek_eq_some.mpr ⟨hq, hKey⟩
      rw [hPeek] at hSame
      exact mem_singleton.mpr (Option.some.inj hSame).symm
  · rename_i hPeek
    -- no binding has an equivalent key, so the last condition is void
    have hFresh : ∀ b ∈ [(k, v)], ∀ q ∈ m.items, (q.1 == b.1) = true → False := by
      intro b hb q hq hKey
      rw [mem_singleton.mp hb] at hKey
      rw [peek_none hPeek q hq] at hKey
      exact Bool.false_ne_true hKey
    split
    · refine ⟨?_, ?_, fun b hb q hq hKey => (hFresh b hb q hq hKey).elim⟩
      · exact ((perm_getLast m.items).cons (k, v)).trans perm_middle.symm
      · exact forall_mem_singleton.mpr mem_cons_self
    · refine ⟨List.Perm.refl _, ?_, fun b hb q hq hKey => (hFresh b hb q hq hKey).elim⟩
      exact forall_mem_singleton.mpr mem_cons_self

/-- An in-place update trades the old weight of one binding for its new one. -/
theorem weight_modify (w : κ × ν → Nat) (f : ν → ν) (h : m.peek k = some p) :
    (m.modify k f).weight w + w p = m.weight w + w (p.1, f p.2) := by
  have hSum := (exchange_modify f h).weight w
  simp only [map_cons, sum_cons] at hSum
  unfold weight
  omega

/-- A push that makes a binding leave trades its weight for the new one. -/
theorem weight_push_some (w : κ × ν → Nat) (h : (m.push k v).1 = some p) :
    (m.push k v).2.weight w + w p = m.weight w + w (k, v) := by
  have hSum := (exchange_push m k v).weight w
  rw [h] at hSum
  simp only [Option.toList_some, map_cons, sum_cons] at hSum
  unfold weight
  omega

/-- A push that makes no binding leave adds the new weight. -/
theorem weight_push_none (w : κ × ν → Nat) (h : (m.push k v).1 = none) :
    (m.push k v).2.weight w = m.weight w + w (k, v) := by
  have hSum := (exchange_push m k v).weight w
  rw [h] at hSum
  simp only [Option.toList_none, map_cons, sum_cons] at hSum
  unfold weight
  omega

/-! ## Recent bindings stay -/

variable {j : Nat}

/-- Filtering brings what it keeps forward. -/
private theorem mem_take_filter {α : Type} {xs : List α} {keep : α → Bool} {a : α}
    (h : a ∈ xs.take j) (ha : keep a = true) : a ∈ (xs.filter keep).take j := by
  have hLen : ((xs.take j).filter keep).length ≤ j :=
    (length_filter_le _ _).trans (length_take_le j xs)
  rw [← take_append_drop j xs, filter_append, take_append,
    take_of_length_le hLen]
  exact mem_append_left _ (mem_filter.mpr ⟨h, ha⟩)

/-- What was pushed last is the most recent binding. -/
theorem mem_take_push_self : (k, v) ∈ (m.push k v).2.items.take 1 := by
  show (k, v) ∈ (m.pushItems k v).2.take 1
  unfold pushItems
  split
  · exact .head _
  · split <;> exact .head _

theorem mem_take_modify (f : ν → ν) (hp : p ∈ m.items.take j) (hKey : (p.1 == k) = false) :
    p ∈ (m.modify k f).items.take (j + 1) := by
  cases h : m.peek k with
  | none =>
    rw [modify_none f h]
    exact (take_prefix_take_left (Nat.le_succ j)).subset hp
  | some q =>
    rw [items_modify_some f h]
    exact .tail _ (mem_take_filter hp (by simp [hKey]))

/-- A push of another key moves a binding back by one place at most. -/
theorem mem_take_push (hp : p ∈ m.items.take j) (hKey : (p.1 == k) = false) (hj : j < m.cap) :
    p ∈ (m.push k v).2.items.take (j + 1) := by
  show p ∈ (m.pushItems k v).2.take (j + 1)
  unfold pushItems
  split
  · exact .tail _ (mem_take_filter hp (by simp [hKey]))
  · split
    · have hMin : min j (m.items.length - 1) = j := by omega
      rw [take_succ_cons, dropLast_eq_take, take_take, hMin]
      exact .tail _ hp
    · exact .tail _ hp

/-! ## Many pushes -/

/-- A new key comes first, and the last binding leaves if there is no room for all. -/
theorem items_push_of_none (v : ν) (h : m.peek k = none) :
    (m.push k v).2.items = ((k, v) :: m.items).take m.cap := by
  have hLe := m.lengthLe
  have hPos := m.capPos
  show (m.pushItems k v).2 = _
  unfold pushItems
  rw [h]
  dsimp only
  split
  · rename_i hFull
    obtain ⟨n, hn⟩ := Nat.exists_eq_succ_of_ne_zero hPos.ne'
    rw [dropLast_eq_take, hFull, hn]
    rfl
  · rw [take_of_length_le]
    rw [length_cons]
    omega

/-- Push bindings one after another. -/
def pushAll (m : Lru κ ν) (xs : List (κ × ν)) : Lru κ ν :=
  xs.foldl (fun m p => (m.push p.1 p.2).2) m

theorem items_pushAll (xs : List (κ × ν)) :
    ∀ {m : Lru κ ν}, DistinctKeys xs → (∀ x ∈ xs, m.peek x.1 = none) →
      (m.pushAll xs).items = (xs.reverse ++ m.items).take m.cap := by
  induction xs with
  | nil =>
    intro m _ _
    exact (take_of_length_le m.lengthLe).symm
  | cons x xs ih =>
    intro m hDistinct hFresh
    rw [DistinctKeys, pairwise_cons] at hDistinct
    have hPush := items_push_of_none x.2 (hFresh x mem_cons_self)
    have hRest : ∀ y ∈ xs, (m.push x.1 x.2).2.peek y.1 = none := by
      intro y hy
      apply find?_eq_none.mpr
      intro p hp
      rw [hPush] at hp
      rcases mem_cons.mp (mem_of_mem_take hp) with hHead | hTail
      · rw [hHead]
        simpa using hDistinct.1 y hy
      · simpa using peek_none (hFresh y (.tail _ hy)) p hTail
    show ((m.push x.1 x.2).2.pushAll xs).items = _
    rw [ih hDistinct.2 hRest, hPush, reverse_cons, append_assoc, singleton_append]
    show (xs.reverse ++ ((x.1, x.2) :: m.items).take m.cap).take m.cap = _
    rw [take_append, take_append, take_take, Nat.min_eq_left (Nat.sub_le _ _)]

end Lru

end SmartDns.Verified
