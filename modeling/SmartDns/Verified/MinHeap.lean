import Mathlib.Data.List.Perm.Basic

/-!
# Priority queues from outside

A priority queue is a bag of ranked elements from which an element of least
rank can be taken. Which one it is among several of equal rank depends on the
layout of the queue and is left open: `MinPop` is any way of choosing that
respects the ranks. `MinPop.first` is one that can be computed.
-/

namespace SmartDns.Verified

variable {α : Type} {rank : α → Nat}

/-- A way of taking an element of least rank out of a bag. -/
structure MinPop (α : Type) (rank : α → Nat) where
  pop : List α → Option (α × List α)
  empty_of_none : ∀ {xs}, pop xs = none → xs = []
  perm : ∀ {xs x rest}, pop xs = some (x, rest) → xs.Perm (x :: rest)
  least : ∀ {xs x rest}, pop xs = some (x, rest) → ∀ y ∈ rest, rank x ≤ rank y

namespace MinPop

variable {xs rest : List α} {x : α}

theorem length_pop (h : MinPop α rank) (hPop : h.pop xs = some (x, rest)) :
    xs.length = rest.length + 1 :=
  (h.perm hPop).length_eq

theorem mem_pop (h : MinPop α rank) {y : α} (hPop : h.pop xs = some (x, rest)) :
    y ∈ xs ↔ y = x ∨ y ∈ rest := by
  rw [(h.perm hPop).mem_iff, List.mem_cons]

/-- The element taken has least rank. -/
theorem rank_le (h : MinPop α rank) {y : α} (hPop : h.pop xs = some (x, rest)) (hy : y ∈ xs) :
    rank x ≤ rank y := by
  rcases (h.mem_pop hPop).mp hy with hHead | hRest
  · subst hHead
    exact Nat.le_refl _
  · exact h.least hPop y hRest

/-- The first `n` elements in the order in which they are taken. -/
def drain (h : MinPop α rank) : Nat → List α → List α
  | 0, _ => []
  | n + 1, xs =>
    match h.pop xs with
    | none => []
    | some (x, rest) => x :: h.drain n rest

/-- All elements of a bag in the order in which they are taken. -/
def inOrder (h : MinPop α rank) (xs : List α) : List α := h.drain xs.length xs

theorem inOrder_of_none (h : MinPop α rank) (hPop : h.pop xs = none) : h.inOrder xs = [] := by
  rw [h.empty_of_none hPop]
  rfl

theorem inOrder_of_pop (h : MinPop α rank) (hPop : h.pop xs = some (x, rest)) :
    h.inOrder xs = x :: h.inOrder rest := by
  unfold inOrder
  rw [h.length_pop hPop, drain, hPop]

theorem mem_inOrder (h : MinPop α rank) {y : α} (n : Nat) :
    ∀ {xs : List α}, y ∈ h.drain n xs → y ∈ xs := by
  induction n with
  | zero =>
    intro xs hy
    cases hy
  | succ n ih =>
    intro xs hy
    unfold drain at hy
    cases hPop : h.pop xs with
    | none =>
      rw [hPop] at hy
      cases hy
    | some popped =>
      rw [hPop] at hy
      exact (h.mem_pop hPop).mpr ((List.mem_cons.mp hy).imp_right ih)

/-! ## A queue that can be computed -/

/-- Take the first element of least rank. -/
def popFirst (rank : α → Nat) : List α → Option (α × List α)
  | [] => none
  | x :: xs =>
    match popFirst rank xs with
    | none => some (x, xs)
    | some (y, rest) => if rank x ≤ rank y then some (x, xs) else some (y, x :: rest)

private theorem popFirst_none (h : popFirst rank xs = none) : xs = [] := by
  cases xs with
  | nil => rfl
  | cons x xs =>
    unfold popFirst at h
    split at h
    · cases h
    · split at h <;> cases h

/-- What `popFirst` gives is a least element, and the rest is the others. -/
private theorem popFirst_some (xs : List α) :
    ∀ {x : α} {rest : List α}, popFirst rank xs = some (x, rest) →
      xs.Perm (x :: rest) ∧ ∀ y ∈ rest, rank x ≤ rank y := by
  induction xs with
  | nil =>
    intro x rest h
    exact absurd h (by simp [popFirst])
  | cons z zs ih =>
    intro x rest h
    unfold popFirst at h
    split at h
    · rename_i hNone
      cases h
      rw [popFirst_none hNone]
      exact ⟨List.Perm.refl _, by simp⟩
    · rename_i y rest' hSome
      obtain ⟨hPerm, hLeast⟩ := ih hSome
      split at h
      · rename_i hLe
        cases h
        refine ⟨List.Perm.refl _, ?_⟩
        intro w hw
        rcases List.mem_cons.mp (hPerm.mem_iff.mp hw) with hHead | hRest
        · rw [hHead]
          exact hLe
        · exact Nat.le_trans hLe (hLeast w hRest)
      · cases h
        refine ⟨(hPerm.cons z).trans (List.Perm.swap x z _), ?_⟩
        intro w hw
        rcases List.mem_cons.mp hw with hHead | hRest
        · rw [hHead]
          omega
        · exact hLeast w hRest

/-- The queue that takes the first element of least rank. -/
def first (α : Type) (rank : α → Nat) : MinPop α rank where
  pop := popFirst rank
  empty_of_none := popFirst_none
  perm h := (popFirst_some _ h).1
  least h := (popFirst_some _ h).2

end MinPop

end SmartDns.Verified
