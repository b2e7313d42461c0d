import Mathlib.Data.List.Induction
import Mathlib.Data.List.Pairwise
import Mathlib.Data.List.Perm.Basic

/-!
# Association lists

Bindings whose keys are compared by a Boolean equivalence that may be coarser
than identity. `upsert` changes the value under a key where the binding stands,
and adds a binding at the end if there is none.
-/

namespace SmartDns.Verified

open List

variable {κ ν : Type} [BEq κ]

/-- No two bindings have equivalent keys. -/
def DistinctKeys (xs : List (κ × ν)) : Prop :=
  xs.Pairwise fun a b => (a.1 == b.1) = false

/-- The bindings whose key is not equivalent to `k`. -/
def without (k : κ) (xs : List (κ × ν)) : List (κ × ν) :=
  xs.filter fun p => !(p.1 == k)

variable {xs : List (κ × ν)}

/-- Removing a key leaves exactly the bindings of the other keys. -/
theorem mem_without {k : κ} {p : κ × ν} : p ∈ without k xs ↔ p ∈ xs ∧ (p.1 == k) = false := by
  simp [without]

/-- Removing a key that no binding has changes nothing. -/
theorem without_eq_self {k : κ} (h : ∀ p ∈ xs, (p.1 == k) = false) : without k xs = xs := by
  unfold without
  rw [filter_eq_self]
  intro p hp
  simp [h p hp]

/-- Replacing the value of the first binding keeps the keys distinct. -/
theorem DistinctKeys.setValue {p : κ × ν} (v : ν) (h : DistinctKeys (p :: xs)) :
    DistinctKeys ((p.1, v) :: xs) := by
  rw [DistinctKeys, pairwise_cons] at h ⊢
  exact h

section Equivalence

variable [EquivBEq κ]

theorem beq_false_comm {a b : κ} (h : (a == b) = false) : (b == a) = false := by
  rw [BEq.comm]
  exact h

/-- A key equivalent to one that `k` avoids is avoided by `k` as well. -/
theorem beq_false_of_beq {a b k : κ} (hab : (a == k) = true) (h : (a == b) = false) :
    (b == k) = false := by
  by_contra hbk
  have hkb : (k == b) = true := by
    rw [BEq.comm]
    exact eq_true_of_ne_false hbk
  rw [BEq.trans hab hkb] at h
  cases h

variable {xs : List (κ × ν)}

/-- Distinct keys do not depend on the order of the bindings. -/
theorem DistinctKeys.perm {ys : List (κ × ν)} (h : DistinctKeys xs) (hPerm : xs.Perm ys) :
    DistinctKeys ys :=
  (hPerm.pairwise_iff beq_false_comm).mp h

/-- Two bindings with equivalent keys are one. -/
theorem DistinctKeys.eq_of_beq (h : DistinctKeys xs) {p q : κ × ν} (hp : p ∈ xs) (hq : q ∈ xs)
    (hKey : (p.1 == q.1) = true) : p = q := by
  have hSymm : Std.Symm fun a b : κ × ν => (a.1 == b.1) = false := ⟨fun _ _ => beq_false_comm⟩
  by_contra hNe
  have hFalse := List.Pairwise.forall h hp hq hNe
  rw [hKey] at hFalse
  exact Bool.false_ne_true hFalse.symm

/-- The binding found under a key, pulled to the front of the rest. -/
theorem perm_cons_without {k : κ} {p : κ × ν} (hDistinct : DistinctKeys xs)
    (hFind : xs.find? (fun p => p.1 == k) = some p) :
    xs.Perm (p :: without k xs) := by
  induction xs with
  | nil => simp at hFind
  | cons x xs ih =>
    rw [DistinctKeys, pairwise_cons] at hDistinct
    by_cases hx : (x.1 == k) = true
    · have hp : x = p := by simpa [hx] using hFind
      subst hp
      have hRest : without k xs = xs := by
        apply without_eq_self
        intro y hy
        exact beq_false_of_beq hx (hDistinct.1 y hy)
      have hHead : without k (x :: xs) = without k xs := by simp [without, hx]
      rw [hHead, hRest]
    · have hTail : xs.find? (fun p => p.1 == k) = some p := by simpa [hx] using hFind
      have hHead : without k (x :: xs) = x :: without k xs := by simp [without, hx]
      rw [hHead]
      exact ((ih hDistinct.2 hTail).cons x).trans (List.Perm.swap p x _)

/-- With distinct keys, a binding is in the list exactly when its key finds it. -/
theorem DistinctKeys.mem_iff_find (h : DistinctKeys xs) {p : κ × ν} :
    p ∈ xs ↔ xs.find? (fun q => q.1 == p.1) = some p := by
  refine ⟨fun hp => ?_, mem_of_find?_eq_some⟩
  obtain ⟨q, hq⟩ : ∃ q, xs.find? (fun q => q.1 == p.1) = some q :=
    Option.isSome_iff_exists.mp (find?_isSome.mpr ⟨p, hp, BEq.rfl⟩)
  have hKey : (q.1 == p.1) = true := by simpa using find?_some hq
  rw [hq, h.eq_of_beq (mem_of_find?_eq_some hq) hp hKey]

end Equivalence

/-! ## Updates in place -/

/-- Update the value under a key, or bind the key to what the update makes of `d`. -/
def upsert (k : κ) (f : ν → ν) (d : ν) : List (κ × ν) → List (κ × ν)
  | [] => [(k, f d)]
  | x :: xs => if x.1 == k then (x.1, f x.2) :: xs else x :: upsert k f d xs

variable {k : κ} {f : ν → ν} {d : ν}

/-- The keys after an update: the old ones, and the key if it is new. -/
theorem keys_upsert (xs : List (κ × ν)) :
    (upsert k f d xs).map Prod.fst =
      if xs.any (fun x => x.1 == k) then xs.map Prod.fst else xs.map Prod.fst ++ [k] := by
  induction xs with
  | nil => rfl
  | cons x xs ih =>
    unfold upsert
    by_cases hKey : (x.1 == k) = true
    · simp [hKey]
    · rw [if_neg hKey, map_cons, ih]
      simp only [any_cons, eq_false_of_ne_true hKey, Bool.false_or]
      split <;> rfl

theorem distinctKeys_iff :
    DistinctKeys xs ↔ (xs.map Prod.fst).Pairwise fun a b => (a == b) = false := by
  rw [DistinctKeys, pairwise_map]

/-- An upsert keeps the keys distinct. -/
theorem DistinctKeys.upsert (h : DistinctKeys xs) : DistinctKeys (upsert k f d xs) := by
  rw [distinctKeys_iff] at h ⊢
  rw [keys_upsert]
  split
  · exact h
  · rename_i hNew
    rw [pairwise_append]
    refine ⟨h, pairwise_singleton _ _, ?_⟩
    simpa using hNew

/-- Looking a key up after an update. -/
theorem find_upsert [EquivBEq κ] (q : κ) (xs : List (κ × ν)) :
    (upsert k f d xs).find? (fun x => x.1 == q) =
      if k == q then
        some (((xs.find? fun x => x.1 == q).map fun x => (x.1, f x.2)).getD (k, f d))
      else xs.find? fun x => x.1 == q := by
  induction xs with
  | nil => cases hq : k == q <;> simp [upsert, hq]
  | cons x xs ih =>
    unfold upsert
    by_cases hKey : (x.1 == k) = true
    · have hSame : (x.1 == q) = (k == q) := by
        rw [Bool.eq_iff_iff]
        exact ⟨BEq.trans (BEq.symm hKey), BEq.trans hKey⟩
      rw [if_pos hKey]
      cases hq : k == q <;> simp [hSame, hq]
    · rw [if_neg hKey, find?_cons, find?_cons, ih]
      cases hq : x.1 == q with
      | false => rfl
      | true =>
        have hOther : ¬(k == q) = true := fun hk => hKey (BEq.trans hq (BEq.symm hk))
        simp [hOther]

/-! ### Keys compared by identity -/

section Lawful

variable [LawfulBEq κ]

theorem distinctKeys_iff_nodup : DistinctKeys xs ↔ (xs.map Prod.fst).Nodup := by
  rw [distinctKeys_iff]
  simp only [beq_eq_false_iff_ne]
  rfl

theorem lookup_cons_of_ne {q : κ} (h : q ≠ k) (v : ν) (xs : List (κ × ν)) :
    ((k, v) :: xs).lookup q = xs.lookup q := by
  rw [lookup_cons, beq_false_of_ne h]

/-- An upsert changes what its own key finds and no other. -/
theorem lookup_upsert [DecidableEq κ] (q : κ) (xs : List (κ × ν)) :
    (upsert k f d xs).lookup q =
      if q = k then some (f ((xs.lookup k).getD d)) else xs.lookup q := by
  induction xs with
  | nil => by_cases hq : q = k <;> simp [upsert, hq]
  | cons x xs ih =>
    obtain ⟨old, v⟩ := x
    unfold upsert
    by_cases hOld : old = k
    · subst hOld
      by_cases hq : q = old
      · simp [hq]
      · simp [hq, lookup_cons_of_ne hq]
    · by_cases hq : q = old
      · subst hq
        simp [hOld]
      · simp [hOld, lookup_cons_of_ne hq, lookup_cons_of_ne (Ne.symm hOld), ih]

end Lawful

/-! ## Tables filled one element after another -/

variable {ρ : Type} (key : ρ → κ) (g : ρ → ν → ν) (e : ν)

/-- The table left by updating, for each element in turn, the value under its key. -/
def tabulate (rs : List ρ) : List (κ × ν) := rs.foldl (fun xs r => upsert (key r) (g r) e xs) []

theorem tabulate_concat (rs : List ρ) (r : ρ) :
    tabulate key g e (rs ++ [r]) = upsert (key r) (g r) e (tabulate key g e rs) :=
  foldl_append

/-- A table built by upserts has one binding for each key. -/
theorem distinctKeys_tabulate (rs : List ρ) : DistinctKeys (tabulate key g e rs) := by
  induction rs using List.reverseRecOn with
  | nil => exact .nil
  | append_singleton rs r ih =>
    rw [tabulate_concat]
    exact ih.upsert

/-- Under a key stands what the elements with an equivalent key make of `e`, in the spelling
of the first of them. -/
theorem find_tabulate [EquivBEq κ] (rs : List ρ) (q : κ) :
    (tabulate key g e rs).find? (fun x => x.1 == q) =
      ((rs.map key).find? (· == q)).map fun k =>
        (k, (rs.filter fun r => key r == q).foldl (fun v r => g r v) e) := by
  induction rs using List.reverseRecOn with
  | nil => rfl
  | append_singleton rs r ih =>
    rw [tabulate_concat, find_upsert, ih, map_append, find?_append, filter_append]
    by_cases hKey : (key r == q) = true
    · cases hFirst : (rs.map key).find? (· == q) with
      | some k => simp [hKey]
      | none =>
        have hNone : rs.filter (fun r => key r == q) = [] := by simpa using hFirst
        simp [hKey, hNone]
    · simp [hKey]

theorem mem_tabulate [EquivBEq κ] {rs : List ρ} {p : κ × ν} :
    p ∈ tabulate key g e rs ↔ (rs.map key).find? (· == p.1) = some p.1 ∧
      p.2 = (rs.filter fun r => key r == p.1).foldl (fun v r => g r v) e := by
  rw [(distinctKeys_tabulate key g e rs).mem_iff_find, find_tabulate, Option.map_eq_some_iff]
  constructor
  · rintro ⟨k, hFirst, hEq⟩
    have hKey : k = p.1 := congrArg Prod.fst hEq
    exact ⟨hKey ▸ hFirst, (congrArg Prod.snd hEq).symm⟩
  · rintro ⟨hFirst, hValue⟩
    exact ⟨p.1, hFirst, by rw [← hValue]⟩

end SmartDns.Verified
