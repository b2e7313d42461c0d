import Mathlib.Data.List.Basic

/-!
# Folds of partial steps

A loop whose body may fail to return within its fuel is a fold in `Option`.
These are its rules: what one step keeps the loop keeps, more fuel does not
change a result, and a loop returns if each of its steps does.
-/

namespace SmartDns.Verified

variable {σ α : Type}

variable {f : σ → α → Option σ}

theorem foldlM_cons_eq_some {s r : σ} {x : α} {xs : List α} :
    (x :: xs).foldlM f s = some r ↔ ∃ s', f s x = some s' ∧ xs.foldlM f s' = some r := by
  exact Option.bind_eq_some_iff

/-- An invariant of every step that succeeds holds of what the fold returns. -/
theorem foldlM_invariant {I : σ → Prop} {xs : List α}
    (hStep : ∀ s x s', x ∈ xs → I s → f s x = some s' → I s') :
    ∀ {s r : σ}, I s → xs.foldlM f s = some r → I r := by
  induction xs with
  | nil =>
    intro s r hs hr
    have hEq : s = r := Option.some.inj hr
    rw [← hEq]
    exact hs
  | cons x xs ih =>
    intro s r hs hr
    obtain ⟨s', hx, hxs⟩ := foldlM_cons_eq_some.mp hr
    have hNext : I s' := hStep s x s' List.mem_cons_self hs hx
    exact ih (fun s y s' hy => hStep s y s' (List.mem_cons_of_mem x hy)) hNext hxs

theorem foldlM_mono {g : σ → α → Option σ} (h : ∀ s x r, f s x = some r → g s x = some r)
    (xs : List α) : ∀ {s r : σ}, xs.foldlM f s = some r → xs.foldlM g s = some r := by
  induction xs with
  | nil =>
    intro s r hr
    exact hr
  | cons x xs ih =>
    intro s r hr
    obtain ⟨s', hx, hxs⟩ := foldlM_cons_eq_some.mp hr
    exact foldlM_cons_eq_some.mpr ⟨s', h s x s' hx, ih hxs⟩

theorem foldlM_returns {f : Nat → σ → α → Option σ} {I : σ → Prop}
    (hMono : ∀ {n m s x r}, n ≤ m → f n s x = some r → f m s x = some r) (xs : List α)
    (hStep : ∀ s x, x ∈ xs → I s → ∃ n s', f n s x = some s' ∧ I s') :
    ∀ s, I s → ∃ n r, xs.foldlM (f n) s = some r ∧ I r := by
  induction xs with
  | nil =>
    intro s hs
    exact ⟨0, s, rfl, hs⟩
  | cons x xs ih =>
    intro s hs
    obtain ⟨n, s', hx, hs'⟩ := hStep s x List.mem_cons_self hs
    obtain ⟨m, r, hxs, hr⟩ := ih (fun s y hy => hStep s y (List.mem_cons_of_mem x hy)) s' hs'
    have hHead : f (n + m) s x = some s' := hMono (by omega) hx
    have hTail : xs.foldlM (f (n + m)) s' = some r :=
      foldlM_mono (fun s y r' => hMono (by omega)) xs hxs
    exact ⟨n + m, r, foldlM_cons_eq_some.mpr ⟨s', hHead, hTail⟩, hr⟩

end SmartDns.Verified
