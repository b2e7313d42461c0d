import SmartDns.Verified.Pool
import Mathlib.Logic.Relation

/-!
# Tasks that wait for locks

A task waits for another one if it is about to take a lock that the other holds.
A cycle of such tasks never makes progress. No cycle is possible if every task
that is about to take a lock holds none: whoever is waited for is then not
waiting itself.
-/

namespace SmartDns.Verified

variable {O : Type} {R : O → Type} {ω γ ι α Λ : Type}

/-- Which lock an operation waits for, and which locks a ghost state says are held. -/
structure LockView (O γ Λ : Type) where
  wants : O → Option Λ
  held : γ → List Λ

namespace LockView

variable (V : LockView O γ Λ)

/-- The task is about to take the lock. -/
def Wants (t : Thread O R γ ι α) (l : Λ) : Prop :=
  ∃ o k, t.prog = .call o k ∧ V.wants o = some l

/-- The task at the first index waits for a lock that the task at the second one holds. -/
def WaitsFor (p : Pool O R ω γ ι α) (i j : Nat) : Prop :=
  ∃ t u l, p.threads[i]? = some t ∧ p.threads[j]? = some u ∧ V.Wants t l ∧ l ∈ V.held u.ghost

/-- Some task waits for itself, by way of others or directly. -/
def CircularWait (p : Pool O R ω γ ι α) : Prop := ∃ i, Relation.TransGen (V.WaitsFor p) i i

/-- A task that is about to take a lock holds none. -/
def Disciplined (p : Pool O R ω γ ι α) : Prop :=
  ∀ t ∈ p.threads, ∀ l, V.Wants t l → V.held t.ghost = []

variable {V}

/-- A task that is waited for does not wait. -/
theorem Disciplined.not_waitsFor {p : Pool O R ω γ ι α} (h : V.Disciplined p) {i j k : Nat}
    (hFirst : V.WaitsFor p i j) : ¬ V.WaitsFor p j k := by
  rintro ⟨u', -, l', hu', -, hWants, -⟩
  obtain ⟨-, u, l, -, hu, -, hHeld⟩ := hFirst
  have hSame : u' = u := Option.some.inj (hu'.symm.trans hu)
  rw [hSame] at hWants
  rw [h u (List.mem_of_getElem? hu) l' hWants] at hHeld
  cases hHeld

theorem not_circularWait {p : Pool O R ω γ ι α} (h : V.Disciplined p) : ¬ V.CircularWait p := by
  rintro ⟨i, hCycle⟩
  obtain ⟨j, hFirst, -⟩ := Relation.TransGen.head'_iff.mp hCycle
  obtain ⟨k, -, hLast⟩ := Relation.TransGen.tail'_iff.mp hCycle
  exact h.not_waitsFor hLast hFirst

end LockView

end SmartDns.Verified
