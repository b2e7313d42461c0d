import Mathlib.Data.List.Basic

/-!
# The last value of a list

The value that the last element of a list gives which gives one, as when later
lines of a file override earlier ones.
-/

namespace SmartDns.Verified

open List

variable {α β : Type}

/-- The value given by the last element that gives one. -/
def lastSome (f : α → Option β) (xs : List α) : Option β := xs.reverse.findSome? f

@[simp] theorem lastSome_nil (f : α → Option β) : lastSome f [] = none := rfl

theorem lastSome_append (f : α → Option β) (xs ys : List α) :
    lastSome f (xs ++ ys) = (lastSome f ys).or (lastSome f xs) := by
  unfold lastSome
  rw [reverse_append, findSome?_append]

@[simp] theorem lastSome_singleton (f : α → Option β) (x : α) : lastSome f [x] = f x := by
  simp [lastSome]

theorem lastSome_cons (f : α → Option β) (x : α) (xs : List α) :
    lastSome f (x :: xs) = (lastSome f xs).or (f x) := by
  rw [← singleton_append, lastSome_append, lastSome_singleton]

theorem lastSome_congr {f g : α → Option β} {xs : List α} (h : ∀ x ∈ xs, f x = g x) :
    lastSome f xs = lastSome g xs := by
  induction xs with
  | nil => rfl
  | cons x xs ih =>
    rw [lastSome_cons, lastSome_cons, h x mem_cons_self,
      ih fun y hy => h y (mem_cons_of_mem x hy)]

end SmartDns.Verified
