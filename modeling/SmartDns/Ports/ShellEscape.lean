import Mathlib.Data.List.Basic

/-!
# Quoting of Windows arguments

The command line that registers the Windows service is one text, and the program that is
started cuts it into arguments again. `escape` leaves a text alone if the cut cannot hurt it, and
otherwise puts it in quotes, with a backslash before each quote of its own. Backslashes count only
in front of a quote, so a run of them is doubled there and nowhere else.

`parseArgs` is the cut, by the rules of the C runtime.
-/

namespace SmartDns.Ports.ShellEscape

open List

def doubleQuote : UInt16 := 34

def backslash : UInt16 := 92

/-- `ESCAPE_CHARS`: the quote, the blank, the line feed and the two tabs. -/
def escapeChars : List UInt16 := [doubleQuote, 32, 10, 9, 11]

/-- The loop of `escape`, with the number of backslashes just read. -/
def escapeLoop (numSlashes : Nat) : List UInt16 → List UInt16
  | [] => replicate (numSlashes * 2) backslash
  | c :: s =>
    if c = backslash then escapeLoop (numSlashes + 1) s
    else if c = doubleQuote then
      replicate (numSlashes * 2 + 1) backslash ++ doubleQuote :: escapeLoop 0 s
    else replicate numSlashes backslash ++ c :: escapeLoop 0 s

def escape (s : List UInt16) : List UInt16 :=
  if s.isEmpty || s.any (· ∈ escapeChars) then doubleQuote :: (escapeLoop 0 s ++ [doubleQuote])
  else s

/-- What separates arguments. -/
def isBlank (c : UInt16) : Bool := c = 32 || c = 9

/--
The arguments of a command line, read inside quotes or outside, with the backslashes just read
and the argument under way, if there is one.
-/
def parseArgs (quoted : Bool) (slashes : Nat) (arg : Option (List UInt16)) :
    List UInt16 → List (List UInt16)
  | [] => (arg.map (· ++ replicate slashes backslash)).toList
  | c :: s =>
    if c = backslash then parseArgs quoted (slashes + 1) (some (arg.getD [])) s
    else if c = doubleQuote then
      let arg := arg.getD [] ++ replicate (slashes / 2) backslash
      if slashes % 2 = 0 then parseArgs (!quoted) 0 (some arg) s
      else parseArgs quoted 0 (some (arg ++ [doubleQuote])) s
    else if !quoted && isBlank c then
      (arg.map (· ++ replicate slashes backslash)).toList ++ parseArgs quoted 0 none s
    else parseArgs quoted 0 (some (arg.getD [] ++ replicate slashes backslash ++ [c])) s

theorem parseArgs_replicate (quoted : Bool) (arg s : List UInt16) (n : Nat) :
    ∀ slashes, parseArgs quoted slashes (some arg) (replicate n backslash ++ s) =
      parseArgs quoted (slashes + n) (some arg) s := by
  induction n with
  | zero => exact fun _ => rfl
  | succ n ih =>
    intro slashes
    rw [replicate_succ, cons_append, parseArgs, if_pos rfl]
    exact (ih (slashes + 1)).trans (by rw [Nat.add_right_comm, Nat.add_assoc])

/--
What the loop has written is read back inside quotes. The backslashes that the loop has read and
not yet written are counted as read.
-/
theorem parseArgs_escapeLoop (s : List UInt16) : ∀ numSlashes arg,
    parseArgs true 0 (some arg) (escapeLoop numSlashes s ++ [doubleQuote]) =
      [arg ++ replicate numSlashes backslash ++ s] := by
  induction s with
  | nil =>
    intro k arg
    rw [escapeLoop, parseArgs_replicate]
    simp [parseArgs, doubleQuote, backslash]
  | cons c s ih =>
    intro k arg
    rw [escapeLoop]
    split
    · rename_i hSlash
      rw [ih, hSlash, replicate_succ']
      simp
    · rename_i hOther
      split
      · rename_i hQuote
        have hHalf : (0 + (k * 2 + 1)) / 2 = k := by omega
        have hOdd : (0 + (k * 2 + 1)) % 2 ≠ 0 := by omega
        rw [append_assoc, parseArgs_replicate, cons_append, hQuote, parseArgs,
          if_neg (show doubleQuote ≠ backslash by decide), if_pos rfl]
        dsimp only
        rw [if_neg hOdd, ih, hHalf]
        simp
      · rename_i hPlain
        rw [append_assoc, parseArgs_replicate, cons_append, parseArgs, if_neg hOther,
          if_neg hPlain, if_neg (by simp), ih]
        simp

theorem of_not_mem_escapeChars {c : UInt16} (h : c ∉ escapeChars) :
    c ≠ doubleQuote ∧ isBlank c = false := by
  simp only [escapeChars, mem_cons, not_or] at h
  simp [h, isBlank]

/-- A text without quotes and blanks is read as it is. -/
theorem parseArgs_plain (s : List UInt16) : ∀ slashes arg, (∀ c ∈ s, c ∉ escapeChars) →
    parseArgs false slashes (some arg) s = [arg ++ replicate slashes backslash ++ s] := by
  induction s with
  | nil =>
    intro k arg _
    simp [parseArgs]
  | cons c s ih =>
    intro k arg hPlain
    obtain ⟨hc, hs⟩ := forall_mem_cons.mp hPlain
    have hOther := of_not_mem_escapeChars hc
    rw [parseArgs]
    split
    · rename_i hSlash
      rw [ih _ _ hs, hSlash, replicate_succ']
      simp
    · rw [if_neg hOther.1, if_neg (by simp [hOther.2]), ih _ _ hs]
      simp

/-- **Quoting is undone**: the command line `escape s` has one argument, and it is `s`. -/
theorem parseArgs_escape (s : List UInt16) : parseArgs false 0 none (escape s) = [s] := by
  unfold escape
  split
  · rw [parseArgs, if_neg (by decide), if_pos rfl]
    exact (parseArgs_escapeLoop s 0 []).trans (by simp)
  · rename_i hPlain
    simp only [Bool.or_eq_true, List.isEmpty_iff, any_eq_true, not_or, not_exists, not_and,
      decide_eq_true_eq] at hPlain
    have hRead := parseArgs_plain s 0 [] hPlain.2
    -- the first unit starts the argument that an empty one would start
    cases s with
    | nil => exact absurd rfl hPlain.1
    | cons c s =>
      have hOther := of_not_mem_escapeChars (hPlain.2 c mem_cons_self)
      rw [parseArgs, hOther.2] at hRead ⊢
      simpa using hRead

end SmartDns.Ports.ShellEscape
