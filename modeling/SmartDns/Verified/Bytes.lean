import Mathlib.Algebra.Order.Ring.Nat
import Mathlib.Data.List.Infix
import Mathlib.Tactic.Ring

/-!
# Reading bytes back

A decoder takes bytes off the front of its input, or it fails. That what it
leaves is an end of its input is part of what a decoder is.

The notion that round trips are proved with is `Reads d bytes a`: whatever
follows, `d` takes exactly `bytes` and returns `a`. It composes along `>>=`, so
a record that is written field by field is read back field by field, and a
sequence of records needs no separators: each decoder stops where its record
ends, and the next starts there.

`many` repeats a decoder until the input is used up. It is defined for decoders
that take at least one byte, which is why it ends.
-/

namespace SmartDns.Verified

/-! ## Numbers -/

/-- The `n` low bytes of a number, the highest first. -/
def bigEndian : Nat → Nat → List UInt8
  | 0, _ => []
  | n + 1, x => UInt8.ofNat (x / 256 ^ n) :: bigEndian n x

@[simp] theorem length_bigEndian (n x : Nat) : (bigEndian n x).length = n := by
  induction n with
  | zero => rfl
  | succ n ih => rw [bigEndian, List.length_cons, ih]

/-- The number that bytes stand for, the highest first, after those of `acc`. -/
def ofBigEndianFrom (acc : Nat) (bytes : List UInt8) : Nat :=
  bytes.foldl (fun acc b => acc * 256 + b.toNat) acc

theorem ofBigEndianFrom_bigEndian (n x : Nat) :
    ∀ acc, ofBigEndianFrom acc (bigEndian n x) = acc * 256 ^ n + x % 256 ^ n := by
  induction n with
  | zero =>
    intro acc
    rw [pow_zero, Nat.mod_one, Nat.mul_one]
    rfl
  | succ n ih =>
    intro acc
    have hSplit : x % 256 ^ (n + 1) = x % 256 ^ n + 256 ^ n * (x / 256 ^ n % 256) := by
      rw [pow_succ, Nat.mod_mul]
    calc ofBigEndianFrom acc (bigEndian (n + 1) x)
      _ = (acc * 256 + x / 256 ^ n % 256) * 256 ^ n + x % 256 ^ n := ih _
      _ = acc * 256 ^ (n + 1) + x % 256 ^ (n + 1) := by
          rw [hSplit]
          ring

/-! ## Decoders -/

/-- A decoder, with the proof that it takes bytes off the front. -/
structure Decoder (α : Type) where
  run : List UInt8 → Option (α × List UInt8)
  suffix : ∀ {s r : List UInt8} {a : α}, run s = some (a, r) → r <:+ s

namespace Decoder

variable {α β : Type}

instance : Monad Decoder where
  pure a := ⟨fun s => some (a, s), fun h => by cases h; exact List.suffix_rfl⟩
  bind d f := ⟨fun s => (d.run s).bind fun x => (f x.1).run x.2, fun h => by
    obtain ⟨x, hFirst, hRest⟩ := Option.bind_eq_some_iff.mp h
    exact ((f x.1).suffix hRest).trans (d.suffix hFirst)⟩

theorem run_bind (d : Decoder α) (f : α → Decoder β) (s : List UInt8) :
    (d >>= f).run s = (d.run s).bind fun x => (f x.1).run x.2 := rfl

def fail : Decoder α := ⟨fun _ => none, nofun⟩

/-- The next `n` bytes. -/
def slice (n : Nat) : Decoder (List UInt8) where
  run s := if n ≤ s.length then some (s.take n, s.drop n) else none
  suffix h := by
    split at h
    · cases h
      exact List.drop_suffix _ _
    · cases h

/-- A number of `n` bytes. -/
def uint (n : Nat) : Decoder Nat := do
  let bytes ← slice n
  pure (ofBigEndianFrom 0 bytes)

/-- A byte that has to be there. -/
def tag (b : Nat) : Decoder Unit := do
  let v ← uint 1
  if v = b then pure () else fail

/-! ## Reading what was written -/

/-- The decoder takes these bytes, whatever follows, and returns `a`. -/
def Reads (d : Decoder α) (bytes : List UInt8) (a : α) : Prop :=
  ∀ rest, d.run (bytes ++ rest) = some (a, rest)

theorem reads_pure (a : α) : Reads (pure a) [] a := fun _ => rfl

variable {d : Decoder α} {bytes : List UInt8} {a : α}

/-- A decoder that goes on after another reads the concatenation of what they read. -/
theorem Reads.bind {f : α → Decoder β} {bytes' : List UInt8} {b : β} (h : Reads d bytes a)
    (h' : Reads (f a) bytes' b) : Reads (d >>= f) (bytes ++ bytes') b := by
  intro rest
  rw [run_bind, List.append_assoc, h]
  exact h' rest

/-- Nothing is left to read but the result. -/
theorem Reads.map (h : Reads d bytes a) (f : α → β) :
    Reads (d >>= fun a => pure (f a)) bytes (f a) := by
  have hPure := h.bind (f := fun a => pure (f a)) (reads_pure (f a))
  rw [List.append_nil] at hPure
  exact hPure

theorem reads_slice (bytes : List UInt8) : Reads (slice bytes.length) bytes bytes := by
  intro rest
  show (if bytes.length ≤ (bytes ++ rest).length then _ else _) = _
  rw [if_pos (by simp), List.take_left, List.drop_left]

theorem reads_uint (n x : Nat) : Reads (uint n) (bigEndian n x) (x % 256 ^ n) := by
  have hSlice := reads_slice (bigEndian n x)
  rw [length_bigEndian] at hSlice
  have hRead := hSlice.map (ofBigEndianFrom 0)
  rw [ofBigEndianFrom_bigEndian, Nat.zero_mul, Nat.zero_add] at hRead
  exact hRead

theorem reads_tag {b : Nat} (hb : b < 256) : Reads (tag b) (bigEndian 1 b) () := by
  have hByte := reads_uint 1 b
  rw [pow_one, Nat.mod_eq_of_lt hb] at hByte
  have hTag : Reads (if b = b then pure () else fail) [] () := by
    rw [if_pos rfl]
    exact reads_pure ()
  have hBoth := hByte.bind (f := fun v => if v = b then pure () else fail) hTag
  exact hBoth

/-! ## Sequences without separators -/

/-- The decoder takes at least one byte when it succeeds. -/
def Consumes (d : Decoder α) : Prop :=
  ∀ (s r : List UInt8) (a : α), d.run s = some (a, r) → r.length < s.length

theorem consumes_tag (b : Nat) : Consumes (tag b) := by
  intro s r a h
  obtain ⟨x, hByte, hTag⟩ := Option.bind_eq_some_iff.mp h
  obtain ⟨y, hSlice, hPure⟩ := Option.bind_eq_some_iff.mp hByte
  have hRest : r <:+ x.2 := (if x.1 = b then pure () else fail : Decoder Unit).suffix hTag
  change (if 1 ≤ s.length then some (s.take 1, s.drop 1) else none) = some y at hSlice
  split at hSlice
  · cases hSlice
    cases hPure
    have hLeft : r.length ≤ (s.drop 1).length := hRest.length_le
    rw [List.length_drop] at hLeft
    omega
  · cases hSlice

theorem Consumes.bind (h : Consumes d) (f : α → Decoder β) : Consumes (d >>= f) := by
  intro s r b hRun
  obtain ⟨x, hFirst, hRest⟩ := Option.bind_eq_some_iff.mp hRun
  have hTaken := h _ _ _ hFirst
  have hLeft := ((f x.1).suffix hRest).length_le
  omega

/-- What the decoder reads until the input is used up; a failure anywhere is a failure. -/
def many (d : Decoder α) (hTakes : Consumes d) (data : List UInt8) : Option (List α) :=
  if data.isEmpty then some []
  else
    match _hRun : d.run data with
    | none => none
    | some (a, rest) => (many d hTakes rest).map (a :: ·)
termination_by data.length
decreasing_by exact hTakes _ _ _ _hRun

/-- Reading many values starts with one of them when its bytes stand in front. -/
theorem many_of_reads (hTakes : Consumes d) {rest : List UInt8} (h : Reads d bytes a) :
    many d hTakes (bytes ++ rest) = (many d hTakes rest).map (a :: ·) := by
  have hRun := h rest
  have hNonempty : (bytes ++ rest).isEmpty = false := by
    have hShort := hTakes _ _ _ hRun
    cases hEq : bytes ++ rest with
    | nil =>
      rw [hEq] at hShort
      exact absurd hShort (Nat.not_lt_zero _)
    | cons _ _ => rfl
  rw [many, hNonempty, if_neg Bool.false_ne_true]
  split
  · rename_i hNone
    rw [hRun] at hNone
    cases hNone
  · rename_i a' rest' hSome
    rw [hRun] at hSome
    cases hSome
    rfl

theorem many_nil (hTakes : Consumes d) : many d hTakes [] = some [] := by
  rw [many]
  rfl

/-- Records that are read back one by one are read back as a list. -/
theorem many_flatten (hTakes : Consumes d) (records : List (List UInt8 × α))
    (h : ∀ p ∈ records, Reads d p.1 p.2) :
    many d hTakes (records.map Prod.fst).flatten = some (records.map Prod.snd) := by
  induction records with
  | nil => exact many_nil hTakes
  | cons p records ih =>
    have hHead := h p List.mem_cons_self
    have hRest := ih fun q hq => h q (.tail _ hq)
    rw [List.map_cons, List.flatten_cons, many_of_reads hTakes hHead, hRest]
    rfl

end Decoder

end SmartDns.Verified
