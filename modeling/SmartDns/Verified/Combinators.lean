import Mathlib.Data.List.Infix
import Mathlib.Data.List.TakeWhile

/-!
# Parser combinators over text

A parser takes characters off the front of its input, or it fails. That it hands
back an end of its input is part of what a parser is, so a parser put together
from these pieces cannot lose or invent text. A failed parser has taken nothing:
the alternatives of `alt` are tried on the same input, and the first that
succeeds decides, whatever fails after it.

Loops run on the length of the input. An iteration that takes nothing is an
error, so a loop never runs out.
-/

namespace SmartDns.Verified

open List Option

/-- A parser, with the proof that it takes characters off the front. -/
structure Parser (α : Type) where
  run : List Char → Option (α × List Char)
  suffix : ∀ {s r : List Char} {a : α}, run s = some (a, r) → r <:+ s

namespace Parser

variable {α β γ : Type}

/-! ## Sequences -/

instance : Monad Parser where
  pure a := ⟨fun s => some (a, s), fun h => by cases h; exact List.suffix_rfl⟩
  bind p f := ⟨fun s => (p.run s).bind fun x => (f x.1).run x.2, fun h => by
    obtain ⟨x, hFirst, hRest⟩ := Option.bind_eq_some_iff.mp h
    exact ((f x.1).suffix hRest).trans (p.suffix hFirst)⟩

@[simp] theorem run_pure (a : α) (s : List Char) : (pure a : Parser α).run s = some (a, s) := rfl

@[simp] theorem run_bind (p : Parser α) (f : α → Parser β) (s : List Char) :
    (p >>= f).run s = (p.run s).bind fun x => (f x.1).run x.2 := rfl

@[simp] theorem run_map (f : α → β) (p : Parser α) (s : List Char) :
    (f <$> p).run s = (p.run s).map fun x => (f x.1, x.2) := by
  show (p.run s).bind (fun x => some (f x.1, x.2)) = _
  cases p.run s <;> rfl

def fail : Parser α := ⟨fun _ => none, nofun⟩

/-- A result that may be refused. -/
def mapRes (f : α → Option β) (p : Parser α) : Parser β := do
  match f (← p) with
  | some b => pure b
  | none => fail

@[simp] theorem run_mapRes (f : α → Option β) (p : Parser α) (s : List Char) :
    (mapRes f p).run s = (p.run s).bind fun x => (f x.1).map fun b => (b, x.2) := by
  rw [mapRes, run_bind]
  congr 1
  funext x
  cases f x.1 <;> rfl

def verify (ok : α → Bool) (p : Parser α) : Parser α :=
  mapRes (fun a => if ok a then some a else none) p

def value (b : β) (p : Parser α) : Parser β := (fun _ => b) <$> p

def preceded (p : Parser α) (q : Parser β) : Parser β := do
  let _ ← p
  q

def terminated (p : Parser α) (q : Parser β) : Parser α := do
  let a ← p
  let _ ← q
  pure a

def delimited (p : Parser α) (q : Parser β) (r : Parser γ) : Parser β := preceded p (terminated q r)

def pair (p : Parser α) (q : Parser β) : Parser (α × β) := do
  let a ← p
  let b ← q
  pure (a, b)

def opt (p : Parser α) : Parser (Option α) where
  run s :=
    match p.run s with
    | some (a, r) => some (some a, r)
    | none => some (none, s)
  suffix h := by
    split at h
    · rename_i a r hRun
      cases h
      exact p.suffix hRun
    · cases h
      exact List.suffix_rfl

/-- The text that a parser takes. -/
def recognize (p : Parser α) : Parser (List Char) where
  run s := (p.run s).map fun x => (s.take (s.length - x.2.length), x.2)
  suffix h := by
    obtain ⟨x, hRun, hEq⟩ := Option.map_eq_some_iff.mp h
    cases hEq
    exact p.suffix hRun

/-! ## Alternatives -/

def alt (ps : List (Parser α)) : Parser α where
  run s := ps.findSome? fun p => p.run s
  suffix h := by
    obtain ⟨p, -, hRun⟩ := List.exists_of_findSome?_eq_some h
    exact p.suffix hRun

/-- The alternatives of `alt` are tried in order, and the first that reads decides. -/
theorem run_alt (ps : List (Parser α)) (s : List Char) :
    (alt ps).run s = ps.findSome? fun p => p.run s := rfl

variable {ps : List (Parser α)} {s : List Char}

theorem alt_run_of_some {p : Parser α} {x : α × List Char} (h : p.run s = some x) :
    (alt (p :: ps)).run s = some x := by
  rw [run_alt, findSome?_cons, h]

theorem alt_run_of_none {p : Parser α} (h : p.run s = none) :
    (alt (p :: ps)).run s = (alt ps).run s := by
  rw [run_alt, findSome?_cons, h, run_alt]

variable {r : List Char} {a : α}

theorem alt_run_eq_some (h : (alt ps).run s = some (a, r)) : ∃ p ∈ ps, p.run s = some (a, r) := by
  obtain ⟨p, hMem, hRun⟩ := exists_of_findSome?_eq_some h
  exact ⟨p, hMem, hRun⟩

theorem alt_run_eq_none : (alt ps).run s = none ↔ ∀ p ∈ ps, p.run s = none :=
  findSome?_eq_none_iff

/-! ## Characters -/

/-- Take as many characters as a function of the input says. -/
def takeCount (count : List Char → Option Nat) : Parser (List Char) where
  run s := (count s).map fun n => (s.take n, s.drop n)
  suffix h := by
    obtain ⟨n, -, hEq⟩ := Option.map_eq_some_iff.mp h
    cases hEq
    exact List.drop_suffix n _

theorem run_takeCount (count : List Char → Option Nat) (s : List Char) :
    (takeCount count).run s = (count s).map fun n => (s.take n, s.drop n) := rfl

def tag (t : String) : Parser (List Char) :=
  takeCount fun s => if t.toList.isPrefixOf s then some t.length else none

def char (c : Char) : Parser Char :=
  value c (takeCount fun s => if s.head? = some c then some 1 else none)

/-- Lower case, as far as it is an ASCII letter: the Kelvin sign is the only other character
whose lower case is one. -/
def lowerChar (c : Char) : Char := if c = Char.ofNat 0x212A then 'k' else c.toLower

/-- How many characters have the given number of bytes; none if it falls inside one. -/
def countBytes : Nat → List Char → Option Nat
  | 0, _ => some 0
  | _ + 1, [] => none
  | n + 1, c :: s =>
    if c.utf8Size ≤ n + 1 then (countBytes (n + 1 - c.utf8Size) s).map (· + 1) else none

/-- A tag in any letter case. The texts are compared character by character as far as the
shorter one goes, and their lengths in bytes. -/
def tagNoCase (t : String) : Parser (List Char) :=
  takeCount fun s =>
    if (s.zip t.toList).all (fun x => lowerChar x.1 == lowerChar x.2) then
      countBytes t.utf8ByteSize s
    else none

def takeWhile (p : Char → Bool) : Parser (List Char) :=
  takeCount fun s => some (s.takeWhile p).length

def takeWhileMN (m n : Nat) (p : Char → Bool) : Parser (List Char) :=
  takeCount fun s =>
    let k := min n (s.takeWhile p).length
    if m ≤ k then some k else none

def takeWhile1 (p : Char → Bool) : Parser (List Char) :=
  takeCount fun s =>
    let k := (s.takeWhile p).length
    if 1 ≤ k then some k else none

def takeTill (p : Char → Bool) : Parser (List Char) := takeWhile fun c => !p c

def takeTill1 (p : Char → Bool) : Parser (List Char) := takeWhile1 fun c => !p c

def isA (chars : String) : Parser (List Char) := takeWhile1 fun c => decide (c ∈ chars.toList)

def isNot (chars : String) : Parser (List Char) := takeWhile1 fun c => decide (c ∉ chars.toList)

def isSpace (c : Char) : Bool := c == ' ' || c == '\t'

def space0 : Parser (List Char) := takeWhile isSpace

def space1 : Parser (List Char) := takeWhile1 isSpace

def digit1 : Parser (List Char) := takeWhile1 Char.isDigit

def alpha1 : Parser (List Char) := takeWhile1 Char.isAlpha

def alphanumeric1 : Parser (List Char) := takeWhile1 Char.isAlphanum

def isHexDigit (c : Char) : Bool :=
  c.isDigit || ('a' ≤ c && c ≤ 'f') || ('A' ≤ c && c ≤ 'F')

def hexDigit1 : Parser (List Char) := takeWhile1 isHexDigit

/-- All that is left. -/
def rest : Parser (List Char) := takeCount fun s => some s.length

def eof : Parser (List Char) := takeCount fun s => if s.isEmpty then some 0 else none

def isLineBreak (c : Char) : Bool := c == '\r' || c == '\n'

def lineEnding : Parser (List Char) :=
  takeCount fun s =>
    match s with
    | '\n' :: _ => some 1
    | '\r' :: '\n' :: _ => some 2
    | _ => none

/-- Up to the end of the line; a carriage return alone is an error. -/
def notLineEnding : Parser (List Char) :=
  takeCount fun s =>
    let k := (s.takeWhile fun c => !isLineBreak c).length
    match s.drop k with
    | '\r' :: '\n' :: _ => some k
    | '\r' :: _ => none
    | _ => some k

/-! ## Repetition -/

/-- The turns of a loop, as long as one can be taken. -/
def loop (turn : Parser α) : Nat → List Char → Option (List α × List Char)
  | 0, s => some ([], s)
  | n + 1, s =>
    match turn.run s with
    | none => some ([], s)
    | some (a, r) =>
      if r.length = s.length then none
      else (loop turn n r).map fun x => (a :: x.1, x.2)

/-- A loop of turns leaves a suffix of its text. -/
theorem loop_suffix (turn : Parser α) : ∀ (n : Nat) {s r : List Char} {as : List α},
    loop turn n s = some (as, r) → r <:+ s
  | 0, s, r, as, h => by
    cases h
    exact suffix_rfl
  | n + 1, s, r, as, h => by
    rw [loop] at h
    split at h
    · cases h
      exact suffix_rfl
    · rename_i a r' hRun
      split at h
      · cases h
      · obtain ⟨x, hLoop, hEq⟩ := map_eq_some_iff.mp h
        cases hEq
        exact (loop_suffix turn n hLoop).trans (turn.suffix hRun)

def many0 (p : Parser α) : Parser (List α) := ⟨fun s => loop p (s.length + 1) s, loop_suffix p _⟩

def separatedList1 (sep : Parser β) (p : Parser α) : Parser (List α) := do
  let a ← p
  let as ← many0 (preceded sep p)
  pure (a :: as)

def separatedList0 (sep : Parser β) (p : Parser α) : Parser (List α) where
  run s :=
    match p.run s with
    | none => some ([], s)
    | some (a, r) => (many0 (preceded sep p)).run r |>.map fun x => (a :: x.1, x.2)
  suffix h := by
    split at h
    · cases h
      exact List.suffix_rfl
    · rename_i a r hRun
      obtain ⟨x, hMany, hEq⟩ := Option.map_eq_some_iff.mp h
      cases hEq
      exact ((many0 (preceded sep p)).suffix hMany).trans (p.suffix hRun)

/-- How much of a text with escaped characters there is. -/
def escapedCount (normal : Char → Bool) (control : Char) (escapable : Char → Bool) :
    Bool → List Char → Option Nat
  | _, [] => some 0
  | started, c :: s =>
    if normal c then (escapedCount normal control escapable true s).map (· + 1)
    else if c = control then
      match s with
      | [] => none
      | d :: s =>
        if escapable d then (escapedCount normal control escapable true s).map (· + 2)
        else none
    else if started then some 0 else none

def escaped (normal : Char → Bool) (control : Char) (escapable : Char → Bool) :
    Parser (List Char) :=
  takeCount (escapedCount normal control escapable false)

/-! ## Numbers -/

/-- The number that digits spell in a base. -/
def digitsValue (base : Nat) (digits : List Char) : Nat :=
  digits.foldl (fun n c =>
    base * n + if c.isDigit then c.toNat - 48 else (lowerChar c).toNat - 87) 0

/-- A decimal number below a bound. -/
def uint (bound : Nat) : Parser Nat :=
  mapRes (fun ds => if digitsValue 10 ds < bound then some (digitsValue 10 ds) else none) digit1

/-! ## Reading a text back

A text is read back in front of whatever may follow it: the characters of a token
up to one that is not of the token, the turns of a loop up to where no turn can be taken. -/

/-- The text does not go on with a character of the token. -/
def Stops (p : Char → Bool) (s : List Char) : Prop := ∀ c, s.head? = some c → p c = false

variable {p : Char → Bool} {c : Char}

theorem stops_cons (h : p c = false) : Stops p (c :: s) := by
  intro d hd
  cases hd
  exact h

variable {text : List Char}

theorem stops_append (hNe : text ≠ []) (hText : ∀ c ∈ text, p c = false) (s : List Char) :
    Stops p (text ++ s) := by
  cases text with
  | nil => exact absurd rfl hNe
  | cons c text => exact stops_cons (hText c mem_cons_self)

theorem Stops.takeWhile_eq_nil (h : Stops p s) : s.takeWhile p = [] := by
  cases s with
  | nil => rfl
  | cons c s => exact takeWhile_cons_of_neg (by simp [h c rfl])

theorem Stops.dropWhile_eq_self (h : Stops p s) : s.dropWhile p = s := by
  nth_rewrite 2 [← takeWhile_append_dropWhile (p := p) (l := s)]
  rw [h.takeWhile_eq_nil, nil_append]

/-- A text of `p`-characters is taken whole when what follows stops. -/
theorem takeWhile_append (hText : ∀ c ∈ text, p c = true) (hStops : Stops p s) :
    (text ++ s).takeWhile p = text := by
  rw [takeWhile_append_of_pos hText, hStops.takeWhile_eq_nil, append_nil]

theorem run_takeWhile1 (hText : ∀ c ∈ text, p c = true) (hNe : text ≠ []) (hStops : Stops p s) :
    (takeWhile1 p).run (text ++ s) = some (text, s) := by
  have hLength : 1 ≤ text.length := length_pos_iff.mpr hNe
  simp only [takeWhile1, run_takeCount, takeWhile_append hText hStops, if_pos hLength,
    map_some, take_left, drop_left]

theorem take_length_takeWhile (p : Char → Bool) (s : List Char) :
    s.take (s.takeWhile p).length = s.takeWhile p :=
  (prefix_iff_eq_take.mp <| takeWhile_prefix p).symm

theorem drop_length_takeWhile (p : Char → Bool) (s : List Char) :
    s.drop (s.takeWhile p).length = s.dropWhile p := by
  nth_rewrite 2 [← takeWhile_append_dropWhile (p := p) (l := s)]
  rw [drop_left]

theorem takeWhile_run (p : Char → Bool) (s : List Char) :
    (takeWhile p).run s = some (s.takeWhile p, s.dropWhile p) := by
  rw [takeWhile, run_takeCount, map_some, take_length_takeWhile, drop_length_takeWhile]

theorem run_takeWhile_of_stops (h : Stops p s) : (takeWhile p).run s = some ([], s) := by
  rw [takeWhile_run, h.takeWhile_eq_nil, h.dropWhile_eq_self]

variable {t : List Char}

/-- A token is what there is of it. -/
theorem takeWhile1_run (h : (takeWhile1 p).run s = some (t, r)) :
    t = s.takeWhile p ∧ t ≠ [] ∧ r = s.dropWhile p := by
  rw [takeWhile1, run_takeCount, map_eq_some_iff] at h
  obtain ⟨n, hCount, hEq⟩ := h
  obtain ⟨hLength, hTaken⟩ := ite_none_right_eq_some.mp hCount
  cases hTaken
  cases hEq
  rw [take_length_takeWhile, drop_length_takeWhile]
  exact ⟨rfl, length_pos_iff.mp hLength, rfl⟩

theorem run_takeWhile1_of_stops (h : Stops p s) : (takeWhile1 p).run s = none := by
  simp [takeWhile1, run_takeCount, h.takeWhile_eq_nil]

theorem run_char (c : Char) (s : List Char) : (char c).run (c :: s) = some (c, s) := by
  simp [char, value, run_takeCount]

theorem run_char_of_ne (h : s.head? ≠ some c) : (char c).run s = none := by
  simp [char, value, run_takeCount, h]

theorem run_tag (t : String) (s : List Char) :
    (tag t).run (t.toList ++ s) = some (t.toList, s) := by
  have hPrefix : t.toList.isPrefixOf (t.toList ++ s) = true :=
    isPrefixOf_iff_prefix.mpr (prefix_append _ _)
  rw [tag, run_takeCount, if_pos hPrefix, map_some, ← String.length_toList, take_left,
    drop_left]

theorem run_tag_of_not {t : String} (h : ¬t.toList <+: s) : (tag t).run s = none := by
  have hPrefix : t.toList.isPrefixOf s = false := by
    rw [Bool.eq_false_iff, Ne, isPrefixOf_iff_prefix]
    exact h
  rw [tag, run_takeCount, hPrefix]
  rfl

theorem countBytes_append (l s : List Char) :
    countBytes (String.ofList l).utf8ByteSize (l ++ s) = some l.length := by
  induction l with
  | nil => simp [countBytes]
  | cons c l ih =>
    have hSize : (String.ofList (c :: l)).utf8ByteSize =
        c.utf8Size + (String.ofList l).utf8ByteSize := by
      simp
    have hPos := c.utf8Size_pos
    obtain ⟨n, hn⟩ := Nat.exists_eq_add_one_of_ne_zero
      (show (String.ofList (c :: l)).utf8ByteSize ≠ 0 by omega)
    have hLe : c.utf8Size ≤ n + 1 := by omega
    have hRest : n + 1 - c.utf8Size = (String.ofList l).utf8ByteSize := by omega
    rw [hn, cons_append, countBytes, if_pos hLe, hRest, ih]
    rfl

theorem run_tagNoCase (t : String) (s : List Char) :
    (tagNoCase t).run (t.toList ++ s) = some (t.toList, s) := by
  have hSame : ∀ l : List Char, ((l ++ s).zip l).all (fun x => lowerChar x.1 == lowerChar x.2) =
      true := by
    intro l
    induction l with
    | nil => simp
    | cons c l ih => simpa using ih
  have hCount := countBytes_append t.toList s
  rw [String.ofList_toList] at hCount
  rw [tagNoCase, run_takeCount, if_pos (hSame t.toList), hCount, map_some, take_left,
    drop_left]

theorem run_opt_of_some {p : Parser α} (h : p.run s = some (a, r)) :
    (opt p).run s = some (some a, r) := by
  simp only [opt, h]

theorem run_opt_of_none {p : Parser α} (h : p.run s = none) : (opt p).run s = some (none, s) := by
  simp only [opt, h]

theorem run_recognize {p : Parser α} (h : p.run (t ++ s) = some (a, s)) :
    (recognize p).run (t ++ s) = some (t, s) := by
  simp [recognize, h]

/-- What `recognize` gives is the text that its parser consumed. -/
theorem of_run_recognize {p : Parser α} (h : (recognize p).run s = some (t, r)) :
    s = t ++ r ∧ ∃ a, p.run s = some (a, r) := by
  obtain ⟨⟨a, r'⟩, hRun, hEq⟩ := map_eq_some_iff.mp h
  cases hEq
  obtain ⟨t, rfl⟩ := p.suffix hRun
  exact ⟨by simp, a, hRun⟩

theorem of_run_char {a : Char} (h : (char c).run s = some (a, r)) : s = c :: r := by
  by_cases hHead : s.head? = some c
  · obtain ⟨s, rfl⟩ := head?_eq_some_iff.mp hHead
    cases (run_char c s).symm.trans h
    rfl
  · cases (run_char_of_ne hHead).symm.trans h

theorem run_notLineEnding (h : ∀ c ∈ s, isLineBreak c = false) :
    notLineEnding.run s = some (s, []) := by
  have hAll : s.takeWhile (fun c => !isLineBreak c) = s := by
    simpa using h
  simp [notLineEnding, run_takeCount, hAll]

theorem of_run_takeCount {count : List Char → Option Nat}
    (h : (takeCount count).run s = some (t, r)) : s = t ++ r := by
  obtain ⟨n, -, hEq⟩ := map_eq_some_iff.mp ((run_takeCount count s).symm.trans h)
  cases hEq
  exact (take_append_drop n s).symm

theorem of_run_notLineEnding (h : notLineEnding.run s = some (t, r)) :
    ∀ c ∈ t, isLineBreak c = false := by
  rw [notLineEnding, run_takeCount, map_eq_some_iff] at h
  obtain ⟨n, hCount, hEq⟩ := h
  have hLength : n = (s.takeWhile fun c => !isLineBreak c).length := by
    simp only at hCount
    split at hCount
    · exact (some.inj hCount).symm
    · cases hCount
    · exact (some.inj hCount).symm
  cases hEq
  rw [hLength, take_length_takeWhile]
  intro c hc
  simpa using mem_takeWhile_imp hc

variable {turn : Parser α}

/-- The turns of a loop are read back if each is in front of the next one. -/
theorem loop_run {text : α → List Char} {Ok : List Char → Prop} (hOk : Ok s)
    (hEnd : turn.run s = none) : ∀ (n : Nat) (as : List α),
    (∀ a ∈ as, text a ≠ [] ∧ (∀ r, Ok (text a ++ r)) ∧
      ∀ r, Ok r → turn.run (text a ++ r) = some (a, r)) →
    (as.flatMap text).length ≤ n → loop turn n (as.flatMap text ++ s) = some (as, s)
  | 0, [], _, _ => rfl
  | n + 1, [], _, _ => by
    show loop turn (n + 1) s = _
    rw [loop, hEnd]
  | 0, a :: as, hTurns, hLength => by
    have hPos := length_pos_iff.mpr (hTurns a mem_cons_self).1
    rw [flatMap_cons, length_append] at hLength
    omega
  | n + 1, a :: as, hTurns, hLength => by
    obtain ⟨hNe, -, hTurn⟩ := hTurns a mem_cons_self
    have hPos := length_pos_iff.mpr hNe
    rw [flatMap_cons, length_append] at hLength
    have hNext : Ok (as.flatMap text ++ s) := by
      cases as with
      | nil => exact hOk
      | cons b bs =>
        rw [flatMap_cons, append_assoc]
        exact (hTurns b (by simp)).2.1 _
    have hRun : turn.run ((a :: as).flatMap text ++ s) = some (a, as.flatMap text ++ s) := by
      rw [flatMap_cons, append_assoc]
      exact hTurn _ hNext
    have hShort : (as.flatMap text ++ s).length ≠ ((a :: as).flatMap text ++ s).length := by
      simp only [flatMap_cons, length_append]
      omega
    have hRest := loop_run hOk hEnd n as (fun b hb => hTurns b (mem_cons_of_mem a hb))
      (by omega)
    simp only [loop, hRun, if_neg hShort, hRest, map_some]

/-- Turns printed one after another are read back as a list. -/
theorem run_many0 {text : α → List Char} {Ok : List Char → Prop} (hOk : Ok s)
    (hEnd : turn.run s = none) (as : List α)
    (hTurns : ∀ a ∈ as, text a ≠ [] ∧ (∀ r, Ok (text a ++ r)) ∧
      ∀ r, Ok r → turn.run (text a ++ r) = some (a, r)) :
    (many0 turn).run (as.flatMap text ++ s) = some (as, s) := by
  refine loop_run hOk hEnd _ as hTurns ?_
  rw [length_append]
  omega

theorem of_mem_loop : ∀ (n : Nat) {s r : List Char} {as : List α},
    loop turn n s = some (as, r) → ∀ a ∈ as, ∃ s' r', turn.run s' = some (a, r')
  | 0, s, r, as, h, a, ha => by
    cases h
    cases ha
  | n + 1, s, r, as, h, a, ha => by
    rw [loop] at h
    split at h
    · cases h
      cases ha
    · rename_i b r' hRun
      split at h
      · cases h
      · obtain ⟨x, hLoop, hEq⟩ := map_eq_some_iff.mp h
        cases hEq
        rcases mem_cons.mp ha with rfl | hRest
        · exact ⟨s, r', hRun⟩
        · exact of_mem_loop n hLoop a hRest

variable {sep : Parser β}

theorem run_separatedList0_nil {p : Parser α} (h : p.run s = none) :
    (separatedList0 sep p).run s = some ([], s) := by
  simp only [separatedList0, h]

variable {as : List α}

/-- Every element of a list has been read somewhere. -/
theorem of_mem_separatedList0 {p : Parser α} (h : (separatedList0 sep p).run s = some (as, r)) :
    ∀ a ∈ as, ∃ s' r', p.run s' = some (a, r') := by
  intro a ha
  cases hRun : p.run s with
  | none =>
    cases (run_separatedList0_nil hRun).symm.trans h
    cases ha
  | some x =>
    simp only [separatedList0, hRun] at h
    obtain ⟨y, hMany, hEq⟩ := map_eq_some_iff.mp h
    cases hEq
    rcases mem_cons.mp ha with rfl | hRest
    · exact ⟨s, x.2, hRun⟩
    · obtain ⟨s', r', hTurn⟩ := of_mem_loop _ hMany a hRest
      simp only [preceded, run_bind, bind_eq_some_iff] at hTurn
      obtain ⟨z, -, hItem⟩ := hTurn
      exact ⟨z.2, r', hItem⟩

theorem run_separatedList0_cons {p : Parser α} {r' : List Char} (h : p.run s = some (a, r))
    (hMany : (many0 (preceded sep p)).run r = some (as, r')) :
    (separatedList0 sep p).run s = some (a :: as, r') := by
  simp only [separatedList0, h, hMany, map_some]

theorem run_separatedList1 {p : Parser α} {r' : List Char} (h : p.run s = some (a, r))
    (hMany : (many0 (preceded sep p)).run r = some (as, r')) :
    (separatedList1 sep p).run s = some (a :: as, r') := by
  simp [separatedList1, h, hMany]

end Parser

end SmartDns.Verified
