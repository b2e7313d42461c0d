import SmartDns.Ports.LineParsing
import Mathlib.Data.Bool.AllAny
import Mathlib.Tactic.IntervalCases

/-!
# Addresses are read back from their texts

What is printed of the value of an address rule is read as the same value: a mark that
forces or ignores answers, or a list of addresses of both families. An IPv6 address is
printed with its first longest run of zeros left out, and read with zeros put in.
-/

namespace SmartDns.Ports.AddressText

open Verified Parser DnsMessage RuleTree ConfigValues ConfigText LineParsing List

/-! ## Numbers -/

theorem digitsValue_concat (base : Nat) (ds : List Char) (c : Char) :
    digitsValue base (ds ++ [c]) = base * digitsValue base ds +
      if c.isDigit then c.toNat - 48 else (lowerChar c).toNat - 87 := by
  simp [digitsValue]

theorem digitChar_value {d : Nat} (hd : d < 16) :
    (if d.digitChar.isDigit then d.digitChar.toNat - 48
      else (lowerChar d.digitChar).toNat - 87) = d := by
  interval_cases d <;> decide

theorem isHexDigit_digitChar {d : Nat} (hd : d < 16) : isHexDigit d.digitChar = true := by
  interval_cases d <;> decide

/-- The digits of a number have its value. -/
theorem digitsValue_toDigits {base : Nat} (hLow : 1 < base) (hHigh : base ≤ 16) (n : Nat) :
    digitsValue base (Nat.toDigits base n) = n := by
  induction n using Nat.strongRecOn with
  | ind n ih =>
    by_cases hLt : n < base
    · have hSingle := digitsValue_concat base [] n.digitChar
      rw [nil_append, digitChar_value (by omega)] at hSingle
      rw [Nat.toDigits_of_lt_base hLt, hSingle]
      simp [digitsValue]
    · have hLe : base ≤ n := by omega
      have hDigit : n % base < 16 := by
        have := Nat.mod_lt n (show 0 < base by omega)
        omega
      rw [Nat.toDigits_of_base_le hLow hLe, digitsValue_concat, digitChar_value hDigit,
        ih (n / base) (Nat.div_lt_self (by omega) hLow)]
      exact Nat.div_add_mod n base

variable {n : Nat}

theorem isHexDigit_of_mem_toDigits : ∀ c ∈ Nat.toDigits 16 n, isHexDigit c = true := by
  induction n using Nat.strongRecOn with
  | ind n ih =>
    intro c hc
    by_cases hLt : n < 16
    · rw [Nat.toDigits_of_lt_base hLt, mem_singleton] at hc
      rw [hc]
      exact isHexDigit_digitChar hLt
    · rw [Nat.toDigits_of_base_le (by omega) (by omega), mem_append,
        mem_singleton] at hc
      rcases hc with hInit | hLast
      · exact ih (n / 16) (by omega) c hInit
      · rw [hLast]
        exact isHexDigit_digitChar (Nat.mod_lt n (by omega))

/-! ## IPv4 -/

variable {s : List Char}

theorem u8_run (hn : n < 256) (hs : Stops Char.isDigit s) :
    u8.run (Nat.toDigits 10 n ++ s) = some (n, s) := by
  have hDigits : digit1.run (Nat.toDigits 10 n ++ s) = some (Nat.toDigits 10 n, s) :=
    run_takeWhile1 (fun c hc => Nat.isDigit_of_mem_toDigits (by omega) (by omega) hc)
      Nat.toDigits_ne_nil hs
  simp [u8, uint, hDigits, digitsValue_toDigits, hn]

theorem showIpv4_eq (addr : BitVec 32) : showIpv4 addr =
    Nat.toDigits 10 (addr.toNat / 2 ^ 24) ++ '.' :: (Nat.toDigits 10 (addr.toNat / 2 ^ 16 % 256) ++
      '.' :: (Nat.toDigits 10 (addr.toNat / 2 ^ 8 % 256) ++
        '.' :: Nat.toDigits 10 (addr.toNat % 256))) := by
  simp [showIpv4]

/-- An address is read back if no digit follows it. -/
theorem ipv4_run (addr : BitVec 32) (hs : Stops Char.isDigit s) :
    ipv4.run (showIpv4 addr ++ s) = some (addr, s) := by
  have hDot : ∀ t, Stops Char.isDigit ('.' :: t) := fun t => stops_cons rfl
  rw [showIpv4_eq]
  simp only [append_assoc, cons_append]
  simp only [ipv4, run_bind, preceded, run_char, Option.bind_some,
    u8_run (n := addr.toNat / 2 ^ 24) (by omega) (hDot _),
    u8_run (n := addr.toNat / 2 ^ 16 % 256) (by omega) (hDot _),
    u8_run (n := addr.toNat / 2 ^ 8 % 256) (by omega) (hDot _),
    u8_run (n := addr.toNat % 256) (by omega) hs, run_pure]
  have hValue : ((addr.toNat / 2 ^ 24 * 256 + addr.toNat / 2 ^ 16 % 256) * 256 +
      addr.toNat / 2 ^ 8 % 256) * 256 + addr.toNat % 256 = addr.toNat := by omega
  rw [hValue, BitVec.ofNat_toNat, BitVec.setWidth_eq]

/-- There is no address where no dot follows the first digits. -/
theorem ipv4_run_none (h : (s.dropWhile Char.isDigit).head? ≠ some '.') : ipv4.run s = none := by
  rw [ipv4, run_bind, Option.bind_eq_none_iff]
  rintro ⟨n, r⟩ hFirst
  rw [u8, uint, run_mapRes] at hFirst
  obtain ⟨⟨ds, r'⟩, hDigits, hValue⟩ := Option.bind_eq_some_iff.mp hFirst
  obtain ⟨v, -, hEq⟩ := Option.map_eq_some_iff.mp hValue
  cases hEq
  have hRest : r' = s.dropWhile Char.isDigit := (takeWhile1_run hDigits).2.2
  simp [preceded, hRest, run_char_of_ne h]

/-! ## IPv6 -/

/-- A group printed in hexadecimal is read back. -/
theorem hextet_run {g : Nat} (hg : g < 2 ^ 16) (hs : Stops isHexDigit s) :
    hextet.run (Nat.toDigits 16 g ++ s) = some (g, s) := by
  have hDigits : hexDigit1.run (Nat.toDigits 16 g ++ s) = some (Nat.toDigits 16 g, s) :=
    run_takeWhile1 isHexDigit_of_mem_toDigits Nat.toDigits_ne_nil hs
  have hLength : (Nat.toDigits 16 g).length ≤ 4 :=
    (Nat.length_toDigits_le_iff (by omega) (by omega)).mpr hg
  simp [hextet, verify, hDigits, hLength, digitsValue_toDigits]

theorem hextet_run_none (hs : Stops isHexDigit s) : hextet.run s = none := by
  simp [hextet, verify, hexDigit1, run_takeWhile1_of_stops hs]

theorem intercalate_cons {sep : List Char} (x : List Char) (xs : List (List Char)) :
    sep.intercalate (x :: xs) = x ++ xs.flatMap fun y => sep ++ y := by
  induction xs generalizing x with
  | nil => simp
  | cons y ys ih =>
    rw [flatMap_cons, append_assoc, ← ih y]
    simp

theorem showGroups_cons (g : Nat) (groups : List Nat) : showGroups (g :: groups) =
    Nat.toDigits 16 g ++ groups.flatMap fun g => ':' :: Nat.toDigits 16 g := by
  rw [showGroups, map_cons, intercalate_cons, flatMap_map]
  rfl

/-- Where a list of groups ends: at no digit, and at no colon that leads to one. -/
structure GroupsEnd (s : List Char) : Prop where
  stops : Stops isHexDigit s
  next : (preceded (char ':') hextet).run s = none

variable {groups : List Nat}

/-- Groups printed with colons between them are read back. -/
theorem groups_run (hGroups : ∀ g ∈ groups, g < 2 ^ 16) (hs : GroupsEnd s) :
    (separatedList0 (char ':') hextet).run (showGroups groups ++ s) = some (groups, s) := by
  cases groups with
  | nil => exact run_separatedList0_nil (hextet_run_none hs.stops)
  | cons g groups =>
    have hTurns : ∀ g ∈ groups, (':' :: Nat.toDigits 16 g) ≠ [] ∧
        (∀ r, Stops isHexDigit (':' :: Nat.toDigits 16 g ++ r)) ∧
        ∀ r, Stops isHexDigit r → (preceded (char ':') hextet).run
          (':' :: Nat.toDigits 16 g ++ r) =
          some (g, r) := by
      intro g hg
      refine ⟨cons_ne_nil _ _, fun r => stops_cons rfl, fun r hr => ?_⟩
      simp [preceded, run_char, hextet_run (hGroups g (.tail _ hg)) hr]
    have hMany := run_many0 hs.stops hs.next groups hTurns
    have hStops : Stops isHexDigit
        ((groups.flatMap fun g => ':' :: Nat.toDigits 16 g) ++ s) := by
      cases groups with
      | nil => exact hs.stops
      | cons => exact stops_cons rfl
    rw [showGroups_cons, append_assoc]
    exact run_separatedList0_cons (hextet_run (hGroups g mem_cons_self) hStops) hMany

/-! ### The run of zeros -/

/-- The span is inside the list, and all zeros. -/
structure Zeros (groups : List Nat) (span : Nat × Nat) : Prop where
  inside : span.1 + span.2 ≤ groups.length
  zero : ∀ i, span.1 ≤ i → i < span.1 + span.2 → groups[i]? = some 0

theorem Zeros.concat {span : Nat × Nat} (h : Zeros groups span) (g : Nat) :
    Zeros (groups ++ [g]) span := by
  refine ⟨?_, fun i hLow hHigh => ?_⟩
  · have := h.inside
    rw [length_append]
    omega
  · have := h.inside
    rw [getElem?_append_left (by omega)]
    exact h.zero i hLow hHigh

/-- A span that ends where the list does goes on with another zero. -/
theorem Zeros.grow {start len : Nat} (h : Zeros groups (start, len))
    (hEnd : start + len = groups.length) : Zeros (groups ++ [0]) (start, len + 1) := by
  have hLength : (groups ++ [0]).length = groups.length + 1 := by simp
  refine ⟨by simp only [hLength]; omega, fun i hLow hHigh => ?_⟩
  by_cases hLast : i < groups.length
  · rw [getElem?_append_left hLast]
    exact h.zero i hLow (by simp only; omega)
  · have hEq : i = groups.length := by simp only at hHigh; omega
    rw [hEq, getElem?_concat_length]

theorem zeros_empty (groups : List Nat) {start : Nat} (h : start ≤ groups.length) :
    Zeros groups (start, 0) :=
  ⟨h, fun i hLow hHigh => absurd hHigh (by simp only at hLow ⊢; omega)⟩

/-- The longest span is one of zeros, and the current one is empty or ends where the list does. -/
structure Spans (groups : List Nat) (s : (Nat × Nat) × Nat × Nat) : Prop where
  best : Zeros groups s.1
  current : s.2.2 = 0 ∨ s.2.1 + s.2.2 = groups.length ∧ Zeros groups s.2

theorem Spans.zero {s : (Nat × Nat) × Nat × Nat} (h : Spans groups s) {current : Nat × Nat}
    (hEnd : current.1 + current.2 = (groups ++ [0]).length)
    (hZeros : Zeros (groups ++ [0]) current) :
    Spans (groups ++ [0]) (if s.1.2 < current.2 then current else s.1, current) := by
  refine ⟨?_, .inr ⟨hEnd, hZeros⟩⟩
  split
  · exact hZeros
  · exact h.best.concat 0

/-- A further group keeps the current and the longest span of zeros. -/
theorem Spans.step {s : (Nat × Nat) × Nat × Nat} (h : Spans groups s) (g : Nat) :
    Spans (groups ++ [g]) (spanStep s (g, groups.length)) := by
  unfold spanStep
  by_cases hZero : g = 0
  · subst hZero
    have hLength : (groups ++ [0]).length = groups.length + 1 := by simp
    -- the current span goes on, or starts, with the new zero
    refine h.zero ?_ ?_
    · split
      · exact hLength.symm
      · rename_i hNe
        have hEnd := (h.current.resolve_left hNe).1
        omega
    · split
      · exact (zeros_empty groups (Nat.le_refl _)).grow rfl
      · rename_i hNe
        obtain ⟨hEnd, hZeros⟩ := h.current.resolve_left hNe
        exact hZeros.grow hEnd
  · rw [if_neg hZero]
    exact ⟨h.best.concat g, .inl rfl⟩

/-- The span that is shortened holds zeros only. -/
theorem zeroSpan_zeros (groups : List Nat) : Zeros groups (zeroSpan groups) := by
  suffices h : Spans groups (groups.zipIdx.foldl spanStep ((0, 0), (0, 0))) from h.best
  induction groups using reverseRecOn with
  | nil => exact ⟨zeros_empty [] (Nat.zero_le _), .inl rfl⟩
  | append_singleton groups g ih =>
    rw [zipIdx_append, foldl_append, Nat.zero_add]
    exact ih.step g

/-- The groups are those around the span, with zeros between them. -/
theorem Zeros.fill {span : Nat × Nat} (h : Zeros groups span) (hLength : groups.length = 8) :
    fillGroups (groups.take span.1) (groups.drop (span.1 + span.2)) = groups := by
  obtain ⟨start, len⟩ := span
  have hInside := h.inside
  have hMiddle : (groups.drop start).take len = replicate len 0 := by
    rw [eq_replicate_iff]
    refine ⟨by simp; omega, fun b hb => ?_⟩
    obtain ⟨i, hi⟩ := mem_iff_getElem?.mp hb
    rw [getElem?_take, Option.ite_none_right_eq_some, getElem?_drop] at hi
    have hZero := h.zero (start + i) (by simp only; omega) (by simp only; omega)
    exact Option.some.inj (hi.2.symm.trans hZero)
  have hPre : (groups.take start).length = start := by simp; omega
  have hPost : 8 - (groups.drop (start + len)).length = start + len := by simp; omega
  have hZeros : (replicate (8 - start) 0).take len = replicate len 0 := by
    rw [take_replicate]
    congr 1
    omega
  have hTake : (groups.take start ++ replicate (8 - start) 0).take (start + len) =
      groups.take start ++ replicate len 0 := by
    rw [take_append, hPre, Nat.add_sub_cancel_left, hZeros, take_of_length_le (by omega)]
  rw [fillGroups, hPre, hPost, hTake, ← hMiddle, ← take_add, take_append_drop]

/-! ### Addresses -/

theorem length_groupsOf (addr : BitVec 128) : (groupsOf addr).length = 8 := by simp [groupsOf]

theorem groupsOf_lt (addr : BitVec 128) : ∀ g ∈ groupsOf addr, g < 2 ^ 16 := by
  intro g hg
  obtain ⟨i, -, rfl⟩ := mem_map.mp hg
  exact Nat.mod_lt _ (by omega)

/-- The first groups are the high bits. -/
theorem fold_groups (hn : n < 2 ^ 128) : ∀ k ≤ 8,
    ((range k).map fun i => n / 2 ^ (112 - 16 * i) % 2 ^ 16).foldl
      (fun m g => m * 2 ^ 16 + g) 0 = n / 2 ^ (128 - 16 * k) := by
  intro k hk
  induction k with
  | zero => exact (Nat.div_eq_of_lt hn).symm
  | succ k ih =>
    have hHigh : 128 - 16 * k = 112 - 16 * k + 16 := by omega
    have hLow : 128 - 16 * (k + 1) = 112 - 16 * k := by omega
    rw [range_succ, map_append, foldl_append, ih (by omega), hHigh, hLow,
      Nat.pow_add, ← Nat.div_div_eq_div_mul]
    exact Nat.div_add_mod' _ _

/-- The eight groups of an address make up the address. -/
theorem groupsOf_value (addr : BitVec 128) :
    BitVec.ofNat 128 ((groupsOf addr).foldl (fun n g => n * 2 ^ 16 + g) 0) = addr := by
  rw [groupsOf, fold_groups addr.isLt 8 (Nat.le_refl 8), Nat.pow_zero, Nat.div_one,
    BitVec.ofNat_toNat, BitVec.setWidth_eq]

/-- Where an address ends: at a comma, a blank or the end of the text. -/
def AddressEnd (s : List Char) : Prop := ∀ c, s.head? = some c → c = ',' ∨ isSpace c = true

theorem AddressEnd.stops (h : AddressEnd s) {p : Char → Bool} (hComma : p ',' = false)
    (hBlank : p ' ' = false) (hTab : p '\t' = false) : Stops p s := by
  intro c hc
  rcases h c hc with rfl | hSpace
  · exact hComma
  · simp only [isSpace, Bool.or_eq_true, beq_iff_eq] at hSpace
    rcases hSpace with rfl | rfl
    · exact hBlank
    · exact hTab

variable {c : Char}

theorem AddressEnd.head_ne (h : AddressEnd s) (hComma : c ≠ ',') (hSpace : isSpace c = false) :
    s.head? ≠ some c := by
  intro hc
  rcases h c hc with hEq | hBlank
  · exact hComma hEq
  · exact absurd (hSpace.symm.trans hBlank) Bool.false_ne_true

theorem AddressEnd.groupsEnd (h : AddressEnd s) : GroupsEnd s := by
  refine ⟨h.stops rfl rfl rfl, ?_⟩
  rw [preceded, run_bind, run_char_of_ne (h.head_ne (by decide) rfl)]
  rfl

theorem gap_groupsEnd (s : List Char) : GroupsEnd ("::".toList ++ s) := by
  refine ⟨stops_cons rfl, ?_⟩
  show (preceded (char ':') hextet).run (':' :: ':' :: s) = none
  rw [preceded, run_bind]
  exact hextet_run_none (stops_cons rfl)

def isGroupChar (c : Char) : Bool := isHexDigit c || c == ':'

theorem isGroupChar_of_mem : ∀ c ∈ showGroups groups, isGroupChar c = true := by
  intro c hc
  cases groups with
  | nil => cases hc
  | cons g groups =>
    rw [showGroups_cons, mem_append, mem_flatMap] at hc
    rcases hc with hFirst | ⟨g', -, hLater⟩
    · simp [isGroupChar, isHexDigit_of_mem_toDigits c hFirst]
    · rcases mem_cons.mp hLater with rfl | hDigit
      · rfl
      · simp [isGroupChar, isHexDigit_of_mem_toDigits c hDigit]

/-- There is no dot after the digits that a text of groups starts with. -/
theorem no_dot {text : List Char} (hText : ∀ c ∈ text, isGroupChar c = true) (hs : AddressEnd s) :
    ((text ++ s).dropWhile Char.isDigit).head? ≠ some '.' := by
  induction text with
  | nil =>
    have hStops : Stops Char.isDigit s := hs.stops rfl rfl rfl
    rw [nil_append, hStops.dropWhile_eq_self]
    exact hs.head_ne (by decide) rfl
  | cons c text ih =>
    by_cases hDigit : c.isDigit = true
    · rw [cons_append, dropWhile_cons_of_pos hDigit]
      exact ih fun d hd => hText d (mem_cons_of_mem c hd)
    · rw [cons_append, dropWhile_cons_of_neg hDigit]
      rintro ⟨⟩
      exact absurd (hText '.' mem_cons_self) (by decide)

/-- A text of groups is not one of a mapped address. -/
theorem mapped_run_none {text : List Char} (hText : ∀ c ∈ text, isGroupChar c = true)
    (hs : AddressEnd s) : (preceded (tag "::ffff:") ipv4).run (text ++ s) = none := by
  by_cases hPrefix : "::ffff:".toList <+: text ++ s
  · obtain ⟨t, ht⟩ := hPrefix
    -- the groups go on after the mark, for nothing of it can stand after the address
    have hInside : ∃ text', text = "::ffff:".toList ++ text' ∧ t = text' ++ s := by
      rcases append_eq_append_iff.mp ht with ⟨text', hText', ht'⟩ | ⟨mark, hMark, hs'⟩
      · exact ⟨text', hText', ht'⟩
      · cases mark with
        | nil => exact ⟨[], by simpa using hMark.symm, by simpa using hs'.symm⟩
        | cons c mark =>
          have hMem : c ∈ "::ffff:".toList := by rw [hMark]; simp
          have hOther : ∀ d ∈ "::ffff:".toList, d ≠ ',' ∧ isSpace d = false :=
            all_iff_forall_prop.mp (by decide)
          exact absurd (by rw [hs']; rfl) (hs.head_ne (hOther c hMem).1 (hOther c hMem).2)
    obtain ⟨text', rfl, rfl⟩ := hInside
    exact ipv4_run_none (no_dot (fun c hc => hText c (mem_append_right _ hc)) hs)
  · rw [preceded, run_bind, run_tag_of_not hPrefix]
    rfl

/-- Is the address one of the other family? -/
def Mapped (addr : BitVec 128) : Prop := addr.toNat / 2 ^ 32 = 0xffff

variable {addr : BitVec 128}

theorem showIpv6_mapped (h : Mapped addr) :
    showIpv6 addr = "::ffff:".toList ++ showIpv4 (BitVec.ofNat 32 addr.toNat) := by
  unfold Mapped at h
  rw [showIpv6, if_pos h]

theorem isGroupChar_showIpv6 (h : ¬Mapped addr) : ∀ c ∈ showIpv6 addr, isGroupChar c = true := by
  have hGap : ∀ c ∈ "::".toList, isGroupChar c = true := all_eq_true.mp (by decide)
  unfold Mapped at h
  intro c hc
  rw [showIpv6, if_neg h] at hc
  simp only at hc
  split at hc
  · rw [mem_append, mem_append] at hc
    rcases hc with (hPre | hMark) | hPost
    · exact isGroupChar_of_mem c hPre
    · exact hGap c hMark
    · exact isGroupChar_of_mem c hPost
  · exact isGroupChar_of_mem c hc

/-- The groups of an address are read back, and so is where its zeros are left out. -/
theorem gappedGroups_run (h : ¬Mapped addr) (hs : AddressEnd s) : ∃ pre gap post,
      gappedGroups.run (showIpv6 addr ++ s) = some ((pre, gap, post), s) ∧
      (pre.length = 8 ∨ gap.isSome = true ∧ pre.length + post.length < 8) ∧ post.length ≤ 8 ∧
      fillGroups pre post = groupsOf addr := by
  have hGroups := groupsOf_lt addr
  have hLength := length_groupsOf addr
  unfold Mapped at h
  rw [showIpv6, if_neg h]
  simp only
  split
  · rename_i hGap
    generalize hSpan : zeroSpan (groupsOf addr) = span at hGap ⊢
    have hZeros : Zeros (groupsOf addr) span := hSpan ▸ zeroSpan_zeros (groupsOf addr)
    have hInside := hZeros.inside
    have hPre : ∀ g ∈ (groupsOf addr).take span.1, g < 2 ^ 16 :=
      fun g hg => hGroups g (mem_of_mem_take hg)
    have hPost : ∀ g ∈ (groupsOf addr).drop (span.1 + span.2), g < 2 ^ 16 :=
      fun g hg => hGroups g (mem_of_mem_drop hg)
    refine ⟨_, some "::".toList, _, ?_, .inr ⟨rfl, ?_⟩, ?_, hZeros.fill hLength⟩
    · rw [append_assoc, append_assoc]
      simp only [gappedGroups, run_bind, groups_run hPre (gap_groupsEnd _), Option.bind_some,
        run_opt_of_some (run_tag "::" _), groups_run hPost hs.groupsEnd, run_pure]
    · rw [length_take, length_drop]
      omega
    · rw [length_drop]
      omega
  · have hNoGap : (tag "::").run s = none := by
      refine run_tag_of_not ?_
      rintro ⟨t, rfl⟩
      exact hs.head_ne (by decide) rfl rfl
    have hNoPost : (separatedList0 (char ':') hextet).run s = some ([], s) :=
      run_separatedList0_nil (hextet_run_none hs.groupsEnd.stops)
    refine ⟨groupsOf addr, none, [], ?_, .inl hLength, Nat.zero_le 8, by simp [fillGroups, hLength]⟩
    simp only [gappedGroups, run_bind, groups_run hGroups hs.groupsEnd, Option.bind_some,
      run_opt_of_none hNoGap, hNoPost, run_pure]

/-- An address is read back if a comma, a blank or nothing follows it. -/
theorem ipv6_run (addr : BitVec 128) (hs : AddressEnd s) :
    ipv6.run (showIpv6 addr ++ s) = some (addr, s) := by
  by_cases hMapped : Mapped addr
  · refine alt_run_of_some ?_
    have hValue : BitVec.ofNat 128 (0xffff * 2 ^ 32 + (BitVec.ofNat 32 addr.toNat).toNat) =
      addr := by
      unfold Mapped at hMapped
      apply BitVec.eq_of_toNat_eq
      rw [BitVec.toNat_ofNat, BitVec.toNat_ofNat]
      omega
    rw [showIpv6_mapped hMapped, run_map, preceded, run_bind, append_assoc, run_tag,
      Option.bind_some, ipv4_run _ (hs.stops rfl rfl rfl), Option.map_some, hValue]
  · obtain ⟨pre, gap, post, hRead, hAllowed, hPost, hFill⟩ := gappedGroups_run hMapped hs
    have hFirst : ((fun ip : BitVec 32 => BitVec.ofNat 128 (0xffff * 2 ^ 32 + ip.toNat)) <$>
        preceded (tag "::ffff:") ipv4).run (showIpv6 addr ++ s) = none := by
      rw [run_map, mapped_run_none (isGroupChar_showIpv6 hMapped) hs]
      rfl
    have hCheck : ((pre.length == 8 || gap.isSome && decide (pre.length + post.length < 8)) &&
        decide (post.length ≤ 8)) = true := by
      simp [hAllowed, hPost]
    refine (alt_run_of_none hFirst).trans (alt_run_of_some ?_)
    rw [run_mapRes, hRead, Option.bind_some, if_pos hCheck, hFill, groupsOf_value]
    rfl

/-! ## Lists of addresses -/

def showIp : IpAddr → List Char
  | .v4 addr => showIpv4 addr
  | .v6 addr => showIpv6 addr

/-- An address printed before a comma, a blank or the end is read back. -/
theorem ip_run (addr : IpAddr) (hs : AddressEnd s) :
    ip.run (showIp addr ++ s) = some (addr, s) := by
  cases addr with
  | v4 addr =>
    refine alt_run_of_some ?_
    simp [showIp, ipv4_run addr (hs.stops rfl rfl rfl)]
  | v6 addr =>
    have hFirst : ipv4.run (showIpv6 addr ++ s) = none := by
      refine ipv4_run_none ?_
      by_cases hMapped : Mapped addr
      · rw [showIpv6_mapped hMapped]
        exact nofun
      · exact no_dot (isGroupChar_showIpv6 hMapped) hs
    refine (alt_run_of_none (by rw [run_map, showIp, hFirst]; rfl)).trans (alt_run_of_some ?_)
    simp [showIp, ipv6_run addr hs]

def isAddressChar (c : Char) : Bool := isGroupChar c || c == '.'

theorem isAddressChar_showIpv4 (addr : BitVec 32) :
    ∀ c ∈ showIpv4 addr, isAddressChar c = true := by
  have hDigit : ∀ n, ∀ c ∈ Nat.toDigits 10 n, isAddressChar c = true := by
    intro n c hc
    have := Nat.isDigit_of_mem_toDigits (by omega) (by omega) hc
    simp [isAddressChar, isGroupChar, isHexDigit, this]
  intro c hc
  rw [showIpv4_eq] at hc
  simp only [mem_append, mem_cons] at hc
  rcases hc with hc | rfl | hc | rfl | hc | rfl | hc
  · exact hDigit _ c hc
  · rfl
  · exact hDigit _ c hc
  · rfl
  · exact hDigit _ c hc
  · rfl
  · exact hDigit _ c hc

theorem isAddressChar_of_mem {addr : IpAddr} : ∀ c ∈ showIp addr, isAddressChar c = true := by
  cases addr with
  | v4 addr => exact isAddressChar_showIpv4 addr
  | v6 addr =>
    intro c hc
    rw [showIp] at hc
    by_cases hMapped : Mapped addr
    · rw [showIpv6_mapped hMapped, mem_append] at hc
      rcases hc with hMark | hText
      · have hAll : ∀ c ∈ "::ffff:".toList, isAddressChar c = true :=
          all_eq_true.mp (by decide)
        exact hAll c hMark
      · exact isAddressChar_showIpv4 _ c hText
    · rw [isAddressChar, isGroupChar_showIpv6 hMapped c hc]
      rfl

theorem showIp_ne_nil (addr : IpAddr) : showIp addr ≠ [] := by
  cases addr with
  | v4 addr => simp [showIp, showIpv4_eq]
  | v6 addr =>
    have hFull : showGroups (groupsOf addr) ≠ [] := by
      cases hGroups : groupsOf addr with
      | nil => exact absurd (length_groupsOf addr) (by rw [hGroups]; decide)
      | cons g groups => simp [showGroups_cons]
    simp only [showIp, showIpv6]
    split
    · simp
    · split
      · simp
      · exact hFull

theorem showIp_stops {p : Char → Bool} (hp : ∀ c, isAddressChar c = true → p c = false)
    (addr : IpAddr) (s : List Char) : Stops p (showIp addr ++ s) :=
  stops_append (showIp_ne_nil addr) (fun c hc => hp c (isAddressChar_of_mem c hc)) s

/-- What follows the value of a rule: nothing, or a comment after blanks. -/
def LineEnd (s : List Char) : Prop :=
  s = [] ∨ ∃ blanks text, s = blanks ++ '#' :: text ∧ blanks ≠ [] ∧ Blank blanks

theorem LineEnd.addressEnd (h : LineEnd s) : AddressEnd s := by
  intro c hc
  rcases h with rfl | ⟨blanks, text, rfl, hNe, hBlank⟩
  · cases hc
  · cases blanks with
    | nil => exact absurd rfl hNe
    | cons b blanks =>
      cases hc
      exact .inr (hBlank c mem_cons_self)

theorem LineEnd.comma_run (h : LineEnd s) : comma.run s = none := by
  have hDrop : (s.dropWhile isSpace).head? ≠ some ',' := by
    rcases h with rfl | ⟨blanks, text, rfl, -, hBlank⟩
    · exact nofun
    · rw [dropWhile_append_of_pos hBlank]
      exact nofun
  simp [comma, delimited, preceded, terminated, space0_run, run_char_of_ne hDrop]

theorem comma_run (hs : Stops isSpace s) : comma.run (',' :: s) = some (',', s) := by
  have hBefore : space0.run (',' :: s) = some ([], ',' :: s) :=
    run_takeWhile_of_stops (stops_cons rfl)
  have hAfter : space0.run s = some ([], s) := run_takeWhile_of_stops hs
  simp only [comma, delimited, preceded, terminated, run_bind, hBefore, Option.bind_some, run_char,
    hAfter, run_pure]

theorem not_isSpace_of_isAddressChar (c : Char) (hc : isAddressChar c = true) :
    isSpace c = false := by
  by_contra hSpace
  simp only [isSpace, Bool.not_eq_false, Bool.or_eq_true, beq_iff_eq] at hSpace
  rcases hSpace with rfl | rfl
  · cases hc
  · cases hc

/-- A list of addresses is read back at the end of a rule. -/
theorem ips_run {addrs : List IpAddr} (hNe : addrs ≠ []) (hs : LineEnd s) :
    (separatedList1 comma ip).run ([','].intercalate (addrs.map showIp) ++ s) =
      some (addrs, s) := by
  cases addrs with
  | nil => exact absurd rfl hNe
  | cons addr addrs =>
    have hComma : ∀ text, AddressEnd (',' :: text) := by
      intro text c hc
      cases hc
      exact .inl rfl
    have hTurns : ∀ addr ∈ addrs, (',' :: showIp addr) ≠ [] ∧
        (∀ r, AddressEnd (',' :: showIp addr ++ r)) ∧
        ∀ r, AddressEnd r → (preceded comma ip).run (',' :: showIp addr ++ r) = some (addr, r) := by
      intro addr _
      refine ⟨cons_ne_nil _ _, fun r => hComma _, fun r hr => ?_⟩
      have hStart := showIp_stops not_isSpace_of_isAddressChar addr r
      simp only [preceded, run_bind, cons_append, comma_run hStart, Option.bind_some,
        ip_run addr hr]
    have hEnd : (preceded comma ip).run s = none := by
      rw [preceded, run_bind, hs.comma_run]
      rfl
    have hMany := run_many0 hs.addressEnd hEnd addrs hTurns
    have hFirst : AddressEnd ((addrs.flatMap fun addr => ',' :: showIp addr) ++ s) := by
      cases addrs with
      | nil => exact hs.addressEnd
      | cons => exact hComma _
    rw [map_cons, intercalate_cons, flatMap_map, append_assoc]
    exact run_separatedList1 (ip_run addr hFirst) hMany

/-! ## Values -/

/-- The values that the parser can produce: a list of addresses is not empty. -/
def Valid : AddressRuleValue → Prop
  | .Addr v4 v6 => (v4 ≠ none ∨ v6 ≠ none) ∧ v4 ≠ some [] ∧ v6 ≠ some []
  | _ => True

/-- The addresses of a value, in the order they are printed. -/
def addressesOf (v4 : Option (List (BitVec 32))) (v6 : Option (List (BitVec 128))) : List IpAddr :=
  (v4.getD []).map .v4 ++ (v6.getD []).map .v6

theorem showAddress_addr (v4 : Option (List (BitVec 32))) (v6 : Option (List (BitVec 128))) :
    showAddress (.Addr v4 v6) = [','].intercalate ((addressesOf v4 v6).map showIp) := by
  simp only [addressesOf, map_append, map_map]
  rfl

theorem valid_addressesValue {ips : List IpAddr} (hNe : ips ≠ []) : Valid (addressesValue ips) := by
  have hSome : ∀ {α : Type} (l : List α), (if l.isEmpty then none else some l) ≠ some [] := by
    intro α l
    cases l <;> simp
  refine ⟨?_, hSome _, hSome _⟩
  cases ips with
  | nil => exact absurd rfl hNe
  | cons ip ips =>
    cases ip with
    | v4 addr => exact .inl (by simp [asIpv4])
    | v6 addr => exact .inr (by simp [asIpv6])

/-- What the parser accepts as a value is one the printer can write. -/
theorem addressRuleValue_valid {r : List Char} {v : AddressRuleValue}
    (h : addressRuleValue.run s = some (v, r)) : Valid v := by
  have hConst : ∀ {α : Type} {q : Parser α} {c : AddressRuleValue},
      (value c q).run s = some (v, r) → Valid c → Valid v := by
    intro α q c hRun hc
    obtain ⟨x, -, hEq⟩ := Option.map_eq_some_iff.mp ((run_map _ q s).symm.trans hRun)
    cases hEq
    exact hc
  obtain ⟨p, hp, hRun⟩ := alt_run_eq_some h
  simp only [mem_cons, not_mem_nil, or_false] at hp
  rcases hp with rfl | rfl | rfl | rfl | rfl | rfl | rfl
  · exact hConst hRun trivial
  · exact hConst hRun trivial
  · exact hConst hRun trivial
  · exact hConst hRun trivial
  · exact hConst hRun trivial
  · exact hConst hRun trivial
  · obtain ⟨⟨ips, r'⟩, hList, hEq⟩ := Option.map_eq_some_iff.mp ((run_map _ _ s).symm.trans hRun)
    cases hEq
    refine valid_addressesValue ?_
    simp only [separatedList1, run_bind, Option.bind_eq_some_iff] at hList
    obtain ⟨x, -, y, -, hPair⟩ := hList
    cases hPair
    exact cons_ne_nil _ _

/-- The addresses of a valid value make that value again. -/
theorem addressesValue_addressesOf {v4 : Option (List (BitVec 32))}
    {v6 : Option (List (BitVec 128))} (hv : Valid (.Addr v4 v6)) :
    addressesValue (addressesOf v4 v6) = .Addr v4 v6 := by
  have hSome : ∀ {α : Type} {l : Option (List α)}, l ≠ some [] →
      (if (l.getD []).isEmpty then none else some (l.getD [])) = l := by
    intro α l hl
    cases l with
    | none => rfl
    | some l =>
      cases l with
      | nil => exact absurd rfl hl
      | cons a l => rfl
  have hFirst : (addressesOf v4 v6).filterMap asIpv4 = v4.getD [] := by
    simp [addressesOf, Function.comp_def, asIpv4]
  have hSecond : (addressesOf v4 v6).filterMap asIpv6 = v6.getD [] := by
    simp [addressesOf, Function.comp_def, asIpv6]
  simp only [addressesValue, hFirst, hSecond, hSome hv.2.1, hSome hv.2.2]

theorem addressesOf_ne_nil {v4 : Option (List (BitVec 32))} {v6 : Option (List (BitVec 128))}
    (hv : Valid (.Addr v4 v6)) : addressesOf v4 v6 ≠ [] := by
  obtain ⟨hOne, hFirst, hSecond⟩ := hv
  intro hNil
  simp only [addressesOf, append_eq_nil_iff, map_eq_nil_iff] at hNil
  rcases v4 with _ | l
  · rcases v6 with _ | l'
    · simp at hOne
    · exact hSecond (congrArg some hNil.2)
  · exact hFirst (congrArg some hNil.1)

theorem value_run {α : Type} {c : AddressRuleValue} {p : Parser α} {r : List Char} {a : α}
    (h : p.run s = some (a, r)) : (value c p).run s = some (c, r) := by
  rw [value, run_map, h]
  rfl

theorem value_run_none {α : Type} {c : AddressRuleValue} {p : Parser α} (h : p.run s = none) :
    (value c p).run s = none := by
  rw [value, run_map, h]
  rfl

/-- A mark is not read where something else starts. -/
theorem tag_run_none {t : String} {cs : List Char} (ht : t.toList = c :: cs)
    (hs : s.head? ≠ some c) :
    (tag t).run s = none := by
  refine run_tag_of_not ?_
  rintro ⟨r, rfl⟩
  rw [ht] at hs
  exact hs rfl

/-- A mark with a family is not read where the one without it ends. -/
theorem mark_run_none {t : String} {d : Char} (ht : t.toList = [c, d]) (hs : s.head? ≠ some d) :
    (tag t).run (c :: s) = none := by
  refine run_tag_of_not ?_
  rintro ⟨r, hEq⟩
  rw [ht] at hEq
  injection hEq with _ hTail
  rw [← hTail] at hs
  exact hs rfl

/-- Where no hash is, no answer is forced. -/
theorem addressRuleValue_of_ne_hash (h : s.head? ≠ some '#') :
    addressRuleValue.run s = (alt [value .IGNv4 (tag "-4"), value .IGNv6 (tag "-6"),
      value .IGN (tag "-"), addressesValue <$> separatedList1 comma ip]).run s := by
  refine (alt_run_of_none (value_run_none (tag_run_none rfl h))).trans ?_
  refine (alt_run_of_none (value_run_none (tag_run_none rfl h))).trans ?_
  exact alt_run_of_none (value_run_none (run_char_of_ne h))

/-- A value is read back at the end of a rule. -/
theorem addressRuleValue_run {v : AddressRuleValue} (hv : Valid v) (hs : LineEnd s) :
    addressRuleValue.run (showAddress v ++ s) = some (v, s) := by
  have hFour : s.head? ≠ some '4' := hs.addressEnd.head_ne (by decide) rfl
  have hSix : s.head? ≠ some '6' := hs.addressEnd.head_ne (by decide) rfl
  have hOther : ('6' :: s).head? ≠ some '4' := by simp
  cases v with
  | SOA =>
    refine (alt_run_of_none (value_run_none (mark_run_none rfl hFour))).trans ?_
    refine (alt_run_of_none (value_run_none (mark_run_none rfl hSix))).trans ?_
    exact alt_run_of_some (value_run (run_char '#' s))
  | SOAv4 => exact alt_run_of_some (value_run (run_tag "#4" s))
  | SOAv6 =>
    refine (alt_run_of_none (value_run_none (mark_run_none rfl hOther))).trans ?_
    exact alt_run_of_some (value_run (run_tag "#6" s))
  | IGN =>
    refine (addressRuleValue_of_ne_hash (by simp [showAddress])).trans ?_
    refine (alt_run_of_none (value_run_none (mark_run_none rfl hFour))).trans ?_
    refine (alt_run_of_none (value_run_none (mark_run_none rfl hSix))).trans ?_
    exact alt_run_of_some (value_run (run_tag "-" s))
  | IGNv4 =>
    refine (addressRuleValue_of_ne_hash (by simp [showAddress])).trans ?_
    exact alt_run_of_some (value_run (run_tag "-4" s))
  | IGNv6 =>
    refine (addressRuleValue_of_ne_hash (by simp [showAddress])).trans ?_
    refine (alt_run_of_none (value_run_none (mark_run_none rfl hOther))).trans ?_
    exact alt_run_of_some (value_run (run_tag "-6" s))
  | Addr v4 v6 =>
    have hStart : ∀ {c : Char}, isAddressChar c = false →
        (showAddress (.Addr v4 v6) ++ s).head? ≠ some c := by
      intro c hc hHead
      rw [showAddress_addr] at hHead
      cases hAddrs : addressesOf v4 v6 with
      | nil => exact addressesOf_ne_nil hv hAddrs
      | cons addr addrs =>
        rw [hAddrs, map_cons, intercalate_cons, append_assoc] at hHead
        have hStops := showIp_stops (p := fun d => !isAddressChar d) (by simp) addr _ c hHead
        simp [hc] at hStops
    have hDash := hStart (c := '-') (by decide)
    refine (addressRuleValue_of_ne_hash (hStart (by decide))).trans ?_
    refine (alt_run_of_none (value_run_none (tag_run_none rfl hDash))).trans ?_
    refine (alt_run_of_none (value_run_none (tag_run_none rfl hDash))).trans ?_
    refine (alt_run_of_none (value_run_none (tag_run_none rfl hDash))).trans ?_
    refine alt_run_of_some ?_
    rw [run_map, showAddress_addr, ips_run (addressesOf_ne_nil hv) hs, Option.map_some,
      addressesValue_addressesOf hv]

end SmartDns.Ports.AddressText
