import SmartDns.Ports.RuleChain

/-!
# The walk behind a rule chain

The chain of a name is the result of a sequence of lookups: of the name among
all items, then of the parent of each pattern found, among the items inserted
before it. `walk` performs these lookups on the sorted list of items and
`Looked` names them, so that a statement about chains is one about lookups.

A lookup picks a pattern of the smallest rank and of that pattern the item
inserted last. Patterns of one rank are one pattern up to letter case and root
dot, with one exception: several wildcard patterns of one parent may match the
same label.
-/

namespace SmartDns.Ports.RuleWalk

open DomainName PatternMap RuleTree RuleChain List

/-- A pattern with its merged rules. -/
abbrev Item := WildcardName × DomainRule

/-! ## The last occurrence -/

theorem splitLast_isSome {α : Type} {f : α → Bool} {xs : List α} {x : α} (hx : x ∈ xs)
    (hf : f x = true) : ∃ before y, splitLast f xs = some (before, y) := by
  have hSome := find?_isSome.mpr ⟨x, mem_reverse.mpr hx, hf⟩
  rw [← splitLast_snd, Option.isSome_map] at hSome
  obtain ⟨⟨before, y⟩, hSplit⟩ := Option.isSome_iff_exists.mp hSome
  exact ⟨before, y, hSplit⟩

/-! ## Ranks -/

section Ranks

variable {κ : Type} {lib : NameLib κ}

variable {m : Name} {p : WildcardName} {r : Nat}

theorem rank_lt (h : rank lib m p = some r) : r < 3 * m.labels.length + 3 := by
  cases ranked_of_rank lib h <;> omega

/-- Two patterns up to the root dot and letter case. -/
def SameKey (p p' : WildcardName) : Prop := (p.setFqdn true == p'.setFqdn true) = true

theorem SameKey.rfl : SameKey p p := BEq.rfl

variable {p' : WildcardName}

variable {ps : List WildcardName}

/-- The most specific pattern has the smallest rank. -/
theorem mostSpecific_spec {w : WildcardName} (h : mostSpecific lib ps m = some w) :
    w ∈ ps ∧ ∃ r, rank lib m w = some r ∧ ∀ p ∈ ps, ∀ r', rank lib m p = some r' → r ≤ r' := by
  obtain ⟨ranks, r, ranks', hRange, hFirst, hBefore⟩ := findSome?_eq_some_iff.mp h
  have hRank : rank lib m w = some r := by simpa using find?_some hFirst
  refine ⟨mem_of_find?_eq_some hFirst, r, hRank, ?_⟩
  intro p hp r' hr'
  by_contra hLess
  -- a smaller rank was tried before and found nothing
  have hIn : r' ∈ range' 0 (3 * m.labels.length + 3) :=
    mem_range'_1.mpr ⟨Nat.zero_le _, by have := rank_lt hr'; omega⟩
  have hSorted := pairwise_lt_range' (s := 0) (n := 3 * m.labels.length + 3)
  rw [hRange] at hIn hSorted
  have hEarlier : r' ∈ ranks := by
    rcases mem_append.mp hIn with hOld | hRest
    · exact hOld
    · rcases mem_cons.mp hRest with hEq | hLater
      · omega
      · have := (pairwise_cons.mp (pairwise_append.mp hSorted).2.1).1 r' hLater
        omega
  have hNone := find?_eq_none.mp (hBefore r' hEarlier) p hp
  simp [hr'] at hNone

/-- It is the first one of its rank. -/
theorem mostSpecific_split {w : WildcardName} (h : mostSpecific lib ps m = some w) :
    ∃ r front rest, ps = front ++ w :: rest ∧ rank lib m w = some r ∧
      (∀ p ∈ front, rank lib m p ≠ some r) ∧ ∀ p ∈ ps, ∀ r', rank lib m p = some r' → r ≤ r' := by
  obtain ⟨-, r, hRank, hLeast⟩ := mostSpecific_spec h
  obtain ⟨ranks, r', ranks', -, hFirst, -⟩ := findSome?_eq_some_iff.mp h
  have hSame : r' = r := by
    have hRank' : rank lib m w = some r' := by simpa using find?_some hFirst
    rw [hRank'] at hRank
    exact Option.some.inj hRank
  subst hSame
  obtain ⟨-, front, rest, hSplit, hFront⟩ := find?_eq_some_iff_append.mp hFirst
  refine ⟨r', front, rest, hSplit, hRank, ?_, hLeast⟩
  intro p hp hEq
  have hNot := hFront p hp
  simp [hEq] at hNot

theorem mostSpecific_isSome (hp : p ∈ ps) (hr : rank lib m p = some r) :
    ∃ w, mostSpecific lib ps m = some w := by
  rw [← Option.isSome_iff_exists]
  unfold mostSpecific
  rw [findSome?_isSome_iff]
  refine ⟨r, mem_range'_1.mpr ⟨Nat.zero_le _, by have := rank_lt hr; omega⟩, ?_⟩
  unfold firstOfRank
  rw [find?_isSome]
  exact ⟨p, hp, by simp [hr]⟩

end Ranks

/-! ## Lookups -/

section Lookups

variable {κ : Type} {lib : NameLib κ}

variable {items before : List Item} {x : Name} {item : Item}

/-- A lookup picks the last item of a pattern of the smallest rank. -/
theorem pickItem_spec (h : pickItem lib items x = some (before, item)) :
    ∃ w r, mostSpecific lib (items.map Prod.fst) (DomainMap.startName x) = some w ∧
      rank lib (DomainMap.startName x) w = some r ∧
      (∀ j ∈ items, ∀ r', rank lib (DomainMap.startName x) j.1 = some r' → r ≤ r') ∧
      SameKey item.1 w ∧
      ∃ after, items = before ++ item :: after ∧ ∀ j ∈ after, ¬SameKey j.1 w := by
  obtain ⟨w, hw, hSplit⟩ := Option.bind_eq_some_iff.mp h
  obtain ⟨-, r, hRank, hLeast⟩ := mostSpecific_spec hw
  obtain ⟨hKey, after, hEq, hAfter⟩ := splitLast_eq_some hSplit
  refine ⟨w, r, hw, hRank, fun j hj => hLeast j.1 (mem_map_of_mem hj), hKey, after, hEq, ?_⟩
  intro j hj hSame
  have hFalse : (j.1.setFqdn true == w.setFqdn true) = false := hAfter j hj
  rw [SameKey, hFalse] at hSame
  cases hSame

/-- The rule picked and those before it are among the rules. -/
theorem pickItem_mem (h : pickItem lib items x = some (before, item)) :
    item ∈ items ∧ ∀ j ∈ before, j ∈ items := by
  obtain ⟨_, _, _, _, _, _, after, hEq, _⟩ := pickItem_spec h
  rw [hEq]
  exact ⟨by simp, fun j hj => mem_append_left _ hj⟩

/-- A lookup finds something if some pattern has a rank. -/
theorem pickItem_isSome {j : Item} (hj : j ∈ items) {r : Nat}
    (hr : rank lib (DomainMap.startName x) j.1 = some r) :
    ∃ before item, pickItem lib items x = some (before, item) := by
  obtain ⟨w, hw⟩ := mostSpecific_isSome (mem_map_of_mem hj) hr
  obtain ⟨k, hk, hEq⟩ := mem_map.mp (mostSpecific_spec hw).1
  have hKey : SameKey k.1 w := by
    rw [← hEq]
    exact SameKey.rfl
  obtain ⟨before, item, hSplit⟩ :=
    splitLast_isSome (f := fun e : Item => e.1.setFqdn true == w.setFqdn true) hk hKey
  exact ⟨before, item, by unfold pickItem; rw [hw]; exact hSplit⟩

/-- The lookups that make up the chain of a name. -/
inductive Looked (lib : NameLib κ) (items : List Item) (q : Name) : List Item → Name → Prop
  | head : Looked lib items q items q
  | zone {visible x before item} : Looked lib items q visible x →
      pickItem lib visible x = some (before, item) →
      Looked lib items q before item.1.name.baseName

/-- The rules still visible are among all of them. -/
theorem Looked.subset {q : Name} {visible : List Item} (h : Looked lib items q visible x) :
    ∀ j ∈ visible, j ∈ items := by
  induction h with
  | head => exact fun j hj => hj
  | zone _ hPick ih => exact fun j hj => ih j ((pickItem_mem hPick).2 j hj)

/-- The items found by at most `n` lookups. -/
def walk (lib : NameLib κ) : Nat → List Item → Name → List Item
  | 0, _, _ => []
  | n + 1, items, x =>
    match pickItem lib items x with
    | none => []
    | some (before, item) => item :: walk lib n before item.1.name.baseName

theorem walk_of_none (h : pickItem lib items x = none) (n : Nat) : walk lib n items x = [] := by
  cases n with
  | zero => rfl
  | succ n => rw [walk, h]

theorem walk_of_some (h : pickItem lib items x = some (before, item)) (n : Nat) :
    walk lib (n + 1) items x = item :: walk lib n before item.1.name.baseName := by
  rw [walk, h]

end Lookups

/-! ## Chains -/

/-- A node without its link. -/
def itemOf (node : DomainRuleTreeNode) : Item := (node.name, node.rule)

section Chains

variable {κ : Type} [DecidableEq κ] (lib : NameLib κ)

/-- The patterns and rules on the chain of a name, nearest first. -/
def chainOf (rules : DomainRuleMap κ) (q : Name) : List Item :=
  ((rules.find lib q).map fun node => node.chain.map itemOf).getD []

/-- The chain of the node of an item: the item, then the walk from its parent name. -/
theorem nodeOf_chain (n : Nat) :
    ∀ {before : List Item} {item : Item}, before.length ≤ n →
      (nodeOf lib before item).chain.map itemOf =
        item :: walk lib n before item.1.name.baseName := by
  induction n with
  | zero =>
    intro before item hLen
    have hNil : before = [] := eq_nil_of_length_eq_zero (by omega)
    subst hNil
    rfl
  | succ n ih =>
    intro before item hLen
    rw [nodeOf_eq]
    cases hPick : pickItem lib before item.1.name.baseName with
    | none =>
      rw [walk_of_none hPick]
      rfl
    | some picked =>
      have hLess := pickItem_length hPick
      rw [walk_of_some hPick, ← ih (by omega)]
      rfl

/-- Keys carry the root dot, so a lookup ignores whether the name has it. -/
theorem find_setFqdn {T : Type} (entries : List (WildcardName × T)) (q : Name) :
    (DomainMap.ofList lib entries).find lib q =
      (DomainMap.ofList lib entries).find lib (q.setFqdn true) := by
  have hNoKey : ∀ {k : WildcardName}, k.name.isFqdn = false →
      (DomainMap.ofList lib entries).get lib k = none := by
    intro k hk
    rw [get_ofList]
    unfold latest
    rw [Option.map_eq_none_iff, find?_eq_none]
    intro e _ hKey
    rw [WildcardName.beq_iff] at hKey
    have hFlag : (e.1.setFqdn true).toLowercase.name.isFqdn = k.toLowercase.name.isFqdn := by
      rw [hKey]
    have hTrue : (e.1.setFqdn true).toLowercase.name.isFqdn = true := by cases e.1 <;> rfl
    have hFalse : k.toLowercase.name.isFqdn = false := by cases k <;> exact hk
    rw [hTrue, hFalse] at hFlag
    cases hFlag
  unfold DomainMap.find
  split
  · rfl
  · by_cases hWild : q.isWildcard = true
    · have hStart : DomainMap.startName q = q.baseName := if_pos hWild
      have hStart' : DomainMap.startName (q.setFqdn true) = q.baseName := if_pos hWild
      rw [hStart, hStart']
    · have hStart : DomainMap.startName q = q := if_neg hWild
      have hStart' : DomainMap.startName (q.setFqdn true) = q.setFqdn true := if_neg hWild
      rw [hStart, hStart']
      dsimp only
      have hLoop : (DomainMap.ofList lib entries).findLoop lib 0 q q.labels =
          (DomainMap.ofList lib entries).findLoop lib 0 (q.setFqdn true) q.labels := by
        unfold DomainMap.findLoop
        rfl
      split
      · exact hLoop
      · rename_i hFlag
        have hRelative : q.isFqdn = false := eq_false_of_ne_true hFlag
        rw [hNoKey (show (WildcardName.Full q).name.isFqdn = false from hRelative),
          hNoKey (show (WildcardName.Default q).name.isFqdn = false from hRelative)]
        exact hLoop

/-- The chain of a name is the walk on the sorted items. -/
theorem chainOf_create (items : List Item) (q : Name) :
    chainOf lib (DomainRuleMap.create lib items) q =
      walk lib (sortItems items).length (sortItems items) (q.setFqdn true) := by
  unfold chainOf
  rw [create_eq, find_setFqdn, find_linked lib _ _ (Name.setFqdn_isFqdn q true)]
  cases hPick : pickItem lib (sortItems items) (q.setFqdn true) with
  | none =>
    rw [walk_of_none hPick]
    rfl
  | some picked =>
    have hLess := pickItem_length hPick
    obtain ⟨n, hn⟩ : ∃ n, (sortItems items).length = n + 1 :=
      ⟨(sortItems items).length - 1, by omega⟩
    rw [hn, walk_of_some hPick, ← nodeOf_chain lib n (by omega)]
    rfl

end Chains

end SmartDns.Ports.RuleWalk
