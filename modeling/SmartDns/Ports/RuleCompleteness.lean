import SmartDns.Ports.RuleWalk

/-!
# Completeness of rule chains

A pattern that matches a name has its say about the name only if it is on the
chain of the name. The zone of a pattern is looked up from the pattern's parent
name, and what such a lookup cannot return is lost for good: another pattern of
the same name, a suffix pattern of the parent, and whatever was inserted later.
A link may also go to an exact or a wildcard pattern of the parent, which does
not match the name, and pass over the patterns beside it.

`NothingSkipped` says of each lookup that the matching patterns it could have
returned, but did not, can still be returned by the next one. The chain of a
name has all matching patterns exactly in this case. What is on the chain is
always ordered by specificity.
-/

namespace SmartDns.Ports.RuleCompleteness

open DomainName PatternMap RuleTree RuleChain RuleWalk List

section Completeness

variable {κ : Type} {lib : NameLib κ} {items : List Item} {q : Name}

/-- What a lookup along the chain of `q` leaves behind, the next one can still find. -/
structure NothingSkipped (lib : NameLib κ) (items : List Item) (q : Name) : Prop where
  head : ∀ j ∈ items, j.1.isMatch lib q = true →
    (rank lib (DomainMap.startName q) j.1).isSome = true
  zone : ∀ visible x before item, Looked lib items q visible x →
    pickItem lib visible x = some (before, item) →
    ∀ j ∈ visible, j.1.isMatch lib q = true →
      (rank lib (DomainMap.startName x) j.1).isSome = true → j ≠ item →
      j ∈ before ∧ (rank lib (DomainMap.startName item.1.name.baseName) j.1).isSome = true

/-! ## What stays in sight is found -/

/-- The induction is on the number of items a lookup sees. -/
theorem NothingSkipped.mem_walk (h : NothingSkipped lib items q) (n : Nat) :
    ∀ {visible : List Item} {x : Name} {j : Item}, Looked lib items q visible x →
      visible.length ≤ n → j ∈ visible → j.1.isMatch lib q = true →
      (rank lib (DomainMap.startName x) j.1).isSome = true → j ∈ walk lib n visible x := by
  induction n with
  | zero =>
    intro visible x j _ hLen hj
    have hPos := length_pos_iff.mpr (ne_nil_of_mem hj)
    omega
  | succ n ih =>
    intro visible x j hLooked hLen hj hMatch hRank
    obtain ⟨r, hr⟩ := Option.isSome_iff_exists.mp hRank
    obtain ⟨before, item, hPick⟩ := pickItem_isSome hj hr
    rw [walk_of_some hPick]
    by_cases hItem : j = item
    · rw [hItem]
      exact .head _
    · obtain ⟨hBefore, hNext⟩ :=
        h.zone visible x before item hLooked hPick j hj hMatch hRank hItem
      have hLess := pickItem_length hPick
      exact .tail _ (ih (hLooked.zone hPick) (by omega) hBefore hMatch hNext)

/-! ## What is found was in sight -/

theorem walk_subset (n : Nat) :
    ∀ {visible : List Item} {x : Name} {j : Item}, j ∈ walk lib n visible x →
      j ∈ visible ∧ ∃ y, (DomainMap.startName y).lowerLabels <:+
        (DomainMap.startName x).lowerLabels ∧
        Applies lib (DomainMap.startName y) j.1 := by
  induction n with
  | zero =>
    intro visible x j hj
    cases hj
  | succ n ih =>
    intro visible x j hj
    cases hPick : pickItem lib visible x with
    | none =>
      rw [walk_of_none hPick] at hj
      cases hj
    | some picked =>
      obtain ⟨before, item⟩ := picked
      rw [walk_of_some hPick] at hj
      rcases mem_cons.mp hj with hHead | hTail
      · rw [hHead]
        exact ⟨(pickItem_mem hPick).1, x, suffix_refl _, pickItem_applies hPick⟩
      · obtain ⟨hBefore, y, hSuffix, hApplies⟩ := ih hTail
        refine ⟨(pickItem_mem hPick).2 j hBefore, y, hSuffix.trans ?_, hApplies⟩
        have hStart := startName_suffix item.1.name.baseName
        rw [Name.baseName_lowerLabels] at hStart
        exact (hStart.trans (tail_suffix _)).trans (pickItem_applies hPick).suffix

/-- What the walk finds, the chain consults. -/
theorem consulted_of_mem_walk (n : Nat) :
    ∀ {visible : List Item} {x : Name},
      (∀ before item, pickItem lib visible x = some (before, item) →
        Consulted lib items q before item) →
      ∀ j ∈ walk lib n visible x, ∃ before, Consulted lib items q before j := by
  induction n with
  | zero =>
    intro visible x _ j hj
    cases hj
  | succ n ih =>
    intro visible x hNext j hj
    cases hPick : pickItem lib visible x with
    | none =>
      rw [walk_of_none hPick] at hj
      cases hj
    | some picked =>
      obtain ⟨before, item⟩ := picked
      have hItem := hNext before item hPick
      rw [walk_of_some hPick] at hj
      rcases mem_cons.mp hj with hHead | hTail
      · rw [hHead]
        exact ⟨before, hItem⟩
      · exact ih (fun _ _ hPick' => hItem.zone hPick') j hTail

variable {visible : List Item} {x : Name}

/-- The names looked up are the name and names above it. -/
theorem looked_suffix (h : Looked lib items q visible x) : x.lowerLabels <:+ q.lowerLabels := by
  induction h with
  | head => exact suffix_refl _
  | @zone visible x before item _ hPick ih =>
    rw [Name.baseName_lowerLabels]
    have hItem := (pickItem_applies hPick).suffix.trans (startName_suffix x)
    exact (tail_suffix _).trans (hItem.trans ih)

variable {p : WildcardName}

/-- A matching pattern that a later lookup returns could have been returned by this one. -/
theorem rank_isSome_of_applies {y z : Name} (hMatch : p.isMatch lib q = true)
    (hApplies : Applies lib y p) (hyz : y.lowerLabels <:+ z.lowerLabels)
    (hzq : z.lowerLabels <:+ q.lowerLabels)
    (hShorter : q.labels = [] ∨ z.labels.length < q.labels.length) :
    (rank lib z p).isSome = true := by
  have hLength := hyz.length_le
  have hLength' := hzq.length_le
  simp only [lowerLabels_length] at hLength hLength'
  cases p with
  | Full n =>
    have hq : n.lowerLabels = q.lowerLabels := lib.eqLabels_lower _ _ hMatch
    have hy : n.lowerLabels = y.lowerLabels := hApplies
    have hLen := congrArg length (hy.symm.trans hq)
    simp only [lowerLabels_length] at hLen
    have hSame : z.lowerLabels = q.lowerLabels :=
      hzq.eq_of_length (by simp; omega)
    simp [rank, hq, hSame]
  | Sub w n =>
    obtain ⟨hNonempty, hy, -⟩ := hApplies
    simp only [WildcardName.isMatch, Bool.and_eq_true] at hMatch
    have hq : n.lowerLabels = q.baseName.lowerLabels := lib.eqLabels_lower _ _ hMatch.1
    rw [Name.baseName_lowerLabels] at hq
    have hLen := congrArg length (hy.symm.trans hq)
    have hPos := length_pos_iff.mpr hNonempty
    simp only [length_tail, lowerLabels_length] at hLen
    rcases hShorter with hRoot | hLess
    · rw [hRoot] at hLength'
      simp only [length_nil] at hLength'
      omega
    · omega
  | Suffix n =>
    have hZone : n.zoneOf z = true := Name.zoneOf_iff.mpr (hApplies.1.trans hyz)
    have hBelow : n.labels.length < z.labels.length := Nat.lt_of_lt_of_le hApplies.2 hLength
    simp [rank, hZone, hBelow]
  | Default n =>
    have hZone : n.zoneOf z = true := Name.zoneOf_iff.mpr (List.IsSuffix.trans hApplies hyz)
    simp [rank, hZone]

/-- The walk from a later lookup is the end of the whole walk; what came first is out of sight. -/
theorem walk_split (hNodup : items.Nodup) (h : Looked lib items q visible x) :
    visible.Nodup ∧ ∃ front n, walk lib items.length items q = front ++ walk lib n visible x ∧
      visible.length ≤ n ∧ ∀ i ∈ front, i ∉ visible := by
  induction h with
  | head => exact ⟨hNodup, [], items.length, rfl, Nat.le_refl _, by simp⟩
  | @zone visible x before item _ hPick ih =>
    obtain ⟨hVisible, front, n, hWalk, hLen, hFront⟩ := ih
    obtain ⟨_, _, _, _, _, _, after, hEq, _⟩ := pickItem_spec hPick
    have hLess := pickItem_length hPick
    obtain ⟨k, hk⟩ : ∃ k, n = k + 1 := ⟨n - 1, by omega⟩
    rw [hEq, nodup_append] at hVisible
    refine ⟨hVisible.1, front ++ [item], k, ?_, by omega, ?_⟩
    · rw [hWalk, hk, walk_of_some hPick]
      simp
    · intro i hi hBefore
      rcases mem_append.mp hi with hOld | hNew
      · exact hFront i hOld ((pickItem_mem hPick).2 i hBefore)
      · rw [mem_singleton.mp hNew] at hBefore
        exact hVisible.2.2 item hBefore item mem_cons_self rfl

/-- If every matching pattern is on the chain, no lookup loses one. -/
theorem nothingSkipped_of_complete (hNodup : items.Nodup)
    (hComplete : ∀ j ∈ items, j.1.isMatch lib q = true → j ∈ walk lib items.length items q) :
    NothingSkipped lib items q := by
  constructor
  · intro j hj hMatch
    obtain ⟨-, y, hSuffix, hApplies⟩ := walk_subset _ (hComplete j hj hMatch)
    by_cases hWild : q.isWildcard = true
    · refine rank_isSome_of_applies hMatch hApplies hSuffix (startName_suffix q) (.inr ?_)
      have hStart : DomainMap.startName q = q.baseName := if_pos hWild
      have hPos : q.labels ≠ [] := by
        intro hNil
        simp [Name.isWildcard, hNil] at hWild
      have hLen := length_pos_iff.mpr hPos
      rw [hStart]
      show q.labels.tail.length < _
      rw [length_tail]
      omega
    · have hStart : DomainMap.startName q = q := if_neg hWild
      rw [hStart] at hSuffix ⊢
      cases hKind : j.1 with
      | Sub w n =>
        rw [hKind] at hMatch hApplies
        have hLength := hSuffix.length_le
        have hPos := length_pos_iff.mpr hApplies.1
        simp only [lowerLabels_length] at hLength
        have hNonempty : q.labels ≠ [] := by
          intro hNil
          rw [hNil, length_nil] at hLength
          omega
        simp [rank, hNonempty, hMatch]
      | Full n =>
        rw [hKind] at hMatch
        have hq : n.lowerLabels = q.lowerLabels := lib.eqLabels_lower _ _ hMatch
        simp [rank, hq]
      | Suffix n =>
        rw [hKind] at hApplies
        have hZone : n.zoneOf q = true := Name.zoneOf_iff.mpr (hApplies.1.trans hSuffix)
        have hLength := hSuffix.length_le
        simp only [lowerLabels_length] at hLength
        have hBelow := Nat.lt_of_lt_of_le hApplies.2 hLength
        simp [rank, hZone, hBelow]
      | Default n =>
        rw [hKind] at hMatch
        have hZone : n.zoneOf q = true := hMatch
        simp [rank, hZone]
  · intro visible x before item hLooked hPick j hj hMatch _ hOther
    obtain ⟨-, front, n, hWalk, hLen, hFront⟩ := walk_split hNodup hLooked
    have hOn := hComplete j (hLooked.subset j hj) hMatch
    rw [hWalk, mem_append] at hOn
    have hLess := pickItem_length hPick
    obtain ⟨k, hk⟩ : ∃ k, n = k + 1 := ⟨n - 1, by omega⟩
    have hTail : j ∈ walk lib k before item.1.name.baseName := by
      rcases hOn with hEarlier | hHere
      · exact absurd hj (hFront j hEarlier)
      · rw [hk, walk_of_some hPick] at hHere
        exact (mem_cons.mp hHere).resolve_left hOther
    obtain ⟨hBefore, y, hSuffix, hApplies⟩ := walk_subset _ hTail
    refine ⟨hBefore, ?_⟩
    have hNext := looked_suffix (hLooked.zone hPick)
    have hItem := (((pickItem_applies hPick).suffix.trans (startName_suffix x)).trans
      (looked_suffix hLooked)).length_le
    have hStart := (startName_suffix item.1.name.baseName)
    have hStartLen := hStart.length_le
    refine rank_isSome_of_applies hMatch hApplies hSuffix (hStart.trans hNext) ?_
    by_cases hRoot : q.labels = []
    · exact .inl hRoot
    · have hPos := length_pos_iff.mpr hRoot
      rw [Name.baseName_lowerLabels, length_tail] at hStartLen
      simp only [lowerLabels_length] at hItem hStartLen
      omega

/-! ## Order -/

/-- The first pattern is at least as specific for the name as the second. -/
def MoreSpecific (lib : NameLib κ) (q : Name) (i j : Item) : Prop :=
  ∀ r r', rank lib (DomainMap.startName q) i.1 = some r →
    rank lib (DomainMap.startName q) j.1 = some r' → r ≤ r'

/-- The rank of a pattern tells how far above the name its own name is. -/
theorem rank_level {m : Name} {r : Nat} (h : rank lib m p = some r) :
    p.name.labels.length ≤ m.labels.length ∧ r / 3 = m.labels.length - p.name.labels.length := by
  cases ranked_of_rank lib h <;> simp [WildcardName.name] <;> omega

theorem full_of_rank_zero {m : Name} (h : rank lib m p = some 0) :
    ∃ n, p = .Full n ∧ n.lowerLabels = m.lowerLabels := by
  cases ranked_of_rank lib h with
  | full hLabels => exact ⟨_, rfl, hLabels⟩

/-- Where an exact pattern is in sight, a lookup returns one. -/
theorem pickItem_full {before : List Item} {item j : Item}
    (hPick : pickItem lib visible x = some (before, item)) (hj : j ∈ visible)
    (hRank : rank lib (DomainMap.startName x) j.1 = some 0) : ∃ n, item.1 = .Full n := by
  obtain ⟨w, r, _, hw, hLeast, hKey, _⟩ := pickItem_spec hPick
  rw [Nat.le_zero.mp (hLeast j hj 0 hRank)] at hw
  obtain ⟨n, hn, -⟩ := full_of_rank_zero hw
  rw [hn] at hKey
  obtain ⟨n', hn', -⟩ :=
    (setFqdn_beq_Full (show (n.setFqdn true).isFqdn = true from rfl)).mp hKey
  exact ⟨n', hn'⟩

/-- The patterns a lookup of the root can return. -/
theorem kind_of_applies_root {y : Name} (h : Applies lib y p) (hRoot : y.labels.length = 0) :
    (∃ n, p = .Full n) ∨ ∃ n, p = .Default n := by
  cases p with
  | Full n => exact .inl ⟨n, rfl⟩
  | Default n => exact .inr ⟨n, rfl⟩
  | Suffix n =>
    have hBelow := h.2
    omega
  | Sub w n => exact absurd (eq_nil_of_length_eq_zero hRoot) h.1

/-- An item found after another one has a shorter name or, at the root, is no more specific. -/
theorem moreSpecific_of_later {before : List Item} {item j : Item} {n : Nat}
    (hPick : pickItem lib visible x = some (before, item))
    (hj : j ∈ walk lib n before item.1.name.baseName)
    (hx : (DomainMap.startName x).lowerLabels <:+ (DomainMap.startName q).lowerLabels) :
    MoreSpecific lib q item j := by
  intro r r' hr hr'
  obtain ⟨hLen, hLevel⟩ := rank_level hr
  obtain ⟨hLen', hLevel'⟩ := rank_level hr'
  obtain ⟨hBefore, y, hSuffix, hApplies⟩ := walk_subset _ hj
  have hStart := (startName_suffix item.1.name.baseName).length_le
  have hy := hSuffix.length_le
  have hName := hApplies.suffix.length_le
  rw [Name.baseName_lowerLabels, length_tail] at hStart
  simp only [lowerLabels_length] at hStart hy hName
  by_cases hRoot : item.1.name.labels.length = 0
  · rcases kind_of_applies_root hApplies (by omega) with ⟨m, hFull⟩ | ⟨m, hDefault⟩
    · rw [hFull] at hr'
      have hZero : r' = 0 := rank_kind lib hr'
      have hTop : (DomainMap.startName q).lowerLabels = [] := by
        apply eq_nil_of_length_eq_zero
        simp only [lowerLabels_length]
        omega
      rw [hTop] at hx
      have hSame : (DomainMap.startName x).lowerLabels = (DomainMap.startName q).lowerLabels := by
        rw [hTop, suffix_nil.mp hx]
      rw [hZero] at hr'
      obtain ⟨m', hm', hLower⟩ := full_of_rank_zero hr'
      cases hm'
      have hLeast : rank lib (DomainMap.startName x) j.1 = some 0 := by
        simp [hFull, rank, hSame, hLower]
      obtain ⟨n', hItem⟩ := pickItem_full hPick ((pickItem_mem hPick).2 j hBefore) hLeast
      rw [hItem] at hr
      have hZero' : r = 0 := rank_kind lib hr
      omega
    · rw [hDefault] at hr'
      have hLast : r' % 3 = 2 := rank_kind lib hr'
      omega
  · omega

/-- The walk meets the rules from the most specific on. -/
theorem walk_ordered (n : Nat) :
    ∀ {visible : List Item} {x : Name},
      (DomainMap.startName x).lowerLabels <:+ (DomainMap.startName q).lowerLabels →
      (walk lib n visible x).Pairwise (MoreSpecific lib q) := by
  induction n with
  | zero =>
    intro visible x _
    exact .nil
  | succ n ih =>
    intro visible x hx
    cases hPick : pickItem lib visible x with
    | none =>
      rw [walk_of_none hPick]
      exact .nil
    | some picked =>
      obtain ⟨before, item⟩ := picked
      rw [walk_of_some hPick]
      have hStart := startName_suffix item.1.name.baseName
      rw [Name.baseName_lowerLabels] at hStart
      refine .cons (fun j hj => moreSpecific_of_later hPick hj hx) (ih ?_)
      exact (hStart.trans (tail_suffix _)).trans
        ((pickItem_applies hPick).suffix.trans hx)

/-! ## Inheritance -/

/-- The value comes from a most specific matching pattern among those that set the attribute;
there is none if no matching pattern sets it. -/
def InheritedFrom {α : Type} (lib : NameLib κ) (items : List Item) (q : Name)
    (f : DomainRule → Option α) : Option α → Prop
  | none => ∀ j ∈ items, j.1.isMatch lib q = true → f j.2 = none
  | some a => ∃ j ∈ items, j.1.isMatch lib q = true ∧ f j.2 = some a ∧
      ∀ k ∈ items, k.1.isMatch lib q = true → (f k.2).isSome = true → MoreSpecific lib q j k

/-- On an ordered list with exactly the matching items, the first value is the inherited one. -/
theorem inheritedFrom_findSome {α : Type} {chain : List Item} (f : DomainRule → Option α)
    (hOrdered : chain.Pairwise (MoreSpecific lib q))
    (hSound : ∀ j ∈ chain, j ∈ items ∧ j.1.isMatch lib q = true)
    (hComplete : ∀ j ∈ items, j.1.isMatch lib q = true → j ∈ chain) :
    InheritedFrom lib items q f (chain.findSome? fun j => f j.2) := by
  cases hValue : chain.findSome? fun j => f j.2 with
  | none =>
    intro j hj hMatch
    exact findSome?_eq_none_iff.mp hValue j (hComplete j hj hMatch)
  | some a =>
    obtain ⟨front, j, rest, hChain, hj, hFront⟩ := findSome?_eq_some_iff.mp hValue
    have hIn : j ∈ chain := by
      rw [hChain]
      simp
    refine ⟨j, (hSound j hIn).1, (hSound j hIn).2, hj, ?_⟩
    intro k hk hMatch hSet
    have hOn := hComplete k hk hMatch
    rw [hChain] at hOn hOrdered
    rcases mem_append.mp hOn with hEarlier | hRest
    · rw [hFront k hEarlier] at hSet
      cases hSet
    · rcases mem_cons.mp hRest with hSame | hLater
      · rw [hSame]
        intro r r' hr hr'
        rw [hr, Option.some.injEq] at hr'
        omega
      · exact (pairwise_cons.mp (pairwise_append.mp hOrdered).2.1).1 k hLater

end Completeness

section Main

variable {κ : Type} [DecidableEq κ]

theorem findUp_eq_findSome {α : Type} (f : DomainRule → Option α) (node : DomainRuleTreeNode) :
    node.findUp f = (node.chain.map itemOf).findSome? fun j => f j.2 := by
  induction node using DomainRuleTreeNode.chain.induct with
  | case1 name rule =>
    show f rule = findSome? _ [(name, rule)]
    simp
  | case2 name rule z ih =>
    have hHere : itemOf (.mk name rule (some z)) = (name, rule) := rfl
    rw [DomainRuleTreeNode.findUp, ih, DomainRuleTreeNode.chain, map_cons, hHere,
      findSome?_cons]
    cases f rule with
    | some | none => rfl

/--
**Chain completeness**: for a fully qualified name, every configured pattern
that matches it is on its chain if and only if no lookup of the chain skips
one; the chain is ordered from the most to the least specific pattern; and an
attribute looked for along a chain that skips nothing and follows no misleading
link is inherited from a most specific matching pattern that sets it.
-/
theorem chain_complete_iff (lib : NameLib κ) (items : List Item)
    (hPatterns : (items.map Prod.fst).Nodup) (q : Name) (hFqdn : q.isFqdn = true) :
    ((∀ j ∈ items, j.1.isMatch lib q = true →
        j ∈ chainOf lib (DomainRuleMap.create lib items) q) ↔
      NothingSkipped lib (sortItems items) q) ∧
    (chainOf lib (DomainRuleMap.create lib items) q).Pairwise (MoreSpecific lib q) ∧
    (NothingSkipped lib (sortItems items) q → LinksExtend lib (sortItems items) q →
      ∀ (α : Type) (f : DomainRule → Option α), InheritedFrom lib items q f
        (((DomainRuleMap.create lib items).find lib q).bind fun node => node.findUp f)) := by
  have hName : q.setFqdn true = q := by rw [← hFqdn]; rfl
  have hChain := chainOf_create lib items q
  rw [hName] at hChain
  have hSorted : ∀ j, j ∈ sortItems items ↔ j ∈ items := fun j =>
    (perm_insertionSort _ items).mem_iff
  have hNodup : (sortItems items).Nodup :=
    (perm_insertionSort _ items).nodup_iff.mpr (List.Nodup.of_map _ hPatterns)
  have hComplete : NothingSkipped lib (sortItems items) q →
      ∀ j ∈ items, j.1.isMatch lib q = true →
        j ∈ chainOf lib (DomainRuleMap.create lib items) q := by
    intro hSkip j hj hMatch
    rw [hChain]
    exact hSkip.mem_walk _ .head (Nat.le_refl _) ((hSorted j).mpr hj) hMatch
      (hSkip.head j ((hSorted j).mpr hj) hMatch)
  have hOrdered : (chainOf lib (DomainRuleMap.create lib items) q).Pairwise
      (MoreSpecific lib q) := by
    rw [hChain]
    exact walk_ordered _ (suffix_refl _)
  refine ⟨⟨?_, hComplete⟩, hOrdered, ?_⟩
  · intro hAll
    apply nothingSkipped_of_complete hNodup
    intro j hj hMatch
    rw [← hChain]
    exact hAll j ((hSorted j).mp hj) hMatch
  · intro hSkip hLinks α f
    have hValue : (((DomainRuleMap.create lib items).find lib q).bind fun node => node.findUp f) =
        (chainOf lib (DomainRuleMap.create lib items) q).findSome? fun j => f j.2 := by
      unfold chainOf
      cases (DomainRuleMap.create lib items).find lib q with
      | none => rfl
      | some node => exact findUp_eq_findSome f node
    rw [hValue]
    apply inheritedFrom_findSome f hOrdered _ (hComplete hSkip)
    intro j hj
    rw [hChain] at hj
    obtain ⟨before, hConsulted⟩ := consulted_of_mem_walk _ (fun _ _ hPick => .head hPick) j hj
    exact ⟨(hSorted j).mp (walk_subset _ hj).1, hLinks.isMatch hConsulted⟩

end Main

/-! ## A matching pattern that is not consulted -/

/-- Rules on `www.example.com` and on its grandparent, none in between. -/
def spacedItems : List Item :=
  [(.Default wwwName, { DomainRule.default with noCache := some true }),
    (.Suffix (Name.ofLabels ["com"]), { DomainRule.default with nameserver := some "office" })]

/-- Both rules are on the chain of `www.example.com`, so nothing is skipped. -/
theorem chain_complete_iff_spacedItems :
    ((spacedItems.map Prod.fst).Nodup ∧ wwwName.isFqdn = true) ∧
      NothingSkipped exampleLib (sortItems spacedItems) wwwName := by
  refine ⟨⟨by decide, rfl⟩, ?_⟩
  apply (chain_complete_iff exampleLib spacedItems (by decide) wwwName rfl).1.mp
  intro j hj _
  exact hj

/-- An exact rule and a rule for the whole domain, both under the same name. -/
def besideItems : List Item :=
  [(.Full wwwName, { DomainRule.default with noCache := some true }),
    (.Default wwwName, { DomainRule.default with nameserver := some "office" })]

/--
`/www.example.com/` matches `www.example.com` and sends it to the group
`office`. With an exact rule on the same name the pattern is not on the chain,
and the walk finds no group.
-/
theorem chain_incomplete :
    (∀ j ∈ besideItems, j.1.isMatch exampleLib wwwName = true) ∧
    (¬∀ j ∈ besideItems, j.1.isMatch exampleLib wwwName = true →
      j ∈ chainOf exampleLib (DomainRuleMap.create exampleLib besideItems) wwwName) ∧
    ((DomainRuleMap.create exampleLib besideItems).find exampleLib wwwName).bind
      (DomainRuleTreeNode.findUp fun rule => rule.nameserver) = none := by
  refine ⟨by decide, ?_, by decide⟩
  intro hAll
  have hOn := hAll (.Default wwwName, { DomainRule.default with nameserver := some "office" })
    (by simp [besideItems]) (by decide)
  have hChain : chainOf exampleLib (DomainRuleMap.create exampleLib besideItems) wwwName =
      [(.Full wwwName, { DomainRule.default with noCache := some true })] := rfl
  rw [hChain, mem_singleton, Prod.mk.injEq] at hOn
  exact absurd hOn.1 (by decide)

end SmartDns.Ports.RuleCompleteness
