import SmartDns.Ports.RuleTree

/-!
# Soundness of rule chains

A request for a name walks the zone links from the node found for the name.
The walk is meant to see rules of patterns that match the name. Links,
however, are fixed when the tree is built: the zone of a pattern is whatever a
lookup of the pattern's *parent name* finds, and that lookup may return an
exact pattern of the parent or a wildcard pattern matching the parent. Neither
says anything about names below the parent.

`pickItem` restates lookup on the sorted list of items, without tables, and
`Consulted` follows the links through it. The chain of a name is sound exactly
when no link of a consulted pattern goes to an exact or a wildcard pattern.
-/

namespace SmartDns.Ports.RuleChain

open DomainName PatternMap RuleTree List

/-! ## The last occurrence in a list -/

/-- The last element that satisfies `f`, with the elements before it. -/
def splitLast {α : Type} (f : α → Bool) : List α → Option (List α × α)
  | [] => none
  | x :: xs =>
    match splitLast f xs with
    | some (before, y) => some (x :: before, y)
    | none => if f x then some ([], x) else none

variable {α : Type}

theorem splitLast_append_singleton (f : α → Bool) (xs : List α) (y : α) :
    splitLast f (xs ++ [y]) = if f y then some (xs, y) else splitLast f xs := by
  induction xs with
  | nil => simp [splitLast]
  | cons x xs ih =>
    rw [cons_append, splitLast, ih]
    by_cases hy : f y = true
    · simp [hy]
    · simp [hy, splitLast]

theorem splitLast_eq_some {f : α → Bool} {xs before : List α} {y : α}
    (h : splitLast f xs = some (before, y)) :
    f y = true ∧ ∃ after, xs = before ++ y :: after ∧ ∀ z ∈ after, f z = false := by
  induction xs using reverseRecOn with
  | nil => exact absurd h (by simp [splitLast])
  | append_singleton xs x ih =>
    rw [splitLast_append_singleton] at h
    by_cases hx : f x = true
    · simp only [hx, if_true, Option.some.injEq, Prod.mk.injEq] at h
      obtain ⟨hBefore, hy⟩ := h
      subst hBefore hy
      exact ⟨hx, [], rfl, by simp⟩
    · rw [if_neg hx] at h
      obtain ⟨hf, after, hEq, hAfter⟩ := ih h
      refine ⟨hf, after ++ [x], by simp [hEq], ?_⟩
      intro z hz
      rcases mem_append.mp hz with hOld | hNew
      · exact hAfter z hOld
      · rw [mem_singleton.mp hNew]
        exact eq_false_of_ne_true hx

theorem splitLast_snd (f : α → Bool) (xs : List α) :
    (splitLast f xs).map Prod.snd = xs.reverse.find? f := by
  induction xs using reverseRecOn with
  | nil => rfl
  | append_singleton xs y ih =>
    rw [splitLast_append_singleton]
    by_cases hy : f y = true
    · simp [hy]
    · simp [hy, ih]

/-! ## Lookups in the tree -/

section Linked

variable {κ : Type} [DecidableEq κ] (lib : NameLib κ)

/-- The bindings of the tree built from a list of items, in order. -/
def linked (items : List (WildcardName × DomainRule)) : List (WildcardName × DomainRuleTreeNode) :=
  items.foldl (fun entries item => entries ++ [(item.1,
    DomainRuleTreeNode.mk item.1 item.2
      ((DomainMap.ofList lib entries).find lib item.1.name.baseName))]) []

/-- The node of an item inserted after the items `before`. -/
def nodeOf (before : List (WildcardName × DomainRule)) (item : WildcardName × DomainRule) :
    DomainRuleTreeNode :=
  .mk item.1 item.2 ((DomainMap.ofList lib (linked lib before)).find lib item.1.name.baseName)

theorem linked_append (items : List (WildcardName × DomainRule))
    (item : WildcardName × DomainRule) :
    linked lib (items ++ [item]) = linked lib items ++ [(item.1, nodeOf lib items item)] := by
  simp [linked, nodeOf]

/-- The map is that of the sorted rules linked to their parents. -/
theorem create_eq (items : List (WildcardName × DomainRule)) :
    DomainRuleMap.create lib items = DomainMap.ofList lib (linked lib (sortItems items)) := by
  unfold DomainRuleMap.create
  generalize sortItems items = sorted
  induction sorted using reverseRecOn with
  | nil => rfl
  | append_singleton sorted item ih =>
    rw [foldl_append, ih, linked_append, ofList_append]
    rfl

theorem map_fst_linked (items : List (WildcardName × DomainRule)) :
    (linked lib items).map Prod.fst = items.map Prod.fst := by
  induction items using reverseRecOn with
  | nil => rfl
  | append_singleton items item ih =>
    rw [linked_append, map_append, ih, map_append]
    rfl

/-- The node bound last under a pattern. -/
theorem valueOf_linked (items : List (WildcardName × DomainRule)) (p : WildcardName) :
    valueOf (linked lib items) p =
      (splitLast (fun e => e.1.setFqdn true == p.setFqdn true) items).map
        fun r => nodeOf lib r.1 r.2 := by
  induction items using reverseRecOn with
  | nil => rfl
  | append_singleton items item ih =>
    rw [linked_append, splitLast_append_singleton]
    unfold valueOf at ih ⊢
    rw [latest_append, ih]
    by_cases hKey : (item.1.setFqdn true == p.setFqdn true) = true
    · simp [hKey]
    · simp [hKey]

/-- The item whose node a lookup of a name finds, with the items before it. -/
def pickItem (items : List (WildcardName × DomainRule)) (name : Name) :
    Option (List (WildcardName × DomainRule) × (WildcardName × DomainRule)) :=
  (mostSpecific lib (items.map Prod.fst) (DomainMap.startName name)).bind fun w =>
    splitLast (fun e => e.1.setFqdn true == w.setFqdn true) items

/-- Lookups in the tree, in terms of the items it was built from. -/
theorem find_linked (items : List (WildcardName × DomainRule)) (name : Name)
    (hFqdn : name.isFqdn = true) :
    (DomainMap.ofList lib (linked lib items)).find lib name =
      (pickItem lib items name).map fun r => nodeOf lib r.1 r.2 := by
  rw [find_ofList lib _ _ hFqdn]
  unfold lookupSpec pickItem
  rw [map_fst_linked]
  cases mostSpecific lib (items.map Prod.fst) (DomainMap.startName name) with
  | none => rfl
  | some w => exact valueOf_linked lib items w

end Linked

/-! ## What a lookup can find -/

section Picks

variable {κ : Type} {lib : NameLib κ}

/-- The patterns a lookup of the name `x` can return. -/
def Applies (lib : NameLib κ) (x : Name) : WildcardName → Prop
  | .Full n => n.lowerLabels = x.lowerLabels
  | .Sub w n => x.labels ≠ [] ∧ n.lowerLabels = x.lowerLabels.tail ∧
      (x.labels.head?.map fun label => w.isMatch lib label).getD true = true
  | .Suffix n => n.lowerLabels <:+ x.lowerLabels ∧ n.labels.length < x.labels.length
  | .Default n => n.lowerLabels <:+ x.lowerLabels

variable {x : Name} {p : WildcardName}

private theorem applies_of_rank {r : Nat} (h : rank lib x p = some r) : Applies lib x p := by
  cases ranked_of_rank lib h with
  | full hLabels => exact hLabels
  | sub hMatch hLabels hLen =>
    exact ⟨ne_nil_of_length_pos (by omega), hLabels, (Bool.and_eq_true_iff.mp hMatch).2⟩
  | suffix hLabels hLen => exact ⟨hLabels, hLen⟩
  | default hLabels => exact hLabels

private theorem applies_congr {p' : WildcardName} (hEq : (p.setFqdn true == p'.setFqdn true) = true)
    (h : Applies lib x p') :
    Applies lib x p := by
  rw [WildcardName.beq_iff] at hEq
  cases p <;> cases p' <;>
    simp [WildcardName.setFqdn, WildcardName.toLowercase, Name.toLowercase] at hEq
  · rename_i n n'
    show n.lowerLabels <:+ x.lowerLabels
    rw [hEq]
    exact h
  · rename_i n n'
    have hLen : n.labels.length = n'.labels.length := by
      have hMap := congrArg length hEq
      simpa using hMap
    refine ⟨?_, by rw [hLen]; exact h.2⟩
    rw [hEq]
    exact h.1
  · obtain ⟨hw, hn⟩ := hEq
    subst hw
    exact ⟨h.1, hn.trans h.2.1, h.2.2⟩
  · exact hEq.trans h

/-- A lookup returns a pattern that applies to the name it starts from. -/
theorem pickItem_applies {items before : List (WildcardName × DomainRule)} {name : Name}
    {item : WildcardName × DomainRule} (h : pickItem lib items name = some (before, item)) :
    Applies lib (DomainMap.startName name) item.1 := by
  obtain ⟨w, hw, hSplit⟩ := Option.bind_eq_some_iff.mp h
  obtain ⟨r, _, hr⟩ := exists_of_findSome?_eq_some hw
  have hRank : rank lib (DomainMap.startName name) w = some r := by
    simpa using find?_some hr
  exact applies_congr (splitLast_eq_some hSplit).1 (applies_of_rank hRank)

theorem pickItem_length {items before : List (WildcardName × DomainRule)} {name : Name}
    {item : WildcardName × DomainRule} (h : pickItem lib items name = some (before, item)) :
    before.length < items.length := by
  obtain ⟨w, _, hSplit⟩ := Option.bind_eq_some_iff.mp h
  obtain ⟨-, after, rfl, -⟩ := splitLast_eq_some hSplit
  simp

theorem startName_suffix (name : Name) :
    (DomainMap.startName name).lowerLabels <:+ name.lowerLabels := by
  unfold DomainMap.startName
  split
  · rw [Name.baseName_lowerLabels]
    exact tail_suffix _
  · exact suffix_refl _

/-- The name of a pattern that applies is an ancestor of the name, or the name. -/
theorem Applies.suffix (h : Applies lib x p) : p.name.lowerLabels <:+ x.lowerLabels := by
  cases p with
  | Full n =>
    have hEq : n.lowerLabels = x.lowerLabels := h
    exact hEq ▸ suffix_refl _
  | Default n => exact h
  | Suffix n => exact h.1
  | Sub w n =>
    show n.lowerLabels <:+ x.lowerLabels
    rw [h.2.1]
    exact tail_suffix _

/-- Default and suffix patterns speak about all names below theirs. -/
def ExtendsBelow : WildcardName → Prop
  | .Default _ => True
  | .Suffix _ => True
  | .Sub _ _ => False
  | .Full _ => False

/-- A pattern that extends below matches every name it applies to or below. -/
theorem ExtendsBelow.isMatch {q : Name} (hBelow : ExtendsBelow p) (h : Applies lib x p)
    (hx : x.lowerLabels <:+ q.lowerLabels) : p.isMatch lib q = true := by
  cases p with
  | Default n => exact Name.zoneOf_iff.mpr (List.IsSuffix.trans h hx)
  | Suffix n =>
    have hZone : n.zoneOf q = true := Name.zoneOf_iff.mpr (h.1.trans hx)
    have hNe : eqIgnoreRootCase lib n q = false := by
      by_contra hEq
      have hLower := lib.eqLabels_lower _ _ (eq_true_of_ne_false hEq)
      have hLen : n.labels.length = q.labels.length := by
        have hMap := congrArg length hLower
        simpa using hMap
      have hLe := hx.length_le
      have hLt := h.2
      simp only [lowerLabels_length] at hLe
      omega
    simp [WildcardName.isMatch, hZone, hNe]
  | Sub | Full => exact hBelow.elim

/-- An exact or wildcard pattern found for a shorter name does not match `q`. -/
theorem not_isMatch_of_shorter {q : Name} (hBelow : ¬ExtendsBelow p) (h : Applies lib x p)
    (hShort : x.labels.length < q.labels.length) :
    p.isMatch lib q = false := by
  by_contra hMatch
  replace hMatch := eq_true_of_ne_false hMatch
  cases p with
  | Default | Suffix => exact hBelow trivial
  | Full n =>
    have hLower := lib.eqLabels_lower _ _ hMatch
    have hLen := congrArg length (show n.lowerLabels = x.lowerLabels from h)
    have hLen' := congrArg length (show n.lowerLabels = q.lowerLabels from hLower)
    simp only [lowerLabels_length] at hLen hLen'
    omega
  | Sub w n =>
    simp only [WildcardName.isMatch, Bool.and_eq_true] at hMatch
    have hLower := lib.eqLabels_lower _ _ hMatch.1
    have hLen := congrArg length h.2.1
    have hLen' := congrArg length
      (show n.lowerLabels = q.baseName.lowerLabels from hLower)
    have hPos : 0 < x.labels.length := length_pos_iff.mpr h.1
    simp only [lowerLabels_length, length_tail, Name.baseName_lowerLabels] at hLen hLen'
    omega

end Picks

/-! ## Chains -/

section Chains

variable {κ : Type} (lib : NameLib κ)

/-- The items whose nodes are on the chain of a name, with the items before each. -/
inductive Consulted (items : List (WildcardName × DomainRule)) (q : Name) :
    List (WildcardName × DomainRule) → WildcardName × DomainRule → Prop
  | head {before item} : pickItem lib items q = some (before, item) → Consulted items q before item
  | zone {before item before' item'} : Consulted items q before item →
      pickItem lib before item.1.name.baseName = some (before', item') →
      Consulted items q before' item'

/-- The pattern found for the name itself is spelled the way matching compares it. -/
def HeadSpelled (q : Name) : WildcardName → Prop
  | .Default _ => True
  | .Suffix _ => True
  | .Full n => q.isWildcard = false ∧ eqIgnoreRootCase lib n q = true
  | .Sub _ n => q.isWildcard = false ∧ eqIgnoreRootCase lib n q.baseName = true

/--
The links a name follows: the pattern found for the name is spelled like it,
and every pattern picked as the zone of a consulted one extends below its name.
At the root there is nothing above to be misled by.
-/
structure LinksExtend (items : List (WildcardName × DomainRule)) (q : Name) : Prop where
  head : ∀ before item, pickItem lib items q = some (before, item) → HeadSpelled lib q item.1
  zone : ∀ before item before' item', Consulted lib items q before item →
    pickItem lib before item.1.name.baseName = some (before', item') →
    ExtendsBelow item'.1 ∨ q.labels = []

variable {lib} {items : List (WildcardName × DomainRule)} {q : Name}

variable {before : List (WildcardName × DomainRule)} {item : WildcardName × DomainRule}

/-- A rule consulted for a name is of the name or of one of its parents. -/
theorem Consulted.suffix (h : Consulted lib items q before item) :
    item.1.name.lowerLabels <:+ q.lowerLabels := by
  induction h with
  | head hPick => exact (pickItem_applies hPick).suffix.trans (startName_suffix q)
  | @zone before item before' item' hPrev hPick ih =>
    have hBase := (pickItem_applies hPick).suffix.trans (startName_suffix _)
    rw [Name.baseName_lowerLabels] at hBase
    exact (hBase.trans (tail_suffix _)).trans ih

/-- The pattern found for the name matches it exactly when it is spelled like it. -/
theorem head_isMatch_iff (hPick : pickItem lib items q = some (before, item)) :
    item.1.isMatch lib q = true ↔ HeadSpelled lib q item.1 := by
  have hApplies := pickItem_applies hPick
  by_cases hBelow : ExtendsBelow item.1
  · have hMatch := hBelow.isMatch hApplies (startName_suffix q)
    have hSpelled : HeadSpelled lib q item.1 := by
      cases hKind : item.1 with
      | Default | Suffix => trivial
      | Sub | Full => rw [hKind] at hBelow; exact hBelow.elim
    exact ⟨fun _ => hSpelled, fun _ => hMatch⟩
  · by_cases hWild : q.isWildcard = true
    · have hStart : DomainMap.startName q = q.baseName := by simp [DomainMap.startName, hWild]
      have hPos : q.labels ≠ [] := by
        intro hNil
        simp [Name.isWildcard, hNil] at hWild
      have hShort : (DomainMap.startName q).labels.length < q.labels.length := by
        have hLen := length_pos_iff.mpr hPos
        rw [hStart]
        show q.labels.tail.length < _
        rw [length_tail]
        omega
      have hNot := not_isMatch_of_shorter hBelow hApplies hShort
      have hSpelled : ¬HeadSpelled lib q item.1 := by
        intro hHead
        cases hKind : item.1 with
        | Default | Suffix => rw [hKind] at hBelow; exact hBelow trivial
        | Sub | Full => rw [hKind] at hHead; simp [HeadSpelled, hWild] at hHead
      simp [hNot, hSpelled]
    · have hNotWild : q.isWildcard = false := by simpa using hWild
      have hStart : DomainMap.startName q = q := by simp [DomainMap.startName, hNotWild]
      rw [hStart] at hApplies
      cases hKind : item.1 with
      | Default | Suffix => rw [hKind] at hBelow; exact absurd trivial hBelow
      | Full n => simp [HeadSpelled, hNotWild, WildcardName.isMatch]
      | Sub w n =>
        rw [hKind] at hApplies
        simp only [WildcardName.isMatch, HeadSpelled, hNotWild, hApplies.2.2, Bool.and_true,
          true_and]

/-- At the root every pattern that applies matches. -/
theorem isMatch_of_root {x : Name} {p : WildcardName} (hq : q.labels = [])
    (h : Applies lib x p) (hx : x.lowerLabels <:+ q.lowerLabels) : p.isMatch lib q = true := by
  have hRoot : x.labels = [] := by
    have hLen := hx.length_le
    simp only [lowerLabels_length, hq, length_nil] at hLen
    exact eq_nil_of_length_eq_zero (by omega)
  cases p with
  | Default n => exact ExtendsBelow.isMatch (p := .Default n) trivial h hx
  | Suffix n =>
    have hLt := h.2
    simp [hRoot] at hLt
  | Sub w n => exact absurd hRoot h.1
  | Full n =>
    have hLen := congrArg length (show n.lowerLabels = x.lowerLabels from h)
    simp only [lowerLabels_length, hRoot] at hLen
    have hNil : n.labels = [] := eq_nil_of_length_eq_zero hLen
    simp only [WildcardName.isMatch, eqIgnoreRootCase, hNil, hq]
    exact lib.eqLabels_refl []

/-- Links that extend below make every consulted pattern match. -/
theorem LinksExtend.isMatch (hLinks : LinksExtend lib items q)
    (h : Consulted lib items q before item) : item.1.isMatch lib q = true := by
  cases h with
  | head hPick => exact (head_isMatch_iff hPick).mpr (hLinks.head before item hPick)
  | @zone before' item' _ _ hPrev hPick =>
    have hApplies := pickItem_applies hPick
    have hStart := startName_suffix item'.1.name.baseName
    rw [Name.baseName_lowerLabels] at hStart
    have hSuffix := (hStart.trans (tail_suffix _)).trans hPrev.suffix
    rcases hLinks.zone _ _ _ _ hPrev hPick with hBelow | hRoot
    · exact hBelow.isMatch hApplies hSuffix
    · exact isMatch_of_root hRoot hApplies hSuffix

theorem Consulted.exists_head (h : Consulted lib items q before item) :
    ∃ r, pickItem lib items q = some r := by
  induction h with
  | head hPick => exact ⟨_, hPick⟩
  | zone _ _ ih => exact ih

variable [DecidableEq κ]

/-- The node of a consulted item is on the chain. -/
theorem Consulted.mem_chain (h : Consulted lib items q before item) {node : DomainRuleTreeNode}
    (hFind : (pickItem lib items q).map (fun r => nodeOf lib r.1 r.2) = some node) :
    nodeOf lib before item ∈ node.chain := by
  induction h with
  | head hPick =>
    rw [hPick, Option.map_some, Option.some.injEq] at hFind
    rw [← hFind]
    exact DomainRuleTreeNode.mem_chain_self _
  | @zone before item before' item' hPrev hPick ih =>
    refine DomainRuleTreeNode.zone_mem_chain node ih ?_
    show (DomainMap.ofList lib (linked lib before)).find lib item.1.name.baseName = _
    rw [find_linked lib _ _ rfl, hPick]
    rfl

theorem nodeOf_eq (before : List (WildcardName × DomainRule)) (item : WildcardName × DomainRule) :
    nodeOf lib before item = .mk item.1 item.2
      ((pickItem lib before item.1.name.baseName).map fun r => nodeOf lib r.1 r.2) := by
  unfold nodeOf
  rw [find_linked lib _ _ rfl]
  rfl

/-- A property of all consulted items is one of the whole chain. -/
theorem chain_forall {P : WildcardName → Prop}
    (hP : ∀ before item, Consulted lib items q before item → P item.1) :
    ∀ (n : Nat) (before : List (WildcardName × DomainRule)) (item : WildcardName × DomainRule),
      before.length < n → Consulted lib items q before item →
      ∀ z ∈ (nodeOf lib before item).chain, P z.name := by
  intro n
  induction n with
  | zero =>
    omega
  | succ n ih =>
    intro before item hLen hItem z hz
    rw [nodeOf_eq] at hz
    cases hPick : pickItem lib before item.1.name.baseName with
    | none =>
      rw [hPick, Option.map_none, DomainRuleTreeNode.chain, mem_singleton] at hz
      rw [hz]
      exact hP before item hItem
    | some r =>
      obtain ⟨before', item'⟩ := r
      rw [hPick, Option.map_some, DomainRuleTreeNode.chain, mem_cons] at hz
      rcases hz with hHead | hTail
      · rw [hHead]
        exact hP before item hItem
      · have hShorter := pickItem_length hPick
        exact ih before' item' (by omega) (hItem.zone hPick) z hTail

/--
**Chain soundness**: for a fully qualified name, every node on its chain has a
pattern that matches the name if and only if the pattern found for the name is
spelled like it and no consulted pattern is linked to an exact or a wildcard
pattern.
-/
theorem chain_sound_iff (lib : NameLib κ) (items : List (WildcardName × DomainRule)) (q : Name)
    (hFqdn : q.isFqdn = true) :
    (∀ node, (DomainRuleMap.create lib items).find lib q = some node →
        ∀ z ∈ node.chain, z.name.isMatch lib q = true) ↔
      LinksExtend lib (sortItems items) q := by
  rw [create_eq, find_linked lib _ _ hFqdn]
  constructor
  · intro hSound
    refine ⟨?_, ?_⟩
    · intro before item hPick
      apply (head_isMatch_iff hPick).mp
      refine hSound (nodeOf lib before item) (by rw [hPick]; rfl) (nodeOf lib before item) ?_
      exact DomainRuleTreeNode.mem_chain_self _
    · intro before item before' item' hItem hPick
      by_contra hNot
      push Not at hNot
      have hItem' := hItem.zone hPick
      have hApplies := pickItem_applies hPick
      have hSuffix := hItem.suffix.length_le
      have hStart := (startName_suffix item.1.name.baseName).length_le
      rw [Name.baseName_lowerLabels, length_tail] at hStart
      simp only [lowerLabels_length] at hSuffix hStart
      have hPos := length_pos_iff.mpr hNot.2
      have hShort : (DomainMap.startName item.1.name.baseName).labels.length <
          q.labels.length := by omega
      have hNoMatch := not_isMatch_of_shorter hNot.1 hApplies hShort
      obtain ⟨r, hHead⟩ := hItem.exists_head
      have hFind : (pickItem lib (sortItems items) q).map (fun r => nodeOf lib r.1 r.2) =
          some (nodeOf lib r.1 r.2) := by
        rw [hHead]
        rfl
      have hMatch := hSound _ hFind _ (hItem'.mem_chain hFind)
      have hName : (nodeOf lib before' item').name = item'.1 := rfl
      rw [hName, hNoMatch] at hMatch
      cases hMatch
  · intro hLinks node hNode
    cases hHead : pickItem lib (sortItems items) q with
    | none => rw [hHead] at hNode; cases hNode
    | some r =>
      rw [hHead, Option.map_some, Option.some.injEq] at hNode
      rw [← hNode]
      exact chain_forall (P := fun p => p.isMatch lib q = true)
        (fun _ _ hItem => hLinks.isMatch hItem) (r.1.length + 1) r.1 r.2
        (Nat.lt_succ_self _) (Consulted.head hHead)

end Chains

/-! ## A chain that leaves the matching patterns -/

/-- A library in which a hash code is the lowercased value itself. -/
def exampleLib : NameLib WildcardName where
  hashPattern p := p.toLowercase
  hashName n := .Full n.toLowercase
  hashPattern_eq _ _ := WildcardName.beq_iff.symm
  hashName_eq _ _ := by
    rw [WildcardName.Full.injEq]
    exact Name.beq_iff_toLowercase.symm
  eqLabels ls ls' := decide (ls = ls')
  eqLabels_refl _ := by simp
  eqLabels_lower _ _ h := by
    rw [of_decide_eq_true h]
  wildcardMatch _ _ := true

def wwwName : Name := Name.ofLabels ["www", "example", "com"]

/-- The exact pattern of the parent carries a server group, the name a rule. -/
def shadowItems : List (WildcardName × DomainRule) :=
  [(.Full (Name.ofLabels ["example", "com"]),
      { DomainRule.default with nameserver := some "office" }),
    (.Default wwwName, { DomainRule.default with noCache := some true })]

/-- The iff at a name whose exact parent pattern shadows its zone. -/
theorem chain_sound_iff_www :
    wwwName.isFqdn = true ∧
      ((∀ node, (DomainRuleMap.create exampleLib shadowItems).find exampleLib wwwName =
            some node → ∀ z ∈ node.chain, z.name.isMatch exampleLib wwwName = true) ↔
        LinksExtend exampleLib (sortItems shadowItems) wwwName) :=
  ⟨rfl, chain_sound_iff exampleLib shadowItems wwwName rfl⟩

/--
With `-.example.com` sent to the group `office` and any rule on
`www.example.com`, the chain of `www.example.com` contains the exact pattern of
its parent, which does not match it, and the name is sent to that group.
-/
theorem chain_unsound :
    (¬∀ node, (DomainRuleMap.create exampleLib shadowItems).find exampleLib wwwName = some node →
        ∀ z ∈ node.chain, z.name.isMatch exampleLib wwwName = true) ∧
      ((DomainRuleMap.create exampleLib shadowItems).find exampleLib wwwName).bind
        (DomainRuleTreeNode.findUp fun rule => rule.nameserver) = some "office" := by
  constructor
  · intro hSound
    have hAll : ((DomainRuleMap.create exampleLib shadowItems).find exampleLib wwwName).map
        (fun node => node.chain.all fun z => z.name.isMatch exampleLib wwwName) =
          some false := by decide
    obtain ⟨node, hNode, hFalse⟩ := Option.map_eq_some_iff.mp hAll
    have hTrue : (node.chain.all fun z => z.name.isMatch exampleLib wwwName) = true :=
      all_eq_true.mpr (hSound node hNode)
    rw [hFalse] at hTrue
    cases hTrue
  · decide

end SmartDns.Ports.RuleChain
