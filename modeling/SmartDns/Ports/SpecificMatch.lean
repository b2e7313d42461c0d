import SmartDns.Ports.RuleWalk

/-!
# The most specific pattern

What a lookup in the pattern map is for, in terms of the patterns that match a
name. They are compared by how many labels they are away from the name, and at
one level by their kind. Only wildcard patterns can be equal in both without
being one pattern; of these the one inserted first is taken.

Names are compared up to letter case here, by `is_match` as by the hash codes.
-/

namespace SmartDns.Ports.SpecificMatch

open DomainName PatternMap RuleWalk

/-! ## Specificity -/

/-- How many labels a pattern that matches a name is away from it. -/
def level (q : Name) : WildcardName → Nat
  | .Full _ => 0
  | .Sub _ _ => 1
  | .Suffix n => q.labels.length - n.labels.length
  | .Default n => q.labels.length - n.labels.length

/-- At one level, exact and wildcard patterns come first, then suffixes. -/
def kind : WildcardName → Nat
  | .Full _ => 0
  | .Sub _ _ => 0
  | .Suffix _ => 1
  | .Default _ => 2

/-- A pattern is more specific for a name than another one. -/
def Precedes (q : Name) (p p' : WildcardName) : Prop :=
  level q p < level q p' ∨ (level q p = level q p' ∧ kind p < kind p')

theorem kind_lt (p : WildcardName) : kind p < 3 := by
  cases p <;> simp [kind]

theorem precedes_iff {q : Name} {p p' : WildcardName} :
    Precedes q p p' ↔ 3 * level q p + kind p < 3 * level q p' + kind p' := by
  have hp := kind_lt p
  have hp' := kind_lt p'
  unfold Precedes
  omega

/-- Label comparison ignores letter case. -/
def IgnoresCase {κ : Type} (lib : NameLib κ) : Prop :=
  ∀ ls ls', ls.map lowerLabel = ls'.map lowerLabel → lib.eqLabels ls ls' = true

section Rank

variable {κ : Type} {lib : NameLib κ} {q : Name}

theorem eqIgnoreRootCase_iff (hCase : IgnoresCase lib) (a b : Name) :
    eqIgnoreRootCase lib a b = true ↔ a.lowerLabels = b.lowerLabels :=
  ⟨lib.eqLabels_lower _ _, hCase _ _⟩

/-- The patterns that have a rank are those that match. -/
theorem rank_eq (hCase : IgnoresCase lib) (hRoot : q.labels ≠ []) (p : WildcardName) :
    rank lib q p = if p.isMatch lib q then some (3 * level q p + kind p) else none := by
  cases p with
  | Full n =>
    have hMatch : (WildcardName.Full n).isMatch lib q = true ↔ n.lowerLabels = q.lowerLabels :=
      eqIgnoreRootCase_iff hCase n q
    simp only [rank, hMatch, level, kind]
  | Sub w n => simp only [rank, hRoot, ne_eq, not_false_eq_true, true_and, level, kind]
  | Suffix n =>
    have hMatch : (WildcardName.Suffix n).isMatch lib q = true ↔
        n.zoneOf q = true ∧ n.labels.length < q.labels.length := by
      simp only [WildcardName.isMatch, Bool.and_eq_true, Bool.not_eq_true',
        ← Bool.not_eq_true, eqIgnoreRootCase_iff hCase]
      constructor
      · rintro ⟨hOther, hZone⟩
        refine ⟨hZone, ?_⟩
        have hSuffix := Name.zoneOf_iff.mp hZone
        have hLen := hSuffix.length_le
        rw [lowerLabels_length, lowerLabels_length] at hLen
        rcases Nat.lt_or_eq_of_le hLen with hLess | hEq
        · exact hLess
        · exact absurd (hSuffix.eq_of_length (by simpa using hEq)) hOther
      · rintro ⟨hZone, hLess⟩
        refine ⟨?_, hZone⟩
        intro hSame
        have hLen := congrArg List.length hSame
        rw [lowerLabels_length, lowerLabels_length] at hLen
        omega
    simp only [rank, hMatch, level, kind]
  | Default n => rfl

end Rank

/-! ## Lookups -/

section Lookup

variable {κ T : Type} {lib : NameLib κ} {entries : List (WildcardName × T)} {q : Name}

/-- An inserted pattern that matches a name, more specific than those inserted before it and not
less specific than those inserted after it. -/
def MostSpecific (lib : NameLib κ) (entries : List (WildcardName × T)) (q : Name)
    (p : WildcardName) : Prop :=
  ∃ before after, entries.map Prod.fst = before ++ p :: after ∧ p.isMatch lib q = true ∧
    (∀ p' ∈ before, p'.isMatch lib q = true → Precedes q p p') ∧
    ∀ p' ∈ after, p'.isMatch lib q = true → ¬Precedes q p' p

/-- Of two such patterns neither was inserted before the other. -/
theorem not_inserted_before {before middle after : List WildcardName} {p p' : WildcardName}
    (hMatch : p.isMatch lib q = true) (hMatch' : p'.isMatch lib q = true)
    (hBefore : ∀ x ∈ before ++ p :: middle, x.isMatch lib q = true → Precedes q p' x)
    (hAfter : ∀ x ∈ middle ++ p' :: after, x.isMatch lib q = true → ¬Precedes q x p) : False := by
  have hLess : Precedes q p' p := hBefore p (by simp) hMatch
  exact hAfter p' (by simp) hMatch' hLess

/-- There is one most specific pattern for a name. -/
theorem MostSpecific.unique {p p' : WildcardName} (h : MostSpecific lib entries q p)
    (h' : MostSpecific lib entries q p') : p = p' := by
  obtain ⟨before, after, hSplit, hMatch, hBefore, hAfter⟩ := h
  obtain ⟨before', after', hSplit', hMatch', hBefore', hAfter'⟩ := h'
  rw [hSplit] at hSplit'
  rcases List.append_eq_append_iff.mp hSplit' with ⟨middle, hLeft, hRight⟩ | ⟨middle, hLeft, hRight⟩
  · cases middle with
    | nil => exact (List.cons.inj hRight).1
    | cons x middle =>
      obtain ⟨rfl, rfl⟩ := List.cons.inj hRight
      subst hLeft
      exact (not_inserted_before hMatch hMatch' hBefore' hAfter).elim
  · cases middle with
    | nil => exact (List.cons.inj hRight).1.symm
    | cons x middle =>
      obtain ⟨rfl, rfl⟩ := List.cons.inj hRight
      subst hLeft
      exact (not_inserted_before hMatch' hMatch hBefore hAfter').elim

/-- The pattern the code picks is the most specific. -/
theorem mostSpecific_of_rank (hCase : IgnoresCase lib) (hRoot : q.labels ≠ []) {p : WildcardName}
    (h : mostSpecific lib (entries.map Prod.fst) q = some p) : MostSpecific lib entries q p := by
  obtain ⟨r, before, after, hSplit, hRank, hBefore, hLeast⟩ := mostSpecific_split h
  rw [rank_eq hCase hRoot] at hRank
  split at hRank
  · rename_i hMatch
    have hr := Option.some.inj hRank
    have hRanks : ∀ {p' : WildcardName}, p'.isMatch lib q = true →
        rank lib q p' = some (3 * level q p' + kind p') := by
      intro p' hMatch'
      rw [rank_eq hCase hRoot, if_pos hMatch']
    refine ⟨before, after, hSplit, hMatch, ?_, ?_⟩
    · intro p' hp' hMatch'
      have hRank' := hRanks hMatch'
      have hLe := hLeast p' (by rw [hSplit]; simp [hp']) _ hRank'
      have hNe : 3 * level q p' + kind p' ≠ r := by
        intro hEq
        rw [hEq] at hRank'
        exact hBefore p' hp' hRank'
      rw [precedes_iff]
      omega
    · intro p' hp' hMatch' hPrecedes
      have hLe := hLeast p' (by rw [hSplit]; simp [hp']) _ (hRanks hMatch')
      rw [precedes_iff] at hPrecedes
      omega
  · cases hRank

variable [DecidableEq κ]

/-- A name without its root dot is looked up as the name with it: its two extra probes find
nothing. -/
theorem find_eq_lookupSpec (lib : NameLib κ) (entries : List (WildcardName × T))
    (hWildcard : q.isWildcard = false) :
    (DomainMap.ofList lib entries).find lib q = lookupSpec lib entries q := by
  have hStart : DomainMap.startName q = q := by
    rw [DomainMap.startName, hWildcard]
    rfl
  rw [find_ofList_eq_climb, hStart]
  cases hFqdn : q.isFqdn with
  | true => rfl
  | false =>
    rw [latest_eq_none_of_relative entries (k := .Full q) hFqdn,
      latest_eq_none_of_relative entries (k := .Default q) hFqdn]
    rfl

/-- A lookup returns the latest value of the most specific pattern that matches, and nothing if
none does. -/
theorem most_specific_match (lib : NameLib κ) (entries : List (WildcardName × T)) (q : Name)
    (hCase : IgnoresCase lib) (hRoot : q.labels ≠ []) (hWildcard : q.isWildcard = false) :
    (∀ v, (DomainMap.ofList lib entries).find lib q = some v ↔
      ∃ p, MostSpecific lib entries q p ∧ valueOf entries p = some v) ∧
    ((DomainMap.ofList lib entries).find lib q = none ↔
      ∀ e ∈ entries, e.1.isMatch lib q = false) := by
  rw [find_eq_lookupSpec lib entries hWildcard, lookupSpec]
  cases hPick : mostSpecific lib (entries.map Prod.fst) q with
  | none =>
    have hNone : ∀ e ∈ entries, e.1.isMatch lib q = false := by
      intro e he
      cases hMatch : e.1.isMatch lib q with
      | false => rfl
      | true =>
        obtain ⟨w, hw⟩ := mostSpecific_isSome (List.mem_map_of_mem he)
          (show rank lib q e.1 = some (3 * level q e.1 + kind e.1) by
            rw [rank_eq hCase hRoot, if_pos hMatch])
        rw [hPick] at hw
        cases hw
    refine ⟨?_, fun _ => hNone, fun _ => rfl⟩
    intro v
    refine ⟨fun h => (by cases h), ?_⟩
    rintro ⟨p, ⟨before, after, hSplit, hMatch, -⟩, -⟩
    obtain ⟨e, he, hEq⟩ : ∃ e ∈ entries, e.1 = p := List.mem_map.mp (by rw [hSplit]; simp)
    rw [← hEq, hNone e he] at hMatch
    cases hMatch
  | some p =>
    have hMost := mostSpecific_of_rank hCase hRoot hPick
    have hMost' := hMost
    obtain ⟨before, after, hSplit, hMatch, -⟩ := hMost'
    have hMem : p ∈ entries.map Prod.fst := by
      rw [hSplit]
      simp
    obtain ⟨v, hv⟩ := valueOf_isSome hMem
    rw [Option.bind_some, hv]
    refine ⟨?_, ?_, ?_⟩
    · intro v'
      constructor
      · intro hEq
        cases hEq
        exact ⟨p, hMost, hv⟩
      · rintro ⟨p', hMost', hv'⟩
        rw [hMost.unique hMost', hv'] at hv
        exact hv.symm
    · intro h
      cases h
    · intro hNone
      obtain ⟨e, he, hEq⟩ := List.mem_map.mp hMem
      rw [← hEq, hNone e he] at hMatch
      cases hMatch

end Lookup

/-! ## A lookup -/

/-- A library that compares labels up to letter case. -/
def foldedLib : NameLib WildcardName :=
  { RuleChain.exampleLib with
    eqLabels := fun ls ls' => decide (ls.map lowerLabel = ls'.map lowerLabel)
    eqLabels_refl := fun _ => decide_eq_true rfl
    eqLabels_lower := fun _ _ h => of_decide_eq_true h }

/-- Patterns of every kind above `www.example.com`, one of them inserted twice. -/
def layeredEntries : List (WildcardName × Nat) :=
  [(.Default (Name.ofLabels ["com"]), 1), (.Suffix (Name.ofLabels ["example", "com"]), 2),
    (.Sub ⟨[]⟩ (Name.ofLabels ["Example", "com"]), 3), (.Full (Name.ofLabels ["example", "com"]),
      4),
    (.Sub ⟨[]⟩ (Name.ofLabels ["example", "com"]), 5)]

/-- The wildcard pattern is the most specific one, and its latest value is returned. -/
theorem most_specific_match_www :
    (DomainMap.ofList foldedLib layeredEntries).find foldedLib RuleChain.wwwName = some 5 ∧
      ∃ p, MostSpecific foldedLib layeredEntries RuleChain.wwwName p ∧
        valueOf layeredEntries p = some 5 := by
  have hFind : (DomainMap.ofList foldedLib layeredEntries).find foldedLib RuleChain.wwwName =
      some 5 := by decide
  have hCase : IgnoresCase foldedLib := fun _ _ h => decide_eq_true h
  exact ⟨hFind, ((most_specific_match foldedLib layeredEntries RuleChain.wwwName hCase (by decide)
    (by decide)).1 5).mp hFind⟩

end SmartDns.Ports.SpecificMatch
