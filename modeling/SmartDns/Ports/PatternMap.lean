import SmartDns.Ports.DomainName

/-!
# Domain patterns and the pattern map

A configuration speaks about names through four kinds of patterns, and
`DomainMap` finds the value of the most specific one for a name. The source
stores values under 64-bit hash codes of patterns and, for patterns with a
wildcard label, keeps a list of them per parent name. A lookup starts at the
name, climbs one label at a time and probes a fixed order of kinds at each
level.

`mostSpecific` states the same order without the tables: every pattern that
applies to a name has a rank, a smaller rank wins, and among equal ranks the
pattern inserted first. Inserting a pattern again replaces its value.

Code outside the repository enters through `NameLib`. Hash codes are values of
an arbitrary type and equal only for equal patterns. The comparison behind
`is_match` looks at labels only; whether it distinguishes letter case is left
open, between identity and equality up to case. Matching of a wildcard label
is arbitrary.
-/

namespace SmartDns.Ports.PatternMap

open DomainName List

/-! ## Patterns -/

/-- The text of a wildcard label; empty for a lone asterisk. -/
structure Wildcard where
  pattern : List UInt8
  deriving DecidableEq

/-- A pattern of the configuration. -/
inductive WildcardName where
  | Default (name : Name)
  | Suffix (name : Name)
  | Sub (wildcard : Wildcard) (name : Name)
  | Full (name : Name)
  deriving DecidableEq

namespace WildcardName

/-- `Deref`: the name inside a pattern. -/
def name : WildcardName → Name
  | .Default n => n
  | .Suffix n => n
  | .Sub _ n => n
  | .Full n => n

/-- `PartialEq` of patterns: same kind, same wildcard, equal names. -/
instance : BEq WildcardName where
  beq
    | .Default n, .Default n' => n == n'
    | .Suffix n, .Suffix n' => n == n'
    | .Sub w n, .Sub w' n' => decide (w = w') && n == n'
    | .Full n, .Full n' => n == n'
    | _, _ => false

def isSub : WildcardName → Bool
  | .Sub _ _ => true
  | _ => false

/-- `set_fqdn` through `DerefMut`. -/
def setFqdn (fqdn : Bool) : WildcardName → WildcardName
  | .Default n => .Default (n.setFqdn fqdn)
  | .Suffix n => .Suffix (n.setFqdn fqdn)
  | .Sub w n => .Sub w (n.setFqdn fqdn)
  | .Full n => .Full (n.setFqdn fqdn)

/-- The kind as `Ord` numbers it. -/
def ord : WildcardName → Nat
  | .Default _ => 3
  | .Suffix _ => 2
  | .Sub _ _ => 1
  | .Full _ => 0

/-- `Ord`: by name first, then by kind. -/
def cmp (a b : WildcardName) : Ordering :=
  match a.name.cmp b.name with
  | .lt => .lt
  | .gt => .gt
  | .eq => compare a.ord b.ord

/-- The pattern with its name in lower case. -/
def toLowercase : WildcardName → WildcardName
  | .Default n => .Default n.toLowercase
  | .Suffix n => .Suffix n.toLowercase
  | .Sub w n => .Sub w n.toLowercase
  | .Full n => .Full n.toLowercase

theorem toLowercase_isFqdn (p : WildcardName) : p.toLowercase.name.isFqdn = p.name.isFqdn := by
  cases p <;> rfl

theorem setFqdn_isFqdn (p : WildcardName) (fqdn : Bool) : (p.setFqdn fqdn).name.isFqdn = fqdn := by
  cases p <;> rfl

theorem beq_iff {a b : WildcardName} : (a == b) = true ↔ a.toLowercase = b.toLowercase := by
  cases a <;> cases b <;>
    simp [BEq.beq, toLowercase, ← Name.beq_iff_toLowercase]

instance : EquivBEq WildcardName where
  rfl := beq_iff.mpr rfl
  symm h := beq_iff.mpr (beq_iff.mp h).symm
  trans h h' := beq_iff.mpr ((beq_iff.mp h).trans (beq_iff.mp h'))

end WildcardName

/-- What pattern lookup takes from the libraries it is built on. -/
structure NameLib (κ : Type) where
  hashPattern : WildcardName → κ
  hashName : Name → κ
  hashPattern_eq : ∀ p p', hashPattern p = hashPattern p' ↔ (p == p') = true
  hashName_eq : ∀ n n', hashName n = hashName n' ↔ (n == n') = true
  eqLabels : List Label → List Label → Bool
  eqLabels_refl : ∀ ls, eqLabels ls ls = true
  eqLabels_lower : ∀ ls ls', eqLabels ls ls' = true → ls.map lowerLabel = ls'.map lowerLabel
  wildcardMatch : List UInt8 → Label → Bool

section Matching

variable {κ : Type} (lib : NameLib κ)

def eqIgnoreRootCase (a b : Name) : Bool := lib.eqLabels a.labels b.labels

/-- `Wildcard::is_match`: the empty pattern matches every label. -/
def Wildcard.isMatch (w : Wildcard) (label : Label) : Bool :=
  if w.pattern.isEmpty then true else lib.wildcardMatch w.pattern label

def WildcardName.isMatch (p : WildcardName) (name : Name) : Bool :=
  match p with
  | .Default n => n.zoneOf name
  | .Suffix n => !eqIgnoreRootCase lib n name && n.zoneOf name
  | .Sub w n =>
    eqIgnoreRootCase lib n name.baseName &&
      (name.labels.head?.map fun label => w.isMatch lib label).getD true
  | .Full n => eqIgnoreRootCase lib n name

end Matching

/-! ## The map -/

/-- `DomainMap<T>`: bindings by hash code, the latest first. -/
structure DomainMap (κ T : Type) where
  map : List (κ × T)
  wildcards : List (κ × List WildcardName)

namespace DomainMap

variable {κ T : Type} [DecidableEq κ] (lib : NameLib κ)

def empty : DomainMap κ T := ⟨[], []⟩

/-- The value stored under a pattern's hash code. -/
def get (m : DomainMap κ T) (p : WildcardName) : Option T := m.map.lookup (lib.hashPattern p)

/-- The wildcard patterns stored under a name's hash code. -/
def wildcardsAt (m : DomainMap κ T) (n : Name) : List WildcardName :=
  (m.wildcards.lookup (lib.hashName n)).getD []

def insert (m : DomainMap κ T) (p : WildcardName) (value : T) : DomainMap κ T :=
  let name := p.setFqdn true
  { map := (lib.hashPattern name, value) :: m.map
    wildcards :=
      if name.isSub then
        (lib.hashName name.name, m.wildcardsAt lib name.name ++ [name]) :: m.wildcards
      else m.wildcards }

/-- One level of the climb and the levels above it. -/
def findLoop (m : DomainMap κ T) (lvl : Nat) (last : Name) (labels : List Label) : Option T :=
  let name : Name := ⟨labels, true⟩
  (if lvl = 0 then m.get lib (.Full name) else none).or <|
  (if lvl = 1 then
    (m.wildcardsAt lib name).findSome? fun w =>
      if w.isMatch lib last then m.get lib w else none
   else none).or <|
  (if lvl ≥ 1 then m.get lib (.Suffix name) else none).or <|
  (m.get lib (.Default name)).or <|
  match labels with
  | [] => none
  | _ :: rest => findLoop m (lvl + 1) name rest

/-- The name a lookup starts from. -/
def startName (name : Name) : Name := if name.isWildcard then name.baseName else name

def find (m : DomainMap κ T) (name : Name) : Option T :=
  if m.map.isEmpty then none
  else
    let name := startName name
    if name.isFqdn then m.findLoop lib 0 name name.labels
    else
      (m.get lib (.Full name)).or <| (m.get lib (.Default name)).or <|
        m.findLoop lib 0 name name.labels

/-- The map after inserting bindings in order. -/
def ofList (entries : List (WildcardName × T)) : DomainMap κ T :=
  entries.foldl (fun m e => m.insert lib e.1 e.2) empty

end DomainMap

/-! ## What the tables hold -/

section Tables

variable {κ T : Type} [DecidableEq κ] (lib : NameLib κ)

/-- The value bound last under a pattern. -/
def latest (entries : List (WildcardName × T)) (k : WildcardName) : Option T :=
  (entries.reverse.find? fun e => e.1.setFqdn true == k).map Prod.snd

theorem ofList_append (entries : List (WildcardName × T)) (e : WildcardName × T) :
    DomainMap.ofList lib (entries ++ [e]) = (DomainMap.ofList lib entries).insert lib e.1 e.2 := by
  simp [DomainMap.ofList]

theorem latest_append (entries : List (WildcardName × T)) (e : WildcardName × T)
    (k : WildcardName) :
    latest (entries ++ [e]) k = if e.1.setFqdn true == k then some e.2 else latest entries k := by
  unfold latest
  by_cases hKey : (e.1.setFqdn true == k) = true
  · simp [hKey]
  · simp [hKey]

/-- A table lookup returns the latest value inserted under the pattern. -/
theorem get_ofList (entries : List (WildcardName × T)) (k : WildcardName) :
    (DomainMap.ofList lib entries).get lib k = latest entries k := by
  induction entries using reverseRecOn with
  | nil => rfl
  | append_singleton entries e ih =>
    rw [ofList_append, latest_append]
    show lookup _ ((lib.hashPattern (e.1.setFqdn true), e.2) :: _) = _
    rw [lookup_cons]
    by_cases hKey : (e.1.setFqdn true == k) = true
    · have hHash : lib.hashPattern k = lib.hashPattern (e.1.setFqdn true) :=
        ((lib.hashPattern_eq _ _).mpr hKey).symm
      simp [hKey, hHash]
    · have hHash : lib.hashPattern k ≠ lib.hashPattern (e.1.setFqdn true) := by
        intro hEq
        exact hKey ((lib.hashPattern_eq _ _).mp hEq.symm)
      simp only [hKey, beq_eq_false_iff_ne.mpr hHash]
      exact ih

/-- The wildcard table lists the wildcard patterns of a name in order. -/
theorem wildcardsAt_ofList (entries : List (WildcardName × T)) (n : Name) :
    (DomainMap.ofList lib entries).wildcardsAt lib n =
      (entries.map fun e => e.1.setFqdn true).filter fun p => p.isSub && p.name == n := by
  induction entries using reverseRecOn with
  | nil => rfl
  | append_singleton entries e ih =>
    rw [ofList_append, map_append, filter_append, ← ih]
    unfold DomainMap.wildcardsAt DomainMap.insert
    dsimp only
    by_cases hSub : (e.1.setFqdn true).isSub = true
    · rw [if_pos hSub, lookup_cons]
      by_cases hName : ((e.1.setFqdn true).name == n) = true
      · have hHash : lib.hashName n = lib.hashName (e.1.setFqdn true).name :=
          ((lib.hashName_eq _ _).mpr hName).symm
        simp [hSub, hName, hHash, DomainMap.wildcardsAt]
      · have hHash : lib.hashName n ≠ lib.hashName (e.1.setFqdn true).name := by
          intro hEq
          exact hName ((lib.hashName_eq _ _).mp hEq.symm)
        simp [hName, beq_eq_false_iff_ne.mpr hHash]
    · simp [hSub]

end Tables

/-! ## The order of specificity -/

section Specificity

variable {κ : Type} (lib : NameLib κ)

/--
The rank of a pattern for a name, smaller for more specific; `none` when the
pattern does not apply. Patterns `l` levels above the name have ranks `3 l`,
`3 l + 1` and `3 l + 2`: an exact or wildcard pattern, a suffix pattern, a
default pattern.
-/
def rank (m : Name) : WildcardName → Option Nat
  | .Full n => if n.lowerLabels = m.lowerLabels then some 0 else none
  | .Sub w n => if m.labels ≠ [] ∧ (WildcardName.Sub w n).isMatch lib m then some 3 else none
  | .Suffix n =>
    if n.zoneOf m ∧ n.labels.length < m.labels.length then
      some (3 * (m.labels.length - n.labels.length) + 1)
    else none
  | .Default n =>
    if n.zoneOf m then some (3 * (m.labels.length - n.labels.length) + 2) else none

/-- The first pattern of a given rank. -/
def firstOfRank (ps : List WildcardName) (m : Name) (r : Nat) : Option WildcardName :=
  ps.find? fun p => decide (rank lib m p = some r)

/-- The first pattern of the smallest rank. -/
def mostSpecific (ps : List WildcardName) (m : Name) : Option WildcardName :=
  (List.range' 0 (3 * m.labels.length + 3)).findSome? (firstOfRank lib ps m)

@[simp] theorem lowerLabels_length (n : Name) : n.lowerLabels.length = n.labels.length := by
  simp [Name.lowerLabels]

variable {p : WildcardName} {x : Name}

theorem setFqdn_beq_Full (hx : x.isFqdn = true) :
    (p.setFqdn true == .Full x) = true ↔ ∃ n, p = .Full n ∧ n.lowerLabels = x.lowerLabels := by
  rw [WildcardName.beq_iff]
  cases p <;> simp [WildcardName.setFqdn, WildcardName.toLowercase, Name.toLowercase, hx]

theorem setFqdn_beq_Suffix (hx : x.isFqdn = true) :
    (p.setFqdn true == .Suffix x) = true ↔ ∃ n, p = .Suffix n ∧ n.lowerLabels = x.lowerLabels := by
  rw [WildcardName.beq_iff]
  cases p <;> simp [WildcardName.setFqdn, WildcardName.toLowercase, Name.toLowercase, hx]

theorem setFqdn_beq_Default (hx : x.isFqdn = true) :
    (p.setFqdn true == .Default x) = true ↔
      ∃ n, p = .Default n ∧ n.lowerLabels = x.lowerLabels := by
  rw [WildcardName.beq_iff]
  cases p <;> simp [WildcardName.setFqdn, WildcardName.toLowercase, Name.toLowercase, hx]

variable {m : Name} {l : Nat}

/-- Among the ancestors of a name, the distance determines the ancestor. -/
private theorem zoneOf_level_iff {n : Name} (hx : x.lowerLabels <:+ m.lowerLabels)
    (hl : x.labels.length + l = m.labels.length) :
    (n.zoneOf m = true ∧ m.labels.length - n.labels.length = l) ↔
      n.lowerLabels = x.lowerLabels := by
  rw [Name.zoneOf_iff]
  constructor
  · rintro ⟨hSuffix, hLevel⟩
    have hLen := hSuffix.length_le
    simp only [lowerLabels_length] at hLen
    have hSame : n.lowerLabels.length = x.lowerLabels.length := by
      simp only [lowerLabels_length]
      omega
    exact (suffix_of_suffix_length_le hSuffix hx (Nat.le_of_eq hSame)).eq_of_length hSame
  · intro hEq
    have hLen : n.labels.length = x.labels.length := by
      have hMap := congrArg length hEq
      simpa using hMap
    rw [hEq]
    exact ⟨hx, by omega⟩

/-- The patterns that apply to a name, each with what its rank says about it. -/
inductive Ranked (m : Name) : WildcardName → Nat → Prop where
  | full {n : Name} (hLabels : n.lowerLabels = m.lowerLabels)
      (hLen : n.labels.length = m.labels.length) : Ranked m (.Full n) 0
  | sub {w : Wildcard} {n : Name} (hMatch : (WildcardName.Sub w n).isMatch lib m = true)
      (hLabels : n.lowerLabels = m.lowerLabels.tail)
      (hLen : n.labels.length + 1 = m.labels.length) : Ranked m (.Sub w n) 3
  | suffix {n : Name} (hLabels : n.lowerLabels <:+ m.lowerLabels)
      (hLen : n.labels.length < m.labels.length) :
      Ranked m (.Suffix n) (3 * (m.labels.length - n.labels.length) + 1)
  | default {n : Name} (hLabels : n.lowerLabels <:+ m.lowerLabels)
      (hLen : n.labels.length ≤ m.labels.length) :
      Ranked m (.Default n) (3 * (m.labels.length - n.labels.length) + 2)

/-- The rank of a pattern says how it matches the name. -/
theorem ranked_of_rank {r : Nat} (h : rank lib m p = some r) : Ranked lib m p r := by
  cases p with
  | Full n =>
    obtain ⟨hLabels, hr⟩ := Option.ite_none_right_eq_some.mp h
    cases hr
    have hLen := congrArg length hLabels
    simp only [lowerLabels_length] at hLen
    exact .full hLabels hLen
  | Sub w n =>
    obtain ⟨⟨hm, hMatch⟩, hr⟩ := Option.ite_none_right_eq_some.mp h
    cases hr
    have hLabels : n.lowerLabels = m.lowerLabels.tail := by
      rw [← Name.baseName_lowerLabels]
      exact lib.eqLabels_lower _ _ (Bool.and_eq_true_iff.mp hMatch).1
    have hLen := congrArg length hLabels
    have hPos := length_pos_iff.mpr hm
    simp only [lowerLabels_length, length_tail] at hLen
    exact .sub hMatch hLabels (by omega)
  | Suffix n =>
    obtain ⟨⟨hZone, hLen⟩, hr⟩ := Option.ite_none_right_eq_some.mp h
    cases hr
    exact .suffix (Name.zoneOf_iff.mp hZone) hLen
  | Default n =>
    obtain ⟨hZone, hr⟩ := Option.ite_none_right_eq_some.mp h
    cases hr
    have hSuffix := Name.zoneOf_iff.mp hZone
    have hLen := hSuffix.length_le
    simp only [lowerLabels_length] at hLen
    exact .default hSuffix hLen

/-- The rank of a pattern tells its kind. -/
theorem rank_kind {r : Nat} (h : rank lib m p = some r) :
    match p with
    | .Full _ => r = 0
    | .Sub _ _ => r = 3
    | .Suffix _ => r % 3 = 1 ∧ 4 ≤ r
    | .Default _ => r % 3 = 2 := by
  cases ranked_of_rank lib h with
  | full | sub => rfl
  | suffix hLabels hLen => exact ⟨by omega, by omega⟩
  | default => omega

/-- Exact patterns of a name are the ones the first probe finds. -/
theorem rank_full_iff (hFqdn : x.isFqdn = true) (hx : x.lowerLabels = m.lowerLabels)
    (p : WildcardName) :
    rank lib m p = some 0 ↔ (p.setFqdn true == .Full x) = true := by
  rw [setFqdn_beq_Full hFqdn, hx]
  constructor
  · intro h
    cases ranked_of_rank lib h with
    | full hLabels => exact ⟨_, rfl, hLabels⟩
  · rintro ⟨n, rfl, hn⟩
    simp [rank, hn]

/-- Default patterns of a level are the ones a probe of that level finds. -/
theorem rank_default_iff (hFqdn : x.isFqdn = true) (hx : x.lowerLabels <:+ m.lowerLabels)
    (hl : x.labels.length + l = m.labels.length) (p : WildcardName) :
    rank lib m p = some (3 * l + 2) ↔ (p.setFqdn true == .Default x) = true := by
  rw [setFqdn_beq_Default hFqdn]
  constructor
  · intro h
    generalize hr : 3 * l + 2 = r at h
    cases ranked_of_rank lib h with
    | default hLabels =>
      exact ⟨_, rfl, (zoneOf_level_iff hx hl).mp ⟨Name.zoneOf_iff.mpr hLabels, by omega⟩⟩
    | full | sub | suffix => omega
  · rintro ⟨n, rfl, hn⟩
    obtain ⟨hZone, hLevel⟩ := (zoneOf_level_iff hx hl).mpr hn
    simp only [rank, hZone, if_true, hLevel]

/-- Suffix patterns of a level are the ones a probe of that level finds. -/
theorem rank_suffix_iff (hFqdn : x.isFqdn = true) (hx : x.lowerLabels <:+ m.lowerLabels)
    (hl : x.labels.length + l = m.labels.length) (hPos : 1 ≤ l) (p : WildcardName) :
    rank lib m p = some (3 * l + 1) ↔ (p.setFqdn true == .Suffix x) = true := by
  rw [setFqdn_beq_Suffix hFqdn]
  constructor
  · intro h
    generalize hr : 3 * l + 1 = r at h
    cases ranked_of_rank lib h with
    | suffix hLabels =>
      exact ⟨_, rfl, (zoneOf_level_iff hx hl).mp ⟨Name.zoneOf_iff.mpr hLabels, by omega⟩⟩
    | full | sub | default => omega
  · rintro ⟨n, rfl, hn⟩
    obtain ⟨hZone, hLevel⟩ := (zoneOf_level_iff hx hl).mpr hn
    have hBelow : n.labels.length < m.labels.length := by omega
    simp [rank, hZone, hBelow, hLevel]

/-- No pattern has a rank that the climb does not probe. -/
theorem rank_ne_one (m : Name) (p : WildcardName) : rank lib m p ≠ some 1 := by
  intro h
  have hKind := rank_kind lib h
  cases p <;> simp at hKind

theorem rank_ne_triple (m : Name) (p : WildcardName) (hl : 2 ≤ l) :
    rank lib m p ≠ some (3 * l) := by
  intro h
  have hKind := rank_kind lib h
  cases p <;> simp only at hKind <;> omega

/-- Wildcard patterns that match a name are kept under its parent. -/
theorem rank_sub_iff (hFqdn : x.isFqdn = true) (hx : x.lowerLabels = m.lowerLabels.tail)
    (hm : m.labels ≠ []) (p : WildcardName) :
    rank lib m p = some 3 ↔
      ((p.setFqdn true).isSub && (p.setFqdn true).name == x) = true ∧ p.isMatch lib m = true := by
  constructor
  · intro h
    generalize hr : 3 = r at h
    cases ranked_of_rank lib h with
    | sub hMatch hLabels =>
      refine ⟨?_, hMatch⟩
      simp only [WildcardName.setFqdn, WildcardName.isSub, WildcardName.name, Bool.true_and,
        Name.beq_iff, Name.setFqdn_isFqdn, Name.setFqdn_lowerLabels, hFqdn, true_and]
      rw [hx, hLabels]
    | full | suffix | default => omega
  · rintro ⟨hKept, hMatch⟩
    cases p with
    | Sub w n => simp [rank, hm, hMatch]
    | Default | Suffix | Full => simp [WildcardName.setFqdn, WildcardName.isSub] at hKept

/-- Matching looks at labels only, so the root dot is irrelevant to it. -/
theorem isMatch_setFqdn (p : WildcardName) (m : Name) :
    (p.setFqdn true).isMatch lib ⟨m.labels, true⟩ = p.isMatch lib m := by
  cases p <;> rfl

end Specificity

/-! ## Lookup returns the most specific pattern -/

section Lookup

variable {κ T : Type} (lib : NameLib κ)

/-- The value bound last under a pattern of the configuration. -/
def valueOf (entries : List (WildcardName × T)) (p : WildcardName) : Option T :=
  latest entries (p.setFqdn true)

variable {k : WildcardName}

/-- Equal patterns have the same latest value. -/
theorem latest_congr (entries : List (WildcardName × T)) {k' : WildcardName}
    (h : (k == k') = true) :
    latest entries k = latest entries k' := by
  unfold latest
  have hFun : (fun e : WildcardName × T => e.1.setFqdn true == k) =
      fun e => e.1.setFqdn true == k' := by
    funext e
    rw [Bool.eq_iff_iff, WildcardName.beq_iff, WildcardName.beq_iff, WildcardName.beq_iff.mp h]
  rw [hFun]

theorem valueOf_isSome {entries : List (WildcardName × T)} {p : WildcardName}
    (hp : p ∈ entries.map Prod.fst) : ∃ v, valueOf entries p = some v := by
  obtain ⟨e, he, hep⟩ := mem_map.mp hp
  have hFound : (entries.reverse.find? fun e => e.1.setFqdn true == p.setFqdn true).isSome := by
    rw [find?_isSome]
    refine ⟨e, mem_reverse.mpr he, ?_⟩
    rw [hep]
    exact WildcardName.beq_iff.mpr rfl
  obtain ⟨e', he'⟩ := Option.isSome_iff_exists.mp hFound
  exact ⟨e'.2, by simp [valueOf, latest, he']⟩

variable {m : Name}

/-- A probe of one key finds the patterns of the rank it stands for. -/
theorem latest_eq_bind (entries : List (WildcardName × T)) {r : Nat}
    (h : ∀ p, rank lib m p = some r ↔ (p.setFqdn true == k) = true) :
    latest entries k = (firstOfRank lib (entries.map Prod.fst) m r).bind (valueOf entries) := by
  cases hFirst : firstOfRank lib (entries.map Prod.fst) m r with
  | none =>
    unfold latest
    rw [Option.bind_none, Option.map_eq_none_iff, find?_eq_none]
    intro e he hKey
    have hNone := find?_eq_none.mp hFirst e.1
      (mem_map_of_mem (mem_reverse.mp he))
    exact hNone (by simpa using (h e.1).mpr hKey)
  | some p =>
    have hRank : rank lib m p = some r := by simpa using find?_some hFirst
    exact (latest_congr entries ((h p).mp hRank)).symm

/-- No pattern of a rank means no value for it. -/
theorem bind_firstOfRank_none (ps : List WildcardName) {r : Nat} (h : ∀ p, rank lib m p ≠ some r)
    (f : WildcardName → Option T) :
    (firstOfRank lib ps m r).bind f = none := by
  have hNone : firstOfRank lib ps m r = none := by
    unfold firstOfRank
    rw [find?_eq_none]
    intro p _
    simpa using h p
  rw [hNone, Option.bind_none]

/-- The scan of the wildcard list finds the first wildcard pattern that matches. -/
theorem findSome_wildcards (entries : List (WildcardName × T)) {x : Name} (hFqdn : x.isFqdn = true)
    (hx : x.lowerLabels = m.lowerLabels.tail) (hm : m.labels ≠ []) (ps : List WildcardName)
    (hps : ∀ p ∈ ps, p ∈ entries.map Prod.fst) :
    ((ps.map fun p => p.setFqdn true).filter fun p => p.isSub && p.name == x).findSome?
        (fun w => if w.isMatch lib ⟨m.labels, true⟩ then latest entries w else none) =
      (firstOfRank lib ps m 3).bind (valueOf entries) := by
  induction ps with
  | nil => rfl
  | cons p ps ih =>
    have hRest := ih fun q hq => hps q (mem_cons_of_mem p hq)
    have hRank := rank_sub_iff lib hFqdn hx hm p
    obtain ⟨v, hv⟩ := valueOf_isSome (hps p mem_cons_self)
    have hLatest : latest entries (p.setFqdn true) = some v := hv
    unfold firstOfRank at hRest ⊢
    rw [map_cons, filter_cons, find?_cons]
    by_cases hKept : ((p.setFqdn true).isSub && (p.setFqdn true).name == x) = true
    · rw [if_pos hKept, findSome?_cons, isMatch_setFqdn lib]
      by_cases hMatch : p.isMatch lib m = true
      · have hThree : rank lib m p = some 3 := hRank.mpr ⟨hKept, hMatch⟩
        simp [hMatch, hThree, hLatest, hv]
      · have hThree : rank lib m p ≠ some 3 := fun hEq => hMatch (hRank.mp hEq).2
        simp only [hMatch, hThree]
        exact hRest
    · have hThree : rank lib m p ≠ some 3 := fun hEq => hKept (hRank.mp hEq).1
      rw [if_neg hKept]
      simp only [hThree]
      exact hRest

/-- The value of the most specific pattern for a name. -/
def lookupSpec (entries : List (WildcardName × T)) (m : Name) : Option T :=
  (mostSpecific lib (entries.map Prod.fst) m).bind (valueOf entries)

private theorem findSome_cons_or {α β : Type} (f : α → Option β) (x : α) (xs : List α) :
    (x :: xs).findSome? f = (f x).or (xs.findSome? f) := by
  rw [findSome?_cons]
  cases f x <;> rfl

/-- Every pattern found has a value, so taking values commutes with searching. -/
private theorem findSome_bind_valueOf (entries : List (WildcardName × T)) (m : Name)
    (rs : List Nat) :
    (rs.findSome? (firstOfRank lib (entries.map Prod.fst) m)).bind (valueOf entries) =
      rs.findSome? fun r =>
        (firstOfRank lib (entries.map Prod.fst) m r).bind (valueOf entries) := by
  induction rs with
  | nil => rfl
  | cons r rs ih =>
    rw [findSome_cons_or, findSome_cons_or, ← ih]
    cases hFirst : firstOfRank lib (entries.map Prod.fst) m r with
    | none => rfl
    | some p =>
      obtain ⟨v, hv⟩ := valueOf_isSome (mem_of_find?_eq_some hFirst)
      simp [hv]

theorem lookupSpec_nil (m : Name) : lookupSpec (T := T) lib [] m = none := by
  have hNone : mostSpecific lib [] m = none := by
    unfold mostSpecific
    rw [findSome?_eq_none_iff]
    intro r _
    rfl
  simp [lookupSpec, hNone]

variable [DecidableEq κ]

/-- The probes of one level stand for three consecutive ranks. -/
theorem level_probes (entries : List (WildcardName × T)) (m last : Name)
    (front labels : List Label) (hm : m.labels = front ++ labels)
    (hLast : front.length = 1 → last = ⟨m.labels, true⟩) (above : Option T) :
    ((if front.length = 0 then (DomainMap.ofList lib entries).get lib (.Full ⟨labels, true⟩)
        else none).or <|
      (if front.length = 1 then
        ((DomainMap.ofList lib entries).wildcardsAt lib ⟨labels, true⟩).findSome? fun w =>
          if w.isMatch lib last then (DomainMap.ofList lib entries).get lib w else none
        else none).or <|
      (if front.length ≥ 1 then (DomainMap.ofList lib entries).get lib (.Suffix ⟨labels, true⟩)
        else none).or <|
      ((DomainMap.ofList lib entries).get lib (.Default ⟨labels, true⟩)).or above) =
    (((firstOfRank lib (entries.map Prod.fst) m (3 * front.length)).bind (valueOf entries)).or <|
      ((firstOfRank lib (entries.map Prod.fst) m (3 * front.length + 1)).bind
        (valueOf entries)).or <|
      ((firstOfRank lib (entries.map Prod.fst) m (3 * front.length + 2)).bind
        (valueOf entries)).or above) := by
  have hLower : m.lowerLabels = front.map lowerLabel ++ labels.map lowerLabel := by
    simp [Name.lowerLabels, hm]
  have hx : (Name.mk labels true).lowerLabels <:+ m.lowerLabels := by
    rw [hLower]
    exact suffix_append _ _
  have hl : (Name.mk labels true).labels.length + front.length = m.labels.length := by
    rw [hm, length_append]
    exact Nat.add_comm _ _
  have hDefault := latest_eq_bind lib entries
    (rank_default_iff lib (x := ⟨labels, true⟩) rfl hx hl)
  simp only [get_ofList, wildcardsAt_ofList, hDefault]
  cases front with
  | nil =>
    have hFull := latest_eq_bind lib entries
      (rank_full_iff lib (m := m) (x := ⟨labels, true⟩) rfl
        (by simp [Name.lowerLabels, hm]))
    have hOne := bind_firstOfRank_none lib (entries.map Prod.fst)
      (rank_ne_one lib m) (valueOf entries)
    simp [hFull, hOne]
  | cons a front =>
    have hSuffix := latest_eq_bind lib entries
      (rank_suffix_iff lib (x := ⟨labels, true⟩) rfl hx hl (by simp))
    cases front with
    | nil =>
      have hTail : (Name.mk labels true).lowerLabels = m.lowerLabels.tail := by
        simp [Name.lowerLabels, hm]
      have hSub := findSome_wildcards lib entries rfl hTail
        (by simp [hm]) (entries.map Prod.fst) (fun p hp => hp)
      rw [map_map] at hSub
      have hIs : last = ⟨m.labels, true⟩ := hLast rfl
      subst hIs
      simp only [hSuffix]
      simp only [length_cons]
      rw [if_neg (by omega), Option.none_or]
      congr 1
    | cons b front =>
      have hTriple := bind_firstOfRank_none lib (entries.map Prod.fst)
        (fun p => rank_ne_triple lib m p (l := (a :: b :: front).length)
          (by simp)) (valueOf entries)
      rw [hTriple, hSuffix]
      simp

/--
The climb from level `l` on sees the ranks from `3 l` on. The induction is on
the labels still above the current name; `front` holds the labels below it.
-/
theorem findLoop_ofList (entries : List (WildcardName × T)) (m : Name) (labels : List Label) :
    ∀ (front : List Label) (last : Name), m.labels = front ++ labels →
      (front.length = 1 → last = ⟨m.labels, true⟩) →
      (DomainMap.ofList lib entries).findLoop lib front.length last labels =
        (range' (3 * front.length) (3 * labels.length + 3)).findSome? fun r =>
          (firstOfRank lib (entries.map Prod.fst) m r).bind (valueOf entries) := by
  induction labels with
  | nil =>
    intro front last hm hLast
    unfold DomainMap.findLoop
    rw [level_probes lib entries m last front [] hm hLast]
    simp [range'_succ, findSome_cons_or]
  | cons label rest ih =>
    intro front last hm hLast
    have hNext := ih (front ++ [label]) ⟨label :: rest, true⟩ (by simp [hm]) (by
      intro hLen
      have hNil : front = [] := by simpa using hLen
      simp [hm, hNil])
    rw [length_append, length_singleton] at hNext
    unfold DomainMap.findLoop
    dsimp only
    rw [level_probes lib entries m last front (label :: rest) hm hLast, hNext]
    have hRange : range' (3 * front.length) (3 * (label :: rest).length + 3) =
        3 * front.length :: (3 * front.length + 1) :: (3 * front.length + 2) ::
          range' (3 * (front.length + 1)) (3 * rest.length + 3) := by
      rfl
    rw [hRange]
    simp [findSome_cons_or]

/-- The climb from a name on. -/
theorem findLoop_eq_lookupSpec (entries : List (WildcardName × T)) (q : Name) :
    (DomainMap.ofList lib entries).findLoop lib 0 q q.labels = lookupSpec lib entries q := by
  have hLoop := findLoop_ofList lib entries q q.labels [] q rfl (by simp)
  rw [← findSome_bind_valueOf] at hLoop
  exact hLoop

/-- The empty map needs no climb: it would find nothing. -/
theorem find_ofList_eq_climb (entries : List (WildcardName × T)) (name : Name) :
    (DomainMap.ofList lib entries).find lib name =
      if (DomainMap.startName name).isFqdn then lookupSpec lib entries (DomainMap.startName name)
      else (latest entries (.Full (DomainMap.startName name))).or <|
        (latest entries (.Default (DomainMap.startName name))).or <|
          lookupSpec lib entries (DomainMap.startName name) := by
  unfold DomainMap.find
  split
  · rename_i hEmpty
    cases entries using reverseRecOn with
    | nil =>
      rw [lookupSpec_nil]
      split <;> rfl
    | append_singleton entries e =>
      rw [ofList_append] at hEmpty
      exact absurd hEmpty (by simp [DomainMap.insert])
  · dsimp only
    rw [get_ofList, get_ofList, findLoop_eq_lookupSpec]

/-- Patterns are stored with their root dot. -/
theorem latest_eq_none_of_relative (entries : List (WildcardName × T))
    (hRelative : k.name.isFqdn = false) : latest entries k = none := by
  have hOther : ∀ e ∈ entries.reverse, ¬(e.1.setFqdn true == k) = true := by
    intro e _ hSame
    have hNames := congrArg (fun p => p.name.isFqdn) (WildcardName.beq_iff.mp hSame)
    rw [WildcardName.toLowercase_isFqdn, WildcardName.toLowercase_isFqdn, hRelative] at hNames
    rw [WildcardName.setFqdn_isFqdn] at hNames
    cases hNames
  unfold latest
  rw [find?_eq_none.mpr hOther]
  rfl

/--
**Lookup is most specific**: for a fully qualified name, the map built from a
list of bindings returns the latest value of the most specific pattern.
-/
theorem find_ofList (entries : List (WildcardName × T)) (name : Name)
    (hFqdn : name.isFqdn = true) :
    (DomainMap.ofList lib entries).find lib name =
      lookupSpec lib entries (DomainMap.startName name) := by
  have hStart : (DomainMap.startName name).isFqdn = true := by
    unfold DomainMap.startName
    split
    · rfl
    · exact hFqdn
  rw [find_ofList_eq_climb, if_pos hStart]

end Lookup

end SmartDns.Ports.PatternMap
