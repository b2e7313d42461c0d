import SmartDns.Ports.OuterChain

/-!
# Names below the local domain

`local_domain_base` finds out by labels, and blind to letter case, whether a name is below the
local domain, and then takes the domain off the end of the name's text. The text has the case of
the letters and the root dot in it, so that a domain is taken off only if it is spelt in the name
as in the configuration. The root never is.

The layers of the chain use `OuterChain.localDomainBase`, which works on labels. It has the
result of the text version here, up to letter case.
-/

namespace SmartDns.Ports.LocalDomain

open DomainName List

/-- How names are written and read. -/
structure NameText where
  label : Label → List Char
  read : List Char → Option Name
  /-- The labels that are written character by character and without a dot: neither the empty one
  nor one in the encoding for other scripts. -/
  plain : Label → Prop
  ne : ∀ l, plain l → label l ≠ []
  noDot : ∀ l, plain l → '.' ∉ label l
  inj : ∀ l l', plain l → plain l' → label l = label l' → l = l'
  /-- Labels are read back, but for the case of their letters. -/
  back : ∀ ls, ls ≠ [] → (∀ l ∈ ls, plain l) →
    ∃ n, read (['.'].intercalate (ls.map label)) = some n ∧ n.lowerLabels = ls.map lowerLabel

def toUtf8 (text : NameText) (n : Name) : List Char :=
  ['.'].intercalate (n.labels.map text.label) ++ if n.isFqdn then ['.'] else []

def stripSuffix (s suffix : List Char) : Option (List Char) :=
  if suffix <:+ s then some (s.take (s.length - suffix.length)) else none

def localDomainBase (text : NameText) (name : Name) (suffix : Option Name) : Option Name := do
  let suffix ← suffix
  if !suffix.zoneOf name then none
  else
    let base ← stripSuffix (toUtf8 text name) ('.' :: toUtf8 text suffix)
    text.read base

/-- All labels of a name are plain. -/
def Plain (text : NameText) (n : Name) : Prop := ∀ l ∈ n.labels, text.plain l

/-! ## The pieces of a text between the dots -/

theorem stripSuffix_eq_some_iff {s suffix t : List Char} :
    stripSuffix s suffix = some t ↔ s = t ++ suffix := by
  unfold stripSuffix
  constructor
  · intro h
    obtain ⟨⟨front, rfl⟩, hTake⟩ := Option.ite_none_right_eq_some.mp h
    rw [length_append, Nat.add_sub_cancel, take_left] at hTake
    rw [Option.some.inj hTake]
  · rintro rfl
    rw [if_pos (suffix_append ..), length_append, Nat.add_sub_cancel, take_left]

theorem splitOn_append_dot (xs ys : List Char) :
    (xs ++ '.' :: ys).splitOn '.' = xs.splitOn '.' ++ ys.splitOn '.' :=
  splitOnP_append_cons xs ys (beq_self_eq_true _)

/-- An empty piece after the last dot. -/
def rootPiece (n : Name) : List (List Char) := if n.isFqdn then [[]] else []

variable {text : NameText} {n s : Name}

theorem splitOn_labels {ls : List Label} (hPlain : ∀ l ∈ ls, text.plain l) (hSome : ls ≠ []) :
    (['.'].intercalate (ls.map text.label)).splitOn '.' = ls.map text.label := by
  refine splitOn_intercalate '.' ?_ (by simpa using hSome)
  intro piece hPiece
  obtain ⟨l, hl, rfl⟩ := mem_map.mp hPiece
  exact text.noDot l (hPlain l hl)

/-- The text of a name splits at its dots into its labels. -/
theorem splitOn_toUtf8 (hPlain : Plain text n) (hSome : n.labels ≠ []) :
    (toUtf8 text n).splitOn '.' = n.labels.map text.label ++ rootPiece n := by
  unfold toUtf8 rootPiece
  cases n.isFqdn with
  | true => rw [if_pos rfl, if_pos rfl, splitOn_append_dot, splitOn_labels hPlain hSome]; rfl
  | false => simpa using splitOn_labels hPlain hSome

/-- No piece of a plain label is empty. -/
theorem nil_notMem_pieces (hPlain : Plain text n) : [] ∉ n.labels.map text.label := by
  intro hMem
  obtain ⟨l, hl, hEmpty⟩ := mem_map.mp hMem
  exact text.ne l (hPlain l hl) hEmpty

/-- The last piece tells whether there is a dot at the end. -/
theorem getLast?_pieces (hPlain : Plain text n) (hSome : n.labels ≠ []) (front : List (List Char)) :
    (front ++ (n.labels.map text.label ++ rootPiece n)).getLast? = some [] ↔ n.isFqdn = true := by
  unfold rootPiece
  cases n.isFqdn with
  | true => simp [← append_assoc]
  | false =>
    have hPieces : n.labels.map text.label ≠ [] := by simpa using hSome
    rw [if_neg Bool.false_ne_true, append_nil, getLast?_append_of_ne_nil _ hPieces]
    refine iff_of_false ?_ Bool.false_ne_true
    intro hLast
    exact nil_notMem_pieces hPlain (mem_of_getLast? hLast)

theorem labels_inj {ls ls' : List Label} (hPlain : ∀ l ∈ ls, text.plain l)
    (hPlain' : ∀ l ∈ ls', text.plain l) (h : ls.map text.label = ls'.map text.label) :
    ls = ls' := by
  induction ls generalizing ls' with
  | nil => exact (map_eq_nil_iff.mp h.symm).symm
  | cons l ls ih =>
    obtain ⟨l', rest, rfl, hHead, hTail⟩ := map_eq_cons_iff.mp h.symm
    rw [text.inj l' l (hPlain' l' (.head _)) (hPlain l (.head _)) hHead,
      ih (fun x hx => hPlain x (.tail _ hx)) (fun x hx => hPlain' x (.tail _ hx)) hTail.symm]

/-- A text is determined by its pieces. -/
theorem eq_of_splitOn {xs ys : List Char} (h : xs.splitOn '.' = ys.splitOn '.') : xs = ys := by
  calc xs = ['.'].intercalate (xs.splitOn '.') := (intercalate_splitOn '.').symm
    _ = ['.'].intercalate (ys.splitOn '.') := by rw [h]
    _ = ys := intercalate_splitOn '.'

/-- No text ends in two dots. -/
theorem no_empty_piece (hn : Plain text n) (front : List (List Char)) :
    n.labels.map text.label ++ rootPiece n ≠ front ++ [[], []] := by
  intro h
  apply nil_notMem_pieces hn
  unfold rootPiece at h
  cases hFqdn : n.isFqdn with
  | true =>
    rw [hFqdn, if_pos rfl, append_cons front] at h
    rw [append_cancel_right h]
    simp
  | false =>
    rw [hFqdn, if_neg Bool.false_ne_true, append_nil] at h
    rw [h]
    simp

theorem toUtf8_ne_nil (hs : Plain text s) (hText : s.labels ≠ [] ∨ s.isFqdn = true) :
    toUtf8 text s ≠ [] := by
  intro hNil
  by_cases hSome : s.labels = []
  · rw [toUtf8, hText.resolve_left (absurd hSome)] at hNil
    exact append_ne_nil_of_right_ne_nil _ (cons_ne_nil _ _) hNil
  · have hPieces := splitOn_toUtf8 hs hSome
    obtain ⟨l, ls, hLabels⟩ := exists_cons_of_ne_nil hSome
    rw [hNil, hLabels, map_cons, cons_append] at hPieces
    exact text.ne l (hs l (by simp [hLabels])) (cons.inj hPieces).1.symm

/-- The text of a name ends in a dot and the text of a domain if its labels end in those of the
domain, spelt alike and with the same dot at the end, and the domain is not the root. -/
theorem toUtf8_eq_iff (hn : Plain text n) (hs : Plain text s)
    (hText : s.labels ≠ [] ∨ s.isFqdn = true) {t : List Char} :
    toUtf8 text n = t ++ '.' :: toUtf8 text s ↔
      ∃ b, b ≠ [] ∧ s.labels ≠ [] ∧ n.labels = b ++ s.labels ∧ n.isFqdn = s.isFqdn ∧
        t = ['.'].intercalate (b.map text.label) := by
  constructor
  · intro h
    have hPieces := congrArg (splitOn '.') h
    rw [splitOn_append_dot] at hPieces
    have hSome : n.labels ≠ [] := by
      intro hNone
      have hShort := congrArg length h
      have hLong := length_pos_iff.mpr (toUtf8_ne_nil hs hText)
      rw [length_append, length_cons, toUtf8, hNone] at hShort
      cases hFqdn : n.isFqdn with
      | true =>
        simp only [hFqdn, map_nil, intercalate_nil, if_true, nil_append, length_singleton] at hShort
        omega
      | false => simp [hFqdn] at hShort
    rw [splitOn_toUtf8 hn hSome] at hPieces
    have hLabels : s.labels ≠ [] := by
      intro hNone
      have hRoot : toUtf8 text s = ['.'] := by
        rw [toUtf8, hNone, hText.resolve_left (absurd hNone)]
        rfl
      rw [hRoot] at hPieces
      exact no_empty_piece hn _ hPieces
    rw [splitOn_toUtf8 hs hLabels] at hPieces
    have hFqdn : n.isFqdn = s.isFqdn := by
      rw [Bool.eq_iff_iff, ← getLast?_pieces hn hSome [], ← getLast?_pieces hs hLabels
        (t.splitOn '.'), nil_append, hPieces]
    have hRoot : rootPiece n = rootPiece s := by rw [rootPiece, hFqdn, rootPiece]
    rw [hRoot, ← append_assoc] at hPieces
    obtain ⟨b, c, hSplit, hFront, hBack⟩ := map_eq_append_iff.mp (append_cancel_right hPieces)
    have hPlain : ∀ l ∈ c, text.plain l := fun l hl => hn l (hSplit ▸ mem_append_right b hl)
    rw [labels_inj hPlain hs hBack] at hSplit
    refine ⟨b, ?_, hLabels, hSplit, hFqdn, ?_⟩
    · rintro rfl
      exact splitOn_ne_nil _ _ hFront.symm
    · rw [hFront, intercalate_splitOn]
  · rintro ⟨b, hb, hLabels, hSplit, hFqdn, rfl⟩
    have hSome : n.labels ≠ [] := by simp [hSplit, hb]
    have hPlain : ∀ l ∈ b, text.plain l := fun l hl => hn l (hSplit ▸ mem_append_left _ hl)
    apply eq_of_splitOn
    rw [splitOn_append_dot, splitOn_toUtf8 hn hSome, splitOn_toUtf8 hs hLabels,
      splitOn_labels hPlain hb, hSplit, map_append, append_assoc, rootPiece, hFqdn, rootPiece]

/-! ## Text and labels -/

/-- A name that ends in a domain's labels lies in its zone. -/
theorem zoneOf_of_split {b : List Label} (hSplit : n.labels = b ++ s.labels) :
    s.zoneOf n = true := by
  rw [Name.zoneOf_iff, Name.lowerLabels, Name.lowerLabels, hSplit, map_append]
  exact suffix_append _ _

/-- The labels in front of the domain are left. -/
theorem labels_eq_some_iff {r : Name} :
    OuterChain.localDomainBase n (some s) = some r ↔
      ∃ b, b ≠ [] ∧ s.labels ≠ [] ∧ n.labels = b ++ s.labels ∧ n.isFqdn = s.isFqdn ∧
        r = ⟨b, false⟩ := by
  constructor
  · intro h
    simp only [OuterChain.localDomainBase, Option.bind_some, Option.ite_none_right_eq_some,
      Option.ite_none_left_eq_some, Bool.and_eq_true, Bool.or_eq_true, List.isEmpty_iff, not_or,
      decide_eq_true_eq, isSuffixOf_iff_suffix] at h
    obtain ⟨⟨⟨-, hFqdn⟩, b, hSplit⟩, ⟨hb, hLabels⟩, hr⟩ := h
    rw [← hSplit, length_append, Nat.add_sub_cancel, take_left] at hb hr
    exact ⟨b, hb, hLabels, hSplit.symm, hFqdn, (Option.some.inj hr).symm⟩
  · rintro ⟨b, hb, hLabels, hSplit, hFqdn, rfl⟩
    simp [OuterChain.localDomainBase, zoneOf_of_split hSplit, hFqdn, hSplit, hb, hLabels]

/-- The two ways to take the domain off have the same result, up to letter case. -/
theorem localDomainBase_labels (hn : Plain text n) (hs : Plain text s)
    (hText : s.labels ≠ [] ∨ s.isFqdn = true) :
    (localDomainBase text n (some s)).map Name.lowerLabels =
      (OuterChain.localDomainBase n (some s)).map Name.lowerLabels := by
  have hStrip := fun t => (stripSuffix_eq_some_iff (t := t)).trans (toUtf8_eq_iff hn hs hText)
  cases hLabels : OuterChain.localDomainBase n (some s) with
  | some r =>
    obtain ⟨b, hb, hSome, hSplit, hFqdn, rfl⟩ := labels_eq_some_iff.mp hLabels
    have hPlain : ∀ l ∈ b, text.plain l := fun l hl => hn l (hSplit ▸ mem_append_left _ hl)
    obtain ⟨r, hRead, hLower⟩ := text.back b hb hPlain
    have hTextual : localDomainBase text n (some s) = some r := by
      simp [localDomainBase, zoneOf_of_split hSplit, hRead,
        (hStrip _).mpr ⟨b, hb, hSome, hSplit, hFqdn, rfl⟩]
    rw [hTextual, Option.map_some, Option.map_some, hLower]
    rfl
  | none =>
    have hNone : stripSuffix (toUtf8 text n) ('.' :: toUtf8 text s) = none := by
      rw [Option.eq_none_iff_forall_ne_some]
      intro t hSome
      obtain ⟨b, hb, hSome, hSplit, hFqdn, -⟩ := (hStrip t).mp hSome
      exact absurd (labels_eq_some_iff.mpr ⟨b, hb, hSome, hSplit, hFqdn, rfl⟩) (by simp [hLabels])
    simp [localDomainBase, hNone]

/-- **The domain is taken off** a name below it, whatever the letter case and the dots at the end,
exactly if it is not the root and is written as in the name; and only a name below it loses
anything. -/
theorem localDomain_stripped (text : NameText) (n s : Name) (hn : Plain text n)
    (hs : Plain text s) (hText : s.labels ≠ [] ∨ s.isFqdn = true) :
    (∀ b, b ≠ [] → n.lowerLabels = b.map lowerLabel ++ s.lowerLabels →
      ((∃ r, localDomainBase text n (some s) = some r ∧ r.lowerLabels = b.map lowerLabel) ↔
        s.labels ≠ [] ∧ s.labels <:+ n.labels ∧ n.isFqdn = s.isFqdn)) ∧
    (¬(s.lowerLabels <:+ n.lowerLabels ∧ s.lowerLabels ≠ n.lowerLabels) →
      localDomainBase text n (some s) = none) := by
  have hSame := localDomainBase_labels hn hs hText
  refine ⟨?_, ?_⟩
  · intro b hb hBelow
    rw [← Option.map_eq_some_iff, hSame, Option.map_eq_some_iff]
    constructor
    · rintro ⟨r, hr, -⟩
      obtain ⟨front, -, hSome, hSplit, hFqdn, -⟩ := labels_eq_some_iff.mp hr
      exact ⟨hSome, ⟨front, hSplit.symm⟩, hFqdn⟩
    · rintro ⟨hSome, ⟨front, hSplit⟩, hFqdn⟩
      have hFront : front.map lowerLabel = b.map lowerLabel := by
        rw [Name.lowerLabels, ← hSplit, map_append] at hBelow
        exact append_cancel_right hBelow
      have hNe : front ≠ [] := by
        rintro rfl
        exact hb (map_eq_nil_iff.mp hFront.symm)
      exact ⟨⟨front, false⟩, labels_eq_some_iff.mpr ⟨front, hNe, hSome, hSplit.symm, hFqdn, rfl⟩,
        hFront⟩
  · intro hNot
    rw [← Option.map_eq_none_iff, hSame, Option.map_eq_none_iff,
      Option.eq_none_iff_forall_ne_some]
    intro r hr
    obtain ⟨b, hb, -, hSplit, -, -⟩ := labels_eq_some_iff.mp hr
    refine hNot ⟨Name.zoneOf_iff.mp (zoneOf_of_split hSplit), fun hEq => ?_⟩
    have hLength := congrArg length hEq
    simp only [Name.lowerLabels, length_map, hSplit, length_append] at hLength
    have hPos := length_pos_iff.mpr hb
    omega

/-! ## Host names -/

/-- The bytes of host names: letters, digits, hyphen and underscore. -/
def hostByte (b : UInt8) : Bool :=
  (97 ≤ b && b ≤ 122) || (65 ≤ b && b ≤ 90) || (48 ≤ b && b ≤ 57) || b == 45 || b == 95

def hostChar (b : UInt8) : Char := Char.ofNat b.toNat

def byteOf (c : Char) : UInt8 := UInt8.ofNat c.toNat

theorem byteOf_hostChar (b : UInt8) : byteOf (hostChar b) = b := by
  have hLt := b.toNat_lt
  have hValid : b.toNat.isValidChar := Or.inl (by omega)
  rw [byteOf, hostChar, Char.ofNat, dif_pos hValid]
  exact UInt8.ofNat_toNat

theorem byteOf_text (l : Label) : (l.map hostChar).map byteOf = l := by
  rw [map_map]
  exact (map_congr_left fun b _ => byteOf_hostChar b).trans (map_id _)

def hostLabel (l : Label) : Prop := l ≠ [] ∧ ∀ b ∈ l, hostByte b = true

theorem dot_notMem {l : Label} (h : hostLabel l) : '.' ∉ l.map hostChar := by
  intro hDot
  obtain ⟨b, hb, hEq⟩ := mem_map.mp hDot
  have hByte : b = 46 := by rw [← byteOf_hostChar b, hEq]; rfl
  have hHost := h.2 b hb
  rw [hByte] at hHost
  exact absurd hHost (by decide)

/-- Host names are written as they are, and read in lower case. A text that ends in a dot is that
of a fully qualified name. -/
def hostText : NameText where
  label l := l.map hostChar
  read text :=
    let pieces := text.splitOn '.'
    let labels := fun ps : List (List Char) => ps.map fun p => lowerLabel (p.map byteOf)
    if pieces.getLast? = some [] then some ⟨labels pieces.dropLast, true⟩
    else some ⟨labels pieces, false⟩
  plain := hostLabel
  ne l h := by simpa using h.1
  noDot _ h := dot_notMem h
  inj l l' _ _ h := by rw [← byteOf_text l, h, byteOf_text]
  back ls hSome hPlain := by
    have hPieces : (['.'].intercalate (ls.map fun l => l.map hostChar)).splitOn '.' =
        ls.map fun l => l.map hostChar := by
      refine splitOn_intercalate '.' ?_ (by simpa using hSome)
      intro piece hPiece
      obtain ⟨l, hl, rfl⟩ := mem_map.mp hPiece
      exact dot_notMem (hPlain l hl)
    have hLast : (ls.map fun l => l.map hostChar).getLast? ≠ some [] := by
      intro hEmpty
      obtain ⟨l, hl, hNil⟩ := mem_map.mp (mem_of_getLast? hEmpty)
      exact (hPlain l hl).1 (map_eq_nil_iff.mp hNil)
    dsimp only
    rw [hPieces, if_neg hLast]
    refine ⟨_, rfl, ?_⟩
    rw [Name.lowerLabels, map_map, map_map]
    refine map_congr_left fun l _ => ?_
    show lowerLabel (lowerLabel ((l.map hostChar).map byteOf)) = lowerLabel l
    rw [byteOf_text, lowerLabel_idem]

def host : Label := [104, 111, 115, 116]

def lan : Label := [108, 97, 110]

/-- `LAN`. -/
def upperLan : Label := [76, 65, 78]

theorem plain_host {ls : List Label} {fqdn : Bool}
    (h : ls.all (fun l => !l.isEmpty && l.all hostByte) = true) : Plain hostText ⟨ls, fqdn⟩ := by
  intro l hl
  have hBoth := all_eq_true.mp h l hl
  rw [Bool.and_eq_true] at hBoth
  exact ⟨by simpa using hBoth.1, all_eq_true.mp hBoth.2⟩

/-- `Host.my.lan.` below `lan.`: the labels in front are left, whatever their case. -/
theorem localDomain_stripped_host :
    ∃ r, localDomainBase hostText ⟨[[72, 111, 115, 116], [109, 121], lan], true⟩
        (some ⟨[lan], true⟩) = some r ∧ r.lowerLabels = [host, [109, 121]] :=
  ((localDomain_stripped hostText ⟨[[72, 111, 115, 116], [109, 121], lan], true⟩ ⟨[lan], true⟩
    (plain_host (by decide)) (plain_host (by decide)) (.inr rfl)).1 [host, [109, 121]]
    (cons_ne_nil _ _) (by decide)).mpr ⟨cons_ne_nil _ _, by decide, rfl⟩

/-- Neither `host.LAN` nor `host.lan.` loses the local domain `lan`, nor `host.` the root. -/
theorem localDomain_kept :
    localDomainBase hostText ⟨[host, upperLan], false⟩ (some ⟨[lan], false⟩) = none ∧
    localDomainBase hostText ⟨[host, lan], true⟩ (some ⟨[lan], false⟩) = none ∧
    localDomainBase hostText ⟨[host], true⟩ (some Name.root) = none := by
  decide

end SmartDns.Ports.LocalDomain
