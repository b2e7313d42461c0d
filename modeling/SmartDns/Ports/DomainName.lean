import Mathlib.Data.List.Infix

/-!
# Domain names

The rule tree, the cache and the middlewares all compare owner names, and
they do not all compare them the same way. A name is a label sequence, most
specific label first, together with the flag that says whether it was written
with the root dot. Two spellings of one name differ only in ASCII letter case:

* `==` is the library's `PartialEq`, blind to letter case and sensitive to the
  root dot. Hash tables and the cache key names this way.
* `=` is identity, letter case included. It is what a client sees on the wire.

`zoneOf` and the total order `Name.cmp` are blind to letter case as well.
-/

namespace SmartDns.Ports.DomainName

/-- One label of a name, as raw bytes. -/
abbrev Label := List UInt8

def lowerByte (b : UInt8) : UInt8 :=
  if 65 ≤ b ∧ b ≤ 90 then b + 32 else b

def lowerLabel (l : Label) : Label := l.map lowerByte

/-- A domain name: its labels, most specific first, and its root-dot flag. -/
structure Name where
  labels : List Label
  isFqdn : Bool
  deriving DecidableEq

namespace Name

def root : Name := ⟨[], true⟩

/-- The labels of a name in lower case: what every case-blind comparison sees. -/
def lowerLabels (n : Name) : List Label := n.labels.map lowerLabel

def toLowercase (n : Name) : Name := ⟨n.lowerLabels, n.isFqdn⟩

/-- `PartialEq` of names: letter case is ignored, the root dot is not. -/
instance : BEq Name :=
  ⟨fun a b => decide (a.isFqdn = b.isFqdn) && decide (a.lowerLabels = b.lowerLabels)⟩

def isRoot (n : Name) : Bool := n.labels.isEmpty && n.isFqdn

/-- `Name::is_wildcard`: the first label is a lone asterisk. -/
def isWildcard (n : Name) : Bool := n.labels.head? == some [42]

def setFqdn (n : Name) (fqdn : Bool) : Name := ⟨n.labels, fqdn⟩

/--
`Name::base_name`: the name without its first label. It is rebuilt from
labels, which yields a fully qualified name, and the root is its own base.
-/
def baseName (n : Name) : Name := ⟨n.labels.tail, true⟩

/-- `Name::zone_of`: the labels of `n` are the last labels of `other`. -/
def zoneOf (n other : Name) : Bool := n.lowerLabels.isSuffixOf other.lowerLabels

/-- Bytes of two labels compared left to right. -/
def cmpLabel (a b : Label) : Ordering := List.compareLex compare a b

/--
`Ord` of names: names without a root dot come first, then labels are compared
from the root downwards in lower case, and an ancestor precedes its
descendants.
-/
def cmp (a b : Name) : Ordering :=
  match a.isFqdn, b.isFqdn with
  | true, false => .gt
  | false, true => .lt
  | _, _ => List.compareLex cmpLabel a.lowerLabels.reverse b.lowerLabels.reverse

/-- A fully qualified name from its labels, as ASCII text. -/
def ofLabels (ls : List String) : Name :=
  ⟨ls.map fun s => s.toList.map fun c => UInt8.ofNat c.toNat, true⟩

end Name

/-! ## Letter case -/

@[simp] theorem lowerByte_idem (b : UInt8) : lowerByte (lowerByte b) = lowerByte b := by
  unfold lowerByte
  by_cases h : 65 ≤ b ∧ b ≤ 90
  · have h' : ¬(65 ≤ b + 32 ∧ b + 32 ≤ 90) := by
      intro hAnd
      have h1 := UInt8.le_iff_toNat_le.mp h.1
      have h2 := UInt8.le_iff_toNat_le.mp h.2
      have h3 := UInt8.le_iff_toNat_le.mp hAnd.2
      rw [UInt8.toNat_add] at h3
      simp at h1 h2 h3
      omega
    simp [h, h']
  · simp [h]

@[simp] theorem lowerLabel_idem (l : Label) : lowerLabel (lowerLabel l) = lowerLabel l := by
  simp [lowerLabel, Function.comp_def]

namespace Name

@[simp] theorem toLowercase_lowerLabels (n : Name) : n.toLowercase.lowerLabels = n.lowerLabels := by
  simp [toLowercase, lowerLabels, Function.comp_def]

@[simp] theorem setFqdn_lowerLabels (n : Name) (fqdn : Bool) :
    (n.setFqdn fqdn).lowerLabels = n.lowerLabels := rfl

@[simp] theorem setFqdn_isFqdn (n : Name) (fqdn : Bool) :
    (n.setFqdn fqdn).isFqdn = fqdn := rfl

@[simp] theorem baseName_lowerLabels (n : Name) : n.baseName.lowerLabels = n.lowerLabels.tail := by
  simp [baseName, lowerLabels]

variable {a b : Name}

theorem beq_iff : (a == b) = true ↔ a.isFqdn = b.isFqdn ∧ a.lowerLabels = b.lowerLabels := by
  show (decide (a.isFqdn = b.isFqdn) && decide (a.lowerLabels = b.lowerLabels)) = true ↔ _
  simp

/-- Case-blind comparison is comparison of the lowercased names. -/
theorem beq_iff_toLowercase : (a == b) = true ↔ a.toLowercase = b.toLowercase := by
  rw [beq_iff]
  simp [toLowercase, and_comm]

instance : EquivBEq Name where
  rfl := beq_iff_toLowercase.mpr rfl
  symm h := beq_iff_toLowercase.mpr (beq_iff_toLowercase.mp h).symm
  trans h h' := beq_iff_toLowercase.mpr
    ((beq_iff_toLowercase.mp h).trans (beq_iff_toLowercase.mp h'))

/-- A name is a zone of another when its labels end the other's. -/
theorem zoneOf_iff : a.zoneOf b = true ↔ a.lowerLabels <:+ b.lowerLabels := by
  simp [zoneOf]

end Name

end SmartDns.Ports.DomainName
