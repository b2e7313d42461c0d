import SmartDns.Ports.SpecificMatch

/-!
# Collecting into a pattern map, and removing from it

`insert` stores a pattern with its root dot. `from_iter` and `remove` take patterns as they are
written, and hash codes tell the two spellings apart. So a pattern without the dot is collected
where no climb looks for it, and is not removed once it has been inserted.

What a collected map finds is therefore what the pairs with the dot say, but for a relative name
that is itself a pattern. And removing a pattern without the dot after inserting it removes
nothing.
-/

namespace SmartDns.Ports.MapUpdates

open DomainName PatternMap SpecificMatch List

variable {κ T : Type} [DecidableEq κ] (lib : NameLib κ)

/-- One pair of `DomainMap::from_iter`. -/
def collectPair (m : DomainMap κ T) (e : WildcardName × T) : DomainMap κ T where
  map := (lib.hashPattern e.1, e.2) :: m.map
  wildcards :=
    if e.1.isSub then
      (lib.hashName e.1.name, m.wildcardsAt lib e.1.name ++ [e.1]) :: m.wildcards
    else m.wildcards

def fromIter (entries : List (WildcardName × T)) : DomainMap κ T :=
  entries.foldl (collectPair lib) .empty

def remove (m : DomainMap κ T) (p : WildcardName) : DomainMap κ T where
  map := m.map.filter fun e => e.1 ≠ lib.hashPattern p
  wildcards :=
    if p.isSub then
      (lib.hashName p.name, (m.wildcardsAt lib p.name).filter fun w => !(w == p)) :: m.wildcards
    else m.wildcards

variable {lib} {m m' : DomainMap κ T} {p : WildcardName}

/-- The value of the last pair with a pattern, as it is written. -/
def written (entries : List (WildcardName × T)) (k : WildcardName) : Option T :=
  (entries.reverse.find? fun e => e.1 == k).map Prod.snd

theorem insert_eq (m : DomainMap κ T) (p : WildcardName) (v : T) :
    m.insert lib p v = collectPair lib m (p.setFqdn true, v) := rfl

theorem get_collectPair (m : DomainMap κ T) (e : WildcardName × T) (k : WildcardName) :
    (collectPair lib m e).get lib k = if e.1 == k then some e.2 else m.get lib k := by
  rw [DomainMap.get, collectPair, lookup_cons]
  by_cases hKey : (e.1 == k) = true
  · rw [if_pos hKey, (lib.hashPattern_eq e.1 k).mpr hKey, beq_self_eq_true]
  · have hHash : lib.hashPattern k ≠ lib.hashPattern e.1 := fun hEq =>
      hKey ((lib.hashPattern_eq e.1 k).mp hEq.symm)
    rw [if_neg hKey, beq_eq_false_iff_ne.mpr hHash]
    rfl

/-- A collected map holds what was written last for each pattern. -/
theorem get_fromIter (entries : List (WildcardName × T)) (k : WildcardName) :
    (fromIter lib entries).get lib k = written entries k := by
  induction entries using reverseRecOn with
  | nil => rfl
  | append_singleton entries e ih =>
    have hCollect : fromIter lib (entries ++ [e]) = collectPair lib (fromIter lib entries) e :=
      foldl_concat ..
    rw [hCollect, get_collectPair, ih, written, written, reverse_append]
    by_cases hKey : (e.1 == k) = true
    · simp [hKey]
    · simp [hKey]

variable {entries : List (WildcardName × T)}

/-- The pattern of all names below a top-level domain. -/
def below (fqdn : Bool) : WildcardName := .Default ((Name.ofLabels ["com"]).setFqdn fqdn)

end SmartDns.Ports.MapUpdates
