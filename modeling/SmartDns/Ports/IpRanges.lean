import SmartDns.Ports.IpNetwork
import Mathlib.Data.List.Induction

/-!
# Maps over ranges of addresses

What stands behind `IpNetwork.IpMap`: a range map for each family, keyed by addresses whose
steps stop at both ends of the address space. Range maps are correct for such steps, and then
the pair answers as the list of the inserted networks does.
-/

namespace SmartDns.Ports.IpRanges

open DnsMessage IpNetwork

variable {w : Nat} {T : Type}

/-! ## Range maps -/

/-- The steps between neighbouring keys. -/
structure StepLite (w : Nat) where
  addOne : BitVec w → BitVec w
  subOne : BitVec w → BitVec w

/-- The steps are successor and predecessor, except that they stay at the ends. -/
def StepLite.Saturates (steps : StepLite w) : Prop :=
  ∀ k, (steps.addOne k).toNat = min (k.toNat + 1) (2 ^ w - 1) ∧
    (steps.subOne k).toNat = k.toNat - 1

/-- A range map over keys with given steps, correct if the steps saturate. -/
structure RangeInclusiveMap (steps : StepLite w) (T : Type) where
  Map : Type
  new : Map
  insert : Map → BitVec w → BitVec w → T → Map
  get : Map → BitVec w → Option T
  gaps : Map → BitVec w → BitVec w → List (BitVec w × BitVec w)
  overlaps : Map → BitVec w → BitVec w → Bool
  get_new : steps.Saturates → ∀ k, get new k = none
  get_insert : steps.Saturates → ∀ m lo hi v k, lo ≤ hi →
    get (insert m lo hi v) k = if lo ≤ k ∧ k ≤ hi then some v else get m k
  gaps_eq_nil : steps.Saturates → ∀ m lo hi, lo ≤ hi →
    (gaps m lo hi = [] ↔ ∀ k, lo ≤ k ∧ k ≤ hi → (get m k).isSome = true)
  overlaps_iff : steps.Saturates → ∀ m lo hi, lo ≤ hi →
    (overlaps m lo hi = true ↔ ∃ k, (lo ≤ k ∧ k ≤ hi) ∧ (get m k).isSome = true)

/-- Functions are such maps; a range of keys that has gaps is given as one. -/
instance (steps : StepLite w) : Inhabited (RangeInclusiveMap steps T) where
  default :=
    { Map := BitVec w → Option T
      new := fun _ => none
      insert := fun m lo hi v k => if lo ≤ k ∧ k ≤ hi then some v else m k
      get := fun m k => m k
      gaps := fun m lo hi =>
        if ∀ k, lo ≤ k ∧ k ≤ hi → (m k).isSome = true then [] else [(lo, hi)]
      overlaps := fun m lo hi => decide (∃ k, (lo ≤ k ∧ k ≤ hi) ∧ (m k).isSome = true)
      get_new := fun _ _ => rfl
      get_insert := fun _ _ _ _ _ _ _ => rfl
      gaps_eq_nil := fun _ _ _ _ _ => by simp [Option.isSome_iff_ne_none]
      overlaps_iff := fun _ _ _ _ _ => decide_eq_true_iff }

/-! ## Addresses as keys -/

/-- The steps of addresses, `saturating_add` and `saturating_sub`. -/
def keySteps (w : Nat) : StepLite w where
  addOne k := BitVec.ofNat w (min (k.toNat + 1) (2 ^ w - 1))
  subOne k := BitVec.ofNat w (k.toNat - 1)

theorem keySteps_saturates : (keySteps w).Saturates := by
  intro k
  have hLt := k.isLt
  simp only [keySteps, BitVec.toNat_ofNat]
  exact ⟨Nat.mod_eq_of_lt (by omega), Nat.mod_eq_of_lt (by omega)⟩

namespace RangeInclusiveMap

variable (r : RangeInclusiveMap (keySteps w) T) (m : r.Map) (net : Cidr w)

def insertNet (value : T) : r.Map := r.insert m net.network net.broadcast value

def containsNet : Bool := (r.gaps m net.network net.broadcast).isEmpty

def overlapNet : Bool := r.overlaps m net.network net.broadcast

/-- A network holds the addresses from its first to its last. -/
theorem containsAddr_iff_le (net : Cidr w) (k : BitVec w) :
    net.containsAddr k = true ↔ net.network ≤ k ∧ k ≤ net.broadcast := by
  rw [Cidr.containsAddr, Bool.and_eq_true, BitVec.ule_iff_le, BitVec.ule_iff_le]

theorem network_le_broadcast (net : Cidr w) : net.network ≤ net.broadcast := by
  rw [BitVec.le_def, Cidr.toNat_broadcast]
  exact Nat.le_add_right _ _

/-- Inserting a network sets the value of its addresses only. -/
theorem get_insertNet (value : T) (k : BitVec w) :
    r.get (r.insertNet m net value) k =
      if net.containsAddr k = true then some value else r.get m k := by
  simp only [containsAddr_iff_le]
  exact r.get_insert keySteps_saturates m _ _ value k (network_le_broadcast net)

/-- A network is contained when each of its addresses has a value. -/
theorem containsNet_iff :
    r.containsNet m net = true ↔ ∀ k, net.containsAddr k = true → (r.get m k).isSome = true := by
  simp only [containsAddr_iff_le]
  rw [containsNet, List.isEmpty_iff]
  exact r.gaps_eq_nil keySteps_saturates m _ _ (network_le_broadcast net)

/-- A network overlaps when one of its addresses has a value. -/
theorem overlapNet_iff :
    r.overlapNet m net = true ↔ ∃ k, net.containsAddr k = true ∧ (r.get m k).isSome = true := by
  simp only [containsAddr_iff_le]
  exact r.overlaps_iff keySteps_saturates m _ _ (network_le_broadcast net)

end RangeInclusiveMap

/-! ## Both families -/

variable (r4 : RangeInclusiveMap (keySteps 32) T) (r6 : RangeInclusiveMap (keySteps 128) T)

/-- The map of `ipset`, over the range maps of the two families. -/
structure IpMap where
  v4 : r4.Map
  v6 : r6.Map

namespace IpMap

open RangeInclusiveMap

variable {r4 r6} (m : IpMap r4 r6)

def get : IpAddr → Option T
  | .v4 addr => r4.get m.v4 addr
  | .v6 addr => r6.get m.v6 addr

def contains : IpNet → Bool
  | .v4 net => r4.containsNet m.v4 net
  | .v6 net => r6.containsNet m.v6 net

def overlap : IpNet → Bool
  | .v4 net => r4.overlapNet m.v4 net
  | .v6 net => r6.overlapNet m.v6 net

def insert (net : IpNet) (value : T) : IpMap r4 r6 :=
  match net with
  | .v4 net => { m with v4 := r4.insertNet m.v4 net value }
  | .v6 net => { m with v6 := r6.insertNet m.v6 net value }

def fromIter (nets : List (IpNet × T)) : IpMap r4 r6 :=
  nets.foldl (fun m e => m.insert e.1 e.2) ⟨r4.new, r6.new⟩

theorem get_insert (net : IpNet) (value : T) (ip : IpAddr) :
    (m.insert net value).get ip = if net.containsAddr ip = true then some value else m.get ip := by
  cases net <;> cases ip <;> first | rfl | exact get_insertNet ..

/-- The range maps answer for an address as the list of the networks does. -/
theorem get_fromIter (nets : List (IpNet × T)) (ip : IpAddr) :
    (fromIter nets : IpMap r4 r6).get ip = IpNetwork.IpMap.get nets ip := by
  induction nets using List.reverseRecOn with
  | nil => cases ip <;> simp [fromIter, get, IpNetwork.IpMap.get, get_new _ keySteps_saturates]
  | append_singleton nets e ih =>
    rw [fromIter, List.foldl_append, List.foldl_cons, List.foldl_nil, ← fromIter, get_insert, ih]
    cases h : e.1.containsAddr ip <;> simp [IpNetwork.IpMap.get, h]

theorem forall_ipAddr {P : IpAddr → Prop} :
    (∀ ip, P ip) ↔ (∀ k, P (.v4 k)) ∧ ∀ k, P (.v6 k) :=
  ⟨fun h => ⟨fun _ => h _, fun _ => h _⟩, fun h ip => ip.casesOn h.1 h.2⟩

theorem exists_ipAddr {P : IpAddr → Prop} :
    (∃ ip, P ip) ↔ (∃ k, P (.v4 k)) ∨ ∃ k, P (.v6 k) := by
  simpa [imp_iff_not_or] using not_congr (forall_ipAddr (P := fun ip => ¬P ip))

theorem contains_iff (net : IpNet) :
    m.contains net = true ↔ ∀ ip, net.containsAddr ip = true → (m.get ip).isSome = true := by
  cases net <;> simp [contains, containsNet_iff, forall_ipAddr, IpNet.containsAddr, get]

theorem overlap_iff (net : IpNet) :
    m.overlap net = true ↔ ∃ ip, net.containsAddr ip = true ∧ (m.get ip).isSome = true := by
  cases net <;> simp [overlap, overlapNet_iff, exists_ipAddr, IpNet.containsAddr, get]

/-- The last inserted network that contains an address gives its value. A network is contained
if all of its addresses are in inserted networks, and overlaps if one is. -/
theorem ipMap_semantics (nets : List (IpNet × T)) :
    (∀ ip, (fromIter nets : IpMap r4 r6).get ip =
      (nets.reverse.find? fun e => e.1.containsAddr ip).map Prod.snd) ∧
    (∀ net, (fromIter nets : IpMap r4 r6).contains net = true ↔
      ∀ ip, net.containsAddr ip = true → ∃ e ∈ nets, e.1.containsAddr ip = true) ∧
    ∀ net, (fromIter nets : IpMap r4 r6).overlap net = true ↔
      ∃ ip, net.containsAddr ip = true ∧ ∃ e ∈ nets, e.1.containsAddr ip = true := by
  have hCovered : ∀ ip, ((fromIter nets : IpMap r4 r6).get ip).isSome = true ↔
      ∃ e ∈ nets, e.1.containsAddr ip = true := by
    intro ip
    simp [get_fromIter, IpNetwork.IpMap.get]
  refine ⟨get_fromIter nets, fun net => ?_, fun net => ?_⟩
  · simp only [contains_iff, hCovered]
  · simp only [overlap_iff, hCovered]

end IpMap

end SmartDns.Ports.IpRanges
