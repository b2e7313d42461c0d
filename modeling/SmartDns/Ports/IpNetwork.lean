import SmartDns.Ports.DnsMessage
import Mathlib.Algebra.Group.Nat.Defs

/-!
# Networks and sets of addresses

Networks in prefix notation and the address-indexed maps built from them. A
network carries the bound on its prefix length, so that a length taken from a
packet becomes a network only through `Cidr.new`.

An `IpMap` answers for an address with the value of the network inserted last
among those that contain it, whichever way the ranges are stored.
-/

namespace SmartDns.Ports.IpNetwork

open DnsMessage

/-! ## Networks -/

/-- An address with the number of leading bits that identify its network. -/
structure Cidr (w : Nat) where
  addr : BitVec w
  prefixLen : Nat
  prefixLe : prefixLen ≤ w
  deriving DecidableEq

namespace Cidr

variable {w : Nat}

/-- The network of an address, unless the prefix is longer than the address. -/
def new (addr : BitVec w) (prefixLen : Nat) : Option (Cidr w) :=
  if h : prefixLen ≤ w then some ⟨addr, prefixLen, h⟩ else none

def netmask (n : Cidr w) : BitVec w := BitVec.allOnes w <<< (w - n.prefixLen)

/-- The first address of the network. -/
def network (n : Cidr w) : BitVec w := n.addr &&& n.netmask

/-- The last address of the network. -/
def broadcast (n : Cidr w) : BitVec w := n.addr ||| ~~~n.netmask

/-- The address lies between the first and the last. -/
def containsAddr (n : Cidr w) (addr : BitVec w) : Bool :=
  n.network.ule addr && addr.ule n.broadcast

def containsNet (n m : Cidr w) : Bool :=
  n.network.ule m.network && m.broadcast.ule n.broadcast

theorem toNat_shiftRight_shiftLeft (addr : BitVec w) (s : Nat) :
    ((addr >>> s) <<< s).toNat = addr.toNat / 2 ^ s * 2 ^ s := by
  rw [BitVec.toNat_shiftLeft, BitVec.toNat_ushiftRight, Nat.shiftLeft_eq, Nat.shiftRight_eq_div_pow]
  exact Nat.mod_eq_of_lt (Nat.lt_of_le_of_lt (Nat.div_mul_le_self _ _) addr.isLt)

theorem toNat_network (n : Cidr w) :
    n.network.toNat = n.addr.toNat / 2 ^ (w - n.prefixLen) * 2 ^ (w - n.prefixLen) := by
  have hShift : n.network = (n.addr >>> (w - n.prefixLen)) <<< (w - n.prefixLen) := by
    apply BitVec.eq_of_getLsbD_eq
    intro i hi
    unfold network netmask
    by_cases h : i < w - n.prefixLen
    · simp [h]
    · simp [h, hi, Nat.add_sub_cancel' (Nat.not_lt.mp h)]
  rw [hShift, toNat_shiftRight_shiftLeft]

theorem toNat_not_netmask (n : Cidr w) : (~~~n.netmask).toNat = 2 ^ (w - n.prefixLen) - 1 := by
  have hLow : ~~~n.netmask = BitVec.ofNat w (2 ^ (w - n.prefixLen) - 1) := by
    apply BitVec.eq_of_getLsbD_eq
    intro i hi
    unfold netmask
    rw [BitVec.getLsbD_ofNat, Nat.testBit_two_pow_sub_one]
    by_cases h : i < w - n.prefixLen
    · simp [h]
    · simp only [h]
      simp
      omega
  have hLe : 2 ^ (w - n.prefixLen) ≤ 2 ^ w := Nat.pow_le_pow_right (by decide) (Nat.sub_le _ _)
  have hPos : 0 < 2 ^ (w - n.prefixLen) := Nat.two_pow_pos _
  rw [hLow, BitVec.toNat_ofNat, Nat.mod_eq_of_lt (by omega)]

/-- The last address is the network's plus all the host bits. -/
theorem toNat_broadcast (n : Cidr w) :
    n.broadcast.toNat = n.network.toNat + (2 ^ (w - n.prefixLen) - 1) := by
  have hApart : n.network &&& ~~~n.netmask = 0#w := by
    unfold network
    rw [BitVec.and_assoc]
    simp
  have hSplit : n.broadcast = n.network ||| ~~~n.netmask := by
    unfold broadcast network
    apply BitVec.eq_of_getLsbD_eq
    intro i hi
    simp only [BitVec.getLsbD_or, BitVec.getLsbD_and, BitVec.getLsbD_not]
    cases n.netmask.getLsbD i <;> simp [hi]
  rw [hSplit, ← BitVec.add_eq_or_of_and_eq_zero _ _ hApart, BitVec.toNat_add_of_and_eq_zero hApart,
    toNat_not_netmask]

/-- An address is in the network if the two agree above the host bits. -/
theorem containsAddr_iff (n : Cidr w) (addr : BitVec w) :
    n.containsAddr addr = true ↔
      addr.toNat / 2 ^ (w - n.prefixLen) = n.addr.toNat / 2 ^ (w - n.prefixLen) := by
  have hPos : 0 < 2 ^ (w - n.prefixLen) := Nat.two_pow_pos _
  unfold containsAddr
  rw [Bool.and_eq_true, BitVec.ule_eq_decide, BitVec.ule_eq_decide, decide_eq_true_eq,
    decide_eq_true_eq, toNat_broadcast, toNat_network, Nat.div_eq_iff hPos]
  omega

end Cidr

/-- A network of either family. -/
inductive IpNet where
  | v4 (net : Cidr 32)
  | v6 (net : Cidr 128)
  deriving DecidableEq

namespace IpNet

def containsAddr : IpNet → IpAddr → Bool
  | .v4 n, .v4 addr => n.containsAddr addr
  | .v6 n, .v6 addr => n.containsAddr addr
  | _, _ => false

def containsNet : IpNet → IpNet → Bool
  | .v4 n, .v4 m => n.containsNet m
  | .v6 n, .v6 m => n.containsNet m
  | _, _ => false

end IpNet

/-! ## Maps and sets -/

/-- Values attached to networks, oldest first. -/
abbrev IpMap (T : Type) := List (IpNet × T)

namespace IpMap

variable {T : Type}

/-- The value of the last network that holds the address. -/
def get (m : IpMap T) (addr : IpAddr) : Option T :=
  (m.reverse.find? fun e => e.1.containsAddr addr).map Prod.snd

def insert (m : IpMap T) (net : IpNet) (value : T) : IpMap T := m ++ [(net, value)]

def contains (m : IpMap T) (addr : IpAddr) : Bool := (m.get addr).isSome

theorem mem_of_get {m : IpMap T} {addr : IpAddr} {value : T} (h : m.get addr = some value) :
    ∃ net, (net, value) ∈ m := by
  obtain ⟨⟨net, value'⟩, hFind, hEq⟩ := Option.map_eq_some_iff.mp h
  cases hEq
  exact ⟨net, List.mem_reverse.mp (List.mem_of_find?_eq_some hFind)⟩

end IpMap

abbrev IpSet := IpMap Unit

def IpSet.new (nets : List IpNet) : IpSet := nets.map fun net => (net, ())

end SmartDns.Ports.IpNetwork
