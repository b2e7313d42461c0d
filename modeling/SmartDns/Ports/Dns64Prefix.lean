import Mathlib.Data.Nat.Bitwise
import SmartDns.Ports.ConfigValues
import SmartDns.Ports.OuterChain

/-!
# Which prefixes DNS64 can embed an address in

`to_dns64` shifts the prefix to the top of the word and the IPv4 address to just
below it. Its arithmetic is in range if the prefix has at least one bit and
leaves at least 32; the parser of the option asks for neither, only for a length
the word has. The release build does not notice: it wraps the difference, takes
a shift modulo the width and hands out the address it got.

`toDns64Checked` is the same function with every operation checked, as in a
build that stops at an overflow.
-/

namespace SmartDns.Ports.Dns64Prefix

open IpNetwork OuterChain

/-! ## Checked arithmetic -/

section Checked

variable {w : Nat}

def checkedSub (a b : Nat) : Option Nat := if b ≤ a then some (a - b) else none

/-- A shift loses bits without complaint; only its distance is checked. -/
def checkedShl (x : BitVec w) (n : Nat) : Option (BitVec w) :=
  if n < w then some (x <<< n) else none

def checkedShr (x : BitVec w) (n : Nat) : Option (BitVec w) :=
  if n < w then some (x >>> n) else none

def checkedAdd (x y : BitVec w) : Option (BitVec w) :=
  if x.toNat + y.toNat < 2 ^ w then some (x + y) else none

end Checked

/-- `to_dns64` where an overflow is an error. -/
def toDns64Checked (net : Cidr 128) (ipv4 : BitVec 32) : Option (BitVec 128) := do
  let suffix ← checkedSub 128 net.prefixLen
  let v6 ← checkedShr net.addr suffix
  let v6 ← checkedShl v6 suffix
  let shift ← checkedSub suffix 32
  let v4 ← checkedShl (ipv4.setWidth 128) shift
  checkedAdd v4 v6

/-! ## Prefixes in range -/

variable {net : Cidr 128}

/-- The address that was embedded below the prefix. -/
def embedded (net : Cidr 128) (ipv6 : BitVec 128) : BitVec 32 :=
  (ipv6 >>> (96 - net.prefixLen)).setWidth 32

variable {s : Nat}

theorem mul_lt_suffix (ipv4 : BitVec 32) (hs : 32 ≤ s) : ipv4.toNat * 2 ^ (s - 32) < 2 ^ s := by
  calc ipv4.toNat * 2 ^ (s - 32) < 2 ^ 32 * 2 ^ (s - 32) :=
        Nat.mul_lt_mul_of_pos_right ipv4.isLt (Nat.two_pow_pos _)
    _ = 2 ^ s := by rw [← Nat.pow_add, Nat.add_sub_cancel' hs]

theorem toNat_below (ipv4 : BitVec 32) (hs : 32 ≤ s) (hs' : s ≤ 128) :
    (ipv4.setWidth 128 <<< (s - 32)).toNat = ipv4.toNat * 2 ^ (s - 32) := by
  have hLt : ipv4.toNat * 2 ^ (s - 32) < 2 ^ 128 :=
    Nat.lt_of_lt_of_le (mul_lt_suffix ipv4 hs) (Nat.pow_le_pow_right (by decide) hs')
  have hWide : (ipv4.setWidth 128).toNat = ipv4.toNat :=
    BitVec.toNat_setWidth_of_le (by decide)
  rw [BitVec.toNat_shiftLeft, hWide, Nat.shiftLeft_eq, Nat.mod_eq_of_lt hLt]

/-- The prefix and what stands below it fit the word together. -/
theorem add_lt (addr : BitVec 128) (ipv4 : BitVec 32) (hs : 32 ≤ s) (hs' : s ≤ 128) :
    ipv4.toNat * 2 ^ (s - 32) + addr.toNat / 2 ^ s * 2 ^ s < 2 ^ 128 := by
  have hQuot : addr.toNat / 2 ^ s < 2 ^ (128 - s) := by
    apply Nat.div_lt_of_lt_mul
    rw [← Nat.pow_add, Nat.add_sub_cancel' hs']
    exact addr.isLt
  calc ipv4.toNat * 2 ^ (s - 32) + addr.toNat / 2 ^ s * 2 ^ s
      < 2 ^ s + addr.toNat / 2 ^ s * 2 ^ s := Nat.add_lt_add_right (mul_lt_suffix ipv4 hs) _
    _ = (addr.toNat / 2 ^ s + 1) * 2 ^ s := by rw [Nat.succ_mul, Nat.add_comm]
    _ ≤ 2 ^ (128 - s) * 2 ^ s := Nat.mul_le_mul_right _ hQuot
    _ = 2 ^ 128 := by rw [← Nat.pow_add, Nat.sub_add_cancel hs']

/-- Within the room, an address and the prefix do not overlap. -/
theorem toDns64_eq (hPos : 1 ≤ net.prefixLen) (hRoom : net.prefixLen ≤ 96) (ipv4 : BitVec 32) :
    toDns64 net ipv4 = ipv4.setWidth 128 <<< (128 - net.prefixLen - 32) +
      (net.addr >>> (128 - net.prefixLen)) <<< (128 - net.prefixLen) := by
  have hSuffix : (128 - net.prefixLen) % 128 = 128 - net.prefixLen := Nat.mod_eq_of_lt (by omega)
  have hShift : (128 - net.prefixLen + 256 - 32) % 256 % 128 = 128 - net.prefixLen - 32 := by omega
  unfold toDns64
  simp only [hSuffix, hShift]

theorem toDns64_toNat (hPos : 1 ≤ net.prefixLen) (hRoom : net.prefixLen ≤ 96)
    (ipv4 : BitVec 32) :
    (toDns64 net ipv4).toNat = ipv4.toNat * 2 ^ (128 - net.prefixLen - 32) +
      net.addr.toNat / 2 ^ (128 - net.prefixLen) * 2 ^ (128 - net.prefixLen) := by
  have hSuffix : 32 ≤ 128 - net.prefixLen := by omega
  rw [toDns64_eq hPos hRoom, BitVec.toNat_add, Cidr.toNat_shiftRight_shiftLeft,
      toNat_below ipv4 hSuffix (Nat.sub_le _ _)]
  exact Nat.mod_eq_of_lt (add_lt net.addr ipv4 hSuffix (Nat.sub_le _ _))

/-- No operation is out of range, and both builds agree. -/
theorem toDns64Checked_eq (hPos : 1 ≤ net.prefixLen) (hRoom : net.prefixLen ≤ 96)
    (ipv4 : BitVec 32) : toDns64Checked net ipv4 = some (toDns64 net ipv4) := by
  have hSuffix : 32 ≤ 128 - net.prefixLen := by omega
  have hSum := add_lt net.addr ipv4 hSuffix (Nat.sub_le _ _)
  rw [← toNat_below ipv4 hSuffix (Nat.sub_le _ _), ← Cidr.toNat_shiftRight_shiftLeft] at hSum
  rw [toDns64_eq hPos hRoom]
  unfold toDns64Checked checkedSub checkedShr checkedShl checkedAdd
  simp only [if_pos net.prefixLe, Option.bind_eq_bind, Option.bind_some,
    if_pos (show 128 - net.prefixLen < 128 by omega), if_pos hSuffix,
    if_pos (show 128 - net.prefixLen - 32 < 128 by omega), if_pos hSum]

/-- A synthesised address lies in the prefix. -/
theorem containsAddr_toDns64 (hPos : 1 ≤ net.prefixLen) (hRoom : net.prefixLen ≤ 96)
    (ipv4 : BitVec 32) : net.containsAddr (toDns64 net ipv4) = true := by
  rw [Cidr.containsAddr_iff, toDns64_toNat hPos hRoom,
    Nat.add_mul_div_right _ _ (Nat.two_pow_pos _),
    Nat.div_eq_of_lt (mul_lt_suffix ipv4 (by omega)), Nat.zero_add]

/-- The IPv4 address is found again in the synthesised one. -/
theorem embedded_toDns64 (hPos : 1 ≤ net.prefixLen) (hRoom : net.prefixLen ≤ 96)
    (ipv4 : BitVec 32) : embedded net (toDns64 net ipv4) = ipv4 := by
  have hShift : 128 - net.prefixLen - 32 = 96 - net.prefixLen := by omega
  have hSplit : 2 ^ (128 - net.prefixLen) = 2 ^ 32 * 2 ^ (96 - net.prefixLen) := by
    rw [← Nat.pow_add]
    congr 1
    omega
  apply BitVec.eq_of_toNat_eq
  unfold embedded
  rw [BitVec.toNat_setWidth, BitVec.toNat_ushiftRight, Nat.shiftRight_eq_div_pow,
    toDns64_toNat hPos hRoom, hShift]
  -- above the 32 bits of the address there is a multiple of `2 ^ 32`, the prefix
  rw [hSplit, ← Nat.mul_assoc, ← Nat.add_mul, Nat.mul_div_cancel _ (Nat.two_pow_pos _),
    Nat.add_mul_mod_self_right]
  exact Nat.mod_eq_of_lt ipv4.isLt

/-! ## Prefixes out of range -/

/-- The prefix is shifted by the whole width. -/
theorem toDns64Checked_zero (hLen : net.prefixLen = 0) (ipv4 : BitVec 32) :
    toDns64Checked net ipv4 = none := by
  unfold toDns64Checked checkedSub checkedShr
  rw [hLen]
  rfl

/-- There are fewer than 32 bits below the prefix. -/
theorem toDns64Checked_long (hLen : 96 < net.prefixLen) (ipv4 : BitVec 32) :
    toDns64Checked net ipv4 = none := by
  unfold toDns64Checked checkedSub checkedShr checkedShl
  simp [if_pos net.prefixLe, if_neg (show ¬ 32 ≤ 128 - net.prefixLen by omega)]

/-! ## The prefixes DNS64 is right for -/

/-- What an operator who sets a prefix relies on. -/
structure Synthesises (net : Cidr 128) : Prop where
  /-- No operation overflows. -/
  exact : ∀ ipv4, toDns64Checked net ipv4 = some (toDns64 net ipv4)
  inside : ∀ ipv4, net.containsAddr (toDns64 net ipv4) = true
  recovered : ∀ ipv4, embedded net (toDns64 net ipv4) = ipv4
  distinct : Function.Injective (toDns64 net)

/-- A prefix can be used exactly when it leaves 32 bits and is not empty. -/
theorem synthesises_iff (net : Cidr 128) :
    Synthesises net ↔ 1 ≤ net.prefixLen ∧ net.prefixLen ≤ 96 := by
  constructor
  · intro hNet
    have hExact := hNet.exact 0#32
    constructor
    · by_contra hZero
      rw [toDns64Checked_zero (by omega)] at hExact
      simp at hExact
    · by_contra hLong
      rw [toDns64Checked_long (by omega)] at hExact
      simp at hExact
  · rintro ⟨hPos, hRoom⟩
    exact
      { exact := toDns64Checked_eq hPos hRoom
        inside := containsAddr_toDns64 hPos hRoom
        recovered := embedded_toDns64 hPos hRoom
        distinct := Function.LeftInverse.injective (embedded_toDns64 hPos hRoom) }

/-- A prefix one bit too long, the address of one host, and the whole space. -/
def longPrefix : Cidr 128 := ⟨0x0064ff9b000000000000000000000000#128, 97, by omega⟩

def hostPrefix : Cidr 128 := ⟨0x0064ff9b000000000000000000000001#128, 128, by omega⟩

def wholePrefix : Cidr 128 := ⟨0#128, 0, by omega⟩

/-- All three are accepted. Below the first, every address with the same last bit gets the same
IPv6 address, and the addresses made from the second are outside of its network. -/
theorem dns64_outOfRange :
    ConfigValues.ipv6Net.run "64:ff9b::/97".toList = some (longPrefix, []) ∧
      toDns64Checked longPrefix 1#32 = none ∧
      toDns64 longPrefix 0#32 = toDns64 longPrefix 2#32 ∧
      ConfigValues.ipv6Net.run "64:ff9b::1/128".toList = some (hostPrefix, []) ∧
      hostPrefix.containsAddr (toDns64 hostPrefix 1#32) = false ∧
      ConfigValues.ipv6Net.run "::/0".toList = some (wholePrefix, []) ∧
      toDns64Checked wholePrefix 1#32 = none := by
  decide +kernel

end SmartDns.Ports.Dns64Prefix
