import Mathlib.Data.BitVec

/-!
# Addresses, networks and what an address is for

Networks over addresses of any width, the special-purpose blocks of IPv4 and
IPv6, and the properties of an address as Python 3.12 reads them off the blocks.
An IPv4 address mapped into IPv6 has the properties of the IPv4 address.
-/

namespace IpAddresses

set_option autoImplicit false

/-! ## Networks -/

/-- A base address whose host bits are zero. -/
structure Network (width : Nat) where
  base : BitVec width
  prefixLength : Nat
  aligned : base &&& (BitVec.allOnes width <<< (width - prefixLength)) = base := by decide

def Network.netmask {width : Nat} (network : Network width) : BitVec width :=
  BitVec.allOnes width <<< (width - network.prefixLength)

def Network.contains {width : Nat} (network : Network width) (address : BitVec width) : Bool :=
  address &&& network.netmask == network.base

section Networks

variable {width : Nat} {network other : Network width} {address : BitVec width}

theorem contains_iff :
    network.contains address = true ↔ address &&& network.netmask = network.base := by
  simp [Network.contains]

theorem contains_base (network : Network width) : network.contains network.base = true :=
  contains_iff.mpr network.aligned

theorem netmask_and (shorter : network.prefixLength ≤ other.prefixLength) :
    other.netmask &&& network.netmask = network.netmask := by
  apply BitVec.eq_of_getLsbD_eq
  intro i inside
  simp only [Network.netmask, BitVec.getLsbD_and, BitVec.getLsbD_shiftLeft, BitVec.getLsbD_allOnes]
  by_cases low : i < width - network.prefixLength
  · simp [low]
  · have higher : ¬ i < width - other.prefixLength := by omega
    have within : i - (width - other.prefixLength) < width := by omega
    simp [low, higher, inside, within]

/-- A network that meets one of shorter prefix lies in it. -/
theorem base_of_common (shorter : network.prefixLength ≤ other.prefixLength)
    (one : network.contains address = true) (two : other.contains address = true) :
    network.contains other.base = true := by
  rw [contains_iff] at one two ⊢
  rw [← two, BitVec.and_assoc, netmask_and shorter, one]

/-- Neither network lies in the other. -/
def Network.apart (network other : Network width) : Bool :=
  !network.contains other.base && !other.contains network.base

/-- Networks are nested or have no address in common. -/
theorem apart_excludes (apart : network.apart other = true)
    (one : network.contains address = true) : other.contains address = false := by
  simp only [Network.apart, Bool.and_eq_true, Bool.not_eq_true'] at apart
  by_contra both
  have two : other.contains address = true := by simpa using both
  rcases Nat.le_total network.prefixLength other.prefixLength with shorter | shorter
  · simp [base_of_common shorter one two] at apart
  · simp [base_of_common shorter two one] at apart

theorem apart_excludes_all {networks : List (Network width)}
    (apart : networks.all network.apart = true) (one : network.contains address = true) :
    networks.any (·.contains address) = false := by
  rw [List.any_eq_false]
  intro other member
  rw [List.all_eq_true] at apart
  simp [apart_excludes (apart other member) one]

end Networks

/-! ## The properties of an address -/

/-- The properties `ipaddress` gives an address. -/
structure Properties where
  isLoopback : Bool
  isPrivate : Bool
  isLinkLocal : Bool
  isReserved : Bool
  isUnspecified : Bool
  isMulticast : Bool
  isGlobal : Bool
  deriving DecidableEq, Repr

def ipv4 (a b c d : Nat) : BitVec 32 := BitVec.ofNat 32 (((a * 256 + b) * 256 + c) * 256 + d)

def ipv6 (groups : List Nat) : BitVec 128 :=
  BitVec.ofNat 128 ((groups ++ List.replicate (8 - groups.length) 0).foldl
    (fun value group => value * 65536 + group) 0)

namespace Ipv4

def loopbackNetwork : Network 32 := { base := ipv4 127 0 0 0, prefixLength := 8 }
def linkLocalNetwork : Network 32 := { base := ipv4 169 254 0 0, prefixLength := 16 }
def reservedNetwork : Network 32 := { base := ipv4 240 0 0 0, prefixLength := 4 }
def multicastNetwork : Network 32 := { base := ipv4 224 0 0 0, prefixLength := 4 }

/-- The shared address space of carriers. -/
def publicNetwork : Network 32 := { base := ipv4 100 64 0 0, prefixLength := 10 }

def privateNetworks : List (Network 32) := [
  { base := ipv4 0 0 0 0, prefixLength := 8 },
  { base := ipv4 10 0 0 0, prefixLength := 8 },
  { base := ipv4 127 0 0 0, prefixLength := 8 },
  { base := ipv4 169 254 0 0, prefixLength := 16 },
  { base := ipv4 172 16 0 0, prefixLength := 12 },
  { base := ipv4 192 0 0 0, prefixLength := 24 },
  { base := ipv4 192 0 0 170, prefixLength := 31 },
  { base := ipv4 192 0 2 0, prefixLength := 24 },
  { base := ipv4 192 168 0 0, prefixLength := 16 },
  { base := ipv4 198 18 0 0, prefixLength := 15 },
  { base := ipv4 198 51 100 0, prefixLength := 24 },
  { base := ipv4 203 0 113 0, prefixLength := 24 },
  { base := ipv4 240 0 0 0, prefixLength := 4 },
  { base := ipv4 255 255 255 255, prefixLength := 32 }]

def privateExceptions : List (Network 32) := [
  { base := ipv4 192 0 0 9, prefixLength := 32 },
  { base := ipv4 192 0 0 10, prefixLength := 32 }]

def isPrivate (address : BitVec 32) : Bool :=
  privateNetworks.any (·.contains address) && privateExceptions.all fun n => !n.contains address

def properties (address : BitVec 32) : Properties where
  isLoopback := loopbackNetwork.contains address
  isPrivate := isPrivate address
  isLinkLocal := linkLocalNetwork.contains address
  isReserved := reservedNetwork.contains address
  isUnspecified := address == 0
  isMulticast := multicastNetwork.contains address
  isGlobal := !publicNetwork.contains address && !isPrivate address

end Ipv4

namespace Ipv6

def linkLocalNetwork : Network 128 := { base := ipv6 [0xfe80], prefixLength := 10 }
def multicastNetwork : Network 128 := { base := ipv6 [0xff00], prefixLength := 8 }

def reservedNetworks : List (Network 128) := [
  { base := ipv6 [0], prefixLength := 8 },
  { base := ipv6 [0x100], prefixLength := 8 },
  { base := ipv6 [0x200], prefixLength := 7 },
  { base := ipv6 [0x400], prefixLength := 6 },
  { base := ipv6 [0x800], prefixLength := 5 },
  { base := ipv6 [0x1000], prefixLength := 4 },
  { base := ipv6 [0x4000], prefixLength := 3 },
  { base := ipv6 [0x6000], prefixLength := 3 },
  { base := ipv6 [0x8000], prefixLength := 3 },
  { base := ipv6 [0xa000], prefixLength := 3 },
  { base := ipv6 [0xc000], prefixLength := 3 },
  { base := ipv6 [0xe000], prefixLength := 4 },
  { base := ipv6 [0xf000], prefixLength := 5 },
  { base := ipv6 [0xf800], prefixLength := 6 },
  { base := ipv6 [0xfe00], prefixLength := 9 }]

def privateNetworks : List (Network 128) := [
  { base := ipv6 [0, 0, 0, 0, 0, 0, 0, 1], prefixLength := 128 },
  { base := ipv6 [0], prefixLength := 128 },
  { base := ipv6 [0, 0, 0, 0, 0, 0xffff], prefixLength := 96 },
  { base := ipv6 [0x64, 0xff9b, 1], prefixLength := 48 },
  { base := ipv6 [0x100], prefixLength := 64 },
  { base := ipv6 [0x2001], prefixLength := 23 },
  { base := ipv6 [0x2001, 0xdb8], prefixLength := 32 },
  { base := ipv6 [0x2002], prefixLength := 16 },
  { base := ipv6 [0x3fff], prefixLength := 20 },
  { base := ipv6 [0xfc00], prefixLength := 7 },
  { base := ipv6 [0xfe80], prefixLength := 10 }]

def privateExceptions : List (Network 128) := [
  { base := ipv6 [0x2001, 1, 0, 0, 0, 0, 0, 1], prefixLength := 128 },
  { base := ipv6 [0x2001, 1, 0, 0, 0, 0, 0, 2], prefixLength := 128 },
  { base := ipv6 [0x2001, 3], prefixLength := 32 },
  { base := ipv6 [0x2001, 4, 0x112], prefixLength := 48 },
  { base := ipv6 [0x2001, 0x20], prefixLength := 28 },
  { base := ipv6 [0x2001, 0x30], prefixLength := 28 }]

/-- The IPv4 address that `::ffff:0:0/96` maps. -/
def ipv4Mapped (address : BitVec 128) : Option (BitVec 32) :=
  if address >>> 32 = 0xffff then some (address.setWidth 32) else none

def isPrivate (address : BitVec 128) : Bool :=
  privateNetworks.any (·.contains address) && privateExceptions.all fun n => !n.contains address

def properties (address : BitVec 128) : Properties :=
  match ipv4Mapped address with
  | some mapped => Ipv4.properties mapped
  | none => {
      isLoopback := address == 1
      isPrivate := isPrivate address
      isLinkLocal := linkLocalNetwork.contains address
      isReserved := reservedNetworks.any (·.contains address)
      isUnspecified := address == 0
      isMulticast := multicastNetwork.contains address
      isGlobal := !isPrivate address }

end Ipv6

inductive IpAddress where
  | v4 (address : BitVec 32)
  | v6 (address : BitVec 128)
  deriving DecidableEq, Repr

def IpAddress.properties : IpAddress → Properties
  | .v4 address => Ipv4.properties address
  | .v6 address => Ipv6.properties address

/-! ## The shared address space -/

/-- `100.64.0.0/10`, mapped into IPv6 or not. -/
def IpAddress.shared : IpAddress → Bool
  | .v4 address => Ipv4.publicNetwork.contains address
  | .v6 address => (Ipv6.ipv4Mapped address).any Ipv4.publicNetwork.contains

/-- The shared address space lies outside all other blocks of IPv4. -/
theorem shared_properties {address : BitVec 32}
    (shared : Ipv4.publicNetwork.contains address = true) :
    Ipv4.properties address = {
      isLoopback := false
      isPrivate := false
      isLinkLocal := false
      isReserved := false
      isUnspecified := false
      isMulticast := false
      isGlobal := false } := by
  have outside (other : Network 32) (apart : Ipv4.publicNetwork.apart other = true) :
      other.contains address = false := apart_excludes apart shared
  have listed : Ipv4.privateNetworks.any (·.contains address) = false :=
    apart_excludes_all (by decide) shared
  have nonzero : (address == 0) = false := by
    rw [beq_eq_false_iff_ne]
    rintro rfl
    exact absurd shared (by decide)
  simp only [Ipv4.properties, Ipv4.isPrivate, listed, nonzero, shared,
    outside Ipv4.loopbackNetwork (by decide), outside Ipv4.linkLocalNetwork (by decide),
    outside Ipv4.reservedNetwork (by decide), outside Ipv4.multicastNetwork (by decide)]
  rfl

theorem shared_is_special {ip : IpAddress} (shared : ip.shared = true) :
    ip.properties = Ipv4.properties (ipv4 100 64 0 0) := by
  have base := shared_properties (contains_base Ipv4.publicNetwork)
  cases ip with
  | v4 address => exact (shared_properties shared).trans base.symm
  | v6 address =>
      simp only [IpAddress.shared] at shared
      simp only [IpAddress.properties, Ipv6.properties]
      cases mapped : Ipv6.ipv4Mapped address with
      | none => simp [mapped] at shared
      | some address =>
          rw [mapped] at shared
          exact (shared_properties shared).trans base.symm

/-- What is not private is global, outside the shared address space. -/
theorem global_iff (ip : IpAddress) :
    ip.properties.isGlobal = (!ip.shared && !ip.properties.isPrivate) := by
  cases ip with
  | v4 address => rfl
  | v6 address =>
      simp only [IpAddress.properties, IpAddress.shared, Ipv6.properties]
      cases Ipv6.ipv4Mapped address with
      | none => simp
      | some mapped => rfl

end IpAddresses
