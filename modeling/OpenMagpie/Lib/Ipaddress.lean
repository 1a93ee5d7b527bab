import Mathlib.Algebra.Group.Nat.Defs
import OpenMagpie.Lib.Url

/-!
# Addresses

The addresses of Python's `ipaddress`, what they are written from and as, and the ranges that its
predicates test.

* `Network`: a prefix; **`Network.not_contains_of_apart`**: two networks have no address in common.
* `Address`, `ipAddress`, `Address.toText`: an address, the parser and the printer.
* `Address.classify`: a predicate of both versions, which reads an IPv4-mapped address as the IPv4
  address; `classify_unmapped`.
* `Address.isPrivate`, `isLoopback`, `isLinkLocal`, `isMulticast`, `isReserved`, `isUnspecified`.
-/

set_option autoImplicit false

namespace Ipaddress

/-! ## Networks -/

section Networks

variable {w : ℕ}

/-- The mask of a prefix. -/
def netmask (w prefixLen : ℕ) : BitVec w := BitVec.allOnes w <<< (w - prefixLen)

theorem getLsbD_netmask {k i : ℕ} :
    (netmask w k).getLsbD i = (decide (i < w) && decide (w - k ≤ i)) := by
  rw [netmask, BitVec.getLsbD_shiftLeft, BitVec.getLsbD_allOnes]
  by_cases hi : i < w
  · by_cases hk : w - k ≤ i
    · simp [hi, hk, Nat.not_lt.mpr hk, Nat.lt_of_le_of_lt (Nat.sub_le i (w - k)) hi]
    · simp [hi, hk, Nat.not_le.mp hk]
  · simp [hi]

/-- The shorter of two masks. -/
theorem netmask_and_netmask {k l : ℕ} (h : k ≤ l) : netmask w l &&& netmask w k = netmask w k := by
  ext i hi
  rw [BitVec.getElem_and, ← BitVec.getLsbD_eq_getElem, ← BitVec.getLsbD_eq_getElem,
    getLsbD_netmask, getLsbD_netmask]
  by_cases hk : w - k ≤ i
  · have hl : w - l ≤ i := by omega
    simp [hi, hk, hl]
  · simp [hk]

variable (w) in
/-- A network: the addresses that agree with `address` under the mask; its host bits are zero. -/
structure Network where
  address : BitVec w
  prefixLen : ℕ
  host_bits : address &&& netmask w prefixLen = address := by decide

/-- `a in n`. -/
def Network.contains (n : Network w) (a : BitVec w) : Bool :=
  a &&& netmask w n.prefixLen = n.address

namespace Network

variable {n m : Network w} {a : BitVec w}

theorem contains_iff : n.contains a = true ↔ a &&& netmask w n.prefixLen = n.address :=
  decide_eq_true_iff

/-- Under a shorter mask the addresses of a network agree. -/
theorem and_netmask {k : ℕ} (hk : k ≤ n.prefixLen) (ha : n.contains a = true) :
    a &&& netmask w k = n.address &&& netmask w k := by
  rw [← contains_iff.mp ha, BitVec.and_assoc, netmask_and_netmask hk]

/-- The networks differ in the bits that both fix. -/
def Apart (n m : Network w) : Prop :=
  n.address &&& netmask w (min n.prefixLen m.prefixLen) ≠
    m.address &&& netmask w (min n.prefixLen m.prefixLen)

instance (n m : Network w) : Decidable (n.Apart m) := inferInstanceAs (Decidable (_ ≠ _))

/-- **Two networks that differ where both are fixed** have no address in common. -/
theorem not_contains_of_apart (h : n.Apart m) (ha : m.contains a = true) :
    n.contains a = false := by
  rw [← Bool.not_eq_true]
  intro hn
  exact h ((and_netmask (Nat.min_le_left ..) hn).symm.trans (and_netmask (Nat.min_le_right ..) ha))

/-- No network of a table has an address of a network that is apart from all of them. -/
theorem any_contains_of_apart {ns : List (Network w)} (h : ∀ n ∈ ns, n.Apart m)
    (ha : m.contains a = true) : (ns.any fun n => n.contains a) = false := by
  rw [List.any_eq_false]
  intro n hn hc
  rw [not_contains_of_apart (h n hn) ha] at hc
  cases hc

end Network

end Networks

/-! ## Addresses -/

/-- The number with the digits `ds` of `k` bits, the first the highest. -/
def pack (k : ℕ) (ds : List ℕ) : ℕ := ds.foldl (fun n d => n * 2 ^ k + d) 0

/-- The digits of `k` bits of a word, the highest first. -/
def unpack {w : ℕ} (k : ℕ) (a : BitVec w) : List ℕ :=
  (List.range (w / k)).reverse.map fun i => (a >>> (k * i)).toNat % 2 ^ k

/-- `IPv4Address` and `IPv6Address`, the latter with its `scope_id`. -/
inductive Address
  | v4 (ip : BitVec 32)
  | v6 (ip : BitVec 128) (scopeId : Option (List Char))
  deriving DecidableEq

open Url (isIpv4 isIpv6 decimal partition)

/-- The value of an accepted IPv4 address. -/
def ipv4Value (s : List Char) : BitVec 32 :=
  BitVec.ofNat 32 (pack 8 ((Url.split '.' s).map decimal))

def hexDigit (c : Char) : ℕ :=
  if c.isDigit then c.toNat - '0'.toNat
  else if c.isLower then c.toNat - 'a'.toNat + 10
  else c.toNat - 'A'.toNat + 10

/-- `int(s, 16)`. -/
def hexadecimal (s : List Char) : ℕ := pack 4 (s.map hexDigit)

/-- A part of an IPv6 address between colons; none is an empty one. -/
def hextet (s : List Char) : Option ℕ := if s = [] then none else some (hexadecimal s)

/-- The parts of an IPv6 address. A dotted suffix stands for two. -/
def ipv6Parts (s : List Char) : List (Option ℕ) :=
  let parts := Url.split ':' s
  let last := parts.getLastD []
  if last.contains '.' then
    parts.dropLast.map hextet ++ (unpack 16 (ipv4Value last)).map some
  else parts.map hextet

/-- The value of an accepted IPv6 address. -/
def ipv6Value (s : List Char) : BitVec 128 :=
  let parts := ipv6Parts s
  -- `::` is an empty part that is not at an end
  let skip := ((parts.drop 1).dropLast).idxOf none + 1
  let hi := (parts.take skip).reduceOption
  let lo := (parts.drop skip).reduceOption
  BitVec.ofNat 128 (pack 16 (hi ++ List.replicate (8 - (hi.length + lo.length)) 0 ++ lo))

/-- `ip_address`, none where it raises. -/
def ipAddress (s : List Char) : Option Address :=
  if isIpv4 s then some (.v4 (ipv4Value s))
  else if isIpv6 s then
    let (addr, scopeId) := partition '%' s
    some (.v6 (ipv6Value addr) scopeId)
  else none

example : ipAddress "100.64.0.1".toList = some (.v4 0x64400001) := by decide
example : ipAddress "fe80::1%eth0".toList =
    some (.v6 0xfe800000000000000000000000000001 (some "eth0".toList)) := by decide
example : ipAddress "::ffff:10.0.0.1".toList = some (.v6 0xffff0a000001 none) := by decide

/-! ## Text -/

def hexText (n : ℕ) : String := String.ofList (Nat.toDigits 16 n)

def ipv4Text (a : BitVec 32) : String := String.intercalate "." ((unpack 8 a).map toString)

/-- The length of the run of zeros at `i`. -/
def zerosAt (hextets : List ℕ) (i : ℕ) : ℕ := ((hextets.drop i).takeWhile (· = 0)).length

/-- `_compress_hextets`, joined: the first of the longest runs of zeros becomes `::`. -/
def compressHextets (hextets : List ℕ) : String :=
  let start := (List.range hextets.length).foldl
    (fun best i => if zerosAt hextets best < zerosAt hextets i then i else best) 0
  let join (hs : List ℕ) := String.intercalate ":" (hs.map hexText)
  if 1 < zerosAt hextets start then
    join (hextets.take start) ++ "::" ++ join (hextets.drop (start + zerosAt hextets start))
  else join hextets

/-- `ipv4_mapped`. -/
def ipv4Mapped (ip : BitVec 128) : Option (BitVec 32) :=
  if ip >>> 32 = 0xffff then some (ip.setWidth 32) else none

def ipv6Text (ip : BitVec 128) : String :=
  match ipv4Mapped ip with
  | some a => "::ffff:" ++ ipv4Text a
  | none => compressHextets (unpack 16 ip)

namespace Address

/-- `str`. -/
def toText : Address → String
  | v4 ip => ipv4Text ip
  | v6 ip none => ipv6Text ip
  | v6 ip (some scopeId) => ipv6Text ip ++ "%" ++ String.ofList scopeId

/-- The IPv4 address of an IPv4-mapped one; any other as it is. -/
def unmapped : Address → Address
  | v4 ip => v4 ip
  | v6 ip scopeId => match ipv4Mapped ip with
    | some a => v4 a
    | none => v6 ip scopeId

/-! ## Classes -/

/-- A predicate of both versions. An IPv4-mapped address is read as the IPv4 address. -/
def classify (p4 : BitVec 32 → Bool) (p6 : BitVec 128 → Bool) : Address → Bool
  | v4 ip => p4 ip
  | v6 ip _ => match ipv4Mapped ip with
    | some a => p4 a
    | none => p6 ip

variable {p4 : BitVec 32 → Bool} {p6 : BitVec 128 → Bool} {ip : Address}

@[simp] theorem classify_v4 {a : BitVec 32} : (v4 a).classify p4 p6 = p4 a := rfl

/-- The predicates do not tell a mapped address from the IPv4 address. -/
@[simp] theorem classify_unmapped : ip.unmapped.classify p4 p6 = ip.classify p4 p6 := by
  cases ip with
  | v4 a => rfl
  | v6 a scopeId =>
    cases h : ipv4Mapped a with
    | some b => simp [unmapped, classify, h]
    | none => simp [unmapped, classify, h]

/-- An unmapped address is an IPv4 address, or an IPv6 address that is not mapped. -/
theorem unmapped_cases (ip : Address) : (∃ a, ip.unmapped = v4 a) ∨
    ∃ a scopeId, ip.unmapped = v6 a scopeId ∧ ipv4Mapped a = none := by
  cases ip with
  | v4 a => exact .inl ⟨a, rfl⟩
  | v6 a scopeId =>
    cases h : ipv4Mapped a with
    | some b => exact .inl ⟨b, by simp [unmapped, h]⟩
    | none => exact .inr ⟨a, scopeId, by simp [unmapped, h], h⟩

end Address

/-! ## The ranges -/

/-- A network of IPv4. -/
def net4 (octets : List ℕ) (prefixLen : ℕ)
    (h : BitVec.ofNat 32 (pack 8 octets) &&& netmask 32 prefixLen =
      BitVec.ofNat 32 (pack 8 octets) := by decide) : Network 32 :=
  ⟨BitVec.ofNat 32 (pack 8 octets), prefixLen, h⟩

/-- A network of IPv6; the hextets that are not given are zero. -/
def net6 (hextets : List ℕ) (prefixLen : ℕ)
    (h : BitVec.ofNat 128 (pack 16 (hextets.rightpad 8 0)) &&& netmask 128 prefixLen =
      BitVec.ofNat 128 (pack 16 (hextets.rightpad 8 0)) := by decide) : Network 128 :=
  ⟨BitVec.ofNat 128 (pack 16 (hextets.rightpad 8 0)), prefixLen, h⟩

/-- `_IPv4Constants._private_networks`. -/
def privateNetworks4 : List (Network 32) :=
  [net4 [0, 0, 0, 0] 8, net4 [10, 0, 0, 0] 8, net4 [127, 0, 0, 0] 8, net4 [169, 254, 0, 0] 16,
    net4 [172, 16, 0, 0] 12, net4 [192, 0, 0, 0] 24, net4 [192, 0, 0, 170] 31,
    net4 [192, 0, 2, 0] 24, net4 [192, 168, 0, 0] 16, net4 [198, 18, 0, 0] 15,
    net4 [198, 51, 100, 0] 24, net4 [203, 0, 113, 0] 24, net4 [240, 0, 0, 0] 4,
    net4 [255, 255, 255, 255] 32]

/-- `_IPv4Constants._private_networks_exceptions`. -/
def privateExceptions4 : List (Network 32) := [net4 [192, 0, 0, 9] 32, net4 [192, 0, 0, 10] 32]

/-- `_IPv6Constants._private_networks`. -/
def privateNetworks6 : List (Network 128) :=
  [net6 [0, 0, 0, 0, 0, 0, 0, 1] 128, net6 [] 128, net6 [0, 0, 0, 0, 0, 0xffff] 96,
    net6 [0x64, 0xff9b, 1] 48, net6 [0x100] 64, net6 [0x2001] 23, net6 [0x2001, 0xdb8] 32,
    net6 [0x2002] 16, net6 [0x3fff] 20, net6 [0xfc00] 7, net6 [0xfe80] 10]

/-- `_IPv6Constants._private_networks_exceptions`. -/
def privateExceptions6 : List (Network 128) :=
  [net6 [0x2001, 1, 0, 0, 0, 0, 0, 1] 128, net6 [0x2001, 1, 0, 0, 0, 0, 0, 2] 128,
    net6 [0x2001, 3] 32, net6 [0x2001, 4, 0x112] 48, net6 [0x2001, 0x20] 28,
    net6 [0x2001, 0x30] 28]

/-- `_IPv6Constants._reserved_networks`. -/
def reservedNetworks6 : List (Network 128) :=
  [net6 [] 8, net6 [0x100] 8, net6 [0x200] 7, net6 [0x400] 6, net6 [0x800] 5, net6 [0x1000] 4,
    net6 [0x4000] 3, net6 [0x6000] 3, net6 [0x8000] 3, net6 [0xa000] 3, net6 [0xc000] 3,
    net6 [0xe000] 4, net6 [0xf000] 5, net6 [0xf800] 6, net6 [0xfe00] 9]

/-- In one of the networks, and in none of the exceptions. -/
def inNetworks {w : ℕ} (networks exceptions : List (Network w)) (a : BitVec w) : Bool :=
  (networks.any fun n => n.contains a) && ! (exceptions.any fun n => n.contains a)

/-- An address apart from every network is not in them. -/
theorem inNetworks_of_apart {w : ℕ} {networks exceptions : List (Network w)} {m : Network w}
    {a : BitVec w} (h : ∀ n ∈ networks, n.Apart m) (ha : m.contains a = true) :
    inNetworks networks exceptions a = false := by
  rw [inNetworks, Network.any_contains_of_apart h ha, Bool.false_and]

namespace Address

def isPrivate : Address → Bool :=
  classify (inNetworks privateNetworks4 privateExceptions4)
    (inNetworks privateNetworks6 privateExceptions6)

def isLoopback : Address → Bool := classify (net4 [127, 0, 0, 0] 8).contains fun a => a = 1

def isLinkLocal : Address → Bool :=
  classify (net4 [169, 254, 0, 0] 16).contains (net6 [0xfe80] 10).contains

def isMulticast : Address → Bool :=
  classify (net4 [224, 0, 0, 0] 4).contains (net6 [0xff00] 8).contains

def isReserved : Address → Bool :=
  classify (net4 [240, 0, 0, 0] 4).contains (inNetworks reservedNetworks6 [])

def isUnspecified : Address → Bool := classify (fun a => a = 0) fun a => a = 0

/-- The unspecified address is private. -/
theorem isPrivate_of_isUnspecified {ip : Address} (h : ip.isUnspecified = true) :
    ip.isPrivate = true := by
  rw [isUnspecified, ← classify_unmapped] at h
  rw [isPrivate, ← classify_unmapped]
  obtain ⟨a, ha⟩ | ⟨a, scopeId, ha, hm⟩ := ip.unmapped_cases
  · rw [ha] at h ⊢
    obtain rfl : a = 0 := of_decide_eq_true h
    decide
  · rw [ha] at h ⊢
    simp only [classify, hm, decide_eq_true_eq] at h ⊢
    subst h
    decide

end Address

end Ipaddress
