import OpenMagpie.Lib.Ipaddress
import OpenMagpie.Lib.Python
import OpenMagpie.Watches.Kinds

/-!
# Outbound destinations

`common.ssrf`, which says why a URL must not be called.

* `ipIsBlocked`: an address in a blocked range. `literalBlocked`: the same test without the shared
  address space. **`blocked_agree_iff`**: the addresses on which the two agree.
* `Ssrf.destinationBlockReason`: the reason, for all flags; `destinationBlockReason_write`: with
  `resolve_dns=False` it is what the policy of the webhooks computes.
-/

set_option autoImplicit false

namespace OpenMagpie

open Python Ipaddress
open Url (Unicode urlsplit)

/-- What the gates and a lookup raise, besides the exceptions of the language. -/
inductive GateError
  | policyError (message : String)
  | connectorParseError (message : String)
  | gaierror
  | osError
  deriving DecidableEq

/-! ## Addresses -/

/-- `_CGNAT`. -/
def cgnat : Network 32 := net4 [100, 64, 0, 0] 10

/-- The address is in the shared address space. -/
def inCgnat : Address → Bool
  | .v4 a => cgnat.contains a
  | .v6 _ _ => false

/-- `ip_is_blocked`. -/
def ipIsBlocked (ip : Address) : Bool :=
  let ip := ip.unmapped
  ip.isPrivate || ip.isLoopback || ip.isLinkLocal || ip.isMulticast || ip.isReserved ||
    ip.isUnspecified || inCgnat ip

/-- The test of `_check_url_ip`. -/
def literalBlocked (ip : Address) : Bool :=
  ip.isPrivate || ip.isLoopback || ip.isLinkLocal || ip.isMulticast || ip.isReserved

variable {ip : Address}

theorem literalBlocked_unmapped : literalBlocked ip.unmapped = literalBlocked ip := by
  simp only [literalBlocked, Address.isPrivate, Address.isLoopback, Address.isLinkLocal,
    Address.isMulticast, Address.isReserved, Address.classify_unmapped]

/-- What the gate of a fetch blocks besides: the shared address space. -/
theorem ipIsBlocked_eq : ipIsBlocked ip = (literalBlocked ip || inCgnat ip.unmapped) := by
  have hu : ip.unmapped.isUnspecified = true → literalBlocked ip.unmapped = true := by
    intro h
    simp [literalBlocked, Address.isPrivate_of_isUnspecified h]
  rw [← literalBlocked_unmapped, ipIsBlocked]
  cases h : ip.unmapped.isUnspecified with
  | false => simp [literalBlocked]
  | true => simp [hu h]

theorem exists_of_inCgnat (h : inCgnat ip = true) : ∃ a, ip = .v4 a ∧ cgnat.contains a = true := by
  cases ip with
  | v4 a => exact ⟨a, rfl, h⟩
  | v6 a scopeId => cases h

/-- The gate of a write blocks none of the shared address space. -/
theorem literalBlocked_of_inCgnat (h : inCgnat ip.unmapped = true) : literalBlocked ip = false := by
  obtain ⟨a, ha, hc⟩ := exists_of_inCgnat h
  have hprivate : inNetworks privateNetworks4 privateExceptions4 a = false :=
    inNetworks_of_apart (by decide) hc
  have hloopback : (net4 [127, 0, 0, 0] 8).contains a = false :=
    Network.not_contains_of_apart (by decide) hc
  have hlinkLocal : (net4 [169, 254, 0, 0] 16).contains a = false :=
    Network.not_contains_of_apart (by decide) hc
  have hmulticast : (net4 [224, 0, 0, 0] 4).contains a = false :=
    Network.not_contains_of_apart (by decide) hc
  have hreserved : (net4 [240, 0, 0, 0] 4).contains a = false :=
    Network.not_contains_of_apart (by decide) hc
  rw [← literalBlocked_unmapped, ha]
  simp [literalBlocked, Address.isPrivate, Address.isLoopback, Address.isLinkLocal,
    Address.isMulticast, Address.isReserved, hprivate, hloopback, hlinkLocal, hmulticast, hreserved]

/-- The tests agree on the addresses outside the shared address space, and only there. -/
theorem blocked_agree_iff : ipIsBlocked ip = literalBlocked ip ↔ inCgnat ip.unmapped = false := by
  rw [ipIsBlocked_eq]
  cases h : inCgnat ip.unmapped with
  | false => simp
  | true => simp [literalBlocked_of_inCgnat h]

/-! ## URLs -/

namespace Ssrf

/-- `getaddrinfo`: the texts of a host's addresses. -/
abbrev Resolver := List Char → Option ℕ → Except (Exc GateError) (List (List Char))

variable (U : Unicode) (getaddrinfo : Resolver)

/-- The lookup of `destination_block_reason`; `port` is none where the access raises. -/
def resolvedBlockReason (host : List Char) (port : Option (Option ℕ)) :
    Except (Exc GateError) (Option String) :=
  let infos := match port with
    | some port => getaddrinfo host port
    | none => .error .valueError
  match infos with
  | .ok infos => .ok (((infos.filterMap ipAddress).find? ipIsBlocked).map fun ip =>
      s!"host '{String.ofList host}' resolves to a blocked address ({ip.toText})")
  | .error (.lib .gaierror) => .ok (some s!"host '{String.ofList host}' could not be resolved")
  | .error .valueError => .ok (some s!"'{String.ofList host}' is a malformed host or port")
  | .error e => .error e

/-- `destination_block_reason`. -/
def destinationBlockReason (url : String) (requireHttps blockPrivateIps resolveDns : Bool) :
    Except (Exc GateError) (Option String) :=
  match urlsplit U url.toList with
  | none => .ok (some "malformed url")
  | some parts =>
    if requireHttps ∧ parts.scheme ≠ "https".toList then .ok (some "scheme must be https")
    else if ¬ blockPrivateIps then .ok none
    else match parts.hostname U with
      | none | some [] => .ok none
      | some host => match ipAddress host with
        | some ip =>
          .ok (if ipIsBlocked ip then some s!"host is a blocked address ({ip.toText})" else none)
        | none =>
          -- a hostname
          if ¬ resolveDns then .ok none else resolvedBlockReason getaddrinfo host parts.port

end Ssrf

/-- **The policy of the webhooks**: without a lookup the reason is the one that a deployment computes
whose `blockedAddress` tests the literals. -/
theorem destinationBlockReason_write (D : Deployment) (getaddrinfo : Ssrf.Resolver) (url : String)
    (hD : D.blockedAddress = fun host => ((ipAddress host).filter ipIsBlocked).map Address.toText) :
    Ssrf.destinationBlockReason D.unicode getaddrinfo url D.requireHttps D.blockPrivateIps false =
      .ok (destinationBlockReason D url) := by
  rw [Ssrf.destinationBlockReason, destinationBlockReason, hD]
  cases urlsplit D.unicode url.toList with
  | none => rfl
  | some parts =>
    dsimp only
    by_cases hs : D.requireHttps ∧ parts.scheme ≠ "https".toList
    · rw [if_pos hs, if_pos hs]
    · rw [if_neg hs, if_neg hs]
      cases hb : D.blockPrivateIps with
      | false => rfl
      | true =>
        rw [if_neg (by simp), if_pos rfl]
        cases hh : parts.hostname D.unicode with
        | none => rfl
        | some host =>
          cases host with
          | nil => rfl
          | cons c host =>
            cases hip : ipAddress (c :: host) with
            | none => simp [hip]
            | some ip => cases hblocked : ipIsBlocked ip <;> simp [hip, hblocked]

end OpenMagpie
