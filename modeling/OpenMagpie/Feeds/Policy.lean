import OpenMagpie.Common.Ssrf

/-!
# The URL gates

A source's URL is looked at twice for an address inside a blocked range: when the source is written,
and at each fetch.

* `validateRequestUrl`: the gate of a fetch.
* `checkUrlIp`, `enforceSourceSpecSafety`: the gate of a write. **`enforceSourceSpecSafety_ok`**: it
  passes when no text that it looks at has a blocked address for its host.
* `GatesAgree`: both refuse a URL, or none does, and neither raises anything else.
  **`gates_agree_iff`**: over the URLs whose host is an address that is so outside the shared
  address space. **`shared_space_accepted`**: there the write is accepted.
-/

set_option autoImplicit false

namespace OpenMagpie

open Python Ipaddress
open Url (Unicode urlsplit)
open Ssrf (Resolver)

variable (U : Unicode) (getaddrinfo : Resolver)

/-! ## The gate of a fetch -/

/-- `validate_request_url`. -/
def validateRequestUrl (sourceBlockPrivateIps : Bool) (url : String) :
    Except (Exc GateError) Unit := do
  match ← Ssrf.destinationBlockReason U getaddrinfo url false sourceBlockPrivateIps true with
  | some reason =>
    if reason = "" then pure ()
    else throw (.lib (.connectorParseError s!"blocked URL {url}: {reason}"))
  | none => pure ()

/-! ## The gate of a write -/

/-- `_check_url_ip`. What raises a `ValueError` is passed over; the host that `urlparse` finds is that
of `urlsplit`. -/
def checkUrlIp (candidate : String) : Except (Exc GateError) Unit :=
  match urlsplit U candidate.toList with
  | none => .ok ()
  | some parsed => match parsed.hostname U with
    | none | some [] => .ok ()
    | some host => match ipAddress host with
      | none => .ok ()
      | some ip =>
        if literalBlocked ip then
          .error (.lib (.policyError
            s!"SOURCE_BLOCK_PRIVATE_IPS is set; URL host resolves to blocked IP {ip.toText}"))
        else .ok ()

mutual

/-- `_iter_strings`. -/
def iterStrings : Json → List String
  | .str s => [s]
  | .arr xs => iterStringsArr xs
  | .obj kvs => iterStringsObj kvs
  | .null | .bool _ | .num _ | .float _ => []

def iterStringsArr : List Json → List String
  | [] => []
  | x :: xs => iterStrings x ++ iterStringsArr xs

def iterStringsObj : List (String × Json) → List String
  | [] => []
  | (_, x) :: kvs => iterStrings x ++ iterStringsObj kvs

end

/-- A source spec as the gate reads it: a plugin's blob or a typed spec, its dump, the fields
`URL_FIELDS` that it declares, and `str` of its attributes. -/
structure SpecView where
  kind : String
  isPlugin : Bool
  dump : Json
  urlFields : Option (List String)
  attr : String → String

/-- The texts that `_enforce_source_url_safety` looks at. -/
def SpecView.candidates (spec : SpecView) : List String :=
  match spec.isPlugin, spec.urlFields with
  | true, _ | false, none => iterStrings spec.dump
  | false, some fields => fields.map spec.attr

/-- `_enforce_source_url_safety`. -/
def enforceSourceUrlSafety (sourceBlockPrivateIps : Bool) (spec : SpecView) :
    Except (Exc GateError) Unit :=
  if ¬ sourceBlockPrivateIps then .ok () else spec.candidates.forM (checkUrlIp U)

/-- `enforce_source_spec_safety`. -/
def enforceSourceSpecSafety (sourceBlockPrivateIps : Bool) (specs : List SpecView) :
    Except (Exc GateError) Unit :=
  specs.forM (enforceSourceUrlSafety U sourceBlockPrivateIps)

/-! ## One URL -/

/-- The address that is the host of a URL. -/
def literalHost (url : String) : Option Address := do
  let parsed ← urlsplit U url.toList
  let host ← parsed.hostname U
  ipAddress host

theorem exists_of_literalHost {U : Unicode} {url : String} {ip : Address}
    (h : literalHost U url = some ip) : ∃ parsed c host, urlsplit U url.toList = some parsed ∧
      parsed.hostname U = some (c :: host) ∧ ipAddress (c :: host) = some ip := by
  obtain ⟨parsed, hp, h⟩ := Option.bind_eq_some_iff.mp h
  obtain ⟨host, hh, hip⟩ := Option.bind_eq_some_iff.mp h
  cases host with
  | nil => cases hip
  | cons c host => exact ⟨parsed, c, host, hp, hh, hip⟩

variable {U getaddrinfo} {url : String} {ip : Address} {resolveDns : Bool}

variable (getaddrinfo resolveDns) in
/-- The gate of a fetch, at an address. -/
theorem destinationBlockReason_literal (h : literalHost U url = some ip) :
    Ssrf.destinationBlockReason U getaddrinfo url false true resolveDns =
      .ok (if ipIsBlocked ip then some s!"host is a blocked address ({ip.toText})" else none) := by
  obtain ⟨parsed, c, host, hp, hh, hip⟩ := exists_of_literalHost h
  simp [Ssrf.destinationBlockReason, hp, hh, hip]

/-- A fetch of an address goes ahead when the address is not blocked. -/
theorem validateRequestUrl_literal (h : literalHost U url = some ip) :
    validateRequestUrl U getaddrinfo true url = .ok () ↔ ipIsBlocked ip = false := by
  rw [validateRequestUrl, destinationBlockReason_literal getaddrinfo true h]
  cases hb : ipIsBlocked ip with
  | false => exact iff_of_true rfl rfl
  | true =>
    have hreason : s!"host is a blocked address ({ip.toText})" ≠ "" := by
      intro he
      simp [toString] at he
    simp only [if_true, bind, Except.bind, if_neg hreason, Bool.true_eq_false, iff_false]
    nofun

/-- The gate of a write, at an address. -/
theorem checkUrlIp_literal (h : literalHost U url = some ip) : checkUrlIp U url =
    if literalBlocked ip then
      .error (.lib (.policyError
        s!"SOURCE_BLOCK_PRIVATE_IPS is set; URL host resolves to blocked IP {ip.toText}"))
    else .ok () := by
  obtain ⟨parsed, c, host, hp, hh, hip⟩ := exists_of_literalHost h
  simp [checkUrlIp, hp, hh, hip]

/-- A text passes when its host is no blocked address. -/
theorem checkUrlIp_ok : checkUrlIp U url = .ok () ↔
    ∀ ip, literalHost U url = some ip → literalBlocked ip = false := by
  cases h : literalHost U url with
  | some ip =>
    rw [checkUrlIp_literal h]
    cases hb : literalBlocked ip <;> simp [hb]
  | none =>
    refine iff_of_true ?_ nofun
    unfold checkUrlIp
    split
    · rfl
    · rename_i parsed hp
      split
      · rfl
      · rfl
      · rename_i host _ hh
        split
        · rfl
        · rename_i ip hip
          rw [literalHost, hp, Option.bind_eq_bind, Option.bind_some, hh] at h
          cases hip.symm.trans h

/-! ## Many specs -/

/-- **The gate of a write passes** when the setting is off, or no text that it looks at has a blocked
address for its host. -/
theorem enforceSourceSpecSafety_ok {sourceBlockPrivateIps : Bool} {specs : List SpecView} :
    enforceSourceSpecSafety U sourceBlockPrivateIps specs = .ok () ↔
      (sourceBlockPrivateIps = true → ∀ spec ∈ specs, ∀ text ∈ spec.candidates, ∀ ip,
        literalHost U text = some ip → literalBlocked ip = false) := by
  rw [enforceSourceSpecSafety, Except.forM_eq_ok]
  cases sourceBlockPrivateIps with
  | false => simp [enforceSourceUrlSafety]
  | true => simp only [enforceSourceUrlSafety, not_true_eq_false, if_false, Except.forM_eq_ok,
      checkUrlIp_ok, forall_const]

/-! ## The two gates -/

/-- The gates agree on a URL: the fetch is refused when the write is, and otherwise neither raises. -/
structure GatesAgree (U : Unicode) (getaddrinfo : Resolver) (url : String) (resolveDns : Bool) :
    Prop where
  refuse : (∃ reason, Ssrf.destinationBlockReason U getaddrinfo url false true resolveDns =
    .ok (some reason)) ↔ ∃ message, checkUrlIp U url = .error (.lib (.policyError message))
  fetch_returns : ¬ Raises (fun _ => True)
    (Ssrf.destinationBlockReason U getaddrinfo url false true resolveDns)
  write_refuses : ¬ Raises (fun e => ¬ ∃ message, e = .lib (.policyError message))
    (checkUrlIp U url)

/-- **The gates agree** on a URL whose host is an address, exactly when the address, an IPv4-mapped one
read as the IPv4 address, is outside the shared address space. -/
theorem gates_agree_iff (h : literalHost U url = some ip) :
    GatesAgree U getaddrinfo url resolveDns ↔ inCgnat ip.unmapped = false := by
  have hfetch := destinationBlockReason_literal getaddrinfo resolveDns h
  have hwrite := checkUrlIp_literal h
  rw [← blocked_agree_iff]
  constructor
  · rintro ⟨hr, -, -⟩
    rw [hfetch, hwrite] at hr
    cases hf : ipIsBlocked ip <;> cases hw : literalBlocked ip <;> simp [hf, hw] at hr ⊢
  · intro heq
    refine ⟨?_, ?_, ?_⟩
    · rw [hfetch, hwrite, heq]
      cases literalBlocked ip <;> simp
    · simp [hfetch]
    · rw [hwrite]
      cases literalBlocked ip <;> simp

/-- `10.0.0.1`, mapped. -/
theorem gates_agree_sample : GatesAgree asciiUnicode (fun _ _ => .ok [])
    "http://user@[::ffff:10.0.0.1]:8080/feed" true := by
  have h : literalHost asciiUnicode "http://user@[::ffff:10.0.0.1]:8080/feed" =
      some (.v6 0xffff0a000001 none) := by decide
  exact (gates_agree_iff h).mpr (by decide)

/-- **The shared address space is accepted by a write**, and refused by every fetch. -/
theorem shared_space_accepted : ∃ url ip, literalHost asciiUnicode url = some ip ∧
    ¬ GatesAgree asciiUnicode (fun _ _ => .ok []) url true ∧
    checkUrlIp asciiUnicode url = .ok () ∧
    Ssrf.destinationBlockReason asciiUnicode (fun _ _ => .ok []) url false true true =
      .ok (some "host is a blocked address (100.64.0.1)") := by
  have hwrite : checkUrlIp asciiUnicode "http://100.64.0.1/" = .ok () := by decide
  have hfetch : Ssrf.destinationBlockReason asciiUnicode (fun _ _ => .ok [])
      "http://100.64.0.1/" false true true =
        .ok (some "host is a blocked address (100.64.0.1)") := by decide
  refine ⟨"http://100.64.0.1/", .v4 0x64400001, by decide, fun h => ?_, hwrite, hfetch⟩
  obtain ⟨message, hm⟩ := h.refuse.mp ⟨_, hfetch⟩
  cases hwrite.symm.trans hm

end OpenMagpie
