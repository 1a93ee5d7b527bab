import OpenMagpie.Common.Ssrf

/-!
# Fetching untrusted URLs

`common.safe_http` and `fetch_url_safely`: a GET whose connections are resolved once, checked, and
opened to the address that was checked. What httpx does between the connections is given from outside.

* `Exchange`: a request as httpx performs it, with the answers of the network.
* `connectTcp`: the address that a connection is opened to.
* `fetchUrlSafely`: the connections, and the body or the exception.
* **`connections_allowed`**: every connection is opened to an address that is not blocked.
* **`readable_iff`**: what the fetch raises is an exception of httpx or a `ConnectorParseError`, unless
  it gets to a lookup that cannot be read.
-/

set_option autoImplicit false

namespace OpenMagpie

open Python Ipaddress

/-! ## Exceptions -/

/-- What httpx raises: an `HTTPError` or an `InvalidURL`. -/
inductive HttpxError
  | httpError
  | invalidUrl
  deriving DecidableEq

/-- What a fetch raises, besides the exceptions of the language. `connectError` is httpcore's. -/
inductive FetchError
  | http (e : HttpxError)
  | connectorParseError (message : String)
  | connectError
  | ssrfBlocked (message : String)
  | osError
  | indexError
  deriving DecidableEq

/-- What `getaddrinfo` raises: a `gaierror`, another `OSError`, or the `UnicodeError` of a host that
IDNA does not encode, which is a `ValueError`. -/
inductive LookupError
  | gaierror
  | osError
  | unicodeError
  deriving DecidableEq

/-- What `getaddrinfo` does: the texts of the addresses, or an exception. -/
abbrev Lookup := Except LookupError (List (List Char))

/-- A lookup, as `destination_block_reason` sees it. -/
def LookupError.raised : LookupError → Exc GateError
  | gaierror => .lib .gaierror
  | osError => .lib .osError
  | unicodeError => .valueError

/-! ## A connection -/

/-- The check of the address that a connection is made to. -/
def checkTarget (host target : List Char) (ip : Address) : Except (Exc FetchError) (List Char) :=
  if ipIsBlocked ip then .error (.lib (.ssrfBlocked
    s!"blocked connection target {String.ofList target} (host '{String.ofList host}')"))
  else .ok target

/-- `_PinnedBackend.connect_tcp`, up to the connection: the address that is connected to. -/
def connectTcp (host : List Char) (infos : Lookup) : Except (Exc FetchError) (List Char) :=
  match ipAddress host with
  | some ip => checkTarget host host ip
  | none => match infos with
    | .error .gaierror | .error .osError => .error (.lib .connectError)
    -- no `OSError`
    | .error .unicodeError => .error .valueError
    | .ok [] => .error (.lib .indexError)
    | .ok (target :: _) => match ipAddress target with
      | none => .error .valueError
      | some ip => checkTarget host target ip

/-- A lookup that a connection can read: it fails with an `OSError`, or its first address parses. -/
def ReadableLookup : Lookup → Prop
  | .error e => e ≠ .unicodeError
  | .ok infos => ∃ target ∈ infos.head?, (ipAddress target).isSome

instance : DecidablePred ReadableLookup := fun l => by
  unfold ReadableLookup
  split <;> infer_instance

variable {host target : List Char} {infos : Lookup} {e : Exc FetchError}

/-- **A connection is opened to an address that is not blocked.** -/
theorem connectTcp_ok (h : connectTcp host infos = .ok target) :
    ∃ ip, ipAddress target = some ip ∧ ipIsBlocked ip = false := by
  have hcheck {t : List Char} {ip : Address} (hip : ipAddress t = some ip)
      (h : checkTarget host t ip = .ok target) :
      ∃ ip, ipAddress target = some ip ∧ ipIsBlocked ip = false := by
    unfold checkTarget at h
    split_ifs at h with hblocked
    exact ⟨ip, Except.ok.inj h ▸ hip, Bool.eq_false_iff.mpr hblocked⟩
  unfold connectTcp at h
  split at h
  · next ip hip => exact hcheck hip h
  · split at h
    · cases h
    · cases h
    · cases h
    · cases h
    · split at h
      · cases h
      · next ip hip => exact hcheck hip h

/-- What a connection raises of a host that is an address or whose lookup can be read. -/
theorem connectTcp_error (h : connectTcp host infos = .error e)
    (hr : ipAddress host = none → ReadableLookup infos) :
    e = .lib .connectError ∨ ∃ message, e = .lib (.ssrfBlocked message) := by
  have hcheck {t : List Char} {ip : Address} (h : checkTarget host t ip = .error e) :
      ∃ message, e = .lib (.ssrfBlocked message) := by
    unfold checkTarget at h
    split_ifs at h
    exact ⟨_, (Except.error.inj h).symm⟩
  unfold connectTcp at h
  split at h
  · exact .inr (hcheck h)
  · next hhost =>
    have hr := hr hhost
    split at h
    · exact .inl (Except.error.inj h).symm
    · exact .inl (Except.error.inj h).symm
    · exact absurd rfl hr
    · obtain ⟨_, hmem, -⟩ := hr
      cases hmem
    · split at h
      · next hnone =>
        obtain ⟨t, hmem, hsome⟩ := hr
        obtain rfl := Option.some.inj hmem
        rw [hnone] at hsome
        cases hsome
      · exact .inr (hcheck h)

/-- What it raises of another host, no one catches. -/
theorem connectTcp_unreadable (hhost : ipAddress host = none) (hr : ¬ ReadableLookup infos) :
    connectTcp host infos = .error .valueError ∨ connectTcp host infos = .error (.lib .indexError) := by
  unfold connectTcp
  cases infos with
  | error e =>
    cases e with
    | gaierror => exact absurd nofun hr
    | osError => exact absurd nofun hr
    | unicodeError => exact .inl (by simp only [hhost])
  | ok infos =>
    cases infos with
    | nil => exact .inr (by simp only [hhost])
    | cons target rest =>
      cases hip : ipAddress target with
      | none => exact .inl (by simp only [hhost, hip])
      | some ip => exact absurd ⟨target, rfl, by rw [hip]; rfl⟩ hr

/-! ## A request -/

/-- A request as httpx performs it: it raises, it answers with a status and a body that comes in
chunks, or it opens a connection and goes on. A chunk says whether it came past the deadline; a body
may end with an exception. A connection comes with its lookup, and whether the address takes it. -/
inductive Exchange
  | raises (e : HttpxError)
  | responds (status : ℕ) (chunks : List (Bool × List UInt8)) (fails : Option HttpxError)
  | connect (host : List Char) (infos : Lookup) (opens : Bool) (next : Bool → Exchange)

/-- The connections that were made, and the result. -/
structure Fetched where
  connections : List (List Char)
  result : Except (Exc FetchError) (List UInt8)

/-- `read_response_capped`. -/
def readResponseCapped (maxBytes : ℕ) (urlLabel : String) (fails : Option HttpxError) :
    List (Bool × List UInt8) → List UInt8 → Except (Exc FetchError) (List UInt8)
  | [], body => match fails with
    | none => .ok body
    | some e => .error (.lib (.http e))
  | (late, chunk) :: chunks, body =>
    if late then .error (.lib (.connectorParseError
      s!"{urlLabel} exceeded its fetch time budget mid-stream"))
    else if maxBytes < (body ++ chunk).length then .error (.lib (.connectorParseError
      s!"{urlLabel} exceeded {maxBytes}-byte cap mid-stream"))
    else readResponseCapped maxBytes urlLabel fails chunks (body ++ chunk)

/-- The `with` block of `fetch_url_safely`. A connection that fails with an error of httpcore is left
to httpx; any other exception of the backend passes through it. -/
def streamGet (maxBytes : ℕ) (url : String) : Exchange → Fetched
  | .raises e => ⟨[], .error (.lib (.http e))⟩
  | .responds status chunks fails =>
    if 200 ≤ status ∧ status < 300 then ⟨[], readResponseCapped maxBytes url fails chunks []⟩
    else ⟨[], .error (.lib (.http .httpError))⟩
  | .connect host infos opens next =>
    match connectTcp host infos with
    | .ok target =>
      let fetched := streamGet maxBytes url (next opens)
      { fetched with connections := target :: fetched.connections }
    | .error e =>
      if e = .lib .connectError then streamGet maxBytes url (next false) else ⟨[], .error e⟩

/-- `fetch_url_safely`. -/
def fetchUrlSafely (maxBytes : ℕ) (url : String) (exchange : Exchange) : Fetched :=
  let fetched := streamGet maxBytes url exchange
  { fetched with result := fetched.result.mapError fun e => match e with
    | .lib (.ssrfBlocked message) => .lib (.connectorParseError message)
    | e => e }

/-- The request gets to a connection of this host, with this lookup. -/
inductive Exchange.Asks (host : List Char) (infos : Lookup) : Exchange → Prop
  | here {opens : Bool} {next : Bool → Exchange} : Asks host infos (.connect host infos opens next)
  | opened {h target : List Char} {l : Lookup} {opens : Bool} {next : Bool → Exchange}
      (hc : connectTcp h l = .ok target) (hn : Asks host infos (next opens)) :
      Asks host infos (.connect h l opens next)
  | failed {h : List Char} {l : Lookup} {opens : Bool} {next : Bool → Exchange}
      (hc : connectTcp h l = .error (.lib .connectError)) (hn : Asks host infos (next false)) :
      Asks host infos (.connect h l opens next)

/-- The request can read every lookup that it gets to. -/
def Exchange.Readable (x : Exchange) : Prop :=
  ∀ host infos, x.Asks host infos → ipAddress host = none → ReadableLookup infos

/-- The exceptions that `resolve_external_content` swallows. -/
def Swallowed : Exc FetchError → Prop
  | .lib (.http _) | .lib (.connectorParseError _) => True
  | _ => False

instance : DecidablePred Swallowed := fun e => by unfold Swallowed; split <;> infer_instance

section Fetch

variable {maxBytes : ℕ} {url : String} {x : Exchange}

/-- **Every connection is opened to an address that is not blocked.** -/
theorem connections_allowed (h : target ∈ (fetchUrlSafely maxBytes url x).connections) :
    ∃ ip, ipAddress target = some ip ∧ ipIsBlocked ip = false := by
  change target ∈ (streamGet maxBytes url x).connections at h
  induction x with
  | raises e => cases h
  | responds status chunks fails =>
    unfold streamGet at h
    split_ifs at h <;> cases h
  | connect host infos opens next ih =>
    unfold streamGet at h
    split at h
    · next t hc =>
      rcases List.mem_cons.mp h with rfl | h
      · exact connectTcp_ok hc
      · exact ih _ h
    · split_ifs at h
      · exact ih _ h
      · cases h

theorem swallowed_readResponseCapped {fails : Option HttpxError} {chunks : List (Bool × List UInt8)}
    {body : List UInt8} (h : readResponseCapped maxBytes url fails chunks body = .error e) :
    Swallowed e := by
  induction chunks generalizing body with
  | nil =>
    cases fails with
    | none => cases h
    | some e' => exact Except.error.inj h ▸ trivial
  | cons chunk chunks ih =>
    unfold readResponseCapped at h
    split_ifs at h
    · exact Except.error.inj h ▸ trivial
    · exact Except.error.inj h ▸ trivial
    · exact ih h

/-- The request goes on behind a connection. -/
theorem streamGet_connect_ok {opens : Bool} {next : Bool → Exchange}
    (hc : connectTcp host infos = .ok target) :
    (streamGet maxBytes url (.connect host infos opens next)).result =
      (streamGet maxBytes url (next opens)).result := by
  rw [streamGet, hc]

theorem streamGet_connect_failed {opens : Bool} {next : Bool → Exchange}
    (hc : connectTcp host infos = .error (.lib .connectError)) :
    streamGet maxBytes url (.connect host infos opens next) = streamGet maxBytes url (next false) := by
  rw [streamGet, hc]
  exact if_pos rfl

theorem streamGet_connect_error {opens : Bool} {next : Bool → Exchange}
    (hc : connectTcp host infos = .error e) (he : e ≠ .lib .connectError) :
    streamGet maxBytes url (.connect host infos opens next) = ⟨[], .error e⟩ := by
  rw [streamGet, hc]
  exact if_neg he

/-- What the block raises of a request that can read its lookups. -/
theorem swallowed_streamGet (hx : x.Readable) (h : (streamGet maxBytes url x).result = .error e) :
    Swallowed e ∨ ∃ message, e = .lib (.ssrfBlocked message) := by
  induction x with
  | raises e' => exact .inl (Except.error.inj h ▸ trivial)
  | responds status chunks fails =>
    unfold streamGet at h
    split_ifs at h
    · exact .inl (swallowed_readResponseCapped h)
    · exact .inl (Except.error.inj h ▸ trivial)
  | connect host infos opens next ih =>
    cases hc : connectTcp host infos with
    | ok target =>
      rw [streamGet_connect_ok hc] at h
      exact ih opens (fun host' infos' ha => hx host' infos' (.opened hc ha)) h
    | error e' =>
      rcases connectTcp_error hc (hx host infos .here) with rfl | ⟨message, rfl⟩
      · rw [streamGet_connect_failed hc] at h
        exact ih false (fun host' infos' ha => hx host' infos' (.failed hc ha)) h
      · rw [streamGet_connect_error hc nofun] at h
        exact .inr ⟨message, (Except.error.inj h).symm⟩

/-- A request that gets to a lookup that it cannot read. -/
theorem streamGet_unreadable (ha : x.Asks host infos) (hhost : ipAddress host = none)
    (hr : ¬ ReadableLookup infos) : (streamGet maxBytes url x).result = .error .valueError ∨
      (streamGet maxBytes url x).result = .error (.lib .indexError) := by
  induction ha with
  | here =>
    rcases connectTcp_unreadable hhost hr with hc | hc
    · exact .inl (by rw [streamGet_connect_error hc nofun])
    · exact .inr (by rw [streamGet_connect_error hc nofun])
  | opened hc _ ih => rwa [streamGet_connect_ok hc]
  | failed hc _ ih => rwa [streamGet_connect_failed hc]

/-- **The fetch raises an exception that is swallowed, or returns, exactly when it can read every
lookup that it gets to.** -/
theorem readable_iff : x.Readable ↔
    ∀ e, (fetchUrlSafely maxBytes url x).result = .error e → Swallowed e := by
  constructor
  · intro hx e h
    cases hres : (streamGet maxBytes url x).result with
    | ok body =>
      rw [fetchUrlSafely, hres] at h
      cases h
    | error e' =>
      rw [fetchUrlSafely, hres] at h
      rcases swallowed_streamGet hx hres with hs | ⟨message, rfl⟩
      · have he : e' = e := by
          cases e' with
          | lib l => cases l <;> first | exact Except.error.inj h | cases hs
          | _ => cases hs
        exact he ▸ hs
      · exact Except.error.inj h ▸ trivial
  · intro hall host infos ha hhost
    by_contra hr
    rcases streamGet_unreadable ha hhost hr with h | h
    · exact hall .valueError (by rw [fetchUrlSafely, h]; rfl)
    · exact hall (.lib .indexError) (by rw [fetchUrlSafely, h]; rfl)

end Fetch

end OpenMagpie
