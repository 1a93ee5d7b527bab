import Mathlib.Data.List.DropRight
import OpenMagpie.Common.SafeHttp
import OpenMagpie.Lib.Codes
import OpenMagpie.Watches.RunWire

/-!
# Enrichment with the linked article

An engine action may read the article that an item links to: it fetches the link, and where that
fails or gives no text it asks the challenge-bypass sidecar, if one is configured and the link leads
to no blocked address.

* `External`: the settings, and what the network, the sidecar and the extraction do.
* `challengeBypassFetch`, `challengeFallback`, `resolveExternalContent`: the operations, with the URLs
  that are handed to the sidecar.
* **`Post.read_isOk`**, **`IsWeb.preCheck_eq_none`**, **`challengeFallback_isOk`**: what each call
  can read, lets through and returns.
* `BestEffort`: what an enrichment promises; **`bestEffort_iff`**: when it keeps that.
* **`bad_label_crashes`**: a host with an empty label.
-/

set_option autoImplicit false

namespace OpenMagpie

open Python Ipaddress
open Url (Unicode SplitResult urlsplit)

/-! ## The world around an enrichment -/

/-- The body of an answer of the sidecar: JSON, or what `json.loads` raises on it: a
`JSONDecodeError`, a `UnicodeDecodeError`, the `ValueError` of a number with too many digits, or a
`RecursionError`. -/
inductive Envelope
  | json (v : Reply)
  | notJson
  | undecodable
  | tooManyDigits
  | tooDeep

/-- What `httpx.post` does. -/
inductive Post
  | raises (e : HttpxError)
  | answers (status : ℕ) (envelope : Envelope)

/-- The settings of a deployment, and what happens around one enrichment: the direct request, the
lookup before the handoff, the sidecar's answer, and the extraction, which never raises. -/
structure External where
  unicode : Unicode
  challengeBypassUrl : String
  exchange : Exchange
  getaddrinfo : List Char → Option ℕ → Lookup
  post : Post
  extractArticleText : List UInt8 → String

/-- `MAX_ARTICLE_BYTES`. -/
def maxArticleBytes : ℕ := 5 * 1024 * 1024

/-! ## The operations -/

/-- The bytes of a response, under the cap. -/
def responseBody (body : Reply) : Except (Exc FetchError) (Option (List UInt8)) :=
  if ! body.truthy then .ok none
  else match body with
    | .str s => s.encode.map fun bytes => if maxArticleBytes < bytes.length then none else some bytes
    -- `body.encode`
    | _ => .error .attributeError

/-- The response in the sidecar's answer. -/
def solutionBody (payload : List (Codes × Reply)) : Except (Exc FetchError) (Option (List UInt8)) :=
  let solution := Reply.get payload "solution"
  match if solution.truthy then solution else .dict [] with
  | .dict solution => responseBody (Reply.get solution "response")
  -- `.get`
  | _ => .error .attributeError

/-- What `challenge_bypass_fetch` makes of the sidecar's answer. -/
def Post.read : Post → Except (Exc FetchError) (Option (List UInt8))
  | .raises .httpError => .ok none
  -- not an `HTTPError`
  | .raises .invalidUrl => .error (.lib (.http .invalidUrl))
  | .answers status envelope =>
    if status ≠ 200 then .ok none
    else match envelope with
      | .notJson | .undecodable => .ok none
      | .tooManyDigits => .error .valueError
      | .tooDeep => .error .recursionError
      | .json (.dict payload) =>
        if ! (Reply.get payload "status").isText "ok" then .ok none else solutionBody payload
      | .json _ => .ok none

/-- What an operation hands to the sidecar, and its result. -/
structure Handoff (α : Type) where
  handed : List String := []
  result : Except (Exc FetchError) α

namespace External

variable (X : External) (url : String)

/-- The sidecar's endpoint: the setting without the slashes that it ends with. -/
def endpoint : List Char := X.challengeBypassUrl.toList.rdropWhile (· = '/')

/-- `challenge_bypass_fetch`. -/
def challengeBypassFetch : Handoff (Option (List UInt8)) :=
  if X.endpoint = [] then { result := .ok none } else { handed := [url], result := X.post.read }

/-- `_is_fetchable_web_url`. -/
def isFetchableWebUrl : Bool :=
  match urlsplit X.unicode url.toList with
  | none => false
  | some parts => (parts.scheme = "http".toList || parts.scheme = "https".toList) &&
      match parts.hostname X.unicode with
      | none | some [] => false
      | some _ => true

/-- The pre-check of the handoff. -/
def preCheck : Except (Exc GateError) (Option String) :=
  Ssrf.destinationBlockReason X.unicode
    (fun host port => (X.getaddrinfo host port).mapError LookupError.raised) url false true true

/-- `_challenge_fallback`. -/
def challengeFallback : Handoff (Option String) :=
  if X.challengeBypassUrl = "" then { result := .ok none }
  else if ! X.isFetchableWebUrl url then { result := .ok none }
  else match X.preCheck url with
    -- the one exception that the pre-check raises
    | .error _ => { result := .error (.lib .osError) }
    | .ok (some _) => { result := .ok none }
    | .ok none =>
      let html := X.challengeBypassFetch url
      { handed := html.handed
        result := html.result.map fun html => (html.map X.extractArticleText).filter (· ≠ "") }

/-- What an enrichment did: the connections of the direct request, the URLs that were handed to the
sidecar, and the content with its status. -/
structure Enrichment where
  connections : List (List Char) := []
  handed : List String := []
  result : Except (Exc FetchError) (Option String × ExternalContentStatus)

/-- The last part of `resolve_external_content`: the fallback, and the status without it. -/
def recover (connections : List (List Char)) (status : ExternalContentStatus) : Enrichment :=
  let recovered := X.challengeFallback url
  { connections := connections
    handed := recovered.handed
    result := recovered.result.map fun recovered => match recovered with
      | some text => (some text, .includedViaFallback)
      | none => (none, status) }

/-- `resolve_external_content`. -/
def resolveExternalContent (enabled : Bool) : Enrichment :=
  if ! enabled then { result := .ok (none, .disabled) }
  else if url = "" then { result := .ok (none, .notApplicable) }
  else
    let fetched := fetchUrlSafely maxArticleBytes url X.exchange
    match fetched.result with
    | .error e =>
      if Swallowed e then X.recover url fetched.connections .unavailable
      else { connections := fetched.connections, result := .error e }
    | .ok html =>
      let text := X.extractArticleText html
      if text ≠ "" then
        { connections := fetched.connections, result := .ok (some text, .included) }
      else X.recover url fetched.connections .missing

end External

/-! ## The sidecar's answer -/

/-- A response that can be read: an empty one, or a text without surrogates. -/
def ResponseHandled (body : Reply) : Prop :=
  body.truthy → ∃ s, body = .str s ∧ ∀ c ∈ s, ¬ Codes.IsSurrogate c

/-- An answer whose text can be read: its solution is an empty value, or an object with a response
that can be read. -/
def SolutionHandled (payload : List (Codes × Reply)) : Prop :=
  (Reply.get payload "solution").truthy → ∃ solution, Reply.get payload "solution" = .dict solution ∧
    ResponseHandled (Reply.get solution "response")

/-- A body that `challenge_bypass_fetch` can read. -/
def Envelope.Handled : Envelope → Prop
  | .json (.dict payload) => (Reply.get payload "status").isText "ok" → SolutionHandled payload
  | .json _ | .notJson | .undecodable => True
  | .tooManyDigits | .tooDeep => False

/-- What `challenge_bypass_fetch` can read: the request fails with an `HTTPError`, the status is not
200, or the body can be read. -/
def Post.Handled : Post → Prop
  | .raises e => e = .httpError
  | .answers status envelope => status = 200 → envelope.Handled

theorem encode_isOk {s : Codes} :
    (s.encode : Except (Exc FetchError) _).isOk ↔ ∀ c ∈ s, ¬ Codes.IsSurrogate c := by
  unfold Codes.encode
  split_ifs with h <;> simpa using h

theorem responseBody_isOk {body : Reply} : (responseBody body).isOk ↔ ResponseHandled body := by
  unfold responseBody ResponseHandled
  cases ht : body.truthy with
  | false => simp
  | true =>
    cases body with
    | str s => simpa using encode_isOk
    | _ => simp

theorem solutionBody_isOk {payload : List (Codes × Reply)} :
    (solutionBody payload).isOk ↔ SolutionHandled payload := by
  unfold solutionBody SolutionHandled
  generalize Reply.get payload "solution" = solution
  cases ht : solution.truthy with
  | false =>
    simp only [ht, if_neg Bool.false_ne_true]
    exact iff_of_true rfl nofun
  | true =>
    cases solution with
    | dict solution => simpa [ht] using responseBody_isOk
    | _ => simp [ht]

/-- **The sidecar's answer is handled exactly when it can be read.** -/
theorem Post.read_isOk {post : Post} : post.read.isOk ↔ post.Handled := by
  cases post with
  | raises e => cases e <;> simp [Post.read, Post.Handled]
  | answers status envelope =>
    by_cases hs : status = 200
    · cases envelope with
      | json v =>
        cases v with
        | dict payload =>
          cases hok : (Reply.get payload "status").isText "ok" with
          | false => simp [Post.read, Post.Handled, Envelope.Handled, hs, hok]
          | true => simpa [Post.read, Post.Handled, Envelope.Handled, hs, hok] using solutionBody_isOk
        | _ => simp [Post.read, Post.Handled, Envelope.Handled, hs]
      | _ => simp [Post.read, Post.Handled, Envelope.Handled, hs]
    · simp [Post.read, Post.Handled, hs]

/-! ## The handoff -/

namespace External

variable {X : External} {url : String}

/-- The URL parses as http or https, with this host. -/
structure IsWeb (X : External) (url : String) (parts : SplitResult) (host : List Char) : Prop where
  parses : urlsplit X.unicode url.toList = some parts
  scheme : parts.scheme = "http".toList ∨ parts.scheme = "https".toList
  hostname : parts.hostname X.unicode = some host
  host_ne : host ≠ []

/-- The host is an address that is not blocked, or a name and no address that it resolves to is. -/
def Allowed (X : External) (parts : SplitResult) (host : List Char) : Prop :=
  match ipAddress host with
  | some ip => ipIsBlocked ip = false
  | none => ∃ port infos, parts.port = some port ∧ X.getaddrinfo host port = .ok infos ∧
      ∀ text ∈ infos, ∀ ip, ipAddress text = some ip → ipIsBlocked ip = false

/-- The lookup before the handoff raises an `OSError` that is no `gaierror`. -/
def LookupFails (X : External) (parts : SplitResult) (host : List Char) : Prop :=
  ipAddress host = none ∧ ∃ port, parts.port = some port ∧ X.getaddrinfo host port = .error .osError

variable {parts : SplitResult} {host : List Char}

theorem isFetchableWebUrl_iff :
    X.isFetchableWebUrl url ↔ ∃ parts host, X.IsWeb url parts host := by
  unfold isFetchableWebUrl
  constructor
  · intro h
    cases hp : urlsplit X.unicode url.toList with
    | none => simp [hp] at h
    | some parts =>
      simp only [hp, Bool.and_eq_true, Bool.or_eq_true, decide_eq_true_eq] at h
      obtain ⟨hs, hh⟩ := h
      split at hh
      · cases hh
      · cases hh
      · next host hne hhost => exact ⟨parts, host, hp, hs, hhost, hne⟩
  · rintro ⟨parts, host, hp, hs, hhost, hne⟩
    simp only [hp, hhost]
    cases host with
    | nil => exact absurd rfl hne
    | cons c host => simpa using hs

/-- The pre-check of a URL that parses with a host. -/
theorem IsWeb.preCheck_eq (h : X.IsWeb url parts host) : X.preCheck url =
    match ipAddress host with
    | some ip =>
      .ok (if ipIsBlocked ip then some s!"host is a blocked address ({ip.toText})" else none)
    | none => Ssrf.resolvedBlockReason
      (fun host port => (X.getaddrinfo host port).mapError LookupError.raised) host parts.port := by
  obtain ⟨hp, -, hhost, hne⟩ := h
  cases host with
  | nil => exact absurd rfl hne
  | cons c host =>
    simp only [preCheck, Ssrf.destinationBlockReason, hp, hhost]
    cases ipAddress (c :: host) <;> rfl

/-- **The pre-check lets a URL through exactly when its addresses are allowed.** -/
theorem IsWeb.preCheck_eq_none (h : X.IsWeb url parts host) :
    X.preCheck url = .ok none ↔ X.Allowed parts host := by
  rw [h.preCheck_eq, Allowed]
  cases ipAddress host with
  | some ip => cases ipIsBlocked ip <;> simp
  | none =>
    unfold Ssrf.resolvedBlockReason
    cases parts.port with
    | none => simp
    | some port =>
      cases hl : X.getaddrinfo host port with
      | error e => cases e <;> simp [hl, Except.mapError, LookupError.raised]
      | ok infos =>
        have hfind : (infos.filterMap ipAddress).find? ipIsBlocked = none ↔
            ∀ text ∈ infos, ∀ ip, ipAddress text = some ip → ipIsBlocked ip = false := by
          rw [List.find?_eq_none]
          constructor
          · intro h text htext ip hip
            exact Bool.eq_false_iff.mpr (h ip (List.mem_filterMap.mpr ⟨text, htext, hip⟩))
          · intro h ip hip
            obtain ⟨text, htext, hip⟩ := List.mem_filterMap.mp hip
            exact Bool.eq_false_iff.mp (h text htext ip hip)
        simp only [hl, Except.mapError, Except.ok.injEq, Option.map_eq_none_iff, hfind,
          Option.some.injEq, exists_and_left, exists_eq_left']

/-- What the pre-check lets through as an exception. -/
theorem IsWeb.preCheck_isOk (h : X.IsWeb url parts host) :
    (X.preCheck url).isOk ↔ ¬ X.LookupFails parts host := by
  rw [h.preCheck_eq, LookupFails]
  cases ipAddress host with
  | some ip => simp
  | none =>
    unfold Ssrf.resolvedBlockReason
    cases parts.port with
    | none => simp
    | some port =>
      cases hl : X.getaddrinfo host port with
      | error e => cases e <;> simp [hl, Except.mapError, LookupError.raised]
      | ok infos => simp [hl, Except.mapError]

/-- The URL leads to nothing that is blocked. -/
def Cleared (X : External) (url : String) : Prop :=
  ∃ parts host, X.IsWeb url parts host ∧ X.Allowed parts host

/-- What the fallback needs: the lookup does not raise, and a URL that is handed over comes back with
an answer that can be read. -/
def FallbackSafe (X : External) (url : String) : Prop :=
  X.challengeBypassUrl ≠ "" → ∀ parts host, X.IsWeb url parts host →
    ¬ X.LookupFails parts host ∧ (X.endpoint ≠ [] → X.Allowed parts host → X.post.Handled)

/-- A URL is handed over only if it leads to nothing that is blocked. -/
theorem challengeFallback_handed {u : String} (h : u ∈ (X.challengeFallback url).handed) :
    X.Cleared u := by
  unfold challengeFallback at h
  split_ifs at h with hset hweb
  · cases h
  · cases h
  · split at h
    · cases h
    · cases h
    · next hcheck =>
      obtain ⟨parts, host, hweb⟩ := isFetchableWebUrl_iff.mp (by simpa using hweb)
      have hu : u = url := by
        unfold challengeBypassFetch at h
        split_ifs at h
        · cases h
        · exact List.mem_singleton.mp h
      exact ⟨parts, host, hu ▸ hweb, hweb.preCheck_eq_none.mp hcheck⟩

/-- The fallback gives no empty text. -/
theorem challengeFallback_text {text : String}
    (h : (X.challengeFallback url).result = .ok (some text)) : text ≠ "" := by
  unfold challengeFallback at h
  split_ifs at h with hset hweb
  · cases h
  · cases h
  · split at h
    · cases h
    · cases h
    · obtain ⟨html, -, h⟩ := Except.map_eq_ok.mp h
      simpa using (Option.filter_eq_some_iff.mp h).2

/-- **The fallback returns exactly when it is safe.** -/
theorem challengeFallback_isOk : (X.challengeFallback url).result.isOk ↔ X.FallbackSafe url := by
  unfold challengeFallback FallbackSafe
  by_cases hset : X.challengeBypassUrl = ""
  · simp [hset]
  cases hweb : X.isFetchableWebUrl url with
  | false =>
    have hno : ∀ parts host, ¬ X.IsWeb url parts host := fun parts host h => by
      rw [isFetchableWebUrl_iff.mpr ⟨parts, host, h⟩] at hweb
      cases hweb
    simp [hset, hno]
  | true =>
    obtain ⟨parts, host, h⟩ := isFetchableWebUrl_iff.mp hweb
    have hone : ∀ {parts' host'}, X.IsWeb url parts' host' → parts' = parts ∧ host' = host := by
      intro parts' host' h'
      obtain rfl := Option.some.inj (h'.parses.symm.trans h.parses)
      exact ⟨rfl, Option.some.inj (h'.hostname.symm.trans h.hostname)⟩
    have hall : (∀ parts host, X.IsWeb url parts host → ¬ X.LookupFails parts host ∧
        (X.endpoint ≠ [] → X.Allowed parts host → X.post.Handled)) ↔
        ¬ X.LookupFails parts host ∧ (X.endpoint ≠ [] → X.Allowed parts host → X.post.Handled) := by
      refine ⟨fun hall => hall parts host h, fun hsafe parts' host' h' => ?_⟩
      obtain ⟨rfl, rfl⟩ := hone h'
      exact hsafe
    rw [if_neg hset, if_neg (by simp), forall_prop_of_true hset, hall, ← h.preCheck_isOk,
      ← h.preCheck_eq_none]
    cases X.preCheck url with
    | error e => simp
    | ok reason =>
      cases reason with
      | some reason => simp
      | none =>
        unfold challengeBypassFetch
        by_cases hend : X.endpoint = []
        · simp [hend]
        · simp [hend, Post.read_isOk]

/-! ## The enrichment -/

/-- What an enrichment promises: it returns; there is content exactly when the status says so; a
connection is opened to an address that is not blocked; and a URL is handed over only if it leads to
nothing that is blocked. -/
structure BestEffort (X : External) (out : Enrichment) : Prop where
  returns : out.result.isOk
  content : ∀ content status, out.result = .ok (content, status) →
    ((∃ text, content = some text ∧ text ≠ "") ↔ status = .included ∨ status = .includedViaFallback)
  connections : ∀ target ∈ out.connections,
    ∃ ip, ipAddress target = some ip ∧ ipIsBlocked ip = false
  handed : ∀ u ∈ out.handed, X.Cleared u

/-- The direct request gives no article. -/
def NoArticle (X : External) (url : String) : Prop :=
  ∀ html, (fetchUrlSafely maxArticleBytes url X.exchange).result = .ok html →
    X.extractArticleText html = ""

/-- What an enrichment needs: the direct request can read every lookup that it gets to, and where it
gives no article the fallback is safe. -/
structure Safe (X : External) (url : String) : Prop where
  readable : X.exchange.Readable
  fallback : X.NoArticle url → X.FallbackSafe url

/-- The cases of an enrichment that is enabled for a link: an exception, an article, or the
fallback. -/
theorem resolve_cases (hurl : url ≠ "") :
    (∃ e, (fetchUrlSafely maxArticleBytes url X.exchange).result = .error e ∧ ¬ Swallowed e ∧
      X.resolveExternalContent url true =
        ⟨(fetchUrlSafely maxArticleBytes url X.exchange).connections, [], .error e⟩) ∨
    (∃ html, (fetchUrlSafely maxArticleBytes url X.exchange).result = .ok html ∧
      X.extractArticleText html ≠ "" ∧ X.resolveExternalContent url true =
        ⟨(fetchUrlSafely maxArticleBytes url X.exchange).connections, [],
          .ok (some (X.extractArticleText html), .included)⟩) ∨
    (X.NoArticle url ∧
      (∀ e, (fetchUrlSafely maxArticleBytes url X.exchange).result = .error e → Swallowed e) ∧
      ∃ status, (status = .unavailable ∨ status = .missing) ∧ X.resolveExternalContent url true =
        X.recover url (fetchUrlSafely maxArticleBytes url X.exchange).connections status) := by
  unfold resolveExternalContent NoArticle
  simp only [Bool.not_true, Bool.false_eq_true, if_false, if_neg hurl]
  cases hf : (fetchUrlSafely maxArticleBytes url X.exchange).result with
  | error e =>
    dsimp only
    by_cases hs : Swallowed e
    · refine .inr (.inr ⟨nofun, fun e' he => Except.error.inj he ▸ hs, .unavailable, .inl rfl, ?_⟩)
      rw [if_pos hs]
    · refine .inl ⟨e, rfl, hs, ?_⟩
      rw [if_neg hs]
  | ok html =>
    dsimp only
    by_cases ht : X.extractArticleText html = ""
    · refine .inr (.inr ⟨fun html' h => Except.ok.inj h ▸ ht, nofun, .missing, .inr rfl, ?_⟩)
      rw [if_neg (not_not.mpr ht)]
    · refine .inr (.inl ⟨html, rfl, ht, ?_⟩)
      rw [if_pos ht]

theorem recover_content {connections : List (List Char)} {status status' : ExternalContentStatus}
    {content : Option String} (hs : status = .unavailable ∨ status = .missing)
    (h : (X.recover url connections status).result = .ok (content, status')) :
    (∃ text, content = some text ∧ text ≠ "") ↔
      status' = .included ∨ status' = .includedViaFallback := by
  obtain ⟨recovered, hr, h⟩ := Except.map_eq_ok.mp h
  cases recovered with
  | none =>
    cases h
    rcases hs with rfl | rfl <;> simp
  | some text =>
    cases h
    exact iff_of_true ⟨text, rfl, challengeFallback_text hr⟩ (.inr rfl)

/-- **An enrichment keeps its promise exactly when it is safe**, or has nothing to do. -/
theorem bestEffort_iff (X : External) (url : String) (enabled : Bool) :
    X.BestEffort (X.resolveExternalContent url enabled) ↔
      (enabled = true ∧ url ≠ "" → X.Safe url) := by
  cases enabled with
  | false =>
    refine iff_of_true ⟨rfl, ?_, nofun, nofun⟩ nofun
    intro content status h
    cases h
    simp
  | true =>
    by_cases hurl : url = ""
    · refine iff_of_true ?_ (fun h => absurd hurl h.2)
      subst hurl
      refine ⟨rfl, ?_, nofun, nofun⟩
      intro content status h
      cases h
      simp
    rw [forall_prop_of_true ⟨rfl, hurl⟩]
    rcases resolve_cases hurl with ⟨e, hf, hs, heq⟩ | ⟨html, hf, ht, heq⟩ |
      ⟨hno, hswallowed, status, hstatus, heq⟩
    · refine iff_of_false ?_ ?_
      · intro h
        have hret := h.returns
        rw [heq] at hret
        cases hret
      · intro h
        exact hs (readable_iff.mp h.readable e hf)
    · have hswallowed : ∀ e, (fetchUrlSafely maxArticleBytes url X.exchange).result = .error e →
          Swallowed e := by
        intro e he
        rw [hf] at he
        cases he
      refine iff_of_true ?_ ⟨readable_iff.mpr hswallowed, ?_⟩
      · rw [heq]
        refine ⟨rfl, ?_, ?_, nofun⟩
        · intro content status h
          cases h
          exact iff_of_true ⟨_, rfl, ht⟩ (.inl rfl)
        · intro target h
          exact connections_allowed h
      · intro hno
        exact absurd (hno html hf) ht
    · have hreadable : X.exchange.Readable := readable_iff.mpr hswallowed
      rw [heq]
      constructor
      · intro h
        have hret := h.returns
        rw [recover, Except.isOk_map, challengeFallback_isOk] at hret
        exact ⟨hreadable, fun _ => hret⟩
      · intro h
        refine ⟨?_, fun content status' => recover_content hstatus, ?_, ?_⟩
        · rw [recover, Except.isOk_map, challengeFallback_isOk]
          exact h.fallback hno
        · intro target h
          exact connections_allowed h
        · intro u hu
          exact challengeFallback_handed hu

/-- A deployment without a sidecar, and a link whose host has an empty label. -/
def badLabel : External where
  unicode := asciiUnicode
  challengeBypassUrl := ""
  exchange := .connect "a..b".toList (.error .unicodeError) true fun _ => .raises .httpError
  getaddrinfo _ _ := .error .unicodeError
  post := .raises .httpError
  extractArticleText _ := ""

/-- The lookup of the direct request raises a `UnicodeError`, and no one catches it. -/
theorem bad_label_crashes :
    (badLabel.resolveExternalContent "http://a..b/" true).result = .error .valueError ∧
      ¬ badLabel.BestEffort (badLabel.resolveExternalContent "http://a..b/" true) := by
  have h : (badLabel.resolveExternalContent "http://a..b/" true).result = .error .valueError := by
    rfl
  refine ⟨h, fun hbest => ?_⟩
  have hret := hbest.returns
  rw [h] at hret
  cases hret

end External

end OpenMagpie
