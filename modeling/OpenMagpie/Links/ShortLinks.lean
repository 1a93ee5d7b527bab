import OpenMagpie.Lib.Interleave
import OpenMagpie.Lib.Table
import OpenMagpie.Lib.Url
import OpenMagpie.Watches.Kinds
import Mathlib.Tactic.Linarith

/-!
# Short links

A code redirects to a URL, and a visit is recorded once per visitor and window: a visit is recorded
only when it can add its key to the dedup cache, whose entries expire. The cache is a database table,
so its `add` reads the entry and writes it in two statements.

* `ShortLinkService.create`, `ShortLinkService.recordClick`: minting a link, and the row of a click.
* `LinkThread.Step`: a visit statement by statement, around it links created and revoked, and faults
  of the cache.
* `PassesOk`, `LinkThread.Knows`: the invariant. An entry of the cache covers the visits that wrote
  it, and a visit that read it knows of every visit that ended before it began.
* **`clicks_apart`**: without faults, two recorded clicks of one visitor on one link are a window
  apart, up to the time a visit may take, unless their visits overlap.
-/

set_option autoImplicit false

namespace OpenMagpie.Links

open Interleave

/-! ## Rows and requests -/

/-- A link. -/
structure ShortLink where
  id : Id
  code : String
  url : String
  deriving DecidableEq

/-- A recorded click. For the record it keeps when its visit began to look at the cache, when the
cache read the clock, and when the visit wrote its entry. -/
structure ClickEvent where
  id : Id
  shortLinkId : Id
  ipHash : String := ""
  country : String := ""
  ua : String := ""
  ref : String := ""
  startedAt : Time := 0
  readAt : Time := 0
  wroteAt : Time := 0
  deriving DecidableEq

/-- What a visit reads of its request. -/
structure ClickRequest where
  remoteAddr : Option String := none
  cfConnectingIp : Option String := none
  cfIpCountry : Option String := none
  userAgent : Option String := none
  referer : Option String := none

/-- The settings, the salted hash of an address, and the character database. -/
structure LinkConfig where
  trustCfHeaders : Bool := false
  hashIp : String → String
  unicode : Url.Unicode

def codeMaxLength : ℕ := 64
def maxCodeTries : ℕ := 8
def propMax : ℕ := 500
def countryCodeLength : ℕ := 2
def unknownCountry : String := "??"
def clickDedupWindowSeconds : Time := 30 * 60

/-! ## The request -/

variable (K : LinkConfig)

/-- `_client_ip`. -/
def clientIp (request : ClickRequest) : String :=
  if K.trustCfHeaders && !(request.cfConnectingIp.getD "").isEmpty then
    request.cfConnectingIp.getD ""
  else request.remoteAddr.getD ""

/-- `_client_country`. -/
def clientCountry (request : ClickRequest) : String :=
  if K.trustCfHeaders then
    String.ofList ((request.cfIpCountry.getD "").toList.take countryCodeLength)
  else ""

/-- `_referer_origin`, none where `urlsplit` raises. -/
def refererOrigin (referer : String) : Option String :=
  (Url.urlsplit K.unicode referer.toList).map fun parts =>
    match parts.scheme, parts.hostname K.unicode with
    | [], _ | _, none => ""
    | scheme, some host =>
      let host := if ':' ∈ host then '[' :: host ++ [']'] else host
      let port := match parts.port with
        | some (some (n + 1)) => ':' :: (n + 1).repr.toList
        | _ => []
      String.ofList ((scheme ++ "://".toList ++ host ++ port).take propMax)

/-- The visitor of a request, blank without an address. -/
def ipHash (request : ClickRequest) : String :=
  if (clientIp K request).isEmpty then "" else K.hashIp (clientIp K request)

/-! ## The service -/

/-- Why a link is refused. -/
inductive CreateError
  | urlRequired
  | invalidUrl
  | invalidCode
  | taken
  | noUniqueCode
  deriving DecidableEq

/-- A character of a custom slug. -/
def isSlugChar (c : Char) : Bool := c.isAlphanum || c = '-' || c = '_'

namespace ShortLinkService

/-- `_insert`, none on a collision of codes. -/
def insert (id : Id) (code url : String) (links : List ShortLink) : Option (List ShortLink) :=
  if code ∈ links.map (·.code) then none else some (links ++ [⟨id, code, url⟩])

/-- `_insert_with_random_code`, from the codes that are drawn. -/
def insertWithRandomCode (id : Id) (url : String) :
    List String → List ShortLink → Except CreateError (List ShortLink)
  | [], _ => .error .noUniqueCode
  | code :: draws, links =>
    match insert id code url links with
    | some links' => .ok links'
    | none => insertWithRandomCode id url draws links

/-- The check of the destination. -/
def isAbsolute (url : List Char) : Bool :=
  match Url.urlsplit K.unicode url with
  | some parts => (parts.scheme = "http".toList || parts.scheme = "https".toList) &&
      parts.netloc ≠ []
  | none => false

/-- `SLUG_RE.match` on a stripped slug. -/
def isSlug (slug : List Char) : Bool :=
  slug ≠ [] && slug.length ≤ codeMaxLength && slug.all isSlugChar

/-- `create`. -/
def create (id : Id) (url : String) (code : Option String) (draws : List String)
    (links : List ShortLink) : Except CreateError (List ShortLink) :=
  let url := strip url.toList
  if url = [] then .error .urlRequired
  else if !isAbsolute K url then .error .invalidUrl
  else match code with
    | none => insertWithRandomCode id (String.ofList url) (draws.take maxCodeTries) links
    | some code =>
      let slug := strip code.toList
      if !isSlug slug then .error .invalidCode
      else match insert id (String.ofList slug) (String.ofList url) links with
        | some links' => .ok links'
        | none => .error .taken

/-- `find_by_code`. -/
def findByCode (code : String) (links : List ShortLink) : Option ShortLink :=
  links.find? fun l => decide (l.code = code)

/-- `delete`: the link's events and the link. -/
def delete (code : String) (links : List ShortLink) (events : List ClickEvent) :
    List ShortLink × List ClickEvent :=
  match findByCode code links with
  | none => (links, events)
  | some link => (links.filter (·.id ≠ link.id), events.filter (·.shortLinkId ≠ link.id))

/-- The row of `record_click`, none where the referer does not parse. -/
def recordClick (id : Id) (link : Id) (request : ClickRequest) : Option ClickEvent :=
  (refererOrigin K (request.referer.getD "")).map fun ref =>
    { id := id
      shortLinkId := link
      ipHash := ipHash K request
      country := clientCountry K request
      ua := String.ofList ((request.userAgent.getD "").toList.take propMax)
      ref := ref }

end ShortLinkService

/-! ## The system -/

/-- A visit that wrote its entry: the entry's key, when the visit began, when the cache read the
clock, and when the entry was written. -/
structure Pass where
  key : Id × String
  startedAt : Time
  readAt : Time
  wroteAt : Time

/-- The tables, the entries of the dedup cache by link and visitor, with their expiry, and the
clock; and, for the record, the visits that wrote an entry. -/
structure LinkStore where
  clock : Time := 0
  links : List ShortLink := []
  events : List ClickEvent := []
  cache : Id × String → Option Time := fun _ => none
  passes : List Pass := []

/-- The visit's entry is written. -/
def LinkStore.pass (s : LinkStore) (key : Id × String) (startedAt readAt : Time) : LinkStore :=
  { s with
    cache := Function.update s.cache key (some (startedAt + clickDedupWindowSeconds))
    passes := ⟨key, startedAt, readAt, s.clock⟩ :: s.passes }

/-- Where a thread stands. A visit has found its link, begun to add its entry, read the entry that
is there, and passed. -/
inductive LinkThread
  | idle
  | found (link : Id) (request : ClickRequest)
  | adding (link : Id) (request : ClickRequest) (startedAt : Time)
  | selected (link : Id) (request : ClickRequest) (startedAt readAt : Time) (entry : Option Time)
  | passed (link : Id) (request : ClickRequest) (startedAt readAt wroteAt : Time)
  | clock

/-- What may go wrong with the cache. -/
inductive LinkFault
  | cacheError
  | cull
  deriving DecidableEq

variable (faults : LinkFault → Prop)

/-- The steps of the shortener. -/
inductive LinkThread.Step : ThreadRel LinkStore LinkThread
  -- a visit
  | lookup {s : LinkStore} {code : String} {link : ShortLink} (request : ClickRequest)
      (hl : ShortLinkService.findByCode code s.links = some link) :
      Step .idle s s (.found link.id request)
  | noIp {s : LinkStore} {link : Id} {request : ClickRequest} (hip : ipHash K request = "") :
      Step (.found link request) s s (.passed link request s.clock s.clock s.clock)
  | start {s : LinkStore} {link : Id} {request : ClickRequest} (hip : ipHash K request ≠ "") :
      Step (.found link request) s s (.adding link request s.clock)
  | select {s : LinkStore} {link : Id} {request : ClickRequest} {startedAt : Time} (readAt : Time)
      (hs : startedAt ≤ readAt) (hr : readAt ≤ s.clock) :
      Step (.adding link request startedAt) s s
        (.selected link request startedAt readAt (s.cache (link, ipHash K request)))
  -- the entry has expired, and is overwritten
  | update {s : LinkStore} {link : Id} {request : ClickRequest} {startedAt readAt x : Time}
      (hx : x < readAt) (hc : (s.cache (link, ipHash K request)).isSome) :
      Step (.selected link request startedAt readAt (some x)) s
        (s.pass (link, ipHash K request) startedAt readAt)
        (.passed link request startedAt readAt s.clock)
  -- the entry that an update would overwrite has been culled
  | updateNone {s : LinkStore} {link : Id} {request : ClickRequest} {startedAt readAt x : Time}
      (hx : x < readAt) (hc : s.cache (link, ipHash K request) = none) :
      Step (.selected link request startedAt readAt (some x)) s s
        (.passed link request startedAt readAt s.clock)
  | insert {s : LinkStore} {link : Id} {request : ClickRequest} {startedAt readAt : Time}
      (hc : s.cache (link, ipHash K request) = none) :
      Step (.selected link request startedAt readAt none) s
        (s.pass (link, ipHash K request) startedAt readAt)
        (.passed link request startedAt readAt s.clock)
  -- the entry is there: the visitor was seen recently
  | seen {s : LinkStore} {link : Id} {request : ClickRequest} {startedAt readAt : Time}
      {entry : Option Time} (hx : ∀ x ∈ entry, readAt ≤ x)
      (hc : (s.cache (link, ipHash K request)).isSome) :
      Step (.selected link request startedAt readAt entry) s s .idle
  -- an insert under the key of an entry that was read and has been culled
  | insertCulled {s : LinkStore} {link : Id} {request : ClickRequest} {startedAt readAt x : Time}
      (hx : readAt ≤ x) (hc : s.cache (link, ipHash K request) = none) :
      Step (.selected link request startedAt readAt (some x)) s
        (s.pass (link, ipHash K request) startedAt readAt)
        (.passed link request startedAt readAt s.clock)
  | cacheError {s : LinkStore} {link : Id} {request : ClickRequest} {startedAt : Time}
      (hf : faults .cacheError) :
      Step (.adding link request startedAt) s s (.passed link request startedAt s.clock s.clock)
  | record {s : LinkStore} {link id : Id} {request : ClickRequest}
      {startedAt readAt wroteAt : Time} {e : ClickEvent} (hid : ∀ e ∈ s.events, e.id ≠ id)
      (he : ShortLinkService.recordClick K id link request = some e) :
      Step (.passed link request startedAt readAt wroteAt) s
        { s with
          events := s.events ++
            [{ e with startedAt := startedAt, readAt := readAt, wroteAt := wroteAt }] } .idle
  -- the click is not recorded, or the process ends
  | drop {s : LinkStore} {t : LinkThread} : Step t s s .idle
  -- around the visits
  | create {s : LinkStore} {id : Id} {url : String} {code : Option String} {draws : List String}
      {links : List ShortLink} (hid : ∀ l ∈ s.links, l.id ≠ id)
      (hc : ShortLinkService.create K id url code draws s.links = .ok links) :
      Step .idle s { s with links := links } .idle
  | delete {s : LinkStore} {code : String} :
      Step .idle s
        { s with
          links := (ShortLinkService.delete code s.links s.events).1
          events := (ShortLinkService.delete code s.links s.events).2 } .idle
  | cull {s : LinkStore} {k : Id × String} (hf : faults .cull) :
      Step .idle s { s with cache := Function.update s.cache k none } .idle
  | tick {s : LinkStore} {now : Time} (hn : s.clock ≤ now) :
      Step .clock s { s with clock := now } .clock

/-- Links with ids and codes of their own, no events and no visits, and any cache. -/
def LinkInit (c : Conf LinkStore LinkThread) : Prop :=
  (c.shared.links.map (·.id)).Nodup ∧ (c.shared.links.map (·.code)).Nodup ∧ c.shared.events = [] ∧
    c.shared.passes = [] ∧ ∀ p, c.thread p = .idle ∨ c.thread p = .clock

/-- No visit takes longer than `D` to write its entry. -/
def Prompt (D : Time) : StepCond LinkStore LinkThread := fun _ _ _ t =>
  match t with
  | .passed _ _ startedAt _ wroteAt => wroteAt ≤ startedAt + D
  | _ => True

/-! ## Clicks of one visitor -/

/-- Two visits of one visitor to one link, one after the other, are apart. -/
def Apart (D : Time) (x y : Pass) : Prop :=
  x.key = y.key → x.wroteAt < y.startedAt → x.startedAt + clickDedupWindowSeconds - D < y.readAt

/-- A visit's times, and the entry it leaves: a slower visit may have written it again since. -/
structure PassOk (D : Time) (s : LinkStore) (x : Pass) : Prop where
  started : x.startedAt ≤ x.wroteAt
  wrote : x.wroteAt ≤ s.clock
  prompt : x.wroteAt ≤ x.startedAt + D
  entry : ∃ e ∈ s.cache x.key, x.startedAt + clickDedupWindowSeconds - D ≤ e

/-- The visits in the record, and the events, which come from them. -/
structure PassesOk (D : Time) (s : LinkStore) : Prop where
  each : ∀ x ∈ s.passes, PassOk D s x
  apart : ∀ x ∈ s.passes, ∀ y ∈ s.passes, Apart D x y
  events : ∀ e ∈ s.events, e.ipHash ≠ "" →
    ⟨(e.shortLinkId, e.ipHash), e.startedAt, e.readAt, e.wroteAt⟩ ∈ s.passes

/-- What a visit knows of the entry it read: it is still there, and it covers the visits that ended
before this one began. -/
def LinkThread.Knows (D : Time) (s : LinkStore) : LinkThread → Prop
  | .adding _ _ startedAt => startedAt ≤ s.clock
  | .selected link request startedAt _ entry =>
    startedAt ≤ s.clock ∧ (entry.isSome → (s.cache (link, ipHash K request)).isSome) ∧
      ∀ x ∈ s.passes, x.key = (link, ipHash K request) → x.wroteAt < startedAt →
        ∃ e ∈ entry, x.startedAt + clickDedupWindowSeconds - D ≤ e
  | .passed link request startedAt readAt wroteAt => ipHash K request ≠ "" →
    ⟨(link, ipHash K request), startedAt, readAt, wroteAt⟩ ∈ s.passes
  | _ => True

variable {K faults} {s s' : LinkStore} {t t' : LinkThread} {D : Time}

/-- **What a step does to the cache**, when nothing goes wrong with it: nothing, or one visit writes
its entry after one that has expired, or none. -/
theorem LinkThread.Step.cache_cases (hf : ∀ f, ¬ faults f) (h : Step K faults t s s' t')
    (ht : t.Knows K D s) :
    (s'.cache = s.cache ∧ s'.passes = s.passes) ∨
      ∃ link request startedAt readAt entry, t = .selected link request startedAt readAt entry ∧
        t' = .passed link request startedAt readAt s.clock ∧
        s' = s.pass (link, ipHash K request) startedAt readAt ∧
        ((∃ x ∈ entry, x < readAt) ∨
          entry = none ∧ s.cache (link, ipHash K request) = none) := by
  cases h with
  | update hx hc => exact .inr ⟨_, _, _, _, _, rfl, rfl, rfl, .inl ⟨_, rfl, hx⟩⟩
  | updateNone hx hc =>
    have hsome := ht.2.1 rfl
    rw [hc] at hsome
    cases hsome
  | insert hc => exact .inr ⟨_, _, _, _, _, rfl, rfl, rfl, .inr ⟨rfl, hc⟩⟩
  | insertCulled hx hc =>
    have hsome := ht.2.1 rfl
    rw [hc] at hsome
    cases hsome
  | cacheError h => exact absurd h (hf _)
  | cull h => exact absurd h (hf _)
  | _ => exact .inl ⟨rfl, rfl⟩

theorem LinkThread.Step.clock_le (h : Step K faults t s s' t') : s.clock ≤ s'.clock := by
  cases h with
  | tick hn => exact hn
  | _ => exact Int.le_refl _

/-- Where the events after a step come from. -/
theorem LinkThread.Step.events_cases (h : Step K faults t s s' t') {e : ClickEvent}
    (he : e ∈ s'.events) : e ∈ s.events ∨ ∃ link request, e.shortLinkId = link ∧
      e.ipHash = ipHash K request ∧
      t = .passed link request e.startedAt e.readAt e.wroteAt := by
  cases h with
  | record hid hrow =>
    rcases List.mem_append.mp he with he | he
    · exact .inl he
    · obtain rfl := List.mem_singleton.mp he
      obtain ⟨ref, -, rfl⟩ := Option.map_eq_some_iff.mp hrow
      exact .inr ⟨_, _, rfl, rfl, rfl⟩
  | @delete s code =>
    refine .inl ?_
    simp only [ShortLinkService.delete] at he
    split at he
    · exact he
    · exact List.mem_of_mem_filter he
  | _ => exact .inl he

/-! ## One step -/

theorem PassOk.of_cache {x : Pass} (h : PassOk D s x) (hcache : s'.cache = s.cache)
    (hclock : s.clock ≤ s'.clock) : PassOk D s' x :=
  { h with
    wrote := by have := h.wrote; linarith
    entry := by rw [hcache]; exact h.entry }

theorem LinkStore.pass_cache_isSome {key k : Id × String} {startedAt readAt : Time}
    (h : (s.cache k).isSome) : ((s.pass key startedAt readAt).cache k).isSome := by
  by_cases hk : k = key
  · subst hk
    simp [LinkStore.pass]
  · simpa [LinkStore.pass, hk] using h

/-- The invariant, after a visit wrote its entry: a slower visit may have overwritten a later expiry
with an earlier one, by less than `D`. -/
theorem PassesOk.pass (h : PassesOk D s) {link : Id} {request : ClickRequest}
    {startedAt readAt : Time} {entry : Option Time}
    (ht : LinkThread.Knows K D s (.selected link request startedAt readAt entry))
    (hprompt : s.clock ≤ startedAt + D)
    (hentry : (∃ x ∈ entry, x < readAt) ∨ entry = none) :
    PassesOk D (s.pass (link, ipHash K request) startedAt readAt) := by
  obtain ⟨hstart, -, hcover⟩ := ht
  refine ⟨fun x hx => ?_, fun x hx y hy hkey hlt => ?_, fun e he hne => ?_⟩
  · rcases List.mem_cons.mp hx with rfl | hx
    · refine ⟨hstart, Int.le_refl _, hprompt, startedAt + clickDedupWindowSeconds, ?_, ?_⟩
      · simp [LinkStore.pass]
      · show startedAt + clickDedupWindowSeconds - D ≤ startedAt + clickDedupWindowSeconds
        linarith
    · obtain ⟨hs, hw, hp, e, he, hle⟩ := h.each x hx
      refine ⟨hs, hw, hp, ?_⟩
      by_cases hk : x.key = (link, ipHash K request)
      · refine ⟨startedAt + clickDedupWindowSeconds, ?_, by linarith⟩
        simp [LinkStore.pass, hk]
      · exact ⟨e, by simpa [LinkStore.pass, hk] using he, hle⟩
  · rcases List.mem_cons.mp hy with rfl | hy <;> rcases List.mem_cons.mp hx with rfl | hx
    · change s.clock < startedAt at hlt
      linarith
    · -- the visit that ended before: its entry was read, and had expired
      obtain ⟨e, he, hle⟩ := hcover x hx hkey hlt
      rcases hentry with ⟨x', hx', hlt'⟩ | rfl
      · obtain rfl : e = x' := Option.some.inj (he.symm.trans hx')
        exact Int.lt_of_le_of_lt hle hlt'
      · cases he
    · have hy' := h.each y hy
      have hs := hy'.started
      have hw := hy'.wrote
      change s.clock < y.startedAt at hlt
      linarith
    · exact h.apart x hx y hy hkey hlt
  · exact List.mem_cons_of_mem _ (h.events e he hne)

theorem PassesOk.step (h : PassesOk D s) (ht : t.Knows K D s) (hf : ∀ f, ¬ faults f)
    (hs : LinkThread.Step K faults t s s' t')
    (hprompt : ∀ link request startedAt readAt wroteAt,
      t' = .passed link request startedAt readAt wroteAt → wroteAt ≤ startedAt + D) :
    PassesOk D s' := by
  rcases hs.cache_cases hf ht with
    ⟨hcache, hpasses⟩ | ⟨link, request, startedAt, readAt, entry, rfl, rfl, rfl, hentry⟩
  · refine ⟨fun x hx => ?_, ?_, fun e he hne => ?_⟩
    · rw [hpasses] at hx
      exact (h.each x hx).of_cache hcache hs.clock_le
    · rw [hpasses]
      exact h.apart
    · rw [hpasses]
      rcases hs.events_cases he with he | ⟨link, request, hlink, hhash, rfl⟩
      · exact h.events e he hne
      · rw [hlink, hhash]
        exact ht (hhash ▸ hne)
  · exact h.pass ht (hprompt _ _ _ _ _ rfl) (hentry.imp_right And.left)

/-- What the visit that takes the step knows after it. -/
theorem LinkThread.Knows.own (h : PassesOk D s) (ht : t.Knows K D s) (hf : ∀ f, ¬ faults f)
    (hs : Step K faults t s s' t') : t'.Knows K D s' := by
  cases hs with
  | noIp hip => exact fun hne => absurd hip hne
  | start hip => exact Int.le_refl _
  | @select s link request startedAt readAt hstart hread =>
    refine ⟨ht, id, fun x hx hkey hlt => ?_⟩
    rw [← hkey]
    exact (h.each x hx).entry
  | update hx hc => exact fun _ => List.mem_cons_self
  | updateNone hx hc =>
    have hsome := ht.2.1 rfl
    rw [hc] at hsome
    cases hsome
  | insert hc => exact fun _ => List.mem_cons_self
  | insertCulled hx hc => exact fun _ => List.mem_cons_self
  | cacheError h => exact absurd h (hf _)
  | _ => trivial

/-- What a visit knows stays true when another thread takes a step: a visit that writes its entry
now ends after this one began. -/
theorem LinkThread.Knows.other {u : LinkThread} (ht : t.Knows K D s) (hu : u.Knows K D s)
    (hf : ∀ f, ¬ faults f) (hs : Step K faults t s s' t') : u.Knows K D s' := by
  have hclock := hs.clock_le
  rcases hs.cache_cases hf ht with
    ⟨hcache, hpasses⟩ | ⟨link, request, startedAt, readAt, entry, rfl, rfl, rfl, -⟩
  · cases u with
    | adding link request startedAt => exact Int.le_trans hu hclock
    | selected link request startedAt readAt entry =>
      refine ⟨Int.le_trans hu.1 hclock, ?_⟩
      rw [hcache, hpasses]
      exact hu.2
    | passed link request startedAt readAt wroteAt =>
      intro hne
      rw [hpasses]
      exact hu hne
    | _ => trivial
  · cases u with
    | adding link request startedAt => exact hu
    | selected link' request' startedAt' readAt' entry' =>
      refine ⟨hu.1, fun hsome => LinkStore.pass_cache_isSome (hu.2.1 hsome), fun x hx hkey hlt => ?_⟩
      rcases List.mem_cons.mp hx with rfl | hx
      · have hle := hu.1
        change s.clock < startedAt' at hlt
        linarith
      · exact hu.2.2 x hx hkey hlt
    | passed link request startedAt readAt wroteAt =>
      exact fun hne => List.mem_cons_of_mem _ (hu hne)
    | _ => trivial

/-! ## Every run -/

/-- Without faults, and with visits that take at most `D`, the invariant holds in every run. -/
theorem passes_ok (hf : ∀ f, ¬ faults f) {c : Conf LinkStore LinkThread}
    (h : ReachIn (LinkThread.Step K faults) LinkInit (Prompt D) c) :
    PassesOk D c.shared ∧ ∀ p, (c.thread p).Knows K D c.shared := by
  refine h.each (fun c hc => ?_) (fun hG hL hs hok => ?_) (fun hG hL hs hok hq => ?_)
  · obtain ⟨-, -, hevents, hpasses, hidle⟩ := hc
    refine ⟨⟨?_, ?_, ?_⟩, fun p => ?_⟩
    · simp [hpasses]
    · simp [hpasses]
    · simp [hevents]
    · rcases hidle p with hp | hp <;> rw [hp] <;> trivial
  · refine ⟨hG.step (hL _) hf hs fun link request startedAt readAt wroteAt he => ?_,
      (hL _).own hG hf hs⟩
    subst he
    exact hok
  · exact (hL _).other (hL _) hf hs

/-- **Two recorded clicks of one visitor on one link are a window apart**, when neither visit began
before the other wrote its entry: the cache reads the clock for the later one more than the window,
less the time a visit may take, after the earlier one began. -/
theorem clicks_apart (hf : ∀ f, ¬ faults f) {c : Conf LinkStore LinkThread}
    (h : ReachIn (LinkThread.Step K faults) LinkInit (Prompt D) c) {e e' : ClickEvent}
    (he : e ∈ c.shared.events) (he' : e' ∈ c.shared.events) (hlink : e.shortLinkId = e'.shortLinkId)
    (hhash : e.ipHash = e'.ipHash) (hne : e.ipHash ≠ "") (hlt : e.wroteAt < e'.startedAt) :
    e.startedAt + clickDedupWindowSeconds - D < e'.readAt := by
  have hok := (passes_ok hf h).1
  have hx := hok.events e he hne
  have hy := hok.events e' he' (hhash ▸ hne)
  refine hok.apart _ hx _ hy ?_ hlt
  rw [hlink, hhash]

/-! ## A run -/

/-- Settings whose salted hash is the address. -/
def plainLinks : LinkConfig := ⟨false, id, asciiUnicode⟩

/-- A visit from an address, without a referer. -/
def visitRequest : ClickRequest := { remoteAddr := some "203.0.113.7" }

/-- A visit's row, from the times of its visit. -/
def visitClick (id : Id) (startedAt readAt wroteAt : Time) : ClickEvent :=
  ⟨id, 1, "203.0.113.7", "", "", "", startedAt, readAt, wroteAt⟩

/-- One link, a clock in thread 1, and nothing else. -/
def linkStart : Conf LinkStore LinkThread :=
  ⟨{ links := [⟨1, "go", "https://x.org"⟩] }, fun p => if p = 1 then .clock else .idle⟩

theorem linkInit_start : LinkInit linkStart := by
  refine ⟨by decide, by decide, rfl, rfl, fun p => ?_⟩
  by_cases hp : p = 1
  · exact .inr (if_pos hp)
  · exact .inl (if_neg hp)

theorem recordClick_visit (id : Id) :
    ShortLinkService.recordClick plainLinks id 1 visitRequest = some (visitClick id 0 0 0) := rfl

theorem found_go : ShortLinkService.findByCode "go" [⟨1, "go", "https://x.org"⟩] =
    some ⟨1, "go", "https://x.org"⟩ := rfl

/-- Two visits, one after the window. -/
theorem clicks_apart_sample : ∃ c : Conf LinkStore LinkThread,
    ReachIn (LinkThread.Step plainLinks fun _ => False) LinkInit (Prompt 5) c ∧
      c.shared.events = [visitClick 1 0 0 0, visitClick 2 2000 2000 2000] ∧
      (0 : Time) + clickDedupWindowSeconds - 5 < 2000 := by
  have hip : ipHash plainLinks visitRequest ≠ "" := by decide
  have h0 : ReachIn (LinkThread.Step plainLinks fun _ => False) LinkInit (Prompt 5) linkStart :=
    .init linkInit_start
  have h1 := h0.next 0 (.lookup visitRequest found_go) rfl rfl trivial
  have h2 := h1.again (.start hip) trivial
  have h3 := h2.again (.select 0 (by decide) (by decide)) trivial
  have h4 := h3.again (.insert rfl) (show (0 : Time) ≤ 0 + 5 by decide)
  have h5 := h4.again (.record (by simp [LinkStore.pass, linkStart]) (recordClick_visit 1)) trivial
  have h6 := h5.next 1 (.tick (show (0 : Time) ≤ 2000 by decide)) rfl rfl trivial
  have h7 := h6.next 0 (.lookup visitRequest found_go) rfl rfl trivial
  have h8 := h7.again (.start hip) trivial
  have h9 := h8.again (.select 2000 (by decide) (by decide)) trivial
  have h10 := h9.again (.update (x := 1800) (by decide) rfl)
    (show (2000 : Time) ≤ 2000 + 5 by decide)
  have h11 := h10.again (.record (by decide) (recordClick_visit 2)) trivial
  have hfirst : visitClick 1 0 0 0 ∈ [visitClick 1 0 0 0, visitClick 2 2000 2000 2000] := .head _
  have hsecond : visitClick 2 2000 2000 2000 ∈ [visitClick 1 0 0 0, visitClick 2 2000 2000 2000] :=
    .tail _ (.head _)
  exact ⟨_, h11, rfl,
    clicks_apart (fun _ => id) h11 hfirst hsecond rfl rfl (by decide) (by decide)⟩

end OpenMagpie.Links
