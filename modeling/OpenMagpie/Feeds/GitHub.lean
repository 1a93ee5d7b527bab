import Mathlib.Tactic.SplitIfs
import OpenMagpie.Feeds.Connector

/-!
# The GitHub sources

The connector of the `/events` firehose, which enriches the events that create a repository (and,
if asked to, pushes) with two more requests each, and the connector of the repository search.

* `NewRepoEventPayload.fromCreateEvent`, `NewRepoPayload.fromRepo`: the payload of a repository.
* `GitHubEventsConnector.poll`, `GitHubSearchConnector.poll`: one poll.
* `GitHubSource`: a source of either kind; `GitHubSource.poll_eq`: a poll is a loop over the events
  or repositories of its response (`window`), whose body is `item`.
* **`item_some`**: under a watermark the loop yields what it would yield without one, of the items
  dated after the watermark.
-/

set_option autoImplicit false

namespace OpenMagpie

open Python

variable (X : Reader)

/-! ## A repository -/

/-- The base of repository links. -/
def gitHubRepoUrl : String := "https://github.com"

/-- The fields of a repository that are read without a number. -/
structure RepoFields where
  fullName : String
  owner : String
  language : String
  topics : List String
  licenseName : String
  description : String
  homepage : String
  pushedAt : String
  createdAt : String
  updatedAt : String

/-- The numbers of a repository. -/
structure RepoCounts where
  stars : ℤ
  forks : ℤ
  openIssues : ℤ

/-- `str(d.get(k) or "")` of a value that may be no dict. -/
def strField (v : Value) (k : String) : String :=
  match v.asDict with
  | some d => X.strOr (d.get k)
  | none => ""

/-- `int(d.get(k) or 0)`. -/
def intField (d : Dict) (k : String) : Except Raised ℤ :=
  ((d.get k).orElse (.int 0)).toInt X.parseInt

/-- `[str(t) for t in (repo.get("topics") or []) if t]`. -/
def readTopics (repo : Dict) : Except Raised (List String) :=
  ((repo.get "topics").orElse (.list [])).iter.map fun ts => (ts.filter (·.truthy)).map X.str

/-- The fields that both payloads read from a repository. -/
def readFields (repo : Dict) : Except Raised RepoFields := do
  let topics ← readTopics X repo
  return {
    fullName := X.strOr (repo.get "full_name")
    owner := strField X ((repo.get "owner").orElse (.dict [])) "login"
    language := X.strOr (repo.get "language")
    topics := topics
    licenseName := strField X (repo.get "license") "spdx_id"
    description := X.strOr (repo.get "description")
    homepage := X.strOr (repo.get "homepage")
    pushedAt := X.strOr (repo.get "pushed_at")
    createdAt := X.strOr (repo.get "created_at")
    updatedAt := X.strOr (repo.get "updated_at") }

/-- The numbers that both payloads read from a repository. -/
def readCounts (repo : Dict) : Except Raised RepoCounts := do
  let stars ← intField X repo "stargazers_count"
  let forks ← intField X repo "forks_count"
  let openIssues ← intField X repo "open_issues_count"
  return { stars, forks, openIssues }

/-- The judgeable body. -/
def RepoFields.content (f : RepoFields) : String :=
  joinNonempty ". " [f.description, f.language, String.intercalate ", " f.topics]

/-- The link of a repository. -/
def RepoFields.url (f : RepoFields) : String :=
  if f.fullName = "" then "" else gitHubRepoUrl ++ "/" ++ f.fullName

/-- The strings of a repository's payload. -/
def RepoFields.strings (f : RepoFields) : List String :=
  f.fullName :: f.owner :: f.language :: f.licenseName :: f.description :: f.homepage :: f.pushedAt ::
    f.createdAt :: f.updatedAt :: f.topics

/-- The payload of a repository that was found by the search. -/
structure NewRepoPayload extends SourcePayload, RepoFields, RepoCounts

/-- The person behind an event. -/
structure Actor where
  actorLogin : String
  actorId : ℤ
  actorAvatarUrl : String

/-- The payload of a repository that an event names. -/
structure NewRepoEventPayload extends SourcePayload, RepoFields, RepoCounts, Actor where
  readme : String
  eventType : String

/-- The kind of the events source, `GitHubEventsSourceSpec.SOURCE_KIND`. -/
def gitHubEventsKind : String := "github_events"

/-- The kind of the search source, `GitHubSearchSourceSpec.SOURCE_KIND`. -/
def gitHubSearchKind : String := "github_search"

/-- The characters of a README that go into the body. -/
def readmeExcerptChars : ℕ := 500

/-- The excerpt of a README. -/
def readmeExcerpt (readme : String) : String :=
  let oneLine := X.strip (replaceChar '\n' " " (replaceChar '\r' "" readme))
  X.strip (String.ofList (oneLine.toList.take readmeExcerptChars))

/-- The body with the excerpt of the README. -/
def withReadme (content readme : String) : String :=
  let excerpt := readmeExcerpt X readme
  if excerpt = "" then content
  else if content = "" then "README: " ++ excerpt
  else content ++ "\n\nREADME: " ++ excerpt

/-- The actor of an event. -/
def readActor (actor : Value) : Except Raised Actor := do
  let d := actor.asDict.getD []
  let actorId ← intField X d "id"
  return { actorLogin := X.strOr (d.get "login"), actorId, actorAvatarUrl := X.strOr (d.get "avatar_url") }

/-- The title of an event's payload; it alone carries the event's id, and only without a name. -/
def RepoFields.eventTitle (f : RepoFields) (eventId : String) : String :=
  if f.fullName = "" then "github:" ++ eventId else f.fullName

/-- `NewRepoEventPayload.from_create_event`. -/
def NewRepoEventPayload.fromCreateEvent (repo : Value) (occurredAt : Stamp) (eventType readme : String)
    (eventId : String) (actor : Value) : Except Raised NewRepoEventPayload :=
  match repo.asDict with
  | none => .error .attributeError
  | some repo => do
    let fields ← readFields X repo
    let actor ← readActor X actor
    let counts ← readCounts X repo
    X.construct (readme :: fields.eventTitle eventId :: actor.actorLogin :: actor.actorAvatarUrl ::
        fields.strings)
      { toRepoFields := fields
        toRepoCounts := counts
        toActor := actor
        externalId := fields.fullName
        kind := "new_repo_event"
        occurredAt := occurredAt
        source := gitHubEventsKind
        title := fields.eventTitle eventId
        content := withReadme X fields.content readme
        url := fields.url
        readme := readme
        eventType := eventType }

/-- When a repository was pushed to: `pushed_at`, or now when that is no timestamp. -/
def pushedAtOr (now : Time) (pushedAt : String) : Stamp :=
  if pushedAt = "" then .aware now
  else (X.fromisoformat (replaceChar 'Z' "+00:00" pushedAt)).getD (.aware now)

/-- `NewRepoPayload.from_repo`. -/
def NewRepoPayload.fromRepo (now : Time) (repo : Value) : Except Raised NewRepoPayload :=
  match repo.asDict with
  | none => .error .attributeError
  | some repo => do
    let fields ← readFields X repo
    let counts ← readCounts X repo
    X.construct fields.strings
      { toRepoFields := fields
        toRepoCounts := counts
        externalId := fields.fullName
        kind := "new_repo"
        occurredAt := pushedAtOr X now fields.pushedAt
        source := gitHubSearchKind
        title := fields.fullName
        content := fields.content
        url := fields.url }

/-! ## The events client -/

variable (up : Upstream) (i : ℕ)

/-- `poll_events`. -/
def GitHubEventsClient.pollEvents : Except Raised Response := do
  let response ← (up.get 0 .events).get
  if response.status = 304 then return response
  response.raiseForStatus
  return response

/-- `fetch_repo_meta`: `None` for a 404, and for the body `null`. -/
def GitHubEventsClient.fetchRepoMeta (repo : String) : Except Raised Value := do
  let response ← (up.get i (.repo repo)).get
  if response.status = 404 then return .none
  response.raiseForStatus
  response.body.loads

/-- `fetch_readme`. -/
def GitHubEventsClient.fetchReadme (repo : String) : Except Raised (Option String) := do
  let response ← (up.get i (.readme repo)).get
  if response.status = 404 then return none
  response.raiseForStatus
  return some response.text

/-! ## The events connector -/

theorem defaultEventTypes_known : ∀ t ∈ ["create"], t = "create" ∨ t = "push" := by decide

/-- The spec of an events source. A poll reads `includePushes` only. -/
structure GitHubEventsSourceSpec where
  eventTypes : List String := ["create"]
  includePushes : Bool := false
  minStars : ℕ := 0
  eventTypes_known : ∀ t ∈ eventTypes, t = "create" ∨ t = "push" := by
    first | exact defaultEventTypes_known | decide

/-- `_parse_ts`. -/
def parseTs (ts : Value) : Except Raised (Option Stamp) :=
  if ts.truthy = false then .ok none
  else match ts with
    | .str ts => .ok (X.fromisoformat (replaceChar 'Z' "+00:00" ts))
    | _ => .error .attributeError

/-- `v == s`. -/
def isStr (v : Value) (s : String) : Bool :=
  match v with
  | .str t => decide (t = s)
  | _ => false

/-- The name of an event's repository. -/
def repoName (event : Dict) : Value :=
  match (event.get "repo").asDict with
  | some repo => repo.get "name" (.str "")
  | none => .str ""

/-- The kind of payload that an event calls for. -/
def eventKind (spec : GitHubEventsSourceSpec) (event : Dict) : Except Raised (Option String) :=
  match (event.get "payload").asDict with
  | none => .ok none
  | some payload =>
    if (repoName event).truthy = false then .ok none
    else if isStr (event.get "type" (.str "")) "CreateEvent" then
      if isStr (payload.get "ref_type" (.str "")) "repository" then .ok (some "create") else .ok none
    else if isStr (event.get "type" (.str "")) "PushEvent" ∧ spec.includePushes then
      match payload.get "ref" (.str "") with
      | .str ref =>
        if "refs/heads/".toList.isPrefixOf ref.toList then .ok (some "push") else .ok none
      | _ => .error .attributeError
    else .ok none

/-- The two requests for an event's repository, and its payload. -/
def enrich (event : Dict) (occurredAt : Stamp) (eventType : String) :
    Except Raised (Option NewRepoEventPayload) := do
  let repo := X.str (repoName event)
  let data ← GitHubEventsClient.fetchRepoMeta up i repo
  match data with
  | .none => return none
  | data =>
    let readme ← GitHubEventsClient.fetchReadme up i repo
    let payload ← NewRepoEventPayload.fromCreateEvent X data occurredAt eventType (readme.getD "")
      (X.str (event.get "id" (.str ""))) (event.get "actor")
    return some payload

/-- What an event that is new enough yields. -/
def GitHubEventsConnector.candidate (spec : GitHubEventsSourceSpec) (event : Dict) (ts : Stamp) :
    Except Raised (Option NewRepoEventPayload) := do
  match ← eventKind spec event with
  | none => return none
  | some eventType => enrich X up i event ts eventType

/-- The body of the loop over the events. -/
def GitHubEventsConnector.item (spec : GitHubEventsSourceSpec) (since : Option Time) (event : Value) :
    Except Raised (Option NewRepoEventPayload) :=
  match event.asDict with
  | none => .error .attributeError
  | some event => do
    let ts ← parseTs X (event.get "created_at" (.str ""))
    match ts with
    | none => return none
    | some ts => unlessOld since ts (GitHubEventsConnector.candidate X up i spec event ts)

/-- The events of a poll. A failure of the request, or a body that is no JSON, is a
`ConnectorParseError`. -/
def GitHubEventsConnector.window : Except Raised (List Value) :=
  match GitHubEventsClient.pollEvents up with
  | .error _ => .error (.lib .connectorParseError)
  | .ok response =>
    if response.status = 304 then .ok []
    else match response.body.loads with
      | .error .recursionError => .error .recursionError
      | .error _ => .error (.lib .connectorParseError)
      | .ok events => events.iter

/-- `GitHubEventsConnector.poll`. -/
def GitHubEventsConnector.poll (spec : GitHubEventsSourceSpec) (since : Option Time) :
    Generator SourceError NewRepoEventPayload :=
  Generator.ofExcept (fun (event, i) => GitHubEventsConnector.item X up i spec since event)
    ((GitHubEventsConnector.window up).map (·.zipIdx))

/-! ## The search connector -/

/-- The spec of a search source. -/
structure GitHubSearchSourceSpec where
  query : String
  sort : String := "stars"
  minStars : ℕ := 0
  count : ℕ := 20

/-- `search_repositories`. An httpx error is answered with `raise err`, where `err` is no
exception; and a caller that evaluates `except GitHubError` meets a class that is none. -/
def GitHubClient.searchRepositories (query sort : String) (perPage : ℕ) : Except Raised Value := do
  let response ← (up.get 0 (.searchRepositories query sort "desc" perPage)).get
  response.raiseForStatus
  response.body.loads

/-- The query with the star floor. -/
def GitHubSearchSourceSpec.fullQuery (spec : GitHubSearchSourceSpec) : String :=
  if 0 < spec.minStars then s!"{spec.query} stars:>={spec.minStars}" else spec.query

/-- The repositories of a poll. Whatever the request raises becomes a `TypeError`: `GitHubError` is
a dataclass, and Python refuses it after `raise` and after `except`. -/
def GitHubSearchConnector.window (spec : GitHubSearchSourceSpec) : Except Raised (List Value) :=
  match GitHubClient.searchRepositories up spec.fullQuery spec.sort (min spec.count 100) with
  | .error _ => .error .typeError
  | .ok data =>
    match data.asDict with
    | none => .error .attributeError
    | some data => ((data.get "items" (.list [])).orElse (.list [])).iter

/-- The body of the loop over the repositories. -/
def GitHubSearchConnector.item (since : Option Time) (repo : Value) :
    Except Raised (Option NewRepoPayload) := do
  let payload ← NewRepoPayload.fromRepo X (up.now i) repo
  unlessOld since payload.occurredAt (return some payload)

/-- `GitHubSearchConnector.poll`. -/
def GitHubSearchConnector.poll (spec : GitHubSearchSourceSpec) (since : Option Time) :
    Generator SourceError NewRepoPayload :=
  Generator.ofExcept (fun (repo, i) => GitHubSearchConnector.item X up i since repo)
    ((GitHubSearchConnector.window up spec).map (·.zipIdx))

/-! ## What is yielded -/

section Yielded

variable {X up i} {since : Option Time} {ts : Stamp}

theorem NewRepoEventPayload.fromCreateEvent_ok {repo actor : Value} {eventType readme eventId : String}
    {p : NewRepoEventPayload}
    (h : fromCreateEvent X repo ts eventType readme eventId actor = .ok p) :
    p.externalId = p.fullName ∧ p.occurredAt = ts ∧ p.kind = "new_repo_event" ∧
      p.source = gitHubEventsKind ∧
      ∃ strings, X.validStrings strings = true ∧ p.externalId ∈ strings ∧ p.title ∈ strings := by
  unfold fromCreateEvent at h
  split at h
  · cases h
  · obtain ⟨fields, -, h⟩ := Except.bind_eq_ok.mp h
    obtain ⟨actor, -, h⟩ := Except.bind_eq_ok.mp h
    obtain ⟨counts, -, h⟩ := Except.bind_eq_ok.mp h
    obtain rfl := construct_ok h
    exact ⟨rfl, rfl, rfl, rfl, _, valid_of_construct h, by simp [RepoFields.strings], by simp⟩

theorem NewRepoPayload.fromRepo_ok {now : Time} {repo : Value} {p : NewRepoPayload}
    (h : fromRepo X now repo = .ok p) :
    p.externalId = p.fullName ∧ p.occurredAt = pushedAtOr X now p.pushedAt ∧ p.kind = "new_repo" ∧
      p.source = gitHubSearchKind ∧
      ∃ strings, X.validStrings strings = true ∧ p.externalId ∈ strings ∧ p.title ∈ strings := by
  unfold fromRepo at h
  split at h
  · cases h
  · obtain ⟨fields, -, h⟩ := Except.bind_eq_ok.mp h
    obtain ⟨counts, -, h⟩ := Except.bind_eq_ok.mp h
    obtain rfl := construct_ok h
    exact ⟨rfl, rfl, rfl, rfl, _, valid_of_construct h, by simp [RepoFields.strings],
      by simp [RepoFields.strings]⟩

/-- What an event yields is built from its repository. -/
theorem candidate_payload {spec : GitHubEventsSourceSpec} {event : Dict} {p : NewRepoEventPayload}
    (h : GitHubEventsConnector.candidate X up i spec event ts = .ok (some p)) :
    ∃ repo eventType readme eventId actor,
      NewRepoEventPayload.fromCreateEvent X repo ts eventType readme eventId actor = .ok p := by
  obtain ⟨kind, -, h⟩ := Except.bind_eq_ok.mp h
  cases kind with
  | none => cases h
  | some eventType =>
    obtain ⟨data, -, h⟩ := Except.bind_eq_ok.mp h
    cases data with
    | none => cases h
    | _ =>
      obtain ⟨readme, -, h⟩ := Except.bind_eq_ok.mp h
      obtain ⟨payload, hp, h⟩ := Except.bind_eq_ok.mp h
      obtain rfl := Option.some.inj (Except.ok.inj h)
      exact ⟨_, _, _, _, _, hp⟩

theorem candidate_ok {spec : GitHubEventsSourceSpec} {event : Dict} {p : NewRepoEventPayload}
    (h : GitHubEventsConnector.candidate X up i spec event ts = .ok (some p)) :
    p.externalId = p.fullName ∧ p.source = gitHubEventsKind ∧ p.occurredAt = ts := by
  obtain ⟨_, _, _, _, _, hp⟩ := candidate_payload h
  obtain ⟨hext, hts, -, hsource, -⟩ := NewRepoEventPayload.fromCreateEvent_ok hp
  exact ⟨hext, hsource, hts⟩

/-- An event that yields a payload is a dict with a timestamp, and a candidate. -/
theorem GitHubEventsConnector.item_candidate {spec : GitHubEventsSourceSpec} {event : Value}
    {p : NewRepoEventPayload} (h : item X up i spec since event = .ok (some p)) :
    ∃ d ts, event.asDict = some d ∧ parseTs X (d.get "created_at" (.str "")) = .ok (some ts) ∧
      candidate X up i spec d ts = .ok (some p) := by
  unfold item at h
  cases hd : event.asDict with
  | none => simp [hd] at h
  | some d =>
    rw [hd] at h
    obtain ⟨ts, hts, h⟩ := Except.bind_eq_ok.mp h
    cases ts with
    | none => cases h
    | some ts => exact ⟨d, ts, rfl, hts, unlessOld_ok h⟩

/-- A payload that an event yields. -/
theorem GitHubEventsConnector.item_ok {spec : GitHubEventsSourceSpec} {event : Value}
    {p : NewRepoEventPayload} (h : item X up i spec since event = .ok (some p)) :
    ∃ d, event.asDict = some d ∧
      parseTs X (d.get "created_at" (.str "")) = .ok (some p.occurredAt) ∧
      p.externalId = p.fullName ∧ p.source = gitHubEventsKind := by
  obtain ⟨d, ts, hd, hts, hc⟩ := item_candidate h
  obtain ⟨hext, hsource, rfl⟩ := candidate_ok hc
  exact ⟨d, hd, hts, hext, hsource⟩

/-- A payload that a repository yields. -/
theorem GitHubSearchConnector.item_ok {repo : Value} {p : NewRepoPayload}
    (h : item X up i since repo = .ok (some p)) :
    p.externalId = p.fullName ∧ p.source = gitHubSearchKind := by
  obtain ⟨q, hq, h⟩ := Except.bind_eq_ok.mp h
  obtain rfl := Option.some.inj (Except.pure_eq_ok.mp (unlessOld_ok h))
  obtain ⟨hext, -, -, hsource, -⟩ := NewRepoPayload.fromRepo_ok hq
  exact ⟨hext, hsource⟩

/-- **An event under a watermark.** -/
theorem GitHubEventsConnector.item_some {spec : GitHubEventsSourceSpec} {w : Time} {event : Value}
    {r : Option NewRepoEventPayload} (h : item X up i spec (some w) event = .ok r)
    {p : NewRepoEventPayload} : r = some p ↔
      item X up i spec none event = .ok (some p) ∧ w < p.occurredAt.ensureAware := by
  unfold item at h ⊢
  generalize event.asDict = d at h ⊢
  cases d with
  | none => cases h
  | some d =>
    obtain ⟨ts, hts, h⟩ := Except.bind_eq_ok.mp h
    simp only [hts, Except.bind_eq_ok, Except.ok.injEq, exists_eq_left']
    cases ts with
    | none =>
      obtain rfl := Except.pure_eq_ok.mp h
      simp [Except.pure_eq_ok]
    | some ts =>
      dsimp only at h ⊢
      rw [unlessOld_some h, unlessOld_none]
      refine and_congr_right fun hp => ?_
      rw [(candidate_ok hp).2.2]

/-- A repository under a watermark. -/
theorem GitHubSearchConnector.item_some {w : Time} {repo : Value} {r : Option NewRepoPayload}
    (h : item X up i (some w) repo = .ok r) {p : NewRepoPayload} : r = some p ↔
      item X up i none repo = .ok (some p) ∧ w < p.occurredAt.ensureAware := by
  obtain ⟨q, hq, h⟩ := Except.bind_eq_ok.mp h
  unfold item
  rw [unlessOld_some h]
  simp only [hq, Except.bind_eq_ok, Except.ok.injEq, exists_eq_left', unlessOld_none,
    Except.pure_eq_ok, Option.some.injEq]
  refine and_congr_right fun hp => ?_
  rw [hp]

end Yielded

/-! ## The sources -/

/-- A GitHub source, by its spec. -/
inductive GitHubSource
  | events (spec : GitHubEventsSourceSpec)
  | search (spec : GitHubSearchSourceSpec)

namespace GitHubSource

/-- The kind of the source. -/
def kind : GitHubSource → String
  | events _ => gitHubEventsKind
  | search _ => gitHubSearchKind

/-- A poll of the source. -/
def poll (since : Option Time) : GitHubSource → Generator SourceError SourcePayload
  | events spec => (GitHubEventsConnector.poll X up spec since).map (·.toSourcePayload)
  | search spec => (GitHubSearchConnector.poll X up spec since).map (·.toSourcePayload)

/-- The events or repositories of the response. -/
def window : GitHubSource → Except Raised (List Value)
  | events _ => GitHubEventsConnector.window up
  | search spec => GitHubSearchConnector.window up spec

/-- What the source makes of one of them. -/
def item (since : Option Time) (x : Value × ℕ) : GitHubSource → Except Raised (Option SourcePayload)
  | events spec =>
    (GitHubEventsConnector.item X up x.2 spec since x.1).map (·.map (·.toSourcePayload))
  | search _ => (GitHubSearchConnector.item X up x.2 since x.1).map (·.map (·.toSourcePayload))

/-- When an event or a repository is dated. -/
def timestamp (x : Value) : GitHubSource → Option Stamp
  | events _ => x.asDict.bind fun event =>
    match parseTs X (event.get "created_at" (.str "")) with
    | .ok ts => ts
    | .error _ => none
  | search _ => x.asDict.bind fun repo =>
    let pushedAt := X.strOr (repo.get "pushed_at")
    if pushedAt = "" then none else X.fromisoformat (replaceChar 'Z' "+00:00" pushedAt)

variable {X up}

/-- **A poll is a loop over the response.** -/
theorem poll_eq (src : GitHubSource) (since : Option Time) :
    src.poll X up since =
      Generator.ofExcept (fun x => src.item X up since x) ((src.window up).map (·.zipIdx)) := by
  cases src with
  | events spec => exact Generator.map_ofExcept _ _
  | search spec => exact Generator.map_ofExcept _ _

theorem map_toSourcePayload {α : Type} {f : α → SourcePayload} {x : Except Raised (Option α)}
    {p : SourcePayload} : x.map (·.map f) = .ok (some p) ↔ ∃ q, x = .ok (some q) ∧ f q = p := by
  rw [Except.map_eq_ok]
  constructor
  · rintro ⟨r, hr, h⟩
    obtain ⟨q, rfl, hq⟩ := Option.map_eq_some_iff.mp h
    exact ⟨q, hr, hq⟩
  · rintro ⟨q, hq, rfl⟩
    exact ⟨some q, hq, rfl⟩

theorem map_some {α : Type} {f : α → SourcePayload} {x y : Except Raised (Option α)}
    {Q : SourcePayload → Prop}
    (hxy : ∀ r, x = .ok r → ∀ q, r = some q ↔ y = .ok (some q) ∧ Q (f q)) {r : Option SourcePayload}
    (h : x.map (·.map f) = .ok r) {p : SourcePayload} :
    r = some p ↔ y.map (·.map f) = .ok (some p) ∧ Q p := by
  obtain ⟨r, hr, rfl⟩ := Except.map_eq_ok.mp h
  rw [map_toSourcePayload, Option.map_eq_some_iff]
  constructor
  · rintro ⟨q, hq, rfl⟩
    obtain ⟨hy, hQ⟩ := (hxy r hr q).mp hq
    exact ⟨⟨q, hy, rfl⟩, hQ⟩
  · rintro ⟨⟨q, hy, rfl⟩, hQ⟩
    exact ⟨q, (hxy r hr q).mpr ⟨hy, hQ⟩, rfl⟩

/-- **What a source yields under a watermark**: of what it would yield without one, the items dated
after it. -/
theorem item_some {src : GitHubSource} {w : Time} {x : Value × ℕ} {r : Option SourcePayload}
    (h : src.item X up (some w) x = .ok r) {p : SourcePayload} : r = some p ↔
      src.item X up none x = .ok (some p) ∧ w < p.occurredAt.ensureAware := by
  cases src with
  | events spec =>
    exact map_some (Q := fun p => w < p.occurredAt.ensureAware)
      (y := GitHubEventsConnector.item X up x.2 spec none x.1)
      (fun _ hr _ => GitHubEventsConnector.item_some hr) h
  | search spec =>
    exact map_some (Q := fun p => w < p.occurredAt.ensureAware)
      (y := GitHubSearchConnector.item X up x.2 none x.1)
      (fun _ hr _ => GitHubSearchConnector.item_some hr) h

/-- The kind of what a source yields. -/
theorem item_source {src : GitHubSource} {since : Option Time} {x : Value × ℕ} {p : SourcePayload}
    (h : src.item X up since x = .ok (some p)) : p.source = src.kind := by
  cases src with
  | events spec =>
    obtain ⟨q, hq, rfl⟩ := map_toSourcePayload.mp h
    obtain ⟨-, -, -, -, hs⟩ := GitHubEventsConnector.item_ok hq
    exact hs
  | search spec =>
    obtain ⟨q, hq, rfl⟩ := map_toSourcePayload.mp h
    exact (GitHubSearchConnector.item_ok hq).2

end GitHubSource

end OpenMagpie
