import OpenMagpie.Feeds.Connector

/-!
# The Hacker News sources

The Algolia client pages through the hits of a query, newest first: each page is anchored on the
oldest timestamp seen so far.

* `HackerNewsFeedPayload.fromAlgoliaHit`, `HackerNewsCommentPayload.fromAlgoliaHit`: the payload of
  a hit.
* `AlgoliaSearch.walk`: the pages of one poll.
* `HackerNewsFeedConnector.poll`, `HackerNewsCommentConnector.poll`: the two connectors.
-/

set_option autoImplicit false

namespace OpenMagpie

open Python

variable (X : Reader)

/-! ## A hit -/

/-- `_html_to_text`. -/
def htmlToText (html : Value) : Except Raised String :=
  if html.truthy = false then .ok ""
  else match html with
    | .str html => match X.textNodes html with
      | some chunks => .ok (X.strip (X.collapse (String.intercalate " " chunks)))
      | none => .error .assertionError
    | _ => .error .typeError

/-- pydantic's string field. -/
def textField : Value → Except Raised String
  | .str s => .ok s
  | _ => .error (.lib .validationError)

/-- pydantic's integer field. -/
def numberField (v : Value) : Except Raised ℤ :=
  match X.integerField v with
  | some n => .ok n
  | none => .error (.lib .validationError)

/-- The page of an item. -/
def hackerNewsUrl (itemId : String) : String := "https://news.ycombinator.com/item?id=" ++ itemId

/-- The spec of a story source. -/
structure HackerNewsFeedSourceSpec where
  feed : String := "new"
  query : String := ""
  anyWord : Bool := false

/-- The spec of a comment source. -/
structure HackerNewsCommentSourceSpec where
  query : String
  anyWord : Bool := false

/-- The payload of a story. -/
structure HackerNewsFeedPayload extends SourcePayload where
  author : String
  feed : String
  points : ℤ
  numComments : ℤ

/-- The payload of a comment. -/
structure HackerNewsCommentPayload extends SourcePayload where
  author : String
  feed : String
  storyTitle : String

/-- The kind of a story source, `HackerNewsFeedSourceSpec.SOURCE_KIND`. -/
def hackerNewsFeedKind : String := "hn_feed"

/-- The kind of a comment source, `HackerNewsCommentSourceSpec.SOURCE_KIND`. -/
def hackerNewsCommentKind : String := "hn_comment"

/-- `HackerNewsFeedPayload.from_algolia_hit`. -/
def HackerNewsFeedPayload.fromAlgoliaHit (spec : HackerNewsFeedSourceSpec) (hit : Dict)
    (occurredAt : Time) : Except Raised HackerNewsFeedPayload := do
  let itemId := X.str (hit.get "objectID" (.str ""))
  let content ← htmlToText X ((hit.get "story_text").orElse (.str ""))
  let title ← textField ((hit.get "title").orElse (.str ""))
  let externalUrl ← textField ((hit.get "url").orElse (.str ""))
  let author ← textField ((hit.get "author").orElse (.str ""))
  let points ← numberField X ((hit.get "points").orElse (.int 0))
  let numComments ← numberField X ((hit.get "num_comments").orElse (.int 0))
  X.construct [itemId, title, content, externalUrl, author]
    { externalId := itemId
      kind := "hn_feed"
      occurredAt := .aware occurredAt
      source := hackerNewsFeedKind
      title, content, externalUrl, author, points, numComments
      url := hackerNewsUrl itemId
      feed := spec.feed }

/-- `HackerNewsCommentPayload.from_algolia_hit`. -/
def HackerNewsCommentPayload.fromAlgoliaHit (hit : Dict) (occurredAt : Time) :
    Except Raised HackerNewsCommentPayload := do
  let itemId := X.str (hit.get "objectID" (.str ""))
  let storyId := hit.get "story_id"
  let content ← htmlToText X ((hit.get "comment_text").orElse (.str ""))
  let storyTitle ← textField ((hit.get "story_title").orElse (.str ""))
  let author ← textField ((hit.get "author").orElse (.str ""))
  let parent := match storyId with
    | .none => ""
    | storyId => X.str storyId
  X.construct [itemId, storyTitle, content, parent, author]
    { externalId := itemId
      kind := "hn_comment"
      occurredAt := .aware occurredAt
      source := hackerNewsCommentKind
      title := storyTitle
      content, author, storyTitle
      url := hackerNewsUrl itemId
      parentExternalId := parent
      feed := "comments" }

/-! ## The Algolia client -/

/-- The limits of the client. -/
structure AlgoliaSearch where
  pageSize : ℕ := 100
  maxPages : ℕ := 50
  maxBodyBytes : ℕ := 5 * 1024 * 1024

/-- A query: the tag, the watermark, the keywords, and what they are matched with. -/
structure AlgoliaQuery where
  tag : String
  since : Option Time
  query : String
  anyWord : Bool
  restrict : List String

namespace AlgoliaSearch

variable (S : AlgoliaSearch) (q : AlgoliaQuery) (up : Upstream)

/-- `int(since.timestamp())`. -/
def sinceSecond : Option ℤ :=
  q.since.map fun since => (X.timestamp since).num.tdiv (X.timestamp since).den

/-- `_params`. -/
def params (before : Option ℤ) : List (String × String) :=
  let numeric := ((sinceSecond X q).map fun since => s!"created_at_i>={since}").toList ++
    (before.map fun before => s!"created_at_i<={before}").toList
  let query := X.strip q.query
  [("tags", q.tag), ("hitsPerPage", toString S.pageSize)] ++
    (if numeric = [] then [] else [("numericFilters", String.intercalate "," numeric)]) ++
    if query = "" then []
    else [("query", query), ("advancedSyntax", "true")] ++
      (if q.restrict = [] then []
        else [("restrictSearchableAttributes", String.intercalate "," q.restrict)]) ++
      if q.anyWord then [("optionalWords", query)] else []

/-- `_get_page`: the hits of a page. -/
def getPage (page : ℕ) (before : Option ℤ) : Except Raised (List Value) := do
  let response ← (up.get page (.searchByDate (params X S q before))).get
  response.raiseForStatus
  if S.maxBodyBytes < response.length then .error (.lib .connectorParseError)
  else match response.body with
    | .notJson => .error (.lib .connectorParseError)
    | body => do
      let data ← body.loads
      match data.asDict.map fun (data : Dict) => data.get "hits" with
      | some (.list hits) => return hits
      | _ => .error (.lib .connectorParseError)

variable (toPayload : Dict → Time → Except Raised SourcePayload)

/-- A payload whose fields pydantic refuses is a `ConnectorParseError`. -/
def buildPayload (hit : Dict) (occurredAt : Time) : Except Raised SourcePayload :=
  match toPayload hit occurredAt with
  | .error (.lib .validationError) => .error (.lib .connectorParseError)
  | payload => payload

/-- The body of the loop over the hits: the payload and its `created_at_i`. A hit without a usable
timestamp is skipped. -/
def hit (hit : Value) : Except Raised (Option (SourcePayload × ℤ)) :=
  match hit.asDict with
  | none => .error .attributeError
  | some hit =>
    match (hit.get "created_at_i").asNumber with
    | none => .ok none
    | some createdAt =>
      match X.fromtimestamp createdAt with
      | none => .ok none
      | some occurredAt => do
        let payload ← buildPayload toPayload hit occurredAt
        return some (payload, createdAt.num.tdiv createdAt.den)

/-- The oldest `created_at_i` of what a page yields. -/
def oldest (yielded : List (SourcePayload × ℤ)) : Option ℤ := (yielded.map (·.2)).min?

/-- The loop over the pages, of which `n` are left. -/
def walkFrom : ℕ → ℕ → Option ℤ → Generator SourceError SourcePayload
  | 0, _, _ => ⟨[], .ok ()⟩
  | n + 1, page, cursor =>
    match getPage X S q up page cursor with
    | .error e => .raise e
    | .ok [] => ⟨[], .ok ()⟩
    | .ok hits =>
      let yielded := Generator.ofList (hit X toPayload) hits
      let older := match oldest yielded.yielded with
        | some oldest =>
          if hits.length < S.pageSize then ⟨[], .ok ()⟩ else walkFrom n (page + 1) (some oldest)
        | none => ⟨[], .ok ()⟩
      (yielded.map (·.1)).append older

/-- `AlgoliaSearch.walk`. -/
def walk : Generator SourceError SourcePayload := walkFrom X S q up toPayload S.maxPages 0 none

end AlgoliaSearch

/-! ## The connectors -/

variable (up : Upstream)

/-- `_FEED_TAGS`. -/
def feedTag (feed : String) : String :=
  if feed = "show" then "show_hn" else if feed = "ask" then "ask_hn" else "story"

/-- The query of a story source. -/
def HackerNewsFeedSourceSpec.algoliaQuery (spec : HackerNewsFeedSourceSpec) (since : Option Time) :
    AlgoliaQuery where
  tag := feedTag spec.feed
  since := since
  query := spec.query
  anyWord := spec.anyWord
  restrict := ["title", "url", "story_text"]

/-- The query of a comment source. -/
def HackerNewsCommentSourceSpec.algoliaQuery (spec : HackerNewsCommentSourceSpec)
    (since : Option Time) : AlgoliaQuery where
  tag := "comment"
  since := since
  query := spec.query
  anyWord := spec.anyWord
  restrict := ["comment_text"]

/-- `HackerNewsFeedConnector.poll`. -/
def HackerNewsFeedConnector.poll (spec : HackerNewsFeedSourceSpec) (since : Option Time) :
    Generator SourceError SourcePayload :=
  AlgoliaSearch.walk X {} (spec.algoliaQuery since) up fun hit occurredAt =>
    (HackerNewsFeedPayload.fromAlgoliaHit X spec hit occurredAt).map (·.toSourcePayload)

/-- `HackerNewsCommentConnector.poll`. -/
def HackerNewsCommentConnector.poll (spec : HackerNewsCommentSourceSpec) (since : Option Time) :
    Generator SourceError SourcePayload :=
  AlgoliaSearch.walk X {} (spec.algoliaQuery since) up fun hit occurredAt =>
    (HackerNewsCommentPayload.fromAlgoliaHit X hit occurredAt).map (·.toSourcePayload)

end OpenMagpie
