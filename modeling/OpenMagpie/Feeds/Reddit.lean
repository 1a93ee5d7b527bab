import OpenMagpie.Feeds.Counting
import OpenMagpie.Lib.Newest
import OpenMagpie.Watches.Kinds

/-!
# The subreddit source

The connector walks the listing `/r/<slug>/new/.rss`, newest first, page by page: `?after=` names the
last entry of the page before. A slug `a+b+c` is the merged listing of several subreddits.

* `RedditSubredditSourceSpec.validateSubreddit`: the name of a subreddit.
* `NewRedditPostPayload.fromFeedparserEntry`: the payload of an entry.
* `RedditSubRedditConnector.walkNew`: the walk, with `poll` and `pollCombined`.
* `Serves`, `Reached`: the service serves a listing, and the pages of a walk reach far enough into it.
* **`walkNew_eq`**: a walk of a newest-first listing yields its posts from `since` on.
-/

set_option autoImplicit false

namespace OpenMagpie

open Python

/-! ## The spec -/

/-- `[A-Za-z0-9_]`. -/
def isSlugChar (c : Char) : Bool := c.isAlphanum || c == '_'

/-- `[A-Za-z0-9_]{1,21}`, all of the string. -/
def isSlug (s : List Char) : Bool := decide (1 ≤ s.length ∧ s.length ≤ 21) && s.all isSlugChar

/-- The spec of a subreddit source. -/
structure RedditSubredditSourceSpec where
  subreddit : String
  slug : isSlug subreddit.toList = true

/-- `re.sub(r"^/?r/", "", value, flags=re.IGNORECASE)`. -/
def dropRedditPrefix : List Char → List Char
  | '/' :: c :: '/' :: s => if c = 'r' ∨ c = 'R' then s else '/' :: c :: '/' :: s
  | c :: '/' :: s => if c = 'r' ∨ c = 'R' then s else c :: '/' :: s
  | s => s

/-- `_validate_subreddit`; none where it raises. -/
def RedditSubredditSourceSpec.validateSubreddit (value : String) : Option RedditSubredditSourceSpec :=
  let slug := dropRedditPrefix (strip value.toList)
  if isSlug slug = true then
    let lowered := String.ofList (slug.map Char.toLower)
    if h : isSlug lowered.toList = true then some ⟨lowered, h⟩ else none
  else none

/-! ## Entries -/

/-- An entry of feedparser, as far as the connector reads it; a missing string is empty. -/
structure RedditEntry where
  id : String := ""
  publishedParsed : Option Time := none
  title : String := ""
  author : String := ""
  link : String := ""
  terms : List String := []
  contents : List String := []
  deriving DecidableEq

/-- Functions of the language: `lower`, the group of `_SC_BLOCK_RE`, the substitution of `_TAG_RE` and
`html.unescape`. -/
structure RedditReader extends Reader where
  lower : String → String
  scBlock : String → Option String
  untag : String → String
  unescape : String → String

/-- The payload of a post. -/
structure NewRedditPostPayload extends SourcePayload where
  author : String
  permalink : String
  subreddit : String

/-- The connector's kind, `RedditSubredditSourceSpec.SOURCE_KIND`. -/
def redditKind : String := "reddit_subreddit"

/-- `s.removeprefix(prefix)`. -/
def removePrefix (pre s : String) : String :=
  match s.toList.dropPrefix? pre.toList with
  | some rest => String.ofList rest
  | none => s

variable (X : RedditReader)

/-- `_atom_content_to_text`. -/
def atomContentToText (contentHtml : String) : String :=
  match X.scBlock contentHtml with
  | none => ""
  | some bodyHtml => X.strip (X.collapse (X.unescape (X.untag bodyHtml)))

/-- `NewRedditPostPayload.from_feedparser_entry`. -/
def NewRedditPostPayload.fromFeedparserEntry (entry : RedditEntry) (published : Time) :
    Except Raised NewRedditPostPayload :=
  let postId := removePrefix "t3_" entry.id
  let author := removePrefix "/u/" entry.author
  let permalink :=
    let path := removePrefix "https://www.reddit.com" entry.link
    if path = "" then "/" else path
  let subreddit := entry.terms.headD ""
  let content := atomContentToText X (entry.contents.headD "")
  X.construct [postId, entry.title, content, author, entry.link, permalink, subreddit]
    { externalId := postId
      kind := "new_post"
      occurredAt := .aware published
      source := redditKind
      title := entry.title
      content, author, permalink, subreddit
      url := entry.link }

/-! ## The connector -/

/-- What feedparser makes of a body. -/
structure ParsedFeed where
  version : String := ""
  entries : List RedditEntry := []

/-- What a request for a page gets. -/
inductive RedditFetch
  | httpError
  | response (status length : ℕ) (parsed : ParsedFeed)

/-- A request for a page: the slug, the page's size and the cursor. -/
structure RedditRequest where
  slug : String
  limit : ℕ
  after : Option String

/-- The service during one walk: the answer to each request, by the number of the page and of the
attempt. -/
abbrev RedditUpstream := ℕ → ℕ → RedditRequest → RedditFetch

namespace RedditSubRedditConnector

/-- `PAGE_SIZE`. -/
def pageSize : ℕ := 100

/-- `MAX_PAGES`, for each subreddit. -/
def maxPages : ℕ := 10

/-- `MAX_RATE_LIMIT_RETRIES`. -/
def maxRateLimitRetries : ℕ := 6

/-- `MAX_BODY_BYTES`. -/
def maxBodyBytes : ℕ := 5 * 1024 * 1024

/-- `_get_page`, with `left` retries of a 429 left. -/
def getPage (answer : ℕ → RedditFetch) : ℕ → ℕ → Except Raised ParsedFeed
  | attempt, left => match answer attempt with
    | .httpError => .error (.lib .httpError)
    | .response status length parsed =>
      if status = 429 then
        match left with
        | 0 => .error (.lib .httpError)
        | left + 1 => getPage answer (attempt + 1) left
      else if 200 ≤ status ∧ status < 300 then
        if maxBodyBytes < length then .error (.lib .connectorParseError) else .ok parsed
      else .error (.lib .httpError)

/-- How the loop over the entries of a page ends. -/
inductive PageEnd
  | returned
  | raised (e : Raised)
  | cursor (after : Option String)

/-- The loop over the entries: what it yields, and how it ends. -/
def walkEntries (since : Option Time) :
    List RedditEntry → Option String → List NewRedditPostPayload × PageEnd
  | [], last => ([], .cursor last)
  | entry :: entries, last => match entry.publishedParsed with
    | none => walkEntries since entries last
    | some published => match NewRedditPostPayload.fromFeedparserEntry X entry published with
      | .error e => ([], .raised e)
      | .ok payload =>
        if payload.subreddit = "" then ([], .raised (.lib .connectorParseError))
        else
          let last := if entry.id = "" then last else some entry.id
          if since.any fun since => decide (published < since) then ([], .returned)
          else
            let (rest, pageEnd) := walkEntries since entries last
            (payload :: rest, pageEnd)

/-- The loop over the pages, of which `n` are left. -/
def walkPages (up : RedditUpstream) (slug : String) (since : Option Time) :
    ℕ → ℕ → Option String → Generator SourceError NewRedditPostPayload
  | 0, _, _ => ⟨[], .ok ()⟩
  | n + 1, page, after =>
    match getPage (fun attempt => up page attempt ⟨slug, pageSize, after⟩) 0 maxRateLimitRetries with
    | .error e => .raise e
    | .ok parsed =>
      if parsed.entries.isEmpty then
        if parsed.version = "" then .raise (.lib .connectorParseError) else ⟨[], .ok ()⟩
      else match walkEntries X since parsed.entries none with
        | (yielded, .returned) => ⟨yielded, .ok ()⟩
        | (yielded, .raised e) => ⟨yielded, .error e⟩
        | (yielded, .cursor none) => ⟨yielded, .ok ()⟩
        | (yielded, .cursor (some last)) =>
          let rest := walkPages up slug since n (page + 1) (some last)
          ⟨yielded ++ rest.yielded, rest.outcome⟩

/-- `_walk_new`. -/
def walkNew (up : RedditUpstream) (subreddits : List String) (since : Option Time) :
    Generator SourceError NewRedditPostPayload :=
  walkPages X up (String.intercalate "+" subreddits) since (maxPages * subreddits.length) 0 none

/-- `poll`. -/
def poll (up : RedditUpstream) (spec : RedditSubredditSourceSpec) (since : Option Time) :
    Generator SourceError NewRedditPostPayload := walkNew X up [spec.subreddit] since

/-- `poll_combined`. -/
def pollCombined (up : RedditUpstream) (subreddits : List String) (since : Option Time) :
    Generator SourceError NewRedditPostPayload :=
  match (subreddits.map fun s => String.ofList (strip s.toList)).filter (fun s => decide (s ≠ "")) with
  | [] => .raise (.lib .connectorParseError)
  | subs => walkNew X up subs since

end RedditSubRedditConnector

/-! ## Listings -/

/-- The post of an entry. -/
def RedditEntry.post (entry : RedditEntry) : Option NewRedditPostPayload :=
  entry.publishedParsed.bind fun published =>
    (NewRedditPostPayload.fromFeedparserEntry X entry published).toOption

/-- The posts of a listing. -/
def posts (listing : List RedditEntry) : List NewRedditPostPayload :=
  listing.filterMap fun entry => entry.post X

/-- When a post was published. -/
def NewRedditPostPayload.time (p : NewRedditPostPayload) : Time := p.occurredAt.ensureAware

/-- The entry is a post: it has an id, a date and a tag. -/
structure RedditEntry.IsPost (entry : RedditEntry) : Prop where
  id : entry.id ≠ ""
  post : ∃ p, entry.post X = some p ∧ p.subreddit ≠ ""

namespace RedditSubRedditConnector

/-- A page of a listing. -/
def pageAt (listing : List RedditEntry) (page : ℕ) : List RedditEntry :=
  (listing.drop (pageSize * page)).take pageSize

/-- The cursor of a page: the last entry before it. -/
def cursorAt (listing : List RedditEntry) (page : ℕ) : Option String :=
  (listing.take (pageSize * page)).getLast?.map (·.id)

/-- The request is answered with the entries, after some 429s perhaps. -/
def Answers (answer : ℕ → RedditFetch) (entries : List RedditEntry) : Prop :=
  ∃ retries ≤ maxRateLimitRetries,
    (∀ attempt < retries, ∃ length parsed, answer attempt = .response 429 length parsed) ∧
    ∃ length ≤ maxBodyBytes, ∃ version, version ≠ "" ∧
      answer retries = .response 200 length ⟨version, entries⟩

/-- The service serves the listing under the slug. -/
def Serves (up : RedditUpstream) (slug : String) (listing : List RedditEntry) : Prop := ∀ page,
  Answers (fun attempt => up page attempt ⟨slug, pageSize, cursorAt listing page⟩) (pageAt listing page)

/-- The posts beyond the page budget of a walk over `n` subreddits are all older than `since`. -/
def Reached (n : ℕ) (since : Time) (listing : List RedditEntry) : Prop :=
  ∀ p ∈ posts X (listing.drop (pageSize * (maxPages * n))), p.time < since

end RedditSubRedditConnector

/-! ## A walk of a listing -/

namespace RedditSubRedditConnector

section Walk

variable {X} {since : Time} {entries listing : List RedditEntry} {up : RedditUpstream} {slug : String}

theorem getPage_of_answers {answer : ℕ → RedditFetch} (h : Answers answer entries) :
    ∃ version, version ≠ "" ∧ getPage answer 0 maxRateLimitRetries = .ok ⟨version, entries⟩ := by
  obtain ⟨retries, hle, hearly, length, hlen, version, hversion, hlast⟩ := h
  refine ⟨version, hversion, ?_⟩
  have haux : ∀ left attempt, attempt ≤ retries → retries ≤ attempt + left →
      getPage answer attempt left = .ok ⟨version, entries⟩ := by
    intro left
    induction left with
    | zero =>
      intro attempt h₁ h₂
      obtain rfl := le_antisymm h₁ h₂
      simp [getPage, hlast, hlen]
    | succ left ih =>
      intro attempt h₁ h₂
      rcases Nat.lt_or_eq_of_le h₁ with hlt | rfl
      · obtain ⟨length', parsed, hearly⟩ := hearly attempt hlt
        rw [getPage, hearly]
        exact ih (attempt + 1) hlt (by omega)
      · simp [getPage, hlast, hlen]
  exact haux maxRateLimitRetries 0 (Nat.zero_le _) (by omega)

/-- The date of a post. -/
theorem RedditEntry.of_post {entry : RedditEntry} {p : NewRedditPostPayload}
    (h : entry.post X = some p) : ∃ published, entry.publishedParsed = some published ∧
      NewRedditPostPayload.fromFeedparserEntry X entry published = .ok p ∧ p.time = published := by
  obtain ⟨published, hpub, hp⟩ := Option.bind_eq_some_iff.mp h
  cases hok : NewRedditPostPayload.fromFeedparserEntry X entry published with
  | error e =>
    rw [hok] at hp
    cases hp
  | ok q =>
    rw [hok] at hp
    obtain rfl : q = p := Option.some.inj hp
    exact ⟨published, hpub, hok, by rw [construct_ok hok]; rfl⟩

/-- The post is not older than `since`. -/
def keeps (since : Time) (p : NewRedditPostPayload) : Bool := decide (since ≤ p.time)

/-- **The loop over a page** runs to its last entry, or stops at the first post that is older. -/
theorem walkEntries_cases (h : ∀ entry ∈ entries, entry.IsPost X) (last : Option String) :
    (∀ p ∈ posts X entries, keeps since p = true) ∧ walkEntries X (some since) entries last =
        (posts X entries, .cursor ((entries.getLast?.map (·.id)) <|> last)) ∨
      (¬ ∀ p ∈ posts X entries, keeps since p = true) ∧ walkEntries X (some since) entries last =
        ((posts X entries).takeWhile (keeps since), .returned) := by
  induction entries generalizing last with
  | nil => exact .inl ⟨nofun, rfl⟩
  | cons entry entries ih =>
    obtain ⟨hentry, h⟩ := List.forall_mem_cons.mp h
    obtain ⟨p, hp, htag⟩ := hentry.post
    obtain ⟨published, hpub, hok, htime⟩ := RedditEntry.of_post hp
    have hposts : posts X (entry :: entries) = p :: posts X entries := List.filterMap_cons_some hp
    rw [hposts, walkEntries, hpub]
    dsimp only
    rw [hok]
    dsimp only
    rw [if_neg htag, if_neg hentry.id]
    by_cases hold : published < since
    · have hk : keeps since p = false := by simpa [keeps, htime] using hold
      refine .inr ⟨fun hall => ?_, ?_⟩
      · rw [hall p List.mem_cons_self] at hk
        cases hk
      · rw [if_pos (by simpa using hold), List.takeWhile_cons_of_neg (by simp [hk])]
    · have hk : keeps since p = true := by simpa [keeps, htime] using hold
      rw [if_neg (by simpa using hold), List.forall_mem_cons, and_iff_right hk,
        List.takeWhile_cons_of_pos hk]
      refine (ih h (some entry.id)).imp (And.imp_right fun he => ?_) (And.imp_right fun he => ?_)
      · rw [he]
        cases entries with
        | nil => rfl
        | cons e es => rw [List.getLast?_cons_cons]; cases hl : (e :: es).getLast? <;> simp_all
      · rw [he]

/-- The cursor after a page is its last entry. -/
theorem cursorAt_succ {page : ℕ} (h : pageAt listing page ≠ []) :
    cursorAt listing (page + 1) = (pageAt listing page).getLast?.map (·.id) := by
  have hsplit : listing.take (pageSize * (page + 1)) =
      listing.take (pageSize * page) ++ pageAt listing page := by
    rw [Nat.mul_succ, List.take_add]
    rfl
  rw [cursorAt, hsplit, List.getLast?_append_of_ne_nil _ h]

variable (since) in
/-- **The loop over the pages** yields the posts in front of the first one that is older, as far as its
pages reach. -/
theorem walkPages_eq (hserves : Serves up slug listing) (hposts : ∀ entry ∈ listing, entry.IsPost X)
    (n page : ℕ) : walkPages X up slug (some since) n page (cursorAt listing page) =
      ⟨(posts X ((listing.drop (pageSize * page)).take (pageSize * n))).takeWhile (keeps since),
        .ok ()⟩ := by
  induction n generalizing page with
  | zero => rw [walkPages, Nat.mul_zero, List.take_zero]; rfl
  | succ n ih =>
    obtain ⟨version, hversion, hpage⟩ := getPage_of_answers (hserves page)
    have hsplit : (listing.drop (pageSize * page)).take (pageSize * (n + 1)) =
        pageAt listing page ++ (listing.drop (pageSize * (page + 1))).take (pageSize * n) := by
      rw [Nat.mul_succ, Nat.add_comm, List.take_add, List.drop_drop, Nat.mul_succ]
      rfl
    have hhere : ∀ entry ∈ pageAt listing page, entry.IsPost X :=
      fun entry he => hposts entry (List.mem_of_mem_drop (List.mem_of_mem_take he))
    rw [walkPages, hpage]
    dsimp only
    by_cases hnil : pageAt listing page = []
    · have hrest : listing.drop (pageSize * page) = [] := by
        rcases List.take_eq_nil_iff.mp hnil with h | h
        · cases h
        · exact h
      rw [hnil, if_pos List.isEmpty_nil, if_neg hversion, hrest, List.take_nil]
      rfl
    · rw [if_neg (by simpa using hnil), hsplit]
      have happend : posts X (pageAt listing page ++
          (listing.drop (pageSize * (page + 1))).take (pageSize * n)) =
          posts X (pageAt listing page) ++
            posts X ((listing.drop (pageSize * (page + 1))).take (pageSize * n)) :=
        List.filterMap_append
      rw [happend]
      rcases walkEntries_cases hhere none with ⟨hall, he⟩ | ⟨hnot, he⟩
      · obtain ⟨entry, hlast⟩ := Option.ne_none_iff_exists'.mp
          (mt List.getLast?_eq_none_iff.mp hnil)
        have hcursor : (pageAt listing page).getLast?.map (·.id) = some entry.id := by rw [hlast]; rfl
        have hrest := ih (page + 1)
        rw [cursorAt_succ hnil, hcursor] at hrest
        rw [he, hcursor, List.takeWhile_append_of_pos hall]
        exact congrArg (fun rest : Generator SourceError NewRedditPostPayload =>
          Generator.mk (posts X (pageAt listing page) ++ rest.yielded) rest.outcome) hrest
      · rw [he]
        refine congrArg (Generator.mk · _) ?_
        obtain ⟨p, hp, hk⟩ := not_forall₂.mp hnot
        rw [List.takeWhile_append, if_neg fun hlen => hk (List.takeWhile_eq_self_iff.mp ?_ p hp)]
        exact (List.takeWhile_prefix _).eq_of_length hlen

variable (since) in
/-- **A walk of a newest-first listing** yields its posts from `since` on. -/
theorem walkNew_eq (subs : List String) (hserves : Serves up (String.intercalate "+" subs) listing)
    (hposts : ∀ entry ∈ listing, entry.IsPost X)
    (hnewest : Newest.Newest NewRedditPostPayload.time (posts X listing))
    (hreached : Reached X subs.length since listing) :
    walkNew X up subs (some since) = ⟨(posts X listing).filter (keeps since), .ok ()⟩ := by
  have hwalk := walkPages_eq since hserves hposts (maxPages * subs.length) 0
  have hsplit : posts X listing =
      posts X (listing.take (pageSize * (maxPages * subs.length))) ++
        posts X (listing.drop (pageSize * (maxPages * subs.length))) := by
    rw [posts, posts, posts, ← List.filterMap_append, List.take_append_drop]
  rw [Nat.mul_zero, List.drop_zero] at hwalk
  refine hwalk.trans (congrArg (Generator.mk · _) ?_)
  have hrest : (posts X (listing.drop (pageSize * (maxPages * subs.length)))).filter (keeps since) =
      [] := List.filter_eq_nil_iff.mpr fun p hp => by simpa [keeps] using hreached p hp
  rw [hsplit, List.filter_append, hrest, List.append_nil]
  exact Newest.takeWhile_eq_filter (hnewest.sublist (hsplit ▸ List.sublist_append_left _ _))

end Walk

end RedditSubRedditConnector

end OpenMagpie
