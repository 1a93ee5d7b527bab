import Mathlib
import OpenMagpie.Feeds.Reddit

/-!
# Polling subreddits as a group

A feed's subreddit sources are polled through combined requests: the sources are packed into chunks
that fit one URL, a chunk's merged listing is walked from its earliest watermark, each post goes to
the source of its tag, and each source drops what is older than its own watermark.

* `parseReddit`, `urlBudgetChunks`: the sources of a group, and its chunks.
* `RedditBatchMixin.pollRedditGroup`: the poll of a group. `RedditBatchMixin.pollAlone`: the poll of
  one of its sources.
* `PollsSame`: what holds of the listings, the services and the lease.
* `Leaves`: what either poll leaves, in terms of each source's own posts.
* **`group_eq_alone`**: the group leaves the same items and the same watermarks as its sources polled
  one by one.
-/

set_option autoImplicit false

namespace OpenMagpie

open Python

/-! ## The sources of a group -/

/-- A source's row, and the subreddit of its stored spec. -/
structure RedditSource where
  src : SourceRow
  subreddit : String

/-- A source with its valid spec. -/
abbrev RedditPair := SourceRow × RedditSubredditSourceSpec

/-- A source whose spec is valid. -/
def RedditSource.pair (source : RedditSource) : Option RedditPair :=
  (RedditSubredditSourceSpec.validateSubreddit source.subreddit).map fun spec => (source.src, spec)

/-- `_parse_reddit`: a source is skipped when its spec is not valid or its subreddit was `seen`. -/
def parseReddit (lower : String → String) : List RedditSource → List String → List RedditPair
  | [], _ => []
  | source :: sources, seen => match source.pair with
    | none => parseReddit lower sources seen
    | some pair =>
      if lower pair.2.subreddit ∈ seen then parseReddit lower sources seen
      else pair :: parseReddit lower sources (lower pair.2.subreddit :: seen)

/-- `MAX_COMBINED_URL_BYTES - COMBINED_URL_OVERHEAD`. -/
def urlBudget : ℕ := 7500 - 75

/-- `_iter_url_budget_chunks`, after the pairs `cur` whose names take up `used`. -/
def iterUrlBudgetChunks (budget : ℕ) :
    List RedditPair → List RedditPair → ℕ → List (List RedditPair)
  | [], cur, _ => if cur.isEmpty then [] else [cur]
  | pair :: pairs, cur, used =>
    let add := pair.2.subreddit.length + if cur.isEmpty then 0 else 1
    if cur.isEmpty = false ∧ budget < used + add then
      cur :: iterUrlBudgetChunks budget pairs [pair] add
    else iterUrlBudgetChunks budget pairs (cur ++ [pair]) (used + add)

/-! ## The two polls -/

/-- A poll under way: the feed's items, the sources polled so far, as their polls left them, and the
totals. -/
structure GroupPoll where
  items : List FeedItem
  polled : List SourceRow := []
  observed : ℕ := 0
  recorded : ℕ := 0
  succeeded : ℕ := 0

/-- A poll of a feed's subreddits: what the database takes, the ids of new items, the service during
the walk of a chunk, and the heartbeat before it. -/
structure RedditBatchMixin where
  feed : Feed
  fits : SourcePayload → Bool := fun _ => true
  mint : SourcePayload → Id
  up : List RedditPair → RedditUpstream
  heartbeat : List RedditPair → Bool := fun _ => true

namespace RedditBatchMixin

variable (X : RedditReader) (op : RedditBatchMixin)

/-- The posts of a source in a chunk's payloads: those with its tag, from its watermark on. -/
def bucket (payloads : List NewRedditPostPayload) (pair : RedditPair) : List SourcePayload :=
  ((payloads.filter fun p => decide (X.lower p.subreddit = X.lower pair.2.subreddit)).filter fun p =>
    decide (pair.1.lastEventAt ≤ p.time)).map (·.toSourcePayload)

/-- The body of the loop over a chunk: the source's posts are recorded, and its watermark is moved to
the newest of them. -/
def pollMember (payloads : List NewRedditPostPayload) (pair : RedditPair) (s : GroupPoll) :
    GroupPoll × Except Raised Unit :=
  let own := bucket X payloads pair
  match FeedItemService.recordItemsCount op.fits op.mint op.feed recordChunkSize ⟨own, .ok ()⟩ s.items
    with
  | (items, .error e) => ({ s with items }, .error e)
  | (items, .ok new) =>
    let src := match (own.map (·.occurredAt.ensureAware)).max? with
      | some newest =>
        if pair.1.lastEventAt < newest then pair.1.advanceWatermark newest else pair.1
      | none => pair.1
    ({ s with
        items, polled := s.polled ++ [src], observed := s.observed + own.length
        recorded := s.recorded + new }, .ok ())

/-- `_poll_chunk`. A recoverable error of the request is logged, and the sources stay as they are. -/
def pollChunk (chunk : List RedditPair) (s : GroupPoll) : GroupPoll × Except Raised Unit :=
  let since := (chunk.map (·.1.lastEventAt)).min?
  let payloads := RedditSubRedditConnector.pollCombined X (op.up chunk)
    (chunk.map (·.2.subreddit)) since
  match payloads.outcome with
  | .error e =>
    if Recoverable e then ({ s with polled := s.polled ++ chunk.map (·.1) }, .ok ()) else (s, .error e)
  | .ok () => match forEach (pollMember X op payloads.yielded) chunk s with
    | (s, .ok ()) => ({ s with succeeded := s.succeeded + chunk.length }, .ok ())
    | (s, .error e) => (s, .error e)

/-- The loop over the chunks, until the lease is lost. -/
def pollChunks : List (List RedditPair) → GroupPoll → GroupPoll × Except Raised Unit
  | [], s => (s, .ok ())
  | chunk :: chunks, s =>
    if op.heartbeat chunk = false then (s, .ok ())
    else match pollChunk X op chunk s with
      | (s, .ok ()) => pollChunks chunks s
      | (s, .error e) => (s, .error e)

/-- The chunks of a group. -/
def chunks (sources : List RedditSource) : List (List RedditPair) :=
  iterUrlBudgetChunks urlBudget (parseReddit X.lower sources []) [] 0

/-- `poll_reddit_group`. -/
def pollRedditGroup (sources : List RedditSource) (s : GroupPoll) : GroupPoll × Except Raised Unit :=
  pollChunks X op (chunks X sources) s

/-- `_poll_source` of one source, with its own request. -/
def pollAlone (up : RedditPair → RedditUpstream) (pair : RedditPair) (s : GroupPoll) :
    GroupPoll × Except Raised Unit :=
  let payloads := RedditSubRedditConnector.poll X (up pair) pair.2 (some pair.1.lastEventAt)
  let ((src, items), outcome) := pollSourcePayloads op.fits op.mint op.feed pair.1
    (payloads.map (·.toSourcePayload)) s.items
  ({ s with items, polled := s.polled ++ [src] }, outcome)

end RedditBatchMixin

/-! ## What the services serve -/

open RedditSubRedditConnector RedditBatchMixin

/-- The listing of a subreddit: newest first, every entry a post with the subreddit's tag. -/
structure IsListing (X : RedditReader) (subreddit : String) (listing : List RedditEntry) : Prop where
  posts : ∀ entry ∈ listing, entry.IsPost X
  tagged : ∀ p ∈ OpenMagpie.posts X listing, X.lower p.subreddit = X.lower subreddit
  newest : Newest.Newest NewRedditPostPayload.time (OpenMagpie.posts X listing)

/-- **The claims of the two polls on their surroundings.** The subreddits differ; each has its listing,
and the service serves it; for a chunk the service serves the newest-first merge of its listings; no
page budget cuts a walk short; the lease is held, and the database takes the posts. -/
structure PollsSame (X : RedditReader) (op : RedditBatchMixin) (alone : RedditPair → RedditUpstream)
    (sources : List RedditSource) (listing : RedditPair → List RedditEntry)
    (merged : List RedditPair → List RedditEntry) : Prop where
  distinct : ((sources.filterMap RedditSource.pair).map fun pair => X.lower pair.2.subreddit).Nodup
  listings : ∀ pair ∈ sources.filterMap RedditSource.pair,
    IsListing X pair.2.subreddit (listing pair) ∧
      Serves (alone pair) pair.2.subreddit (listing pair) ∧
      Reached X 1 pair.1.lastEventAt (listing pair)
  merges : ∀ chunk ∈ chunks X sources,
    (merged chunk).Perm (chunk.flatMap listing) ∧
      Newest.Newest NewRedditPostPayload.time (posts X (merged chunk)) ∧
      Serves (op.up chunk) (String.intercalate "+" (chunk.map (·.2.subreddit))) (merged chunk) ∧
      ∀ pair ∈ chunk, Reached X chunk.length pair.1.lastEventAt (merged chunk)
  held : ∀ chunk ∈ chunks X sources, op.heartbeat chunk = true
  fits : ∀ pair ∈ sources.filterMap RedditSource.pair, ∀ p ∈ posts X (listing pair),
    op.fits p.toSourcePayload = true

/-! ## The sources and the chunks -/

section Chunks

variable {lower : String → String} {sources : List RedditSource} {pairs cur : List RedditPair}
  {budget used : ℕ} {seen : List String}

/-- No source is skipped when the subreddits differ. -/
theorem parseReddit_eq
    (h : (seen ++ (sources.filterMap RedditSource.pair).map fun pair =>
      lower pair.2.subreddit).Nodup) :
    parseReddit lower sources seen = sources.filterMap RedditSource.pair := by
  induction sources generalizing seen with
  | nil => rfl
  | cons source sources ih =>
    rw [parseReddit]
    cases hpair : source.pair with
    | none =>
      rw [List.filterMap_cons_none hpair] at h ⊢
      exact ih h
    | some pair =>
      rw [List.filterMap_cons_some hpair] at h ⊢
      rw [List.map_cons] at h
      have hnew : lower pair.2.subreddit ∉ seen := fun hmem =>
        (List.nodup_append.mp h).2.2 _ hmem _ List.mem_cons_self rfl
      dsimp only
      rw [if_neg hnew, ih (List.perm_middle.nodup_iff.mp h)]

/-- **The chunks hold every pair once**, and none is empty. -/
theorem flatten_iterUrlBudgetChunks :
    (iterUrlBudgetChunks budget pairs cur used).flatten = cur ++ pairs := by
  induction pairs generalizing cur used with
  | nil =>
    rw [iterUrlBudgetChunks]
    split_ifs with h
    · rw [List.isEmpty_iff.mp h]
      rfl
    · simp
  | cons pair pairs ih =>
    rw [iterUrlBudgetChunks]
    generalize (pair.2.subreddit.length + if cur.isEmpty then 0 else 1) = add
    split_ifs
    · rw [List.flatten_cons, ih, List.singleton_append]
    · rw [ih, List.append_assoc, List.singleton_append]

theorem ne_nil_of_mem_iterUrlBudgetChunks {chunk : List RedditPair}
    (h : chunk ∈ iterUrlBudgetChunks budget pairs cur used) : chunk ≠ [] := by
  induction pairs generalizing cur used with
  | nil =>
    rw [iterUrlBudgetChunks] at h
    split_ifs at h with hcur
    · exact absurd h List.not_mem_nil
    · obtain rfl := List.mem_singleton.mp h
      exact fun hnil => hcur (List.isEmpty_iff.mpr hnil)
  | cons pair pairs ih =>
    rw [iterUrlBudgetChunks] at h
    generalize (pair.2.subreddit.length + if cur.isEmpty then 0 else 1) = add at h
    split_ifs at h with hfull
    · rcases List.mem_cons.mp h with rfl | h
      · exact fun hnil => by simp [hnil] at hfull
      · exact ih h
    · exact ih h

theorem isSpace_of_isSlugChar {c : Char} (h : isSlugChar c = true) : isSpace c = false := by
  simp only [isSlugChar, Char.isAlphanum, Char.isAlpha, Char.isUpper, Char.isLower, Char.isDigit,
    Bool.or_eq_true, Bool.and_eq_true, decide_eq_true_eq, beq_iff_eq, ge_iff_le,
    UInt32.le_iff_toNat_le] at h
  change ((65 ≤ c.toNat ∧ c.toNat ≤ 90 ∨ 97 ≤ c.toNat ∧ c.toNat ≤ 122) ∨
    48 ≤ c.toNat ∧ c.toNat ≤ 57) ∨ c = '_' at h
  rcases h with h | rfl
  · simp only [isSpace, Bool.or_eq_false_iff, Bool.and_eq_false_iff, decide_eq_false_iff_not]
    omega
  · rfl

/-- A slug has nothing to strip. -/
theorem RedditSubredditSourceSpec.strip_subreddit (spec : RedditSubredditSourceSpec) :
    strip spec.subreddit.toList = spec.subreddit.toList := by
  have hslug := (Bool.and_eq_true_iff.mp spec.slug).2
  have hno : ∀ c ∈ spec.subreddit.toList, ¬ isSpace c = true := fun c hc => by
    simp [isSpace_of_isSlugChar (List.all_eq_true.mp hslug c hc)]
  have hl : spec.subreddit.toList.dropWhile isSpace = spec.subreddit.toList := by
    rw [List.dropWhile_eq_self_iff]
    exact fun hpos => hno _ (List.getElem_mem hpos)
  rw [strip, hl, List.rdropWhile_eq_self_iff]
  exact fun hne => hno _ (List.getLast_mem hne)

theorem RedditSubredditSourceSpec.subreddit_ne (spec : RedditSubredditSourceSpec) :
    spec.subreddit ≠ "" := by
  intro h
  have hslug := spec.slug
  rw [h] at hslug
  cases hslug

/-- A combined request of sources with valid specs. -/
theorem pollCombined_eq {X : RedditReader} {up : RedditUpstream} {since : Option Time}
    {chunk : List RedditPair} (h : chunk ≠ []) :
    pollCombined X up (chunk.map (·.2.subreddit)) since =
      walkNew X up (chunk.map (·.2.subreddit)) since := by
  have hsubs : ((chunk.map (·.2.subreddit)).map fun s => String.ofList (strip s.toList)).filter
      (fun s => decide (s ≠ "")) = chunk.map (·.2.subreddit) := by
    rw [List.map_map, List.map_congr_left (g := (·.2.subreddit)), List.filter_eq_self.mpr]
    · rintro s hs
      obtain ⟨pair, -, rfl⟩ := List.mem_map.mp hs
      exact decide_eq_true pair.2.subreddit_ne
    · intro pair _
      rw [Function.comp_apply, pair.2.strip_subreddit, String.ofList_toList]
  rw [pollCombined, hsubs]
  cases hmap : chunk.map (·.2.subreddit) with
  | nil => exact absurd (List.map_eq_nil_iff.mp hmap) h
  | cons s ss => rfl

end Chunks

/-! ## What a poll leaves -/

section Leaves

variable {feed : Feed} {own : RedditPair → List SourcePayload} {pairs pairs' : List RedditPair}
  {s s' s'' : GroupPoll}

/-- **What a poll leaves** of sources with their own posts: the posts' keys are added, and each source
has moved to the newest of its posts. -/
structure Leaves (feed : Feed) (own : RedditPair → List SourcePayload) (pairs : List RedditPair)
    (s s' : GroupPoll) : Prop where
  keys : ∀ k, k ∈ s'.items.map FeedItem.key ↔
    k ∈ s.items.map FeedItem.key ∨ ∃ pair ∈ pairs, ∃ p ∈ own pair, p.key feed = k
  polled : s'.polled = s.polled ++ pairs.map fun pair =>
    pair.1.advanceWatermark (newestPayload pair.1.lastEventAt (own pair))

theorem Leaves.nil : Leaves feed own [] s s := ⟨fun k => by simp, by simp⟩

theorem Leaves.append (h : Leaves feed own pairs s s') (h' : Leaves feed own pairs' s' s'') :
    Leaves feed own (pairs ++ pairs') s s'' := by
  refine ⟨fun k => ?_, ?_⟩
  · rw [h'.keys, h.keys, or_assoc]
    simp only [List.mem_append, or_and_right, exists_or]
  · rw [h'.polled, h.polled, List.map_append, List.append_assoc]

/-- The totals are not what a poll leaves. -/
theorem Leaves.of_eq (h : Leaves feed own pairs s s') (hi : s''.items = s'.items)
    (hp : s''.polled = s'.polled) : Leaves feed own pairs s s'' :=
  ⟨fun k => by rw [hi]; exact h.keys k, hp ▸ h.polled⟩

/-- A loop over the sources, from its body. -/
theorem ends_forEach (own : RedditPair → List SourcePayload)
    (step : RedditPair → GroupPoll → GroupPoll × Except Raised Unit) (s : GroupPoll)
    (h : ∀ pair ∈ pairs, ∀ s, ∃ s', step pair s = (s', .ok ()) ∧ Leaves feed own [pair] s s') :
    ∃ s', forEach step pairs s = (s', .ok ()) ∧ Leaves feed own pairs s s' := by
  induction pairs generalizing s with
  | nil => exact ⟨s, rfl, .nil⟩
  | cons pair pairs ih =>
    obtain ⟨hpair, hpairs⟩ := List.forall_mem_cons.mp h
    obtain ⟨s₁, hstep, hends⟩ := hpair s
    obtain ⟨s₂, hloop, hrest⟩ := ih s₁ hpairs
    refine ⟨s₂, ?_, hends.append hrest⟩
    rw [forEach, hstep]
    exact hloop

/-- The newest of the same payloads. -/
theorem newestPayload_congr {initial : Time} {ps qs : List SourcePayload}
    (h : ∀ p, p ∈ ps ↔ p ∈ qs) : newestPayload initial ps = newestPayload initial qs := by
  have hle : ∀ {ps qs : List SourcePayload}, (∀ p, p ∈ ps → p ∈ qs) →
      newestPayload initial ps ≤ newestPayload initial qs := by
    intro ps qs hsub
    obtain ⟨hi, hall⟩ := foldl_newest_le.mp (le_refl (newestPayload initial qs))
    exact foldl_newest_le.mpr ⟨hi, fun p hp => hall p (hsub p hp)⟩
  exact le_antisymm (hle fun p => (h p).mp) (hle fun p => (h p).mpr)

/-- The two ways to move a watermark to the newest payload. -/
theorem advanceWatermark_newest (src : SourceRow) (own : List SourcePayload) :
    (match (own.map (·.occurredAt.ensureAware)).max? with
      | some newest => if src.lastEventAt < newest then src.advanceWatermark newest else src
      | none => src) = src.advanceWatermark (newestPayload src.lastEventAt own) := by
  obtain ⟨hi, hall⟩ := foldl_newest_le.mp (le_refl (newestPayload src.lastEventAt own))
  cases hmax : (own.map (·.occurredAt.ensureAware)).max? with
  | none =>
    obtain rfl := List.map_eq_nil_iff.mp (List.max?_eq_none_iff.mp hmax)
    exact (if_neg (lt_irrefl src.lastEventAt)).symm
  | some newest =>
    obtain ⟨hmem, hge⟩ := List.max?_eq_some_iff.mp hmax
    obtain ⟨p, hp, hnewest⟩ := List.mem_map.mp hmem
    have hle : newest ≤ newestPayload src.lastEventAt own := hnewest ▸ hall p hp
    dsimp only
    split_ifs with hlt
    · have heq : newestPayload src.lastEventAt own = newest :=
        le_antisymm (foldl_newest_le.mpr
          ⟨le_of_lt hlt, fun q hq => hge _ (List.mem_map_of_mem hq)⟩) hle
      rw [heq]
    · have heq : newestPayload src.lastEventAt own = src.lastEventAt :=
        le_antisymm (foldl_newest_le.mpr ⟨le_refl _, fun q hq =>
          le_trans (hge _ (List.mem_map_of_mem hq)) (not_lt.mp hlt)⟩) hi
      rw [heq]
      exact (if_neg (lt_irrefl src.lastEventAt)).symm

end Leaves

/-! ## The two polls of one group -/

section Polls

variable {X : RedditReader} {op : RedditBatchMixin} {alone : RedditPair → RedditUpstream}
  {sources : List RedditSource} {listing : RedditPair → List RedditEntry}
  {merged : List RedditPair → List RedditEntry} {pair : RedditPair} {chunk : List RedditPair}
  {s : GroupPoll}

/-- The posts of a source that are its own to record. -/
def ownPosts (X : RedditReader) (listing : RedditPair → List RedditEntry) (pair : RedditPair) :
    List SourcePayload :=
  ((posts X (listing pair)).filter (keeps pair.1.lastEventAt)).map (·.toSourcePayload)

theorem mem_ownPosts {p : SourcePayload} : p ∈ ownPosts X listing pair ↔
    ∃ q ∈ posts X (listing pair), pair.1.lastEventAt ≤ q.time ∧ q.toSourcePayload = p := by
  simp only [ownPosts, List.mem_map, List.mem_filter, keeps, decide_eq_true_eq, and_assoc]

/-- **One source of a chunk**, when its bucket is its own posts. -/
theorem pollMember_ends {payloads : List NewRedditPostPayload}
    (hown : ∀ p, p ∈ bucket X payloads pair ↔ p ∈ ownPosts X listing pair)
    (hf : ∀ p ∈ ownPosts X listing pair, op.fits p) (s : GroupPoll) :
    ∃ s', pollMember X op payloads pair s = (s', .ok ()) ∧
      Leaves op.feed (ownPosts X listing) [pair] s s' := by
  obtain ⟨items, new, hrec, hkeys⟩ := FeedItemService.recordItemsCount_of_fits op.mint
    op.feed s.items fun p hp => hf p ((hown p).mp hp)
  rw [pollMember, hrec]
  refine ⟨_, rfl, fun k => ?_, ?_⟩
  · simp only [hkeys, hown, List.mem_singleton, exists_eq_left]
  · refine congrArg (s.polled ++ [·]) ?_
    dsimp only
    rw [← newestPayload_congr hown]
    exact advanceWatermark_newest _ _

/-- **One source polled alone.** -/
theorem pollAlone_ends (hl : IsListing X pair.2.subreddit (listing pair))
    (hs : Serves (alone pair) pair.2.subreddit (listing pair))
    (hr : Reached X 1 pair.1.lastEventAt (listing pair))
    (hf : ∀ p ∈ ownPosts X listing pair, op.fits p) (s : GroupPoll) :
    ∃ s', pollAlone X op alone pair s = (s', .ok ()) ∧
      Leaves op.feed (ownPosts X listing) [pair] s s' := by
  have hwalk : (RedditSubRedditConnector.poll X (alone pair) pair.2 (some pair.1.lastEventAt)).map
      (·.toSourcePayload) = ⟨ownPosts X listing pair, .ok ()⟩ := by
    rw [RedditSubRedditConnector.poll, walkNew_eq _ [pair.2.subreddit] hs hl.posts hl.newest hr]
    rfl
  have hok := FeedItemService.recordItems_of_fits op.mint op.feed s.items hf
  have hkeys := fun k => FeedItemService.mem_keys_recordItems hok (k := k)
  rw [pollAlone, hwalk, pollSourcePayloads]
  generalize FeedItemService.recordItems op.fits op.mint op.feed
    ⟨ownPosts X listing pair, .ok ()⟩ s.items = x at hok hkeys ⊢
  obtain ⟨items, outcome⟩ := x
  dsimp only at hok
  subst hok
  refine ⟨_, rfl, fun k => ?_, ?_⟩
  · simp only [hkeys, List.mem_singleton, exists_eq_left]
  · refine congrArg (s.polled ++ [·]) ?_
    dsimp only
    split_ifs with hne
    · rfl
    · rw [not_not.mp hne]
      exact (if_neg (lt_irrefl pair.1.lastEventAt)).symm

/-- The posts of a merged listing. -/
theorem mem_posts_merged (h : (merged chunk).Perm (chunk.flatMap listing)) {q : NewRedditPostPayload} :
    q ∈ posts X (merged chunk) ↔ ∃ pair ∈ chunk, q ∈ posts X (listing pair) := by
  rw [posts, (h.filterMap _).mem_iff]
  simp only [posts, List.mem_filterMap, List.mem_flatMap]
  constructor
  · rintro ⟨e, ⟨pair, hp, he⟩, hq⟩
    exact ⟨pair, hp, e, he, hq⟩
  · rintro ⟨pair, hp, e, he, hq⟩
    exact ⟨e, ⟨pair, hp, he⟩, hq⟩

/-- **A source's bucket is its own posts**: the tag leaves out the other listings, its watermark what
the earliest one lets in. -/
theorem mem_bucket {since : Time} (hchunk : chunk ⊆ sources.filterMap RedditSource.pair)
    (h : PollsSame X op alone sources listing merged)
    (hm : (merged chunk).Perm (chunk.flatMap listing)) (hpair : pair ∈ chunk)
    (hsince : since ≤ pair.1.lastEventAt) {p : SourcePayload} :
    p ∈ bucket X ((posts X (merged chunk)).filter (keeps since)) pair ↔
      p ∈ ownPosts X listing pair := by
  rw [mem_ownPosts]
  simp only [bucket, List.mem_map, List.mem_filter, decide_eq_true_eq, mem_posts_merged hm, keeps]
  constructor
  · rintro ⟨q, ⟨⟨⟨⟨pair', hp', hq⟩, -⟩, htag⟩, hmark⟩, rfl⟩
    have hname : X.lower pair'.2.subreddit = X.lower pair.2.subreddit :=
      ((h.listings pair' (hchunk hp')).1.tagged q hq).symm.trans htag
    obtain rfl := List.inj_on_of_nodup_map h.distinct (hchunk hp') (hchunk hpair) hname
    exact ⟨q, hq, hmark, rfl⟩
  · rintro ⟨q, hq, hmark, rfl⟩
    exact ⟨q, ⟨⟨⟨⟨pair, hpair, hq⟩, le_trans hsince hmark⟩,
      (h.listings pair (hchunk hpair)).1.tagged q hq⟩, hmark⟩, rfl⟩

/-- **One chunk.** -/
theorem pollChunk_ends (h : PollsSame X op alone sources listing merged)
    (hmem : chunk ∈ chunks X sources) (hchunk : chunk ⊆ sources.filterMap RedditSource.pair)
    (hf : ∀ pair ∈ chunk, ∀ p ∈ ownPosts X listing pair, op.fits p) (s : GroupPoll) :
    ∃ s', pollChunk X op chunk s = (s', .ok ()) ∧ Leaves op.feed (ownPosts X listing) chunk s s' := by
  have hne : chunk ≠ [] := ne_nil_of_mem_iterUrlBudgetChunks hmem
  obtain ⟨hperm, hnewest, hserves, hreached⟩ := h.merges chunk hmem
  obtain ⟨since, hsince⟩ : ∃ since, (chunk.map (·.1.lastEventAt)).min? = some since :=
    Option.ne_none_iff_exists'.mp fun hnone => hne
      (List.map_eq_nil_iff.mp (List.min?_eq_none_iff.mp hnone))
  obtain ⟨hleast, hbelow⟩ := List.min?_eq_some_iff.mp hsince
  obtain ⟨first, hfirst, hmark⟩ := List.mem_map.mp hleast
  have hposts : ∀ entry ∈ merged chunk, entry.IsPost X := fun entry he => by
    obtain ⟨pair, hp, he⟩ := List.mem_flatMap.mp (hperm.mem_iff.mp he)
    exact (h.listings pair (hchunk hp)).1.posts entry he
  have hwalk := walkNew_eq since _ hserves hposts hnewest
    (by rw [List.length_map]; exact hmark ▸ hreached first hfirst)
  obtain ⟨s', hloop, hends⟩ := ends_forEach (ownPosts X listing)
    (pollMember X op ((posts X (merged chunk)).filter (keeps since))) s fun pair hp s =>
      pollMember_ends (fun p => mem_bucket hchunk h hperm hp (hbelow _ (List.mem_map_of_mem hp)))
        (hf pair hp) s
  refine ⟨{ s' with succeeded := s'.succeeded + chunk.length }, ?_, hends.of_eq rfl rfl⟩
  rw [pollChunk, hsince]
  simp only [pollCombined_eq hne, hwalk, hloop]

/-- **The loop over the chunks.** -/
theorem pollChunks_ends (own : RedditPair → List SourcePayload) {rest : List (List RedditPair)}
    (hheld : ∀ chunk ∈ rest, op.heartbeat chunk = true)
    (hstep : ∀ chunk ∈ rest, ∀ s, ∃ s', pollChunk X op chunk s = (s', .ok ()) ∧
      Leaves op.feed own chunk s s') (s : GroupPoll) :
    ∃ s', pollChunks X op rest s = (s', .ok ()) ∧ Leaves op.feed own rest.flatten s s' := by
  induction rest generalizing s with
  | nil => exact ⟨s, rfl, .nil⟩
  | cons chunk rest ih =>
    obtain ⟨hhere, hheld⟩ := List.forall_mem_cons.mp hheld
    obtain ⟨hchunk, hstep⟩ := List.forall_mem_cons.mp hstep
    obtain ⟨s₁, he, hends⟩ := hchunk s
    obtain ⟨s₂, hloop, hrest⟩ := ih hheld hstep s₁
    refine ⟨s₂, ?_, hends.append hrest⟩
    rw [pollChunks, if_neg (by simp [hhere]), he]
    exact hloop

/-- **The group leaves the same items and the same watermarks as its sources polled one by one.** -/
theorem group_eq_alone (h : PollsSame X op alone sources listing merged) (items : List FeedItem) :
    ∃ group single, pollRedditGroup X op sources { items } = (group, .ok ()) ∧
      forEach (pollAlone X op alone) (sources.filterMap RedditSource.pair) { items } =
        (single, .ok ()) ∧
      (∀ k, k ∈ group.items.map FeedItem.key ↔ k ∈ single.items.map FeedItem.key) ∧
      group.polled = single.polled := by
  have hflat : (chunks X sources).flatten = sources.filterMap RedditSource.pair := by
    rw [chunks, flatten_iterUrlBudgetChunks, List.nil_append]
    exact parseReddit_eq (by simpa using h.distinct)
  have hf : ∀ pair ∈ sources.filterMap RedditSource.pair, ∀ p ∈ ownPosts X listing pair, op.fits p := by
    intro pair hp p hown
    obtain ⟨q, hq, -, rfl⟩ := mem_ownPosts.mp hown
    exact h.fits pair hp q hq
  obtain ⟨group, hgroup, hends⟩ := pollChunks_ends (ownPosts X listing) h.held
    (fun chunk hc s => by
      have hsub : chunk ⊆ sources.filterMap RedditSource.pair := fun pair hp =>
        hflat ▸ List.mem_flatten.mpr ⟨chunk, hc, hp⟩
      exact pollChunk_ends h hc hsub (fun pair hp => hf pair (hsub hp)) s) { items }
  obtain ⟨single, hsingle, hends'⟩ := ends_forEach (ownPosts X listing)
    (pollAlone X op alone) { items } fun pair hp s =>
      pollAlone_ends (h.listings pair hp).1 (h.listings pair hp).2.1 (h.listings pair hp).2.2
        (hf pair hp) s
  rw [hflat] at hends
  refine ⟨group, single, hgroup, hsingle, fun k => ?_, ?_⟩
  · rw [hends.keys, hends'.keys]
  · rw [hends.polled, hends'.polled]

end Polls

/-! ## Two subreddits -/

/-- Readers that only lower ASCII. -/
def sampleRedditReader : RedditReader where
  repr _ := ""
  parseInt _ := none
  fromisoformat _ := none
  strip := id
  collapse := id
  textNodes _ := none
  fromtimestamp _ := none
  timestamp t := t
  integerField _ := none
  validStrings _ := true
  lower s := String.ofList (s.toList.map Char.toLower)
  scBlock _ := none
  untag := id
  unescape := id

/-- A subreddit, polled up to the second 0. -/
def leanSource : RedditSource :=
  ⟨{ id := 1, accountId := 1, feedId := 1, lastEventAt := 0 }, "r/Lean"⟩

/-- A subreddit, polled up to the second 15. -/
def coqSource : RedditSource := ⟨{ id := 2, accountId := 1, feedId := 1, lastEventAt := 15 }, "coq"⟩

/-- An entry with a tag. -/
def taggedEntry (id : String) (published : Time) (tag : String) : RedditEntry :=
  { id, publishedParsed := some published, terms := [tag] }

/-- The listings of the two. -/
def sampleListing (pair : RedditPair) : List RedditEntry :=
  if pair.1.id = 1 then [taggedEntry "t3_a" 20 "lean", taggedEntry "t3_b" 10 "Lean"]
  else [taggedEntry "t3_c" 30 "Coq", taggedEntry "t3_a" 5 "coq"]

/-- Their merge. -/
def sampleMerge : List RedditEntry :=
  [taggedEntry "t3_c" 30 "Coq", taggedEntry "t3_a" 20 "lean", taggedEntry "t3_b" 10 "Lean",
    taggedEntry "t3_a" 5 "coq"]

/-- A service that serves a listing. -/
def serving (listing : List RedditEntry) : RedditUpstream := fun page _ _ =>
  .response 200 0 ⟨"atom10", pageAt listing page⟩

theorem serves_serving (listing : List RedditEntry) (slug : String) :
    Serves (serving listing) slug listing := fun _ =>
  ⟨0, Nat.zero_le _, nofun, 0, Nat.zero_le _, "atom10", by decide, rfl⟩

/-- A poll of the two. -/
def sampleGroup : RedditBatchMixin where
  feed := ⟨1, 1⟩
  mint _ := 1
  up _ := serving sampleMerge

theorem isPost_taggedEntry {id tag : String} {published : Time} (hid : id ≠ "") (htag : tag ≠ "") :
    (taggedEntry id published tag).IsPost sampleRedditReader := ⟨hid, _, rfl, htag⟩

theorem pollsSame_sample : PollsSame sampleRedditReader sampleGroup
    (fun pair => serving (sampleListing pair)) [leanSource, coqSource] sampleListing
    fun _ => sampleMerge := by
  have hpairs : [leanSource, coqSource].filterMap RedditSource.pair =
      [(leanSource.src, ⟨"lean", by decide⟩), (coqSource.src, ⟨"coq", by decide⟩)] := rfl
  have hchunks : chunks sampleRedditReader [leanSource, coqSource] =
      [[(leanSource.src, ⟨"lean", by decide⟩), (coqSource.src, ⟨"coq", by decide⟩)]] := rfl
  constructor
  · rw [hpairs]
    decide
  · rw [hpairs]
    simp only [List.forall_mem_cons, List.not_mem_nil, false_imp_iff, implies_true, and_true]
    refine ⟨⟨⟨?_, ?_, ?_⟩, serves_serving _ _, nofun⟩, ⟨⟨?_, ?_, ?_⟩, serves_serving _ _, nofun⟩⟩
    · exact List.forall_mem_cons.mpr ⟨isPost_taggedEntry (by decide) (by decide),
        List.forall_mem_singleton.mpr (isPost_taggedEntry (by decide) (by decide))⟩
    · exact List.forall_mem_cons.mpr ⟨rfl, List.forall_mem_singleton.mpr rfl⟩
    · exact List.pairwise_pair.mpr (by decide)
    · exact List.forall_mem_cons.mpr ⟨isPost_taggedEntry (by decide) (by decide),
        List.forall_mem_singleton.mpr (isPost_taggedEntry (by decide) (by decide))⟩
    · exact List.forall_mem_cons.mpr ⟨rfl, List.forall_mem_singleton.mpr rfl⟩
    · exact List.pairwise_pair.mpr (by decide)
  · rw [hchunks]
    simp only [List.forall_mem_cons, List.not_mem_nil, false_imp_iff, implies_true, and_true]
    refine ⟨by decide, ?_, serves_serving _ _, nofun, nofun⟩
    have htimes : (posts sampleRedditReader sampleMerge).map NewRedditPostPayload.time =
        [30, 20, 10, 5] := rfl
    have hsorted : ([30, 20, 10, 5] : List Time).Pairwise fun x y => y ≤ x := by decide
    exact List.pairwise_map.mp (htimes ▸ hsorted)
  · exact fun _ _ => rfl
  · exact fun _ _ _ _ => rfl

/-- The two as a group and one by one. -/
theorem group_eq_alone_sample : ∃ group single,
    pollRedditGroup sampleRedditReader sampleGroup [leanSource, coqSource] { items := [] } =
      (group, .ok ()) ∧
    forEach (pollAlone sampleRedditReader sampleGroup fun pair => serving (sampleListing pair))
      ([leanSource, coqSource].filterMap RedditSource.pair) { items := [] } = (single, .ok ()) ∧
    (∀ k, k ∈ group.items.map FeedItem.key ↔ k ∈ single.items.map FeedItem.key) ∧
    group.polled = single.polled := group_eq_alone pollsSame_sample []

end OpenMagpie
