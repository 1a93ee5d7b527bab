import Mathlib.Algebra.Group.Nat.Defs
import Mathlib.Data.List.TakeWhile
import OpenMagpie.Feeds.Items
import OpenMagpie.Feeds.Ties
import OpenMagpie.Feeds.WalkContainment

/-!
# A poll of a feed

`FeedPollOperation.run` polls the reddit sources as a group, then the other sources one at a time,
and at the end writes the time of the poll and prunes the items. Errors of `_RECOVERABLE_ERRORS` are
logged; another exception ends the run.

* `SourceSpec.poll`, `Turn`: the connector of a source, and a source at its turn.
* `SourcePayload.WellFormed`, `wellFormed_of_yielded`: what every payload has that a poll yields.
* `FeedPollOperation.run`: the run.
* `Completes`: every source is polled until the lease is lost, and the poll's time is written and
  the items are pruned.
* **`contained_iff`**: which answers each connector contains, and a run completes exactly when every
  answer that it comes to is one of them.
* **`forbidden_aborts`**: one search that is answered with a 403 ends the run.
-/

set_option autoImplicit false

namespace OpenMagpie

open Python

/-! ## A source at its turn -/

/-- The spec of a source. Of the kinds that are not modelled, what the connector yields under a
watermark; a `KeyError`, where no connector is registered. -/
inductive SourceSpec
  | gitHubEvents (spec : GitHubEventsSourceSpec)
  | gitHubSearch (spec : GitHubSearchSourceSpec)
  | hackerNewsFeed (spec : HackerNewsFeedSourceSpec)
  | hackerNewsComment (spec : HackerNewsCommentSourceSpec)
  | other (poll : Time → Generator SourceError SourcePayload)

/-- The poll of the spec's connector. -/
def SourceSpec.poll (X : Reader) (up : Upstream) (since : Time) :
    SourceSpec → Generator SourceError SourcePayload
  | gitHubEvents spec => (GitHubEventsConnector.poll X up spec (some since)).map (·.toSourcePayload)
  | gitHubSearch spec => (GitHubSearchConnector.poll X up spec (some since)).map (·.toSourcePayload)
  | hackerNewsFeed spec => HackerNewsFeedConnector.poll X up spec (some since)
  | hackerNewsComment spec => HackerNewsCommentConnector.poll X up spec (some since)
  | other poll => poll since

/-- A source at its turn: its row; its spec, if pydantic takes it; the services during its poll; and
what the heartbeat before it answers. -/
structure Turn where
  src : SourceRow
  spec : Option SourceSpec
  up : Upstream
  held : Bool := true

/-! ## What a poll yields -/

/-- A payload as a connector builds it and pydantic takes it: the payload's kind, the source's kind,
and an id and a title among strings that pydantic takes. The id may be empty. -/
structure SourcePayload.WellFormed (X : Reader) (kind source : String) (p : SourcePayload) : Prop where
  kind : p.kind = kind
  source : p.source = source
  valid : ∃ strings, X.validStrings strings = true ∧ p.externalId ∈ strings ∧ p.title ∈ strings

/-- The kind of a source's payloads, `PAYLOAD_KIND`, and its own. -/
def SourceSpec.kinds : SourceSpec → Option (String × String)
  | gitHubEvents _ => some ("new_repo_event", gitHubEventsKind)
  | gitHubSearch _ => some ("new_repo", gitHubSearchKind)
  | hackerNewsFeed _ => some ("hn_feed", hackerNewsFeedKind)
  | hackerNewsComment _ => some ("hn_comment", hackerNewsCommentKind)
  | other _ => none

section WellFormed

variable {X : Reader} {up : Upstream} {i : ℕ} {since : Option Time} {repo : Value} {hit : Dict}
  {t : Time} {kind source : String} {p : SourcePayload}

theorem NewRepoEventPayload.wellFormed {ts : Stamp} {eventType readme eventId : String}
    {actor : Value} {p : NewRepoEventPayload}
    (h : fromCreateEvent X repo ts eventType readme eventId actor = .ok p) :
    p.WellFormed X "new_repo_event" gitHubEventsKind := by
  obtain ⟨-, -, hkind, hsource, hvalid⟩ := fromCreateEvent_ok h
  exact ⟨hkind, hsource, hvalid⟩

theorem NewRepoPayload.wellFormed {now : Time} {p : NewRepoPayload}
    (h : fromRepo X now repo = .ok p) : p.WellFormed X "new_repo" gitHubSearchKind := by
  obtain ⟨-, -, hkind, hsource, hvalid⟩ := fromRepo_ok h
  exact ⟨hkind, hsource, hvalid⟩

/-- A repository without a name is yielded under an empty id. -/
example : (NewRepoPayload.fromRepo sampleReader 0 (.dict [])).map (·.externalId) = .ok "" := rfl

theorem HackerNewsFeedPayload.wellFormed {spec : HackerNewsFeedSourceSpec}
    {p : HackerNewsFeedPayload} (h : fromAlgoliaHit X spec hit t = .ok p) :
    p.WellFormed X "hn_feed" hackerNewsFeedKind := by
  obtain ⟨content, -, h⟩ := Except.bind_eq_ok.mp h
  obtain ⟨title, -, h⟩ := Except.bind_eq_ok.mp h
  obtain ⟨externalUrl, -, h⟩ := Except.bind_eq_ok.mp h
  obtain ⟨author, -, h⟩ := Except.bind_eq_ok.mp h
  obtain ⟨points, -, h⟩ := Except.bind_eq_ok.mp h
  obtain ⟨numComments, -, h⟩ := Except.bind_eq_ok.mp h
  obtain rfl := construct_ok h
  exact ⟨rfl, rfl, _, valid_of_construct h, by simp, by simp⟩

theorem HackerNewsCommentPayload.wellFormed {p : HackerNewsCommentPayload}
    (h : fromAlgoliaHit X hit t = .ok p) : p.WellFormed X "hn_comment" hackerNewsCommentKind := by
  obtain ⟨content, -, h⟩ := Except.bind_eq_ok.mp h
  obtain ⟨storyTitle, -, h⟩ := Except.bind_eq_ok.mp h
  obtain ⟨author, -, h⟩ := Except.bind_eq_ok.mp h
  obtain rfl := construct_ok h
  exact ⟨rfl, rfl, _, valid_of_construct h, by simp, by simp⟩

theorem AlgoliaSearch.payload_of_hit {toPayload : Dict → Time → Except Raised SourcePayload}
    {x : Value} {created : ℤ} (h : AlgoliaSearch.hit X toPayload x = .ok (some (p, created))) :
    ∃ hit t, toPayload hit t = .ok p := by
  unfold AlgoliaSearch.hit at h
  split at h
  · cases h
  · next d _ =>
    split at h
    · cases h
    · split at h
      · cases h
      · next t _ =>
        obtain ⟨payload, hp, h⟩ := Except.bind_eq_ok.mp h
        obtain ⟨rfl, -⟩ := Prod.mk.inj (Option.some.inj (Except.ok.inj h))
        refine ⟨d, t, ?_⟩
        unfold buildPayload at hp
        split at hp
        · cases hp
        · exact hp

/-- What a walk yields is built from a hit. -/
theorem AlgoliaSearch.payload_of_walkFrom {S : AlgoliaSearch} {q : AlgoliaQuery}
    {toPayload : Dict → Time → Except Raised SourcePayload} {n page : ℕ} {cursor : Option ℤ}
    (hp : p ∈ (walkFrom X S q up toPayload n page cursor).yielded) :
    ∃ hit t, toPayload hit t = .ok p := by
  induction n generalizing page cursor with
  | zero => cases hp
  | succ n ih =>
    unfold walkFrom at hp
    cases hpage : getPage X S q up page cursor with
    | error e =>
      rw [hpage] at hp
      cases hp
    | ok hits =>
      rw [hpage] at hp
      cases hits with
      | nil => cases hp
      | cons x hits =>
        rcases Generator.mem_append hp with hp | hp
        · obtain ⟨⟨p', created⟩, hp', rfl⟩ := List.mem_map.mp hp
          obtain ⟨x, -, hx⟩ := Generator.mem_ofList hp'
          exact payload_of_hit hx
        · split at hp
          · split_ifs at hp
            · cases hp
            · exact ih hp
          · cases hp

/-- **Every payload that a poll yields is well formed.** -/
theorem wellFormed_of_yielded {spec : SourceSpec} {since : Time}
    (hp : p ∈ (spec.poll X up since).yielded) (hk : spec.kinds = some (kind, source)) :
    p.WellFormed X kind source := by
  cases spec with
  | other => cases hk
  | gitHubEvents spec =>
    obtain ⟨rfl, rfl⟩ := Prod.mk.inj (Option.some.inj hk)
    obtain ⟨p', hp', rfl⟩ := List.mem_map.mp hp
    obtain ⟨-, x, -, -, hx⟩ := Generator.mem_ofExcept hp'
    obtain ⟨_, _, -, -, hc⟩ := GitHubEventsConnector.item_candidate hx
    obtain ⟨_, _, _, _, _, hp⟩ := candidate_payload hc
    exact NewRepoEventPayload.wellFormed hp
  | gitHubSearch spec =>
    obtain ⟨rfl, rfl⟩ := Prod.mk.inj (Option.some.inj hk)
    obtain ⟨p', hp', rfl⟩ := List.mem_map.mp hp
    obtain ⟨-, x, -, -, hx⟩ := Generator.mem_ofExcept hp'
    obtain ⟨q, hq, hx⟩ := Except.bind_eq_ok.mp hx
    obtain rfl := Option.some.inj (Except.pure_eq_ok.mp (unlessOld_ok hx))
    exact NewRepoPayload.wellFormed hq
  | hackerNewsFeed spec =>
    obtain ⟨rfl, rfl⟩ := Prod.mk.inj (Option.some.inj hk)
    obtain ⟨hit, t, h⟩ := AlgoliaSearch.payload_of_walkFrom hp
    obtain ⟨p', hp', rfl⟩ := Except.map_eq_ok.mp h
    exact HackerNewsFeedPayload.wellFormed hp'
  | hackerNewsComment spec =>
    obtain ⟨rfl, rfl⟩ := Prod.mk.inj (Option.some.inj hk)
    obtain ⟨hit, t, h⟩ := AlgoliaSearch.payload_of_walkFrom hp
    obtain ⟨p', hp', rfl⟩ := Except.map_eq_ok.mp h
    exact HackerNewsCommentPayload.wellFormed hp'

end WellFormed

/-! ## The run -/

/-- A run under way: the feed's items, the rows of the sources polled so far, as their polls left
them, and how many polls have succeeded. -/
structure PollRun where
  items : List FeedItem
  polled : List SourceRow := []
  succeeded : ℕ := 0

/-- The feed's row, as far as a run writes it. -/
structure FeedRow where
  pollIntervalSeconds : ℕ
  lastPolledAt : Option Time := none
  nextPollAt : Option Time := none

/-- `update_poll_state`. -/
def FeedRow.updatePollState (row : FeedRow) (lastPolledAt : Time) : FeedRow :=
  { row with
    lastPolledAt := some lastPolledAt
    nextPollAt := some (lastPolledAt + row.pollIntervalSeconds) }

/-- `min_ulid_at`: the first ULID of a time. -/
def minUlidAt (t : Time) : Id := (t * 1000).toNat * 2 ^ 80

/-- `prune_items`. -/
def FeedItemService.pruneItems (feed : Feed) (retentionDays : ℕ) (now : Time)
    (items : List FeedItem) : List FeedItem :=
  items.filter fun i => ! decide (i.accountId = feed.accountId ∧ i.feedId = feed.id ∧
    i.id < minUlidAt (now - retentionDays * 86400))

/-- A poll of a feed: what the poll of the reddit group leaves of the items, with the number of its
sources that succeeded or what it raises; the number of the feed's sources; and the turns of the
sources that are not in the group, in the order drawn. -/
structure FeedPollOperation where
  feed : Feed
  row : FeedRow
  retentionDays : ℕ := 30
  startedAt : Time
  fits : SourcePayload → Bool := fun _ => true
  mint : SourcePayload → Id
  groupItems : List FeedItem
  group : Except Raised ℕ := .ok 0
  totalSources : ℕ
  turns : List Turn

namespace FeedPollOperation

variable (X : Reader) (op : FeedPollOperation)

/-- `_poll_source`. -/
def pollSource (turn : Turn) (spec : SourceSpec) (s : PollRun) : PollRun × Except Raised Unit :=
  let ((src, items), outcome) := pollSourcePayloads op.fits op.mint op.feed turn.src
    (spec.poll X turn.up turn.src.lastEventAt) s.items
  ({ s with items, polled := s.polled ++ [src] }, outcome)

/-- The body of the loop over the sources: a spec that pydantic refuses is passed over, and a
recoverable error is logged. -/
def visit (turn : Turn) (s : PollRun) : PollRun × Except Raised Unit :=
  match turn.spec with
  | none => (s, .ok ())
  | some spec => match pollSource X op turn spec s with
    | (s, .ok ()) => ({ s with succeeded := s.succeeded + 1 }, .ok ())
    | (s, .error e) => (s, if Recoverable e then .ok () else .error e)

/-- The loop over the sources. -/
def pollSources : List Turn → PollRun → PollRun × Except Raised Unit
  | [], s => (s, .ok ())
  | turn :: turns, s =>
    if turn.held = false then (s, .ok ())
    else match visit X op turn s with
      | (s, .ok ()) => pollSources turns s
      | (s, .error e) => (s, .error e)

/-- The end of a run: the poll's time is written, and the items are pruned unless every source has
failed. -/
def finish (s : PollRun) : PollRun × FeedRow :=
  (if 0 < op.totalSources ∧ s.succeeded = 0 then s
    else { s with
      items := FeedItemService.pruneItems op.feed op.retentionDays op.startedAt s.items },
    op.row.updatePollState op.startedAt)

/-- The loop and the end, after the reddit group. -/
def runSources (s : PollRun) : (PollRun × FeedRow) × Except Raised Unit :=
  match pollSources X op op.turns s with
  | (s, .ok ()) => (finish op s, .ok ())
  | (s, .error e) => ((s, op.row), .error e)

/-- The run after the reddit group. -/
def start : PollRun where
  items := op.groupItems
  succeeded := match op.group with
    | .ok succeeded => succeeded
    | .error _ => 0

/-- `FeedPollOperation.run`. -/
def run : (PollRun × FeedRow) × Except Raised Unit :=
  match op.group with
  | .ok _ => runSources X op (start op)
  | .error e => if Recoverable e then runSources X op (start op) else ((start op, op.row), .error e)

/-! ## What a run comes to -/

/-- The turns until the lease is lost. -/
def visited : List Turn := op.turns.takeWhile (·.held)

/-- **Every source with a spec is polled until the lease is lost**, the poll's time is written, and the
items are pruned unless every source has failed. -/
structure Completes : Prop where
  outcome : (op.run X).2 = .ok ()
  polled : (op.run X).1.1.polled.map (·.id) =
    (op.visited.filter (·.spec.isSome)).map (·.src.id)
  pollState : (op.run X).1.2 = op.row.updatePollState op.startedAt
  pruned : 0 < op.totalSources ∧ (op.run X).1.1.succeeded = 0 ∨ ∀ i ∈ (op.run X).1.1.items,
    i.accountId = op.feed.accountId → i.feedId = op.feed.id →
      minUlidAt (op.startedAt - op.retentionDays * 86400) ≤ i.id

end FeedPollOperation

/-- The answers to the source's requests are ones that its connector contains. -/
def SourceSpec.Sound (X : Reader) (up : Upstream) (since : Time) : SourceSpec → Prop
  | gitHubEvents spec => ¬ EventsUnsound X up spec (some since)
  | gitHubSearch spec => SearchSound X up spec (some since)
  | hackerNewsFeed spec => ¬ StoriesUnsound X up spec (some since)
  | hackerNewsComment spec => ¬ CommentsUnsound X up spec (some since)
  | other poll => Contained (poll since)

namespace FeedPollOperation

variable (X : Reader) (op : FeedPollOperation)

/-- At its turn, the source's answers are contained, and the database takes its new rows. -/
def TurnSound (turn : Turn) (items : List FeedItem) : Prop :=
  ∀ spec, turn.spec = some spec → spec.Sound X turn.up turn.src.lastEventAt ∧
    FeedItemService.Takes op.fits op.mint op.feed
      (FeedItemService.chunksOf (spec.poll X turn.up turn.src.lastEventAt)) items

/-- The reddit group is contained, and every turn until the lease is lost is sound. -/
structure RunSound : Prop where
  group : ¬ Escapes op.group
  turns : ∀ before turn after, op.visited = before ++ turn :: after →
    TurnSound X op turn (pollSources X op before (start op)).1.items

end FeedPollOperation

/-! ## One turn -/

section Turn

variable {X : Reader} {op : FeedPollOperation} {up : Upstream} {since : Time} {spec : SourceSpec}
  {turn : Turn} {s : PollRun}

theorem contained_map {α β : Type} {g : Generator SourceError α} {f : α → β} :
    Contained (g.map f) ↔ Contained g := Iff.rfl

/-- **The poll of a source** is contained exactly when its answers are. -/
theorem contained_iff_sound : Contained (spec.poll X up since) ↔ spec.Sound X up since := by
  cases spec with
  | gitHubEvents spec => exact contained_map.trans events_contained
  | gitHubSearch spec => exact contained_map.trans search_contained
  | hackerNewsFeed spec => exact stories_contained
  | hackerNewsComment spec => exact comments_contained
  | other poll => rfl

/-- What the poll of a source raises. -/
theorem escapes_pollSource : Escapes (op.pollSource X turn spec s).2 ↔
    ¬ (spec.Sound X turn.up turn.src.lastEventAt ∧ FeedItemService.Takes op.fits op.mint op.feed
      (FeedItemService.chunksOf (spec.poll X turn.up turn.src.lastEventAt)) s.items) := by
  rw [← contained_iff_sound]
  exact escapes_pollSourcePayloads

/-- **A turn** leaves the loop going exactly when it is sound. -/
theorem visit_ok : (op.visit X turn s).2 = .ok () ↔ op.TurnSound X turn s.items := by
  unfold FeedPollOperation.visit FeedPollOperation.TurnSound
  cases turn.spec with
  | none => simp
  | some spec =>
    simp only [Option.some.injEq, forall_eq']
    rw [← not_iff_not, ← escapes_pollSource]
    cases h : op.pollSource X turn spec s with
    | mk s' outcome =>
      cases outcome with
      | ok u => simp
      | error e =>
        by_cases he : Recoverable e
        · simp [he]
        · simp [he]

theorem visit_polled : (op.visit X turn s).1.polled.map (·.id) =
    s.polled.map (·.id) ++ if turn.spec.isSome then [turn.src.id] else [] := by
  unfold FeedPollOperation.visit
  cases turn.spec with
  | none => simp
  | some spec =>
    have hpolled : (op.pollSource X turn spec s).1.polled.map (·.id) =
        s.polled.map (·.id) ++ [turn.src.id] := by
      unfold FeedPollOperation.pollSource
      rw [List.map_append, List.map_singleton, pollSourcePayloads_id]
    dsimp only
    split
    · rename_i h
      rw [h] at hpolled
      simpa using hpolled
    · rename_i h
      rw [h] at hpolled
      simpa using hpolled

end Turn

/-! ## The run -/

section Run

variable {X : Reader} {op : FeedPollOperation} {turns : List Turn} {s : PollRun}

theorem pollSources_eq : op.pollSources X turns s =
    forEach (op.visit X) (turns.takeWhile (·.held)) s := by
  induction turns generalizing s with
  | nil => rfl
  | cons turn turns ih =>
    unfold FeedPollOperation.pollSources
    cases hheld : turn.held with
    | false => simp [hheld, forEach]
    | true =>
      rw [List.takeWhile_cons_of_pos hheld, if_neg (by simp), forEach]
      cases op.visit X turn s with
      | mk s' outcome =>
        cases outcome with
        | ok u => exact ih
        | error e => rfl

theorem flatMap_ids : turns.flatMap (fun turn => if turn.spec.isSome then [turn.src.id] else []) =
    (turns.filter (·.spec.isSome)).map (·.src.id) := by
  induction turns with
  | nil => rfl
  | cons turn turns ih =>
    rw [List.flatMap_cons, ih, List.filter_cons]
    split_ifs <;> rfl

/-- A prefix of turns with the lease. -/
theorem takeWhile_of_prefix {before after : List Turn} {turn : Turn}
    (h : turns.takeWhile (·.held) = before ++ turn :: after) : before.takeWhile (·.held) = before := by
  refine List.takeWhile_eq_self_iff.mpr fun t ht => ?_
  have hm : t ∈ turns.takeWhile (·.held) := h ▸ List.mem_append_left _ ht
  exact List.mem_takeWhile_imp hm

/-- **The loop returns** when every turn is sound. -/
theorem pollSources_ok : (op.pollSources X turns s).2 = .ok () ↔
    ∀ before turn after, turns.takeWhile (·.held) = before ++ turn :: after →
      op.TurnSound X turn (op.pollSources X before s).1.items := by
  rw [pollSources_eq, forEach_ok]
  refine forall₃_congr fun before turn after => forall_congr' fun h => ?_
  rw [visit_ok, pollSources_eq, takeWhile_of_prefix h]

theorem pollSources_polled (h : (op.pollSources X turns s).2 = .ok ()) :
    (op.pollSources X turns s).1.polled.map (·.id) = s.polled.map (·.id) ++
      ((turns.takeWhile (·.held)).filter (·.spec.isSome)).map (·.src.id) := by
  rw [pollSources_eq] at h ⊢
  have hcol := forEach_append (f := fun s : PollRun => s.polled.map (·.id))
    (fun _ _ => visit_polled) h
  rw [hcol, flatMap_ids]

/-- The loop and the end. -/
theorem runSources_ok : (op.runSources X s).2 = .ok () ↔ (op.pollSources X op.turns s).2 = .ok () := by
  unfold FeedPollOperation.runSources
  split
  · rename_i h
    simp [h]
  · rename_i h
    simp [h]

theorem runSources_state (h : (op.runSources X s).2 = .ok ()) :
    (op.runSources X s).1 = op.finish (op.pollSources X op.turns s).1 := by
  unfold FeedPollOperation.runSources at h ⊢
  split
  · rename_i hs
    rw [hs]
  · rename_i hs
    rw [hs] at h
    cases h

variable (X op) in
/-- A run goes on after the reddit group, or ends with it. -/
theorem run_cases : ¬ Escapes op.group ∧ op.run X = op.runSources X op.start ∨
    Escapes op.group ∧ (op.run X).2 ≠ .ok () := by
  unfold FeedPollOperation.run
  cases op.group with
  | ok n => exact .inl ⟨raises_ok, rfl⟩
  | error e =>
    by_cases he : Recoverable e
    · exact .inl ⟨by simpa using he, if_pos he⟩
    · exact .inr ⟨by simpa using he, by simp [he]⟩

theorem run_ok : (op.run X).2 = .ok () ↔
    ¬ Escapes op.group ∧ (op.pollSources X op.turns op.start).2 = .ok () := by
  rcases run_cases X op with ⟨hg, hr⟩ | ⟨hg, hr⟩
  · rw [hr, runSources_ok, and_iff_right hg]
  · exact iff_of_false hr fun h => h.1 hg

/-- The end of a run that returns. -/
theorem run_state (h : (op.run X).2 = .ok ()) :
    (op.run X).1 = op.finish (op.pollSources X op.turns op.start).1 := by
  rcases run_cases X op with ⟨-, hr⟩ | ⟨-, hr⟩
  · rw [hr] at h ⊢
    exact runSources_state h
  · exact absurd h hr

theorem finish_polled : (op.finish s).1.polled = s.polled := by
  unfold FeedPollOperation.finish
  split_ifs <;> rfl

/-- What the end of a run has pruned. -/
theorem finish_pruned : 0 < op.totalSources ∧ (op.finish s).1.succeeded = 0 ∨
    ∀ i ∈ (op.finish s).1.items, i.accountId = op.feed.accountId → i.feedId = op.feed.id →
      minUlidAt (op.startedAt - op.retentionDays * 86400) ≤ i.id := by
  unfold FeedPollOperation.finish
  split_ifs with h
  · exact .inl h
  · refine .inr fun i hi ha hf => ?_
    have hp := (List.mem_filter.mp hi).2
    simpa [ha, hf] using hp

/-- **A run completes** exactly when the reddit group and every turn are sound. -/
theorem completes_iff : op.Completes X ↔ op.RunSound X := by
  constructor
  · intro h
    obtain ⟨hgroup, hloop⟩ := run_ok.mp h.outcome
    exact ⟨hgroup, pollSources_ok.mp hloop⟩
  · intro h
    have hloop := pollSources_ok.mpr h.turns
    have hok : (op.run X).2 = .ok () := run_ok.mpr ⟨h.group, hloop⟩
    have hstate := run_state hok
    refine ⟨hok, ?_, ?_, ?_⟩
    · rw [hstate, finish_polled]
      exact pollSources_polled hloop
    · rw [hstate]
      rfl
    · rw [hstate]
      exact finish_pruned

end Run

/-- **What a poll contains.** For each connector, the answers on which its poll yields payloads and
ends, or fails with a recoverable error; and a run polls every source, writes its time and prunes
exactly when every answer that it comes to is one of these (and the database takes its rows). -/
theorem contained_iff (X : Reader) (up : Upstream) (since : Option Time) :
    (∀ spec, Contained (GitHubEventsConnector.poll X up spec since) ↔ ¬ EventsUnsound X up spec since) ∧
    (∀ spec, Contained (GitHubSearchConnector.poll X up spec since) ↔ SearchSound X up spec since) ∧
    (∀ spec, Contained (HackerNewsFeedConnector.poll X up spec since) ↔
      ¬ StoriesUnsound X up spec since) ∧
    (∀ spec, Contained (HackerNewsCommentConnector.poll X up spec since) ↔
      ¬ CommentsUnsound X up spec since) ∧
    ∀ op : FeedPollOperation, op.Completes X ↔ op.RunSound X :=
  ⟨fun _ => events_contained, fun _ => search_contained, fun _ => stories_contained,
    fun _ => comments_contained, fun _ => completes_iff⟩

/-! ## A search that is forbidden -/

/-- Services that answer every request alike. -/
def answering (r : Response) : Upstream where
  get _ _ := .response r

/-- A feed with a search, answered with a 403, and an events source, answered with a 304; and one item
that is older than the retention. -/
def forbiddenSearch : FeedPollOperation where
  feed := ⟨1, 1⟩
  row := { pollIntervalSeconds := 60 }
  retentionDays := 1
  startedAt := 1000000
  mint _ := 7
  groupItems := [{ id := 5, accountId := 1, feedId := 1 }]
  totalSources := 2
  turns := [
    { src := { id := 1, accountId := 1, feedId := 1, lastEventAt := 0 }
      spec := some (.gitHubSearch { query := "lean" })
      up := answering { status := 403, body := .json (.dict []) } },
    { src := { id := 2, accountId := 1, feedId := 1, lastEventAt := 0 }
      spec := some (.gitHubEvents {})
      up := answering { status := 304, body := .notJson } }]

/-- **The search's `TypeError` ends the run**: the other source is not polled, the poll's time is not
written, nothing is pruned. An event or a hit that is `null` is not contained either. -/
theorem forbidden_aborts :
    (¬ ∀ up spec since, Contained (GitHubSearchConnector.poll sampleReader up spec since)) ∧
    (¬ ∀ up spec since, Contained (GitHubEventsConnector.poll sampleReader up spec since)) ∧
    (¬ ∀ up spec since, Contained (HackerNewsFeedConnector.poll sampleReader up spec since)) ∧
    (forbiddenSearch.run sampleReader).2 = .error .typeError ∧
    (forbiddenSearch.run sampleReader).1.1.polled.map (·.id) = [1] ∧
    (forbiddenSearch.run sampleReader).1.2.lastPolledAt = none ∧
    (forbiddenSearch.run sampleReader).1.1.items = forbiddenSearch.groupItems ∧
    ¬ forbiddenSearch.Completes sampleReader := by
  refine ⟨fun h => ?_, fun h => ?_, fun h => ?_, rfl, rfl, rfl, rfl, fun h => nomatch h.outcome⟩
  · exact h (answering { status := 403, body := .json (.dict []) }) { query := "lean" } none
      ⟨.typeError, rfl, by decide⟩
  · exact h (firehose [.none]) {} none ⟨.attributeError, rfl, by decide⟩
  · exact h (answering { status := 200, body := .json (.dict [("hits", .list [.none])]) }) {} none
      ⟨.attributeError, rfl, by decide⟩

end OpenMagpie
