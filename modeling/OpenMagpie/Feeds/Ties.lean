import OpenMagpie.Feeds.GitHub
import OpenMagpie.Feeds.Polling

/-!
# Items at the watermark of a GitHub source

The watermark of a source is the date of the newest item that it has yielded, and the GitHub
connectors yield what is dated after it. Timestamps have seconds, so an item may come up in a later
response with the date that the watermark has already.

* `GitHubCycle`, `rowAfter`: a sequence of polls; `Carries`: the items of a response.
* `RecordsArrivals`: an item that comes up and is not older than the watermark is recorded by that poll.
* **`records_arrivals`**: that holds exactly when every such item is dated after all that came before.
* **`tie_lost`**: a repository that is created in the second of the newest one.
-/

set_option autoImplicit false

namespace OpenMagpie

open Python Split

/-- One poll cycle of a GitHub source: what the services answer, the feed's items when the source's
turn comes (other sources and the retention prune write these too), the ids of new items, and the
rows that the database takes. -/
structure GitHubCycle where
  up : Upstream
  items : List FeedItem
  mint : SourcePayload → Id := fun _ => 0
  fits : SourcePayload → Bool := fun _ => true

variable (X : Reader) (src : GitHubSource) (feed : Feed) (row : SourceRow)

/-- The source and the items after the cycle, and what it raises. -/
def GitHubCycle.run (c : GitHubCycle) (row : SourceRow) :
    (SourceRow × List FeedItem) × Except Raised Unit :=
  pollSourcePayloads c.fits c.mint feed row (src.poll X c.up (some row.lastEventAt)) c.items

/-- The source after the cycles. -/
def rowAfter (cycles : List GitHubCycle) : SourceRow :=
  cycles.foldl (fun row c => (c.run X src feed row).1.1) row

/-- Every cycle succeeds. -/
def Succeed (cycles : List GitHubCycle) : Prop := ∀ before c after, cycles = before ++ c :: after →
  (c.run X src feed (rowAfter X src feed row before)).2 = .ok ()

/-- An item of the cycle's response: what the source makes of an event or a repository when nothing
is old. -/
def GitHubCycle.Carries (c : GitHubCycle) (p : SourcePayload) : Prop :=
  ∃ xs, src.window c.up = .ok xs ∧ ∃ x ∈ xs.zipIdx, src.item X c.up none x = .ok (some p)

/-- The item is dated by its event or repository, and not by the clock. -/
def GitHubCycle.Dated (c : GitHubCycle) (p : SourcePayload) : Prop :=
  ∃ xs, src.window c.up = .ok xs ∧ ∃ x ∈ xs.zipIdx, src.item X c.up none x = .ok (some p) ∧
    src.timestamp X x.1 = some p.occurredAt

/-- The item comes up first in the cycle `c`, and is not older than the watermark. -/
structure ArrivesIn (before : List GitHubCycle) (c : GitHubCycle) (p : SourcePayload) : Prop where
  dated : c.Dated X src p
  first : ∀ c' ∈ before, ∀ q, c'.Carries X src q → q.externalId ≠ p.externalId
  since : (rowAfter X src feed row before).lastEventAt ≤ p.occurredAt.ensureAware

/-- Every item that comes up is recorded by the poll. -/
def RecordsArrivals (cycles : List GitHubCycle) : Prop :=
  ∀ before c after, cycles = before ++ c :: after → ∀ p, ArrivesIn X src feed row before c p →
    p.key feed ∈ (c.run X src feed (rowAfter X src feed row before)).1.2.map FeedItem.key

/-- An item that comes up is stored already, or is dated (there, or again in the same response) after
the first watermark and every item of an earlier response. -/
def NotTied (cycles : List GitHubCycle) : Prop :=
  ∀ before c after, cycles = before ++ c :: after → ∀ p, ArrivesIn X src feed row before c p →
    p.key feed ∈ c.items.map FeedItem.key ∨
      ∃ q, c.Carries X src q ∧ q.externalId = p.externalId ∧
        row.lastEventAt < q.occurredAt.ensureAware ∧ ∀ c' ∈ before, ∀ o, c'.Carries X src o →
          o.occurredAt.ensureAware < q.occurredAt.ensureAware

section Cycles

variable {X src feed row} {c : GitHubCycle} {p : SourcePayload} {x : Time}

/-- The kind of an item of a response. -/
theorem GitHubCycle.Carries.source (h : c.Carries X src p) : p.source = src.kind := by
  obtain ⟨xs, -, x, -, hx⟩ := h
  exact GitHubSource.item_source hx

theorem GitHubCycle.Dated.carries (h : c.Dated X src p) : c.Carries X src p := by
  obtain ⟨xs, hxs, x, hx, hi, -⟩ := h
  exact ⟨xs, hxs, x, hx, hi⟩

/-- **What a successful poll yields**: the items of the response dated after the watermark. -/
theorem mem_yielded {w : Time} (h : (src.poll X c.up (some w)).outcome = .ok ()) :
    p ∈ (src.poll X c.up (some w)).yielded ↔ c.Carries X src p ∧ w < p.occurredAt.ensureAware := by
  rw [GitHubSource.poll_eq] at h ⊢
  unfold GitHubCycle.Carries
  cases hw : src.window c.up with
  | error e => simp [hw, Except.map, Generator.ofExcept, Generator.raise] at h
  | ok xs =>
    simp only [hw, Except.map, Generator.ofExcept] at h
    simp only [Except.map, Generator.ofExcept, Except.ok.injEq, exists_eq_left']
    constructor
    · intro hp
      obtain ⟨x, hx, hxp⟩ := Generator.mem_ofList hp
      obtain ⟨hnone, hw⟩ := (GitHubSource.item_some hxp).mp rfl
      exact ⟨⟨x, hx, hnone⟩, hw⟩
    · rintro ⟨⟨x, hx, hnone⟩, hw⟩
      obtain ⟨r, hr, hsub⟩ := Generator.ofList_ok h hx
      obtain rfl := (GitHubSource.item_some hr).mpr ⟨hnone, hw⟩
      exact hsub (by simp)

theorem GitHubCycle.run_lastEventAt_le (h : (c.run X src feed row).2 = .ok ()) :
    (c.run X src feed row).1.1.lastEventAt ≤ x ↔ row.lastEventAt ≤ x ∧
      ∀ q, c.Carries X src q → q.occurredAt.ensureAware ≤ x := by
  have hrec := pollSourcePayloads_outcome.symm.trans h
  have hpoll := (FeedItemService.recordItems_ok.mp hrec).2
  refine (pollSourcePayloads_lastEventAt_le h).trans (and_congr_right fun hx => ?_)
  refine ⟨fun hall q hq => ?_, fun hall q hq => hall q ((mem_yielded hpoll).mp hq).1⟩
  by_cases hw : row.lastEventAt < q.occurredAt.ensureAware
  · exact hall q ((mem_yielded hpoll).mpr ⟨hq, hw⟩)
  · exact le_trans (not_lt.mp hw) hx

/-- **The watermark after successful cycles** is the newest date seen, from the first watermark on. -/
theorem rowAfter_lastEventAt_le {cycles : List GitHubCycle} (h : Succeed X src feed row cycles) :
    (rowAfter X src feed row cycles).lastEventAt ≤ x ↔ row.lastEventAt ≤ x ∧
      ∀ c ∈ cycles, ∀ q, c.Carries X src q → q.occurredAt.ensureAware ≤ x := by
  induction cycles generalizing row with
  | nil => simp [rowAfter]
  | cons c cs ih =>
    obtain ⟨hc, hcs⟩ : (c.run X src feed row).2 = .ok () ∧
      Succeed X src feed (c.run X src feed row).1.1 cs := forall_split_cons.mp h
    have hcons : rowAfter X src feed row (c :: cs) =
        rowAfter X src feed (c.run X src feed row).1.1 cs := rfl
    rw [hcons, ih hcs, GitHubCycle.run_lastEventAt_le hc, List.forall_mem_cons, and_assoc]

/-- The same, for a date after the watermark. -/
theorem rowAfter_lastEventAt_lt {cycles : List GitHubCycle} (h : Succeed X src feed row cycles) :
    (rowAfter X src feed row cycles).lastEventAt < x ↔ row.lastEventAt < x ∧
      ∀ c ∈ cycles, ∀ q, c.Carries X src q → q.occurredAt.ensureAware < x := by
  have hle := rowAfter_lastEventAt_le (x := x - 1) h
  simpa only [Int.le_sub_one_iff] using hle

/-- **What a successful poll records**: what was there, and the items dated after the watermark. -/
theorem GitHubCycle.mem_run (h : (c.run X src feed row).2 = .ok ()) {k : ItemKey} :
    k ∈ (c.run X src feed row).1.2.map FeedItem.key ↔ k ∈ c.items.map FeedItem.key ∨
      ∃ q, c.Carries X src q ∧ q.key feed = k ∧ row.lastEventAt < q.occurredAt.ensureAware := by
  have hrec := pollSourcePayloads_outcome.symm.trans h
  have hpoll := (FeedItemService.recordItems_ok.mp hrec).2
  rw [GitHubCycle.run, pollSourcePayloads_items, FeedItemService.mem_keys_recordItems hrec]
  refine or_congr_right (exists_congr fun q => ?_)
  rw [mem_yielded hpoll]
  tauto

theorem Succeed.take {before after : List GitHubCycle}
    (h : Succeed X src feed row (before ++ c :: after)) : Succeed X src feed row before := by
  intro b c' a hb
  exact h b c' (a ++ c :: after) (by simp [hb])

/-- **Items that come up are recorded**, over every sequence of successful polls, exactly when each
is dated after all that came before it. -/
theorem records_arrivals {cycles : List GitHubCycle} (h : Succeed X src feed row cycles) :
    RecordsArrivals X src feed row cycles ↔ NotTied X src feed row cycles := by
  refine forall₄_congr fun before c after hcs => forall₂_congr fun p hp => ?_
  subst hcs
  have hsource : p.source = src.kind := hp.dated.carries.source
  rw [GitHubCycle.mem_run (h before c after rfl)]
  refine or_congr_right (exists_congr fun q => and_congr_right fun hq => ?_)
  rw [rowAfter_lastEventAt_lt h.take]
  simp [SourcePayload.key, hq.source, hsource]

end Cycles

/-! ## Two repositories -/

/-- A reader that knows the seconds 100 and 160. -/
def sampleReader : Reader where
  repr _ := ""
  parseInt _ := none
  fromisoformat s :=
    if s = "1970-01-01T00:01:40+00:00" then some (.aware 100)
    else if s = "1970-01-01T00:02:40+00:00" then some (.aware 160)
    else none
  strip := id
  collapse := id
  textNodes _ := none
  fromtimestamp _ := none
  timestamp t := t
  integerField _ := none
  validStrings _ := true

/-- The event that creates a repository. -/
def createEvent (name createdAt : String) : Value :=
  .dict [("type", .str "CreateEvent"), ("created_at", .str createdAt),
    ("repo", .dict [("name", .str name)]), ("payload", .dict [("ref_type", .str "repository")])]

/-- A firehose with some events; repositories have a name and no README. -/
def firehose (events : List Value) : Upstream where
  get _
    | .events => .response { status := 200, body := .json (.list events) }
    | .repo name => .response { status := 200, body := .json (.dict [("full_name", .str name)]) }
    | _ => .response { status := 404, body := .notJson }

/-- A source of creations. -/
def radar : GitHubSource := .events {}

/-- A poll that finds the repository `a/a`, created in second 100. -/
def firstPoll : GitHubCycle where
  up := firehose [createEvent "a/a" "1970-01-01T00:01:40Z"]
  items := []

/-- The next poll, which finds the repository `b/b` too. -/
def secondPoll (createdAt : String) : GitHubCycle where
  up := firehose [createEvent "b/b" createdAt, createEvent "a/a" "1970-01-01T00:01:40Z"]
  items := [⟨1, 1, 1, some 100, gitHubEventsKind, "a/a"⟩]

theorem split_pair {α : Type} {a b c : α} {before after : List α}
    (h : [a, b] = before ++ c :: after) : before = [] ∧ c = a ∨ before = [a] ∧ c = b := by
  rcases before with _ | ⟨x, _ | ⟨y, _ | ⟨z, before⟩⟩⟩ <;> simp_all

theorem carries_firstPoll {p : SourcePayload} (h : firstPoll.Carries sampleReader radar p) :
    p.externalId = "a/a" ∧ p.occurredAt = .aware 100 := by
  obtain ⟨xs, hxs, x, hx, hp⟩ := h
  obtain rfl := Except.ok.inj hxs
  obtain rfl := List.mem_singleton.mp hx
  obtain rfl := Option.some.inj (Except.ok.inj hp)
  exact ⟨rfl, rfl⟩

/-- The repository `b/b` is created 60 seconds later. -/
theorem records_arrivals_sample : RecordsArrivals sampleReader radar ⟨1, 1⟩ sampleSource
    [firstPoll, secondPoll "1970-01-01T00:02:40Z"] := by
  refine (records_arrivals ?_).mpr ?_
  · intro before c after h
    rcases split_pair h with ⟨rfl, rfl⟩ | ⟨rfl, rfl⟩ <;> rfl
  · intro before c after h p hp
    rcases split_pair h with ⟨rfl, rfl⟩ | ⟨rfl, rfl⟩
    · refine .inr ⟨p, hp.dated.carries, rfl, ?_, nofun⟩
      rw [(carries_firstPoll hp.dated.carries).2]
      decide
    · obtain ⟨xs, hxs, x, hx, hi⟩ := hp.dated.carries
      obtain rfl := Except.ok.inj hxs
      rcases List.mem_cons.mp hx with rfl | hx
      · obtain rfl := Option.some.inj (Except.ok.inj hi)
        refine .inr ⟨_, hp.dated.carries, rfl, by decide, fun c' hc' o ho => ?_⟩
        obtain rfl := List.mem_singleton.mp hc'
        rw [(carries_firstPoll ho).2]
        decide
      · -- the repository of the first poll has its item
        obtain rfl := List.mem_singleton.mp hx
        obtain rfl := Option.some.inj (Except.ok.inj hi)
        exact .inl (by decide)

/-- **A tie is lost.** The repository `b/b` is created in the second that the watermark has reached
when it comes up; the poll leaves it out. -/
theorem tie_lost :
    Succeed sampleReader radar ⟨1, 1⟩ sampleSource [firstPoll, secondPoll "1970-01-01T00:01:40Z"] ∧
    (rowAfter sampleReader radar ⟨1, 1⟩ sampleSource [firstPoll]).lastEventAt = 100 ∧
    ¬ RecordsArrivals sampleReader radar ⟨1, 1⟩ sampleSource
      [firstPoll, secondPoll "1970-01-01T00:01:40Z"] := by
  refine ⟨?_, rfl, fun h => ?_⟩
  · intro before c after h
    rcases split_pair h with ⟨rfl, rfl⟩ | ⟨rfl, rfl⟩ <;> rfl
  · have hb := h [firstPoll] _ [] rfl _
      { dated := ⟨_, rfl, (createEvent "b/b" "1970-01-01T00:01:40Z", 0), List.mem_cons_self, rfl, rfl⟩
        first := fun c hc q hq => by
          obtain rfl := List.mem_singleton.mp hc
          rw [(carries_firstPoll hq).1]
          decide
        since := (by decide : (100 : Time) ≤ 100) }
    exact absurd hb (by decide)

end OpenMagpie
