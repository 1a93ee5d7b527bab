import OpenMagpie.Feeds.Items

/-!
# Polling an RSS source

A poll fetches a source's entries, records those dated at or after the source's watermark
`last_event_at`, and moves the watermark to the newest of them.

* `RssEntryPayload.fromFeedparserEntry`: an entry's id and timestamp, or the field it misses.
* `RssConnector.poll`, `pollSource`: one poll.
* `Cycle`, `sourceAfter`: a sequence of polls.
* `RecordsNew`: an entry that is new in a poll and dated between the last poll and this one is
  recorded. **`records_new`**: that holds when no poll yields an entry dated after its own clock,
  and exactly when no such entry is dated before one of an earlier poll.
* **`future_entry_hides`**: one entry dated ahead hides the next one.
-/

set_option autoImplicit false

namespace OpenMagpie

open Python

/-! ## Entries -/

/-- What a feedparser entry holds under a key: a string, a normalized UTC time, or another value;
the last two with their `str()`. -/
inductive EntryValue
  | text (s : String)
  | time (t : Time) (repr : String)
  | other (repr : String) (truthy : Bool)

/-- A feedparser entry. -/
abbrev Entry := String → Option EntryValue

/-- The functions on strings that an entry is read with. -/
structure StringReaders where
  strip : String → String
  parsedateToDatetime : String → Option Time
  fromisoformat : String → Option Time

/-- An entry of a feed, as far as the poll reads it. -/
structure RssEntryPayload where
  externalId : String
  occurredAt : Time
  deriving DecidableEq

/-- The connector's kind, `RssSourceSpec.SOURCE_KIND`. -/
def rssKind : String := "rss"

variable (X : StringReaders)

/-- `_resolve_str`. -/
def resolveStr (entry : Entry) (key : String) : String :=
  match entry key with
  | some (.text s) => if s = "" then "" else X.strip s
  | some (.time _ repr) => X.strip repr
  | some (.other repr truthy) => if truthy then X.strip repr else ""
  | none => ""

/-- `_coerce_published`. -/
def coercePublished : Option EntryValue → Option Time
  | some (.time t _) => some t
  | some (.text s) => if s = "" then none else X.parsedateToDatetime s <|> X.fromisoformat s
  | _ => none

/-- `_resolve_published`: the override first, then the canonical keys. -/
def resolvePublished (entry : Entry) (override : Option String) : Option Time :=
  let canonical := ["published_parsed", "updated_parsed"].filter fun k => decide (some k ≠ override)
  ((override.filter fun k => decide (k ≠ "")).toList ++ canonical).findSome? fun k =>
    coercePublished X (entry k)

/-- `from_feedparser_entry`: the payload, or the name of the field that is missing. -/
def RssEntryPayload.fromFeedparserEntry (fieldMap : String → Option String) (entry : Entry) :
    Except String RssEntryPayload :=
  match resolvePublished X entry (fieldMap "published") with
  | none => .error "published"
  | some published =>
    let externalId := resolveStr X entry
      (((fieldMap "external_id").filter fun k => decide (k ≠ "")).getD "id")
    if externalId = "" then .error "external_id" else .ok ⟨externalId, published⟩

/-- The payloads of the entries that resolve. -/
def payloadsOf (fieldMap : String → Option String) (entries : List Entry) : List RssEntryPayload :=
  entries.filterMap fun entry => (RssEntryPayload.fromFeedparserEntry X fieldMap entry).toOption

/-- `RssConnector.poll`: the payloads dated at or after `since`. -/
def RssConnector.poll (fieldMap : String → Option String) (since : Time) (entries : List Entry) :
    List RssEntryPayload :=
  (payloadsOf X fieldMap entries).filter fun p => ! decide (p.occurredAt < since)

/-! ## A poll -/

/-- The payload, with the fields that `record_items` reads. -/
def RssEntryPayload.toSourcePayload (p : RssEntryPayload) : SourcePayload where
  externalId := p.externalId
  kind := "rss_entry"
  occurredAt := .aware p.occurredAt
  source := rssKind

/-- The key of an entry's item. -/
def itemKey (feed : Feed) (p : RssEntryPayload) : ItemKey := (feed.id, rssKind, p.externalId)

/-- `default_and_enforce_source_watermark`: the watermark a source is created with at `now`. -/
def defaultAndEnforceSourceWatermark (value : Option Time) (now : Time) : Except String Time :=
  match value with
  | none => .ok now
  | some v =>
    if now < v then
      .error s!"last_event_at is in the future ({v}); a future watermark silently disables the source until then"
    else .ok v

/-- The field map of a source, its own keys over the feed's defaults. -/
def SourceRow.effectiveFieldMap (src : SourceRow) (defaults : List (String × String)) (key : String) :
    Option String :=
  src.fieldMap.lookup key <|> defaults.lookup key

/-- `_poll_source`: the source and the feed's items after a poll. A recoverable error, `none`,
leaves both. -/
def pollSource (feed : Feed) (defaults : List (String × String)) (mint : String → Id) (src : SourceRow)
    (fetched : Option (List Entry)) (items : List FeedItem) : SourceRow × List FeedItem :=
  match fetched with
  | none => (src, items)
  | some entries =>
    let payloads := RssConnector.poll X (src.effectiveFieldMap defaults) src.lastEventAt entries
    (pollSourcePayloads (fun _ => true) (fun p => mint p.externalId) feed src
      ⟨payloads.map RssEntryPayload.toSourcePayload, .ok ()⟩ items).1

/-! ## Many polls -/

/-- One poll cycle: its clock, what the source returns, and the feed's items when the source's turn
comes; other sources and the retention prune write these too. -/
structure Cycle where
  clock : Time
  fetched : Option (List Entry)
  items : List FeedItem
  mint : String → Id

variable (feed : Feed) (defaults : List (String × String)) (src : SourceRow)

/-- The source and the items after one more cycle. -/
def Cycle.run (c : Cycle) (src : SourceRow) : SourceRow × List FeedItem :=
  pollSource X feed defaults c.mint src c.fetched c.items

/-- The source after the cycles. -/
def sourceAfter (cycles : List Cycle) : SourceRow :=
  cycles.foldl (fun src c => (c.run X feed defaults src).1) src

/-- What the cycle's entries resolve to. -/
def Cycle.payloads (c : Cycle) : List RssEntryPayload :=
  payloadsOf X (src.effectiveFieldMap defaults) (c.fetched.getD [])

/-- The clock of the last successful poll. -/
def lastPoll (cycles : List Cycle) : Option Time :=
  ((cycles.filter (·.fetched.isSome)).getLast?).map (·.clock)

/-- The entry appears first in the cycle `c`, and is dated between the successful poll before and
`c`'s own clock. -/
structure IsNewIn (before : List Cycle) (c : Cycle) (p : RssEntryPayload) : Prop where
  fetched : p ∈ c.payloads X defaults src
  first : ∀ c' ∈ before, ∀ q ∈ c'.payloads X defaults src, q.externalId ≠ p.externalId
  since : ∃ t ∈ lastPoll before, t ≤ p.occurredAt
  known : p.occurredAt ≤ c.clock

/-- Every new entry is recorded by the poll it appears in. -/
def RecordsNew (cycles : List Cycle) : Prop := ∀ before c after, cycles = before ++ c :: after →
  ∀ p, IsNewIn X defaults src before c p →
    itemKey feed p ∈ (c.run X feed defaults (sourceAfter X feed defaults src before)).2.map
      FeedItem.key

/-- A new entry is stored already, or neither an entry of an earlier poll nor the first watermark is
dated after it (or after another entry of its id in the same poll). -/
def NotOvertaken (cycles : List Cycle) : Prop := ∀ before c after, cycles = before ++ c :: after →
  ∀ p, IsNewIn X defaults src before c p → itemKey feed p ∈ c.items.map FeedItem.key ∨
    ∃ q ∈ c.payloads X defaults src, q.externalId = p.externalId ∧ src.lastEventAt ≤ q.occurredAt ∧
      ∀ c' ∈ before, ∀ o ∈ c'.payloads X defaults src, o.occurredAt ≤ q.occurredAt

/-- No poll yields an entry that is dated after the poll's clock. -/
def NoFutureEntry (cycles : List Cycle) : Prop :=
  ∀ c ∈ cycles, ∀ p ∈ c.payloads X defaults src, p.occurredAt ≤ c.clock

section Cycles

variable {X feed defaults src} {c : Cycle} {x : Time}

theorem Cycle.run_fieldMap : (c.run X feed defaults src).1.fieldMap = src.fieldMap := by
  unfold Cycle.run pollSource
  split
  · rfl
  · exact pollSourcePayloads_fieldMap

theorem Cycle.run_lastEventAt_le : (c.run X feed defaults src).1.lastEventAt ≤ x ↔
    src.lastEventAt ≤ x ∧ ∀ p ∈ c.payloads X defaults src, p.occurredAt ≤ x := by
  unfold Cycle.run pollSource Cycle.payloads
  cases c.fetched with
  | none => simp [payloadsOf]
  | some entries =>
    dsimp only [Option.getD]
    rw [pollSourcePayloads_lastEventAt_le (pollSourcePayloads_ok (fun _ => rfl) rfl)]
    refine and_congr_right fun hs => ?_
    rw [List.forall_mem_map]
    refine ⟨fun h p hp => ?_, fun h p hp => h p (List.mem_of_mem_filter hp)⟩
    by_cases hlt : p.occurredAt < src.lastEventAt
    · exact le_trans (le_of_lt hlt) hs
    · exact h p (List.mem_filter.mpr ⟨hp, by simpa using hlt⟩)

/-- **The watermark after the cycles** is the newest date seen, from the first watermark on. -/
theorem sourceAfter_lastEventAt_le {cycles : List Cycle} :
    (sourceAfter X feed defaults src cycles).lastEventAt ≤ x ↔ src.lastEventAt ≤ x ∧
      ∀ c ∈ cycles, ∀ p ∈ c.payloads X defaults src, p.occurredAt ≤ x := by
  induction cycles generalizing src with
  | nil => simp [sourceAfter]
  | cons c cs ih =>
    have hmap : ∀ d : Cycle, d.payloads X defaults (c.run X feed defaults src).1 =
        d.payloads X defaults src := by
      intro d
      unfold Cycle.payloads SourceRow.effectiveFieldMap
      rw [Cycle.run_fieldMap]
    have hcons : sourceAfter X feed defaults src (c :: cs) =
        sourceAfter X feed defaults (c.run X feed defaults src).1 cs := rfl
    rw [hcons, ih, Cycle.run_lastEventAt_le, List.forall_mem_cons, and_assoc]
    simp only [hmap]

theorem sourceAfter_fieldMap (cycles : List Cycle) :
    (sourceAfter X feed defaults src cycles).fieldMap = src.fieldMap := by
  induction cycles generalizing src with
  | nil => rfl
  | cons c cs ih => exact ih.trans Cycle.run_fieldMap

/-- **What a poll records**: what was there, and its entries dated at or after the watermark. -/
theorem Cycle.mem_run {k : ItemKey} : k ∈ (c.run X feed defaults src).2.map FeedItem.key ↔
    k ∈ c.items.map FeedItem.key ∨
      ∃ q ∈ c.payloads X defaults src, itemKey feed q = k ∧ src.lastEventAt ≤ q.occurredAt := by
  unfold Cycle.run pollSource Cycle.payloads
  cases c.fetched with
  | none => simp [payloadsOf]
  | some entries =>
    have hok : (pollSourcePayloads (fun _ => true) (fun p => c.mint p.externalId) feed src
        ⟨(RssConnector.poll X (src.effectiveFieldMap defaults) src.lastEventAt entries).map
          RssEntryPayload.toSourcePayload, .ok ()⟩ c.items).2 = .ok () :=
      pollSourcePayloads_ok (fun _ => rfl) rfl
    rw [pollSourcePayloads_outcome] at hok
    rw [pollSourcePayloads_items, FeedItemService.mem_keys_recordItems hok]
    refine or_congr_right ?_
    simp only [RssConnector.poll, List.mem_map, List.mem_filter, Bool.not_eq_true',
      decide_eq_false_iff_not, not_lt, Option.getD_some]
    constructor
    · rintro ⟨-, ⟨q, ⟨hq, hd⟩, rfl⟩, hk⟩
      exact ⟨q, hq, hk, hd⟩
    · rintro ⟨q, hq, hk, hd⟩
      exact ⟨_, ⟨q, ⟨hq, hd⟩, rfl⟩, hk⟩

/-- A successful poll is not after the last one. -/
theorem le_lastPoll {before : List Cycle} {t : Time}
    (hs : (before.map (·.clock)).Pairwise (· ≤ ·)) (ht : t ∈ lastPoll before) {c : Cycle}
    (hc : c ∈ before) (hf : c.fetched.isSome) : c.clock ≤ t := by
  obtain ⟨z, hz, rfl⟩ := Option.map_eq_some_iff.mp ht
  obtain ⟨init, hl⟩ := List.getLast?_eq_some_iff.mp hz
  have hmem : c ∈ init ++ [z] := hl ▸ List.mem_filter.mpr ⟨hc, hf⟩
  have hp : ((init ++ [z]).map (·.clock)).Pairwise (· ≤ ·) :=
    hl ▸ hs.sublist (List.filter_sublist.map _)
  rcases List.mem_append.mp hmem with h | h
  · rw [List.map_append, List.pairwise_append] at hp
    exact hp.2.2 _ (List.mem_map_of_mem h) _ (by simp)
  · rw [List.mem_singleton.mp h]

/-- **New entries are recorded** in every sequence of polls without an entry from the future; and
exactly when no new entry is overtaken by an earlier poll. -/
theorem records_new {cycles : List Cycle} (hs : (cycles.map (·.clock)).Pairwise (· ≤ ·))
    (h0 : ∀ c ∈ cycles, src.lastEventAt ≤ c.clock) :
    (NoFutureEntry X defaults src cycles → RecordsNew X feed defaults src cycles) ∧
    (RecordsNew X feed defaults src cycles ↔ NotOvertaken X feed defaults src cycles) := by
  have hiff : RecordsNew X feed defaults src cycles ↔ NotOvertaken X feed defaults src cycles := by
    refine forall₄_congr fun before c after _ => forall₂_congr fun p _ => ?_
    rw [Cycle.mem_run]
    refine or_congr_right (exists_congr fun q => ?_)
    have hmap : c.payloads X defaults (sourceAfter X feed defaults src before) =
        c.payloads X defaults src := by
      unfold Cycle.payloads SourceRow.effectiveFieldMap
      rw [sourceAfter_fieldMap]
    rw [hmap, sourceAfter_lastEventAt_le]
    simp [itemKey]
  refine ⟨fun hno => hiff.mpr fun before c after hcs p hp => .inr ?_, hiff⟩
  subst hcs
  obtain ⟨t, ht, htp⟩ := hp.since
  rw [List.map_append, List.pairwise_append] at hs
  have hle {c' : Cycle} (hc' : c' ∈ before) (hf : c'.fetched.isSome) : c'.clock ≤ p.occurredAt :=
    le_trans (le_lastPoll hs.1 ht hc' hf) htp
  refine ⟨p, hp.fetched, rfl, ?_, fun c' hc' o ho => ?_⟩
  · obtain ⟨z, hz, -⟩ := Option.map_eq_some_iff.mp ht
    have hz := List.mem_filter.mp (List.mem_of_getLast? hz)
    exact le_trans (h0 z (List.mem_append_left _ hz.1)) (hle hz.1 hz.2)
  · -- an entry was fetched, so the poll was a successful one
    have hf : c'.fetched.isSome := by
      unfold Cycle.payloads at ho
      cases hc : c'.fetched with
      | none => simp [hc, payloadsOf] at ho
      | some _ => rfl
    exact le_trans (hno c' (List.mem_append_left _ hc') o ho) (hle hc' hf)

end Cycles

/-! ## With and without an entry from the future -/

/-- Strings as they are, without timestamps in them. -/
def plainReaders : StringReaders := ⟨id, fun _ => none, fun _ => none⟩

/-- An entry with an id and a timestamp. -/
def sampleEntry (externalId : String) (published : Time) : Entry
  | "id" => some (.text externalId)
  | "published_parsed" => some (.time published "")
  | _ => none

/-- A source created at time 0. -/
def sampleSource : SourceRow := { id := 1, accountId := 1, feedId := 1, lastEventAt := 0 }

/-- Two polls: at 60 with the entry `a`, and at 120 with the entries `a` and `b`. -/
def twoPolls (a b : Time) : List Cycle :=
  [⟨60, some [sampleEntry "a" a], [], fun _ => 1⟩,
    ⟨120, some [sampleEntry "a" a, sampleEntry "b" b],
      [(RssEntryPayload.toSourcePayload ⟨"a", a⟩).row (fun _ => 1) ⟨1, 1⟩], fun _ => 2⟩]

theorem isNewIn_twoPolls (a : Time) : IsNewIn plainReaders [] sampleSource
    ((twoPolls a 90).take 1) ⟨120, some [sampleEntry "a" a, sampleEntry "b" 90],
      [(RssEntryPayload.toSourcePayload ⟨"a", a⟩).row (fun _ => 1) ⟨1, 1⟩], fun _ => 2⟩ ⟨"b", 90⟩ where
  fetched := List.mem_cons_of_mem _ List.mem_cons_self
  first c hc q hq := by
    obtain rfl := List.mem_singleton.mp hc
    obtain rfl : q = ⟨"a", a⟩ := List.mem_singleton.mp hq
    exact (by decide : "a" ≠ "b")
  since := ⟨60, rfl, by decide⟩
  known := (by decide : (90 : Time) ≤ 120)

/-- Entries dated 30 and 90, polled at 60 and 120. -/
theorem records_new_sample :
    RecordsNew plainReaders ⟨1, 1⟩ [] sampleSource (twoPolls 30 90) := by
  refine (records_new (by decide) (by decide)).1 fun c hc p hp => ?_
  rcases List.mem_cons.mp hc with rfl | hc
  · obtain rfl : p = ⟨"a", 30⟩ := List.mem_singleton.mp hp
    decide
  · obtain rfl := List.mem_singleton.mp hc
    rcases List.mem_cons.mp hp with rfl | hp
    · decide
    · obtain rfl : p = ⟨"b", 90⟩ := List.mem_singleton.mp hp
      decide

/-- **An entry from the future hides the next one.** The entry polled at 60 is dated 3600, and so
the watermark; the entry dated 90 that the poll at 120 finds is not recorded. -/
theorem future_entry_hides :
    defaultAndEnforceSourceWatermark none 0 = .ok sampleSource.lastEventAt ∧
    (sourceAfter plainReaders ⟨1, 1⟩ [] sampleSource ((twoPolls 3600 90).take 1)).lastEventAt = 3600 ∧
    ¬ RecordsNew plainReaders ⟨1, 1⟩ [] sampleSource (twoPolls 3600 90) := by
  refine ⟨rfl, by decide, fun h => ?_⟩
  have hb := h ((twoPolls 3600 90).take 1) _ [] rfl ⟨"b", 90⟩ (isNewIn_twoPolls 3600)
  exact absurd hb (by decide)

end OpenMagpie
