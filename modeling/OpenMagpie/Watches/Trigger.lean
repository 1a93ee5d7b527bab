import OpenMagpie.Watches.World

/-!
# The trigger pass

A pass takes a watch, loads the head of its chain, and for every subscribed feed enqueues a run of
the head for the items past the watermark, then advances the watermark. A digest head's window is
opened once per pass, before the first feed with new items, in a transaction of its own.

* `feedItemIds`, `newestItemId`, `itemIdsInWindow`: the reads of a feed.
* `Trigger`, `Trigger.Step`: the program points and steps of `WatchTriggerOperation.run`.
-/

set_option autoImplicit false

namespace OpenMagpie

/-! ## Reads of a feed -/

/-- The ids of a feed's items. -/
def feedItemIds (account feed : Id) (items : List FeedItem) : List Id :=
  (items.filter fun i => decide (i.accountId = account ∧ i.feedId = feed)).map (·.id)

/-- `newest_item_id`. -/
def newestItemId (account feed : Id) (items : List FeedItem) : Option Id :=
  (feedItemIds account feed items).max?

/-- Past the cursor, up to the bound; a blank cursor is below every id. -/
def InWindow (after : Option Id) (through i : Id) : Prop := (∀ a ∈ after, a < i) ∧ i ≤ through

instance (after : Option Id) (through i : Id) : Decidable (InWindow after through i) := by
  unfold InWindow; infer_instance

/-- The ids in `(after, through]`, ascending. -/
def itemIdsInWindow (account feed : Id) (after : Option Id) (through : Id)
    (items : List FeedItem) : List Id :=
  ((feedItemIds account feed items).filter fun i => decide (InWindow after through i)).insertionSort
    (· ≤ ·)

theorem mem_feedItemIds {account feed i : Id} {items : List FeedItem} :
    i ∈ feedItemIds account feed items ↔
      ∃ x ∈ items, x.id = i ∧ x.accountId = account ∧ x.feedId = feed := by
  simp only [feedItemIds, List.mem_map, List.mem_filter, decide_eq_true_eq]
  constructor
  · rintro ⟨x, ⟨hx, ha, hf⟩, hi⟩
    exact ⟨x, hx, hi, ha, hf⟩
  · rintro ⟨x, hx, hi, ha, hf⟩
    exact ⟨x, ⟨hx, ha, hf⟩, hi⟩

theorem mem_itemIdsInWindow {account feed through i : Id} {after : Option Id}
    {items : List FeedItem} : i ∈ itemIdsInWindow account feed after through items ↔
      i ∈ feedItemIds account feed items ∧ InWindow after through i := by
  rw [itemIdsInWindow, List.mem_insertionSort, List.mem_filter, decide_eq_true_iff]

/-- The bound is at or above every item that was visible. -/
theorem le_newestItemId {account feed through i : Id} {items : List FeedItem}
    (h : newestItemId account feed items = some through)
    (hi : i ∈ feedItemIds account feed items) : i ≤ through :=
  (List.max?_eq_some_iff.mp h).2 i hi

/-! ## The pass -/

/-- What a pass has loaded: its clock, the watch, the head, and the head's window length when it
is a digest. -/
structure Pass where
  now : Time
  watch : Watch
  head : WatchAction
  interval : Option ℕ

/-- One feed of a pass: the pass, the close time of the window it has opened, the feeds left, the
subscription as it was read, the bound, and (ghost) the items visible when the bound was read. -/
structure Scan where
  pass : Pass
  sched : Option Time
  rest : List WatchFeed
  watchFeed : WatchFeed
  through : Id
  visible : List Id

/-- Where a trigger pass stands. -/
inductive Trigger
  | idle
  | started (now : Time) (watch : Watch)
  | loaded (p : Pass)
  | cycle (p : Pass) (sched : Option Time) (feeds : List WatchFeed)
  | bounded (s : Scan)
  | scanning (s : Scan) (scheduledAt : Time) (cursor : Option Id)
  | paged (s : Scan) (scheduledAt : Time) (page : List Id)
  | scanned (s : Scan)

/-- The page of the item id iterator; a page fills one enqueue chunk. -/
def pageSize : ℕ := 500

/-- The next page of a scan. -/
def Scan.page (s : Scan) (cursor : Option Id) (items : List FeedItem) : List Id :=
  (itemIdsInWindow s.pass.watch.accountId s.watchFeed.feedId cursor s.through items).take pageSize

/-- `advance_watermark`. -/
def advanceWatermark (id : Id) (lastItemId : Id) (watchFeeds : List WatchFeed) : List WatchFeed :=
  Table.update (fun f => decide (f.id = id)) (fun f => { f with lastItemId := some lastItemId })
    watchFeeds

/-- The subscriptions of a watch, in creation order. -/
def watchFeedsOf (watch : Watch) (watchFeeds : List WatchFeed) : List WatchFeed :=
  (watchFeeds.filter fun f => decide (f.accountId = watch.accountId ∧
    f.watchId = watch.id)).insertionSort fun f g => f.id ≤ g.id

variable {C : Type} (R : Registry C)

/-- The steps of a trigger pass. -/
inductive Trigger.Step : Trigger → World → World → Trigger → Prop
  | start {w : World} {watch : Watch} (hw : watch ∈ w.watches) :
      Step .idle w w (.started w.clock watch)
  | head {w : World} {now : Time} {watch : Watch} {head : WatchAction} {interval : Option ℕ}
      (hh : (listForPath watch.accountId watch.initialPathId w.actions).head? = some head)
      (hi : digestInterval R head = .ok interval) :
      Step (.started now watch) w w (.loaded ⟨now, watch, head, interval⟩)
  | feeds {w : World} {p : Pass} :
      Step (.loaded p) w w (.cycle p none (watchFeedsOf p.watch w.watchFeeds))
  | missing {w : World} {p : Pass} {sched : Option Time} {f : WatchFeed} {rest : List WatchFeed}
      (hf : ∀ feed ∈ w.feeds, feed.id ≠ f.feedId) :
      Step (.cycle p sched (f :: rest)) w w (.cycle p sched rest)
  | emptyFeed {w : World} {p : Pass} {sched : Option Time} {f : WatchFeed} {rest : List WatchFeed}
      (hn : newestItemId p.watch.accountId f.feedId w.items = none) :
      Step (.cycle p sched (f :: rest)) w w (.cycle p sched rest)
  | atHead {w : World} {p : Pass} {sched : Option Time} {f : WatchFeed} {rest : List WatchFeed}
      {through : Id} (hn : newestItemId p.watch.accountId f.feedId w.items = some through)
      (hl : f.lastItemId = some through) :
      Step (.cycle p sched (f :: rest)) w
        { w with log := .scanned f.id (feedItemIds p.watch.accountId f.feedId w.items) ::
            .bounded p.watch.accountId f.feedId through :: w.log }
        (.cycle p sched rest)
  | bound {w : World} {p : Pass} {sched : Option Time} {f : WatchFeed} {rest : List WatchFeed}
      {through : Id} (hn : newestItemId p.watch.accountId f.feedId w.items = some through)
      (hl : f.lastItemId ≠ some through) :
      Step (.cycle p sched (f :: rest)) w
        { w with log := .bounded p.watch.accountId f.feedId through :: w.log }
        (.bounded ⟨p, sched, rest, f, through, feedItemIds p.watch.accountId f.feedId w.items⟩)
  | openWindow {w : World} {s : Scan} {n : ℕ} (hi : s.pass.interval = some n) (hs : s.sched = none)
      (hl : (s.pass.watch.accountId, s.pass.head.id) ∉ w.locked) :
      Step (.bounded s) w
        { w with windows := (openWindow s.pass.watch.accountId s.pass.head.id n s.pass.now
            w.windows).1 }
        (.scanning { s with sched := some (openWindow s.pass.watch.accountId s.pass.head.id n
            s.pass.now w.windows).2 }
          (openWindow s.pass.watch.accountId s.pass.head.id n s.pass.now w.windows).2
          s.watchFeed.lastItemId)
  | joinWindow {w : World} {s : Scan} {n : ℕ} {t : Time} (hi : s.pass.interval = some n)
      (hs : s.sched = some t) : Step (.bounded s) w w (.scanning s t s.watchFeed.lastItemId)
  | instant {w : World} {s : Scan} (hi : s.pass.interval = none) :
      Step (.bounded s) w w (.scanning s s.pass.now s.watchFeed.lastItemId)
  | page {w : World} {s : Scan} {t : Time} {cursor : Option Id}
      (hp : s.page cursor w.items ≠ []) :
      Step (.scanning s t cursor) w w (.paged s t (s.page cursor w.items))
  | lastPage {w : World} {s : Scan} {t : Time} {cursor : Option Id}
      (hp : s.page cursor w.items = []) : Step (.scanning s t cursor) w w (.scanned s)
  | chunk {w : World} {s : Scan} {t : Time} {page : List Id} {mint : Id → Id}
      {runs' : List WatchActionRun} {n : ℕ} (hm : Minted w.runs mint)
      (hc : enqueueChunk mint s.pass.watch.accountId s.pass.watch.id s.pass.head.id
        s.pass.head.kind t page w.runs = .ok (runs', n)) :
      Step (.paged s t page) w { w with runs := runs' }
        (if page.length < pageSize then .scanned s else .scanning s t page.getLast?)
  -- `save(update_fields)` raises for a row that is gone: the pass ends there by `crash`
  | advance {w : World} {s : Scan} (hrow : ∃ f ∈ w.watchFeeds, f.id = s.watchFeed.id) :
      Step (.scanned s) w
        { w with
          watchFeeds := advanceWatermark s.watchFeed.id s.through w.watchFeeds
          log := .scanned s.watchFeed.id s.visible :: w.log }
        (.cycle s.pass s.sched s.rest)
  | done {w : World} {p : Pass} {sched : Option Time} : Step (.cycle p sched []) w w .idle
  | crash {t : Trigger} {w : World} : Step t w w .idle

end OpenMagpie
