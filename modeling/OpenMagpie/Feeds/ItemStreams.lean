import Mathlib.Order.Interval.Finset.Nat
import OpenMagpie.Lib.Scroll
import OpenMagpie.Watches.Backfill

/-!
# Streams over the items log

The trigger and the backfill read the items log page by page, and write to the tables that their
queries join between two pages. Every page is a query of its own, behind the last id of the page
before.

* `QuerySet`: the filter of a query, evaluated on the tables as they are then.
* `iterItemsInWindow`, `iterItemIdsInWindow`, `iterIdsKeyset`: the iterators, by the number of pages
  they have read.
* `Streams`: what an iterator over a selection yields, whatever happens between its pages.
* `CountedStream`: an iterator streams a selection, and a count has its size.
* **`iterators_counted`**: that holds of every iterator and its count.
-/

set_option autoImplicit false

namespace OpenMagpie

open Scroll

/-! ## The queries -/

/-- The tables, with the primary key of the items log. -/
structure ItemLog extends World where
  primaryKey : (items.map (·.id)).Nodup

/-- A query of the items log: what its filter selects in the tables. -/
abbrev QuerySet := World → FeedItem → Bool

namespace QuerySet

variable (qs : QuerySet) (w : World)

/-- The rows. -/
def rows : List FeedItem := w.items.filter (qs w)

/-- `values_list("id", flat=True)`. -/
def ids : List Id := (qs.rows w).map (·.id)

/-- `count()`. -/
def count : ℕ := (qs.rows w).length

end QuerySet

/-- Why an item read is refused. -/
inductive ItemReadError
  | accountMismatch (what : String) (accountId scope : Id)
  | valueError (message : String)
  deriving DecidableEq

namespace FeedItemService

variable (account : Id)

/-- `_assert_scope`. -/
def assertScope (accountId : Id) (what : String) : Except ItemReadError Unit :=
  if accountId ≠ account then .error (.accountMismatch what accountId account) else .ok ()

/-- The rows of a feed up to the bound. -/
def throughQs (feed : Feed) (through : Id) : QuerySet := fun _ i =>
  decide (i.accountId = account ∧ i.feedId = feed.id ∧ i.id ≤ through)

/-- The rows of a feed in `(after, through]`. -/
def windowQs (feed : Feed) (after : Option Id) (through : Id) : QuerySet := fun _ i =>
  decide (i.accountId = account ∧ i.feedId = feed.id ∧ InWindow after through i.id)

/-- `count_items_in_window`. -/
def countItemsInWindow (feed : Feed) (after : Option Id) (through : Id) (w : World) :
    Except ItemReadError ℕ := do
  assertScope account feed.accountId "feed"
  pure ((windowQs account feed after through).count w)

/-! ## The iterators -/

/-- The end of the window iterators: no row, or a page that is not full. -/
def shortPage {β : Type} (chunkSize : ℕ) (chunk : List β) : Bool :=
  chunk.isEmpty || decide (chunk.length < chunkSize)

/-- `iter_items_in_window`; the `k`-th page reads the `k`-th tables. -/
def iterItemsInWindow (feed : Feed) (after : Option Id) (through : Id) (chunkSize : ℕ)
    (ws : ℕ → World) : Except ItemReadError (ℕ → State FeedItem Id) := do
  assertScope account feed.accountId "feed"
  pure (run (·.id) chunkSize (shortPage chunkSize)
    (fun k => (throughQs account feed through).rows (ws k)) after)

/-- `iter_item_ids_in_window`. -/
def iterItemIdsInWindow (feed : Feed) (after : Option Id) (through : Id) (chunkSize : ℕ)
    (ws : ℕ → World) : Except ItemReadError (ℕ → State Id Id) := do
  assertScope account feed.accountId "feed"
  pure (run id chunkSize (shortPage chunkSize)
    (fun k => (throughQs account feed through).ids (ws k)) after)

/-- `_iter_ids_keyset`; its first cursor is blank, and only a page without a row ends it. -/
def iterIdsKeyset (qs : QuerySet) (pageSize : ℕ) (ws : ℕ → World) : ℕ → State Id Id :=
  run id pageSize (fun page => page.isEmpty) (fun k => qs.ids (ws k)) none

/-- `_existing_feed_item_ids_qs`. The candidates are a subquery. -/
def existingFeedItemIdsQs (candidateIds : World → List Id) : QuerySet := fun w i =>
  decide (i.accountId = account ∧ i.id ∈ candidateIds w)

/-- `count_existing_feed_item_ids`. -/
def countExistingFeedItemIds (candidateIds : World → List Id) (w : World) : ℕ :=
  (existingFeedItemIdsQs account candidateIds).count w

/-- `iter_existing_feed_item_ids`. -/
def iterExistingFeedItemIds (candidateIds : World → List Id) (ws : ℕ → World) : ℕ → State Id Id :=
  iterIdsKeyset (existingFeedItemIdsQs account candidateIds) 500 ws

/-- The rows of some feeds whose source time is in `[since, until)`. -/
def occurredQs (feedIds : List Id) (since until_ : Option Time) : QuerySet := fun _ i =>
  decide (i.accountId = account ∧ i.feedId ∈ feedIds ∧ InBounds since until_ i.occurredAt)

/-- `_feed_items_in_occurred_window_qs`. -/
def feedItemsInOccurredWindowQs (feedIds : List Id) (since until_ : Option Time) :
    Except ItemReadError QuerySet :=
  if since = none ∧ until_ = none then
    .error (.valueError "feed_items_in_occurred_window needs at least one of since / until")
  else
    .ok (occurredQs account feedIds since until_)

/-- `count_feed_items_in_occurred_window`. -/
def countFeedItemsInOccurredWindow (feedIds : List Id) (since until_ : Option Time) (w : World) :
    Except ItemReadError ℕ := do
  let qs ← feedItemsInOccurredWindowQs account feedIds since until_
  pure (qs.count w)

/-- `iter_feed_items_in_occurred_window`. -/
def iterFeedItemsInOccurredWindow (feedIds : List Id) (since until_ : Option Time)
    (ws : ℕ → World) : Except ItemReadError (ℕ → State Id Id) := do
  let qs ← feedItemsInOccurredWindowQs account feedIds since until_
  pure (iterIdsKeyset qs 500 ws)

end FeedItemService

/-! ## What the iterators yield -/

section Streams

variable {β : Type} (key : β → Id) (selected : World → List β)

/-- An iterator streams a selection. -/
structure Streams (it : (ℕ → World) → ℕ → State β Id) : Prop where
  /-- Tables that stay the same: it ends, and has yielded the selection, in ascending order. -/
  exact : ∀ w : ItemLog, ∃ n, (it (fun _ => w.toWorld) n).done = true ∧
    (it (fun _ => w.toWorld) n).yielded.Perm (selected w.toWorld)
  /-- Whatever happens between the pages, no id is yielded twice or out of order. -/
  ascending : ∀ (ws : ℕ → ItemLog) n,
    (it (fun k => (ws k).toWorld) n).yielded.Pairwise fun x y => key x < key y
  /-- An id that is selected at every page is yielded, once. -/
  once : ∀ (ws : ℕ → ItemLog) i,
    (∀ k, (it (fun k => (ws k).toWorld) k).done = false → i ∈ (selected (ws k).toWorld).map key) →
    ∃ n, ∀ m, n ≤ m → ((it (fun k => (ws k).toWorld) m).yielded.map key).count i = 1
  /-- It ends when the ids are bounded. -/
  ends : ∀ (ws : ℕ → ItemLog) bound, (∀ k, ∀ x ∈ selected (ws k).toWorld, key x ≤ bound) →
    ∃ n, (it (fun k => (ws k).toWorld) n).done = true

/-- A read that is accepted when `ok`: its count is the size of the selection, which its iterator
streams. -/
structure CountedStream {ε : Type} (ok : Prop) (count : World → Except ε ℕ)
    (it : (ℕ → World) → Except ε (ℕ → State β Id)) : Prop where
  refused : ¬ ok → ∃ e, (∀ w, count w = .error e) ∧ ∀ ws, it ws = .error e
  counts : ok → ∀ w, count w = .ok (selected w).length
  streams : ok → ∃ run, (∀ ws, it ws = .ok (run ws)) ∧ Streams key selected run

variable {key selected} {size : ℕ} {stop : List β → Bool} {table : World → List β}
  {start : Option Id}

/-- **A scroll through a query streams what the query selects behind the start.** -/
theorem streams_run (hr : StopRule size stop)
    (hkeys : ∀ w : ItemLog, ((table w.toWorld).map key).Nodup)
    (hsel : ∀ w, selected w = (table w).filter fun x => beyond start (key x)) :
    Streams key selected fun ws => run key size stop (fun k => table (ws k)) start := by
  have hmem {w : World} {x : β} : x ∈ selected w ↔ x ∈ table w ∧ beyond start (key x) = true := by
    rw [hsel, List.mem_filter]
  have hsorted (ws : ℕ → ItemLog) (n : ℕ) : Ascending key
      (run key size stop (fun k => table (ws k).toWorld) start n) := ascending_run fun k => hkeys (ws k)
  refine ⟨fun w => ?_, fun ws n => (hsorted ws n).pairwise, fun ws i hi => ?_, fun ws bound hb => ?_⟩
  · obtain ⟨n, hdone, hyielded⟩ := yields_const start hr (hkeys w)
    refine ⟨n, hdone, ?_⟩
    rw [hyielded, hsel]
    exact List.perm_insertionSort _ _
  · have htable (k : ℕ) (hk : (run key size stop (fun k => table (ws k).toWorld) start k).done = false) :
        i ∈ (table (ws k).toWorld).map key := by
      obtain ⟨x, hx, rfl⟩ := List.mem_map.mp (hi k hk)
      exact List.mem_map_of_mem (hmem.mp hx).1
    have hstart : beyond start i = true := by
      obtain ⟨x, hx, rfl⟩ := List.mem_map.mp (hi 0 rfl)
      exact (hmem.mp hx).2
    obtain ⟨n, hn⟩ := exists_mem_run hr (fun k => hkeys (ws k)) hstart htable
    refine ⟨n, fun m hm => List.count_eq_one_of_mem ?_ (List.map_subset key (yielded_subset_run hm) hn)⟩
    exact (List.pairwise_map.mpr (hsorted ws m).pairwise).imp fun hlt => Nat.ne_of_lt hlt
  · refine exists_done start hr (Finset.Iic bound) fun n x hx hbeyond => ?_
    exact Finset.mem_Iic.mpr (hb n x (hmem.mpr ⟨hx, hbeyond⟩))

end Streams

/-! ## The iterators and their counts -/

namespace FeedItemService

variable {account : Id} {feed : Feed} {after : Option Id} {through : Id} {size : ℕ}

/-- The ids of a query are unique. -/
theorem nodup_ids (qs : QuerySet) (w : ItemLog) : (qs.ids w.toWorld).Nodup :=
  w.primaryKey.sublist (List.filter_sublist.map _)

/-- The window is what lies behind its cursor and up to its bound. -/
theorem rows_windowQs (w : World) : (windowQs account feed after through).rows w =
    ((throughQs account feed through).rows w).filter fun i => beyond after i.id := by
  rw [QuerySet.rows, QuerySet.rows, List.filter_filter]
  refine List.filter_congr fun i _ => Bool.eq_iff_iff.mpr ?_
  have hbeyond : beyond after i.id = true ↔ ∀ a ∈ after, a < i.id := by
    cases after <;> simp [beyond]
  rw [Bool.and_eq_true, hbeyond, windowQs, throughQs, decide_eq_true_iff, decide_eq_true_iff, InWindow]
  tauto

theorem ids_windowQs (w : World) : (windowQs account feed after through).ids w =
    ((throughQs account feed through).ids w).filter fun i => beyond after i := by
  rw [QuerySet.ids, rows_windowQs, QuerySet.ids, List.filter_map]
  rfl

theorem iterItemsInWindow_counted (hs : 0 < size) :
    CountedStream (·.id) (windowQs account feed after through).rows (feed.accountId = account)
      (countItemsInWindow account feed after through)
      (iterItemsInWindow account feed after through size) := by
  refine ⟨fun h => ⟨.accountMismatch "feed" feed.accountId account, fun w => ?_, fun ws => ?_⟩,
    fun h w => ?_, fun h => ⟨_, fun ws => ?_, streams_run (StopRule.notFull size hs)
      (fun w => nodup_ids (throughQs account feed through) w) rows_windowQs⟩⟩
  · rw [countItemsInWindow, assertScope, if_pos h]
    rfl
  · rw [iterItemsInWindow, assertScope, if_pos h]
    rfl
  · rw [countItemsInWindow, assertScope, if_neg (not_not_intro h)]
    rfl
  · rw [iterItemsInWindow, assertScope, if_neg (not_not_intro h)]
    rfl

theorem iterItemIdsInWindow_counted (hs : 0 < size) :
    CountedStream id (windowQs account feed after through).ids (feed.accountId = account)
      (countItemsInWindow account feed after through)
      (iterItemIdsInWindow account feed after through size) := by
  refine ⟨fun h => ⟨.accountMismatch "feed" feed.accountId account, fun w => ?_, fun ws => ?_⟩,
    fun h w => ?_, fun h => ⟨_, fun ws => ?_, streams_run (StopRule.notFull size hs)
      (fun w => ?_) ids_windowQs⟩⟩
  · rw [countItemsInWindow, assertScope, if_pos h]
    rfl
  · rw [iterItemIdsInWindow, assertScope, if_pos h]
    rfl
  · rw [countItemsInWindow, assertScope, if_neg (not_not_intro h), QuerySet.ids, List.length_map]
    rfl
  · rw [iterItemIdsInWindow, assertScope, if_neg (not_not_intro h)]
    rfl
  · rw [List.map_id]
    exact nodup_ids (throughQs account feed through) w

/-- `_iter_ids_keyset` streams any query. -/
theorem iterIdsKeyset_streams (hs : 0 < size) (qs : QuerySet) :
    Streams id qs.ids fun ws => iterIdsKeyset qs size ws := by
  refine streams_run (StopRule.isEmpty size hs) (fun w => ?_) fun w => ?_
  · rw [List.map_id]
    exact nodup_ids qs w
  · exact (List.filter_eq_self.mpr fun i _ => rfl).symm

theorem iterFeedItemsInOccurredWindow_counted {feedIds : List Id} {since until_ : Option Time} :
    CountedStream id (occurredQs account feedIds since until_).ids (since ≠ none ∨ until_ ≠ none)
      (countFeedItemsInOccurredWindow account feedIds since until_)
      (iterFeedItemsInOccurredWindow account feedIds since until_) := by
  have hrefused (h : ¬ (since ≠ none ∨ until_ ≠ none)) :
      feedItemsInOccurredWindowQs account feedIds since until_ = .error (.valueError
        "feed_items_in_occurred_window needs at least one of since / until") :=
    if_pos (by tauto)
  have hqs (h : since ≠ none ∨ until_ ≠ none) :
      feedItemsInOccurredWindowQs account feedIds since until_ =
        .ok (occurredQs account feedIds since until_) := if_neg (by tauto)
  refine ⟨fun h => ⟨.valueError "feed_items_in_occurred_window needs at least one of since / until",
    fun w => ?_, fun ws => ?_⟩, fun h w => ?_, fun h => ⟨_, fun ws => ?_, @iterIdsKeyset_streams 500 (by decide) _⟩⟩
  · rw [countFeedItemsInOccurredWindow, hrefused h]
    rfl
  · rw [iterFeedItemsInOccurredWindow, hrefused h]
    rfl
  · rw [countFeedItemsInOccurredWindow, hqs h, QuerySet.ids, List.length_map]
    rfl
  · rw [iterFeedItemsInOccurredWindow, hqs h]
    rfl

end FeedItemService

open FeedItemService

/-- **Every iterator streams its selection, whatever happens between its pages, and yields as many
ids as its count says.** -/
theorem iterators_counted (account : Id) {size : ℕ} (hs : 0 < size) :
    (∀ feed after through,
      CountedStream (·.id) (windowQs account feed after through).rows (feed.accountId = account)
        (countItemsInWindow account feed after through)
        (iterItemsInWindow account feed after through size) ∧
      CountedStream id (windowQs account feed after through).ids (feed.accountId = account)
        (countItemsInWindow account feed after through)
        (iterItemIdsInWindow account feed after through size)) ∧
    (∀ qs, Streams id (QuerySet.ids qs) (iterIdsKeyset qs size) ∧
      ∀ w, qs.count w = (qs.ids w).length) ∧
    (∀ candidateIds,
      Streams id (existingFeedItemIdsQs account candidateIds).ids
        (iterExistingFeedItemIds account candidateIds) ∧
      ∀ w, countExistingFeedItemIds account candidateIds w =
        ((existingFeedItemIdsQs account candidateIds).ids w).length) ∧
    ∀ feedIds since until_,
      CountedStream id (occurredQs account feedIds since until_).ids (since ≠ none ∨ until_ ≠ none)
        (countFeedItemsInOccurredWindow account feedIds since until_)
        (iterFeedItemsInOccurredWindow account feedIds since until_) :=
  ⟨fun _ _ _ => ⟨iterItemsInWindow_counted hs, iterItemIdsInWindow_counted hs⟩,
    fun qs => ⟨iterIdsKeyset_streams hs qs, fun _ => (List.length_map _).symm⟩,
    fun _ => ⟨iterIdsKeyset_streams (by decide) _, fun _ => (List.length_map _).symm⟩,
    fun _ _ _ => iterFeedItemsInOccurredWindow_counted⟩

/-- An item of feed 7. -/
def feedSeven (id : Id) : FeedItem := { id := id, accountId := 1, feedId := 7 }

theorem nodup_feedSeven : ([feedSeven 2, feedSeven 1].map (·.id)).Nodup := by decide

theorem nodup_feedSeven_arrived : ([feedSeven 2, feedSeven 1, feedSeven 5].map (·.id)).Nodup := by
  decide

/-- Two items, and a third from the second page on. -/
def arriving : ℕ → ItemLog
  | 0 => ⟨{ items := [feedSeven 2, feedSeven 1] }, nodup_feedSeven⟩
  | _ + 1 => ⟨{ items := [feedSeven 2, feedSeven 1, feedSeven 5] }, nodup_feedSeven_arrived⟩

/-- Pages of one id: an item that is there at every page is yielded once; the one that arrives after the
first page is yielded too. -/
theorem iterators_counted_sample :
    (iterIdsKeyset (fun _ i => decide (i.feedId = 7)) 1 (fun k => (arriving k).toWorld) 3).yielded =
        [1, 2, 5] ∧
      ∃ n, ∀ m, n ≤ m → ((iterIdsKeyset (fun _ i => decide (i.feedId = 7)) 1
        (fun k => (arriving k).toWorld) m).yielded.map id).count 2 = 1 := by
  have hstreams : Streams id (QuerySet.ids fun _ i => decide (i.feedId = 7))
      (iterIdsKeyset (fun _ i => decide (i.feedId = 7)) 1) :=
    ((iterators_counted 1 Nat.one_pos).2.1 _).1
  refine ⟨by decide, hstreams.once arriving 2 fun k _ => ?_⟩
  cases k with
  | zero => decide
  | succ k => exact List.mem_cons_self

end OpenMagpie
