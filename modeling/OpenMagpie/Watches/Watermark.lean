import Mathlib.Algebra.Group.Nat.Defs
import OpenMagpie.Watches.Rows

/-!
# Watermarks

A trigger pass enqueues before it advances the watermark, and scans up to a bound that it read
first. Ids order the items by their arrival except within a millisecond, so a watermark covers what
was visible at its bound as long as no item arrives below a bound already read.

* `InsertsAbove`: no item arrives at or below a bound that a pass has read for its feed.
* `Mark`: no item can arrive at or below an id any more, and every item there has its run;
  `Mark.grow`: steps keep marks.
* `Trigger.Ok`: the marks that a pass holds; **`Trigger.Step.ok`**.
* **`scanned_enqueued`**: every item that was visible when a finished scan read its bound has exactly
  one run of the head, and no watermark is past an item without one.
* **`item_missed`**: an item that arrives after the bound is read waits for the next pass; one that
  arrives below it is never enqueued.
-/

set_option autoImplicit false

namespace OpenMagpie

open WatchActionRunState Interleave

variable {C : Type} {S : Settings} {E : Executors} {R : Registry C} {on : Component → Prop}

/-! ## What grows -/

/-- Everything but edits and deletes. -/
def NoLoss (k : Component) : Prop := k ≠ .edit ∧ k ≠ .pruneItems ∧ k ≠ .deleteRuns

instance : DecidablePred NoLoss := fun _ => by unfold NoLoss; infer_instance

/-- No item arrives at or below a bound that a pass has read for its feed. -/
def InsertsAbove : StepCond World Thread := fun c _ w _ =>
  ∀ i ∈ w.items, i ∉ c.shared.items →
    ∀ b, .bounded i.accountId i.feedId b ∈ c.shared.log → b < i.id

/-- The columns of a subscription that no pass writes. -/
def WatchFeed.subscription (f : WatchFeed) : Id × Id × Id × Id :=
  (f.id, f.accountId, f.watchId, f.feedId)

/-- What a step leaves in place. -/
structure Grows (w w' : World) : Prop where
  watches : w'.watches = w.watches
  actions : w'.actions = w.actions
  subscriptions : w'.watchFeeds.map WatchFeed.subscription =
    w.watchFeeds.map WatchFeed.subscription
  runs : w.runs.map WatchActionRun.key ⊆ w'.runs.map WatchActionRun.key
  log : w.log ⊆ w'.log
  items : w.items ⊆ w'.items
  above : ∀ i ∈ w'.items, i ∉ w.items → ∀ b, .bounded i.accountId i.feedId b ∈ w.log → b < i.id

/-- What no pass but an edit writes: the watches, the actions and the subscriptions' columns. -/
structure Configured (w w' : World) : Prop where
  watches : w'.watches = w.watches
  actions : w'.actions = w.actions
  subscriptions : w'.watchFeeds.map WatchFeed.subscription =
    w.watchFeeds.map WatchFeed.subscription

/-- **Only edits write the configuration.** -/
theorem System.configured {on : Component → Prop} {t t' : Thread} {w w' : World} (he : ¬ on .edit)
    (h : System S E R on t w w' t') : Configured w w' := by
  cases h with
  | drain _ h =>
    cases h with
    | @commit w w' h action succ res d mint hwin hm hb hadv =>
      have hf := (advanced_of_enqueueNextBatch hadv).frame
      exact ⟨by rw [hf], by rw [hf], by rw [hf]⟩
    | _ => exact ⟨rfl, rfl, rfl⟩
  | reap _ h => cases h <;> exact ⟨rfl, rfl, rfl⟩
  | flush _ h =>
    cases h with
    | check => exact ⟨by split_ifs <;> rfl, by split_ifs <;> rfl, by split_ifs <;> rfl⟩
    | @commit w w' s x succ mint locked drained hm hb hadv =>
      have hf := (advanced_of_enqueueNextBatch hadv).frame
      exact ⟨by rw [Slice.close, hf]; rfl, by rw [Slice.close, hf]; rfl,
        by rw [Slice.close, hf]; rfl⟩
    | _ => exact ⟨rfl, rfl, rfl⟩
  | trigger _ h =>
    cases h with
    | advance => exact ⟨rfl, rfl, Table.map_update _ fun _ _ => rfl⟩
    | _ => exact ⟨rfl, rfl, rfl⟩
  | edit hon _ => exact absurd hon he
  | env hon h => cases h <;> exact ⟨rfl, rfl, rfl⟩

/-- **Without edits and deletes, the store grows.** -/
theorem System.grows {t t' : Thread} {w w' : World} (h : System S E R NoLoss t w w' t')
    (hi : ∀ i ∈ w'.items, i ∉ w.items → ∀ b, .bounded i.accountId i.feedId b ∈ w.log → b < i.id) :
    Grows w w' := by
  have hruns := h.runKeys fun hon => hon.2.2 rfl
  have hconf := h.configured fun hon => hon.1 rfl
  have same (hl : w.log ⊆ w'.log) (hitems : w.items ⊆ w'.items) : Grows w w' :=
    ⟨hconf.watches, hconf.actions, hconf.subscriptions, hruns, hl, hitems, hi⟩
  cases h with
  | drain _ h =>
    cases h with
    | claim => exact same (List.subset_cons_self _ _) fun _ h => h
    | @commit w w' h action succ res d mint hwin hm hb hadv =>
      have hf := (advanced_of_enqueueNextBatch hadv).frame
      exact same (by rw [hf]; exact List.subset_cons_self _ _) (by rw [hf]; exact fun _ h => h)
    | _ => exact same (fun _ h => h) fun _ h => h
  | reap _ h => cases h <;> exact same (fun _ h => h) fun _ h => h
  | flush _ h =>
    cases h with
    | check =>
      exact same (by split_ifs <;> exact fun _ h => h) (by split_ifs <;> exact fun _ h => h)
    | @commit w w' s x succ mint locked drained hm hb hadv =>
      have hf := (advanced_of_enqueueNextBatch hadv).frame
      exact same (by rw [Slice.close, hf]; exact fun _ h => h)
        (by rw [Slice.close, hf]; exact fun _ h => h)
    | _ => exact same (fun _ h => h) fun _ h => h
  | trigger _ h =>
    cases h with
    | atHead =>
      exact same (fun _ h => List.mem_cons_of_mem _ (List.mem_cons_of_mem _ h)) fun _ h => h
    | bound | advance => exact same (List.subset_cons_self _ _) fun _ h => h
    | _ => exact same (fun _ h => h) fun _ h => h
  | edit hon _ => exact absurd rfl hon.1
  | env hon h =>
    cases h with
    | recordItems => exact same (fun _ h => h) (List.subset_append_left _ _)
    | pruneItems => exact absurd rfl hon.2.1
    | deleteRuns => exact absurd rfl hon.2.2
    | _ => exact same (fun _ h => h) fun _ h => h

/-! ## Marks -/

/-- The run of a head for an item is stored. -/
def HasRun (w : World) (watch : Watch) (head : WatchAction) (i : Id) : Prop :=
  (watch.accountId, watch.id, head.id, i) ∈ w.runs.map WatchActionRun.key

/-- A bound at or above `c` has been read for the feed, and every item of the feed at or below `c`
has its run, or is one of `rest`. -/
structure Mark (w : World) (watch : Watch) (head : WatchAction) (feed : Id) (rest : List Id)
    (c : Id) : Prop where
  bound : ∃ b, .bounded watch.accountId feed b ∈ w.log ∧ c ≤ b
  runs : ∀ i ∈ feedItemIds watch.accountId feed w.items, i ≤ c → HasRun w watch head i ∨ i ∈ rest

variable {w w' : World} {watch : Watch} {head : WatchAction} {feed c : Id} {rest : List Id}

theorem Grows.hasRun (hg : Grows w w') {i : Id} (h : HasRun w watch head i) :
    HasRun w' watch head i :=
  hg.runs h

/-- An item of the grown feed is old, or above the bounds read before. -/
theorem Grows.feedItemIds (hg : Grows w w') {account i : Id}
    (hi : i ∈ feedItemIds account feed w'.items) :
    i ∈ OpenMagpie.feedItemIds account feed w.items ∨
      ∀ b, .bounded account feed b ∈ w.log → b < i := by
  obtain ⟨x, hx, rfl, rfl, rfl⟩ := mem_feedItemIds.mp hi
  by_cases hold : x ∈ w.items
  · exact .inl (mem_feedItemIds.mpr ⟨x, hold, rfl, rfl, rfl⟩)
  · exact .inr (hg.above x hx hold)

/-- **Marks stay.** -/
theorem Mark.grow (h : Mark w watch head feed rest c) (hg : Grows w w') :
    Mark w' watch head feed rest c := by
  obtain ⟨b, hb, hcb⟩ := h.bound
  refine ⟨⟨b, hg.log hb, hcb⟩, fun i hi hic => ?_⟩
  rcases hg.feedItemIds hi with hold | habove
  · exact (h.runs i hold hic).imp_left hg.hasRun
  · exact absurd (habove b hb) (Nat.not_lt.mpr (hic.trans hcb))

theorem Mark.hasRun (h : Mark w watch head feed [] c) {i : Id}
    (hi : i ∈ feedItemIds watch.accountId feed w.items) (hic : i ≤ c) : HasRun w watch head i :=
  (h.runs i hi hic).resolve_right List.not_mem_nil

/-! ## What a pass holds -/

/-- The pass has loaded a stored watch and the head of its chain. -/
structure Pass.Ok (p : Pass) (w : World) : Prop where
  watch : p.watch ∈ w.watches
  head : (listForPath p.watch.accountId p.watch.initialPathId w.actions).head? = some p.head

/-- A subscription of the pass's watch, whose watermark is a mark. -/
structure Pass.Holds (p : Pass) (w : World) (f : WatchFeed) : Prop where
  stored : f.subscription ∈ w.watchFeeds.map WatchFeed.subscription
  account : f.accountId = p.watch.accountId
  watch : f.watchId = p.watch.id
  mark : ∀ c ∈ f.lastItemId, Mark w p.watch p.head f.feedId [] c

/-- What a scan knows: its bound was read, and the items visible then are still there. -/
structure Scan.Ok (s : Scan) (w : World) : Prop where
  pass : s.pass.Ok w
  rest : ∀ f ∈ s.rest, s.pass.Holds w f
  feed : s.pass.Holds w s.watchFeed
  bound : .bounded s.pass.watch.accountId s.watchFeed.feedId s.through ∈ w.log
  visible : ∀ i ∈ s.visible,
    i ∈ feedItemIds s.pass.watch.accountId s.watchFeed.feedId w.items ∧ i ≤ s.through

/-- The mark of a scan at `c`. -/
abbrev Scan.Marks (s : Scan) (w : World) (rest : List Id) (c : Id) : Prop :=
  Mark w s.pass.watch s.pass.head s.watchFeed.feedId rest c

/-- What a trigger pass knows at each program point: everything up to its cursor has its run, up to
the end of its page has its run or is in the page, and after the scan everything up to the bound. -/
def Trigger.Ok (w : World) : Trigger → Prop
  | .idle => True
  | .started _ watch => watch ∈ w.watches
  | .loaded p => p.Ok w
  | .cycle p _ feeds => p.Ok w ∧ ∀ f ∈ feeds, p.Holds w f
  | .bounded s => s.Ok w
  | .scanning s _ cursor => s.Ok w ∧ ∀ c ∈ cursor, s.Marks w [] c
  | .paged s _ page => s.Ok w ∧ ∀ c, (c ∈ page.getLast? ∨ page.length < pageSize ∧ c = s.through) →
      s.Marks w page c
  | .scanned s => s.Ok w ∧ s.Marks w [] s.through

theorem Pass.Ok.grow {p : Pass} (h : p.Ok w) (hg : Grows w w') : p.Ok w' :=
  ⟨hg.watches ▸ h.watch, hg.actions ▸ h.head⟩

theorem Pass.Holds.grow {p : Pass} {f : WatchFeed} (h : p.Holds w f) (hg : Grows w w') :
    p.Holds w' f :=
  ⟨hg.subscriptions ▸ h.stored, h.account, h.watch, fun c hc => (h.mark c hc).grow hg⟩

theorem Scan.Ok.grow {s : Scan} (h : s.Ok w) (hg : Grows w w') : s.Ok w' where
  pass := h.pass.grow hg
  rest f hf := (h.rest f hf).grow hg
  feed := h.feed.grow hg
  bound := hg.log h.bound
  visible i hi := by
    obtain ⟨hm, hle⟩ := h.visible i hi
    obtain ⟨x, hx, he⟩ := mem_feedItemIds.mp hm
    exact ⟨mem_feedItemIds.mpr ⟨x, hg.items hx, he⟩, hle⟩

theorem Trigger.Ok.grow {t : Trigger} (h : t.Ok w) (hg : Grows w w') : t.Ok w' := by
  cases t with
  | idle => trivial
  | started now watch =>
    show watch ∈ w'.watches
    rw [hg.watches]
    exact h
  | loaded p => exact Pass.Ok.grow h hg
  | cycle p sched feeds => exact ⟨h.1.grow hg, fun f hf => (h.2 f hf).grow hg⟩
  | bounded s => exact Scan.Ok.grow h hg
  | scanning s t cursor => exact ⟨h.1.grow hg, fun c hc => (h.2 c hc).grow hg⟩
  | paged s t page => exact ⟨h.1.grow hg, fun c hc => (h.2 c hc).grow hg⟩
  | scanned s => exact ⟨h.1.grow hg, h.2.grow hg⟩

/-! ## The store -/

/-- The subscription belongs to the watch, whose chain starts with `head`. -/
structure Subscribed (w : World) (f : WatchFeed) (watch : Watch) (head : WatchAction) : Prop where
  stored : watch ∈ w.watches
  account : f.accountId = watch.accountId
  id : f.watchId = watch.id
  head : (listForPath watch.accountId watch.initialPathId w.actions).head? = some head

/-- Every stored watermark is a mark, and the items that a finished scan saw have their runs. -/
structure WatermarksOk (w : World) : Prop where
  watches : (w.watches.map (·.id)).Nodup
  watchFeeds : (w.watchFeeds.map (·.id)).Nodup
  marks : ∀ f ∈ w.watchFeeds, ∀ watch head, Subscribed w f watch head → ∀ c ∈ f.lastItemId,
    Mark w watch head f.feedId [] c
  scanned : ∀ id visible, .scanned id visible ∈ w.log → ∀ f ∈ w.watchFeeds, f.id = id →
    ∀ watch head, Subscribed w f watch head → ∀ i ∈ visible, HasRun w watch head i

/-! ## A page of a scan -/

/-- Up to its last element, a prefix of an ascending list has everything. -/
theorem mem_take_of_le_getLast {l : List Id} (hs : l.Pairwise (· ≤ ·)) {n : ℕ} {i c : Id}
    (hi : i ∈ l) (hc : c ∈ (l.take n).getLast?) (hic : i ≤ c) : i ∈ l.take n := by
  rw [← List.take_append_drop n l, List.mem_append] at hi
  rcases hi with hi | hi
  · exact hi
  · have hcm := List.mem_of_mem_getLast? hc
    have hci : c ≤ i := by
      rw [← List.take_append_drop n l, List.pairwise_append] at hs
      exact hs.2.2 c hcm i hi
    rwa [le_antisymm hic hci]

variable {s : Scan} {cursor : Option Id}

theorem Scan.mem_page {i : Id} (hi : i ∈ s.page cursor w.items) :
    InWindow cursor s.through i :=
  (mem_itemIdsInWindow.mp (List.mem_of_mem_take hi)).2

/-- Up to the end of its page, or up to the bound if the page is the last, every item has its run
or is in the page. -/
theorem Scan.marks_page (hs : s.Ok w) (hm : ∀ c ∈ cursor, s.Marks w [] c) {c : Id}
    (hc : c ∈ (s.page cursor w.items).getLast? ∨
      (s.page cursor w.items).length < pageSize ∧ c = s.through) :
    s.Marks w (s.page cursor w.items) c := by
  have hle : c ≤ s.through := by
    rcases hc with hc | ⟨-, rfl⟩
    · exact (Scan.mem_page (List.mem_of_mem_getLast? hc)).2
    · exact le_rfl
  refine ⟨⟨s.through, hs.bound, hle⟩, fun i hi hic => ?_⟩
  by_cases hcur : ∃ a ∈ cursor, i ≤ a
  · obtain ⟨a, ha, hia⟩ := hcur
    exact .inl ((hm a ha).hasRun hi hia)
  · -- past the cursor, so in the window that the page is the front of
    have hin : InWindow cursor s.through i :=
      ⟨fun a ha => Nat.lt_of_not_le fun h => hcur ⟨a, ha, h⟩, hic.trans hle⟩
    have hmem := mem_itemIdsInWindow.mpr ⟨hi, hin⟩
    refine .inr ?_
    rcases hc with hc | ⟨hlen, -⟩
    · exact mem_take_of_le_getLast (List.pairwise_insertionSort _ _) hmem hc hic
    · rw [Scan.page, List.length_take, min_lt_iff] at hlen
      rw [Scan.page, List.take_of_length_le (by omega)]
      exact hmem

/-- **What a trigger step leaves known.** -/
theorem Trigger.Step.ok {t t' : Trigger} (h : Trigger.Step R t w w' t') (hw : WatermarksOk w)
    (ht : t.Ok w) (hg : Grows w w') : t'.Ok w' := by
  cases h with
  | start hm => exact hm
  | head hh hi => exact ⟨ht, hh⟩
  | @feeds w p =>
    refine ⟨ht, fun f hf => ?_⟩
    rw [watchFeedsOf, List.mem_insertionSort, List.mem_filter, decide_eq_true_iff] at hf
    obtain ⟨hm, ha, hi⟩ := hf
    exact ⟨List.mem_map_of_mem hm, ha, hi, hw.marks f hm _ _ ⟨ht.watch, ha, hi, ht.head⟩⟩
  | missing | emptyFeed => exact ⟨ht.1, fun f hf => ht.2 f (List.mem_cons_of_mem _ hf)⟩
  | atHead =>
    exact ⟨ht.1.grow hg, fun f hf => (ht.2 f (List.mem_cons_of_mem _ hf)).grow hg⟩
  | bound hn hl =>
    exact ⟨ht.1.grow hg, fun f hf => (ht.2 f (List.mem_cons_of_mem _ hf)).grow hg,
      (ht.2 _ List.mem_cons_self).grow hg, List.mem_cons_self,
      fun i hi => ⟨hi, le_newestItemId hn hi⟩⟩
  | openWindow =>
    have hs := Scan.Ok.grow ht hg
    exact ⟨⟨hs.pass, hs.rest, hs.feed, hs.bound, hs.visible⟩, hs.feed.mark⟩
  | joinWindow | instant => exact ⟨ht, ht.feed.mark⟩
  | page hp => exact ⟨ht.1, fun c hc => Scan.marks_page ht.1 ht.2 hc⟩
  | @lastPage w s t cursor hp =>
    refine ⟨ht.1, ?_⟩
    have hm := Scan.marks_page ht.1 ht.2 (c := s.through) (.inr ⟨by rw [hp]; decide, rfl⟩)
    rwa [hp] at hm
  | @chunk w s t page mint runs' n hm hc =>
    have done (c : Id) (hp : c ∈ page.getLast? ∨ page.length < pageSize ∧ c = s.through) :
        s.Marks { w with runs := runs' } [] c := by
      have hk := (ht.2 c hp).grow hg
      refine ⟨hk.bound, fun i hi hic => .inl ?_⟩
      rcases hk.runs i hi hic with hrun | hpage
      · exact hrun
      · exact (enqueueChunk_inserted hc).all _ (List.mem_map_of_mem hpage)
    split_ifs with hlen
    · exact ⟨ht.1.grow hg, done s.through (.inr ⟨hlen, rfl⟩)⟩
    · exact ⟨ht.1.grow hg, fun c hl => done c (.inl hl)⟩
  | advance =>
    exact ⟨ht.1.pass.grow hg, fun f hf => (ht.1.rest f hf).grow hg⟩
  | done => trivial
  | crash => trivial

/-! ## The store after a step -/

theorem WatermarksOk.eq_of_held (h : WatermarksOk w) {p : Pass} {f g : WatchFeed} (hp : p.Ok w)
    (hf : p.Holds w f) (hgm : g.subscription ∈ w.watchFeeds.map WatchFeed.subscription)
    (hid : g.id = f.id) (hs : Subscribed w g watch head) :
    watch = p.watch ∧ head = p.head ∧ g.feedId = f.feedId := by
  obtain ⟨x, hx, hxe⟩ := List.mem_map.mp hf.stored
  obtain ⟨y, hy, hye⟩ := List.mem_map.mp hgm
  simp only [WatchFeed.subscription, Prod.mk.injEq] at hxe hye
  obtain rfl : x = y := Table.eq_of_key h.watchFeeds hx hy
    (show x.id = y.id by rw [hxe.1, hye.1, hid])
  obtain rfl : watch = p.watch := Table.eq_of_key h.watches hs.stored hp.watch
    (show watch.id = p.watch.id by rw [← hs.id, ← hf.watch, ← hye.2.2.1, hxe.2.2.1])
  refine ⟨rfl, Option.some.inj (hs.head.symm.trans hp.head), ?_⟩
  rw [← hye.2.2.2, hxe.2.2.2]

theorem Subscribed.of_subscription {f g : WatchFeed} (h : Subscribed w f watch head)
    (he : g.subscription = f.subscription) : Subscribed w g watch head := by
  simp only [WatchFeed.subscription, Prod.mk.injEq] at he
  exact ⟨h.stored, he.2.1.trans h.account, he.2.2.1.trans h.id, h.head⟩

/-- A grown store whose new watermarks are marks, and whose newly finished scans left no item
without its run. -/
theorem WatermarksOk.of_grows (h : WatermarksOk w) (hg : Grows w w')
    (hmarks : ∀ f ∈ w'.watchFeeds, f ∉ w.watchFeeds → ∀ watch head, Subscribed w f watch head →
      ∀ c ∈ f.lastItemId, Mark w' watch head f.feedId [] c)
    (hscanned : ∀ id visible, .scanned id visible ∈ w'.log → .scanned id visible ∉ w.log →
      ∀ f ∈ w'.watchFeeds, f.id = id → ∀ watch head, Subscribed w f watch head →
        ∀ i ∈ visible, HasRun w' watch head i) : WatermarksOk w' := by
  have old {f : WatchFeed} {watch : Watch} {head : WatchAction}
      (hs : Subscribed w' f watch head) : Subscribed w f watch head :=
    ⟨hg.watches ▸ hs.stored, hs.account, hs.id, hg.actions ▸ hs.head⟩
  refine ⟨hg.watches ▸ h.watches, ?_, fun f hf watch head hs c hc => ?_,
    fun id visible he f hf hid watch head hs i hi => ?_⟩
  · have hids : w'.watchFeeds.map (·.id) = w.watchFeeds.map (·.id) := by
      have := congrArg (List.map Prod.fst) hg.subscriptions
      rwa [List.map_map, List.map_map] at this
    rw [hids]
    exact h.watchFeeds
  · by_cases hold : f ∈ w.watchFeeds
    · exact (h.marks f hold watch head (old hs) c hc).grow hg
    · exact hmarks f hf hold watch head (old hs) c hc
  · by_cases hold : .scanned id visible ∈ w.log
    · obtain ⟨g, hgm, hge⟩ := List.mem_map.mp (hg.subscriptions ▸ List.mem_map_of_mem hf)
      have hgid : g.id = id := (congrArg Prod.fst hge).trans hid
      exact hg.hasRun (h.scanned id visible hold g hgm hgid watch head
        ((old hs).of_subscription hge) i hi)
    · exact hscanned id visible he hold f hf hid watch head (old hs) i hi

/-- **The store after a step.** -/
theorem WatermarksOk.step {t t' : Thread} (h : WatermarksOk w) (hs : System S E R NoLoss t w w' t')
    (hg : Grows w w') (ht : ∀ u, t = .trigger u → u.Ok w) : WatermarksOk w' := by
  have same (hf : w'.watchFeeds = w.watchFeeds)
      (hl : ∀ id visible, .scanned id visible ∈ w'.log → .scanned id visible ∈ w.log) :
      WatermarksOk w' :=
    h.of_grows hg (fun f hf' hno => absurd (hf ▸ hf') hno)
      fun id visible he hno => absurd (hl id visible he) hno
  cases hs with
  | drain _ h =>
    cases h with
    | claim => exact same rfl fun id v he => by simpa using he
    | @commit w w' h action succ res d mint hwin hm hb hadv =>
      have hf := (advanced_of_enqueueNextBatch hadv).frame
      exact same (by rw [hf]) fun id v he => by
        rw [hf] at he
        simpa using he
    | _ => exact same rfl fun _ _ h => h
  | reap _ h => cases h <;> exact same rfl fun _ _ h => h
  | flush _ h =>
    cases h with
    | check => exact same (by split_ifs <;> rfl) fun id v he => by split_ifs at he <;> exact he
    | @commit w w' s x succ mint locked drained hm hb hadv =>
      have hf := (advanced_of_enqueueNextBatch hadv).frame
      exact same (by rw [Slice.close, hf]; rfl) fun id v he => by
        rw [Slice.close, hf] at he
        exact he
    | _ => exact same rfl fun _ _ h => h
  | trigger _ hstep =>
    have hok := ht _ rfl
    cases hstep with
    | @atHead w p sched f rest through hn hl =>
      refine h.of_grows hg (fun f hf hno => absurd hf hno) fun id visible he hno g hgm hid watch
        head hsub i hi => ?_
      obtain ⟨rfl, rfl⟩ : id = f.id ∧ visible = feedItemIds p.watch.accountId f.feedId w.items := by
        simpa [hno] using he
      have hheld := hok.2 f List.mem_cons_self
      obtain ⟨rfl, rfl, -⟩ := h.eq_of_held hok.1 hheld (List.mem_map_of_mem hgm) hid hsub
      exact hg.hasRun ((hheld.mark through hl).hasRun hi (le_newestItemId hn hi))
    | bound => exact same rfl fun id v he => by simpa using he
    | @advance w s =>
      have hmark := hok.2.grow hg
      refine h.of_grows hg (fun f hf hno watch head hsub c hc => ?_) fun id visible he hno g hgm hid
        watch head hsub i hi => ?_
      · obtain ⟨g, hgm, rfl⟩ := Table.mem_update.mp hf
        split_ifs at hno hsub hc ⊢ with hgid
        · obtain rfl := Option.some.inj hc
          obtain ⟨rfl, rfl, he⟩ := h.eq_of_held hok.1.pass hok.1.feed (List.mem_map_of_mem hgm)
            (of_decide_eq_true hgid) (hsub.of_subscription (g := g) rfl)
          exact he ▸ hmark
        · exact absurd hgm hno
      · obtain ⟨rfl, rfl⟩ : id = s.watchFeed.id ∧ visible = s.visible := by
          simpa [hno] using he
        obtain ⟨g', hgm', hge⟩ := List.mem_map.mp (hg.subscriptions ▸ List.mem_map_of_mem hgm)
        obtain ⟨rfl, rfl, -⟩ := h.eq_of_held hok.1.pass hok.1.feed
          (hge ▸ List.mem_map_of_mem hgm') hid hsub
        obtain ⟨hmem, hle⟩ := hok.1.visible i hi
        exact hg.hasRun (hok.2.hasRun hmem hle)
    | _ => exact same rfl fun _ _ h => h
  | edit hon _ => exact absurd rfl hon.1
  | env hon h => cases h <;> exact same rfl fun _ _ h => h

/-! ## Every run -/

/-- What a trigger thread knows. -/
def Thread.TriggerOk (w : World) (t : Thread) : Prop := ∀ u, t = .trigger u → u.Ok w

/-- A store whose runs and watermarks are in order. -/
structure WatermarkStore (w : World) : Prop where
  runs : RunsOk w.runs
  marks : WatermarksOk w

theorem reach_watermarksOk {c : Conf World Thread}
    (h : ReachIn (System S E R NoLoss) (Init WatermarkStore) InsertsAbove c) :
    WatermarksOk c.shared ∧ ∀ p, (c.thread p).TriggerOk c.shared := by
  refine h.each (G := WatermarksOk) (L := fun w t => t.TriggerOk w) ?_ ?_ ?_
  · rintro c ⟨hw, hidle⟩
    refine ⟨hw.marks, fun p u hu => ?_⟩
    have hp := hidle p
    rw [hu] at hp
    obtain rfl : u = .idle := hp
    trivial
  · intro c p w t hG hL hs hi
    have hg := hs.grows hi
    refine ⟨hG.step hs hg (hL p), fun u hu => ?_⟩
    subst hu
    generalize hp : c.thread p = tp at hs
    cases hs with
    | trigger _ hstep => exact hstep.ok hG (hL p _ hp) hg
  · intro c p q w t _ hL hs hi _ u hu
    exact (hL q u hu).grow (hs.grows hi)

/-- **What the trigger enqueues.** In every run in which no item arrives at or below a bound already
read: every item that was visible when a finished scan read its bound has exactly one run of the
head, and so has every item at or below the watermark. -/
theorem scanned_enqueued {c : Conf World Thread}
    (h : ReachIn (System S E R NoLoss) (Init WatermarkStore) InsertsAbove c) :
    ∀ f ∈ c.shared.watchFeeds, ∀ watch head, Subscribed c.shared f watch head →
      (∀ visible, .scanned f.id visible ∈ c.shared.log → ∀ i ∈ visible,
        ∃! r, r ∈ c.shared.runs ∧ r.key = (watch.accountId, watch.id, head.id, i)) ∧
      ∀ mark ∈ f.lastItemId, ∀ i ∈ feedItemIds watch.accountId f.feedId c.shared.items, i ≤ mark →
        ∃! r, r ∈ c.shared.runs ∧ r.key = (watch.accountId, watch.id, head.id, i) := by
  have hok := (reach_watermarksOk h).1
  have hruns := (reach_runsOk (fun _ hw => hw.runs) h).1
  have one {k : RunKey} (hk : k ∈ c.shared.runs.map WatchActionRun.key) :
      ∃! r, r ∈ c.shared.runs ∧ r.key = k := by
    obtain ⟨r, hr, rfl⟩ := List.mem_map.mp hk
    exact ⟨r, ⟨hr, rfl⟩, fun r' ⟨hr', hk'⟩ => hruns.keyUnique r' hr' r hr hk'⟩
  intro f hf watch head hs
  refine ⟨fun visible he i hi => one (hok.scanned f.id visible he f hf rfl watch head hs i hi),
    fun mark hmark i hi hle => one ((hok.marks f hf watch head hs mark hmark).hasRun hi hle)⟩

/-! ## Items that arrive late -/

/-- The millisecond of a ULID: its first 48 bits. -/
def ulidMs (i : Id) : ℕ := i / 2 ^ 80

/-- Items are inserted in the order of their milliseconds. -/
def InMsOrder : StepCond World Thread := fun _ _ w _ =>
  (w.items.map fun i => ulidMs i.id).Pairwise (· ≤ ·)

/-- Items of one millisecond are in order. -/
theorem InMsOrder.of_lt {c : Conf World Thread} {p : ℕ} {t : Thread}
    (h : ∀ i ∈ w.items, i.id < 2 ^ 80) : InMsOrder c p w t := by
  have hzero : ∀ i ∈ w.items, ulidMs i.id = 0 := fun i hi => Nat.div_eq_of_lt (h i hi)
  show (w.items.map fun i => ulidMs i.id).Pairwise (· ≤ ·)
  rw [List.pairwise_map]
  refine List.pairwise_of_forall_mem_list fun i hi j hj => ?_
  rw [hzero i hi, hzero j hj]

/-- The watch with an instant head, and one item in its feed. -/
def watchedInstant (n : Id) : World :=
  { watchedDigest with actions := [sampleAction 1 instantConfig 0], items := [sampleItem n] }

/-- A trigger pass of clock 0 that has loaded the instant head. -/
def instantPass : Pass := ⟨0, sampleWatch, sampleAction 1 instantConfig 0, none⟩

/-- The scan of feed 1 up to its one item. -/
def instantScan (n : Id) : Scan := ⟨instantPass, none, [], sampleWatchFeed none, n, [n]⟩

/-- The store after the pass has read its bound, with the items `items`. -/
def boundLogged (n : Id) (items : List FeedItem) : World :=
  { watchedInstant n with items := items, log := [.bounded 1 1 n] }

/-- The store after the pass. -/
def passed (n : Id) (items : List FeedItem) : World :=
  { boundLogged n items with
    runs := [newRun (n + 10) 1 1 1 "log" n 0 none]
    watchFeeds := [sampleWatchFeed (some n)]
    log := [.scanned 1 [n], .bounded 1 1 n] }

/-- A trigger pass, and what happens around it. -/
def triggerOnly : ℕ → Thread
  | 0 => .trigger .idle
  | _ => .env

theorem init_triggerOnly (n : Id) : Init WatermarkStore ⟨watchedInstant n, triggerOnly⟩ := by
  refine ⟨⟨.nil, List.nodup_singleton _, List.nodup_singleton _, fun f hf _ _ _ c hc => ?_,
    fun _ _ h => absurd h List.not_mem_nil⟩, fun p => ?_⟩
  · obtain rfl := List.mem_singleton.mp hf
    cases hc
  · match p with
    | 0 => rfl
    | _ + 1 => trivial

section Late

variable {n : Id} {ok : StepCond World Thread}

variable (ok) in
/-- The pass has read its page. -/
theorem reach_paged (hp : (instantScan n).page none [sampleItem n] = [n])
    (hok : ∀ c p w t, c.shared.items = w.items → w.items = [sampleItem n] → ok c p w t) :
    ReachIn (SampleSystem NoLoss) (Init WatermarkStore) ok
      (Conf.set ⟨watchedInstant n, triggerOnly⟩ 0 (boundLogged n [sampleItem n])
        (.trigger (.paged (instantScan n) 0 [n]))) := by
  have hstart : Trigger.Step sampleRegistry .idle (watchedInstant n) (watchedInstant n)
      (.started 0 sampleWatch) := .start List.mem_cons_self
  have hhead : Trigger.Step sampleRegistry (.started 0 sampleWatch) (watchedInstant n)
      (watchedInstant n) (.loaded instantPass) := .head rfl rfl
  have hbound : Trigger.Step sampleRegistry (.cycle instantPass none [sampleWatchFeed none])
      (watchedInstant n) (boundLogged n [sampleItem n]) (.bounded (instantScan n)) :=
    .bound rfl nofun
  have hpage : Trigger.Step sampleRegistry (.scanning (instantScan n) 0 none)
      (boundLogged n [sampleItem n]) (boundLogged n [sampleItem n])
      (.paged (instantScan n) 0 [n]) := by
    have h := Trigger.Step.page (R := sampleRegistry) (w := boundLogged n [sampleItem n])
      (s := instantScan n) (t := 0) (show (instantScan n).page none [sampleItem n] ≠ [] by simp [hp])
    rwa [show (boundLogged n [sampleItem n]).items = [sampleItem n] from rfl, hp] at h
  have h₀ : ReachIn (SampleSystem NoLoss) (Init WatermarkStore) ok ⟨watchedInstant n, triggerOnly⟩ :=
    .init (init_triggerOnly n)
  have h₁ := h₀.next 0 (.trigger (by decide) hstart) rfl rfl (hok _ _ _ _ rfl rfl)
  have h₂ := h₁.again (.trigger (by decide) hhead) (hok _ _ _ _ rfl rfl)
  have h₃ := h₂.again (.trigger (by decide) .feeds) (hok _ _ _ _ rfl rfl)
  have h₄ := h₃.again (.trigger (by decide) hbound) (hok _ _ _ _ rfl rfl)
  have h₅ := h₄.again (.trigger (by decide) (.instant rfl)) (hok _ _ _ _ rfl rfl)
  exact h₅.again (.trigger (by decide) hpage) (hok _ _ _ _ rfl rfl)

/-- The pass enqueues its page and finishes. -/
theorem reach_passed {c : Conf World Thread} {items : List FeedItem}
    (h : ReachIn (SampleSystem NoLoss) (Init WatermarkStore) ok c)
    (ht : c.thread 0 = .trigger (.paged (instantScan n) 0 [n]))
    (hc : c.shared = boundLogged n items)
    (hok : ∀ c p w t, c.shared.items = w.items → w.items = items → ok c p w t) :
    ReachIn (SampleSystem NoLoss) (Init WatermarkStore) ok
      (c.set 0 (passed n items) (.trigger .idle)) := by
  have hchunk : Trigger.Step sampleRegistry (.paged (instantScan n) 0 [n]) (boundLogged n items)
      { boundLogged n items with runs := [newRun (n + 10) 1 1 1 "log" n 0 none] }
      (.scanned (instantScan n)) := .chunk (.add (n := 10) fun _ h => absurd h List.not_mem_nil) rfl
  have hadvance : Trigger.Step sampleRegistry (.scanned (instantScan n))
      { boundLogged n items with runs := [newRun (n + 10) 1 1 1 "log" n 0 none] }
      (passed n items) (.cycle instantPass none []) :=
    .advance ⟨_, List.mem_singleton_self _, rfl⟩
  have h₁ := h.next 0 (.trigger (by decide) hchunk) ht hc (hok _ _ _ _ (by rw [hc]) rfl)
  have h₂ := h₁.again (.trigger (by decide) hadvance) (hok _ _ _ _ rfl rfl)
  exact h₂.again (.trigger (by decide) .done) (hok _ _ _ _ rfl rfl)

/-- An item of the same millisecond arrives after the pass has read its page. -/
theorem reach_late {m : Id} (hn : n < 2 ^ 80) (hm : m < 2 ^ 80) (hne : n ≠ m)
    (hp : (instantScan n).page none [sampleItem n] = [n]) :
    ∃ c, ReachIn (SampleSystem NoLoss) (Init WatermarkStore) InMsOrder c ∧
      c.shared = passed n [sampleItem n, sampleItem m] ∧ c.thread 0 = .trigger .idle ∧
      ∀ p, (c.thread p).Idle := by
  have hone : ∀ i ∈ [sampleItem n], i.id < 2 ^ 80 := List.forall_mem_singleton.mpr hn
  have htwo : ∀ i ∈ [sampleItem n, sampleItem m], i.id < 2 ^ 80 :=
    List.forall_mem_cons.mpr ⟨hn, List.forall_mem_singleton.mpr hm⟩
  have hrecord : Env.Step .recordItems (boundLogged n [sampleItem n])
      (boundLogged n [sampleItem n, sampleItem m]) :=
    .recordItems (List.nodup_singleton _) fun i hi j hj => by
      obtain rfl := List.mem_singleton.mp hi
      obtain rfl := List.mem_singleton.mp hj
      exact hne
  have hpaged := reach_paged InMsOrder hp fun _ _ _ _ _ hi => .of_lt (hi ▸ hone)
  have hlate := hpaged.next 1 (.env (k := .recordItems) (by decide) hrecord) rfl rfl
    (.of_lt htwo)
  refine ⟨_, reach_passed hlate rfl rfl fun _ _ _ _ _ hi => .of_lt (hi ▸ htwo), rfl, rfl,
    fun p => ?_⟩
  match p with
  | 0 => rfl
  | 1 => trivial
  | _ + 2 => trivial

end Late

/-- The pass enqueues the item that it saw. -/
theorem scanned_enqueued_sample : ∃! r, r ∈ (passed 1 [sampleItem 1]).runs ∧ r.key = (1, 1, 1, 1) := by
  have hpaged := reach_paged (n := 1) InsertsAbove rfl fun _ _ _ _ he _ i hi hno =>
    absurd (he ▸ hi) hno
  have hpassed := reach_passed hpaged rfl rfl fun _ _ _ _ he _ i hi hno => absurd (he ▸ hi) hno
  exact (scanned_enqueued hpassed (sampleWatchFeed (some 1)) List.mem_cons_self sampleWatch
    (sampleAction 1 instantConfig 0) ⟨List.mem_cons_self, rfl, rfl, rfl⟩).1 [1] List.mem_cons_self 1
    List.mem_cons_self

/-- **Missed items.** Item 2 arrives while a pass is past reading its bound: the pass finishes without
it, and it waits above the watermark. Item 1 arrives there in the millisecond of item 2, below the
bound: the next pass finds the watermark at the newest item and finishes, and the watermark stays
past an item without a run. -/
theorem item_missed :
    (∃ c, ReachIn (SampleSystem NoLoss) (Init WatermarkStore) InMsOrder c ∧
      (∀ p, (c.thread p).Idle) ∧ .scanned 1 [1] ∈ c.shared.log ∧
      2 ∈ feedItemIds 1 1 c.shared.items ∧
      ∀ r ∈ c.shared.runs, r.key ≠ (1, 1, 1, 2)) ∧
    ∃ c, ReachIn (SampleSystem NoLoss) (Init WatermarkStore) InMsOrder c ∧
      (∀ p, (c.thread p).Idle) ∧ .scanned 1 [2, 1] ∈ c.shared.log ∧
      (∃ f ∈ c.shared.watchFeeds, f.lastItemId = some 2) ∧
      1 ∈ feedItemIds 1 1 c.shared.items ∧ ∀ r ∈ c.shared.runs, r.key ≠ (1, 1, 1, 1) := by
  constructor
  · obtain ⟨c, h, hc, -, hidle⟩ := reach_late (n := 1) (m := 2) (by decide) (by decide) (by decide) rfl
    refine ⟨c, h, hidle, ?_, ?_, ?_⟩ <;> rw [hc] <;> decide
  · obtain ⟨c, h, hc, ht, hidle⟩ := reach_late (n := 2) (m := 1) (by decide) (by decide) (by decide) rfl
    -- the next pass
    let store := passed 2 [sampleItem 2, sampleItem 1]
    let seen : World := { store with log := .scanned 1 [2, 1] :: .bounded 1 1 2 :: store.log }
    have hstart : Trigger.Step sampleRegistry .idle store store (.started 0 sampleWatch) :=
      .start List.mem_cons_self
    have hhead : Trigger.Step sampleRegistry (.started 0 sampleWatch) store store
        (.loaded instantPass) := .head rfl rfl
    have hhere : Trigger.Step sampleRegistry (.cycle instantPass none [sampleWatchFeed (some 2)])
        store seen (.cycle instantPass none []) := .atHead rfl rfl
    have hms (c : Conf World Thread) (p : ℕ) (w : World) (t : Thread)
        (hw : w.items = [sampleItem 2, sampleItem 1]) : InMsOrder c p w t :=
      .of_lt (by rw [hw]; decide)
    have h₁ := h.next 0 (.trigger (by decide) hstart) ht hc (hms _ _ _ _ rfl)
    have h₂ := h₁.again (.trigger (by decide) hhead) (hms _ _ _ _ rfl)
    have h₃ := h₂.again (.trigger (by decide) .feeds) (hms _ _ _ _ rfl)
    have h₄ := h₃.again (.trigger (by decide) hhere) (hms _ _ _ _ rfl)
    have h₅ := h₄.again (.trigger (by decide) .done) (hms _ _ _ _ rfl)
    have hitem : 1 ∈ feedItemIds 1 1 [sampleItem 2, sampleItem 1] := by decide
    have hrun : ∀ r ∈ [newRun 12 1 1 1 "log" 2 0 none], r.key ≠ (1, 1, 1, 1) := by decide
    refine ⟨_, h₅, fun p => ?_, List.mem_cons_self, ⟨_, List.mem_cons_self, rfl⟩, hitem, hrun⟩
    by_cases hp : p = 0
    · subst hp
      rw [Conf.thread_set_self]
      rfl
    · rw [Conf.thread_set_of_ne _ hp]
      exact hidle p

end OpenMagpie
