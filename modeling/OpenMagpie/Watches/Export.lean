import OpenMagpie.Lib.Pager
import OpenMagpie.Watches.Backfill
import OpenMagpie.Watches.RunWindows
import OpenMagpie.Watches.RunWire

/-!
# The export of an action's runs

The server lists the runs of an action newest first, page by page, and resolves the windows of every
request against its own clock. The client drains the pages with one cursor after the other, and sends
the windows as it was given them. No table changes while it does, and a response reaches the client as
the server built it.

* `listForAction`, `ActionRunsView.get`: the query of a page, and the request for it.
* `iterRecords`: the drain.
* `Exports`: the records are the ones of the runs that match, each at a request of its own.
* **`export_by_request`**: the records are exactly the ones of the runs that match when the request
  whose ids they are among is resolved; of absolute windows, when the first one is.
* **`iterRecords_done`**: an action whose runs fit is drained.
* **`window_moves`**: of a relative window, not when the first one is.
-/

set_option autoImplicit false

namespace OpenMagpie

open Python

/-! ## The query of a page -/

/-- The bounds as a query reads them. The times of the rows are counted as the instants are, in
microseconds. -/
def ResolvedWindows.toRunWindows (w : ResolvedWindows) : RunWindows where
  occurredSince := (w (.occurred, .sinceBound)).map DateTime.instant
  occurredUntil := (w (.occurred, .untilBound)).map DateTime.instant
  completedSince := (w (.completed, .sinceBound)).map DateTime.instant
  completedUntil := (w (.completed, .untilBound)).map DateTime.instant

/-- The filter of `list_for_action`; `_apply_run_windows` is its last two conditions. -/
def IsListed (account action : Id) (watchId : Option Id) (state : Option WatchActionRunState)
    (windows : RunWindows) (items : List FeedItem) (r : WatchActionRun) : Prop :=
  r.accountId = account ∧ r.actionId = action ∧ (∀ i ∈ watchId, r.watchId = i) ∧
    (∀ s ∈ state, r.state = s) ∧
    InBounds windows.completedSince windows.completedUntil r.completedAt ∧
    (windows.occurredSince = none ∧ windows.occurredUntil = none ∨
      r.feedItemId ∈ occurredWindowIds account windows items)

instance (account action : Id) (watchId : Option Id) (state : Option WatchActionRunState)
    (windows : RunWindows) (items : List FeedItem) (r : WatchActionRun) :
    Decidable (IsListed account action watchId state windows items r) := by
  unfold IsListed; infer_instance

/-- `list_for_action`. -/
def listForAction (account action : Id) (watchId after : Option Id) (limit : ℕ)
    (state : Option WatchActionRunState) (windows : RunWindows) (items : List FeedItem)
    (runs : List WatchActionRun) : List WatchActionRun :=
  ((runs.filter fun r => decide (IsListed account action watchId state windows items r) &&
    after.all fun c => decide (r.id < c)).insertionSort fun r r' => r'.id ≤ r.id).take limit

/-! ## The request -/

/-- What a run's item tells about its records: its feed, and its source time. -/
structure RunFeedItem where
  feedId : Id
  occurredAt : Option Time
  deriving DecidableEq

/-- A feed of the listed items, without its name. -/
structure RunFeed where
  id : Id
  deriving DecidableEq

/-- The answer to a list request; the items and the feeds of its rows are side tables. -/
structure RunListResponse where
  items : List WatchActionRunWire
  nextCursor : Option Id
  feedItems : List (Id × RunFeedItem)
  feeds : List (Id × RunFeed)

/-- Why a request fails: with a 404, with a 400 that names the windows, or with what a resolution
raises else. -/
inductive RunsError
  | notFound
  | windows (message : String)
  | raised (e : WindowError)

/-- The query parameters of a list request; the limit is none where it is no integer. -/
structure RunsQuery where
  state : Option WatchActionRunState
  after : Option Id
  limit : Option ℤ
  windows : RunWindowParam → Option String

/-- `DEFAULT_LIMIT`. -/
def defaultLimit : ℤ := 50

/-- `MAX_LIMIT`. -/
def maxLimit : ℤ := 200

/-- `parse_limit`. -/
def parseLimit (raw : Option ℤ) : ℕ :=
  (match raw with
    | none => defaultLimit
    | some n => max 1 (min maxLimit n)).toNat

/-- `RUN_WINDOW_PARAMS`. -/
def runWindowParams : List RunWindowParam :=
  [(.occurred, .sinceBound), (.occurred, .untilBound), (.completed, .sinceBound),
    (.completed, .untilBound)]

/-- The values that are set. -/
def rawWindows (windows : RunWindowParam → Option String) : List (RunWindowParam × Option String) :=
  runWindowParams.filterMap fun param =>
    ((windows param).filter (· ≠ "")).map fun value => (param, some value)

/-- The fields of an audit row that do not depend on its kind. -/
def WatchActionRunWire.fields : WatchActionRunWire → WatchActionRunFields
  | semanticFilter fields _ => fields
  | extract fields _ => fields
  | log fields _ => fields
  | webhook fields _ => fields
  | plugin fields _ _ => fields

variable (X : WindowReader) (V : LaxMode) (bases : List WindowBase) (account : Id) (w : World)

/-- `_parse_time_windows`. -/
def parseTimeWindows (now : DateTime) (windows : RunWindowParam → Option String) :
    Except RunsError ResolvedWindows :=
  match resolveRunWindows X bases now (rawWindows windows) with
  | .ok resolved => .ok resolved
  | .error (.valueError message) => .error (.windows message)
  | .error e => .error (.raised e)

/-- The items of a page, by id: `FeedItemService.get_many`. -/
def feedItemsOf (runs : List WatchActionRun) : List FeedItem :=
  w.items.filter fun i => decide (i.accountId = account) && decide (i.id ∈ runs.map (·.feedItemId))

/-- The feeds that back them: `FeedService.get_many`. -/
def feedsOf (items : List FeedItem) : List Feed :=
  w.feeds.filter fun f => decide (f.accountId = account) && decide (f.id ∈ items.map (·.feedId))

/-- The answer to a request for these rows; a row that does not render is dropped. -/
def runListResponse (limit : ℕ) (runs : List WatchActionRun) : RunListResponse where
  items := runs.filterMap (watchActionRunWire V)
  nextCursor := if runs.length = limit then runs.getLast?.map (·.id) else none
  feedItems := (feedItemsOf account w runs).map fun i => (i.id, ⟨i.feedId, i.occurredAt⟩)
  feeds := (feedsOf account w (feedItemsOf account w runs)).map fun f => (f.id, ⟨f.id⟩)

/-- `ActionRunsView.get`. -/
def ActionRunsView.get (now : DateTime) (actionId : Id) (q : RunsQuery) :
    Except RunsError RunListResponse :=
  match w.actions.find? fun a => decide (a.accountId = account) && decide (a.id = actionId) with
  | none => .error .notFound
  | some action => do
    let windows ← parseTimeWindows X bases now q.windows
    let limit := parseLimit q.limit
    return runListResponse V account w limit (listForAction account action.id none q.after limit
      q.state windows.toRunWindows w.items w.runs)

/-! ## The drain -/

/-- What an export is asked for. -/
structure ExportQuery where
  actionId : Id
  state : Option WatchActionRunState := none
  windows : RunWindowParam → Option String

/-- `_PAGE_LIMIT`. -/
def pageLimit : ℕ := 200

/-- `_MAX_PAGES`. -/
def maxPages : ℕ := 500

/-- How a drain ends: with a page that has no cursor, at the bound with a warning, or with a refused
request. -/
inductive DrainEnd
  | done
  | stopped
  | refused (e : RunsError)

/-- A run joined with its item and its feed. -/
structure RunRecord where
  run : WatchActionRunWire
  feedItem : Option RunFeedItem
  feed : Option RunFeed

/-- `_run_record`. -/
def runRecord (resp : RunListResponse) (run : WatchActionRunWire) : RunRecord :=
  let item := resp.feedItems.lookup run.fields.feedItemId
  ⟨run, item, item.bind fun i => resp.feeds.lookup i.feedId⟩

variable (now : ℕ → DateTime) (q : ExportQuery)

/-- The request for the page behind a cursor. -/
def ExportQuery.request (after : Option Id) : RunsQuery := ⟨q.state, after, some pageLimit, q.windows⟩

/-- The responses to at most `n` requests, the first of them the `k`-th of the drain. -/
def iterResponses : ℕ → ℕ → Option Id → List RunListResponse × DrainEnd
  | 0, _, _ => ([], .stopped)
  | n + 1, k, after =>
    match ActionRunsView.get X V bases account w (now k) q.actionId (q.request after) with
    | .error e => ([], .refused e)
    | .ok resp => match resp.nextCursor with
      | none => ([resp], .done)
      | some c =>
        let rest := iterResponses n (k + 1) (some c)
        (resp :: rest.1, rest.2)

/-- `_iter_records`: the pages of records. -/
def iterRecords : List (List RunRecord) × DrainEnd :=
  let drain := iterResponses X V bases account w now q maxPages 0 none
  (drain.1.map fun resp => resp.items.map (runRecord resp), drain.2)

/-- The cursors that the responses return. -/
def nextCursors : List Id :=
  (iterResponses X V bases account w now q maxPages 0 none).1.filterMap (·.nextCursor)

/-! ## What an export is -/

/-- The run matches the state, and the windows as they are resolved for the `k`-th request. -/
def matchesAt (k : ℕ) (r : WatchActionRun) : Bool :=
  match parseTimeWindows X bases (now k) q.windows with
  | .ok windows => decide (IsListed account q.actionId none q.state windows.toRunWindows w.items r)
  | .error _ => false

/-- The record of a run, if it renders. -/
def exportRecord (r : WatchActionRun) : Option RunRecord :=
  (watchActionRunWire V r).map fun run =>
    let item := w.items.find? fun i => decide (i.accountId = account) && decide (i.id = r.feedItemId)
    ⟨run, item.map fun i => ⟨i.feedId, i.occurredAt⟩, item.bind fun i =>
      (w.feeds.find? fun f => decide (f.accountId = account) && decide (f.id = i.feedId)).map
        fun f => ⟨f.id⟩⟩

/-- The records are exactly the ones of the renderable runs that match at a request of theirs, each
once, in strictly descending id order. -/
structure Exports (request : Id → ℕ) (records : List RunRecord) : Prop where
  mem_iff : ∀ x, x ∈ records ↔ ∃ r ∈ w.runs,
    matchesAt X bases account w now q (request r.id) r ∧ exportRecord V account w r = some x
  descending : (records.map (·.run.fields.id)).Pairwise (· > ·)

section Drain

variable {X V bases account w now q} {after : Option Id} {k n : ℕ} {r : WatchActionRun}
  {runs : List WatchActionRun} {resp : RunListResponse}

theorem not_relative_of_mem {windows : RunWindowParam → Option String}
    (h : ∀ param value, windows param = some value → ¬ IsRelative X value)
    {kv : RunWindowParam × Option String} (hkv : kv ∈ rawWindows windows) {value : String}
    (hvalue : kv.2 = some value) : ¬ IsRelative X value := by
  obtain ⟨param, -, hparam⟩ := List.mem_filterMap.mp hkv
  obtain ⟨value', hset, rfl⟩ := Option.map_eq_some_iff.mp hparam
  obtain rfl := Option.some.inj hvalue
  exact h param _ (Option.filter_eq_some_iff.mp hset).1

/-! ## The records of a page -/

theorem builtinRunWire_fields {kind : String} {fields : WatchActionRunFields} {result : Option Json}
    {x : WatchActionRunWire} (h : builtinRunWire V kind fields result = some x) : x.fields = fields := by
  unfold builtinRunWire at h
  split_ifs at h
  all_goals
    obtain ⟨y, -, rfl⟩ := Option.map_eq_some_iff.mp h
    rfl

theorem buildWatchActionRunWire_fields {kind : String} {fields : WatchActionRunFields}
    {result : Option Json} {x : WatchActionRunWire}
    (h : buildWatchActionRunWire V kind fields result = some x) : x.fields = fields := by
  rw [buildWatchActionRunWire, Option.orElse_eq_orElse, Option.orElse_eq_or,
    Option.or_eq_some_iff] at h
  rcases h with h | ⟨-, h⟩
  · exact builtinRunWire_fields h
  · unfold pluginRunWire at h
    split_ifs at h
    obtain ⟨y, -, rfl⟩ := Option.map_eq_some_iff.mp h
    rfl

/-- An audit row shows the columns of its run. -/
theorem watchActionRunWire_fields {x : WatchActionRunWire} (h : watchActionRunWire V r = some x) :
    x.fields = runFields r := by
  rw [watchActionRunWire, Option.orElse_eq_orElse, Option.orElse_eq_or, Option.or_eq_some_iff] at h
  rcases h with h | ⟨-, h⟩
  · exact buildWatchActionRunWire_fields h
  · exact buildWatchActionRunWire_fields h

/-- The id of a record is its run's. -/
theorem exportRecord_id {x : RunRecord} (h : exportRecord V account w r = some x) :
    x.run.fields.id = r.id := by
  obtain ⟨y, hy, rfl⟩ := Option.map_eq_some_iff.mp h
  exact congrArg WatchActionRunFields.id (watchActionRunWire_fields hy)

/-- **The records of a page** are the ones of its runs: the side tables hold what they are joined
with. -/
theorem records_runListResponse (limit : ℕ) :
    (runListResponse V account w limit runs).items.map
      (runRecord (runListResponse V account w limit runs)) =
        runs.filterMap (exportRecord V account w) := by
  rw [show (runListResponse V account w limit runs).items = runs.filterMap (watchActionRunWire V) from
    rfl, List.map_filterMap]
  refine List.filterMap_congr fun r hr => ?_
  rw [exportRecord]
  refine Option.map_congr fun run hrun => ?_
  have hid : run.fields.feedItemId = r.feedItemId :=
    congrArg WatchActionRunFields.feedItemId (watchActionRunWire_fields hrun)
  have hitem : (runListResponse V account w limit runs).feedItems.lookup r.feedItemId =
      (w.items.find? fun i => decide (i.accountId = account) && decide (i.id = r.feedItemId)).map
        fun i => ⟨i.feedId, i.occurredAt⟩ :=
    Table.lookup_map_filter (List.mem_map_of_mem hr)
  rw [runRecord, hid, hitem]
  cases hfind : w.items.find? fun i => decide (i.accountId = account) && decide (i.id = r.feedItemId) with
  | none => rfl
  | some i =>
    have hmem : i ∈ feedItemsOf account w runs := by
      have hsel := List.find?_some hfind
      obtain ⟨hacc, hi⟩ := Bool.and_eq_true_iff.mp hsel
      have hids : i.id ∈ runs.map (·.feedItemId) := by
        rw [of_decide_eq_true hi]
        exact List.mem_map_of_mem hr
      exact List.mem_filter.mpr ⟨List.mem_of_find?_eq_some hfind,
        Bool.and_eq_true_iff.mpr ⟨hacc, decide_eq_true hids⟩⟩
    have hfeed : (runListResponse V account w limit runs).feeds.lookup i.feedId =
        (w.feeds.find? fun f => decide (f.accountId = account) && decide (f.id = i.feedId)).map
          fun f => ⟨f.id⟩ :=
      Table.lookup_map_filter (List.mem_map_of_mem hmem)
    dsimp only [Option.map_some, Option.bind_some]
    rw [hfeed]

/-! ## The pages of a drain -/

/-- **One request.** -/
theorem get_ok (h : ActionRunsView.get X V bases account w (now k) q.actionId (q.request after) =
    .ok resp) : resp = runListResponse V account w pageLimit
      (Pager.page (·.id) pageLimit w.runs (matchesAt X bases account w now q k) after) := by
  unfold ActionRunsView.get at h
  split at h
  · cases h
  · rename_i action hfind
    have hsel := List.find?_some hfind
    have hid : action.id = q.actionId := of_decide_eq_true (Bool.and_eq_true_iff.mp hsel).2
    obtain ⟨windows, hparse, h⟩ := Except.bind_eq_ok.mp h
    rw [← Except.pure_eq_ok.mp h, Pager.page, Pager.selection, hid]
    have hp : ∀ r, matchesAt X bases account w now q k r =
        decide (IsListed account q.actionId none q.state windows.toRunWindows w.items r) := by
      intro r
      have hparse' : parseTimeWindows X bases (now k) q.windows = .ok windows := hparse
      rw [matchesAt, hparse']
    simp only [hp]
    rfl

/-- A response without a cursor is the last one. -/
theorem iterResponses_last
    (hget : ActionRunsView.get X V bases account w (now k) q.actionId (q.request after) = .ok resp)
    (hc : resp.nextCursor = none) :
    iterResponses X V bases account w now q (n + 1) k after = ([resp], .done) := by
  rw [iterResponses, hget]
  simp only [hc]

/-- Behind a cursor the drain goes on. -/
theorem iterResponses_more {c : Id}
    (hget : ActionRunsView.get X V bases account w (now k) q.actionId (q.request after) = .ok resp)
    (hc : resp.nextCursor = some c) : iterResponses X V bases account w now q (n + 1) k after =
      (resp :: (iterResponses X V bases account w now q n (k + 1) (some c)).1,
        (iterResponses X V bases account w now q n (k + 1) (some c)).2) := by
  rw [iterResponses, hget]
  simp only [hc]

/-- The cursor of a response is the one that its page ends in. -/
theorem nextCursor_of_get
    (hget : ActionRunsView.get X V bases account w (now k) q.actionId (q.request after) = .ok resp) :
    resp.nextCursor = Pager.cursor (·.id) pageLimit
      (Pager.page (·.id) pageLimit w.runs (matchesAt X bases account w now q k) after) := by
  rw [get_ok hget]
  rfl

/-- **A drain that ends** has read its pages. -/
theorem drains_of_done (h : (iterResponses X V bases account w now q n k after).2 = .done) :
    ∃ pages, Pager.Drains (·.id) pageLimit w.runs (matchesAt X bases account w now q) k after pages ∧
      (iterResponses X V bases account w now q n k after).1 =
        pages.map (runListResponse V account w pageLimit) := by
  induction n generalizing k after with
  | zero => cases h
  | succ n ih =>
    cases hget : ActionRunsView.get X V bases account w (now k) q.actionId (q.request after) with
    | error e =>
      rw [iterResponses, hget] at h
      cases h
    | ok resp =>
      have hcursor := nextCursor_of_get hget
      cases hc : resp.nextCursor with
      | none =>
        rw [iterResponses_last hget hc]
        exact ⟨_, .last (hcursor.symm.trans hc), congrArg (· :: []) (get_ok hget)⟩
      | some c =>
        rw [iterResponses_more hget hc] at h ⊢
        obtain ⟨pages, hdrains, hpages⟩ := ih h
        refine ⟨_, .more (hcursor.symm.trans hc) hdrains, ?_⟩
        rw [hpages, List.map_cons, ← get_ok hget]

/-- A drain of few enough pages ends, when no request is refused. -/
theorem done_of_drains {pages : List (List WatchActionRun)}
    (hserved : ∀ k after, ∃ resp,
      ActionRunsView.get X V bases account w (now k) q.actionId (q.request after) = .ok resp)
    (h : Pager.Drains (·.id) pageLimit w.runs (matchesAt X bases account w now q) k after pages)
    (hn : pages.length ≤ n) : (iterResponses X V bases account w now q n k after).2 = .done := by
  induction h generalizing n with
  | @last k after hc =>
    obtain ⟨resp, hget⟩ := hserved k after
    obtain ⟨n, rfl⟩ : ∃ m, n = m + 1 := ⟨n - 1, by simp at hn; omega⟩
    rw [iterResponses_last hget ((nextCursor_of_get hget).trans hc)]
  | @more k after c rest hc _ ih =>
    obtain ⟨resp, hget⟩ := hserved k after
    rw [List.length_cons] at hn
    obtain ⟨n, rfl⟩ : ∃ m, n = m + 1 := ⟨n - 1, by omega⟩
    rw [iterResponses_more hget ((nextCursor_of_get hget).trans hc)]
    exact ih (by omega)

/-- The runs of an action in an account. -/
def ofAction (account actionId : Id) (r : WatchActionRun) : Bool :=
  decide (r.accountId = account ∧ r.actionId = actionId)

theorem ofAction_of_matchesAt (h : matchesAt X bases account w now q k r) :
    ofAction account q.actionId r := by
  unfold matchesAt at h
  split at h
  · exact decide_eq_true ⟨(of_decide_eq_true h).1, (of_decide_eq_true h).2.1⟩
  · cases h

/-- **An action with fewer runs than the pages hold is drained**, when no request is refused. -/
theorem iterRecords_done (hids : (w.runs.map (·.id)).Nodup)
    (hserved : ∀ k after, ∃ resp,
      ActionRunsView.get X V bases account w (now k) q.actionId (q.request after) = .ok resp)
    (hlen : (w.runs.filter (ofAction account q.actionId)).length < pageLimit * maxPages) :
    (iterRecords X V bases account w now q).2 = .done := by
  have hfits : ((w.runs.filter (ofAction account q.actionId)).filter
      (Pager.behind (·.id) none)).length < pageLimit * maxPages :=
    lt_of_le_of_lt (List.length_filter_le _ _) hlen
  obtain ⟨pages, hdrains, hn⟩ :=
    Pager.exists_drains hids (fun k r _ hp => ofAction_of_matchesAt (k := k) hp) hfits
  exact done_of_drains hserved hdrains hn

/-! ## The records of an export -/

/-- **The records of a drain that ends.** -/
theorem exports_turn (hids : (w.runs.map (·.id)).Nodup)
    (h : (iterRecords X V bases account w now q).2 = .done) :
    Exports X V bases account w now q (Pager.turn (nextCursors X V bases account w now q))
      (iterRecords X V bases account w now q).1.flatten := by
  obtain ⟨pages, hdrains, hpages⟩ := drains_of_done h
  have hcursors : nextCursors X V bases account w now q =
      pages.filterMap (Pager.cursor (·.id) pageLimit) := by
    rw [nextCursors, hpages, List.filterMap_map]
    rfl
  have hrecords : (iterRecords X V bases account w now q).1.flatten =
      pages.flatten.filterMap (exportRecord V account w) := by
    rw [iterRecords, hpages, List.filterMap_flatten, List.map_map]
    exact congrArg List.flatten (List.map_congr_left fun _ _ => records_runListResponse pageLimit)
  refine ⟨fun x => ?_, ?_⟩
  · rw [hrecords, hcursors, List.mem_filterMap]
    refine exists_congr fun r => ?_
    have hbehind : Pager.behind (·.id) none r = true := rfl
    rw [hdrains.mem_iff (by decide) hids, Nat.zero_add, and_iff_right hbehind, and_assoc]
  · rw [hrecords, List.pairwise_map, List.pairwise_filterMap]
    refine (hdrains.pairwise hids).imp fun hlt x hx y hy => ?_
    rw [exportRecord_id hx, exportRecord_id hy]
    exact hlt

variable (X V bases account w now q) in
/-- **The records are the ones of the runs that match when the request whose ids they are among is
resolved**; of absolute windows, when the first one is. -/
theorem export_by_request (hnow : ∀ k, (now k).Aware) (hids : (w.runs.map (·.id)).Nodup)
    (h : (iterRecords X V bases account w now q).2 = .done) :
    Exports X V bases account w now q (Pager.turn (nextCursors X V bases account w now q))
        (iterRecords X V bases account w now q).1.flatten ∧
      ((∀ param value, q.windows param = some value → ¬ IsRelative X value) →
        Exports X V bases account w now q (fun _ => 0)
          (iterRecords X V bases account w now q).1.flatten) := by
  have hexports := exports_turn hids h
  refine ⟨hexports, fun habsolute => ⟨fun x => ?_, hexports.descending⟩⟩
  have hsame : ∀ k r, matchesAt X bases account w now q k r = matchesAt X bases account w now q 0 r := by
    intro k r
    have hparse : parseTimeWindows X bases (now k) q.windows =
        parseTimeWindows X bases (now 0) q.windows := by
      rw [parseTimeWindows, parseTimeWindows, resolveRunWindows_congr (hnow k) (hnow 0) bases]
      exact fun kv hkv value hvalue => not_relative_of_mem habsolute hkv hvalue
    rw [matchesAt, matchesAt, hparse]
  simp only [hexports.mem_iff, hsame (Pager.turn _ _)]

end Drain

/-! ## The default window -/

section LastWeek

/-- The runs completed in the last week. -/
def lastWeek : ExportQuery where
  actionId := 2
  windows := fun param => if param = (.completed, .sinceBound) then some "7d" else none

/-- The clock of the first request, and the one of all later ones a microsecond after. -/
def tickingNow (k : ℕ) : DateTime :=
  ⟨100 * dayMicros + min k 1, some 0, by unfold dayMicros; omega,
    by unfold maxWall dayMicros; omega⟩

/-- A week before it. -/
def tickingSince (k : ℕ) : DateTime :=
  ⟨93 * dayMicros + min k 1, some 0, by unfold dayMicros; omega,
    by unfold maxWall dayMicros; omega⟩

/-- A run completed a week before the first request. -/
def edgeRun (i : ℕ) : WatchActionRun where
  id := i
  accountId := 1
  watchId := 3
  actionId := 2
  kind := "log"
  feedItemId := i
  state := .succeeded
  completedAt := some (93 * dayMicros)

/-- One more such run than a page holds. -/
def edgeWorld : World where
  runs := (List.range 201).reverse.map edgeRun
  actions := [{ id := 2, accountId := 1, pathId := 4, kind := "log", config := Json.empty, rank := 0 }]

theorem relDuration_week : relDuration asciiWindowReader (strip "7d".toList) = some ([7], dayMicros) := rfl

theorem sub_week (k : ℕ) : (tickingNow k).sub (7 * dayMicros) = some (tickingSince k) := by
  have hwall : (tickingNow k).wall - 7 * dayMicros = (tickingSince k).wall := by
    dsimp only [tickingNow, tickingSince]
    omega
  have h : 0 ≤ (tickingNow k).wall - 7 * dayMicros ∧ (tickingNow k).wall - 7 * dayMicros < maxWall :=
    hwall ▸ ⟨(tickingSince k).wall_nonneg, (tickingSince k).wall_lt⟩
  rw [DateTime.sub, dif_pos h]
  simp only [hwall]
  rfl

theorem timedelta_week : timedelta dayMicros 7 = some (7 * dayMicros) := by
  rw [timedelta, if_pos (by unfold dayMicros; omega)]

theorem parse_lastWeek (k : ℕ) :
    parseTimeWindows asciiWindowReader [.occurred, .completed] (tickingNow k) lastWeek.windows =
      .ok (ResolvedWindows.set (fun _ => none) (.completed, .sinceBound) (tickingSince k)) := by
  have hoffset : (tickingNow k).offset ≠ none := Option.some_ne_none 0
  have hvalue : resolveWindowValue asciiWindowReader (tickingNow k) (some "7d") =
      .ok (tickingSince k) := by
    rw [resolveWindowValue, if_neg hoffset]
    simp only [relDuration_week]
    have hamount : intOfDigits [7] = .ok 7 := rfl
    rw [hamount]
    simp only [Except.bind, bind, timedelta_week, Option.bind_some, sub_week]
    rfl
  have hraw : rawWindows lastWeek.windows = [((.completed, .sinceBound), some "7d")] := rfl
  rw [parseTimeWindows, hraw, resolveRunWindows, List.foldlM_cons, resolveOne, hvalue]
  rfl

/-- The first request selects every run, the later ones none. -/
theorem matchesAt_edge (k i : ℕ) :
    matchesAt asciiWindowReader [.occurred, .completed] 1 edgeWorld tickingNow lastWeek k (edgeRun i) =
      decide (k = 0) := by
  rw [matchesAt, parse_lastWeek]
  refine decide_eq_decide.mpr ?_
  simp [IsListed, edgeRun, lastWeek, InBounds, ResolvedWindows.toRunWindows, ResolvedWindows.set,
    Function.update, tickingSince, DateTime.instant]

theorem served_edge (k : ℕ) (after : Option Id) : ∃ resp,
    ActionRunsView.get asciiWindowReader strictMode [.occurred, .completed] 1 edgeWorld (tickingNow k)
      lastWeek.actionId (lastWeek.request after) = .ok resp := by
  have hparse : parseTimeWindows asciiWindowReader [.occurred, .completed] (tickingNow k)
    (lastWeek.request after).windows = _ := parse_lastWeek k
  rw [ActionRunsView.get]
  dsimp only [edgeWorld, List.find?]
  simp only [hparse]
  exact ⟨_, rfl⟩

theorem ids_edge : (edgeWorld.runs.map (·.id)).Nodup := by
  have h : edgeWorld.runs.map (·.id) = (List.range 201).reverse := by
    rw [edgeWorld, List.map_map]
    exact List.map_id _
  rw [h, List.nodup_reverse]
  exact List.nodup_range

theorem done_edge : (iterRecords asciiWindowReader strictMode [.occurred, .completed] 1 edgeWorld
    tickingNow lastWeek).2 = .done := by
  refine iterRecords_done ids_edge served_edge (lt_of_le_of_lt (List.length_filter_le _ _) ?_)
  rw [edgeWorld, List.length_map, List.length_reverse, List.length_range]
  decide

/-- The first page. -/
theorem page_edge : Pager.page (·.id) pageLimit edgeWorld.runs
    (matchesAt asciiWindowReader [.occurred, .completed] 1 edgeWorld tickingNow lastWeek 0) none =
      edgeWorld.runs.take pageLimit := by
  have hall : edgeWorld.runs.filter (fun r =>
      matchesAt asciiWindowReader [.occurred, .completed] 1 edgeWorld tickingNow lastWeek 0 r &&
        Pager.behind (·.id) none r) = edgeWorld.runs := by
    refine List.filter_eq_self.mpr fun r hr => ?_
    obtain ⟨i, -, rfl⟩ := List.mem_map.mp hr
    rw [matchesAt_edge]
    rfl
  have hsorted : edgeWorld.runs.Pairwise fun r r' => r'.id ≤ r.id := by
    rw [edgeWorld, List.pairwise_map, List.pairwise_reverse]
    exact List.pairwise_lt_range.imp fun h => Nat.le_of_lt h
  rw [Pager.page, Pager.selection, hall, hsorted.insertionSort_eq]

theorem cursor_edge : Pager.cursor (·.id) pageLimit (edgeWorld.runs.take pageLimit) = some 1 := by
  decide +kernel

/-- The first page ends in a cursor in front of the last run. -/
theorem turn_edge : 0 < Pager.turn (nextCursors asciiWindowReader strictMode [.occurred, .completed] 1
    edgeWorld tickingNow lastWeek) 0 := by
  obtain ⟨resp, hget⟩ := served_edge 0 none
  have hc : resp.nextCursor = some 1 := by
    rw [nextCursor_of_get hget, page_edge, cursor_edge]
  have hmax : maxPages = 499 + 1 := rfl
  rw [nextCursors, hmax, iterResponses_more hget hc, List.filterMap_cons_some hc]
  exact List.countP_pos_iff.mpr ⟨1, List.mem_cons_self, by decide⟩

/-- A drain of two pages. -/
theorem export_by_request_sample :
    Exports asciiWindowReader strictMode [.occurred, .completed] 1 edgeWorld tickingNow lastWeek
        (Pager.turn (nextCursors asciiWindowReader strictMode [.occurred, .completed] 1 edgeWorld
          tickingNow lastWeek))
        (iterRecords asciiWindowReader strictMode [.occurred, .completed] 1 edgeWorld tickingNow
          lastWeek).1.flatten ∧
      ((∀ param value, lastWeek.windows param = some value → ¬ IsRelative asciiWindowReader value) →
        Exports asciiWindowReader strictMode [.occurred, .completed] 1 edgeWorld tickingNow lastWeek
          (fun _ => 0)
          (iterRecords asciiWindowReader strictMode [.occurred, .completed] 1 edgeWorld tickingNow
            lastWeek).1.flatten) :=
  export_by_request asciiWindowReader strictMode [.occurred, .completed] 1 edgeWorld tickingNow
    lastWeek (fun _ => rfl) ids_edge done_edge

/-- **A relative window moves between the requests**: the last run matches the first one and is not
exported. -/
theorem window_moves : ¬ ∀ (w : World) (now : ℕ → DateTime) (q : ExportQuery), (∀ k, (now k).Aware) →
    (∀ k, (now k).instant ≤ (now (k + 1)).instant) → (w.runs.map (·.id)).Nodup →
    (iterRecords asciiWindowReader strictMode [.occurred, .completed] 1 w now q).2 = .done →
      Exports asciiWindowReader strictMode [.occurred, .completed] 1 w now q (fun _ => 0)
        (iterRecords asciiWindowReader strictMode [.occurred, .completed] 1 w now q).1.flatten := by
  intro h
  have hclaim := h edgeWorld tickingNow lastWeek (fun _ => rfl)
    (fun k => by dsimp only [DateTime.instant, tickingNow]; omega) ids_edge done_edge
  have hmem : edgeRun 0 ∈ edgeWorld.runs :=
    List.mem_map_of_mem (List.mem_reverse.mpr (List.mem_range.mpr (by decide)))
  obtain ⟨run, hrun⟩ := Option.isSome_iff_exists.mp
    ((watchActionRunWire_isSome strictMode (edgeRun 0)).mpr (.inl (by decide)))
  obtain ⟨x, hx⟩ : ∃ x, exportRecord strictMode 1 edgeWorld (edgeRun 0) = some x :=
    ⟨_, by rw [exportRecord, hrun]; rfl⟩
  have hfirst := (hclaim.mem_iff x).mpr ⟨edgeRun 0, hmem, by rw [matchesAt_edge]; rfl, hx⟩
  obtain ⟨r, hr, hmatch, hxr⟩ := ((exports_turn ids_edge done_edge).mem_iff x).mp hfirst
  have hid : r.id = 0 := (exportRecord_id hxr).symm.trans (exportRecord_id hx)
  obtain ⟨i, -, rfl⟩ := List.mem_map.mp hr
  rw [hid, matchesAt_edge, decide_eq_true_iff] at hmatch
  exact absurd hmatch (Nat.ne_of_gt turn_edge)
end LastWeek

end OpenMagpie
