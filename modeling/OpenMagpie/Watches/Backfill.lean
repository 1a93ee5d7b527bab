import OpenMagpie.Watches.System

/-!
# Backfill jobs

A backfill job re-runs one action over a source set: the items of the watch's feeds in a window
when the action heads its chain, else the items its predecessor succeeded on. It deletes the stale
runs of the action and everything downstream when it replaces, then enqueues the action's runs.

* `resolvePresent`, `Source.present`: the source set, a query that every later statement evaluates
  anew.
* `WatchBackfillOperation.deletePhase`, `WatchBackfillOperation.run`: one claimed job.
* `Deliverable`: a dispatcher delivers the run without another arrival.
* **`backfill_deliverable`**: when a finished job has enqueued deliverable runs only.
* **`backfill_strands`**: a job for a digest action without an open window.
-/

set_option autoImplicit false

namespace OpenMagpie

open WatchActionRunState

/-! ## Jobs -/

/-- The lifecycle of a backfill job. -/
inductive WatchActionBackfillState
  | pending
  | running
  | done
  | failed
  deriving DecidableEq

/-- The two windows of a source set. -/
structure RunWindows where
  occurredSince : Option Time := none
  occurredUntil : Option Time := none
  completedSince : Option Time := none
  completedUntil : Option Time := none
  deriving DecidableEq

/-- A queued request to re-run one action. -/
structure WatchActionBackfill extends RunWindows where
  id : Id
  accountId : Id
  watchId : Id
  targetActionId : Id
  sourceActionId : Option Id := none
  sourceIsHead : Bool
  replace : Bool := false
  state : WatchActionBackfillState := .pending
  error : String := ""
  attempts : ℕ := 0
  matched : ℕ := 0
  present : ℕ := 0
  pruned : ℕ := 0
  deleted : ℕ := 0
  enqueued : ℕ := 0
  replaceDeletedAt : Option Time := none
  scheduledAt : Option Time := none
  startedAt : Option Time := none
  completedAt : Option Time := none
  deriving DecidableEq

/-- The tables a job reads and writes. -/
structure BackfillStore extends World where
  backfills : List WatchActionBackfill := []

/-! ## The source set -/

/-- In `[since, until)`; a blank time is in no bounded window. -/
def InBounds (lo hi t : Option Time) : Prop := (∀ s ∈ lo, ∃ x ∈ t, s ≤ x) ∧ ∀ u ∈ hi, ∃ x ∈ t, x < u

instance (lo hi t : Option Time) : Decidable (InBounds lo hi t) := by
  unfold InBounds; infer_instance

/-- `occurred_window_id_subquery`. -/
def occurredWindowIds (account : Id) (windows : RunWindows) (items : List FeedItem) : List Id :=
  (items.filter fun i => decide (i.accountId = account ∧
    InBounds windows.occurredSince windows.occurredUntil i.occurredAt)).map (·.id)

/-- The filter of `_succeeded_in_window`. -/
def IsSourceRun (account : Id) (sourceActionId : Option Id) (windows : RunWindows)
    (items : List FeedItem) (r : WatchActionRun) : Prop :=
  r.accountId = account ∧ some r.actionId = sourceActionId ∧ r.state = succeeded ∧
    InBounds windows.completedSince windows.completedUntil r.completedAt ∧
    (windows.occurredSince = none ∧ windows.occurredUntil = none ∨
      r.feedItemId ∈ occurredWindowIds account windows items)

instance (account : Id) (sourceActionId : Option Id) (windows : RunWindows)
    (items : List FeedItem) (r : WatchActionRun) :
    Decidable (IsSourceRun account sourceActionId windows items r) := by
  unfold IsSourceRun; infer_instance

/-- `_succeeded_in_window`. -/
def succeededInWindow (account : Id) (sourceActionId : Option Id) (windows : RunWindows)
    (items : List FeedItem) (runs : List WatchActionRun) : List WatchActionRun :=
  runs.filter fun r => decide (IsSourceRun account sourceActionId windows items r)

/-- Where the items come from: the feeds of the watch, or the predecessor's runs. -/
inductive Source
  | head (feedIds : List Id)
  | predecessor (sourceActionId : Option Id)

/-- The items of the source set that are still stored: `_feed_items_in_occurred_window_qs` or
`_existing_feed_item_ids_qs`. -/
def Source.present (account : Id) (windows : RunWindows) (items : List FeedItem)
    (runs : List WatchActionRun) : Source → List FeedItem
  | .head feedIds => items.filter fun i => decide (i.accountId = account ∧ i.feedId ∈ feedIds ∧
      InBounds windows.occurredSince windows.occurredUntil i.occurredAt)
  | .predecessor a => items.filter fun i => decide (i.accountId = account ∧
      i.id ∈ (succeededInWindow account a windows items runs).map (·.feedItemId))

/-- The ids of the source set, ascending: the subquery's set, and the order of the stream. -/
def Source.ids (source : Source) (account : Id) (windows : RunWindows) (items : List FeedItem)
    (runs : List WatchActionRun) : List Id :=
  ((source.present account windows items runs).map (·.id)).insertionSort (· ≤ ·)

/-- The resolved source set. -/
structure ResolvedPresent where
  matched : ℕ
  presentCount : ℕ
  source : Source

/-- Why a source set does not resolve. -/
inductive ResolveError
  | watchDoesNotExist
  | valueError (message : String)

/-- `resolve_present`. -/
def resolvePresent (account : Id) (sourceActionId : Option Id) (sourceIsHead : Bool) (watchId : Id)
    (windows : RunWindows) (w : World) : Except ResolveError ResolvedPresent :=
  if sourceIsHead then
    match w.watches.find? fun x => decide (x.id = watchId ∧ x.accountId = account) with
    | none => .error .watchDoesNotExist
    | some watch =>
      if windows.occurredSince = none ∧ windows.occurredUntil = none then
        .error (.valueError "feed_items_in_occurred_window needs at least one of since / until")
      else
        let source := .head ((watchFeedsOf watch w.watchFeeds).map (·.feedId))
        let n := (source.present account windows w.items w.runs).length
        .ok ⟨n, n, source⟩
  else
    let source := .predecessor sourceActionId
    .ok ⟨(succeededInWindow account sourceActionId windows w.items w.runs).length,
      (source.present account windows w.items w.runs).length, source⟩

/-! ## The operation -/

/-- What a job did. -/
structure BackfillCounts where
  matched : ℕ
  present : ℕ
  pruned : ℕ
  deleted : ℕ
  enqueued : ℕ
  deriving DecidableEq

/-- The guard of a job's writes: its row is still running under its claim. -/
def backfillGuard (job j : WatchActionBackfill) : Bool :=
  decide (j.id = job.id ∧ j.state = .running ∧ j.attempts = job.attempts)

namespace WatchBackfillOperation

variable (S : Settings) (mint : Id → Id) (now : Time) (job : WatchActionBackfill)

/-- `_finish`. -/
def finish (state : WatchActionBackfillState) (counts : Option BackfillCounts) (error : String)
    (exhaust : Bool) (s : BackfillStore) : BackfillStore :=
  { s with
    backfills := Table.update (backfillGuard job) (fun j =>
      let j := { j with state := state, error := error, completedAt := some now }
      let j := match counts with
        | some c => { j with
            matched := c.matched, present := c.present, pruned := c.pruned, deleted := c.deleted
            enqueued := c.enqueued }
        | none => j
      if exhaust then { j with attempts := S.watchBackfillMaxAttempts } else j) s.backfills }

/-- `_fail`. -/
def fail (message : String) (s : BackfillStore) : BackfillStore :=
  finish S now job .failed none message true s

/-- The deletes of a replace, down the chain. Each evaluates the source set as the ones before it
left it. -/
def deleteChain (source : Source) (items : List FeedItem) (chain : List WatchAction)
    (runs : List WatchActionRun) : List WatchActionRun :=
  chain.foldl (fun runs a => deleteTerminalForAction job.accountId job.watchId a.id
    (source.ids job.accountId job.toRunWindows items runs) runs) runs

/-- `_delete_phase`: the store after it, and the rows deleted. -/
def deletePhase (target : WatchAction) (source : Source) (s : BackfillStore) : BackfillStore × ℕ :=
  if job.replace = false then (s, 0)
  else if job.replaceDeletedAt.isSome then (s, job.deleted)
  else
    let runs := deleteChain job source s.items (chainFrom job.accountId s.actions target) s.runs
    let deleted := s.runs.length - runs.length
    ({ s with
        runs := runs
        backfills := Table.update (backfillGuard job)
          (fun j => { j with replaceDeletedAt := some now, deleted := deleted }) s.backfills },
      deleted)

/-- `run`: the store, and the counts of a finished job. -/
def run (s : BackfillStore) : Except String (BackfillStore × Option BackfillCounts) := do
  match getAction job.accountId job.targetActionId s.actions with
  | none => return (fail S now job RunMessages.backfillTargetGone s, none)
  | some target =>
    match resolvePresent job.accountId job.sourceActionId job.sourceIsHead job.watchId
      job.toRunWindows s.toWorld with
    | .error .watchDoesNotExist => return (fail S now job RunMessages.backfillWatchGone s, none)
    | .error (.valueError message) => throw message
    | .ok present =>
      let (s, deleted) := deletePhase now job target present.source s
      let (runs, enqueued) ← enqueueMany mint job.accountId job.watchId target.id target.kind now
        (present.source.ids job.accountId job.toRunWindows s.items s.runs) s.runs
      let counts : BackfillCounts :=
        ⟨present.matched, present.presentCount, present.matched - present.presentCount, deleted,
          enqueued⟩
      return (finish S now job .done (some counts) "" false { s with runs := runs }, some counts)

end WatchBackfillOperation

/-! ## What the deletes leave -/

section Delete

variable {account watch action : Id} {windows : RunWindows} {items : List FeedItem}
  {runs runs' : List WatchActionRun} {source : Source} {r : WatchActionRun} {i : Id}

theorem mem_deleteTerminalForAction {ids : List Id} :
    r ∈ deleteTerminalForAction account watch action ids runs ↔ r ∈ runs ∧
      ¬ (IsDeletableTerminal r ∧ r.accountId = account ∧ r.watchId = watch ∧
        r.actionId = action ∧ r.feedItemId ∈ ids) := by
  rw [deleteTerminalForAction, List.mem_filter, Bool.not_eq_true', decide_eq_false_iff_not]

theorem Source.mem_ids : i ∈ source.ids account windows items runs ↔
    ∃ x ∈ source.present account windows items runs, x.id = i := by
  rw [Source.ids, List.mem_insertionSort, List.mem_map]

theorem mem_present_predecessor {a : Option Id} {x : FeedItem} :
    x ∈ (Source.predecessor a).present account windows items runs ↔ x ∈ items ∧
      x.accountId = account ∧ ∃ r ∈ runs, IsSourceRun account a windows items r ∧
        r.feedItemId = x.id := by
  rw [Source.present, List.mem_filter, decide_eq_true_iff, List.mem_map]
  refine and_congr_right fun _ => and_congr_right fun _ => ?_
  simp only [succeededInWindow, List.mem_filter, decide_eq_true_eq, and_assoc]

/-- Fewer runs, fewer items. -/
theorem Source.ids_mono (h : runs ⊆ runs') (hi : i ∈ source.ids account windows items runs) :
    i ∈ source.ids account windows items runs' := by
  obtain ⟨x, hx, rfl⟩ := Source.mem_ids.mp hi
  refine Source.mem_ids.mpr ⟨x, ?_, rfl⟩
  cases source with
  | head feedIds => exact hx
  | predecessor a =>
    obtain ⟨hm, ha, r, hr, hs⟩ := mem_present_predecessor.mp hx
    exact mem_present_predecessor.mpr ⟨hm, ha, r, h hr, hs⟩

variable {job : WatchActionBackfill} {chain : List WatchAction}

namespace WatchBackfillOperation

theorem deleteChain_subset : deleteChain job source items chain runs ⊆ runs := by
  induction chain generalizing runs with
  | nil => exact fun _ h => h
  | cons a chain ih => exact fun r hr => (mem_deleteTerminalForAction.mp (ih hr)).1

/-- A run that no delete of the chain matches at the start stays. -/
theorem mem_deleteChain_of (hr : r ∈ runs) (hno : ¬ (IsDeletableTerminal r ∧
      r.accountId = job.accountId ∧ r.watchId = job.watchId ∧ r.actionId ∈ chain.map (·.id) ∧
      r.feedItemId ∈ source.ids job.accountId job.toRunWindows items runs)) :
    r ∈ deleteChain job source items chain runs := by
  induction chain generalizing runs with
  | nil => exact hr
  | cons a chain ih =>
    refine ih (mem_deleteTerminalForAction.mpr ⟨hr, ?_⟩) ?_
    · rintro ⟨hd, ha, hw, hb, hi⟩
      exact hno ⟨hd, ha, hw, List.mem_cons.mpr (.inl hb), hi⟩
    · rintro ⟨hd, ha, hw, hc, hi⟩
      refine hno ⟨hd, ha, hw, List.mem_cons_of_mem _ hc, Source.ids_mono ?_ hi⟩
      exact fun r hr => (mem_deleteTerminalForAction.mp hr).1

/-- The first delete takes the stale runs of its action. -/
theorem not_mem_deleteChain_head {target : WatchAction} (hd : IsDeletableTerminal r)
    (ha : r.accountId = job.accountId) (hw : r.watchId = job.watchId) (ht : r.actionId = target.id)
    (hi : r.feedItemId ∈ source.ids job.accountId job.toRunWindows items runs) :
    r ∉ deleteChain job source items (target :: chain) runs :=
  fun hr => (mem_deleteTerminalForAction.mp (deleteChain_subset hr)).2 ⟨hd, ha, hw, ht, hi⟩

/-- A source run of a stored item keeps its item in the source set, so its action's delete
takes it. -/
theorem not_mem_deleteChain_source {a : Option Id}
    (hs : IsSourceRun job.accountId a job.toRunWindows items r)
    (hitem : ∃ x ∈ items, x.accountId = job.accountId ∧ x.id = r.feedItemId)
    (hw : r.watchId = job.watchId) (hc : r.actionId ∈ chain.map (·.id)) :
    r ∉ deleteChain job (.predecessor a) items chain runs := by
  induction chain generalizing runs with
  | nil => cases hc
  | cons b chain ih =>
    intro hr
    obtain ⟨hmem, hno⟩ := mem_deleteTerminalForAction.mp (deleteChain_subset hr)
    rcases List.mem_cons.mp hc with hb | hc
    · refine hno ⟨.inl (by rw [hs.2.2.1]; decide), hs.1, hw, hb, ?_⟩
      obtain ⟨x, hx, hxa, hxi⟩ := hitem
      exact Source.mem_ids.mpr
        ⟨x, mem_present_predecessor.mpr ⟨hx, hxa, r, hmem, hs, hxi.symm⟩, hxi⟩
    · exact ih hc hr

end WatchBackfillOperation

/-! ## The runs a job keeps -/

/-- A first replacing attempt deletes the run: a stale run of the target or of an action
downstream, for an item of the source set. -/
def WatchActionBackfill.Replaces (job : WatchActionBackfill) (w : World) (target : WatchAction)
    (source : Source) (r : WatchActionRun) : Prop :=
  (job.replace = true ∧ job.replaceDeletedAt = none) ∧ IsDeletableTerminal r ∧
    r.accountId = job.accountId ∧ r.watchId = job.watchId ∧
    r.actionId ∈ (chainFrom job.accountId w.actions target).map (·.id) ∧
    r.feedItemId ∈ source.ids job.accountId job.toRunWindows w.items w.runs

instance (job : WatchActionBackfill) (w : World) (target : WatchAction) (source : Source)
    (r : WatchActionRun) : Decidable (job.Replaces w target source r) := by
  unfold WatchActionBackfill.Replaces; infer_instance

/-- The runs the job keeps. -/
def WatchActionBackfill.kept (job : WatchActionBackfill) (w : World) (target : WatchAction)
    (source : Source) : List WatchActionRun :=
  w.runs.filter fun r => ! decide (job.Replaces w target source r)

variable {s : BackfillStore} {target : WatchAction} {now : Time}

theorem WatchActionBackfill.mem_kept {w : World} : r ∈ job.kept w target source ↔
    r ∈ w.runs ∧ ¬ job.Replaces w target source r := by
  rw [WatchActionBackfill.kept, List.mem_filter, Bool.not_eq_true', decide_eq_false_iff_not]

namespace WatchBackfillOperation

theorem runs_deletePhase : (deletePhase now job target source s).1.runs =
    if job.replace = true ∧ job.replaceDeletedAt = none then
      deleteChain job source s.items (chainFrom job.accountId s.actions target) s.runs
    else s.runs := by
  unfold deletePhase
  cases hr : job.replace <;> cases hd : job.replaceDeletedAt <;> simp

variable (now job target source s) in
/-- A delete phase writes runs and jobs only. -/
theorem frame_deletePhase : (deletePhase now job target source s).1.toWorld =
    { s.toWorld with runs := (deletePhase now job target source s).1.runs } := by
  unfold deletePhase
  split_ifs <;> rfl

theorem kept_subset_deletePhase :
    job.kept s.toWorld target source ⊆ (deletePhase now job target source s).1.runs := by
  intro r hr
  obtain ⟨hm, hno⟩ := WatchActionBackfill.mem_kept.mp hr
  rw [runs_deletePhase]
  split_ifs with h
  · exact mem_deleteChain_of hm fun hd => hno ⟨h, hd⟩
  · exact hm

/-- What the deletes leave of the target's runs and of the source's, the job keeps. -/
theorem mem_kept_of_deletePhase (hr : r ∈ (deletePhase now job target source s).1.runs)
    (h : r.actionId = target.id ∨ ∃ a, source = .predecessor a ∧
      IsSourceRun job.accountId a job.toRunWindows s.items r ∧
      ∃ x ∈ s.items, x.accountId = job.accountId ∧ x.id = r.feedItemId) :
    r ∈ job.kept s.toWorld target source := by
  rw [runs_deletePhase] at hr
  split_ifs at hr with hrep
  · refine WatchActionBackfill.mem_kept.mpr ⟨deleteChain_subset hr, ?_⟩
    rintro ⟨-, hd, ha, hw, hc, hi⟩
    rcases h with ht | ⟨a, rfl, hs, hitem⟩
    · rw [chainFrom] at hr
      exact not_mem_deleteChain_head hd ha hw ht hi hr
    · exact not_mem_deleteChain_source hs hitem hw hc hr
  · exact WatchActionBackfill.mem_kept.mpr ⟨hr, fun hd => hrep hd.1⟩

/-- **The source set after the deletes.** -/
theorem mem_ids_deletePhase :
    i ∈ source.ids job.accountId job.toRunWindows s.items
        (deletePhase now job target source s).1.runs ↔
      i ∈ source.ids job.accountId job.toRunWindows s.items
        (job.kept s.toWorld target source) := by
  refine ⟨fun hi => ?_, Source.ids_mono kept_subset_deletePhase⟩
  obtain ⟨x, hx, rfl⟩ := Source.mem_ids.mp hi
  refine Source.mem_ids.mpr ⟨x, ?_, rfl⟩
  cases source with
  | head feedIds => exact hx
  | predecessor a =>
    obtain ⟨hm, ha, r, hr, hs, he⟩ := mem_present_predecessor.mp hx
    have hk := mem_kept_of_deletePhase hr (.inr ⟨a, rfl, hs, x, hm, ha, he.symm⟩)
    exact mem_present_predecessor.mpr ⟨hm, ha, r, hk, hs, he⟩

/-- **The target's runs after the deletes.** -/
theorem key_mem_deletePhase {k : RunKey} (hk : k.2.2.1 = target.id) :
    k ∈ (deletePhase now job target source s).1.runs.map WatchActionRun.key ↔
      k ∈ (job.kept s.toWorld target source).map WatchActionRun.key := by
  refine ⟨fun h => ?_, fun h => List.map_subset _ kept_subset_deletePhase h⟩
  obtain ⟨r, hr, rfl⟩ := List.mem_map.mp h
  exact List.mem_map_of_mem (mem_kept_of_deletePhase hr (.inl hk))

end WatchBackfillOperation

end Delete

/-! ## What a finished job writes -/

section Run

variable {S : Settings} {C : Type} {R : Registry C} {mint : Id → Id} {now : Time}
  {job : WatchActionBackfill} {s s' : BackfillStore} {counts : BackfillCounts}
  {target : WatchAction} {present : ResolvedPresent}

namespace WatchBackfillOperation

theorem run_eq (ht : getAction job.accountId job.targetActionId s.actions = some target)
    (hp : resolvePresent job.accountId job.sourceActionId job.sourceIsHead job.watchId
      job.toRunWindows s.toWorld = .ok present) :
    run S mint now job s = (do
      let (s, deleted) := deletePhase now job target present.source s
      let (runs, enqueued) ← enqueueMany mint job.accountId job.watchId target.id target.kind now
        (present.source.ids job.accountId job.toRunWindows s.items s.runs) s.runs
      let counts : BackfillCounts :=
        ⟨present.matched, present.presentCount, present.matched - present.presentCount, deleted,
          enqueued⟩
      return (finish S now job .done (some counts) "" false { s with runs := runs }, some counts)) := by
  unfold run
  rw [ht]
  simp only [hp]

/-- **What a finished job writes**: the deletes, then the target's runs for the source set. -/
theorem run_inserted (h : run S mint now job s = .ok (s', some counts))
    (ht : getAction job.accountId job.targetActionId s.actions = some target)
    (hp : resolvePresent job.accountId job.sourceActionId job.sourceIsHead job.watchId
      job.toRunWindows s.toWorld = .ok present) :
    s'.windows = s.windows ∧ Table.Inserted WatchActionRun.key
      (enqueueRows mint job.accountId job.watchId target.id target.kind now
        (present.source.ids job.accountId job.toRunWindows s.items
          (deletePhase now job target present.source s).1.runs))
      (deletePhase now job target present.source s).1.runs s'.runs := by
  rw [run_eq ht hp] at h
  have hf := frame_deletePhase present.source job s target now
  obtain ⟨⟨runs, n⟩, he, h⟩ := Except.bind_eq_ok.mp h
  obtain ⟨runs', n', he', hi⟩ := enqueueMany_inserted mint job.accountId job.watchId target.id
    target.kind now (deletePhase now job target present.source s).1.runs
    (present.source.ids job.accountId job.toRunWindows
      (deletePhase now job target present.source s).1.items
      (deletePhase now job target present.source s).1.runs)
  obtain ⟨rfl, rfl⟩ : runs' = runs ∧ n' = n := by
    simpa using he'.symm.trans he
  obtain ⟨rfl, -⟩ := Prod.mk.inj (Except.ok.inj h)
  have hw : (deletePhase now job target present.source s).1.windows = s.windows := by rw [hf]
  have hitems : (deletePhase now job target present.source s).1.items = s.items := by rw [hf]
  exact ⟨hw, hitems ▸ hi⟩

end WatchBackfillOperation

/-! ## Deliverable runs -/

variable (S R now) in
/-- A dispatcher delivers the run of action `a` without another arrival: the drain, when the action
is instant and has no window row, or the flush, when its window is open; and the drain takes no
run of a digest. -/
structure Deliverable (a : WatchAction) (windows : List WatchActionDigestWindow)
    (r : WatchActionRun) : Prop where
  dispatched : (¬ hasWindow windows r.accountId r.actionId ∧ ¬ IsDigest R a ∧
      ∀ ts, now ≤ ts → IsDue S windows ts r) ∨
    ((∃ v ∈ windows, v.key = (r.accountId, r.actionId) ∧ v.closeAt ≠ none) ∧
      IsPendingOf r.accountId r.actionId r)
  batched : IsDigest R a → ∀ ts, ¬ IsDue S windows ts r

/-- Every item of the source set has a run of the target that the job keeps. -/
def WatchActionBackfill.Covered (job : WatchActionBackfill) (w : World) (target : WatchAction)
    (source : Source) : Prop :=
  ∀ i ∈ source.ids job.accountId job.toRunWindows w.items (job.kept w target source),
    (job.accountId, job.watchId, target.id, i) ∈
      (job.kept w target source).map WatchActionRun.key

/-- The action's window is open. -/
def WindowOpen (windows : List WatchActionDigestWindow) (account action : Id) : Prop :=
  ∃ v ∈ windows, v.key = (account, action) ∧ v.closeAt ≠ none

theorem WindowOpen.hasWindow {windows : List WatchActionDigestWindow} {account action : Id}
    (h : WindowOpen windows account action) : hasWindow windows account action :=
  let ⟨_, hv, hk, _⟩ := h
  List.mem_map.mpr ⟨_, hv, hk⟩

/-- A fresh run is deliverable exactly when its action's window is open, or there is none and the
action is instant. -/
theorem deliverable_newRun {a : WatchAction} {windows : List WatchActionDigestWindow}
    {id account watch item : Id} {kind : String} {prior : Option Id} :
    Deliverable S R now a windows (newRun id account watch a.id kind item now prior) ↔
      WindowOpen windows account a.id ∨ (¬ hasWindow windows account a.id ∧ ¬ IsDigest R a) := by
  constructor
  · rintro ⟨hd | hd, -⟩
    · exact .inr ⟨hd.1, hd.2.1⟩
    · exact .inl hd.1
  · rintro (ho | ⟨hw, hi⟩)
    · exact ⟨.inr ⟨ho, rfl, rfl, rfl⟩, fun _ _ hdue => hdue.2.2.2 ho.hasWindow⟩
    · have hdue (ts : Time) (hts : now ≤ ts) :
          IsDue S windows ts (newRun id account watch a.id kind item now prior) :=
        ⟨List.mem_cons_self, S.maxAttempts_pos, ⟨now, rfl, hts⟩, hw⟩
      exact ⟨.inl ⟨hw, hi, hdue⟩, fun h => absurd h hi⟩

/-- **When a job delivers.** The runs that a finished job has enqueued are all deliverable if and
only if it had nothing to enqueue, or the target's window is open, or the target is instant and has
no window row. -/
theorem backfill_deliverable (h : WatchBackfillOperation.run S mint now job s = .ok (s', some counts))
    (hm : Minted s.runs mint)
    (ht : getAction job.accountId job.targetActionId s.actions = some target)
    (hp : resolvePresent job.accountId job.sourceActionId job.sourceIsHead job.watchId
      job.toRunWindows s.toWorld = .ok present) :
    (∀ r ∈ s'.runs, r ∉ s.runs → Deliverable S R now target s'.windows r) ↔
      job.Covered s.toWorld target present.source ∨
        WindowOpen s.windows job.accountId target.id ∨
          (¬ hasWindow s.windows job.accountId target.id ∧ ¬ IsDigest R target) := by
  obtain ⟨hw, hi⟩ := WatchBackfillOperation.run_inserted h ht hp
  have hsub : (WatchBackfillOperation.deletePhase now job target present.source s).1.runs ⊆
      s.runs := by
    rw [WatchBackfillOperation.runs_deletePhase]
    split_ifs
    · exact WatchBackfillOperation.deleteChain_subset
    · exact fun _ h => h
  constructor
  · intro hall
    by_contra hno
    rw [not_or] at hno
    refine hno.1 fun i hik => ?_
    rw [← WatchBackfillOperation.mem_ids_deletePhase ] at hik
    obtain ⟨r, hr, hk⟩ := List.mem_map.mp
      (hi.all _ (List.mem_map_of_mem hik))
    rcases hi.new r hr with hold | ⟨hrow, -⟩
    · exact (WatchBackfillOperation.key_mem_deletePhase rfl).mp (List.mem_map.mpr ⟨r, hold, hk⟩)
    · -- a row of its own, which is deliverable only if the condition holds
      obtain ⟨j, -, rfl⟩ := List.mem_map.mp hrow
      have hd := hall _ hr fun hmem => hm.fresh j _ hmem rfl
      rw [hw, deliverable_newRun] at hd
      exact absurd hd hno.2
  · intro hc r hr hnew
    obtain ⟨hrow, hfree⟩ := (hi.new r hr).resolve_left fun hold => hnew (hsub hold)
    obtain ⟨i, hik, rfl⟩ := List.mem_map.mp hrow
    rw [hw, deliverable_newRun]
    refine hc.resolve_left fun hcov => ?_
    rw [WatchBackfillOperation.mem_ids_deletePhase] at hik
    exact hfree ((WatchBackfillOperation.key_mem_deletePhase rfl).mpr (hcov i hik))

end Run

/-! ## With and without an open window -/

/-- A claimed job that re-runs the head of the watch's chain over the items since time 0. -/
def headJob : WatchActionBackfill where
  id := 1
  accountId := 1
  watchId := 1
  targetActionId := 1
  sourceIsHead := true
  occurredSince := some 0
  state := .running
  attempts := 1

/-- A digest head with a window row, and an item it has not seen. -/
def digestStore (closeAt : Option Time) : BackfillStore :=
  { watchedDigest with
    items := [{ sampleItem 1 with occurredAt := some 0 }]
    windows := [⟨1, 1, closeAt⟩]
    backfills := [headJob] }

/-- The store after the job. -/
def backfilled (closeAt : Option Time) : BackfillStore :=
  WatchBackfillOperation.finish {} 0 headJob .done (some ⟨1, 1, 0, 0, 1⟩) "" false
    { digestStore closeAt with runs := [newRun 11 1 1 1 "log" 1 0 none] }

theorem run_digestStore (closeAt : Option Time) :
    WatchBackfillOperation.run {} (· + 10) 0 headJob (digestStore closeAt) =
      .ok (backfilled closeAt, some ⟨1, 1, 0, 0, 1⟩) := rfl

theorem resolve_digestStore (closeAt : Option Time) :
    resolvePresent 1 none true 1 headJob.toRunWindows (digestStore closeAt).toWorld =
      .ok ⟨1, 1, .head [1]⟩ := rfl

/-- The job enqueues into an open window. -/
theorem backfill_deliverable_sample : ∃ r ∈ (backfilled (some 60)).runs,
    r ∉ (digestStore (some 60)).runs ∧
      Deliverable {} sampleRegistry 0 (sampleAction 1 digestConfig 0)
        (backfilled (some 60)).windows r := by
  have hall := (backfill_deliverable (R := sampleRegistry) (run_digestStore (some 60))
    (.add (n := 10) (by decide)) rfl (resolve_digestStore (some 60))).mpr
    (.inr (.inl ⟨⟨1, 1, some 60⟩, List.mem_cons_self, rfl, nofun⟩))
  exact ⟨_, List.mem_cons_self, List.not_mem_nil, hall _ List.mem_cons_self List.not_mem_nil⟩

/-- **A stranded backfill.** The digest's last window has been flushed, so its row is closed; the job
enqueues item 1 and is done, and neither dispatcher takes the run. -/
theorem backfill_strands : ∃ s' counts,
    WatchBackfillOperation.run {} (· + 10) 0 headJob (digestStore none) = .ok (s', some counts) ∧
      (∃ j ∈ s'.backfills, j.id = headJob.id ∧ j.state = .done) ∧
      ∃ r ∈ s'.runs, r ∉ (digestStore none).runs ∧
        ¬ Deliverable {} sampleRegistry 0 (sampleAction 1 digestConfig 0) s'.windows r := by
  refine ⟨_, _, run_digestStore none, ⟨_, List.mem_cons_self, rfl, rfl⟩, _, List.mem_cons_self,
    List.not_mem_nil, fun hd => ?_⟩
  rcases hd.dispatched with ⟨hw, -⟩ | ⟨⟨v, hv, -, hc⟩, -⟩
  · exact hw List.mem_cons_self
  · obtain rfl := List.mem_singleton.mp hv
    exact hc rfl

end OpenMagpie
