import Mathlib.Data.List.Sort
import OpenMagpie.Lib.Batched
import OpenMagpie.Watches.Models

/-!
# The run table

The statements that the run services send to the run table, as functions on the list of its rows.

* `completionTs`: the one rule for `completed_at`.
* `enqueue`, `enqueueChunk`, `enqueueMany`, `enqueueAdvanceBatch`: the inserts.
* `dueRuns`, `claimRun`, `complete`, `reapExhausted`, `reapRetryable`: the instant path.
* `digestBatch`, `completeBatch`, `failBatch`: the digest path.
* `deleteTerminalForAction`: the delete of a replacing backfill.
* **`completeBatch_eq_update`**: the chunked updates of a batch are one update.

New rows take their ids from a function `mint`; the operations that insert say which ids it was
asked for.
-/

set_option autoImplicit false

namespace OpenMagpie

open WatchActionRunState Batched

variable (S : Settings)

/-- The `completed_at` of a run resting at `state` with `attempts` burned. -/
def completionTs (state : WatchActionRunState) (attempts : ℕ) (now : Time) : Option Time :=
  if state ∈ terminalStates ∨ (state = failed ∧ S.watchRunMaxAttempts ≤ attempts) then some now
  else none

/-! ## Inserts -/

/-- The trigger's enqueue chunk, `_ENQUEUE_CHUNK`. -/
def enqueueChunkSize : ℕ := 500

/-- The ids per statement, `ID_IN_CHUNK`. -/
def idInChunk : ℕ := 500

/-- A fresh pending row. -/
def newRun (id account watch action : Id) (kind : String) (item : Id) (scheduledAt : Time)
    (prior : Option Id) : WatchActionRun where
  id := id
  accountId := account
  watchId := watch
  actionId := action
  kind := kind
  feedItemId := item
  scheduledAt := some scheduledAt
  priorRunId := prior

/-- `enqueue`: the new row, or none when the key is taken. -/
def enqueue (id account watch action : Id) (kind : String) (item : Id) (scheduledAt : Time)
    (prior : Option Id) (runs : List WatchActionRun) :
    List WatchActionRun × Option WatchActionRun :=
  let row := newRun id account watch action kind item scheduledAt prior
  if row.key ∈ runs.map WatchActionRun.key then (runs, none) else (runs ++ [row], some row)

/-- `_enqueue_chunk`: read the items that have a run, insert the rest; the number of new rows. -/
def enqueueChunk (mint : Id → Id) (account watch action : Id) (kind : String) (scheduledAt : Time)
    (chunk : List Id) (runs : List WatchActionRun) : Except String (List WatchActionRun × ℕ) :=
  if enqueueChunkSize < chunk.length then
    .error s!"chunk of {chunk.length} exceeds _ENQUEUE_CHUNK={enqueueChunkSize}"
  else
    let have_ := runs.filter fun r => decide (r.accountId = account ∧ r.watchId = watch ∧
      r.actionId = action ∧ r.feedItemId ∈ chunk)
    let rows := (chunk.filter fun item => decide (item ∉ have_.map (·.feedItemId))).map fun item =>
      newRun (mint item) account watch action kind item scheduledAt none
    .ok (Table.bulkInsert WatchActionRun.key rows runs, rows.length)

/-- `enqueue_many`: the chunks of a stream of items, one after the other. -/
def enqueueMany (mint : Id → Id) (account watch action : Id) (kind : String) (scheduledAt : Time)
    (items : List Id) (runs : List WatchActionRun) : Except String (List WatchActionRun × ℕ) :=
  (batched enqueueChunkSize items).foldlM
    (fun (acc : List WatchActionRun × ℕ) chunk => do
      let (runs, new) ← enqueueChunk mint account watch action kind scheduledAt chunk acc.1
      return (runs, acc.2 + new)) (runs, 0)

/-- `enqueue_advance_batch`: one row per watch, item and prior run, for one successor. -/
def enqueueAdvanceBatch (mint : Id → Id) (account action : Id) (kind : String) (scheduledAt : Time)
    (rows : List (Id × Id × Id)) (runs : List WatchActionRun) : List WatchActionRun :=
  Table.bulkInsert WatchActionRun.key (rows.map fun (watch, item, prior) =>
    newRun (mint prior) account watch action kind item scheduledAt (some prior)) runs

/-! ## The instant path -/

/-- The action has a window row. -/
def hasWindow (windows : List WatchActionDigestWindow) (account action : Id) : Prop :=
  (account, action) ∈ windows.map WatchActionDigestWindow.key

instance (windows : List WatchActionDigestWindow) (account action : Id) :
    Decidable (hasWindow windows account action) := by
  unfold hasWindow; infer_instance

/-- The filter of `_due_runs` at `ts`. -/
def IsDue (windows : List WatchActionDigestWindow) (ts : Time) (r : WatchActionRun) : Prop :=
  r.state ∈ claimableStates ∧ r.attempts < S.watchRunMaxAttempts ∧
    (∃ t ∈ r.scheduledAt, t ≤ ts) ∧ ¬ hasWindow windows r.accountId r.actionId

instance (windows : List WatchActionDigestWindow) (ts : Time) (r : WatchActionRun) :
    Decidable (IsDue S windows ts r) := by
  unfold IsDue; infer_instance

/-- `_due_runs`: the runs eligible to drain at `ts`. -/
def dueRuns (windows : List WatchActionDigestWindow) (ts : Time) (runs : List WatchActionRun) :
    List WatchActionRun :=
  runs.filter fun r => decide (IsDue S windows ts r)

/-- The claim's condition: still in the state of the candidate `run`, under the cap. -/
def claimGuard (run r : WatchActionRun) : Bool :=
  decide (r.id = run.id ∧ r.state = run.state ∧ r.attempts < S.watchRunMaxAttempts)

/-- A claimed row. -/
def claimedRow (ts : Time) (r : WatchActionRun) : WatchActionRun :=
  { r with state := running, startedAt := some ts, attempts := r.attempts + 1 }

/-- The claiming UPDATE of `claim_due`. -/
def claimRun (run : WatchActionRun) (ts : Time) (runs : List WatchActionRun) :
    List WatchActionRun :=
  Table.update (claimGuard S run) (claimedRow ts) runs

/-- The claim flipped a row. -/
def claimWins (run : WatchActionRun) (runs : List WatchActionRun) : Bool :=
  runs.any (claimGuard S run)

/-- The guard of `complete`: still running under this claim. -/
def completeGuard (run r : WatchActionRun) : Bool :=
  decide (r.id = run.id ∧ r.state = running ∧ r.attempts = run.attempts)

/-- A completed row: the result, and the delivery and the kind when they are given. -/
def completedRow (res : ActionResult) (completedAt : Option Time) (deliveryId : Option Id)
    (kind : Option String) (r : WatchActionRun) : WatchActionRun :=
  { r with
    state := res.state
    result := res.result
    error := res.error
    completedAt := completedAt
    deliveryId := deliveryId <|> r.deliveryId
    kind := (kind.filter fun k => decide (k ≠ "")).getD r.kind }

/-- The UPDATE of `complete`. -/
def complete (run : WatchActionRun) (res : ActionResult) (deliveryId : Option Id)
    (kind : Option String) (now : Time) (runs : List WatchActionRun) : List WatchActionRun :=
  Table.update (completeGuard run)
    (completedRow res (completionTs S res.state run.attempts now) deliveryId kind) runs

/-- The completion won its claim. -/
def completeWins (run : WatchActionRun) (runs : List WatchActionRun) : Bool :=
  runs.any (completeGuard run)

/-- Stuck in running past the cutoff of a reaper at `ts`. -/
def IsStale (ts : Time) (r : WatchActionRun) : Prop :=
  r.state = running ∧ ∃ t ∈ r.startedAt, t < ts - S.watchRunStaleSeconds

instance (ts : Time) (r : WatchActionRun) : Decidable (IsStale S ts r) := by
  unfold IsStale; infer_instance

/-- A stale run without attempts left: terminal. -/
def reapedExhausted (ts : Time) (r : WatchActionRun) : WatchActionRun :=
  { r with state := failed, error := RunMessages.timedOutExhausted, completedAt := some ts }

/-- A stale run with attempts left: back in the retry pool. -/
def reapedRetryable (r : WatchActionRun) : WatchActionRun :=
  { r with state := failed, error := RunMessages.timedOut, completedAt := none }

/-- The first UPDATE of `reap_stale`. -/
def reapExhausted (ts : Time) (runs : List WatchActionRun) : List WatchActionRun :=
  Table.update (fun r => decide (IsStale S ts r ∧ S.watchRunMaxAttempts ≤ r.attempts))
    (reapedExhausted ts) runs

/-- The second UPDATE of `reap_stale`. -/
def reapRetryable (ts : Time) (runs : List WatchActionRun) : List WatchActionRun :=
  Table.update (fun r => decide (IsStale S ts r ∧ r.attempts < S.watchRunMaxAttempts))
    reapedRetryable runs

/-- `reap_stale`. -/
def reapStale (ts : Time) (runs : List WatchActionRun) : List WatchActionRun :=
  reapRetryable S ts (reapExhausted S ts runs)

/-! ## The digest path -/

/-- A pending run of an action. -/
def IsPendingOf (account action : Id) (r : WatchActionRun) : Prop :=
  r.accountId = account ∧ r.actionId = action ∧ r.state = pending

instance (account action : Id) (r : WatchActionRun) : Decidable (IsPendingOf account action r) := by
  unfold IsPendingOf; infer_instance

/-- The pending runs of an action. -/
def pendingOf (account action : Id) (runs : List WatchActionRun) : List WatchActionRun :=
  runs.filter fun r => decide (IsPendingOf account action r)

/-- Fewer attempts first, then the older id. -/
def gatherLe (r r' : WatchActionRun) : Prop :=
  r.attempts < r'.attempts ∨ (r.attempts = r'.attempts ∧ r.id ≤ r'.id)

instance : DecidableRel gatherLe := fun _ _ => by unfold gatherLe; infer_instance

/-- `digest_batch`: the pending runs of an action, least tried first, at most a slice of them. -/
def digestBatch (account action : Id) (runs : List WatchActionRun) : List WatchActionRun :=
  ((pendingOf account action runs).insertionSort gatherLe).take S.digestMaxBatchItems

/-- The condition of a batch update: listed, in the account, still pending. -/
def batchGuard (account : Id) (ids : List Id) (r : WatchActionRun) : Bool :=
  decide (r.id ∈ ids ∧ r.accountId = account ∧ r.state = pending)

/-- `complete_batch`: the pending rows among `ids` get the result. -/
def completeBatch (account : Id) (ids : List Id) (res : ActionResult) (deliveryId : Option Id)
    (kind : Option String) (now : Time) (runs : List WatchActionRun) : List WatchActionRun :=
  (batched idInChunk ids).foldl (fun t chunk => Table.update (batchGuard account chunk)
    (completedRow res (some now) deliveryId kind) t) runs

/-- A batch run with one more attempt burned. -/
def burnedRow (r : WatchActionRun) : WatchActionRun :=
  { r with attempts := r.attempts + 1, error := RunMessages.transient }

/-- A batch run at the cap: terminal. -/
def exhaustedRow (now : Time) (r : WatchActionRun) : WatchActionRun :=
  { r with state := failed, error := RunMessages.transientExhausted, completedAt := some now }

/-- One chunk of `fail_batch`: burn an attempt, then move the exhausted rows out. -/
def failChunk (account : Id) (now : Time) (runs : List WatchActionRun) (chunk : List Id) :
    List WatchActionRun :=
  Table.update (fun r => batchGuard account chunk r && decide (S.watchRunMaxAttempts ≤ r.attempts))
    (exhaustedRow now) (Table.update (batchGuard account chunk) burnedRow runs)

/-- `fail_batch`. -/
def failBatch (account : Id) (ids : List Id) (now : Time) (runs : List WatchActionRun) :
    List WatchActionRun :=
  (batched idInChunk ids).foldl (failChunk S account now) runs

/-! ## The backfill's delete -/

/-- Clean, or failed for good: `_DELETABLE_TERMINAL`. -/
def IsDeletableTerminal (r : WatchActionRun) : Prop :=
  r.state ∈ terminalStates ∨ (r.state = failed ∧ r.completedAt.isSome)

instance (r : WatchActionRun) : Decidable (IsDeletableTerminal r) := by
  unfold IsDeletableTerminal; infer_instance

/-- `delete_terminal_for_action`. -/
def deleteTerminalForAction (account watch action : Id) (items : List Id)
    (runs : List WatchActionRun) : List WatchActionRun :=
  runs.filter fun r => ! decide (IsDeletableTerminal r ∧ r.accountId = account ∧
    r.watchId = watch ∧ r.actionId = action ∧ r.feedItemId ∈ items)

/-! ## Basic lemmas -/

section Rows

variable {S} {r run : WatchActionRun} {res : ActionResult} {ts : Time} {d : Option Id}
  {k : Option String} {ct : Option Time}

@[simp] theorem newRun_key (id account watch action : Id) (kind : String) (item : Id) (t : Time)
    (prior : Option Id) :
    (newRun id account watch action kind item t prior).key = (account, watch, action, item) := rfl

@[simp] theorem claimedRow_key : (claimedRow ts r).key = r.key := rfl

@[simp] theorem completedRow_key : (completedRow res ct d k r).key = r.key := rfl

@[simp] theorem reapedExhausted_key : (reapedExhausted ts r).key = r.key := rfl

@[simp] theorem reapedRetryable_key : (reapedRetryable r).key = r.key := rfl

@[simp] theorem burnedRow_key : (burnedRow r).key = r.key := rfl

@[simp] theorem exhaustedRow_key : (exhaustedRow ts r).key = r.key := rfl

theorem claimGuard_iff : claimGuard S run r = true ↔
    r.id = run.id ∧ r.state = run.state ∧ r.attempts < S.watchRunMaxAttempts := by
  simp [claimGuard]

theorem completeGuard_iff : completeGuard run r = true ↔
    r.id = run.id ∧ r.state = running ∧ r.attempts = run.attempts := by
  simp [completeGuard]

theorem batchGuard_iff {account : Id} {ids : List Id} : batchGuard account ids r = true ↔
    r.id ∈ ids ∧ r.accountId = account ∧ r.state = pending := by
  simp [batchGuard]

theorem mem_pendingOf {account action : Id} {runs : List WatchActionRun} :
    r ∈ pendingOf account action runs ↔ r ∈ runs ∧ IsPendingOf account action r := by
  simp [pendingOf]

theorem mem_of_mem_digestBatch {account action : Id} {runs : List WatchActionRun}
    (h : r ∈ digestBatch S account action runs) : r ∈ runs ∧ IsPendingOf account action r := by
  have := List.mem_of_mem_take h
  rwa [List.mem_insertionSort, mem_pendingOf] at this

theorem completionTs_isSome {state : WatchActionRunState} {n : ℕ} :
    (completionTs S state n ts).isSome ↔
      state ∈ terminalStates ∨ (state = failed ∧ S.watchRunMaxAttempts ≤ n) := by
  unfold completionTs
  split_ifs with h <;> simp [h]

end Rows

/-! ## What the inserts do -/

section Insert

variable {mint : Id → Id} {account watch action : Id} {kind : String} {t : Time}
  {runs runs' : List WatchActionRun} {n : ℕ}

/-- The rows `enqueue_many` wants for a list of items. -/
def enqueueRows (mint : Id → Id) (account watch action : Id) (kind : String) (t : Time)
    (items : List Id) : List WatchActionRun :=
  items.map fun item => newRun (mint item) account watch action kind item t none

/-- **A chunk inserts its items' rows.** -/
theorem enqueueChunk_inserted {chunk : List Id}
    (h : enqueueChunk mint account watch action kind t chunk runs = .ok (runs', n)) :
    Table.Inserted WatchActionRun.key (enqueueRows mint account watch action kind t chunk)
      runs runs' := by
  unfold enqueueChunk at h
  split_ifs at h
  injection h with h
  rw [← (Prod.mk.inj h).1]
  refine Table.Inserted.of_filter (p := fun r => decide (r.feedItemId ∉ (runs.filter fun r =>
    decide (r.accountId = account ∧ r.watchId = watch ∧ r.actionId = action ∧
      r.feedItemId ∈ chunk)).map (·.feedItemId))) ?_ ?_
  · intro x hx hp
    obtain ⟨item, _, rfl⟩ := List.mem_map.mp hx
    simp only [decide_not, Bool.not_eq_false', decide_eq_true_eq, List.mem_map] at hp
    obtain ⟨r, hr, hi⟩ := hp
    simp only [List.mem_filter, decide_eq_true_eq] at hr
    refine List.mem_map.mpr ⟨r, hr.1, ?_⟩
    simp only [WatchActionRun.key, newRun] at hi ⊢
    rw [hr.2.1, hr.2.2.1, hr.2.2.2.1, hi]
  · rw [enqueueRows, List.filter_map]
    exact Table.inserted_bulkInsert _ _

variable (mint account watch action kind t) in
/-- The guard of a chunk lets every batch of `enqueue_many` pass. -/
theorem enqueueChunk_ok {chunk : List Id} (h : chunk.length ≤ enqueueChunkSize)
    (runs : List WatchActionRun) :
    ∃ runs' n, enqueueChunk mint account watch action kind t chunk runs = .ok (runs', n) := by
  rw [enqueueChunk, if_neg (by omega)]
  exact ⟨_, _, rfl⟩

variable (mint account watch action kind t) in
theorem enqueueMany_aux {chunks : List (List Id)}
    (hc : ∀ chunk ∈ chunks, chunk.length ≤ enqueueChunkSize) (acc : List WatchActionRun × ℕ) :
    ∃ runs' n, chunks.foldlM (fun (acc : List WatchActionRun × ℕ) chunk => do
        let (runs, new) ← enqueueChunk mint account watch action kind t chunk acc.1
        return (runs, acc.2 + new)) acc = (.ok (runs', n) : Except String _) ∧
      Table.Inserted WatchActionRun.key
        (enqueueRows mint account watch action kind t chunks.flatten) acc.1 runs' := by
  induction chunks generalizing acc with
  | nil => exact ⟨acc.1, acc.2, rfl, .refl _⟩
  | cons chunk chunks ih =>
    obtain ⟨runs₁, n₁, h₁⟩ := enqueueChunk_ok mint account watch action kind t
      (hc chunk List.mem_cons_self) acc.1
    obtain ⟨runs₂, n₂, h₂, hi⟩ :=
      ih (fun c hc' => hc c (List.mem_cons_of_mem _ hc')) (runs₁, acc.2 + n₁)
    refine ⟨runs₂, n₂, ?_, ?_⟩
    · rw [List.foldlM_cons, h₁]
      exact h₂
    · rw [List.flatten_cons, enqueueRows, List.map_append]
      exact (enqueueChunk_inserted h₁).trans hi

variable (mint account watch action kind t runs) in
/-- **`enqueue_many` never raises and inserts its items' rows.** -/
theorem enqueueMany_inserted (items : List Id) :
    ∃ runs' n, enqueueMany mint account watch action kind t items runs = .ok (runs', n) ∧
      Table.Inserted WatchActionRun.key (enqueueRows mint account watch action kind t items)
        runs runs' := by
  have hlen : ∀ chunk ∈ batched enqueueChunkSize items, chunk.length ≤ enqueueChunkSize :=
    fun _ => length_le_of_mem_batched
  have h := enqueueMany_aux mint account watch action kind t hlen (runs, 0)
  rwa [flatten_batched (by decide)] at h

end Insert

/-! ## What the batch updates do -/

/-- **The chunked updates of a batch are one update.** A completed row is no longer pending, so
no later chunk selects it. -/
theorem completeBatch_eq_update (account : Id) (ids : List Id) (res : ActionResult)
    (d : Option Id) (k : Option String) (now : Time) (runs : List WatchActionRun) :
    completeBatch account ids res d k now runs =
      Table.update (batchGuard account ids) (completedRow res (some now) d k) runs := by
  rw [completeBatch, foldl_update]
  · congr 1
    funext r
    rw [Bool.eq_iff_iff, List.any_eq_true]
    simp only [batchGuard_iff]
    rw [← mem_flatten_batched (n := idInChunk) (by decide)]
    grind
  · intro b b' r _
    have := ne_pending_of_outcome res.isOutcome
    simp [batchGuard, completedRow, this]

end OpenMagpie
