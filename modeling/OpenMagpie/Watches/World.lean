import OpenMagpie.Lib.Interleave
import OpenMagpie.Watches.Actions

/-!
# The shared state

The tables that the passes of the watches app share, and the parts of the operations that several
passes run.

* `World`: the tables, the wall clock, the row locks held on windows, the path locks, and a ghost
  log of claims and completions.
* `Minted`: fresh ids for new rows.
* `Executors`, `enforceResultSchema`, `Resolves`: what `_resolve` can return for a run.
* `enqueueNextBatch`: the advance into a successor; `Advanced`: what it writes.

A transaction's writes land in one step. The rows it has updated stay locked until then, so their
guards hold when they are read at that step. What it reads of rows it does not lock is read in an
earlier step of its own.
-/

set_option autoImplicit false

namespace OpenMagpie

open WatchActionRunState

/-! ## The world -/

/-- What the ghost log records: the claims, numbered per run by the attempts they wrote; the
completions, under the claim that the completer made; the bounds that trigger passes read, with the
items of the feed visible then, and the ends of their scans. -/
inductive Event
  | claimed (run : Id) (claim : ℕ) (passClock clock : Time)
  | completed (run : Id) (claim : ℕ)
  | bounded (account feed : Id) (through : Id)
  | scanned (watchFeed : Id) (visible : List Id)
  deriving DecidableEq

/-- The shared state. -/
structure World where
  clock : Time := 0
  runs : List WatchActionRun := []
  windows : List WatchActionDigestWindow := []
  actions : List WatchAction := []
  items : List FeedItem := []
  feeds : List Feed := []
  watches : List Watch := []
  watchFeeds : List WatchFeed := []
  locked : List WindowKey := []
  chainLocked : List Id := []
  log : List Event := []

/-- `mint` gives every row it is asked for a new id. -/
structure Minted (runs : List WatchActionRun) (mint : Id → Id) : Prop where
  injective : Function.Injective mint
  fresh : ∀ i, ∀ r ∈ runs, r.id ≠ mint i

/-- Ids past every id of the table. -/
theorem Minted.add {runs : List WatchActionRun} {n : ℕ} (h : ∀ r ∈ runs, r.id < n) :
    Minted runs (· + n) :=
  ⟨fun _ _ h => Nat.add_right_cancel h,
    fun i r hr => Nat.ne_of_lt (Nat.lt_of_lt_of_le (h r hr) (Nat.le_add_left n i))⟩

/-- A row is determined by its id. -/
def IdUnique (runs : List WatchActionRun) : Prop := ∀ r ∈ runs, ∀ r' ∈ runs, r.id = r'.id → r = r'

/-! ## Executing an action -/

/-- The registered executors and result schemas. -/
structure Executors where
  hasImpl : String → Bool
  resultValid : String → Json → Bool

variable (E : Executors)

/-- `enforce_result_schema`: a succeeded result that violates its schema is an error. -/
def enforceResultSchema (kind : String) (outcome : ActionResult) : ActionResult :=
  if outcome.state = succeeded ∧ ¬ E.resultValid kind outcome.result then
    { state := errored, result := outcome.result, error := RunMessages.resultInvalid }
  else outcome

/-- The item of a run is stored. -/
def HasItem (items : List FeedItem) (run : WatchActionRun) : Prop :=
  ∃ i ∈ items, i.id = run.feedItemId ∧ i.accountId = run.accountId

instance (items : List FeedItem) (run : WatchActionRun) : Decidable (HasItem items run) := by
  unfold HasItem; infer_instance

/-- The results of `_resolve` for a run whose action is loaded: an implementation that raises is a
retryable failure, and one that returns is checked against its result schema. -/
inductive Resolves (items : List FeedItem) (run : WatchActionRun) :
    Option WatchAction → ActionResult → Option Id → Prop
  | actionGone : Resolves items run none (.defect RunMessages.actionGone) none
  | itemGone {a : WatchAction} (hi : ¬ HasItem items run) :
      Resolves items run (some a) (.defect RunMessages.itemGone) none
  | noExecutor {a : WatchAction} (hi : HasItem items run) (he : E.hasImpl a.kind = false) :
      Resolves items run (some a) (.defect RunMessages.noExecutor) none
  | raises {a : WatchAction} (hi : HasItem items run) (he : E.hasImpl a.kind = true) :
      Resolves items run (some a) { state := failed, error := RunMessages.transient } none
  | returns {a : WatchAction} (hi : HasItem items run) (he : E.hasImpl a.kind = true)
      (outcome : ActionResult) (deliveryId : Option Id) :
      Resolves items run (some a) (enforceResultSchema E a.kind outcome) deliveryId

/-! ## The advance -/

variable {C : Type} (R : Registry C)

/-- The rows of an advance: watch, item and prior run. -/
def advanceRows (batch : List WatchActionRun) : List (Id × Id × Id) :=
  batch.map fun r => (r.watchId, r.feedItemId, r.id)

/-- `enqueue_next_batch`, from the successor it has looked up: a digest successor's window is
opened, and the batch's runs are enqueued at its close time, or now. -/
def enqueueNextBatch (mint : Id → Id) (account : Id) (batch : List WatchActionRun)
    (succ : Option WatchAction) (now : Time) (w : World) : Except ConfigError World :=
  match batch, succ with
  | [], _ => .ok w
  | _, none => .ok w
  | batch, some nxt =>
    match digestInterval R nxt with
    | .error e => .error e
    | .ok (some n) =>
      let (windows, t) := openWindow account nxt.id n now w.windows
      .ok { w with
        windows := windows
        runs := enqueueAdvanceBatch mint account nxt.id nxt.kind t (advanceRows batch) w.runs }
    | .ok none =>
      .ok { w with
        runs := enqueueAdvanceBatch mint account nxt.id nxt.kind now (advanceRows batch) w.runs }

/-- The successor's window row is locked by another transaction, so the advance waits. -/
def Blocked (w : World) (account : Id) (succ : Option WatchAction) : Prop :=
  ∃ nxt ∈ succ, (∃ n, digestInterval R nxt = .ok (some n)) ∧ (account, nxt.id) ∈ w.locked

/-- The rows an advance wants in the successor. -/
def successorRows (mint : Id → Id) (account : Id) (nxt : WatchAction) (t : Time)
    (batch : List WatchActionRun) : List WatchActionRun :=
  batch.map fun r => newRun (mint r.id) account r.watchId nxt.id nxt.kind r.feedItemId t (some r.id)

variable {R} {mint : Id → Id} {account : Id} {batch : List WatchActionRun}
  {succ : Option WatchAction} {now : Time} {w w' : World}

/-- What an advance writes: nothing without a successor; else the batch's rows in the successor,
after its window when it is a digest. -/
inductive Advanced (R : Registry C) (mint : Id → Id) (account : Id) (batch : List WatchActionRun)
    (succ : Option WatchAction) (now : Time) (w w' : World) : Prop
  | none (h : batch = [] ∨ succ = none) (hw : w' = w)
  | instant (nxt : WatchAction) (h : succ = some nxt) (hb : batch ≠ [])
      (hd : digestInterval R nxt = .ok none)
      (hw : w' = { w with runs := w'.runs })
      (hr : Table.Inserted WatchActionRun.key (successorRows mint account nxt now batch)
        w.runs w'.runs)
  | digest (nxt : WatchAction) (n : ℕ) (h : succ = some nxt) (hb : batch ≠ [])
      (hd : digestInterval R nxt = .ok (some n))
      (hw : w' = { w with
        windows := (openWindow account nxt.id n now w.windows).1
        runs := w'.runs })
      (hr : Table.Inserted WatchActionRun.key (successorRows mint account nxt
        (openWindow account nxt.id n now w.windows).2 batch) w.runs w'.runs)

theorem enqueueAdvanceBatch_inserted (mint : Id → Id) (account : Id) (nxt : WatchAction) (t : Time)
    (batch runs : List WatchActionRun) :
    Table.Inserted WatchActionRun.key (successorRows mint account nxt t batch) runs
      (enqueueAdvanceBatch mint account nxt.id nxt.kind t (advanceRows batch) runs) := by
  rw [enqueueAdvanceBatch, advanceRows, List.map_map]
  exact Table.inserted_bulkInsert _ _

/-- **What `enqueue_next_batch` does.** -/
theorem advanced_of_enqueueNextBatch
    (h : enqueueNextBatch R mint account batch succ now w = .ok w') :
    Advanced R mint account batch succ now w w' := by
  unfold enqueueNextBatch at h
  split at h
  · exact .none (.inl rfl) (Except.ok.inj h).symm
  · exact .none (.inr rfl) (Except.ok.inj h).symm
  · rename_i hb
    split at h
    · cases h
    · rename_i n hd
      obtain rfl := Except.ok.inj h
      exact .digest _ n rfl (fun e => hb e) hd rfl (enqueueAdvanceBatch_inserted ..)
    · rename_i hd
      obtain rfl := Except.ok.inj h
      exact .instant _ rfl (fun e => hb e) hd rfl (enqueueAdvanceBatch_inserted ..)

/-- An advance writes runs and windows only. -/
theorem Advanced.frame (h : Advanced R mint account batch succ now w w') :
    w' = { w with windows := w'.windows, runs := w'.runs } := by
  cases h with
  | none _ hw => rw [hw]
  | instant _ _ _ _ hw _ => rw [hw]
  | digest _ _ _ _ _ hw _ => rw [hw]

/-- **The run table after an advance.** The old rows are there, and a new row is the row of a batch
run in the successor. -/
theorem Advanced.runs (h : Advanced R mint account batch succ now w w') :
    w.runs ⊆ w'.runs ∧ ∀ x ∈ w'.runs, x ∈ w.runs ∨ ∃ nxt ∈ succ, ∃ t, ∃ r ∈ batch,
      x = newRun (mint r.id) account r.watchId nxt.id nxt.kind r.feedItemId t (some r.id) ∧
        x.key ∉ w.runs.map WatchActionRun.key := by
  have key {nxt : WatchAction} {t : Time} (hn : succ = some nxt)
      (hr : Table.Inserted WatchActionRun.key (successorRows mint account nxt t batch)
        w.runs w'.runs) : w.runs ⊆ w'.runs ∧ ∀ x ∈ w'.runs, x ∈ w.runs ∨ ∃ nxt ∈ succ, ∃ t,
          ∃ r ∈ batch, x = newRun (mint r.id) account r.watchId nxt.id nxt.kind r.feedItemId t
            (some r.id) ∧ x.key ∉ w.runs.map WatchActionRun.key := by
    refine ⟨hr.old, fun x hx => (hr.new x hx).imp_right fun ⟨hm, hk⟩ => ?_⟩
    obtain ⟨r, hrb, rfl⟩ := List.mem_map.mp hm
    exact ⟨nxt, by simp [hn], t, r, hrb, rfl, hk⟩
  cases h with
  | none _ hw => exact hw ▸ ⟨fun _ h => h, fun _ h => .inl h⟩
  | instant nxt hn _ _ _ hr => exact key hn hr
  | digest nxt n hn _ _ _ hr => exact key hn hr

/-- After an advance every run of the batch has its row in the successor. -/
theorem Advanced.all (h : Advanced R mint account batch succ now w w') {r : WatchActionRun}
    (hr : r ∈ batch) {n : WatchAction} (hn : n ∈ succ) :
    (account, r.watchId, n.id, r.feedItemId) ∈ w'.runs.map WatchActionRun.key := by
  cases h with
  | none h0 _ =>
    rcases h0 with rfl | rfl
    · exact absurd hr List.not_mem_nil
    · cases hn
  | instant nxt hs _ _ _ hi =>
    obtain rfl : n = nxt := Option.some.inj (hn.symm.trans hs)
    exact hi.all _ (List.mem_map_of_mem hr)
  | digest nxt n' hs _ _ _ hi =>
    obtain rfl : n = nxt := Option.some.inj (hn.symm.trans hs)
    exact hi.all _ (List.mem_map_of_mem hr)

/-- An advance into a digest leaves the digest's window open. -/
theorem Advanced.opened (h : Advanced R mint account batch succ now w w') (hb : batch ≠ [])
    {nxt : WatchAction} (hs : succ = some nxt) (hd : IsDigest R nxt) :
    ∀ v ∈ w'.windows, v.key = (account, nxt.id) → v.closeAt ≠ .none := by
  obtain ⟨i, hi⟩ := hd
  cases h with
  | none h0 _ =>
    rcases h0 with h0 | h0
    · exact absurd h0 hb
    · rw [hs] at h0
      cases h0
  | instant n hs' _ hd' _ _ =>
    obtain rfl : n = nxt := Option.some.inj (hs'.symm.trans hs)
    rw [hi] at hd'
    cases hd'
  | digest n m hs' _ _ hw _ =>
    obtain rfl : n = nxt := Option.some.inj (hs'.symm.trans hs)
    rw [hw]
    exact fun v hv hk => closeAt_of_mem_openWindow hv hk

/-- The window rows after an advance: the old ones and the one of a digest successor. -/
theorem Advanced.windows (h : Advanced R mint account batch succ now w w') (k : WindowKey) :
    k ∈ w'.windows.map WatchActionDigestWindow.key ↔
      k ∈ w.windows.map WatchActionDigestWindow.key ∨
        (batch ≠ [] ∧ ∃ nxt ∈ succ, IsDigest R nxt ∧ k = (account, nxt.id)) := by
  cases h with
  | none h0 hw =>
    rw [hw]
    refine ⟨.inl, ?_⟩
    rintro (hk | ⟨hb, nxt, hn, -⟩)
    · exact hk
    · rcases h0 with h0 | rfl
      · exact absurd h0 hb
      · cases hn
  | instant nxt hs _ hd hw _ =>
    rw [hw]
    refine ⟨.inl, ?_⟩
    rintro (hk | ⟨-, n, hn, ⟨i, hi⟩, -⟩)
    · exact hk
    · obtain rfl : n = nxt := Option.some.inj (hn.symm.trans hs)
      rw [hd] at hi
      cases hi
  | digest nxt n hs hb hd hw _ =>
    rw [hw, mem_keys_openWindow, or_comm]
    refine or_congr_right ⟨fun hk => ⟨hb, nxt, hs, ⟨n, hd⟩, hk⟩, ?_⟩
    rintro ⟨-, m, hm, -, hk⟩
    obtain rfl : m = nxt := Option.some.inj (hm.symm.trans hs)
    exact hk

/-- New rows with minted ids keep ids unique. -/
theorem IdUnique.insert {runs runs' : List WatchActionRun} (h : IdUnique runs)
    (hm : Minted runs mint) {P : Id → WatchActionRun → Prop}
    (hid : ∀ i x, P i x → x.id = mint i)
    (hone : ∀ i x y, P i x → P i y → x = y)
    (hnew : ∀ x ∈ runs', x ∈ runs ∨ ∃ i, P i x) : IdUnique runs' := by
  intro x hx y hy hxy
  rcases hnew x hx with hx | ⟨i, hi⟩ <;> rcases hnew y hy with hy | ⟨j, hj⟩
  · exact h x hx y hy hxy
  · exact absurd (hxy.trans (hid j y hj)) (hm.fresh j x hx)
  · exact absurd (hxy.symm.trans (hid i x hi)) (hm.fresh i y hy)
  · have : i = j := hm.injective (by rw [← hid i x hi, ← hid j y hj, hxy])
    exact hone i x y hi (this ▸ hj)

end OpenMagpie
