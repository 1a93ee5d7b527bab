import Mathlib.Data.Int.Notation
import Mathlib.Data.List.Basic
import OpenMagpie.Lib.Json

/-!
# The rows of the watches and feeds tables

Every row type keeps the columns that the modelled operations read or write. An id is a ULID,
read as the 128-bit number it spells: its order is the order of the strings. A blank id column is
`none`. A time is a number of seconds.

* `WatchActionRunState`, `claimableStates`, `terminalStates`: the lifecycle of a run.
* `WatchActionRun`, `WatchActionDigestWindow`, `WatchAction`, `FeedItem`, `Feed`, `WatchFeed`,
  `Watch`: the rows; `WatchActionRun.key`, `WatchActionDigestWindow.key`: their unique keys.
* `ActionResult`: how one execution ended; its state is an outcome by construction.
-/

set_option autoImplicit false

namespace OpenMagpie

/-- A ULID. -/
abbrev Id := ℕ

/-- A point in time, in seconds. -/
abbrev Time := ℤ

/-! ## Run states -/

/-- The lifecycle of one run. -/
inductive WatchActionRunState
  | pending
  | running
  | succeeded
  | gated
  | errored
  | failed
  | skipped
  deriving DecidableEq, Repr

open WatchActionRunState

/-- The states the drain may claim. -/
def claimableStates : List WatchActionRunState := [pending, failed]

/-- The clean final states. -/
def terminalStates : List WatchActionRunState := [succeeded, gated, errored, skipped]

/-- The states an execution may end in. -/
def outcomeStates : List WatchActionRunState := [succeeded, gated, errored, failed, skipped]

/-- **A state is pending, running, failed or clean.** -/
theorem mem_terminalStates_or (s : WatchActionRunState) :
    s = pending ∨ s = running ∨ s = failed ∨ s ∈ terminalStates := by
  cases s <;> simp [terminalStates]

/-- An outcome is failed or clean. -/
theorem failed_or_terminal {s : WatchActionRunState} (h : s ∈ outcomeStates) :
    s = failed ∨ s ∈ terminalStates := by
  cases s <;> simp_all [outcomeStates, terminalStates]

theorem ne_pending_of_outcome {s : WatchActionRunState} (h : s ∈ outcomeStates) : s ≠ pending := by
  rintro rfl
  simp [outcomeStates] at h

theorem ne_running_of_outcome {s : WatchActionRunState} (h : s ∈ outcomeStates) : s ≠ running := by
  rintro rfl
  simp [outcomeStates] at h

theorem succeeded_isOutcome : succeeded ∈ outcomeStates := by decide

theorem errored_isOutcome : errored ∈ outcomeStates := by decide

/-- How one execution of an action ended. -/
structure ActionResult where
  state : WatchActionRunState
  result : Json := Json.empty
  error : String := ""
  isOutcome : state ∈ outcomeStates := by
    first | exact succeeded_isOutcome | exact errored_isOutcome | decide

/-- A permanent defect. -/
def ActionResult.defect (message : String) : ActionResult := { state := errored, error := message }

/-! ## Rows -/

/-- One execution of one action against one feed item. -/
structure WatchActionRun where
  id : Id
  accountId : Id
  watchId : Id
  actionId : Id
  kind : String
  feedItemId : Id
  state : WatchActionRunState := pending
  scheduledAt : Option Time := none
  startedAt : Option Time := none
  completedAt : Option Time := none
  result : Json := Json.empty
  error : String := ""
  attempts : ℕ := 0
  priorRunId : Option Id := none
  deliveryId : Option Id := none
  deriving DecidableEq

/-- The unique key of a run: account, watch, action, feed item. -/
abbrev RunKey := Id × Id × Id × Id

instance : LawfulBEq RunKey := inferInstance

/-- The unique key of a run. -/
def WatchActionRun.key (r : WatchActionRun) : RunKey :=
  (r.accountId, r.watchId, r.actionId, r.feedItemId)

/-- The digest window of one action; `closeAt` is when the open window closes. -/
structure WatchActionDigestWindow where
  accountId : Id
  actionId : Id
  closeAt : Option Time := none
  deriving DecidableEq

/-- The unique key of a window: account and action. -/
abbrev WindowKey := Id × Id

instance : LawfulBEq WindowKey := inferInstance

/-- The unique key of a window. -/
def WatchActionDigestWindow.key (w : WatchActionDigestWindow) : WindowKey :=
  (w.accountId, w.actionId)

/-- One node of a path's chain. -/
structure WatchAction where
  id : Id
  accountId : Id
  pathId : Id
  kind : String
  config : Json
  rank : ℕ
  deriving DecidableEq

/-- One item of a feed. -/
structure FeedItem where
  id : Id
  accountId : Id
  feedId : Id
  occurredAt : Option Time := none
  sourceKind : String := ""
  externalId : String := ""
  deriving DecidableEq

/-- A feed. -/
structure Feed where
  id : Id
  accountId : Id
  deriving DecidableEq

/-- A watch's subscription to a feed, with the watermark of its trigger passes. -/
structure WatchFeed where
  id : Id
  accountId : Id
  watchId : Id
  feedId : Id
  lastItemId : Option Id := none
  deriving DecidableEq

/-- A watch; `initialPathId` is the path its items start down. -/
structure Watch where
  id : Id
  accountId : Id
  initialPathId : Id
  deriving DecidableEq

/-! ## Settings and messages -/

theorem defaultMaxAttempts_pos : 0 < 3 := by decide

/-- The settings the operations read. -/
structure Settings where
  watchRunMaxAttempts : ℕ := 3
  watchRunStaleSeconds : ℤ := 600
  digestMaxBatchItems : ℕ := 500
  watchBackfillMaxAttempts : ℕ := 3
  watchBackfillStaleSeconds : ℤ := 900
  maxAttempts_pos : 0 < watchRunMaxAttempts := by first | exact defaultMaxAttempts_pos | decide

namespace RunMessages

def actionGone : String := "This action was removed before the item could be processed."

def itemGone : String :=
  "The source item is no longer available (it may have aged out of retention)."

def noExecutor : String := "This action type can't be run by the current server."

def resultInvalid : String :=
  "The action produced a result that doesn't match its registered result schema."

def transient : String :=
  "A temporary problem occurred while running this action; it will be retried."

def timedOut : String := "The run exceeded its time limit and was reset to retry."

def timedOutExhausted : String :=
  "The run repeatedly timed out and has exhausted its retry attempts."

def transientExhausted : String :=
  "This item repeatedly failed to deliver and has exhausted its retry attempts."

def backfillTargetGone : String :=
  "The target action was removed before the backfill could run."

def backfillWatchGone : String := "The watch was removed before the backfill could run."

def backfillTimedOut : String :=
  "The backfill exceeded its time limit and was reset to retry."

def backfillTimedOutExhausted : String :=
  "The backfill repeatedly timed out and has exhausted its retry attempts."

end RunMessages

end OpenMagpie
