import OpenMagpie.Watches.Rows

/-!
# One flush, alone

`WatchDigestFlushOperation` from its first slice to its end, as a function on the store: what it
does when nothing else writes. What the impl answers is given from outside, one answer a call.

* `Emission`, `Emission.result`: an answer of the impl, and the result that the flush settles.
* `windowBounds`, `resolveAction`: what a slice reads of its window and its action.
* `Flushing`: the store with a ghost history: the slices gathered, the batches handed to the impl,
  and the run table after every commit.
* `flushSlice`, `drainWindow`: one slice, and the loop over the slices.
-/

set_option autoImplicit false

namespace OpenMagpie

open WatchActionRunState

/-- What the impl does with a batch: it raises, or returns an outcome, with the id of the delivery
row that is recorded for it. -/
inductive Emission
  | raises
  | returns (outcome : ActionResult) (deliveryId : Option Id)

/-- A batch handed to the impl, the bounds of its window, and the checked result; none when the
impl raised. -/
structure Handed where
  batch : List WatchActionRun
  bounds : Option Time × Option Time
  result : Option ActionResult

/-- The store during a flush, and what the flush has done. -/
structure Flushing where
  world : World
  gathered : List (List WatchActionRun) := []
  handed : List Handed := []
  commits : List (List WatchActionRun) := []

variable {C : Type} (S : Settings) (E : Executors) (R : Registry C)

/-- The checked result of an answer; none when the impl raised. -/
def Emission.result (kind : String) : Emission → Option ActionResult
  | .raises => none
  | .returns outcome _ => some (enforceResultSchema E kind outcome)

/-- The delivery row of an answer. -/
def Emission.deliveryId : Emission → Option Id
  | .raises => none
  | .returns _ deliveryId => deliveryId

/-- `_window_bounds`: the window's close and the interval before it. Only a config that fails its
validation is passed over. -/
def windowBounds (window : WatchActionDigestWindow) (action : WatchAction) :
    Except ConfigError (Option Time × Option Time) :=
  match window.closeAt with
  | none => .ok (none, none)
  | some closeAt =>
    match loadConfig R action with
    | .error (.validation _) => .ok (none, some closeAt)
    | .error e => .error e
    | .ok config =>
      match R.base config with
      | none => .ok (none, some closeAt)
      | some b =>
        if b.digestIntervalSeconds = 0 then .ok (none, some closeAt)
        else .ok (some (closeAt - b.digestIntervalSeconds), some closeAt)

/-- `_resolve_action`: the action when it is stored and has an executor, or the error. -/
def resolveAction (account id : Id) (actions : List WatchAction) : Except String WatchAction :=
  match getAction account id actions with
  | none => .error RunMessages.actionGone
  | some action => if E.hasImpl action.kind then .ok action else .error RunMessages.noExecutor

/-- A run table that was committed. -/
def Flushing.commit (st : Flushing) (w : World) : Flushing :=
  { st with world := w, commits := st.commits ++ [w.runs] }

/-- Runs completed with an error, outside a transaction of their own. -/
def Flushing.complete (account : Id) (ids : List Id) (error : String) (now : Time) (st : Flushing) :
    Flushing :=
  st.commit { st.world with
    runs := completeBatch account ids (.defect error) none none now st.world.runs }

/-- The runs whose item is stored. -/
def presentRuns (items : List FeedItem) (runs : List WatchActionRun) : List WatchActionRun :=
  runs.filter fun r => decide (HasItem items r)

/-- The runs whose item is gone. -/
def goneIds (items : List FeedItem) (runs : List WatchActionRun) : List Id :=
  (runs.filter fun r => ! decide (HasItem items r)).map (·.id)

/-- The runs carry one watch. -/
def OneWatch (batch : List WatchActionRun) : Prop :=
  ∀ r ∈ batch, ∀ r' ∈ batch, r.watchId = r'.watchId

instance (batch : List WatchActionRun) : Decidable (OneWatch batch) := by
  unfold OneWatch; infer_instance

variable (mint : World → Id → Id) (emissions : ℕ → Emission) (now : Time)
  (window : WatchActionDigestWindow)

end OpenMagpie
