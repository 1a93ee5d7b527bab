import OpenMagpie.Watches.World

/-!
# The drain and the reaper

One drain worker takes a candidate, claims it, reads it back, runs its action and commits the
result together with the advance. Any number of workers may share a pass clock, and every worker
may stop at any point.

* `Drain`, `Drain.Step`: a worker's program points and steps.
* `Reap`, `Reap.Step`: the two updates of `reap_stale`.
* `Drain.holding`: the claim a worker holds, after it has read its run back.
-/

set_option autoImplicit false

namespace OpenMagpie

open WatchActionRunState

/-- A run that a worker has claimed and read back: the pass clock, the row it read, and (ghost)
the number of the worker's own claim. -/
structure Holding where
  now : Time
  run : WatchActionRun
  claim : ℕ

/-- Where a drain worker stands. -/
inductive Drain
  | idle
  | started (now : Time)
  | candidate (now : Time) (run : WatchActionRun)
  | claimed (now : Time) (id : Id) (claim : ℕ)
  | held (h : Holding)
  | resolved (h : Holding) (action : Option WatchAction)
  | judged (h : Holding) (action : Option WatchAction) (res : ActionResult)
      (deliveryId : Option Id)
  | advancing (h : Holding) (action : Option WatchAction) (res : ActionResult)
      (deliveryId : Option Id) (succ : Option WatchAction)

/-- The claim a worker holds. -/
def Drain.holding : Drain → Option Holding
  | .held h | .resolved h _ | .judged h .. | .advancing h .. => some h
  | _ => none

/-- The successor an advance looks up: only a succeeded run with a loaded action has one. -/
def lookupSuccessor (actions : List WatchAction) (account : Id) (action : Option WatchAction)
    (res : ActionResult) : Option WatchAction :=
  if res.state = succeeded then action.bind fun a => nextInChain account a actions else none

variable {C : Type} (S : Settings) (E : Executors) (R : Registry C)

/-- The run table after the UPDATE of a worker's `complete`. -/
def Holding.complete (h : Holding) (action : Option WatchAction) (res : ActionResult)
    (deliveryId : Option Id) (runs : List WatchActionRun) : List WatchActionRun :=
  OpenMagpie.complete S h.run res deliveryId (action.map (·.kind)) h.now runs

/-- The steps of a drain worker. -/
inductive Drain.Step : Drain → World → World → Drain → Prop
  | start {w : World} : Step .idle w w (.started w.clock)
  | candidate {w : World} {now : Time} {run : WatchActionRun}
      (h : run ∈ dueRuns S w.windows now w.runs) : Step (.started now) w w (.candidate now run)
  | claim {w : World} {now : Time} {run r : WatchActionRun} (hr : r ∈ w.runs)
      (hg : claimGuard S run r = true) :
      Step (.candidate now run) w
        { w with
          runs := claimRun S run now w.runs
          log := .claimed run.id (r.attempts + 1) now w.clock :: w.log }
        (.claimed now run.id (r.attempts + 1))
  | skip {w : World} {now : Time} {run : WatchActionRun} (h : claimWins S run w.runs = false) :
      Step (.candidate now run) w w (.started now)
  | refresh {w : World} {now : Time} {id : Id} {claim : ℕ} {r : WatchActionRun} (hr : r ∈ w.runs)
      (hid : r.id = id) : Step (.claimed now id claim) w w (.held ⟨now, r, claim⟩)
  | resolve {w : World} {h : Holding} :
      Step (.held h) w w (.resolved h (getAction h.run.accountId h.run.actionId w.actions))
  | judge {w : World} {h : Holding} {action : Option WatchAction} {res : ActionResult}
      {deliveryId : Option Id} (hres : Resolves E w.items h.run action res deliveryId) :
      Step (.resolved h action) w w (.judged h action res deliveryId)
  | lookup {w : World} {h : Holding} {action : Option WatchAction} {res : ActionResult}
      {deliveryId : Option Id} :
      Step (.judged h action res deliveryId) w w (.advancing h action res deliveryId
        (lookupSuccessor w.actions h.run.accountId action res))
  | commit {w w' : World} {h : Holding} {action succ : Option WatchAction} {res : ActionResult}
      {deliveryId : Option Id} {mint : Id → Id} (hwin : completeWins h.run w.runs = true)
      (hm : Minted w.runs mint) (hb : ¬ Blocked R w h.run.accountId succ)
      (hadv : enqueueNextBatch R mint h.run.accountId [h.run] succ h.now
        { w with
          runs := h.complete S action res deliveryId w.runs
          log := .completed h.run.id h.claim :: w.log } = .ok w') :
      Step (.advancing h action res deliveryId succ) w w' (.started h.now)
  | lose {w : World} {h : Holding} {action succ : Option WatchAction} {res : ActionResult}
      {deliveryId : Option Id} (hl : completeWins h.run w.runs = false) :
      Step (.advancing h action res deliveryId succ) w w (.started h.now)
  | crash {d : Drain} {w : World} : Step d w w .idle

/-! ## The reaper -/

/-- Where a reaper stands: before its first update, between the two, done. -/
inductive Reap
  | idle
  | started (now : Time)
  | halfway (now : Time)

/-- The steps of a reaper. -/
inductive Reap.Step : Reap → World → World → Reap → Prop
  | start {w : World} : Step .idle w w (.started w.clock)
  | exhausted {w : World} {now : Time} :
      Step (.started now) w { w with runs := reapExhausted S now w.runs } (.halfway now)
  | retryable {w : World} {now : Time} :
      Step (.halfway now) w { w with runs := reapRetryable S now w.runs } .idle
  | crash {r : Reap} {w : World} : Step r w w .idle

end OpenMagpie
