import OpenMagpie.Watches.World

/-!
# The digest flush

A flush takes a due window and emits the action's pending runs in slices. A slice is gathered
without a lock, emitted outside any transaction, and settled in one: its runs are completed or
failed, the chain advances, and the window closes if that drained it. The close holds the window's
row lock from its drained check to the commit.

* `Settle`: what the transaction does to the slice; `settleRuns`.
* `Flush`, `Flush.Step`: the program points and steps of `WatchDigestFlushOperation`.
-/

set_option autoImplicit false

namespace OpenMagpie

open WatchActionRunState

/-- What the transaction at the end of a slice does to the slice's runs: nothing (`_close`),
complete them (`_complete_slice`), or burn an attempt of each (`_fail_slice`). -/
inductive Settle
  | close
  | complete (action : WatchAction) (res : ActionResult) (deliveryId : Option Id)
  | fail

/-- A slice: the pass clock, the window row as it was read, and the runs. -/
structure Slice where
  now : Time
  window : WatchActionDigestWindow
  batch : List WatchActionRun

/-- The ids of a slice's runs. -/
def Slice.ids (s : Slice) : List Id := s.batch.map (·.id)

variable {C : Type} (S : Settings) (E : Executors) (R : Registry C)

/-- The run table after the transaction's updates of the slice. -/
def Slice.settle (s : Slice) (runs : List WatchActionRun) : Settle → List WatchActionRun
  | .close => runs
  | .complete action res deliveryId =>
    completeBatch s.window.accountId s.ids res deliveryId (some action.kind) s.now runs
  | .fail => failBatch S s.window.accountId s.ids s.now runs

/-- The successor the transaction looks up. -/
def Settle.successor (actions : List WatchAction) (account : Id) : Settle → Option WatchAction
  | .complete action res _ =>
    if res.state = succeeded then nextInChain account action actions else none
  | _ => none

/-- Where a flush stands. -/
inductive Flush
  | idle
  | started (now : Time)
  | due (now : Time) (window : WatchActionDigestWindow)
  | gathered (s : Slice)
  | resolved (s : Slice) (action : WatchAction)
  | fetched (s : Slice) (action : WatchAction) (gone : List Id)
  | emitting (s : Slice) (action : WatchAction)
  | settling (s : Slice) (x : Settle)
  | advancing (s : Slice) (x : Settle) (succ : Option WatchAction)
  | closing (s : Slice) (x : Settle) (succ : Option WatchAction) (mint : Id → Id)
      (locked drained : Bool)

/-- `_flush_slice` loops: a completed slice left pending runs. -/
def Settle.loops (drained : Bool) : Settle → Bool
  | .complete .. => ! drained
  | _ => false

/-- The error a slice of an unresolvable action is completed with. -/
def resolveError (action : Option WatchAction) : String :=
  if action.isSome then RunMessages.noExecutor else RunMessages.actionGone

/-- The transaction's writes: the slice's runs, then the advance. -/
def Slice.commit (s : Slice) (x : Settle) (succ : Option WatchAction) (mint : Id → Id) (w : World) :
    Except ConfigError World :=
  enqueueNextBatch R mint s.window.accountId s.batch succ s.now
    { w with runs := s.settle S w.runs x }

/-- The transaction's lock on the window row is given back. -/
def Slice.release (s : Slice) (locked : Bool) (w : World) : World :=
  { w with locked := if locked then w.locked.erase s.window.key else w.locked }

/-- The window after the transaction. A window row that was gone at the check stays as it is. -/
def Slice.close (s : Slice) (locked drained : Bool) (w : World) : World :=
  { w with
    windows := if locked && drained then closeWindow s.window.accountId s.window.actionId w.windows
      else w.windows }

/-- The steps of a flush. -/
inductive Flush.Step : Flush → World → World → Flush → Prop
  | start {w : World} : Step .idle w w (.started w.clock)
  | due {w : World} {now : Time} {window : WatchActionDigestWindow}
      (h : window ∈ iterDue now w.windows) : Step (.started now) w w (.due now window)
  | gather {w : World} {now : Time} {window : WatchActionDigestWindow}
      (h : digestBatch S window.accountId window.actionId w.runs ≠ []) :
      Step (.due now window) w w
        (.gathered ⟨now, window, digestBatch S window.accountId window.actionId w.runs⟩)
  | empty {w : World} {now : Time} {window : WatchActionDigestWindow}
      (h : digestBatch S window.accountId window.actionId w.runs = []) :
      Step (.due now window) w w (.settling ⟨now, window, []⟩ .close)
  | resolve {w : World} {s : Slice} {action : WatchAction}
      (ha : getAction s.window.accountId s.window.actionId w.actions = some action)
      (he : E.hasImpl action.kind = true) : Step (.gathered s) w w (.resolved s action)
  | unresolvable {w : World} {s : Slice}
      (ha : ∀ action, getAction s.window.accountId s.window.actionId w.actions = some action →
        E.hasImpl action.kind = false) :
      Step (.gathered s) w
        { w with
          runs := completeBatch s.window.accountId s.ids
            (.defect (resolveError (getAction s.window.accountId s.window.actionId w.actions)))
            none none s.now w.runs }
        (.settling ⟨s.now, s.window, []⟩ .close)
  | fetch {w : World} {s : Slice} {action : WatchAction} :
      Step (.resolved s action) w w (.fetched
        ⟨s.now, s.window, s.batch.filter fun r => decide (HasItem w.items r)⟩ action
        ((s.batch.filter fun r => ! decide (HasItem w.items r)).map (·.id)))
  | gone {w : World} {s : Slice} {action : WatchAction} {gone : List Id} :
      Step (.fetched s action gone) w
        { w with
          runs := completeBatch s.window.accountId gone (.defect RunMessages.itemGone) none none
            s.now w.runs }
        (if s.batch = [] then .settling s .close else .emitting s action)
  | emit {w : World} {s : Slice} {action : WatchAction} (outcome : ActionResult)
      (deliveryId : Option Id) (hone : ∀ r ∈ s.batch, ∀ r' ∈ s.batch, r.watchId = r'.watchId) :
      Step (.emitting s action) w w (.settling s
        (if (enforceResultSchema E action.kind outcome).state = failed then .fail
          else .complete action (enforceResultSchema E action.kind outcome) deliveryId))
  | raise {w : World} {s : Slice} {action : WatchAction} :
      Step (.emitting s action) w w (.settling s .fail)
  | lookup {w : World} {s : Slice} {x : Settle} :
      Step (.settling s x) w w
        (.advancing s x (x.successor w.actions s.window.accountId))
  | check {w w' : World} {s : Slice} {x : Settle} {succ : Option WatchAction} {mint : Id → Id}
      (hm : Minted w.runs mint) (hb : ¬ Blocked R w s.window.accountId succ)
      (hl : s.window.key ∉ w.locked) (hadv : s.commit S R x succ mint w = .ok w') :
      Step (.advancing s x succ) w
        (if hasWindow w.windows s.window.accountId s.window.actionId then
          { w with locked := s.window.key :: w.locked } else w)
        (.closing s x succ mint
          (decide (hasWindow w.windows s.window.accountId s.window.actionId))
          (decide (IsDrained s.window.accountId s.window.actionId w'.runs ∨
            ¬ hasWindow w.windows s.window.accountId s.window.actionId)))
  | commit {w w' : World} {s : Slice} {x : Settle} {succ : Option WatchAction} {mint : Id → Id}
      {locked drained : Bool} (hm : Minted w.runs mint)
      (hb : ¬ Blocked R (s.release locked w) s.window.accountId succ)
      (hadv : s.commit S R x succ mint (s.release locked w) = .ok w') :
      Step (.closing s x succ mint locked drained) w (s.close locked drained w')
        (if x.loops drained then .due s.now s.window else .started s.now)
  | abort {s : Slice} {w : World} {x : Settle} {succ : Option WatchAction} {mint : Id → Id}
      {locked drained : Bool} : Step (.closing s x succ mint locked drained) w
        (s.release locked w) .idle
  | crash {f : Flush} {w : World} (h : ∀ s x succ mint locked drained,
      f ≠ .closing s x succ mint locked drained) : Step f w w .idle

end OpenMagpie
