import OpenMagpie.Lib.Trace
import OpenMagpie.Watches.Backfill

/-!
# Backfill passes

A worker takes a due job, claims it, reads it back and runs the operation on that copy, one
statement a step. Any number of workers and reapers share the tables with the other passes.

* `WatchActionBackfillGlobal`: the statements of the claim and of the reaper.
* `BackfillAttempt`, `Pull`: what a worker has resolved, and its place in the stream of items.
* `Backfill`, `Backfill.Step`: a worker's program points and steps.
* `BackfillReap`, `BackfillReap.Step`: the two updates of `reap_stale`.
* `BackfillThread`, `BackfillSystem`: workers, reapers and new jobs around the passes of `System`.
* `JobsKept`, **`BackfillSystem.jobsKept`**: no step drops a job, makes it additive or takes its
  marker away.
-/

set_option autoImplicit false

namespace OpenMagpie

open Interleave

/-! ## The queue -/

namespace WatchActionBackfillGlobal

variable (S : Settings)

/-- The states a job is claimed from. -/
def claimableStates : List WatchActionBackfillState := [.pending, .failed]

/-- The filter of `claim_due` at `ts`. -/
def IsDue (ts : Time) (j : WatchActionBackfill) : Prop :=
  j.state ∈ claimableStates ∧ j.attempts < S.watchBackfillMaxAttempts ∧ ∃ t ∈ j.scheduledAt, t ≤ ts

/-- The claim's condition: still in the state of the candidate `job`, under the cap. -/
def claimGuard (job j : WatchActionBackfill) : Bool :=
  decide (j.id = job.id ∧ j.state = job.state ∧ j.attempts < S.watchBackfillMaxAttempts)

/-- The claiming UPDATE of `claim_due`. -/
def claim (job : WatchActionBackfill) (ts : Time) (jobs : List WatchActionBackfill) :
    List WatchActionBackfill :=
  Table.update (claimGuard S job)
    (fun j => { j with state := .running, startedAt := some ts, attempts := j.attempts + 1 }) jobs

/-- Stuck in running past the cutoff of a reaper at `ts`. -/
def IsStale (ts : Time) (j : WatchActionBackfill) : Prop :=
  j.state = .running ∧ ∃ t ∈ j.startedAt, t < ts - S.watchBackfillStaleSeconds

instance (ts : Time) (j : WatchActionBackfill) : Decidable (IsStale S ts j) := by
  unfold IsStale; infer_instance

/-- The first UPDATE of `reap_stale`: the stale jobs without attempts left. -/
def reapExhausted (ts : Time) (jobs : List WatchActionBackfill) : List WatchActionBackfill :=
  Table.update (fun j => decide (IsStale S ts j ∧ S.watchBackfillMaxAttempts ≤ j.attempts))
    (fun j => { j with
      state := .failed, error := RunMessages.backfillTimedOutExhausted, completedAt := some ts }) jobs

/-- The second UPDATE of `reap_stale`: the stale jobs with attempts left. -/
def reapRetryable (ts : Time) (jobs : List WatchActionBackfill) : List WatchActionBackfill :=
  Table.update (fun j => decide (IsStale S ts j ∧ j.attempts < S.watchBackfillMaxAttempts))
    (fun j => { j with
      state := .failed, error := RunMessages.backfillTimedOut, completedAt := none }) jobs

end WatchActionBackfillGlobal

/-- `WatchActionBackfillService.create`. -/
def WatchActionBackfillService.create (id account watch target : Id) (source : Option Id)
    (sourceIsHead replace : Bool) (windows : RunWindows) (scheduledAt : Time) :
    WatchActionBackfill where
  toRunWindows := windows
  id := id
  accountId := account
  watchId := watch
  targetActionId := target
  sourceActionId := source
  sourceIsHead := sourceIsHead
  replace := replace
  scheduledAt := some scheduledAt

/-! ## The worker -/

/-- What a worker has resolved: its pass clock, its copy of the job, the target and the source
set. -/
structure BackfillAttempt where
  now : Time
  job : WatchActionBackfill
  target : WatchAction
  present : ResolvedPresent

/-- The place in the stream of items: the keyset cursor, and the ids of its pages that no chunk has
taken. -/
structure Pull where
  cursor : Option Id := none
  buffer : List Id := []

/-- Where a backfill worker stands. The counts are those of its own attempt. -/
inductive Backfill
  | idle
  | started (now : Time)
  | candidate (now : Time) (job : WatchActionBackfill)
  | claimed (now : Time) (id : Id)
  | held (now : Time) (job : WatchActionBackfill)
  | targeted (now : Time) (job : WatchActionBackfill) (target : WatchAction)
  | watched (now : Time) (job : WatchActionBackfill) (target : WatchAction) (watch : Watch)
  | sourced (now : Time) (job : WatchActionBackfill) (target : WatchAction) (source : Source)
  | counted (now : Time) (job : WatchActionBackfill) (target : WatchAction) (source : Source)
      (matched : ℕ)
  | walking (a : BackfillAttempt) (action : WatchAction) (deleted : ℕ)
  | walked (a : BackfillAttempt) (action : WatchAction) (deleted : ℕ)
  | stamping (a : BackfillAttempt) (deleted : ℕ)
  | streaming (a : BackfillAttempt) (deleted : ℕ) (pull : Pull) (enqueued : ℕ)
  | chunking (a : BackfillAttempt) (deleted : ℕ) (chunk : List Id) (rest : Option Pull)
      (enqueued : ℕ)
  | inserting (a : BackfillAttempt) (deleted : ℕ) (items : List Id) (rest : Option Pull)
      (enqueued : ℕ)
  | finishing (a : BackfillAttempt) (deleted enqueued : ℕ)
  | failing (now : Time) (job : WatchActionBackfill) (message : String)

/-- The page of `_iter_ids_keyset`. -/
def keysetPageSize : ℕ := 500

namespace BackfillAttempt

variable (a : BackfillAttempt)

/-- Where `_delete_phase` begins: an additive job and one whose copy has the marker skip the
walk. -/
def deletePhase : Backfill :=
  if a.job.replace = false then .streaming a 0 {} 0
  else if a.job.replaceDeletedAt.isSome then .streaming a a.job.deleted {} 0
  else .walking a a.target 0

/-- The delete of one action of the walk. The source set is a subquery of the statement. -/
def delete (action : WatchAction) (s : BackfillStore) : List WatchActionRun :=
  deleteTerminalForAction a.job.accountId a.job.watchId action.id
    (a.present.source.ids a.job.accountId a.job.toRunWindows s.items s.runs) s.runs

/-- The guarded stamp of the marker. -/
def stamp (deleted : ℕ) (jobs : List WatchActionBackfill) : List WatchActionBackfill :=
  Table.update (backfillGuard a.job)
    (fun j => { j with replaceDeletedAt := some a.now, deleted := deleted }) jobs

/-- The attempt after the stamp, which marks its copy whether or not it has stamped the row. -/
def stamped (deleted : ℕ) : BackfillAttempt :=
  { a with job := { a.job with replaceDeletedAt := some a.now, deleted := deleted } }

/-- The next page of the stream. -/
def page (cursor : Option Id) (s : BackfillStore) : List Id :=
  ((a.present.source.ids a.job.accountId a.job.toRunWindows s.items s.runs).filter fun i =>
    decide (∀ c ∈ cursor, c < i)).take keysetPageSize

/-- After a page. An empty one ends the stream; a chunk is taken when it is full or the stream has
ended. -/
def pulled (deleted enqueued : ℕ) (pull : Pull) (page : List Id) : Backfill :=
  match page.getLast? with
  | none =>
    if pull.buffer = [] then .finishing a deleted enqueued
    else .chunking a deleted pull.buffer none enqueued
  | some last =>
    let buffer := pull.buffer ++ page
    if buffer.length < enqueueChunkSize then .streaming a deleted ⟨some last, buffer⟩ enqueued
    else .chunking a deleted (buffer.take enqueueChunkSize)
      (some ⟨some last, buffer.drop enqueueChunkSize⟩) enqueued

/-- The items of a chunk without a run of the target. -/
def missing (chunk : List Id) (runs : List WatchActionRun) : List Id :=
  let have_ := runs.filter fun r => decide (r.accountId = a.job.accountId ∧
    r.watchId = a.job.watchId ∧ r.actionId = a.target.id ∧ r.feedItemId ∈ chunk)
  chunk.filter fun item => decide (item ∉ have_.map (·.feedItemId))

/-- The rows of a chunk. -/
def rows (mint : Id → Id) (items : List Id) : List WatchActionRun :=
  enqueueRows mint a.job.accountId a.job.watchId a.target.id a.target.kind a.now items

/-- After a chunk. -/
def resumed (deleted : ℕ) (rest : Option Pull) (enqueued : ℕ) : Backfill :=
  match rest with
  | none => .finishing a deleted enqueued
  | some pull => .streaming a deleted pull enqueued

/-- The counts of a finished attempt. -/
def counts (deleted enqueued : ℕ) : BackfillCounts :=
  ⟨a.present.matched, a.present.presentCount, a.present.matched - a.present.presentCount, deleted,
    enqueued⟩

end BackfillAttempt

/-- The steps of a backfill worker. -/
inductive Backfill.Step (S : Settings) : Backfill → BackfillStore → BackfillStore → Backfill → Prop
  | start {s : BackfillStore} : Step S .idle s s (.started s.clock)
  | candidate {s : BackfillStore} {now : Time} {job : WatchActionBackfill}
      (hj : job ∈ s.backfills) (hd : WatchActionBackfillGlobal.IsDue S now job) :
      Step S (.started now) s s (.candidate now job)
  | claim {s : BackfillStore} {now : Time} {job j : WatchActionBackfill} (hj : j ∈ s.backfills)
      (hg : WatchActionBackfillGlobal.claimGuard S job j = true) :
      Step S (.candidate now job) s
        { s with backfills := WatchActionBackfillGlobal.claim S job now s.backfills }
        (.claimed now job.id)
  | skip {s : BackfillStore} {now : Time} {job : WatchActionBackfill}
      (hg : ∀ j ∈ s.backfills, WatchActionBackfillGlobal.claimGuard S job j = false) :
      Step S (.candidate now job) s s (.started now)
  | refresh {s : BackfillStore} {now : Time} {j : WatchActionBackfill} (hj : j ∈ s.backfills) :
      Step S (.claimed now j.id) s s (.held now j)
  | target {s : BackfillStore} {now : Time} {job : WatchActionBackfill} {target : WatchAction}
      (ht : getAction job.accountId job.targetActionId s.actions = some target) :
      Step S (.held now job) s s (.targeted now job target)
  | targetGone {s : BackfillStore} {now : Time} {job : WatchActionBackfill}
      (ht : getAction job.accountId job.targetActionId s.actions = none) :
      Step S (.held now job) s s (.failing now job RunMessages.backfillTargetGone)
  | watch {s : BackfillStore} {now : Time} {job : WatchActionBackfill} {target : WatchAction}
      {watch : Watch} (hh : job.sourceIsHead = true)
      (hw : s.watches.find? (fun x => decide (x.id = job.watchId ∧ x.accountId = job.accountId)) =
        some watch) : Step S (.targeted now job target) s s (.watched now job target watch)
  | watchGone {s : BackfillStore} {now : Time} {job : WatchActionBackfill} {target : WatchAction}
      (hh : job.sourceIsHead = true)
      (hw : s.watches.find? (fun x => decide (x.id = job.watchId ∧ x.accountId = job.accountId)) =
        none) :
      Step S (.targeted now job target) s s (.failing now job RunMessages.backfillWatchGone)
  | feeds {s : BackfillStore} {now : Time} {job : WatchActionBackfill} {target : WatchAction}
      {watch : Watch} :
      Step S (.watched now job target watch) s s
        (.sourced now job target (.head ((watchFeedsOf watch s.watchFeeds).map (·.feedId))))
  | predecessor {s : BackfillStore} {now : Time} {job : WatchActionBackfill} {target : WatchAction}
      (hh : job.sourceIsHead = false) :
      Step S (.targeted now job target) s s
        (.sourced now job target (.predecessor job.sourceActionId))
  -- without a bound the head's queries raise, and the worker stops
  | countHead {s : BackfillStore} {now : Time} {job : WatchActionBackfill} {target : WatchAction}
      {feedIds : List Id} {n : ℕ} (hb : job.occurredSince ≠ none ∨ job.occurredUntil ≠ none)
      (hn : n = ((Source.head feedIds).present job.accountId job.toRunWindows s.items
        s.runs).length) :
      Step S (.sourced now job target (.head feedIds)) s s
        (BackfillAttempt.deletePhase ⟨now, job, target, n, n, .head feedIds⟩)
  | countSucceeded {s : BackfillStore} {now : Time} {job : WatchActionBackfill}
      {target : WatchAction} {source : Option Id} :
      Step S (.sourced now job target (.predecessor source)) s s
        (.counted now job target (.predecessor source)
          (succeededInWindow job.accountId source job.toRunWindows s.items s.runs).length)
  | countExisting {s : BackfillStore} {now : Time} {job : WatchActionBackfill}
      {target : WatchAction} {source : Source} {matched : ℕ} :
      Step S (.counted now job target source matched) s s
        (BackfillAttempt.deletePhase ⟨now, job, target, matched,
          (source.present job.accountId job.toRunWindows s.items s.runs).length, source⟩)
  | delete {s : BackfillStore} {a : BackfillAttempt} {action : WatchAction} {deleted : ℕ} :
      Step S (.walking a action deleted) s { s with runs := a.delete action s }
        (.walked a action (deleted + (s.runs.length - (a.delete action s).length)))
  | next {s : BackfillStore} {a : BackfillAttempt} {action nxt : WatchAction} {deleted : ℕ}
      (hn : nextInChain a.job.accountId action s.actions = some nxt) :
      Step S (.walked a action deleted) s s (.walking a nxt deleted)
  | tail {s : BackfillStore} {a : BackfillAttempt} {action : WatchAction} {deleted : ℕ}
      (hn : nextInChain a.job.accountId action s.actions = none) :
      Step S (.walked a action deleted) s s (.stamping a deleted)
  | stamp {s : BackfillStore} {a : BackfillAttempt} {deleted : ℕ} :
      Step S (.stamping a deleted) s { s with backfills := a.stamp deleted s.backfills }
        (.streaming (a.stamped deleted) deleted {} 0)
  | page {s : BackfillStore} {a : BackfillAttempt} {deleted enqueued : ℕ} {pull : Pull} :
      Step S (.streaming a deleted pull enqueued) s s
        (a.pulled deleted enqueued pull (a.page pull.cursor s))
  | covered {s : BackfillStore} {a : BackfillAttempt} {deleted enqueued : ℕ} {chunk : List Id}
      {rest : Option Pull} (hm : a.missing chunk s.runs = []) :
      Step S (.chunking a deleted chunk rest enqueued) s s (a.resumed deleted rest enqueued)
  | chunk {s : BackfillStore} {a : BackfillAttempt} {deleted enqueued : ℕ} {chunk : List Id}
      {rest : Option Pull} (hm : a.missing chunk s.runs ≠ []) :
      Step S (.chunking a deleted chunk rest enqueued) s s
        (.inserting a deleted (a.missing chunk s.runs) rest enqueued)
  | insert {s : BackfillStore} {a : BackfillAttempt} {deleted enqueued : ℕ} {items : List Id}
      {rest : Option Pull} {mint : Id → Id} (hm : Minted s.runs mint) :
      Step S (.inserting a deleted items rest enqueued) s
        { s with runs := Table.bulkInsert WatchActionRun.key (a.rows mint items) s.runs }
        (a.resumed deleted rest (enqueued + items.length))
  | finish {s : BackfillStore} {a : BackfillAttempt} {deleted enqueued : ℕ} :
      Step S (.finishing a deleted enqueued) s
        (WatchBackfillOperation.finish S a.now a.job .done (some (a.counts deleted enqueued)) ""
          false s) (.started a.now)
  | fail {s : BackfillStore} {now : Time} {job : WatchActionBackfill} {message : String} :
      Step S (.failing now job message) s (WatchBackfillOperation.fail S now job message s)
        (.started now)
  | crash {b : Backfill} {s : BackfillStore} : Step S b s s .idle

/-! ## The reaper -/

/-- Where a reaper of the job queue stands. -/
inductive BackfillReap
  | idle
  | started (now : Time)
  | halfway (now : Time)

/-- The steps of a reaper of the job queue. -/
inductive BackfillReap.Step (S : Settings) :
    BackfillReap → BackfillStore → BackfillStore → BackfillReap → Prop
  | start {s : BackfillStore} : Step S .idle s s (.started s.clock)
  | exhausted {s : BackfillStore} {now : Time} :
      Step S (.started now) s
        { s with backfills := WatchActionBackfillGlobal.reapExhausted S now s.backfills }
        (.halfway now)
  | retryable {s : BackfillStore} {now : Time} :
      Step S (.halfway now) s
        { s with backfills := WatchActionBackfillGlobal.reapRetryable S now s.backfills } .idle
  | crash {r : BackfillReap} {s : BackfillStore} : Step S r s s .idle

/-! ## The system -/

/-- One thread: of the other passes, a worker, a reaper, or the requests for new jobs. -/
inductive BackfillThread
  | pass (t : Thread)
  | worker (b : Backfill)
  | reap (r : BackfillReap)
  | submit

/-- A thread before its first step. -/
def BackfillThread.Idle : BackfillThread → Prop
  | .pass t => t.Idle
  | .worker b => b = .idle
  | .reap r => r = .idle
  | .submit => True

variable {C : Type} (S : Settings) (E : Executors) (R : Registry C)

/-- **The system with the job queue.** -/
inductive BackfillSystem (on : Component → Prop) : ThreadRel BackfillStore BackfillThread
  | pass {t t' : Thread} {s : BackfillStore} {w : World} (h : System S E R on t s.toWorld w t') :
      BackfillSystem on (.pass t) s { s with toWorld := w } (.pass t')
  | worker {b b' : Backfill} {s s' : BackfillStore} (h : b.Step S s s' b') :
      BackfillSystem on (.worker b) s s' (.worker b')
  | reap {r r' : BackfillReap} {s s' : BackfillStore} (h : r.Step S s s' r') :
      BackfillSystem on (.reap r) s s' (.reap r')
  | submit {s : BackfillStore} {id account watch target : Id} {source : Option Id}
      {head replace : Bool} {windows : RunWindows} {t : Time} (hid : ∀ j ∈ s.backfills, j.id ≠ id) :
      BackfillSystem on .submit s
        { s with backfills := s.backfills ++ [WatchActionBackfillService.create id account watch
            target source head replace windows t] } .submit

/-- Every thread idle; the id determines a job. -/
def BackfillInit (c : Conf BackfillStore BackfillThread) : Prop :=
  (c.shared.backfills.map (·.id)).Nodup ∧ ∀ p, (c.thread p).Idle

/-! ## What the steps keep of the jobs -/

/-- No job is dropped or becomes another's, and a job stays as it was requested and marked. -/
structure JobsKept (jobs jobs' : List WatchActionBackfill) : Prop where
  nodup : (jobs.map (·.id)).Nodup → (jobs'.map (·.id)).Nodup
  old : ∀ j ∈ jobs, ∃ j' ∈ jobs', j'.id = j.id ∧ j'.replace = j.replace ∧
    (j.replaceDeletedAt.isSome → j'.replaceDeletedAt.isSome)

theorem JobsKept.refl (jobs : List WatchActionBackfill) : JobsKept jobs jobs :=
  ⟨id, fun j hj => ⟨j, hj, rfl, rfl, id⟩⟩

theorem JobsKept.update {jobs : List WatchActionBackfill} {p : WatchActionBackfill → Bool}
    {f : WatchActionBackfill → WatchActionBackfill} (hid : ∀ j, (f j).id = j.id)
    (hr : ∀ j, (f j).replace = j.replace)
    (hm : ∀ j, j.replaceDeletedAt.isSome → (f j).replaceDeletedAt.isSome) :
    JobsKept jobs (Table.update p f jobs) := by
  refine ⟨fun h => ?_, fun j hj => ?_⟩
  · rw [Table.map_update _ fun j _ => hid j]
    exact h
  · by_cases hp : p j
    · exact ⟨f j, Table.mem_update_of hj hp, hid j, hr j, hm j⟩
    · exact ⟨j, Table.mem_update_of_not hj (Bool.not_eq_true _ ▸ hp), rfl, rfl, id⟩

theorem JobsKept.append {jobs : List WatchActionBackfill} {job : WatchActionBackfill}
    (h : ∀ j ∈ jobs, j.id ≠ job.id) : JobsKept jobs (jobs ++ [job]) := by
  refine ⟨fun hn => ?_, fun j hj => ⟨j, List.mem_append_left _ hj, rfl, rfl, id⟩⟩
  rw [List.map_append, List.nodup_append']
  refine ⟨hn, List.nodup_singleton _, ?_⟩
  intro i hi hi'
  obtain ⟨j, hj, rfl⟩ := List.mem_map.mp hi
  exact h j hj (List.mem_singleton.mp hi')

section Kept

variable {S}

theorem WatchBackfillOperation.finish_jobsKept (now : Time) (job : WatchActionBackfill)
    (state : WatchActionBackfillState) (counts : Option BackfillCounts) (error : String)
    (exhaust : Bool) (s : BackfillStore) :
    JobsKept s.backfills (finish S now job state counts error exhaust s).backfills := by
  exact .update (fun j => by cases counts <;> cases exhaust <;> rfl)
    (fun j => by cases counts <;> cases exhaust <;> rfl)
    fun j h => by cases counts <;> cases exhaust <;> exact h

theorem Backfill.Step.jobsKept {b b' : Backfill} {s s' : BackfillStore} (h : b.Step S s s' b') :
    JobsKept s.backfills s'.backfills := by
  cases h with
  | claim => exact .update (fun _ => rfl) (fun _ => rfl) fun _ => id
  | stamp => exact .update (fun _ => rfl) (fun _ => rfl) fun _ _ => rfl
  | finish => exact WatchBackfillOperation.finish_jobsKept ..
  | fail => exact WatchBackfillOperation.finish_jobsKept ..
  | _ => exact .refl _

theorem BackfillReap.Step.jobsKept {r r' : BackfillReap} {s s' : BackfillStore}
    (h : r.Step S s s' r') : JobsKept s.backfills s'.backfills := by
  cases h with
  | exhausted => exact .update (fun _ => rfl) (fun _ => rfl) fun _ => id
  | retryable => exact .update (fun _ => rfl) (fun _ => rfl) fun _ => id
  | _ => exact .refl _

variable {E R}

/-- **Every step keeps the jobs.** -/
theorem BackfillSystem.jobsKept {on : Component → Prop} {t t' : BackfillThread}
    {s s' : BackfillStore} (h : BackfillSystem S E R on t s s' t') :
    JobsKept s.backfills s'.backfills := by
  cases h with
  | pass _ => exact .refl _
  | worker h => exact h.jobsKept
  | reap h => exact h.jobsKept
  | submit hid => exact .append hid

end Kept

end OpenMagpie
