import Mathlib.Data.List.Chain
import OpenMagpie.Watches.FlushRun

/-!
# The window that a digest tells

A digest payload names the window that its batch covers. The bounds are computed when a slice is
resolved, from the close time of the window that is flushed and the interval configured then; the
batch is every pending run of the action.

* `DigestHistory`, `DigestEvent`: one digest action, with passes that arrive, edits of its interval,
  and a flush pass at a time. The ghost fields record when each run was enqueued, and in which window.
* `DigestHistory.run`: a history, event by event.
* `DigestHistory.Covered`, `DigestHistory.Disjoint`: every run was enqueued in the window of its
  payload; the windows of closed digests do not overlap.
* `windowContract`: what the bounds tell in every history.
* `DigestHistory.OnTime`: the pass that opens a window has read its clock after the one before elapsed,
  runs arrive by the close time, and the interval is the one that the window was opened with.
* **`windows_tell`**: then every run was enqueued in its window, and no two windows overlap.
* **`windows_lie`**: neither holds of every history; a pass that opens windows by its start clock
  breaks both.
-/

set_option autoImplicit false

namespace OpenMagpie

open WatchActionRunState

/-! ## Histories -/

/-- An arrival pass: the clock that it read at its start, the window length when it has read the config
to open the window with it, and the close time when a trigger pass has opened it. -/
structure ArrivalPass where
  now : Time
  interval : Option ℕ := none
  scheduledAt : Option Time := none

/-- A window, by its number: the clock of the pass that opened it, and the length it had read. -/
structure Opening where
  serial : ℕ
  now : Time
  interval : ℕ
  deriving DecidableEq

/-- When the window closes. -/
def Opening.closeAt (o : Opening) : Time := o.now + o.interval

/-- When a run was enqueued, and the window that was open then. -/
structure Enqueue where
  time : Time
  opening : Option Opening
  deriving DecidableEq

/-- A payload: the action as its slice has read it, the window that is flushed, the bounds and the
batch. -/
structure DigestPayload where
  action : WatchAction
  opening : Option Opening
  bounds : Option Time × Option Time
  batch : List WatchActionRun

/-- A window that was closed, and when. -/
structure ClosedDigest where
  opening : Opening
  time : Time

/-- Where a flush pass stands in its slice. -/
inductive FlushPoint
  | due
  | gathered (batch : List WatchActionRun)
  | emitting (batch : List WatchActionRun)
  | closing

/-- A flush pass: its clock, and the window row as it was read. -/
structure FlushPass where
  now : Time
  window : WatchActionDigestWindow
  point : FlushPoint

/-- The tables of one digest action, and the passes over them. The clock is the wall clock, and the
`created_at` of a row. -/
structure DigestHistory where
  action : WatchAction
  watchId : Id
  clock : Time := 0
  runs : List WatchActionRun := []
  windows : List WatchActionDigestWindow := []
  arrivals : List ArrivalPass := []
  flush : Option FlushPass := none
  opening : Option Opening := none
  openings : ℕ := 0
  enqueued : List (Id × Enqueue) := []
  payloads : List DigestPayload := []
  closed : List ClosedDigest := []

/-- A row to enqueue: its id, its item and its prior run. -/
structure NewRun where
  id : Id
  feedItemId : Id
  priorRunId : Option Id := none
  deriving DecidableEq

/-- What happens to the action. A pass starts (a drain, a flush of another action, a trigger pass).
A chain's advance reads the config, opens the window and enqueues in one transaction, which holds the
window from there on, and a pass may advance again and again; a trigger pass reads the config once,
opens the window in a transaction of its own, and enqueues in chunks. -/
inductive DigestEvent
  | tick (seconds : ℕ)
  | edit (config : Json)
  | arrive
  | readConfig (pass : ℕ)
  | advance (pass : ℕ) (rows : List NewRun)
  | openWindow (pass : ℕ)
  | enqueue (pass : ℕ) (rows : List NewRun)
  | due
  | gather
  | unresolvable (error : String)
  | emit (gone : List Id)
  | settle (result : Option ActionResult)
  | close
  | crash

namespace DigestHistory

variable (s : DigestHistory)

/-- `open_window`, by the clock of a pass and the interval that it has read. -/
def openFor (now : Time) (interval : ℕ) : DigestHistory × Time :=
  let (windows, closeAt) := openWindow s.action.accountId s.action.id interval now s.windows
  ({ s with
    windows := windows
    opening := s.opening <|> some ⟨s.openings, now, interval⟩
    openings := if s.opening.isSome then s.openings else s.openings + 1 }, closeAt)

/-- Pass `k` goes on as `p`. -/
def setPass (k : ℕ) (p : ArrivalPass) : DigestHistory := { s with arrivals := s.arrivals.set k p }

/-- The inserts of `enqueue_advance_batch` and `enqueue_many`. -/
def insert (scheduledAt : Time) (rows : List NewRun) : Option DigestHistory :=
  if (rows.map (·.id)).Nodup ∧ ∀ row ∈ rows, row.id ∉ s.enqueued.map (·.1) then
    some { s with
      runs := Table.bulkInsert WatchActionRun.key (rows.map fun row =>
        newRun row.id s.action.accountId s.watchId s.action.id s.action.kind row.feedItemId scheduledAt
          row.priorRunId) s.runs
      enqueued := s.enqueued ++ rows.map fun row => (row.id, ⟨s.clock, s.opening⟩) }
  else none

/-- The end of a slice: its updates and `close_if_drained`, in one transaction. -/
def settled (runs : List WatchActionRun) (next : Bool → Option FlushPass) : DigestHistory :=
  let (windows, closed) := closeIfDrained s.action.accountId s.action.id runs s.windows
  { s with
    runs := runs
    windows := windows
    flush := next closed
    opening := if closed then none else s.opening
    closed := if closed then s.closed ++ (s.opening.map (⟨·, s.clock⟩)).toList else s.closed }

/-- How a slice is settled: an impl that raises and a failed result fail it. -/
def settlement (result : Option ActionResult) : Settle :=
  match result with
  | none => .fail
  | some res => if res.state = failed then .fail else .complete s.action res none

variable {C : Type} (S : Settings) (R : Registry C)

/-- One event; none when it cannot happen. -/
def step : DigestEvent → Option DigestHistory
  | .tick seconds => some { s with clock := s.clock + seconds }
  | .edit config => match digestInterval R { s.action with config } with
    | .ok (some _) => some { s with action := { s.action with config } }
    | _ => none
  | .arrive => some { s with arrivals := s.arrivals ++ [{ now := s.clock }] }
  | .readConfig k => do
    let p ← s.arrivals[k]?
    match digestInterval R s.action with
    | .ok (some n) => some (s.setPass k { p with interval := some n })
    | _ => none
  | .advance k rows => do
    let p ← s.arrivals[k]?
    let n ← p.interval
    let (s, closeAt) := s.openFor p.now n
    (s.setPass k { p with interval := none }).insert closeAt rows
  | .openWindow k => do
    let p ← s.arrivals[k]?
    let n ← p.interval
    let (s, closeAt) := s.openFor p.now n
    if p.scheduledAt = none then
      some (s.setPass k { p with interval := none, scheduledAt := some closeAt })
    else none
  | .enqueue k rows => do
    let p ← s.arrivals[k]?
    let scheduledAt ← p.scheduledAt
    s.insert scheduledAt rows
  | .due => match s.flush, iterDue s.clock s.windows with
    | none, window :: _ => some { s with flush := some ⟨s.clock, window, .due⟩ }
    | _, _ => none
  | .gather => match s.flush with
    | some ⟨now, window, .due⟩ =>
      let batch := digestBatch S s.action.accountId s.action.id s.runs
      some { s with
        flush := some ⟨now, window, if batch = [] then .closing else .gathered batch⟩ }
    | _ => none
  | .unresolvable error => match s.flush with
    | some ⟨now, window, .gathered batch⟩ => some { s with
        runs := completeBatch s.action.accountId (batch.map (·.id)) (.defect error) none none now s.runs
        flush := some ⟨now, window, .closing⟩ }
    | _ => none
  | .emit gone => match s.flush with
    | some ⟨now, window, .gathered batch⟩ =>
      let present := batch.filter fun r => decide (r.id ∉ gone)
      let runs := completeBatch s.action.accountId
        ((batch.filter fun r => decide (r.id ∈ gone)).map (·.id)) (.defect RunMessages.itemGone) none
        none now s.runs
      if present = [] then some { s with runs := runs, flush := some ⟨now, window, .closing⟩ }
      else match windowBounds R window s.action with
        | .error _ => some { s with runs := runs, flush := none }
        | .ok bounds => some { s with
          runs := runs
          flush := some ⟨now, window, .emitting present⟩
          payloads := s.payloads ++ [⟨s.action, s.opening, bounds, present⟩] }
    | _ => none
  | .settle result => match s.flush with
    | some ⟨now, window, .emitting batch⟩ =>
      let x := s.settlement result
      some (s.settled (Slice.settle S ⟨now, window, batch⟩ s.runs x) fun closed =>
        if x.loops closed then some ⟨now, window, .due⟩ else none)
    | _ => none
  | .close => match s.flush with
    | some ⟨_, _, .closing⟩ => some (s.settled s.runs fun _ => none)
    | _ => none
  | .crash => some { s with flush := none }

/-- A history. -/
def run : List DigestEvent → DigestHistory → Option DigestHistory
  | [], s => some s
  | e :: events, s => (s.step S R e).bind (run events)

/-! ## What the windows are taken for -/

/-- Every run of a payload was enqueued within the bounds that the payload tells. -/
def Covered : Prop :=
  ∀ p ∈ s.payloads, ∀ since ∈ p.bounds.1, ∀ until_ ∈ p.bounds.2, ∀ r ∈ p.batch,
    ∀ e ∈ s.enqueued.lookup r.id, since ≤ e.time ∧ e.time ≤ until_

/-- The bounds that the payloads of two successive closed windows tell do not overlap. -/
def Disjoint : Prop :=
  s.closed.IsChain fun c c' => ∀ p ∈ s.payloads, p.opening = some c.opening →
    ∀ p' ∈ s.payloads, p'.opening = some c'.opening →
      ∀ until_ ∈ p.bounds.2, ∀ since ∈ p'.bounds.1, until_ ≤ since

instance : Decidable s.Covered := by unfold Covered; infer_instance

instance : Decidable s.Disjoint := by unfold Disjoint; infer_instance

end DigestHistory

/-! ## The window row -/

section Row

variable {account action : Id} {c : Option Time} {n : ℕ} {now : Time} {runs : List WatchActionRun}

theorem openWindow_nil : (openWindow account action n now []).1 = [⟨account, action, some (now + n)⟩] := by
  simp [openWindow, Table.insertIgnore, Table.update, WatchActionDigestWindow.key]

theorem openWindow_singleton : (openWindow account action n now [⟨account, action, c⟩]).1 =
    [⟨account, action, c <|> some (now + n)⟩] := by
  cases c <;> simp [openWindow, Table.insertIgnore, Table.update, WatchActionDigestWindow.key]

theorem closeIfDrained_singleton : closeIfDrained account action runs [⟨account, action, c⟩] =
    if IsDrained account action runs then ([⟨account, action, none⟩], true)
    else ([⟨account, action, c⟩], false) := by
  have hwindow : hasWindow [⟨account, action, c⟩] account action := List.mem_singleton.mpr rfl
  rw [closeIfDrained, if_pos hwindow]
  simp [closeWindow, Table.update, WatchActionDigestWindow.key]

/-- The bounds that a digest action tells. -/
theorem windowBounds_eq {C : Type} {R : Registry C} {window : WatchActionDigestWindow}
    {a : WatchAction} {closeAt : Time} (hc : window.closeAt = some closeAt)
    (h : digestInterval R a = .ok (some n)) : windowBounds R window a =
      .ok (if n = 0 then none else some (closeAt - n), some closeAt) := by
  rw [digestInterval] at h
  obtain ⟨config, hconfig, hn⟩ := Except.bind_eq_ok.mp h
  have hn : intervalOf R config = some n := Except.ok.inj hn
  rw [windowBounds, hc, hconfig]
  unfold intervalOf at hn
  cases hb : R.base config with
  | none =>
    rw [hb] at hn
    cases hn
  | some b =>
    simp only [hb, Option.ite_none_right_eq_some, Option.some.injEq] at hn ⊢
    obtain ⟨-, rfl⟩ := hn
    split_ifs <;> rfl

end Row

/-! ## What holds along a history -/

/-- The runs that a flush pass has gathered are pending. -/
def FlushPoint.Ok (account action : Id) (runs : List WatchActionRun) : FlushPoint → Prop
  | .gathered batch => ∀ r ∈ batch, r ∈ runs ∧ IsPendingOf account action r
  | _ => True

/-- The bounds of a payload are those of its window and its action, and the runs that it carries were
enqueued outside any window or in this one. -/
structure DigestPayload.Ok {C : Type} (R : Registry C) (enqueued : List (Id × Enqueue))
    (p : DigestPayload) (o : Opening) : Prop where
  opening : p.opening = some o
  bounds : ∃ n, digestInterval R p.action = .ok (some n) ∧
    p.bounds = (if n = 0 then none else some (o.closeAt - n), some o.closeAt)
  batch : ∀ r ∈ p.batch, ∃ e, enqueued.lookup r.id = some e ∧
    ∀ o' ∈ e.opening, o' = o ∧ o.now ≤ e.time

theorem DigestPayload.Ok.mono {C : Type} {R : Registry C} {enqueued new : List (Id × Enqueue)}
    {p : DigestPayload} {o : Opening} (h : p.Ok R enqueued o) : p.Ok R (enqueued ++ new) o := by
  refine ⟨h.opening, h.bounds, fun r hr => ?_⟩
  obtain ⟨e, he, hjoined⟩ := h.batch r hr
  exact ⟨e, by rw [List.lookup_append, he]; rfl, hjoined⟩

/-- With the interval that the window was opened with, the bounds begin at the opening. -/
theorem DigestPayload.Ok.since_eq {C : Type} {R : Registry C} {enqueued : List (Id × Enqueue)}
    {p : DigestPayload} {o : Opening}
    (h : p.Ok R enqueued o) (hn : digestInterval R p.action = .ok (some o.interval)) {since : Time}
    (hs : since ∈ p.bounds.1) : since = o.now := by
  obtain ⟨n, hn', hbounds⟩ := h.bounds
  obtain rfl := Option.some.inj (Except.ok.inj (hn'.symm.trans hn))
  rw [hbounds] at hs
  split_ifs at hs
  · cases hs
  · rw [← Option.some.inj hs, Opening.closeAt, Int.add_sub_cancel]

theorem DigestPayload.Ok.until_eq {C : Type} {R : Registry C} {enqueued : List (Id × Enqueue)}
    {p : DigestPayload} {o : Opening}
    (h : p.Ok R enqueued o) {until_ : Time} (hs : until_ ∈ p.bounds.2) : until_ = o.closeAt := by
  obtain ⟨n, -, hbounds⟩ := h.bounds
  rw [hbounds] at hs
  exact (Option.some.inj hs).symm

/-- Every row was there before, and was pending if it is. -/
def RowsKept (account action : Id) (runs runs' : List WatchActionRun) : Prop :=
  ∀ r' ∈ runs', ∃ r ∈ runs, r.id = r'.id ∧
    (IsPendingOf account action r' → IsPendingOf account action r)

theorem RowsKept.refl {account action : Id} (runs : List WatchActionRun) :
    RowsKept account action runs runs := fun r hr => ⟨r, hr, rfl, id⟩

theorem rowsKept_settle {S : Settings} {account action : Id} (slice : Slice) (x : Settle)
    (runs : List WatchActionRun) : RowsKept account action runs (slice.settle S runs x) := by
  intro r' hr'
  rw [settle_eq_map] at hr'
  obtain ⟨r, hr, rfl⟩ := List.mem_map.mp hr'
  refine ⟨r, hr, Settle.row_id.symm, fun hpending => ?_⟩
  by_cases hstate : r.state = pending
  · have hkey : (x.row S slice r).key = r.key := Settle.row_key
    simp only [WatchActionRun.key, Prod.mk.injEq] at hkey
    exact ⟨hkey.1 ▸ hpending.1, hkey.2.2.1 ▸ hpending.2.1, hstate⟩
  · rw [Settle.row_of_not_pending hstate] at hpending
    exact hpending

theorem rowsKept_completeBatch {account action acc : Id} {ids : List Id} {res : ActionResult}
    {d : Option Id} {k : Option String} {now : Time} (runs : List WatchActionRun) :
    RowsKept account action runs (completeBatch acc ids res d k now runs) := by
  intro r' hr'
  rw [completeBatch_eq_update] at hr'
  obtain ⟨r, hr, rfl⟩ := Table.mem_update.mp hr'
  refine ⟨r, hr, by split_ifs <;> rfl, fun hpending => ?_⟩
  split_ifs at hpending with hguard
  · exact ⟨hpending.1, hpending.2.1, (batchGuard_iff.mp hguard).2.2⟩
  · exact hpending

namespace DigestHistory

variable {C : Type} (R : Registry C) (s : DigestHistory)

/-- The invariant of a history. -/
structure Ok : Prop where
  digest : IsDigest R s.action
  row : s.windows = [] ∧ s.opening = none ∨
    s.windows = [⟨s.action.accountId, s.action.id, s.opening.map Opening.closeAt⟩]
  opened : ∀ o ∈ s.opening, o.now ≤ s.clock
  arrivals : ∀ p ∈ s.arrivals, p.now ≤ s.clock
  entries : ∀ r ∈ s.runs, ∃ e, s.enqueued.lookup r.id = some e ∧ ∀ o ∈ e.opening,
    o.now ≤ e.time ∧ (IsPendingOf s.action.accountId s.action.id r → s.opening = some o)
  flushing : ∀ f ∈ s.flush, f.point.Ok s.action.accountId s.action.id s.runs ∧ f.now ≤ s.clock ∧
    ∃ o, s.opening = some o ∧ f.window.closeAt = some o.closeAt ∧ o.closeAt ≤ f.now
  payloads : ∀ p ∈ s.payloads, ∃ o, p.Ok R s.enqueued o
  closed : ∀ c ∈ s.closed, c.opening.closeAt ≤ c.time

variable {R s}

theorem openFor_opening (now : Time) (n : ℕ) :
    (s.openFor now n).1.opening = (s.opening <|> some ⟨s.openings, now, n⟩) := rfl

/-- A pass opens a window by a clock that is not ahead. -/
theorem Ok.openFor (h : s.Ok R) {now : Time} {n : ℕ} (hp : now ≤ s.clock) :
    (s.openFor now n).1.Ok R := by
  have hopening := s.openFor_opening now n
  refine ⟨h.digest, .inr ?_, ?_, h.arrivals, ?_, ?_, h.payloads, h.closed⟩
  · rcases h.row with ⟨hrow, hnone⟩ | hrow
    · rw [hopening, hnone, DigestHistory.openFor, hrow]
      exact openWindow_nil
    · rw [hopening, DigestHistory.openFor, hrow]
      refine openWindow_singleton.trans ?_
      cases s.opening <;> rfl
  · intro o ho
    rw [hopening] at ho
    cases hold : s.opening with
    | none =>
      rw [hold] at ho
      obtain rfl := Option.some.inj ho
      exact hp
    | some o' =>
      rw [hold] at ho
      obtain rfl := Option.some.inj ho
      exact h.opened _ hold
  · intro r hr
    obtain ⟨e, he, hopen⟩ := h.entries r hr
    refine ⟨e, he, fun o ho => ⟨(hopen o ho).1, fun hpending => ?_⟩⟩
    rw [hopening, (hopen o ho).2 hpending]
    rfl
  · intro f hf
    obtain ⟨hpoint, hnow, o, ho, hclose⟩ := h.flushing f hf
    exact ⟨hpoint, hnow, o, by rw [hopening, ho]; rfl, hclose⟩

/-- The due window is the open one. -/
theorem Ok.opening_of_due (h : s.Ok R) {now : Time} {window : WatchActionDigestWindow}
    (hm : window ∈ iterDue now s.windows) :
    ∃ o, s.opening = some o ∧ window.closeAt = some o.closeAt ∧ o.closeAt ≤ now := by
  obtain ⟨hmem, t, ht, hle⟩ := mem_iterDue.mp hm
  rcases h.row with ⟨hnil, -⟩ | hrow
  · rw [hnil] at hmem
    cases hmem
  · rw [hrow] at hmem
    obtain rfl := List.mem_singleton.mp hmem
    obtain ⟨o, ho, rfl⟩ := Option.map_eq_some_iff.mp ht
    exact ⟨o, ho, ht, hle⟩

/-- A pass that goes on has the clock of its start. -/
theorem Ok.setPass (h : s.Ok R) {k : ℕ} {p : ArrivalPass} (hp : p.now ≤ s.clock) :
    (s.setPass k p).Ok R := by
  refine ⟨h.digest, h.row, h.opened, fun q hq => ?_, h.entries, h.flushing, h.payloads, h.closed⟩
  rcases List.mem_or_eq_of_mem_set hq with hq | rfl
  · exact h.arrivals q hq
  · exact hp

/-- Rows that are inserted are recorded with the window that is open. -/
theorem Ok.insert (h : s.Ok R) {scheduledAt : Time} {rows : List NewRun} {s' : DigestHistory}
    (hs : s.insert scheduledAt rows = some s') : s'.Ok R := by
  unfold DigestHistory.insert at hs
  split_ifs at hs with hfresh
  obtain rfl := Option.some.inj hs
  refine ⟨h.digest, h.row, h.opened, h.arrivals, fun r hr => ?_, fun f hf => ?_, fun p hp => ?_,
    h.closed⟩
  · rcases Table.mem_bulkInsert hr with hold | ⟨hnew, -⟩
    · obtain ⟨e, he, hopen⟩ := h.entries r hold
      exact ⟨e, by rw [List.lookup_append, he]; rfl, hopen⟩
    · obtain ⟨row, hrow, rfl⟩ := List.mem_map.mp hnew
      have hold : s.enqueued.lookup row.id = none :=
        List.lookup_eq_none_iff.mpr fun e he => by
          have := hfresh.2 row hrow
          simp only [List.mem_map, not_exists, not_and] at this
          simpa using fun heq => this e he heq.symm
      refine ⟨⟨s.clock, s.opening⟩, ?_, fun o ho => ⟨h.opened o ho, fun _ => ho⟩⟩
      change (s.enqueued ++ _).lookup row.id = _
      rw [List.lookup_append, hold, Option.none_or]
      refine Table.lookup_of_mem ?_ (List.mem_map_of_mem hrow)
      rw [List.map_map]
      exact hfresh.1
  · obtain ⟨hpoint, hrest⟩ := h.flushing f hf
    refine ⟨?_, hrest⟩
    cases hp : f.point with
    | gathered batch =>
      rw [hp] at hpoint
      exact fun r hr => ⟨Table.subset_bulkInsert _ _ (hpoint r hr).1, (hpoint r hr).2⟩
    | _ => trivial
  · obtain ⟨o, ho⟩ := h.payloads p hp
    exact ⟨o, ho.mono⟩

/-- **The end of a slice.** A window that closes has no pending run left. -/
theorem Ok.settled (h : s.Ok R) {runs : List WatchActionRun} {next : Bool → Option FlushPass}
    (hkept : RowsKept s.action.accountId s.action.id s.runs runs) {f : FlushPass}
    (hf : s.flush = some f) (hclosed : next true = none)
    (hnext : ∀ f' ∈ next false, f' = { f with point := .due }) : (s.settled runs next).Ok R := by
  obtain ⟨-, hnow, o, ho, hclose, hdue⟩ := h.flushing f hf
  have hrow : s.windows = [⟨s.action.accountId, s.action.id, s.opening.map Opening.closeAt⟩] :=
    h.row.resolve_left fun hnone => by rw [ho] at hnone; cases hnone.2
  have hentries (r' : WatchActionRun) (hr' : r' ∈ runs) : ∃ e, s.enqueued.lookup r'.id = some e ∧
      ∀ o ∈ e.opening, o.now ≤ e.time ∧
        (IsPendingOf s.action.accountId s.action.id r' → s.opening = some o) := by
    obtain ⟨r, hr, hid, hpending⟩ := hkept r' hr'
    obtain ⟨e, he, hopen⟩ := h.entries r hr
    exact ⟨e, hid ▸ he, fun o ho => ⟨(hopen o ho).1, fun hp => (hopen o ho).2 (hpending hp)⟩⟩
  unfold DigestHistory.settled
  rw [hrow, closeIfDrained_singleton]
  by_cases hdrained : IsDrained s.action.accountId s.action.id runs
  · rw [if_pos hdrained]
    refine ⟨h.digest, .inr rfl, nofun, h.arrivals, fun r hr => ?_, ?_, h.payloads, fun c hc => ?_⟩
    · obtain ⟨e, he, hopen⟩ := hentries r hr
      exact ⟨e, he, fun o ho => ⟨(hopen o ho).1, fun hp => absurd hp (hdrained r hr)⟩⟩
    · intro f hf
      cases hclosed.symm.trans hf
    · simp only [if_true, ho] at hc
      rcases List.mem_append.mp hc with hc | hc
      · exact h.closed c hc
      · obtain rfl := List.mem_singleton.mp hc
        exact le_trans hdue hnow
  · rw [if_neg hdrained]
    refine ⟨h.digest, .inr rfl, h.opened, h.arrivals, hentries, fun f' hf' => ?_, h.payloads,
      h.closed⟩
    obtain rfl := hnext f' hf'
    exact ⟨trivial, hnow, o, ho, hclose, hdue⟩

variable {S : Settings}

/-- Runs that are completed within a slice, which goes on at another point. -/
theorem Ok.completed (h : s.Ok R) {runs : List WatchActionRun} {payloads : List DigestPayload}
    (hkept : RowsKept s.action.accountId s.action.id s.runs runs) {f : FlushPass} {point : FlushPoint}
    (hf : s.flush = some f) (hpoint : point.Ok s.action.accountId s.action.id runs)
    (hp : ∀ p ∈ payloads, ∃ o, p.Ok R s.enqueued o) :
    ({ s with runs, payloads, flush := some { f with point } } : DigestHistory).Ok R := by
  obtain ⟨-, hnow, hopen⟩ := h.flushing f hf
  refine ⟨h.digest, h.row, h.opened, h.arrivals, fun r' hr' => ?_, fun f' hf' => ?_, hp, h.closed⟩
  · obtain ⟨r, hr, hid, hpending⟩ := hkept r' hr'
    obtain ⟨e, he, hjoined⟩ := h.entries r hr
    exact ⟨e, hid ▸ he, fun o ho => ⟨(hjoined o ho).1, fun hp => (hjoined o ho).2 (hpending hp)⟩⟩
  · obtain rfl := Option.some.inj hf'
    exact ⟨hpoint, hnow, hopen⟩

/-- The payload of a slice whose runs are pending. -/
theorem Ok.payload (h : s.Ok R) {now : Time} {window : WatchActionDigestWindow}
    {batch present : List WatchActionRun} (hf : s.flush = some ⟨now, window, .gathered batch⟩)
    (hp : present ⊆ batch) : ∃ bounds, windowBounds R window s.action = .ok bounds ∧
      ∃ o, (⟨s.action, s.opening, bounds, present⟩ : DigestPayload).Ok R s.enqueued o := by
  obtain ⟨hpending, -, o, ho, hclose, -⟩ := h.flushing _ hf
  obtain ⟨n, hn⟩ := h.digest
  refine ⟨_, windowBounds_eq hclose hn, o, ho, ⟨n, hn, rfl⟩, fun r hr => ?_⟩
  obtain ⟨hr, hpr⟩ := hpending r (hp hr)
  obtain ⟨e, he, hopen⟩ := h.entries r hr
  refine ⟨e, he, fun o' ho' => ?_⟩
  obtain rfl := Option.some.inj (((hopen o' ho').2 hpr).symm.trans ho)
  exact ⟨rfl, (hopen _ ho').1⟩

/-- What an advance does. -/
theorem advance_eq_some {k : ℕ} {rows : List NewRun} {s' : DigestHistory}
    (hs : s.step S R (.advance k rows) = some s') : ∃ p n, s.arrivals[k]? = some p ∧
      p.interval = some n ∧ ((s.openFor p.now n).1.setPass k { p with interval := none }).insert
        (s.openFor p.now n).2 rows = some s' := by
  obtain ⟨p, hp, hs⟩ := Option.bind_eq_some_iff.mp hs
  obtain ⟨n, hn, hs⟩ := Option.bind_eq_some_iff.mp hs
  exact ⟨p, n, hp, hn, hs⟩

/-- What a trigger pass does to open the window. -/
theorem openWindow_eq_some {k : ℕ} {s' : DigestHistory}
    (hs : s.step S R (.openWindow k) = some s') : ∃ p n, s.arrivals[k]? = some p ∧
      (s.openFor p.now n).1.setPass k
        { p with interval := none, scheduledAt := some (s.openFor p.now n).2 } = s' := by
  obtain ⟨p, hp, hs⟩ := Option.bind_eq_some_iff.mp hs
  obtain ⟨n, hn, hs⟩ := Option.bind_eq_some_iff.mp hs
  have hs : (if p.scheduledAt = none then some ((s.openFor p.now n).1.setPass k
      { p with interval := none, scheduledAt := some (s.openFor p.now n).2 }) else none) = some s' := hs
  split_ifs at hs
  exact ⟨p, n, hp, Option.some.inj hs⟩

/-- **Every event keeps the invariant.** -/
theorem Ok.step (h : s.Ok R) {e : DigestEvent} {s' : DigestHistory} (hs : s.step S R e = some s') :
    s'.Ok R := by
  cases e with
  | tick seconds =>
    obtain rfl := Option.some.inj hs
    have hlater {t : Time} (ht : t ≤ s.clock) : t ≤ s.clock + seconds :=
      le_trans ht (Int.le_add_of_nonneg_right (Int.natCast_nonneg _))
    exact ⟨h.digest, h.row, fun o ho => hlater (h.opened o ho), fun p hp => hlater (h.arrivals p hp),
      h.entries, fun f hf => ⟨(h.flushing f hf).1, hlater (h.flushing f hf).2.1,
        (h.flushing f hf).2.2⟩, h.payloads, h.closed⟩
  | edit config =>
    simp only [DigestHistory.step] at hs
    split at hs
    · next n hn =>
      obtain rfl := Option.some.inj hs
      exact ⟨⟨n, hn⟩, h.row, h.opened, h.arrivals, h.entries, h.flushing, h.payloads, h.closed⟩
    · cases hs
  | arrive =>
    obtain rfl := Option.some.inj hs
    refine ⟨h.digest, h.row, h.opened, fun p hp => ?_, h.entries, h.flushing, h.payloads, h.closed⟩
    rcases List.mem_append.mp hp with hp | hp
    · exact h.arrivals p hp
    · obtain rfl := List.mem_singleton.mp hp
      exact le_refl _
  | readConfig k =>
    obtain ⟨p, hp, hs⟩ := Option.bind_eq_some_iff.mp hs
    split at hs
    · obtain rfl := Option.some.inj hs
      exact h.setPass (h.arrivals p (List.mem_of_getElem? hp))
    · cases hs
  | advance k rows =>
    obtain ⟨p, n, hp, -, hs⟩ := advance_eq_some hs
    have hnow := h.arrivals p (List.mem_of_getElem? hp)
    have hpass : ((s.openFor p.now n).1.setPass k { p with interval := none }).Ok R :=
      (h.openFor hnow).setPass hnow
    exact hpass.insert hs
  | openWindow k =>
    obtain ⟨p, n, hp, rfl⟩ := openWindow_eq_some hs
    have hnow := h.arrivals p (List.mem_of_getElem? hp)
    exact (h.openFor hnow).setPass hnow
  | enqueue k rows =>
    obtain ⟨p, -, hs⟩ := Option.bind_eq_some_iff.mp hs
    obtain ⟨t, -, hs⟩ := Option.bind_eq_some_iff.mp hs
    exact h.insert hs
  | due =>
    simp only [DigestHistory.step] at hs
    split at hs
    · next window rest hflush hdue =>
      obtain rfl := Option.some.inj hs
      have hmem : window ∈ iterDue s.clock s.windows := by rw [hdue]; exact List.mem_cons_self
      refine ⟨h.digest, h.row, h.opened, h.arrivals, h.entries, fun f hf => ?_, h.payloads, h.closed⟩
      obtain rfl := Option.some.inj hf
      exact ⟨trivial, le_refl _, h.opening_of_due hmem⟩
    · cases hs
  | gather =>
    simp only [DigestHistory.step] at hs
    split at hs
    · next now window hflush =>
      obtain rfl := Option.some.inj hs
      refine h.completed (RowsKept.refl s.runs) hflush ?_ h.payloads
      split_ifs
      · trivial
      · exact fun r hr => mem_of_mem_digestBatch hr
    · cases hs
  | unresolvable error =>
    simp only [DigestHistory.step] at hs
    split at hs
    · next now window batch hflush =>
      obtain rfl := Option.some.inj hs
      exact h.completed (rowsKept_completeBatch s.runs) hflush trivial h.payloads
    · cases hs
  | emit gone =>
    simp only [DigestHistory.step] at hs
    split at hs
    · next now window batch hflush =>
      have hpresent : (batch.filter fun r => decide (r.id ∉ gone)) ⊆ batch :=
        List.filter_sublist.subset
      obtain ⟨bounds, hbounds, hpayload⟩ := h.payload hflush hpresent
      split_ifs at hs with hnone
      · obtain rfl := Option.some.inj hs
        exact h.completed (rowsKept_completeBatch s.runs) hflush trivial h.payloads
      · rw [hbounds] at hs
        obtain rfl := Option.some.inj hs
        refine h.completed (rowsKept_completeBatch s.runs) hflush trivial fun p hp => ?_
        rcases List.mem_append.mp hp with hp | hp
        · exact h.payloads p hp
        · obtain rfl := List.mem_singleton.mp hp
          exact hpayload
    · cases hs
  | settle result =>
    simp only [DigestHistory.step] at hs
    split at hs
    · next now window batch hflush =>
      obtain rfl := Option.some.inj hs
      refine h.settled (rowsKept_settle _ _ s.runs) hflush ?_ fun f' hf' => ?_
      · rw [if_neg]
        cases s.settlement result <;> simp [Settle.loops]
      · split_ifs at hf'
        · exact (Option.some.inj hf').symm
        · cases hf'
    · cases hs
  | close =>
    simp only [DigestHistory.step] at hs
    split at hs
    · next now window hflush =>
      obtain rfl := Option.some.inj hs
      exact h.settled (RowsKept.refl s.runs) hflush rfl nofun
    · cases hs
  | crash =>
    obtain rfl := Option.some.inj hs
    exact ⟨h.digest, h.row, h.opened, h.arrivals, h.entries, nofun, h.payloads, h.closed⟩

/-- **Every history keeps the invariant.** -/
theorem Ok.run (h : s.Ok R) {events : List DigestEvent} {s' : DigestHistory}
    (hs : run S R events s = some s') : s'.Ok R := by
  induction events generalizing s with
  | nil => exact Option.some.inj hs ▸ h
  | cons e events ih =>
    obtain ⟨s₁, hstep, hrest⟩ := Option.bind_eq_some_iff.mp hs
    exact ih (h.step hstep) hrest

theorem ok_start {action : WatchAction} {watchId : Id} (h : IsDigest R action) :
    ({ action, watchId } : DigestHistory).Ok R :=
  ⟨h, .inl ⟨rfl, rfl⟩, nofun, nofun, nofun, nofun, nofun, nofun⟩

/-! ## What the windows tell -/

variable (R s) in
/-- What the payloads of a history tell of their windows. -/
structure WindowContract : Prop where
  /-- The bounds: the close time of the window that is flushed, fixed when it was opened, and the
  interval configured now before it. -/
  told : ∀ p ∈ s.payloads, ∃ o n, p.opening = some o ∧ digestInterval R p.action = .ok (some n) ∧
    p.bounds = (if n = 0 then none else some (o.closeAt - n), some o.closeAt)
  /-- A run that was enqueued while a window was open was enqueued in the payload's, after the clock
  of the pass that opened it. -/
  joined : ∀ p ∈ s.payloads, ∀ r ∈ p.batch, ∃ e, s.enqueued.lookup r.id = some e ∧
    ∀ o ∈ e.opening, p.opening = some o ∧ o.now ≤ e.time
  /-- It was enqueued within the bounds when it came by the close time, and the interval is still the
  one that the window was opened with. -/
  covered : ∀ p ∈ s.payloads, ∀ o, p.opening = some o →
    digestInterval R p.action = .ok (some o.interval) → ∀ since ∈ p.bounds.1, ∀ until_ ∈ p.bounds.2,
      ∀ r ∈ p.batch, ∀ e, s.enqueued.lookup r.id = some e → e.opening ≠ none → e.time ≤ until_ →
        since ≤ e.time ∧ e.time ≤ until_
  /-- A window is closed after its close time. -/
  elapsed : ∀ c ∈ s.closed, c.opening.closeAt ≤ c.time
  /-- The bounds do not overlap those of a window that had elapsed by the clock of the opening pass, when
  the interval is still the one that the window was opened with. -/
  disjoint : ∀ c ∈ s.closed, ∀ c' ∈ s.closed, c.opening.closeAt ≤ c'.opening.now →
    ∀ p ∈ s.payloads, p.opening = some c.opening → ∀ p' ∈ s.payloads, p'.opening = some c'.opening →
      digestInterval R p'.action = .ok (some c'.opening.interval) →
        ∀ until_ ∈ p.bounds.2, ∀ since ∈ p'.bounds.1, until_ ≤ since

theorem Ok.contract (h : s.Ok R) : WindowContract R s where
  told p hp := by
    obtain ⟨o, ho⟩ := h.payloads p hp
    obtain ⟨n, hn, hbounds⟩ := ho.bounds
    exact ⟨o, n, ho.opening, hn, hbounds⟩
  joined p hp r hr := by
    obtain ⟨o, ho⟩ := h.payloads p hp
    obtain ⟨e, he, hjoined⟩ := ho.batch r hr
    refine ⟨e, he, fun o' ho' => ?_⟩
    obtain ⟨rfl, hle⟩ := hjoined o' ho'
    exact ⟨ho.opening, hle⟩
  covered p hp o hopening hn since hsince until_ huntil r hr e he hopen hle := by
    obtain ⟨o', ho⟩ := h.payloads p hp
    obtain rfl := Option.some.inj (ho.opening.symm.trans hopening)
    obtain ⟨e', he', hjoined⟩ := ho.batch r hr
    obtain rfl := Option.some.inj (he'.symm.trans he)
    obtain ⟨o'', ho''⟩ := Option.ne_none_iff_exists'.mp hopen
    rw [ho.since_eq hn hsince]
    exact ⟨(hjoined o'' ho'').2, hle⟩
  elapsed := h.closed
  disjoint c _ c' _ hle p hp hpc p' hp' hpc' hn until_ huntil since hsince := by
    obtain ⟨o, ho⟩ := h.payloads p hp
    obtain ⟨o', ho'⟩ := h.payloads p' hp'
    obtain rfl := Option.some.inj (ho.opening.symm.trans hpc)
    obtain rfl := Option.some.inj (ho'.opening.symm.trans hpc')
    rw [ho.until_eq huntil, ho'.since_eq hn hsince]
    exact hle

/-! ## Windows that tell the truth -/

variable (R s) in
/-- The condition on an event: a pass that opens a window read its clock after the window before had
elapsed, a run arrives by the close time of a window that is open, and a slice reads the interval that
its window was opened with. -/
def OnTime : DigestEvent → Prop
  | .advance k _ => ∀ p ∈ s.arrivals[k]?, ∀ n ∈ p.interval,
      (s.opening = none → (∀ c ∈ s.closed.getLast?, c.opening.closeAt ≤ p.now) ∧ s.clock ≤ p.now + n) ∧
        ∀ o ∈ s.opening, s.clock ≤ o.closeAt
  | .openWindow k => ∀ p ∈ s.arrivals[k]?, s.opening = none →
      ∀ c ∈ s.closed.getLast?, c.opening.closeAt ≤ p.now
  | .enqueue _ _ => ∃ o ∈ s.opening, s.clock ≤ o.closeAt
  | .emit _ => ∀ o ∈ s.opening, digestInterval R s.action = .ok (some o.interval)
  | _ => True

instance (e : DigestEvent) : Decidable (s.OnTime R e) := by
  cases e <;> unfold OnTime <;> infer_instance

variable (S R) in
/-- A history whose events all meet the condition. -/
def RunsOnTime : List DigestEvent → DigestHistory → Prop
  | [], _ => True
  | e :: events, s => s.OnTime R e ∧ ∀ s' ∈ s.step S R e, RunsOnTime events s'

instance decidableRunsOnTime : ∀ (events : List DigestEvent) (s : DigestHistory),
    Decidable (RunsOnTime R S events s)
  | [], _ => instDecidableTrue
  | e :: events, s =>
    haveI : DecidablePred (RunsOnTime R S events) := decidableRunsOnTime events
    inferInstanceAs (Decidable (s.OnTime R e ∧ ∀ s' ∈ s.step S R e, RunsOnTime R S events s'))

variable (R s) in
/-- What holds along such a history: every run was enqueued in a window, by its close time; every
payload was told with the interval of its window; and a window was opened after the one before had
elapsed. -/
structure Timely : Prop where
  joined : ∀ x ∈ s.enqueued, ∃ o, x.2.opening = some o ∧ x.2.time ≤ o.closeAt
  told : ∀ p ∈ s.payloads, ∀ o ∈ p.opening, digestInterval R p.action = .ok (some o.interval)
  before : ∀ c ∈ s.closed.getLast?, ∀ o ∈ s.opening, c.opening.closeAt ≤ o.now
  ordered : s.closed.IsChain fun c c' => c.opening.closeAt ≤ c'.opening.now

/-- A window that is opened is opened after the one before had elapsed. -/
theorem Timely.openFor (ht : s.Timely R) {now : Time} {n : ℕ}
    (hnow : s.opening = none → ∀ c ∈ s.closed.getLast?, c.opening.closeAt ≤ now) :
    (s.openFor now n).1.Timely R := by
  refine ⟨ht.joined, ht.told, fun c hc o ho => ?_, ht.ordered⟩
  rw [openFor_opening] at ho
  cases hopening : s.opening with
  | none =>
    rw [hopening] at ho
    obtain rfl := Option.some.inj ho
    exact hnow hopening c hc
  | some o' =>
    rw [hopening] at ho
    obtain rfl := Option.some.inj ho
    exact ht.before c hc _ hopening

/-- After that, the window that is open closes later. -/
theorem closeAt_openFor {now : Time} {n : ℕ} (hnow : s.opening = none → s.clock ≤ now + n)
    (hopen : ∀ o ∈ s.opening, s.clock ≤ o.closeAt) :
    ∃ o, (s.openFor now n).1.opening = some o ∧ s.clock ≤ o.closeAt := by
  rw [openFor_opening]
  cases hopening : s.opening with
  | none => exact ⟨_, rfl, hnow hopening⟩
  | some o => exact ⟨o, rfl, hopen o hopening⟩

/-- Rows that are inserted join the window that is open. -/
theorem Timely.insert (ht : s.Timely R) {scheduledAt : Time} {rows : List NewRun} {s' : DigestHistory}
    (hopen : ∃ o, s.opening = some o ∧ s.clock ≤ o.closeAt)
    (hs : s.insert scheduledAt rows = some s') : s'.Timely R := by
  unfold DigestHistory.insert at hs
  split_ifs at hs
  obtain rfl := Option.some.inj hs
  refine ⟨fun x hx => ?_, ht.told, ht.before, ht.ordered⟩
  rcases List.mem_append.mp hx with hx | hx
  · exact ht.joined x hx
  · obtain ⟨row, -, rfl⟩ := List.mem_map.mp hx
    exact hopen

/-- A window that is closed was opened after the one before had elapsed. -/
theorem Timely.settled (ht : s.Timely R) (runs : List WatchActionRun)
    (next : Bool → Option FlushPass) : (s.settled runs next).Timely R := by
  unfold DigestHistory.settled
  generalize closeIfDrained s.action.accountId s.action.id runs s.windows = x
  obtain ⟨windows, closed⟩ := x
  cases closed with
  | false => exact ⟨ht.joined, ht.told, ht.before, ht.ordered⟩
  | true =>
    refine ⟨ht.joined, ht.told, fun _ _ o ho => (by cases ho), ?_⟩
    refine List.isChain_append.mpr ⟨ht.ordered, ?_, fun c hc c' hc' => ?_⟩
    · cases s.opening <;> simp
    · have hmem := Option.mem_toList.mp (List.mem_of_mem_head? hc')
      obtain ⟨o, ho, rfl⟩ := Option.map_eq_some_iff.mp hmem
      exact ht.before c hc o ho

/-- **An event that meets the condition.** -/
theorem Timely.step (ht : s.Timely R) {e : DigestEvent} {s' : DigestHistory} (hc : s.OnTime R e)
    (hs : s.step S R e = some s') : s'.Timely R := by
  cases e with
  | tick seconds =>
    obtain rfl := Option.some.inj hs
    exact ⟨ht.joined, ht.told, ht.before, ht.ordered⟩
  | advance k rows =>
    obtain ⟨p, n, hp, hn, hs⟩ := advance_eq_some hs
    obtain ⟨hnow, hopen⟩ := hc p hp n hn
    have h := ht.openFor (n := n) fun hnone => (hnow hnone).1
    have hpass : ((s.openFor p.now n).1.setPass k { p with interval := none }).Timely R :=
      ⟨h.joined, h.told, h.before, h.ordered⟩
    exact hpass.insert (closeAt_openFor (fun hnone => (hnow hnone).2) hopen) hs
  | openWindow k =>
    obtain ⟨p, n, hp, rfl⟩ := openWindow_eq_some hs
    have h := ht.openFor (n := n) (hc p hp)
    exact ⟨h.joined, h.told, h.before, h.ordered⟩
  | enqueue k rows =>
    obtain ⟨p, -, hs⟩ := Option.bind_eq_some_iff.mp hs
    obtain ⟨t, -, hs⟩ := Option.bind_eq_some_iff.mp hs
    exact ht.insert hc hs
  | emit gone =>
    simp only [DigestHistory.step] at hs
    split at hs
    · split_ifs at hs
      · obtain rfl := Option.some.inj hs
        exact ⟨ht.joined, ht.told, ht.before, ht.ordered⟩
      · split at hs <;> obtain rfl := Option.some.inj hs
        · exact ⟨ht.joined, ht.told, ht.before, ht.ordered⟩
        · refine ⟨ht.joined, fun p hp => ?_, ht.before, ht.ordered⟩
          rcases List.mem_append.mp hp with hp | hp
          · exact ht.told p hp
          · obtain rfl := List.mem_singleton.mp hp
            exact hc
    · cases hs
  | settle result =>
    simp only [DigestHistory.step] at hs
    split at hs
    · obtain rfl := Option.some.inj hs
      exact ht.settled _ _
    · cases hs
  | close =>
    simp only [DigestHistory.step] at hs
    split at hs
    · obtain rfl := Option.some.inj hs
      exact ht.settled _ _
    · cases hs
  | readConfig k =>
    obtain ⟨p, -, hs⟩ := Option.bind_eq_some_iff.mp hs
    split at hs
    · obtain rfl := Option.some.inj hs
      exact ⟨ht.joined, ht.told, ht.before, ht.ordered⟩
    · cases hs
  | edit | arrive | due | gather | unresolvable | crash =>
    simp only [DigestHistory.step] at hs
    try split at hs
    all_goals
      cases hs
      try exact ⟨ht.joined, ht.told, ht.before, ht.ordered⟩

/-- **A history that meets the condition.** -/
theorem Timely.run (ht : s.Timely R) {events : List DigestEvent} {s' : DigestHistory}
    (hc : RunsOnTime R S events s) (hs : run S R events s = some s') : s'.Timely R := by
  induction events generalizing s with
  | nil => exact Option.some.inj hs ▸ ht
  | cons e events ih =>
    obtain ⟨s₁, hstep, hrest⟩ := Option.bind_eq_some_iff.mp hs
    exact ih (ht.step hc.1 hstep) (hc.2 s₁ hstep) hrest

/-- Every run was enqueued in the window of its payload. -/
theorem Timely.covered (ht : s.Timely R) (h : WindowContract R s) : s.Covered := by
  intro p hp since hsince until_ huntil r hr e he
  obtain ⟨e', he', hjoined⟩ := h.joined p hp r hr
  obtain rfl : e' = e := Option.some.inj (he'.symm.trans he)
  obtain ⟨l₁, l₂, hl, -⟩ := List.lookup_eq_some_iff.mp he'
  obtain ⟨o, ho, hle⟩ := ht.joined (r.id, e') (by simp [hl])
  obtain ⟨hopening, -⟩ := hjoined o ho
  obtain ⟨o', n, hopening', -, hbounds⟩ := h.told p hp
  obtain rfl := Option.some.inj (hopening'.symm.trans hopening)
  rw [hbounds] at huntil
  obtain rfl := Option.some.inj huntil
  exact h.covered p hp o' hopening (ht.told p hp o' hopening) since hsince _ (by rw [hbounds]; rfl) r hr
    e' he (Option.ne_none_iff_exists'.mpr ⟨o', ho⟩) hle

/-- No two windows that were closed overlap. -/
theorem Timely.disjoint (ht : s.Timely R) (h : WindowContract R s) : s.Disjoint := by
  refine ht.ordered.imp_of_mem_imp fun c c' hc hc' hle p hp hpc p' hp' hpc' => ?_
  exact h.disjoint c hc c' hc' hle p hp hpc p' hp' hpc' (ht.told p' hp' _ hpc')

end DigestHistory

open DigestHistory

/-- **What every history of a digest action tells of its windows.** -/
theorem windowContract {C : Type} (S : Settings) (R : Registry C) {action : WatchAction} {watchId : Id}
    (h : IsDigest R action) {events : List DigestEvent} {s : DigestHistory}
    (hs : run S R events { action, watchId } = some s) : WindowContract R s :=
  ((ok_start h).run hs).contract

/-- **Windows that tell the truth.** In every history in which a pass that opens a window read its clock
after the window before had elapsed, runs arrive by the close time of an open window, and slices read
the interval that their window was opened with, every run of a payload was enqueued within its bounds,
and the windows of successive closed digests do not overlap. -/
theorem windows_tell {C : Type} (S : Settings) (R : Registry C) {action : WatchAction} {watchId : Id}
    (h : IsDigest R action) {events : List DigestEvent} {s : DigestHistory}
    (hs : run S R events { action, watchId } = some s)
    (hc : RunsOnTime R S events { action, watchId }) : s.Covered ∧ s.Disjoint := by
  have hstart : ({ action, watchId } : DigestHistory).Timely R :=
    ⟨by simp, by simp, by simp, by simp⟩
  have htimely := hstart.run hc hs
  have hcontract := windowContract S R h hs
  exact ⟨htimely.covered hcontract, htimely.disjoint hcontract⟩

/-! ## Samples -/

/-- A digest every minute. -/
def minuteDigest : DigestHistory := { action := sampleAction 1 digestConfig 0, watchId := 1 }

/-- A run of an item advances into the digest. -/
def advanced (pass item : ℕ) : List DigestEvent :=
  [.readConfig pass, .advance pass [⟨item, item, none⟩]]

/-- A slice that is delivered. -/
def slice : List DigestEvent := [.gather, .emit [], .settle (some { state := succeeded })]

/-- Two runs, the first three seconds after the start of its pass, that are flushed in two slices at the
close time; and a window that a trigger pass opens ten seconds later, with a failed flush before the one
that delivers. -/
def twoDigests : List DigestEvent :=
  [.arrive, .tick 3] ++ advanced 0 1 ++ [.tick 7, .arrive] ++ advanced 1 2 ++ [.tick 50, .due] ++ slice ++
    slice ++
    [.tick 10, .arrive, .readConfig 2, .openWindow 2, .enqueue 2 [⟨3, 3, none⟩], .tick 60, .due, .gather,
      .emit [], .settle none, .tick 5, .due] ++ slice

/-- A pass that starts at 0 opens both windows, at 100 and after the first is flushed. -/
def onePass : List DigestEvent :=
  [.arrive, .tick 100] ++ advanced 0 1 ++ .due :: slice ++ advanced 0 2 ++ .due :: slice

/-- An item arrives a second after the window's close time, before the flush. -/
def lateArrival : List DigestEvent :=
  .arrive :: advanced 0 1 ++ [.tick 61, .arrive] ++ advanced 1 2 ++ .due :: slice

/-- The interval is edited from a minute to an hour while the second window is open. -/
def widenedInterval : List DigestEvent :=
  .arrive :: advanced 0 1 ++ [.tick 60, .due] ++ slice ++ .arrive :: advanced 1 2 ++
    [.edit (LogConfig.modelDump { delivery := .digest, digestIntervalSeconds := 3600 }), .tick 60,
      .due] ++ slice

/-- Two closed windows, and what their payloads tell. -/
theorem windows_tell_sample :
    ∃ s, run { digestMaxBatchItems := 1 } sampleRegistry twoDigests minuteDigest = some s ∧
      s.closed.map (·.time) = [60, 135] ∧
      s.payloads.map (·.bounds) = [(some 0, some 60), (some 0, some 60), (some 70, some 130),
        (some 70, some 130)] ∧
      s.Covered ∧ s.Disjoint := by
  have h : (run { digestMaxBatchItems := 1 } sampleRegistry twoDigests minuteDigest).any (fun s =>
      decide (s.closed.map (·.time) = [60, 135] ∧ s.payloads.map (·.bounds) =
        [(some 0, some 60), (some 0, some 60), (some 70, some 130), (some 70, some 130)])) = true := by
    decide +kernel
  have hc : RunsOnTime sampleRegistry { digestMaxBatchItems := 1 } twoDigests minuteDigest := by
    decide +kernel
  obtain ⟨s, hs, htold⟩ := (Option.any_eq_true _ _).mp h
  obtain ⟨hclosed, hbounds⟩ := of_decide_eq_true htold
  exact ⟨s, hs, hclosed, hbounds, windows_tell _ sampleRegistry ⟨60, by rfl⟩ hs hc⟩

/-- **One pass opens two windows by its start clock**: its runs are enqueued after both, and the two are
the same minute. So do a late arrival and an edited interval break one half each. -/
theorem windows_lie :
    (∃ s, run {} sampleRegistry onePass minuteDigest = some s ∧ ¬ s.Covered ∧ ¬ s.Disjoint) ∧
    (∃ s, run {} sampleRegistry lateArrival minuteDigest = some s ∧ ¬ s.Covered) ∧
    ∃ s, run {} sampleRegistry widenedInterval minuteDigest = some s ∧ ¬ s.Disjoint := by
  have hpass : (run {} sampleRegistry onePass minuteDigest).any (fun s =>
      decide (¬ s.Covered ∧ ¬ s.Disjoint)) = true := by decide +kernel
  have hlate : (run {} sampleRegistry lateArrival minuteDigest).any (fun s => decide ¬ s.Covered) =
      true := by decide +kernel
  have hwide : (run {} sampleRegistry widenedInterval minuteDigest).any (fun s =>
      decide ¬ s.Disjoint) = true := by decide +kernel
  refine ⟨?_, ?_, ?_⟩
  · obtain ⟨s, hs, hnot⟩ := (Option.any_eq_true _ _).mp hpass
    exact ⟨s, hs, of_decide_eq_true hnot⟩
  · obtain ⟨s, hs, hnot⟩ := (Option.any_eq_true _ _).mp hlate
    exact ⟨s, hs, of_decide_eq_true hnot⟩
  · obtain ⟨s, hs, hnot⟩ := (Option.any_eq_true _ _).mp hwide
    exact ⟨s, hs, of_decide_eq_true hnot⟩

end OpenMagpie
