import OpenMagpie.Watches.Candidates
import OpenMagpie.Watches.FlushAdvance
import OpenMagpie.Watches.Orphan
import OpenMagpie.Watches.Successor

/-!
# Which dispatcher takes a run

The drain takes the live runs of actions without a window row, the flush the pending runs of open
windows. A run that failed with attempts left is neither while its action has a window row.

* `Live`, `IsDueEventually`, `IsGathered`: the runs that wait, and the two dispatchers.
* `DispatchKept`: no window row is created over a run that the drain has tried, or is about to try;
  no edit lands between a thread's read of an action and its inserts; no flush closes a window under
  a pass.
* `reach_owned`: then the window rows are the ones of stored digests, since an edit away from digest
  clears its row.
* `Partitioned`, **`Partitioned.step`**: what a step keeps.
* **`live_dispatched`**: every live run is with exactly one dispatcher.
* **`retry_stranded`**: an instant action with a failed run is made a digest.
-/

set_option autoImplicit false

namespace OpenMagpie

open WatchActionRunState Interleave

variable {C : Type} {S : Settings} {E : Executors} {R : Registry C} {on : Component → Prop}

/-! ## Live runs -/

variable (S) in
/-- Failed, with an attempt left. -/
def Retryable (r : WatchActionRun) : Prop := r.state = failed ∧ r.attempts < S.watchRunMaxAttempts

variable (S) in
/-- Pending, or failed with an attempt left. -/
def Live (r : WatchActionRun) : Prop := r.state = pending ∨ Retryable S r

variable (S) in
/-- The drain's filter selects the run at all sufficiently late times. -/
def IsDueEventually (windows : List WatchActionDigestWindow) (r : WatchActionRun) : Prop :=
  ∃ t₀, ∀ ts, t₀ ≤ ts → IsDue S windows ts r

/-- The run is one of those that a flush of its action's open window gathers. -/
def IsGathered (windows : List WatchActionDigestWindow) (r : WatchActionRun) : Prop :=
  ∃ v ∈ windows, v.key = r.windowKey ∧ v.closeAt ≠ none ∧ IsPendingOf v.accountId v.actionId r

/-! ## The conditions -/

variable (S) in
/-- Running or failed, with an attempt left: the drain has tried the run, and may try it again. -/
def Retried (r : WatchActionRun) : Prop :=
  (r.state = running ∨ r.state = failed) ∧ r.attempts < S.watchRunMaxAttempts

theorem Retryable.retried {r : WatchActionRun} (h : Retryable S r) : Retried S r :=
  ⟨.inr h.1, h.2⟩

variable (S) in
/-- The window row of an action is created only while the drain has none of its runs: none that it
has tried and may try again, none as a candidate. -/
def CreatesFresh : StepCond World Thread := fun c _ w _ =>
  ∀ k, CreatesWindow k c.shared w →
    (∀ r ∈ c.shared.runs, r.windowKey = k → ¬ Retried S r) ∧ ∀ q, ¬ (c.thread q).IsCandidateOf k

variable (S R) in
/-- The conditions on a step. -/
structure DispatchKept (c : Conf World Thread) (p : ℕ) (w : World) (t : Thread) : Prop where
  fresh : CreatesFresh S c p w t
  targets : KeepsTargets R c p w t
  aside : ClosesAside c p w t

/-! ## What the threads know -/

/-- The runs of a flush's slice have their keys in the table. -/
def Thread.SliceKnown (runs : List WatchActionRun) : Thread → Prop
  | .flush f => ∀ s ∈ f.slice, ∀ r ∈ s.batch, r.key ∈ runs.map WatchActionRun.key
  | _ => True

theorem Flush.Step.sliceKnown {f f' : Flush} {w w' : World} (h : Flush.Step S E R f w w' f')
    (hf : (Thread.flush f).SliceKnown w.runs) : (Thread.flush f').SliceKnown w.runs := by
  have none {s₀ : Slice} (hb : s₀.batch = []) : ∀ s ∈ some s₀, ∀ r ∈ s.batch,
      r.key ∈ w.runs.map WatchActionRun.key := by
    rintro s hs r hr
    obtain rfl := Option.some.inj hs
    rw [hb] at hr
    cases hr
  cases h with
  | gather =>
    rintro s hs r hr
    obtain rfl := Option.some.inj hs
    exact List.mem_map_of_mem (mem_of_mem_digestBatch hr).1
  | empty | unresolvable => exact none rfl
  | resolve | emit | raise | lookup | check => exact hf
  | fetch =>
    rintro s hs r hr
    obtain rfl := Option.some.inj hs
    exact hf _ rfl r (List.mem_of_mem_filter hr)
  | gone => split_ifs <;> exact hf
  | commit => split_ifs <;> exact fun s hs => by cases hs
  | _ => exact fun s hs => by cases hs

theorem reach_sliceKnown (hdel : ¬ on .deleteRuns) {G : World → Prop} {ok : StepCond World Thread}
    {c : Conf World Thread} (h : ReachIn (System S E R on) (Init G) ok c) :
    ∀ p, (c.thread p).SliceKnown c.shared.runs := by
  have later {t : Thread} {runs runs' : List WatchActionRun} (ht : t.SliceKnown runs)
      (hr : runs.map WatchActionRun.key ⊆ runs'.map WatchActionRun.key) : t.SliceKnown runs' := by
    cases t with
    | flush f => exact fun s hs r hm => hr (ht s hs r hm)
    | _ => trivial
  refine (h.each (G := fun _ => True) (L := fun w t => t.SliceKnown w.runs) ?_ ?_ ?_).2
  · rintro c ⟨-, hidle⟩
    refine ⟨trivial, fun p => ?_⟩
    have hp := hidle p
    cases ht : c.thread p with
    | flush f =>
      rw [ht] at hp
      obtain rfl : f = .idle := hp
      exact fun s hs => by cases hs
    | _ => trivial
  · intro c p w t _ hL hs _
    have hkeys := hs.runKeys hdel
    have hp := hL p
    refine ⟨trivial, ?_⟩
    generalize c.thread p = t₀ at hs hp
    cases hs with
    | flush _ h => exact later (h.sliceKnown hp) hkeys
    | _ => trivial
  · exact fun _ hL hs _ _ => later (hL _) (hs.runKeys hdel)

/-- **A window that is about to be closed has its row.** The flush holds the row's lock, and an edit
that deletes the row waits for it. -/
theorem reach_closes {G : World → Prop} {ok : StepCond World Thread} {c : Conf World Thread}
    (h : ReachIn (System S E R on) (Init G) ok c) :
    ∀ p k, (c.thread p).Closes k → k ∈ windowKeys c.shared := by
  have hK : ∀ c, ReachIn (System S E R on) (Init G) ok c → LocksOk c := fun c hc => reach_locks hc
  refine ((h.strengthen hK).each (G := fun _ => True)
    (L := fun w t => ∀ k, t.Closes k → k ∈ windowKeys w) ?_ ?_ ?_).2
  · rintro c ⟨-, hidle⟩
    refine ⟨trivial, fun p k hk => ?_⟩
    have hl := hk.lock
    rw [(hidle p).lock] at hl
    cases hl
  · intro c p w t _ _ hs _
    refine ⟨trivial, fun k hk => ?_⟩
    generalize c.thread p = t₀ at hs
    cases hs with
    | flush _ h =>
      cases h with
      | check =>
        obtain ⟨hw, -, rfl⟩ := Thread.closes_closing.mp hk
        have hw := of_decide_eq_true hw
        rw [if_pos hw]
        exact hw
      | gone => split_ifs at hk <;> exact hk.elim
      | commit => split_ifs at hk <;> exact hk.elim
      | _ => exact hk.elim
    | _ => exact hk.elim
  · intro c p q w t _ hL hs ⟨_, hlocks, _⟩ _ k hk
    have hold := hL q k hk
    rcases hs.windowKeys with ⟨-, hkeys⟩ | ⟨-, x, locks, -, hl, rfl⟩
    · exact (hkeys k).mpr (.inl hold)
    · obtain ⟨v, hv, rfl⟩ := List.mem_map.mp hold
      refine List.mem_map_of_mem (mem_clearDigestWindows.mpr ⟨hv, ?_⟩)
      exact hl.unlocked v.key (hlocks.each q _ hk.lock)

/-! ## Window rows -/

/-- A thread that opens a window has read a digest that is stored. -/
theorem opensCurrent_of_reads {c : Conf World Thread} {p : ℕ} {w : World} {t : Thread}
    (hr : (c.thread p).Reads R c.shared.actions) (hk : (c.thread p).Knows R) :
    OpensCurrent R c p w t := by
  intro k hopen
  generalize c.thread p = t₀ at hr hk hopen
  cases hopen with
  | drain hn => exact (hr _ _ rfl).digestStored hn
  | flush hn => exact (hr _ _ rfl).digestStored hn
  | @trigger s n t hi =>
    refine (hr _ _ rfl).digestStored ⟨n, ?_⟩
    rw [← hi]
    exact hk.1 _ rfl

/-- **Only stored digests have window rows**, in every run whose edits leave alone what other threads
have read: an edit away from digest deletes the row, and no thread creates it again. -/
theorem reach_owned {G : World → Prop} (hG : ∀ w, G w → ActionsOk w.actions ∧ WindowsOwned R w)
    {ok : StepCond World Thread} (hok : ∀ c p w t, ok c p w t → KeepsTargets R c p w t)
    {c : Conf World Thread} (h : ReachIn (System S E R on) (Init G) ok c) :
    WindowsOwned R c.shared := by
  have hK : ∀ c, ReachIn (System S E R on) (Init G) ok c → ActionsOk c.shared.actions ∧
      ∀ p, (c.thread p).Reads R c.shared.actions ∧ (c.thread p).Knows R := fun c hc =>
    ⟨reach_actionsOk (fun w hw => (hG w hw).1) hc, fun p =>
      ⟨reach_targets (fun _ _ _ _ _ _ hc => hok _ _ _ _ hc) hc p, reach_knows hc p⟩⟩
  refine (h.strengthen hK).invariant (I := fun c => WindowsOwned R c.shared)
    (fun c hc => (hG _ hc.1).2) ?_
  intro c p w t ho hs ⟨_, ⟨hact, hp⟩, _⟩
  exact (hs.windowsOwned hact ho).mpr (opensCurrent_of_reads (hp p).1 (hp p).2)

/-! ## Outcomes in flight -/

/-- A flush completes a slice only with a clean state. -/
def Thread.Outcomes : Thread → Prop
  | .flush (.settling _ (.complete _ res _)) | .flush (.advancing _ (.complete _ res _) _)
  | .flush (.closing _ (.complete _ res _) ..) => res.state ≠ failed
  | _ => True

theorem System.outcomes {t t' : Thread} {w w' : World} (h : System S E R on t w w' t')
    (ht : t.Outcomes) : t'.Outcomes := by
  cases h with
  | flush _ h =>
    cases h with
    | gone => split_ifs <;> trivial
    | @emit w s action outcome d hone =>
      split_ifs with hf
      · trivial
      · exact hf
    | @lookup w s x =>
      cases x with
      | complete action res d => exact ht
      | _ => trivial
    | @check w w' s x succ mint hm hb hl hadv =>
      cases x with
      | complete action res d => exact ht
      | _ => trivial
    | commit => split_ifs <;> trivial
    | _ => trivial
  | _ => trivial

theorem Thread.Idle.outcomes {t : Thread} (h : t.Idle) : t.Outcomes := by
  cases t with
  | flush f =>
    obtain rfl : f = .idle := h
    trivial
  | _ => trivial

/-- `fail_batch` leaves no new run for a retry. -/
theorem eq_of_retried_foldl {account : Id} {now : Time} (chunks : List (List Id))
    {r : WatchActionRun} (h : Retried S (chunks.foldl (failRow S account now) r)) :
    chunks.foldl (failRow S account now) r = r := by
  induction chunks generalizing r with
  | nil => rfl
  | cons chunk chunks ih =>
    have hrest := ih h
    rw [List.foldl_cons, hrest] at h ⊢
    unfold failRow at h ⊢
    split_ifs at h ⊢ with hg hm
    · exact absurd h.2 (Nat.not_lt.mpr hm)
    · have hp : (burnedRow r).state = pending := (batchGuard_iff.mp hg).2.2
      rcases h.1 with hs | hs <;> (rw [hs] at hp; cases hp)
    · rfl

/-- **A run that a write leaves for a retry** was left for one before, or it has just been claimed. -/
theorem RowWrite.retried {t : Thread} {r r' : WatchActionRun} (h : RowWrite S t r r')
    (hr : Retried S r') (ht : t.Outcomes) : Retried S r ∨
      ∃ now run, t = .drain (.candidate now run) ∧ claimGuard S run r = true := by
  cases h with
  | keep => exact .inl hr
  | claim hg => exact .inr ⟨_, _, rfl, hg⟩
  | complete hg => exact .inl ⟨.inl (completeGuard_iff.mp hg).2.1, hr.2⟩
  | exhausted hs ha => exact absurd hr.2 (Nat.not_lt.mpr ha)
  | retryable hs ha => exact .inl ⟨.inl hs.1, ha⟩
  | unresolvable | gone =>
    exact absurd hr.1 (by simp [completedRow, ActionResult.defect])
  | @settle s x succ mint locked drained =>
    left
    cases x with
    | close => exact hr
    | complete action res d =>
      simp only [Settle.row] at hr
      split_ifs at hr
      · rcases hr.1 with hrun | hfail
        · exact absurd hrun (ne_running_of_outcome res.isOutcome)
        · exact absurd hfail ht
      · exact hr
    | fail =>
      have he := eq_of_retried_foldl _ hr
      exact he ▸ hr

/-! ## The invariant -/

variable (S R) in
/-- Window rows belong to stored digests; a pending run has an attempt left, a run that the drain has
tried and may try again has no window row over it, and a closed window no pending run. -/
structure Partitioned (w : World) : Prop where
  runs : RunsOk w.runs
  actions : ActionsOk w.actions
  owned : WindowsOwned R w
  scheduled : ∀ r ∈ w.runs, r.scheduledAt.isSome
  attempts : ∀ r ∈ w.runs, r.state = pending → r.attempts < S.watchRunMaxAttempts
  retried : ∀ r ∈ w.runs, Retried S r → r.windowKey ∉ windowKeys w
  drained : ∀ v ∈ w.windows, v.closeAt = none → IsDrained v.accountId v.actionId w.runs

variable (S) in
/-- A flush that is about to close a window leaves no pending run in it. -/
def Thread.LeavesDrained (w : World) (t : Thread) : Prop :=
  ∀ s x succ mint, t = .flush (.closing s x succ mint true true) →
    IsDrained s.window.accountId s.window.actionId (s.settle S w.runs x)

theorem attempts_foldl_failRow {account : Id} {now : Time} (chunks : List (List Id))
    {r : WatchActionRun} (ha : r.attempts < S.watchRunMaxAttempts)
    (h : (chunks.foldl (failRow S account now) r).state = pending) :
    (chunks.foldl (failRow S account now) r).attempts < S.watchRunMaxAttempts := by
  induction chunks generalizing r with
  | nil => exact ha
  | cons chunk chunks ih =>
    refine ih ?_ h
    have hp : (failRow S account now r chunk).state = pending := (tried_foldl_failRow chunks h).state
    unfold failRow at hp ⊢
    split_ifs at hp ⊢ with hg hm
    · cases hp
    · exact Nat.lt_of_not_le hm
    · exact ha

/-- A write keeps an attempt for a run that it leaves pending. -/
theorem RowWrite.attempts {t : Thread} {r r' : WatchActionRun} (h : RowWrite S t r r')
    (ha : r.attempts < S.watchRunMaxAttempts) (hp : r'.state = pending) :
    r'.attempts < S.watchRunMaxAttempts := by
  cases h with
  | keep => exact ha
  | complete hg => exact absurd hp (ne_pending_of_outcome (ActionResult.isOutcome _))
  | @settle s x succ mint locked drained =>
    cases x with
    | close => exact ha
    | complete action res d =>
      simp only [Settle.row] at hp ⊢
      split_ifs at hp ⊢
      · exact absurd hp (ne_pending_of_outcome res.isOutcome)
      · exact ha
    | fail => exact attempts_foldl_failRow _ ha hp
  | _ => cases hp

theorem isNewRun_fields {r : WatchActionRun} (h : IsNewRun r) :
    r.state = pending ∧ r.attempts = 0 ∧ r.scheduledAt.isSome := by
  obtain ⟨id, account, watch, action, kind, item, t, prior, rfl⟩ := h
  exact ⟨rfl, rfl, rfl⟩

/-- What the reachable states of a run under the conditions have in common. -/
structure DispatchFacts (S : Settings) (R : Registry C) (c : Conf World Thread) : Prop where
  runs : RunsOk c.shared.runs
  actions : ActionsOk c.shared.actions
  owned : WindowsOwned R c.shared
  locks : LocksOk c
  passes : PassesOpen c
  reads : ∀ p, (c.thread p).Reads R c.shared.actions
  knows : ∀ p, (c.thread p).Knows R
  closes : ∀ p k, (c.thread p).Closes k → k ∈ windowKeys c.shared
  holds : ∀ p, (c.thread p).FlushHolds
  slices : ∀ p, (c.thread p).SliceKnown c.shared.runs
  candidates : ∀ p, (c.thread p).CandidateKnown c.shared.runs
  unwindowed : ∀ p k, (c.thread p).IsCandidateOf k → k ∉ windowKeys c.shared

theorem reach_dispatchFacts (hdel : ¬ on .deleteRuns) {c : Conf World Thread}
    (h : ReachIn (System S E R on) (Init (Partitioned S R)) (DispatchKept S R) c) :
    DispatchFacts S R c where
  runs := (reach_runsOk (fun _ hw => hw.runs) h).1
  actions := reach_actionsOk (fun _ hw => hw.actions) h
  owned := reach_owned (fun _ hw => ⟨hw.actions, hw.owned⟩) (fun _ _ _ _ hc => hc.targets) h
  locks := reach_locks h
  passes := reach_open (fun _ _ _ _ hc => hc.aside) h
  reads := reach_targets (fun _ _ _ _ _ _ hc => hc.targets) h
  knows := reach_knows h
  closes := reach_closes h
  holds := reach_flushHolds h
  slices := reach_sliceKnown hdel h
  candidates := reach_candidateKnown hdel (fun _ hw => hw.runs) h
  unwindowed := reach_unwindowed (fun _ _ _ _ hc k hk q => (hc.fresh k hk).2 q) h

/-- A flush that advances into its own action enqueues nothing: its runs are there. -/
theorem Advanced.noNew_own {s : Slice} {succ : Option WatchAction} {mint : Id → Id} {w w' : World}
    (h : Advanced R mint s.window.accountId s.batch succ s.now w w') (hof : s.OfWindow)
    (hkeys : ∀ r ∈ s.batch, r.key ∈ w.runs.map WatchActionRun.key) :
    NoNew s.window.key w.runs w'.runs := by
  intro x hx hp
  rcases h.runs.2 x hx with hold | ⟨nxt, -, t, r, hr, rfl, hfree⟩
  · exact ⟨x, hold, .refl hp.2.2⟩
  · obtain ⟨hacc, hact⟩ := hof r hr
    have hkey : (newRun (mint r.id) s.window.accountId r.watchId nxt.id nxt.kind r.feedItemId t
        (some r.id)).key = r.key := by
      have hid : nxt.id = s.window.actionId := hp.2.1
      simp [WatchActionRun.key, newRun, hid, hacc, hact]
    exact absurd (hkey ▸ hkeys r hr) hfree

theorem System.noNew_own {t t' : Thread} {w w' : World} (h : System S E R on t w w' t') {s : Slice}
    {x : Settle} {succ : Option WatchAction} {mint : Id → Id} {locked drained : Bool}
    (ht : t = .flush (.closing s x succ mint locked drained)) (hof : s.OfWindow)
    (hkeys : ∀ r ∈ s.batch, r.key ∈ w.runs.map WatchActionRun.key) :
    NoNew s.window.key w.runs w'.runs := by
  subst ht
  cases h with
  | flush _ h =>
    cases h with
    | @commit w w' _ _ _ _ _ _ hm hb hadv =>
      refine NoNew.trans (.settle s x) ((advanced_of_enqueueNextBatch hadv).noNew_own hof ?_)
      show ∀ r ∈ s.batch, r.key ∈ (s.settle S w.runs x).map WatchActionRun.key
      rw [keys_settle]
      exact hkeys
    | abort => exact .of_mem fun r hr _ => hr
    | crash => exact .of_mem fun r hr _ => hr

theorem Thread.closing_of_lock {t : Thread} {k : WindowKey} (h : t.lock = some k) :
    ∃ s x succ mint drained, t = .flush (.closing s x succ mint true drained) ∧
      s.window.key = k := by
  cases t with
  | flush f =>
    cases f with
    | closing s x succ mint locked drained =>
      cases locked with
      | true => exact ⟨s, x, succ, mint, drained, rfl, Option.some.inj h⟩
      | false => cases h
    | _ => cases h
  | _ => cases h

/-- The slice of a flush in its transaction. -/
theorem DispatchFacts.closing {c : Conf World Thread} (h : DispatchFacts S R c) {p : ℕ} {s : Slice}
    {x : Settle} {succ : Option WatchAction} {mint : Id → Id} {locked drained : Bool}
    (ht : c.thread p = .flush (.closing s x succ mint locked drained)) :
    s.OfWindow ∧ ∀ r ∈ s.batch, r.key ∈ c.shared.runs.map WatchActionRun.key := by
  have hh := h.holds p
  have hs := h.slices p
  rw [ht] at hh hs
  exact ⟨hh.1, hs s rfl⟩

/-- **A step adds no pending run to an action with a window row**, or opens its window in the same
transaction, or finds it open. -/
theorem DispatchFacts.noNew_or {c : Conf World Thread} {p : ℕ} {w : World} {t : Thread} {k : WindowKey}
    (h : DispatchFacts S R c) (hs : System S E R on (c.thread p) c.shared w t)
    (hk : k ∈ windowKeys c.shared) :
    NoNew k c.shared.runs w.runs ∨
      ((c.thread p).lock ≠ some k ∧ OpensInto c.shared w k (c.thread p)) ∨
      ((∀ v ∈ c.shared.windows, v.key = k → v.closeAt ≠ none) ∧ ∀ q, ¬ (c.thread q).Closes k) := by
  have hd : DigestStored R c.shared.actions k := (windowsOwned_iff h.actions).mp h.owned k hk
  rcases hs.pendingRuns k with hno | ⟨nxt, hadv, hid, hopen⟩ | ⟨henq, -, -⟩
  · exact .inl hno
  · have htarget : (c.thread p).target = some (k, nxt) := hadv.target hid
    have hdig : IsDigest R nxt := (h.reads p _ _ htarget).isDigest h.actions hd
    by_cases hl : (c.thread p).lock = some k
    · refine .inl ?_
      obtain ⟨s, x, succ, mint, drained, ht, rfl⟩ := Thread.closing_of_lock hl
      obtain ⟨hof, hkeys⟩ := h.closing ht
      exact hs.noNew_own ht hof hkeys
    · exact .inr (.inl ⟨hl, hopen hdig⟩)
  · exact .inr (.inr (h.passes.enqueues (henq.owes (h.reads p) (h.knows p) h.actions hd)))

/-- A run that a step leaves for a retry has no window row over it. -/
theorem Partitioned.retried_step {c : Conf World Thread} {p : ℕ} {w : World} {t : Thread}
    (h : Partitioned S R c.shared) (hs : System S E R on (c.thread p) c.shared w t)
    (hg : DispatchFacts S R c) (hout : (c.thread p).Outcomes) (hok : CreatesFresh S c p w t)
    {r' : WatchActionRun} (hr' : r' ∈ w.runs) (hret : Retried S r') :
    r'.windowKey ∉ windowKeys w := by
  intro hwin
  rcases hs.rows r' hr' with ⟨r, hr, hw⟩ | ⟨hnew, -⟩
  · have hkey : r'.windowKey = r.windowKey := windowKey_of_key hw.key
    rw [hkey] at hwin
    rcases hw.retried hret hout with hold | ⟨now, run, ht, hgd⟩
    · exact (hok _ ⟨h.retried r hr hold, hwin⟩).1 r hr rfl hold
    · -- the worker had read its candidate before the row was created
      have hknown := hg.candidates p
      rw [ht] at hknown
      have hrun : run.windowKey = r.windowKey :=
        (windowKey_of_key (hknown.key_of_claim hg.runs.ids hr hgd)).symm
      have hcand : (c.thread p).IsCandidateOf r.windowKey := by
        rw [ht]
        exact hrun
      exact (hok _ ⟨hg.unwindowed p _ hcand, hwin⟩).2 p hcand
  · rcases hret.1 with hst | hst <;> exact absurd (hst.symm.trans (isNewRun_fields hnew).1) nofun

/-- **What a step keeps.** -/
theorem Partitioned.step {c : Conf World Thread} {p : ℕ} {w : World} {t : Thread}
    (h : Partitioned S R c.shared) (hs : System S E R on (c.thread p) c.shared w t)
    (hg : DispatchFacts S R c) (hg' : DispatchFacts S R (c.set p w t)) (hout : (c.thread p).Outcomes)
    (hleaves : (c.thread p).LeavesDrained S c.shared) (hok : DispatchKept S R c p w t) :
    Partitioned S R w := by
  refine ⟨hg'.runs, hg'.actions, hg'.owned, fun r' hr' => ?_, fun r' hr' hp => ?_,
    fun r' hr' => h.retried_step hs hg hout hok.fresh hr', fun v hv hc => ?_⟩
  · rcases hs.rows r' hr' with ⟨r, hr, hw⟩ | ⟨hnew, -⟩
    · rw [hw.scheduledAt]
      exact h.scheduled r hr
    · exact (isNewRun_fields hnew).2.2
  · rcases hs.rows r' hr' with ⟨r, hr, hw⟩ | ⟨hnew, -⟩
    · exact hw.attempts (h.attempts r hr (hw.tried hp).state) hp
    · rw [(isNewRun_fields hnew).2.1]
      exact S.maxAttempts_pos
  · rcases hs.closed hv hc with hold | ⟨s, x, succ, mint, w₀, w₁, ht, hk, hw₀, ha, hw⟩
    · have hdr : IsDrained v.key.1 v.key.2 c.shared.runs := h.drained v hold hc
      rcases hg.noNew_or hs (List.mem_map_of_mem hold) with hno | ⟨hl, hopen⟩ | ⟨hopen, -⟩
      · exact hdr.of_noNew hno
      · exact absurd hc (hopen.2 hl v hv rfl)
      · exact absurd hc (hopen v hold rfl)
    · -- the flush that closed it found it drained, and enqueued nothing into it
      have hdr : IsDrained v.key.1 v.key.2 w₀.runs := by
        rw [hw₀, ← hk]
        exact hleaves s x succ mint ht
      obtain ⟨hof, hkeys⟩ := hg.closing ht
      have hno : NoNew v.key w₀.runs w₁.runs := by
        refine hk ▸ ha.noNew_own hof fun r hr => ?_
        rw [hw₀, keys_settle]
        exact hkeys r hr
      show IsDrained v.key.1 v.key.2 w.runs
      rw [hw]
      exact hdr.of_noNew hno

theorem System.leavesDrained {t t' : Thread} {w w' : World} (h : System S E R on t w w' t') :
    t'.LeavesDrained S w' :=
  fun _ _ _ _ ht => h.closing_drained ht

/-- A step of another thread adds no pending run to a window that is about to be closed. -/
theorem Thread.LeavesDrained.other {c : Conf World Thread} {p q : ℕ} {w : World} {t : Thread}
    (h : (c.thread q).LeavesDrained S c.shared) (hs : System S E R on (c.thread p) c.shared w t)
    (hg : DispatchFacts S R c) (hqp : q ≠ p) : (c.thread q).LeavesDrained S w := by
  intro s x succ mint ht
  have hcl : (c.thread q).Closes s.window.key := by
    rw [ht]
    rfl
  refine drained_settle (k := s.window.key) (h s x succ mint ht) ?_
  rcases hg.noNew_or hs (hg.closes q _ hcl) with hno | ⟨-, hopen⟩ | ⟨-, hcloses⟩
  · exact hno
  · exact absurd (hopen.1 (hg.locks.each q _ hcl.lock)) (hg.locks.pair q p hqp _ hcl.lock)
  · exact absurd hcl (hcloses q)

theorem Thread.Idle.leavesDrained {t : Thread} {w : World} (h : t.Idle) : t.LeavesDrained S w := by
  rintro s x succ mint rfl
  cases h

/-! ## Every run -/

theorem reach_partitioned (hdel : ¬ on .deleteRuns) {c : Conf World Thread}
    (h : ReachIn (System S E R on) (Init (Partitioned S R)) (DispatchKept S R) c) :
    Partitioned S R c.shared := by
  refine ((h.strengthen fun _ hc => reach_dispatchFacts hdel hc).each (G := Partitioned S R)
    (L := fun w t => t.Outcomes ∧ t.LeavesDrained S w) ?_ ?_ ?_).1
  · exact fun c ⟨hw, hidle⟩ => ⟨hw, fun p => ⟨(hidle p).outcomes, (hidle p).leavesDrained⟩⟩
  · intro c p w t hG hL hs ⟨hok, hg, hg'⟩
    exact ⟨hG.step hs hg hg' (hL p).1 (hL p).2 hok, hs.outcomes (hL p).1, hs.leavesDrained⟩
  · intro c p q w t _ hL hs ⟨_, hg, _⟩ hqp
    exact ⟨(hL q).1, (hL q).2.other hs hg hqp⟩

/-- **No live run is stranded.** In every run in which no window row is created over a run that the
drain has tried or has as a candidate, no edit lands between a thread's read of an action and its
inserts, and no flush closes a window under a trigger pass, each live run is with exactly one
dispatcher. -/
theorem live_dispatched (hdel : ¬ on .deleteRuns) {c : Conf World Thread}
    (h : ReachIn (System S E R on) (Init (Partitioned S R)) (DispatchKept S R) c) :
    ∀ r ∈ c.shared.runs, Live S r →
      Xor (IsDueEventually S c.shared.windows r) (IsGathered c.shared.windows r) := by
  have hp := reach_partitioned hdel h
  intro r hr hlive
  by_cases hwin : r.windowKey ∈ windowKeys c.shared
  · -- the flush's: a pending run of an open window
    have hpend : r.state = pending :=
      hlive.resolve_right fun hret => hp.retried r hr hret.retried hwin
    obtain ⟨v, hv, hk⟩ := List.mem_map.mp hwin
    obtain ⟨hacc, hact⟩ := Prod.mk.inj hk
    have hpv : IsPendingOf v.accountId v.actionId r := ⟨hacc.symm, hact.symm, hpend⟩
    refine .inr ⟨⟨v, hv, hk, fun hc => hp.drained v hv hc r hr hpv, hpv⟩, ?_⟩
    rintro ⟨t₀, ht⟩
    exact (ht t₀ le_rfl).2.2.2 hwin
  · -- the drain's, from the time it is scheduled at
    refine .inl ⟨?_, ?_⟩
    · obtain ⟨t₀, ht₀⟩ := Option.isSome_iff_exists.mp (hp.scheduled r hr)
      refine ⟨t₀, fun ts hts => ⟨?_, ?_, ⟨t₀, ht₀, hts⟩, hwin⟩⟩
      · rcases hlive with hs | hs
        · rw [hs]
          decide
        · rw [hs.1]
          decide
      · exact hlive.elim (hp.attempts r hr) fun hret => hret.2
    · rintro ⟨v, hv, hk, -, -⟩
      exact hwin (List.mem_map.mpr ⟨v, hv, hk⟩)

/-! ## With and without the conditions -/

/-- A run of the second action from its instant era: failed once, to be retried. -/
def retriedRun : WatchActionRun :=
  { sampleRun 2 2 1 with state := failed, attempts := 1, error := RunMessages.transient }

/-- Two instant actions; the first has a pending run for item 2, the second waits to retry item 1. -/
def retryWaits : World where
  runs := [sampleRun 1 1 2, retriedRun]
  actions := [sampleAction 1 instantConfig 0, sampleAction 2 instantConfig 1]
  items := [sampleItem 1, sampleItem 2]

/-- The store after an edit has made the second action a digest. -/
def retryEdited : World :=
  { retryWaits with actions := [sampleAction 1 instantConfig 0, sampleAction 2 digestConfig 1] }

/-- A store without window rows. -/
theorem partitioned_of_unwindowed {w : World} (hw : w.windows = []) (hr : RunsOk w.runs)
    (ha : ActionsOk w.actions) (hs : ∀ r ∈ w.runs, r.scheduledAt.isSome)
    (hp : ∀ r ∈ w.runs, r.state = pending → r.attempts < ({} : Settings).watchRunMaxAttempts) :
    Partitioned {} sampleRegistry w := by
  have hno : ∀ k, k ∉ windowKeys w := fun k hk => by
    rw [windowKeys, hw] at hk
    exact absurd hk List.not_mem_nil
  refine ⟨hr, ha, fun _ _ _ => hno _, hs, hp, fun _ _ _ => hno _, fun v hv => ?_⟩
  rw [hw] at hv
  exact absurd hv List.not_mem_nil

theorem init_retryWaits : Init (Partitioned {} sampleRegistry) ⟨retryWaits, workerAndEditor⟩ := by
  refine ⟨partitioned_of_unwindowed rfl ⟨?_, by decide⟩ ⟨by decide, by decide⟩ (by decide)
    (by decide), idle_workerAndEditor⟩
  simp [IdUnique, retryWaits, retriedRun, sampleRun, newRun]

/-- The second action is read, to be made a digest. -/
theorem step_loadSecond {runs : List WatchActionRun} :
    Edit.Step sampleRegistry .idle { retryWaits with runs := runs } { retryWaits with runs := runs }
      (.loaded (sampleAction 2 instantConfig 1) ⟨some 2, "log", digestConfig⟩) :=
  .load (List.mem_cons_of_mem _ List.mem_cons_self)

theorem step_toDigest {runs : List WatchActionRun} :
    Edit.Step sampleRegistry
      (.loaded (sampleAction 2 instantConfig 1) ⟨some 2, "log", digestConfig⟩)
      { retryWaits with runs := runs } { retryEdited with runs := runs } .idle := by
  have hx : setConfig sampleRegistry (sampleAction 2 instantConfig 1)
      ⟨some 2, "log", digestConfig⟩ =
        .ok { account := 1, updated := [(2, "log", digestConfig)] } := by rfl
  have ha : ∃ a ∈ retryWaits.actions, a.id = 2 := by decide
  have hl : ChainWrite.Lands { account := 1, updated := [(2, "log", digestConfig)] } retryWaits :=
    ⟨by decide, by decide, by decide, by decide⟩
  exact .setConfig (w := { retryWaits with runs := runs }) hx ha ⟨hl.1, hl.2, hl.3, hl.4⟩

/-- A step that creates no window row, edits no action and checks no window. -/
theorem dispatchKept_of_same {c : Conf World Thread} {p : ℕ} {w : World} {t : Thread}
    (hk : windowKeys w = windowKeys c.shared) (ha : w.actions = c.shared.actions)
    (hc : ∀ k, ¬ t.Closes k) : DispatchKept {} sampleRegistry c p w t := by
  refine ⟨fun k hn => absurd (hk ▸ hn.2) hn.1, fun q hq => ?_, fun k ht => absurd ht (hc k)⟩
  rwa [ha]

/-- An edit while no thread has read an action. -/
theorem dispatchKept_of_edit {c : Conf World Thread} {p : ℕ} {w : World} {t : Thread}
    (hk : ∀ k, ¬ CreatesWindow k c.shared w) (hq : ∀ q, (c.thread q).target = none)
    (hc : ∀ k, ¬ t.Closes k) : DispatchKept {} sampleRegistry c p w t := by
  refine ⟨fun k hn => absurd hn (hk k), fun q _ k a ht => ?_, fun k ht => absurd ht (hc k)⟩
  rw [hq q] at ht
  cases ht

/-- A pending run of the second action from its instant era. -/
def waitingRun : WatchActionRun := sampleRun 2 2 1

/-- Two instant actions, a pending run of each. -/
def pendingWaits : World := { retryWaits with runs := [sampleRun 1 1 2, waitingRun] }

theorem init_pendingWaits : Init (Partitioned {} sampleRegistry) ⟨pendingWaits, workerAndEditor⟩ := by
  refine ⟨partitioned_of_unwindowed rfl ⟨?_, by decide⟩ ⟨by decide, by decide⟩ (by decide)
    (by decide), idle_workerAndEditor⟩
  simp [IdUnique, pendingWaits, waitingRun, sampleRun, newRun]

/-- The second action is made a digest, and an advance into it opens its window: its pending run is the
flush's. Then it is made instant again, which deletes the window row: the run is the drain's. -/
theorem live_dispatched_sample : ∃ c c' : Conf World Thread,
    ReachIn (SampleSystem DrainAndEdit) (Init (Partitioned {} sampleRegistry))
      (DispatchKept {} sampleRegistry) c ∧
    ReachIn (SampleSystem DrainAndEdit) (Init (Partitioned {} sampleRegistry))
      (DispatchKept {} sampleRegistry) c' ∧
    (IsGathered c.shared.windows waitingRun ∧ ¬ IsDueEventually {} c.shared.windows waitingRun) ∧
    c'.shared.windows = [] ∧
    Xor (IsDueEventually {} c'.shared.windows waitingRun)
      (IsGathered c'.shared.windows waitingRun) := by
  let head := sampleAction 1 instantConfig 0
  let digest := sampleAction 2 digestConfig 1
  let edited : World := { pendingWaits with actions := [head, digest] }
  let claimed : WatchActionRun := claimedRow 0 (sampleRun 1 1 2)
  let claimedWorld : World := { edited with runs := [claimed, waitingRun], log := [.claimed 1 1 0 0] }
  let done : World :=
    { claimedWorld with
      runs := [{ claimed with state := succeeded, completedAt := some 0 }, waitingRun,
        newRun 11 1 1 2 "log" 2 60 (some 1)]
      windows := [⟨1, 2, some 60⟩]
      log := [.completed 1 1, .claimed 1 1 0 0] }
  let instant : World :=
    { done with actions := [head, sampleAction 2 instantConfig 1], windows := [] }
  have hclaim : Drain.Step {} sampleExecutors sampleRegistry (.candidate 0 (sampleRun 1 1 2))
      edited claimedWorld (.claimed 0 1 1) :=
    .claim (by decide : sampleRun 1 1 2 ∈ _) (by decide)
  have hrefresh : Drain.Step {} sampleExecutors sampleRegistry (.claimed 0 1 1) claimedWorld
      claimedWorld (.held ⟨0, claimed, 1⟩) := .refresh (by decide) rfl
  have hjudge : Drain.Step {} sampleExecutors sampleRegistry
      (.resolved ⟨0, claimed, 1⟩ (some head)) claimedWorld claimedWorld
      (.judged ⟨0, claimed, 1⟩ (some head) { state := succeeded } none) :=
    .judge (.returns (by decide) (by decide) { state := succeeded } none)
  have hcommit : Drain.Step {} sampleExecutors sampleRegistry
      (.advancing ⟨0, claimed, 1⟩ (some head) { state := succeeded } none (some digest))
      claimedWorld done (.started 0) := by
    refine .commit (by decide) (.add (n := 10) (by decide)) ?_ rfl
    rintro ⟨_, _, _, hl⟩
    exact absurd hl List.not_mem_nil
  have hloadBack : Edit.Step sampleRegistry .idle done done
      (.loaded digest ⟨some 2, "log", instantConfig⟩) := .load (by decide)
  have hback : Edit.Step sampleRegistry (.loaded digest ⟨some 2, "log", instantConfig⟩) done instant
      .idle := by
    have hx : setConfig sampleRegistry digest ⟨some 2, "log", instantConfig⟩ =
        .ok { account := 1, updated := [(2, "log", instantConfig)], cleared := [2] } := by rfl
    exact .setConfig (w := done) hx (by decide) ⟨by decide, by decide, by decide, by decide⟩
  have hfresh : ∀ r ∈ claimedWorld.runs, r.windowKey = (1, 2) → ¬ Retried {} r := by
    rintro r hr hk ⟨hst, -⟩
    rcases List.mem_cons.mp hr with rfl | hr
    · cases hk
    · obtain rfl := List.mem_singleton.mp hr
      rcases hst with hst | hst <;> cases hst
  have h₀ : ReachIn (SampleSystem DrainAndEdit) (Init (Partitioned {} sampleRegistry))
      (DispatchKept {} sampleRegistry) ⟨pendingWaits, workerAndEditor⟩ := .init init_pendingWaits
  have h₁ := h₀.next 1 (.edit (.inr rfl) step_loadSecond) rfl rfl
    (dispatchKept_of_same rfl rfl fun _ => id)
  have h₂ := h₁.again (.edit (.inr rfl) step_toDigest) (dispatchKept_of_edit (fun _ hn => hn.1 hn.2)
    (fun q => by rcases q with _ | _ | q <;> rfl) fun _ => id)
  -- the worker runs the first action
  have h₃ := h₂.next 0 (.drain (.inl rfl) .start) rfl rfl (dispatchKept_of_same rfl rfl fun _ => id)
  have h₄ := h₃.again (.drain (.inl rfl) (.candidate (by decide : sampleRun 1 1 2 ∈ _)))
    (dispatchKept_of_same rfl rfl fun _ => id)
  have h₅ := h₄.again (.drain (.inl rfl) hclaim) (dispatchKept_of_same rfl rfl fun _ => id)
  have h₆ := h₅.again (.drain (.inl rfl) hrefresh) (dispatchKept_of_same rfl rfl fun _ => id)
  have h₇ := h₆.again (.drain (.inl rfl) .resolve) (dispatchKept_of_same rfl rfl fun _ => id)
  have h₈ := h₇.again (.drain (.inl rfl) hjudge) (dispatchKept_of_same rfl rfl fun _ => id)
  have h₉ := h₈.again (.drain (.inl rfl) .lookup) (dispatchKept_of_same rfl rfl fun _ => id)
  have h₁₀ := h₉.again (.drain (.inl rfl) hcommit) ⟨fun k hn => by
    obtain rfl := List.mem_singleton.mp hn.2
    exact ⟨hfresh, fun q hq => by rcases q with _ | _ | q <;> exact hq⟩,
    fun _ hq => hq, fun _ ht => ht.elim⟩
  have h₁₁ := h₁₀.next 1 (.edit (.inr rfl) hloadBack) rfl rfl
    (dispatchKept_of_same rfl rfl fun _ => id)
  have h₁₂ := h₁₁.again (.edit (.inr rfl) hback) (dispatchKept_of_edit
    (fun _ hn => absurd hn.2 List.not_mem_nil) (fun q => by rcases q with _ | _ | q <;> rfl)
    fun _ => id)
  have hdel : ¬ DrainAndEdit .deleteRuns := by simp [DrainAndEdit]
  have hgathered : IsGathered done.windows waitingRun :=
    ⟨⟨1, 2, some 60⟩, List.mem_cons_self, rfl, nofun, rfl, rfl, rfl⟩
  refine ⟨_, _, h₁₀, h₁₂, ⟨hgathered, ?_⟩, rfl,
    live_dispatched hdel h₁₂ waitingRun (by decide) (.inl rfl)⟩
  rcases live_dispatched hdel h₁₀ waitingRun (by decide) (.inl rfl) with ⟨-, hno⟩ | ⟨-, hno⟩
  · exact absurd hgathered hno
  · exact hno

/-- **A run is stranded.** An instant action with a failed run is made a digest; the first item that
advances into it opens its window, and with the row there the failed run is neither due again nor
pending for the flush. -/
theorem retry_stranded : ∃ (c : Conf World Thread) (r : WatchActionRun),
    Reach (SampleSystem DrainAndEdit) (Init (Partitioned {} sampleRegistry)) c ∧
    (∀ p, (c.thread p).Idle) ∧ r ∈ c.shared.runs ∧ Live {} r ∧ ¬ IsDueEventually {} c.shared.windows r ∧
    ¬ IsGathered c.shared.windows r := by
  let head := sampleAction 1 instantConfig 0
  let digest := sampleAction 2 digestConfig 1
  let claimed : WatchActionRun := claimedRow 0 (sampleRun 1 1 2)
  let claimedWorld : World :=
    { retryEdited with runs := [claimed, retriedRun], log := [.claimed 1 1 0 0] }
  let done : World :=
    { claimedWorld with
      runs := [{ claimed with state := succeeded, completedAt := some 0 }, retriedRun,
        newRun 11 1 1 2 "log" 2 60 (some 1)]
      windows := [⟨1, 2, some 60⟩]
      log := [.completed 1 1, .claimed 1 1 0 0] }
  have hclaim : Drain.Step {} sampleExecutors sampleRegistry (.candidate 0 (sampleRun 1 1 2))
      retryEdited claimedWorld (.claimed 0 1 1) :=
    .claim (by decide : sampleRun 1 1 2 ∈ _) (by decide)
  have hrefresh : Drain.Step {} sampleExecutors sampleRegistry (.claimed 0 1 1) claimedWorld
      claimedWorld (.held ⟨0, claimed, 1⟩) := .refresh (by decide) rfl
  have hjudge : Drain.Step {} sampleExecutors sampleRegistry
      (.resolved ⟨0, claimed, 1⟩ (some head)) claimedWorld claimedWorld
      (.judged ⟨0, claimed, 1⟩ (some head) { state := succeeded } none) :=
    .judge (.returns (by decide) (by decide) { state := succeeded } none)
  have hcommit : Drain.Step {} sampleExecutors sampleRegistry
      (.advancing ⟨0, claimed, 1⟩ (some head) { state := succeeded } none (some digest))
      claimedWorld done (.started 0) := by
    refine .commit (by decide) (.add (n := 10) (by decide)) ?_ rfl
    rintro ⟨_, _, _, hl⟩
    exact absurd hl List.not_mem_nil
  have h₀ : Reach (SampleSystem DrainAndEdit) (Init (Partitioned {} sampleRegistry))
      ⟨retryWaits, workerAndEditor⟩ := .init init_retryWaits
  have h₁ := Reach.next h₀ 1 (.edit (.inr rfl) step_loadSecond) rfl rfl
  have h₂ := Reach.again h₁ (.edit (.inr rfl) step_toDigest)
  -- the worker runs the first action
  have h₃ := Reach.next h₂ 0 (.drain (.inl rfl) .start) rfl rfl
  have h₄ := Reach.again h₃ (.drain (.inl rfl) (.candidate (by decide : sampleRun 1 1 2 ∈ _)))
  have h₅ := Reach.again h₄ (.drain (.inl rfl) hclaim)
  have h₆ := Reach.again h₅ (.drain (.inl rfl) hrefresh)
  have h₇ := Reach.again h₆ (.drain (.inl rfl) .resolve)
  have h₈ := Reach.again h₇ (.drain (.inl rfl) hjudge)
  have h₉ := Reach.again h₈ (.drain (.inl rfl) .lookup)
  have h₁₀ := Reach.again h₉ (.drain (.inl rfl) hcommit)
  have h₁₁ := Reach.again h₁₀ (.drain (.inl rfl) .crash)
  refine ⟨_, retriedRun, h₁₁, fun p => ?_, by decide, .inr ⟨rfl, by decide⟩, ?_, ?_⟩
  · match p with
    | 0 | 1 => rfl
    | _ + 2 => trivial
  · rintro ⟨t₀, ht⟩
    exact (ht t₀ le_rfl).2.2.2 (by decide)
  · rintro ⟨_, _, _, _, _, _, hp⟩
    cases hp

end OpenMagpie
