import OpenMagpie.Watches.Rows

/-!
# The advance of a flushed batch

The transaction at the end of a slice completes the runs of the batch that are still pending, and
advances the chain for the whole batch it gathered.

* `Flush.Holds`, `reach_flushHolds`: what a flush knows about the slice it holds.
* `AdvancesOwn`: every run that the transaction enqueues advances from a run that it completed.
* **`flush_advances_own`**: that holds exactly when every gathered run is still pending, or has its
  row in the successor already.
* **`flush_advances_other`**: a run that a drain worker claimed during the emit is advanced.
-/

set_option autoImplicit false

namespace OpenMagpie

open WatchActionRunState Interleave

variable {C : Type} {S : Settings} {E : Executors} {R : Registry C} {on : Component → Prop}

/-! ## What a flush knows -/

/-- The runs of a slice are runs of the window's action. -/
def Slice.OfWindow (s : Slice) : Prop :=
  ∀ r ∈ s.batch, r.accountId = s.window.accountId ∧ r.actionId = s.window.actionId

/-- Only a succeeded batch has a successor. -/
def Settle.Advances (x : Settle) (succ : Option WatchAction) : Prop :=
  succ ≠ none → ∃ action res d, x = .complete action res d ∧ res.state = succeeded

/-- What a flush knows about its slice. -/
def Flush.Holds : Flush → Prop
  | .advancing s x succ | .closing s x succ .. => s.OfWindow ∧ x.Advances succ
  | f => ∀ s ∈ f.slice, s.OfWindow

theorem Settle.advances_successor (x : Settle) (actions : List WatchAction) (account : Id) :
    x.Advances (x.successor actions account) := by
  intro hne
  cases x with
  | complete action res d =>
    refine ⟨action, res, d, rfl, ?_⟩
    by_contra hs
    exact hne (if_neg hs)
  | close => exact absurd rfl hne
  | fail => exact absurd rfl hne

theorem Slice.ofWindow_nil (now : Time) (window : WatchActionDigestWindow) :
    (⟨now, window, []⟩ : Slice).OfWindow :=
  fun _ hr => absurd hr List.not_mem_nil

/-- A step of a flush keeps what it knows. -/
theorem Flush.Step.holds {f f' : Flush} {w w' : World} (h : Flush.Step S E R f w w' f')
    (hf : f.Holds) : f'.Holds := by
  cases h with
  | start => exact fun s hs => by cases hs
  | due => exact fun s hs => by cases hs
  | gather =>
    intro s hs
    obtain rfl := Option.some.inj hs
    intro r hr
    obtain ⟨-, hacc, hact, -⟩ := mem_of_mem_digestBatch hr
    exact ⟨hacc, hact⟩
  | empty =>
    intro s hs
    obtain rfl := Option.some.inj hs
    exact Slice.ofWindow_nil _ _
  | resolve => exact hf
  | unresolvable =>
    intro s hs
    obtain rfl := Option.some.inj hs
    exact Slice.ofWindow_nil _ _
  | fetch =>
    intro s hs
    obtain rfl := Option.some.inj hs
    exact fun r hr => hf _ rfl r (List.mem_of_mem_filter hr)
  | gone =>
    split_ifs
    · exact hf
    · exact hf
  | emit => exact hf
  | raise => exact hf
  | lookup => exact ⟨hf _ rfl, Settle.advances_successor _ _ _⟩
  | check => exact hf
  | commit =>
    split_ifs
    · exact fun s hs => by cases hs
    · exact fun s hs => by cases hs
  | abort => exact fun s hs => by cases hs
  | crash => exact fun s hs => by cases hs

/-- What a thread knows about the slice it holds. -/
def Thread.FlushHolds : Thread → Prop
  | .flush f => f.Holds
  | _ => True

/-- **What the flushes know in every reachable state.** -/
theorem reach_flushHolds {G : World → Prop} {ok : StepCond World Thread} {c : Conf World Thread}
    (h : ReachIn (System S E R on) (Init G) ok c) : ∀ p, (c.thread p).FlushHolds := by
  refine (h.each (G := fun _ => True) (L := fun _ t => t.FlushHolds) ?_ ?_
    fun _ hL _ _ _ => hL _).2
  · rintro c ⟨-, hidle⟩
    refine ⟨trivial, fun p => ?_⟩
    have hp := hidle p
    cases ht : c.thread p with
    | flush f =>
      rw [ht] at hp
      obtain rfl : f = .idle := hp
      exact fun s hs => by cases hs
    | _ => trivial
  · intro c p w t _ hL hs _
    refine ⟨trivial, ?_⟩
    have hp := hL p
    generalize c.thread p = t₀ at hs hp
    cases hs with
    | flush _ h => exact h.holds hp
    | _ => trivial

/-! ## The runs that a commit enqueues -/

/-- Every run that a step enqueues advances from a run that was pending before the step and is
succeeded after it. -/
def AdvancesCompleted (runs runs' : List WatchActionRun) : Prop :=
  ∀ x ∈ runs', x.key ∉ runs.map WatchActionRun.key → ∃ r ∈ runs, x.priorRunId = some r.id ∧
    r.state = pending ∧ ∃ r' ∈ runs', r'.id = r.id ∧ r'.state = succeeded

/-- The unique key of the successor of a batch run. -/
def Slice.nextKey (s : Slice) (n : WatchAction) (r : WatchActionRun) : RunKey :=
  (s.window.accountId, r.watchId, n.id, r.feedItemId)

/-- The run `r` is stored, pending, in the account. -/
def StillPending (account : Id) (r : WatchActionRun) (runs : List WatchActionRun) : Prop :=
  ∃ r' ∈ runs, r'.id = r.id ∧ r'.accountId = account ∧ r'.state = pending

/-- Every run of the batch that can get a successor is still pending. -/
def Slice.Current (s : Slice) (succ : Option WatchAction) (runs : List WatchActionRun) : Prop :=
  ∀ n ∈ succ, ∀ r ∈ s.batch, StillPending s.window.accountId r runs ∨
    s.nextKey n r ∈ runs.map WatchActionRun.key

instance (runs runs' : List WatchActionRun) : Decidable (AdvancesCompleted runs runs') := by
  unfold AdvancesCompleted; infer_instance

section Commit

variable {mint : Id → Id} {s : Slice} {x : Settle} {succ : Option WatchAction} {w w₁ w' : World}
  {runs : List WatchActionRun}

/-- A pending run of the batch is completed. -/
theorem mem_settle_complete {action : WatchAction} {res : ActionResult} {d : Option Id}
    {r : WatchActionRun} (hr : r ∈ runs) (hid : r.id ∈ s.ids)
    (hacc : r.accountId = s.window.accountId) (hp : r.state = pending) :
    ∃ r' ∈ s.settle S runs (.complete action res d), r'.id = r.id ∧ r'.state = res.state := by
  rw [Slice.settle, completeBatch_eq_update]
  exact ⟨_, Table.mem_update_of hr (batchGuard_iff.mpr ⟨hid, hacc, hp⟩), rfl, rfl⟩

/-- A run that the batch update leaves out is as it was. -/
theorem mem_settle_of_not {action : WatchAction} {res : ActionResult} {d : Option Id}
    {r : WatchActionRun} (hr : r ∈ runs) (hacc : r.accountId ≠ s.window.accountId) :
    r ∈ s.settle S runs (.complete action res d) := by
  rw [Slice.settle, completeBatch_eq_update]
  refine Table.mem_update_of_not hr (Bool.eq_false_iff.mpr fun hg => ?_)
  exact hacc (batchGuard_iff.mp hg).2.1

/-- **When a commit advances from its own completions only.** -/
theorem advancesCompleted_iff
    (h : Advanced R mint s.window.accountId s.batch succ s.now w₁ w')
    (hw₁ : w₁.runs = s.settle S runs x) (hs : s.OfWindow) (hx : x.Advances succ)
    (hbatch : RunsOk s.batch) (hok' : RunsOk w'.runs) :
    AdvancesCompleted runs w'.runs ↔ s.Current succ runs := by
  have hkeys : w₁.runs.map WatchActionRun.key = runs.map WatchActionRun.key := by
    rw [hw₁, keys_settle]
  constructor
  · intro ha n hn r hr
    obtain ⟨action, res, d, rfl, hres⟩ := hx (by rw [hn]; exact Option.some_ne_none n)
    by_cases hk : s.nextKey n r ∈ runs.map WatchActionRun.key
    · exact .inr hk
    -- the row that carries the free key was enqueued for `r` itself
    obtain ⟨y, hy, hyk⟩ : ∃ y ∈ w'.runs, y.key = s.nextKey n r := List.mem_map.mp (h.all hr hn)
    rcases h.runs.2 y hy with hold | ⟨m, hm, t, r₂, hr₂, rfl, -⟩
    · have hin : y.key ∈ runs.map WatchActionRun.key := hkeys ▸ List.mem_map_of_mem hold
      exact absurd (hyk ▸ hin) hk
    have hrr : r₂ = r := by
      refine hbatch.keyUnique r₂ hr₂ r hr ?_
      have hwi := (Prod.mk.inj hyk).2
      have hw : r₂.watchId = r.watchId := (Prod.mk.inj hwi).1
      have hi : r₂.feedItemId = r.feedItemId := (Prod.mk.inj (Prod.mk.inj hwi).2).2
      obtain ⟨h₁, h₂⟩ := hs r hr
      obtain ⟨h₃, h₄⟩ := hs r₂ hr₂
      rw [WatchActionRun.key, WatchActionRun.key, h₁, h₂, h₃, h₄, hw, hi]
    subst hrr
    obtain ⟨r₀, hr₀, hprior, hpend, r', hr', hid', hsucc⟩ := ha _ hy (hyk ▸ hk)
    have hid : r₂.id = r₀.id := Option.some.inj hprior
    refine .inl ⟨r₀, hr₀, hid.symm, ?_, hpend⟩
    by_contra hacc
    have hkept : r₀ ∈ w'.runs := h.runs.1 (hw₁ ▸ mem_settle_of_not hr₀ hacc)
    have : r' = r₀ := hok'.ids r' hr' r₀ hkept hid'
    rw [this, hpend] at hsucc
    cases hsucc
  · intro hc y hy hfree
    rcases h.runs.2 y hy with hold | ⟨n, hn, t, r, hr, rfl, -⟩
    · exact absurd (hkeys ▸ List.mem_map_of_mem hold) hfree
    obtain ⟨action, res, d, rfl, hres⟩ := hx (by rw [hn]; exact Option.some_ne_none n)
    obtain ⟨r₀, hr₀, hid, hacc, hpend⟩ := (hc n hn r hr).resolve_right hfree
    have hids : r₀.id ∈ s.ids := hid ▸ List.mem_map_of_mem hr
    obtain ⟨r', hr', hid', hstate⟩ : ∃ r' ∈ s.settle S runs (.complete action res d),
        r'.id = r₀.id ∧ r'.state = res.state := mem_settle_complete hr₀ hids hacc hpend
    exact ⟨r₀, hr₀, congrArg some hid.symm, hpend, r', h.runs.1 (hw₁ ▸ hr'), hid',
      hstate.trans hres⟩

end Commit

/-! ## Every run -/

/-- A flush commit advances from the runs it completed only. -/
def AdvancesOwn : StepCond World Thread := fun c p w t =>
  ∀ s x succ mint locked drained, c.thread p = .flush (.closing s x succ mint locked drained) →
    t ≠ .flush .idle → AdvancesCompleted c.shared.runs w.runs

/-- A flush commit finds its batch still pending, or advanced already. -/
def BatchCurrent : StepCond World Thread := fun c p _ t =>
  ∀ s x succ mint locked drained, c.thread p = .flush (.closing s x succ mint locked drained) →
    t ≠ .flush .idle → s.Current succ c.shared.runs

/-- **A flush advances its own completions only, exactly when its batch is current.** In every
reachable state, a commit of a flush enqueues only successors of runs that it has itself moved
from pending to succeeded if and only if every run of its batch that can get a successor is still
pending or has its row there already; and a run of the system in which that holds at every commit
is one in which no flush advances for a run that it did not complete. -/
theorem flush_advances_own :
    (∀ c, Reach (System S E R on) (Init fun w => RunsOk w.runs) c → ∀ p w t,
      System S E R on (c.thread p) c.shared w t →
      (AdvancesOwn c p w t ↔ BatchCurrent c p w t)) ∧
    ∀ c, ReachIn (System S E R on) (Init fun w => RunsOk w.runs) BatchCurrent c →
      ReachIn (System S E R on) (Init fun w => RunsOk w.runs) AdvancesOwn c := by
  have key {c : Conf World Thread}
      (hc : Reach (System S E R on) (Init fun w => RunsOk w.runs) c) {p : ℕ} {w : World}
      {t : Thread} (hs : System S E R on (c.thread p) c.shared w t) {s : Slice} {x : Settle}
      {succ : Option WatchAction} {mint : Id → Id} {locked drained : Bool}
      (hp : c.thread p = .flush (.closing s x succ mint locked drained)) (ht : t ≠ .flush .idle) :
      AdvancesCompleted c.shared.runs w.runs ↔ s.Current succ c.shared.runs := by
    obtain ⟨hruns, hslice⟩ := reach_runsOk (fun _ hw => hw) hc
    have hbatch : RunsOk s.batch := by
      have hsl := hslice p
      rw [hp] at hsl
      exact hsl s rfl
    have hok' := (hs.runsOk hruns (hslice p)).1
    have hholds := reach_flushHolds hc p
    rw [hp] at hs hholds
    obtain ⟨hof, hadv⟩ : s.OfWindow ∧ x.Advances succ := hholds
    cases hs with
    | flush _ h =>
      cases h with
      | @commit w w' _ _ _ _ _ _ hm hb hcommit =>
        show AdvancesCompleted _ w'.runs ↔ _
        exact advancesCompleted_iff (advanced_of_enqueueNextBatch hcommit) rfl hof hadv hbatch hok'
      | abort => exact absurd rfl ht
      | crash => exact absurd rfl ht
  refine ⟨fun c hc p w t hs => ?_, fun c hc => hc.imp fun c p w t h hs hok => ?_⟩
  · exact ⟨fun h s x succ mint l d hp ht => (key hc hs hp ht).mp (h s x succ mint l d hp ht),
      fun h s x succ mint l d hp ht => (key hc hs hp ht).mpr (h s x succ mint l d hp ht)⟩
  · exact fun s x succ mint l d hp ht => (key h hs hp ht).mpr (hok s x succ mint l d hp ht)

/-! ## With and without the condition -/

/-- A digest action with an open window and one pending run, before an instant action. -/
def openDigest : World where
  runs := [sampleRun 1 1 1]
  windows := [⟨1, 1, some 0⟩]
  actions := [sampleAction 1 digestConfig 0, sampleAction 2 instantConfig 1]
  items := [sampleItem 1]

/-- A flush, a drain worker and an editor. -/
def flushWorkerEditor : ℕ → Thread
  | 0 => .flush .idle
  | 1 => .drain .idle
  | 2 => .edit .idle
  | _ => .env

theorem init_openDigest : Init (fun w => RunsOk w.runs) ⟨openDigest, flushWorkerEditor⟩ := by
  refine ⟨⟨by simp [IdUnique, openDigest], by decide⟩, fun p => ?_⟩
  rcases p with _ | _ | _ | p
  · rfl
  · rfl
  · rfl
  · trivial

/-- Flushes, drain workers and edits. -/
def FlushDrainEdit (k : Component) : Prop := k = .flush ∨ k = .drain ∨ k = .edit

/-- The flush's slice. -/
def openSlice : Slice := ⟨0, ⟨1, 1, some 0⟩, [sampleRun 1 1 1]⟩

/-- The settlement of a successful emit. -/
def emitted : Settle := .complete (sampleAction 1 digestConfig 0) { state := succeeded } none

/-- A flush has emitted the pending run of the digest action successfully. -/
theorem reach_emitted : Reach (SampleSystem FlushDrainEdit) (Init fun w => RunsOk w.runs)
    (Conf.set ⟨openDigest, flushWorkerEditor⟩ 0 openDigest
      (.flush (.settling openSlice emitted))) := by
  have hdue : Flush.Step {} sampleExecutors sampleRegistry (.started 0) openDigest openDigest
      (.due 0 ⟨1, 1, some 0⟩) := .due (by decide)
  have hresolve : Flush.Step {} sampleExecutors sampleRegistry (.gathered openSlice) openDigest
      openDigest (.resolved openSlice (sampleAction 1 digestConfig 0)) := .resolve rfl (by decide)
  have hemit : Flush.Step {} sampleExecutors sampleRegistry
      (.emitting openSlice (sampleAction 1 digestConfig 0)) openDigest openDigest
      (.settling openSlice emitted) := .emit { state := succeeded } none (by decide)
  have h₀ : Reach (SampleSystem FlushDrainEdit) (Init fun w => RunsOk w.runs)
      ⟨openDigest, flushWorkerEditor⟩ := .init init_openDigest
  have h₁ := Reach.next h₀ 0 (.flush (.inl rfl) .start) rfl rfl
  have h₂ := Reach.again h₁ (.flush (.inl rfl) hdue)
  have h₃ := Reach.again h₂ (.flush (.inl rfl) (.gather (by decide)))
  have h₄ := Reach.again h₃ (.flush (.inl rfl) hresolve)
  have h₅ := Reach.again h₄ (.flush (.inl rfl) .fetch)
  have h₆ := Reach.again h₅ (.flush (.inl rfl) .gone)
  exact Reach.again h₆ (.flush (.inl rfl) hemit)

/-- The batch's run completed by the flush. -/
def flushedRun : WatchActionRun :=
  completedRow { state := succeeded } (some 0) none (some "log") (sampleRun 1 1 1)

/-- The successor's run of the item. -/
def advancedRun : WatchActionRun := newRun 11 1 1 2 "log" 1 0 (some 1)

/-- The transaction of the flush after its drained check. -/
def openClosing (locked drained : Bool) : Flush :=
  .closing openSlice emitted (some (sampleAction 2 instantConfig 1)) (· + 10) locked drained

/-- The flush commits while its batch is still pending. -/
theorem flush_advances_own_sample :
    AdvancesCompleted [sampleRun 1 1 1] [flushedRun, advancedRun] := by
  have hcheck : Flush.Step {} sampleExecutors sampleRegistry
      (.advancing openSlice emitted (some (sampleAction 2 instantConfig 1))) openDigest
      { openDigest with locked := [(1, 1)] } (openClosing true true) :=
    .check (w := openDigest) (s := openSlice) (.add (n := 10) (by decide)) (not_blocked_instant _ _ _)
      (by decide) rfl
  have hcommit : Flush.Step {} sampleExecutors sampleRegistry (openClosing true true)
      { openDigest with locked := [(1, 1)] }
      (openSlice.close true true { openDigest with runs := [flushedRun, advancedRun] })
      (.started 0) :=
    .commit (.add (n := 10) (by decide)) (not_blocked_instant _ _ _) rfl
  have h₁ := Reach.again reach_emitted (.flush (.inl rfl) .lookup)
  have h₂ := Reach.again h₁ (.flush (.inl rfl) hcheck)
  refine (flush_advances_own.1 _ h₂ 0 _ _ (.flush (.inl rfl) hcommit)).mpr ?_ openSlice emitted _ _
    _ _ rfl nofun
  intro s x succ mint locked drained hp _ n _ r hr
  have hp' : Thread.flush (openClosing true true) =
      .flush (.closing s x succ mint locked drained) := hp
  cases hp'
  obtain rfl := List.mem_singleton.mp hr
  exact .inl ⟨sampleRun 1 1 1, List.mem_cons_self, rfl, rfl, rfl⟩

/-- The digest action made instant, its window cleared. -/
def madeInstant : World :=
  { openDigest with
    windows := []
    actions := [sampleAction 1 instantConfig 0, sampleAction 2 instantConfig 1] }

/-- The run claimed by the drain after the edit. -/
def drainClaimed : World :=
  { madeInstant with runs := [claimedRow 0 (sampleRun 1 1 1)], log := [.claimed 1 1 0 0] }

theorem step_loadDigest : Edit.Step sampleRegistry .idle openDigest openDigest
    (.loaded (sampleAction 1 digestConfig 0) toInstant) := .load (by decide)

theorem step_madeInstant : Edit.Step sampleRegistry (.loaded (sampleAction 1 digestConfig 0)
    toInstant) openDigest madeInstant .idle := by
  have hedit : setConfig sampleRegistry (sampleAction 1 digestConfig 0) toInstant = .ok {
      account := 1, updated := [(1, "log", instantConfig)], cleared := [1] } := by rfl
  exact .setConfig hedit (by decide) ⟨by decide, by decide, by decide, by decide⟩

theorem step_drainClaimed : Drain.Step {} sampleExecutors sampleRegistry
    (.candidate 0 (sampleRun 1 1 1)) madeInstant drainClaimed (.claimed 0 1 1) :=
  .claim (by decide : sampleRun 1 1 1 ∈ _) (by decide)

/-- **A claimed run is advanced.** After the emit the action is made instant and a drain worker
claims the run; the flush's transaction skips the run and still enqueues its successor. -/
theorem flush_advances_other : ∃ (c : Conf World Thread) (w : World) (t : Thread),
    Reach (SampleSystem FlushDrainEdit) (Init fun w => RunsOk w.runs) c ∧
    SampleSystem FlushDrainEdit (c.thread 0) c.shared w t ∧ ¬ AdvancesOwn c 0 w t := by
  have hcheck : Flush.Step {} sampleExecutors sampleRegistry
      (.advancing openSlice emitted (some (sampleAction 2 instantConfig 1))) drainClaimed
      drainClaimed (openClosing false true) :=
    .check (w := drainClaimed) (s := openSlice) (.add (n := 10) (by decide))
      (not_blocked_instant _ _ _) (by decide) rfl
  have hcommit : Flush.Step {} sampleExecutors sampleRegistry (openClosing false true) drainClaimed
      (openSlice.close false true
        { drainClaimed with runs := [claimedRow 0 (sampleRun 1 1 1), advancedRun] })
      (.started 0) :=
    .commit (.add (n := 10) (by decide)) (not_blocked_instant _ _ _) rfl
  -- the edit, the claim, and then the transaction of the flush
  have h₁ := Reach.next reach_emitted 2 (.edit (.inr (.inr rfl)) step_loadDigest) rfl rfl
  have h₂ := Reach.again h₁ (.edit (.inr (.inr rfl)) step_madeInstant)
  have h₃ := Reach.next h₂ 1 (.drain (.inr (.inl rfl)) .start) rfl rfl
  have h₄ := Reach.again h₃
    (.drain (.inr (.inl rfl)) (.candidate (by decide : sampleRun 1 1 1 ∈ _)))
  have h₅ := Reach.again h₄ (.drain (.inr (.inl rfl)) step_drainClaimed)
  have h₆ := Reach.next h₅ 0 (.flush (.inl rfl) .lookup) rfl rfl
  have h₇ := Reach.again h₆ (.flush (.inl rfl) hcheck)
  refine ⟨_, _, _, h₇, .flush (.inl rfl) hcommit, fun hall => ?_⟩
  have hown : AdvancesCompleted [claimedRow 0 (sampleRun 1 1 1)]
      [claimedRow 0 (sampleRun 1 1 1), advancedRun] := hall _ _ _ _ _ _ rfl nofun
  exact absurd hown (by decide)

end OpenMagpie
