import OpenMagpie.Watches.Settlement

/-!
# The attempts of a run

A run moves between the drain and the digest flush, and each runs its action. A claim burns the
attempt before the impl runs, a flush only after it, in the transaction that settles the slice.

* `invocations`: the impl runs whose input includes a run; `tickets`: the attempt numbers they run
  under.
* `Counted`: the numbers are distinct and covered by the run's attempts, an emitted slice apart.
* **`attempts_bounded`**: in every run without crashes in which each successor that a flush looks
  up loads, and no run is claimed or gathered while a slice has it in flight, every run is given to
  an impl at most `watchRunMaxAttempts` times.
* **`digest_reemitted`**: a successor of an unregistered kind has a batch emitted by every flush.
-/

set_option autoImplicit false

namespace OpenMagpie

open WatchActionRunState Interleave

variable {C : Type} {S : Settings} {E : Executors} {R : Registry C} {on : Component → Prop}

/-! ## Impl runs and their numbers -/

/-- The step runs an impl on the run. -/
def invokes (E : Executors) (i : Id) (m : Move World Thread) : Bool :=
  (dispatchOf E m).any fun d => decide (i ∈ d.runs)

/-- The number of impl runs whose input includes the run. -/
def invocations (E : Executors) (i : Id) (tr : List (Move World Thread)) : ℕ :=
  tr.countP (invokes E i)

/-- The attempt that an impl run of the thread is for the run `i`: the worker's claim, or the one
that the settlement of the slice is to burn. -/
def Thread.attempt (i : Id) : Thread → ℕ
  | .drain (.resolved h _) => h.claim
  | .flush (.emitting s _) => ((s.batch.find? fun r => decide (r.id = i)).elim 0 (·.attempts)) + 1
  | _ => 0

/-- The attempts under which impls ran on the run. -/
def tickets (E : Executors) (i : Id) (tr : List (Move World Thread)) : List ℕ :=
  (tr.filter (invokes E i)).map fun m => m.prev.attempt i

theorem length_tickets (i : Id) (tr : List (Move World Thread)) :
    (tickets E i tr).length = invocations E i tr := by
  rw [tickets, List.length_map, invocations, List.countP_eq_length_filter]

/-- **The steps that run an impl on the run `i`**: a worker's, under its unused claim, or the
emission of a slice. -/
theorem System.dispatched {t t' : Thread} {w w' : World} {d : Dispatch} {i : Id}
    (hs : System S E R on t w w' t') (hd : t.dispatch E w t' = some d) (hi : i ∈ d.runs) :
    w' = w ∧ t'.unused = none ∧
      (t.unused = some (i, t.attempt i) ∨
        (t.emitted = [] ∧ i ∈ t'.emitted ∧ ∃ f, t = .flush f ∧ ∃ s ∈ f.slice, i ∈ f.inFlight ∧
          ∃ x ∈ s.batch, x.id = i ∧ t.attempt i = x.attempts + 1)) := by
  cases hs with
  | drain _ hs =>
    cases hs with
    | @judge _ k action res delivery hres =>
      cases action with
      | none => cases hd
      | some a =>
        simp only [Thread.dispatch] at hd
        split_ifs at hd
        obtain rfl := Option.some.inj hd
        obtain rfl := List.mem_singleton.mp hi
        exact ⟨rfl, rfl, .inl rfl⟩
    | crash => exact absurd hd (Thread.dispatch_ne_some (by simp) (by simp))
    | _ => cases hd
  | flush _ hs =>
    have emitted {s : Slice} {a : WatchAction} {x : Settle}
        (hd : (Thread.flush (.emitting s a)).dispatch E w (.flush (.settling s x)) = some d) :
        i ∈ s.ids ∧ ∃ y ∈ s.batch, y.id = i ∧
          (Thread.flush (.emitting s a)).attempt i = y.attempts + 1 := by
      obtain rfl := Option.some.inj hd
      refine ⟨hi, ?_⟩
      obtain ⟨y, hy, hid⟩ := List.mem_map.mp hi
      cases hf : s.batch.find? fun r => decide (r.id = i) with
      | none => exact absurd (decide_eq_true hid) (List.find?_eq_none.mp hf y hy)
      | some z =>
        refine ⟨z, List.mem_of_find?_eq_some hf, ?_, by simp [Thread.attempt, hf]⟩
        exact of_decide_eq_true (List.find?_some (p := fun r : WatchActionRun => decide (r.id = i)) hf)
    cases hs with
    | emit | raise =>
      obtain ⟨hids, hy⟩ := emitted hd
      exact ⟨rfl, rfl, .inr ⟨rfl, hids, _, rfl, _, rfl, hids, hy⟩⟩
    | crash => exact absurd hd (Thread.dispatch_ne_some (by simp) (by simp))
    | _ => cases hd
  | _ => cases hd

/-! ## The invariant -/

/-- The conditions on the steps: exclusive slices, no crash of an emitting flush, and successors
that load. -/
def Accounted (R : Registry C) : StepCond World Thread := fun c p w t =>
  Exclusive c p w t ∧ NoCrash R c p w t ∧ SuccessorLoads R c p w t

/-- What holds of every state of the run, whatever happened. -/
structure Sound (S : Settings) (R : Registry C) (c : Conf World Thread) : Prop where
  tracked : ThreadInv (fun w => RunsOk w.runs) (fun w t => t.SliceOk ∧ t.Tracked w.runs)
    (fun _ t t' => ∀ i ∈ t.inFlight, i ∉ t'.inFlight) c
  numbered : ThreadInv (fun w => RunsOk w.runs ∧ PendingTriable S w.runs)
    (fun w t => t.SliceOk ∧ t.CandidateOk ∧ t.Numbered S w.runs)
    (fun _ t t' => ∀ e, t.unused = some e → t'.unused ≠ some e) c
  fits : ∀ p, (c.thread p).Fits R

theorem reach_sound (hdel : ¬ on .deleteRuns) {c : Conf World Thread}
    (h : ReachIn (System S E R on) (Init (Triable S)) (Accounted R) c) : Sound S R c := by
  have hex : ReachIn (System S E R on) (Init (Triable S)) Exclusive c :=
    h.mono (fun _ _ _ _ h => h) (fun _ h => h) fun _ _ _ _ h => h.1
  exact ⟨reach_tracked hdel (fun _ hg => hg.runs) hex, reach_numbered hdel h,
    reach_fits (fun _ _ _ _ h => h.2.2) h⟩

/-- The attempt `n` of the run `r` is accounted for: burned, or settled with the run, or of a
slice that was emitted and will be settled. -/
def Covered (c : Conf World Thread) (r : WatchActionRun) (n : ℕ) : Prop :=
  n ≤ r.attempts ∨ (n = r.attempts + 1 ∧
    (r.state ∈ terminalStates ∨ ∃ p, r.id ∈ (c.thread p).emitted))

/-- **The account of a run.** Impls ran on it under different attempts, each covered, and no worker
is about to run under one of them. -/
structure Counted (S : Settings) (E : Executors) (i : Id) (tr : List (Move World Thread))
    (c : Conf World Thread) : Prop where
  nodup : (tickets E i tr).Nodup
  range : ∀ n ∈ tickets E i tr, AttemptNumber S n
  covered : ∀ n ∈ tickets E i tr, ∃ r ∈ c.shared.runs, r.id = i ∧ Covered c r n
  ahead : ∀ p n, (c.thread p).unused = some (i, n) → n ∉ tickets E i tr

theorem not_terminal_of_claimable {s : WatchActionRunState} (h : s ∈ claimableStates) :
    s ∉ terminalStates := by
  revert h
  cases s <;> decide

/-- A claimable run that no slice has in flight has no number ahead of its attempts. -/
theorem Covered.le {c : Conf World Thread} {r : WatchActionRun} {n : ℕ} (h : Covered c r n)
    (hr : r.state ∈ claimableStates) (hf : ∀ p, r.id ∉ (c.thread p).emitted) : n ≤ r.attempts := by
  rcases h with h | ⟨-, ht | ⟨p, hp⟩⟩
  · exact h
  · exact absurd ht (not_terminal_of_claimable hr)
  · exact absurd hp (hf p)

/-! ## One step -/

/-- A run at rest stays as it is. -/
theorem RowWrite.terminal {t : Thread} {r r' : WatchActionRun} (h : RowWrite S t r r')
    (hc : t.CandidateOk) (hr : r.state ∈ terminalStates) : r' = r := by
  cases h with
  | keep => rfl
  | claim hg => exact absurd hr ((claimGuard_iff.mp hg).2.1 ▸ not_terminal_of_claimable hc)
  | complete hg => exact absurd hr ((completeGuard_iff.mp hg).2.1 ▸ running_not_terminal)
  | exhausted hs | retryable hs => exact absurd hr (hs.1 ▸ running_not_terminal)
  | unresolvable _ hg | gone hg =>
    exact absurd hr ((batchGuard_iff.mp hg).2.2 ▸ not_terminal_of_claimable (by decide))
  | settle =>
    refine Settle.row_of_not_pending fun hp => ?_
    rw [hp] at hr
    exact not_terminal_of_claimable (by decide) hr

section Step

variable {c : Conf World Thread} {p : ℕ} {w : World} {t : Thread} {i : Id}
  {tr : List (Move World Thread)}

/-- **A covered attempt stays covered.** -/
theorem Covered.step {r : WatchActionRun} {n : ℕ} (h : Covered c r n)
    (hs : System S E R on (c.thread p) c.shared w t) (hdel : ¬ on .deleteRuns)
    (hok : Accounted R c p w t) (hc : Sound S R c) (hw : RunsOk w.runs)
    (hr : r ∈ c.shared.runs) : ∃ r' ∈ w.runs, r'.id = r.id ∧ Covered (c.set p w t) r' n := by
  obtain ⟨r', hr', hwr⟩ := (hs.evolve hdel hc.tracked.shared hw).1 r hr
  refine ⟨r', hr', hwr.id, ?_⟩
  rcases h with hle | ⟨rfl, hrest⟩
  · exact .inl (hle.trans hwr.attempts_le)
  rcases hwr.attempts_le.eq_or_lt with ha | ha
  · refine .inr ⟨by rw [ha], ?_⟩
    rcases hrest with hterm | ⟨q, hq⟩
    · rw [hwr.terminal (hc.numbered.each p).2.1 hterm]
      exact .inl hterm
    · by_cases hqp : q = p
      · subst hqp
        obtain ⟨s, x, hx, hi⟩ := Thread.mem_emitted.mp hq
        rcases hs.settlement hok.2.1 (hc.fits q) (hc.tracked.each q).2 hx hi with
          hkept | ⟨y, hy, hyid, hg, hrow⟩
        · refine .inr ⟨q, ?_⟩
          rw [Conf.thread_set_self, hwr.id]
          exact Thread.mem_emitted.mpr ⟨s, x, hkept, hi⟩
        · obtain rfl := hc.tracked.shared.ids y hy r hr hyid
          obtain rfl := hw.ids _ hrow r' hr' (Settle.row_id.trans hwr.id.symm)
          exact .inl (((hc.fits q).settle R hx).settled hg |>.resolve_left fun hlt => hlt.ne ha)
      · exact .inr ⟨q, by rwa [Conf.thread_set_of_ne _ hqp, hwr.id]⟩
  · exact .inl ha

/-- The tickets after a step. -/
theorem tickets_cons : tickets E i (⟨c, p, w, t⟩ :: tr) =
    if invokes E i ⟨c, p, w, t⟩ = true then (c.thread p).attempt i :: tickets E i tr
    else tickets E i tr := by
  rw [tickets, List.filter_cons]
  split_ifs <;> rfl

theorem invokes_iff : invokes E i ⟨c, p, w, t⟩ = true ↔
    ∃ d, (c.thread p).dispatch E c.shared t = some d ∧ i ∈ d.runs := by
  simp [invokes, Option.any_eq_true, dispatchOf, Move.prev]

/-- **A new ticket** is a new number of the run, and covered. -/
theorem Counted.ticket (h : Counted S E i tr c)
    (hs : System S E R on (c.thread p) c.shared w t) (hc : Sound S R c)
    (hi : invokes E i ⟨c, p, w, t⟩ = true) : w = c.shared ∧
      AttemptNumber S ((c.thread p).attempt i) ∧ (c.thread p).attempt i ∉ tickets E i tr ∧
      (∃ r ∈ c.shared.runs, r.id = i ∧ Covered (c.set p w t) r ((c.thread p).attempt i)) ∧
      ∀ q, ((c.set p w t).thread q).unused ≠ some (i, (c.thread p).attempt i) := by
  obtain ⟨d, hd, hid⟩ := invokes_iff.mp hi
  obtain ⟨rfl, hnone, hun | ⟨hem, hnew, f, hf, s, hsl, hin, x, hx, hxid, ha⟩⟩ :=
    hs.dispatched hd hid
  · -- a worker runs its action under its own claim
    obtain ⟨hrange, r, hr, hrid, hle⟩ := (hc.numbered.each p).2.2 _ hun
    refine ⟨rfl, hrange, h.ahead p _ hun, ⟨r, hr, hrid, .inl hle⟩, ?_⟩
    refine Conf.forall_set (Q := fun _ (t : Thread) => t.unused ≠ some (i, (c.thread p).attempt i)) ?_ ?_
    · rw [hnone]
      exact nofun
    · exact fun q hq => hc.numbered.pair p q (Ne.symm hq) _ hun
  · -- a slice is emitted: its rows are as they were gathered
    have htr := (hc.tracked.each p).2
    rw [hf] at htr
    obtain ⟨r, hr, hrid, hp, hatt⟩ := htr.row s hsl i hin
    rw [hatt x hx hxid] at ha
    have hflight : ∀ q, r.id ∉ (c.thread q).emitted := by
      intro q hq
      by_cases hqp : q = p
      · subst hqp
        rw [hem] at hq
        cases hq
      · have hin' : i ∈ (c.thread p).inFlight := hf ▸ hin
        exact hc.tracked.pair p q (Ne.symm hqp) i hin' (hrid ▸ (c.thread q).emitted_subset hq)
    refine ⟨rfl, ?_, ?_, ⟨r, hr, hrid, ?_⟩, ?_⟩
    · rw [ha]
      exact ⟨Nat.succ_pos _, hc.numbered.shared.2 r hr hp.2.2⟩
    · intro hmem
      obtain ⟨y, hy, hyid, hcov⟩ := h.covered _ hmem
      obtain rfl := hc.tracked.shared.ids y hy r hr (hyid.trans hrid.symm)
      have hle := hcov.le (by rw [hp.2.2]; decide) hflight
      rw [ha] at hle
      exact absurd hle (Nat.not_succ_le_self _)
    · exact .inr ⟨ha, .inr ⟨p, by rwa [Conf.thread_set_self, hrid]⟩⟩
    · refine Conf.forall_set (Q := fun _ (t : Thread) => t.unused ≠ some (i, (c.thread p).attempt i)) ?_ ?_
      · rw [hnone]
        exact nofun
      · intro q _ hq
        obtain ⟨-, y, hy, hyid, hle⟩ := (hc.numbered.each q).2.2 _ hq
        obtain rfl := hc.tracked.shared.ids y hy r hr (hyid.trans hrid.symm)
        rw [ha] at hle
        exact absurd hle (Nat.not_succ_le_self _)

/-- **One step** keeps the account of a run. -/
theorem Counted.step (h : Counted S E i tr c) (hs : System S E R on (c.thread p) c.shared w t)
    (hdel : ¬ on .deleteRuns) (hok : Accounted R c p w t) (hc : Sound S R c) :
    Counted S E i (⟨c, p, w, t⟩ :: tr) (c.set p w t) := by
  have hw : RunsOk w.runs := (hs.runsOk hc.tracked.shared (hc.tracked.each p).1).1
  have hcov : ∀ n ∈ tickets E i tr, ∃ r ∈ w.runs, r.id = i ∧ Covered (c.set p w t) r n := by
    intro n hn
    obtain ⟨r, hr, rfl, hrc⟩ := h.covered n hn
    exact hrc.step hs hdel hok hc hw hr
  have hahead : ∀ q n, ((c.set p w t).thread q).unused = some (i, n) → n ∉ tickets E i tr := by
    refine Conf.forall_set (Q := fun _ (t : Thread) => ∀ n, t.unused = some (i, n) → n ∉ tickets E i tr) ?_ ?_
    · intro n hn hmem
      rcases hs.unused (hc.numbered.each p).2.1 hn with hold | ⟨r, hnew, he⟩
      · exact h.ahead p n hold hmem
      · -- a claim takes a number above the run's attempts
        obtain ⟨rfl, rfl⟩ := Prod.mk.inj he
        obtain ⟨y, hy, hyid, hyc⟩ := h.covered _ hmem
        obtain rfl := hc.tracked.shared.ids y hy r hnew.mem hyid
        have hle := hyc.le hnew.claimable fun q hq =>
          hok.1.1 _ hnew.claims q ((c.thread q).emitted_subset hq)
        exact absurd hle (Nat.not_succ_le_self _)
    · exact fun q _ n hn => h.ahead q n hn
  cases hi : invokes E i ⟨c, p, w, t⟩ with
  | false =>
    have htk : tickets E i (⟨c, p, w, t⟩ :: tr) = tickets E i tr := by
      rw [tickets_cons, hi]
      exact if_neg Bool.false_ne_true
    refine ⟨?_, ?_, ?_, ?_⟩ <;> rw [htk]
    · exact h.nodup
    · exact h.range
    · exact hcov
    · exact hahead
  | true =>
    obtain ⟨rfl, hrange, hfresh, hrow, hun⟩ := h.ticket hs hc hi
    have htk : tickets E i (⟨c, p, c.shared, t⟩ :: tr) =
        (c.thread p).attempt i :: tickets E i tr := by
      rw [tickets_cons, if_pos hi]
    refine ⟨?_, ?_, ?_, ?_⟩ <;> rw [htk]
    · exact List.nodup_cons.mpr ⟨hfresh, h.nodup⟩
    · exact List.forall_mem_cons.mpr ⟨hrange, h.range⟩
    · exact List.forall_mem_cons.mpr ⟨hrow, hcov⟩
    · intro q n hn hmem
      rcases List.mem_cons.mp hmem with rfl | hmem
      · exact hun q hn
      · exact hahead q n hn hmem

end Step

/-! ## Every run -/

/-- **Every run is tried a bounded number of times.** In every run in which no flush crashes
between an emission and its settlement, every successor that a flush looks up loads, and no run is
claimed or gathered while a slice has it in flight, a run is given to an impl at most
`watchRunMaxAttempts` times, by workers and flushes together. -/
theorem attempts_bounded (hdel : ¬ on .deleteRuns) {tr : List (Move World Thread)}
    {c : Conf World Thread}
    (h : Run (System S E R on) (Init (Triable S)) (Accounted R) tr c) (i : Id) :
    invocations E i tr ≤ S.watchRunMaxAttempts := by
  have hc : Counted S E i tr c := by
    refine (h.strengthen fun c hc => reach_sound hdel hc).invariant
      (I := fun tr c => Counted S E i tr c) ?_ ?_
    · exact fun c _ => ⟨List.nodup_nil, nofun, nofun, fun _ _ _ => List.not_mem_nil⟩
    · exact fun tr c p w t hi hs ⟨hok, hsound⟩ => hi.step hs hdel hok hsound
  have hsub : tickets E i tr ⊆ List.range' 1 S.watchRunMaxAttempts := by
    intro n hn
    obtain ⟨hpos, hle⟩ := hc.range n hn
    exact List.mem_range'_1.mpr ⟨hpos, by omega⟩
  calc invocations E i tr = (tickets E i tr).length := (length_tickets i tr).symm
    _ ≤ (List.range' 1 S.watchRunMaxAttempts).length :=
      (List.subperm_of_subset hc.nodup hsub).length_le
    _ = S.watchRunMaxAttempts := List.length_range'

/-! ## With and without the condition -/

/-- Flushes alone. -/
def FlushOnly (k : Component) : Prop := k = .flush

/-- One flush. -/
def oneFlush : ℕ → Thread
  | 0 => .flush .idle
  | _ => .env

theorem inFlight_oneFlush {q : ℕ} (hq : q ≠ 0) : (oneFlush q).inFlight = [] := by
  cases q with
  | zero => exact absurd rfl hq
  | succ q => rfl

/-- A due digest of one run, with a successor of a kind that is not registered. -/
def staleSuccessor : World where
  runs := [sampleRun 1 1 1]
  windows := [⟨1, 1, some 0⟩]
  actions := [sampleAction 1 digestConfig 0, ⟨2, 1, 1, "unregistered", .obj [], 1⟩]
  items := [sampleItem 1]

/-- The flush of the digest, at a program point. -/
def flushAt (f : Flush) : Conf World Thread :=
  Conf.set ⟨staleSuccessor, oneFlush⟩ 0 staleSuccessor (.flush f)

/-- The slice of the digest. -/
def staleSlice : Slice := ⟨0, ⟨1, 1, some 0⟩, [sampleRun 1 1 1]⟩

/-- Its successful emission. -/
def staleEmitted : Settle := .complete (sampleAction 1 digestConfig 0) { state := succeeded } none

theorem init_flushAt : Init (Triable {}) (flushAt .idle) := by
  refine ⟨⟨⟨by simp [flushAt, staleSuccessor, IdUnique], by decide⟩, by decide⟩, ?_⟩
  refine Conf.forall_set (Q := fun _ (t : Thread) => t.Idle) rfl fun q hq => ?_
  cases q with
  | zero => exact absurd rfl hq
  | succ q => trivial

section Sample

variable {ok : StepCond World Thread} {tr : List (Move World Thread)}

/-- A step of the only flush is exclusive. -/
theorem Run.flushAt {f f' : Flush} (h : Run (SampleSystem FlushOnly) (Init (Triable {})) ok tr
      (flushAt f))
    (hs : Flush.Step {} sampleExecutors sampleRegistry f staleSuccessor staleSuccessor f')
    (hok : Exclusive (flushAt f) 0 staleSuccessor (.flush f') →
      ok (flushAt f) 0 staleSuccessor (.flush f')) :
    Run (SampleSystem FlushOnly) (Init (Triable {})) ok
      (⟨flushAt f, 0, staleSuccessor, .flush f'⟩ :: tr) (flushAt f') := by
  have hsys : SampleSystem FlushOnly (.flush f) staleSuccessor staleSuccessor (.flush f') :=
    .flush rfl hs
  refine h.again hsys (hok ?_)
  have hstep : SampleSystem FlushOnly ((OpenMagpie.flushAt f).thread 0) staleSuccessor
      staleSuccessor (.flush f') := by simpa [OpenMagpie.flushAt] using hsys
  refine exclusive_of_alone hstep fun q hq => ?_
  rw [OpenMagpie.flushAt, Conf.thread_set_of_ne _ hq]
  exact inFlight_oneFlush hq

/-- A flush that emits the digest, from a run up to its start. -/
theorem exists_emission (hok : ∀ f f', Accounted sampleRegistry (flushAt f) 0 staleSuccessor
      (.flush f') → ok (flushAt f) 0 staleSuccessor (.flush f'))
    (h : Run (SampleSystem FlushOnly) (Init (Triable {})) ok tr (flushAt .idle)) :
    ∃ l, Run (SampleSystem FlushOnly) (Init (Triable {})) ok (l ++ tr)
      (flushAt (.settling staleSlice staleEmitted)) ∧ invocations sampleExecutors 1 l = 1 := by
  have hdue : Flush.Step {} sampleExecutors sampleRegistry (.started 0) staleSuccessor
      staleSuccessor (.due 0 ⟨1, 1, some 0⟩) := .due (by decide)
  have hgather : Flush.Step {} sampleExecutors sampleRegistry (.due 0 ⟨1, 1, some 0⟩)
      staleSuccessor staleSuccessor (.gathered staleSlice) := .gather (by decide)
  have hresolve : Flush.Step {} sampleExecutors sampleRegistry (.gathered staleSlice)
      staleSuccessor staleSuccessor (.resolved staleSlice (sampleAction 1 digestConfig 0)) :=
    .resolve rfl (by decide)
  have hfetch : Flush.Step {} sampleExecutors sampleRegistry
      (.resolved staleSlice (sampleAction 1 digestConfig 0)) staleSuccessor staleSuccessor
      (.fetched staleSlice (sampleAction 1 digestConfig 0) []) := .fetch
  have hgone : Flush.Step {} sampleExecutors sampleRegistry
      (.fetched staleSlice (sampleAction 1 digestConfig 0) []) staleSuccessor staleSuccessor
      (.emitting staleSlice (sampleAction 1 digestConfig 0)) := .gone
  have hemit : Flush.Step {} sampleExecutors sampleRegistry
      (.emitting staleSlice (sampleAction 1 digestConfig 0)) staleSuccessor staleSuccessor
      (.settling staleSlice staleEmitted) := .emit { state := succeeded } none (by decide)
  -- nothing is emitted before the last step, and no successor looked up
  have account {f f' : Flush} (hf : f.unsent = true) :
      Exclusive (flushAt f) 0 staleSuccessor (.flush f') →
        ok (flushAt f) 0 staleSuccessor (.flush f') := fun hex =>
    hok f f' ⟨hex, fun hne => absurd (Flush.of_unsent hf).1 hne,
      fun s x hp => absurd (Thread.flush.inj hp) ((Flush.of_unsent hf).2 s x)⟩
  have h₁ := Run.flushAt h .start (account rfl)
  have h₂ := Run.flushAt h₁ hdue (account rfl)
  have h₃ := Run.flushAt h₂ hgather (account rfl)
  have h₄ := Run.flushAt h₃ hresolve (account rfl)
  have h₅ := Run.flushAt h₄ hfetch (account rfl)
  have h₆ := Run.flushAt h₅ hgone (account rfl)
  have h₇ := Run.flushAt h₆ hemit (account rfl)
  exact ⟨_ :: _ :: _ :: _ :: _ :: _ :: _ :: [], h₇, rfl⟩

end Sample

/-- A run is emitted once. -/
theorem attempts_bounded_sample : ∃ tr, invocations sampleExecutors 1 tr = 1 ∧
    invocations sampleExecutors 1 tr ≤ ({} : Settings).watchRunMaxAttempts := by
  obtain ⟨l, h, hone⟩ := exists_emission (fun _ _ h => h) (.init init_flushAt)
  rw [List.append_nil] at h
  exact ⟨l, hone, attempts_bounded nofun h 1⟩

/-- Every flush emits the batch again: its transaction looks the successor up and raises. -/
theorem reemitted (n : ℕ) : ∃ tr, Run (SampleSystem FlushOnly) (Init (Triable {}))
    (fun c p w t => Exclusive c p w t ∧ NoCrash sampleRegistry c p w t) tr (flushAt .idle) ∧
    invocations sampleExecutors 1 tr = n := by
  induction n with
  | zero => exact ⟨[], .init init_flushAt, rfl⟩
  | succ n ih =>
    obtain ⟨tr, h, hn⟩ := ih
    obtain ⟨l, h₁, hone⟩ := exists_emission (fun _ _ h => ⟨h.1, h.2.1⟩) h
    have hlookup : Flush.Step {} sampleExecutors sampleRegistry (.settling staleSlice staleEmitted)
        staleSuccessor staleSuccessor (.advancing staleSlice staleEmitted
          (some ⟨2, 1, 1, "unregistered", .obj [], 1⟩)) := .lookup
    have hraise : Flush.Step {} sampleExecutors sampleRegistry (.advancing staleSlice staleEmitted
          (some ⟨2, 1, 1, "unregistered", .obj [], 1⟩)) staleSuccessor staleSuccessor .idle :=
      .crash fun _ _ _ _ _ _ h => Flush.noConfusion h
    have h₂ := Run.flushAt h₁ hlookup fun hex => ⟨hex, fun _ he => nomatch he⟩
    have h₃ := Run.flushAt h₂ hraise fun hex => ⟨hex, fun _ _ => ⟨_, _, _, rfl, ?_⟩⟩
    · refine ⟨_, h₃, ?_⟩
      calc invocations sampleExecutors 1 (_ :: _ :: (l ++ tr))
          = invocations sampleExecutors 1 (l ++ tr) := by
            rw [invocations, List.countP_cons_of_neg Bool.false_ne_true,
              List.countP_cons_of_neg Bool.false_ne_true]
            rfl
        _ = n + 1 := by
            rw [invocations, List.countP_append]
            exact (congrArg₂ _ hone hn).trans (Nat.add_comm 1 n)
    · rintro ⟨n, hn⟩
      cases hn

/-- **A digest is emitted without end.** A batch whose successor is of an unregistered kind is
given to its impl by every flush, without a crash and without an overlap. -/
theorem digest_reemitted : ∃ tr c, Run (SampleSystem FlushOnly) (Init (Triable {}))
    (fun c p w t => Exclusive c p w t ∧ NoCrash sampleRegistry c p w t) tr c ∧
    ({} : Settings).watchRunMaxAttempts < invocations sampleExecutors 1 tr := by
  obtain ⟨tr, h, hn⟩ := reemitted (({} : Settings).watchRunMaxAttempts + 1)
  exact ⟨tr, _, h, by rw [hn]; exact Nat.lt_succ_self _⟩

end OpenMagpie
