import OpenMagpie.Watches.Attempts
import OpenMagpie.Watches.DrainFlush
import OpenMagpie.Watches.FlushAdvance

/-!
# One flush beside the drain

A flush takes no claim on the slice it has gathered; the window row is to keep the drain away from
it. A run taken by both is delivered twice.

* `deliveries`: the successful impl runs on a run.
* `Delivered`: who may still deliver a run, and where a delivered one is.
* **`slices_left_alone`**: beside one flush, in every run that respects the window rows of slices
  in flight, the drain runs no action on a run of a slice, and without crashes every run is
  delivered at most once.
* **`slice_taken`**: an edit during the flush clears the window row, and the drain delivers the
  run of the slice again.
-/

set_option autoImplicit false

namespace OpenMagpie

open WatchActionRunState Interleave

variable {C : Type} {S : Settings} {E : Executors} {R : Registry C} {on : Component → Prop}

/-! ## Deliveries -/

/-- The settlement of a successful emission. -/
def Settle.succeeds : Settle → Bool
  | .complete _ res _ => decide (res.state = succeeded)
  | _ => false

/-- The thread's impl has succeeded, and the run or slice is not completed yet. -/
def Thread.hasSucceeded (t : Thread) : Bool :=
  match t with
  | .drain (.judged _ _ res _) | .drain (.advancing _ _ res ..) => decide (res.state = succeeded)
  | _ => t.settlement.any fun x => x.2.succeeds

/-- The step runs an impl on the run, and it succeeds. -/
def delivers (E : Executors) (i : Id) (m : Move World Thread) : Bool :=
  invokes E i m && m.next.hasSucceeded

/-- The number of successful impl runs on the run. -/
def deliveries (E : Executors) (i : Id) (tr : List (Move World Thread)) : ℕ :=
  tr.countP (delivers E i)

/-- The thread has the run in hand: claimed, or in flight. -/
def Thread.Owns (t : Thread) (i : Id) : Prop := t.holds = some i ∨ i ∈ t.inFlight

/-- **A success stays** with its thread until the runs are out of its hands. -/
theorem System.hasSucceeded {t t' : Thread} {w w' : World} (h : System S E R on t w w' t')
    (ht : t.hasSucceeded = true) : t'.hasSucceeded = true ∨ ∀ i, ¬ t'.Owns i := by
  have free {t' : Thread} (hh : t'.holds = none) (hf : t'.inFlight = []) :
      t'.hasSucceeded = true ∨ ∀ i, ¬ t'.Owns i :=
    .inr fun i => by simp [Thread.Owns, hh, hf]
  cases h with
  | drain _ h =>
    cases h with
    | lookup => exact .inl ht
    | commit | lose | crash => exact free rfl rfl
    | _ => cases ht
  | flush _ h =>
    cases h with
    | lookup | check => exact .inl ht
    | commit => exact free rfl (by split_ifs <;> rfl)
    | abort | crash => exact free rfl rfl
    | _ => cases ht
  | _ => cases ht

/-- **The runs in flight after a step** were in flight before, or are pending and have just been
gathered. -/
theorem System.inFlight {t t' : Thread} {w w' : World} (h : System S E R on t w w' t') {i : Id}
    (hi : i ∈ t'.inFlight) : i ∈ t.inFlight ∨
      (t.inFlight = [] ∧ ∃ r ∈ w.runs, r.id = i ∧ r.state = pending) := by
  cases h with
  | flush _ h =>
    cases h with
    | gather =>
      obtain ⟨r, hr, hid⟩ := List.mem_map.mp hi
      obtain ⟨hmem, hp⟩ := mem_of_mem_digestBatch hr
      exact .inr ⟨rfl, r, hmem, hid, hp.2.2⟩
    | resolve | emit | raise | lookup | check => exact .inl hi
    | @fetch w s action =>
      refine .inl ?_
      rcases List.mem_append.mp hi with hi | hi <;> obtain ⟨r, hr, hid⟩ := List.mem_map.mp hi
      · exact List.mem_map.mpr ⟨r, List.mem_of_mem_filter hr, hid⟩
      · exact List.mem_map.mpr ⟨r, List.mem_of_mem_filter hr, hid⟩
    | gone =>
      refine .inl (List.mem_append_left _ ?_)
      split_ifs at hi <;> exact hi
    | commit => split_ifs at hi <;> cases hi
    | _ => cases hi
  | _ => cases hi

/-! ## Runs in two hands -/

/-- What holds of every state of the run, whatever is delivered. -/
structure Apart (c : Conf World Thread) : Prop where
  tracked : ThreadInv (fun w => RunsOk w.runs) (fun w t => t.SliceOk ∧ t.Tracked w.runs)
    (fun _ t t' => ∀ i ∈ t.inFlight, i ∉ t'.inFlight) c
  held : ThreadInv (fun w => RunsOk w.runs)
    (fun w t => t.SliceOk ∧ t.CandidateOk ∧ t.HoldsRunning w.runs)
    (fun _ t t' => ∀ i, t.holds = some i → t'.holds ≠ some i) c

theorem reach_apart (hreap : ¬ on .reap) (hdel : ¬ on .deleteRuns) {c : Conf World Thread}
    (h : ReachIn (System S E R on) (Init fun w => RunsOk w.runs) Exclusive c) : Apart c :=
  ⟨reach_tracked hdel (fun _ h => h) h, reach_holdsRunning hreap hdel (fun _ h => h) h⟩

/-- **A run that a worker holds is in no slice.** The worker's is running, a slice's is pending. -/
theorem Apart.not_inFlight {c : Conf World Thread} (hc : Apart c) {p q : ℕ} {i : Id}
    (hp : (c.thread p).holds = some i) : i ∉ (c.thread q).inFlight := by
  intro hq
  obtain ⟨r, hr, hid, hrun⟩ := (hc.held.each p).2.2 i hp
  obtain ⟨x, hx, hxid, hpend, -⟩ := (hc.tracked.each q).2.slices hq
  obtain rfl := hc.held.shared.ids x hx r hr (hxid.trans hid.symm)
  rw [hrun] at hpend
  cases hpend

/-- A run is in the hands of one thread. -/
theorem Apart.owns {c : Conf World Thread} (hc : Apart c) {p q : ℕ} (hpq : p ≠ q) {i : Id}
    (hp : (c.thread p).Owns i) : ¬ (c.thread q).Owns i := by
  rcases hp with hp | hp <;> rintro (hq | hq)
  · exact hc.held.pair p q hpq i hp hq
  · exact hc.not_inFlight hp hq
  · exact hc.not_inFlight hq hp
  · exact hc.tracked.pair p q hpq i hp hq

theorem Thread.of_unused {t : Thread} {e : Id × ℕ} (h : t.unused = some e) :
    t.holds = some e.1 ∧ t.hasSucceeded = false := by
  cases t with
  | drain d => cases d <;> cases h <;> exact ⟨rfl, rfl⟩
  | _ => cases h

section Step

variable {c : Conf World Thread} {p : ℕ} {w : World} {t : Thread} {i : Id}
  {tr : List (Move World Thread)}

/-- An impl runs on a run that its thread has in hand and has not delivered yet. -/
theorem System.owns_of_invokes (hs : System S E R on (c.thread p) c.shared w t)
    (hi : invokes E i ⟨c, p, w, t⟩ = true) : w = c.shared ∧ (c.thread p).hasSucceeded = false ∧
      ((c.thread p).holds = some i ∨ (i ∈ (c.thread p).inFlight ∧ i ∈ t.emitted)) := by
  obtain ⟨d, hd, hid⟩ := invokes_iff.mp hi
  obtain ⟨rfl, -, hun | ⟨hem, hnew, f, hf, s, hsl, hin, -⟩⟩ := hs.dispatched hd hid
  · obtain ⟨hh, hsu⟩ := Thread.of_unused hun
    exact ⟨rfl, hsu, .inl hh⟩
  · have hin' : i ∈ (c.thread p).inFlight := hf ▸ hin
    refine ⟨rfl, ?_, .inr ⟨hin', hnew⟩⟩
    rw [hf] at hem ⊢
    cases hst : (Thread.flush f).settlement with
    | none => simp [Thread.hasSucceeded, hst]
    | some sx =>
      obtain ⟨g, hg, -, hfl⟩ := Thread.slice_of_settlement (x := sx.2) (s := sx.1) hst
      obtain rfl := Thread.flush.inj hg
      rw [Thread.emitted, hst] at hem
      rw [hfl, show sx.1.ids = [] from hem] at hin
      cases hin

end Step

/-! ## The invariant -/

/-- **Where the run `i` stands.** It was delivered at most once. A delivered run is not to be tried
again, unless its slice waits for its completion; and who has it in hand without a success finds
it not delivered. -/
structure Delivered (E : Executors) (i : Id) (tr : List (Move World Thread))
    (c : Conf World Thread) : Prop where
  once : deliveries E i tr ≤ 1
  row : 0 < deliveries E i tr → ∃ r ∈ c.shared.runs, r.id = i ∧ (r.state ∈ claimableStates →
    ∃ p, i ∈ (c.thread p).emitted ∧ (c.thread p).hasSucceeded = true)
  fresh : ∀ p, (c.thread p).Owns i → (c.thread p).hasSucceeded = false → deliveries E i tr = 0

section Step

variable {c : Conf World Thread} {p : ℕ} {w : World} {t : Thread} {i : Id}
  {tr : List (Move World Thread)}

/-- **A run that a thread takes in hand** is not delivered. -/
theorem Delivered.taken (h : Delivered E i tr c) (hs : System S E R on (c.thread p) c.shared w t)
    (hc : Apart c) (hex : Exclusive c p w t) (ht : t.Owns i) (hno : t.hasSucceeded = false) :
    deliveries E i tr = 0 := by
  -- a delivered run that may be tried again is in flight, and is neither claimed nor gathered
  have free {r : WatchActionRun} (hr : r ∈ c.shared.runs) (hid : r.id = i)
      (hcl : r.state ∈ claimableStates) (hf : ∀ q, i ∉ (c.thread q).inFlight) :
      deliveries E i tr = 0 := by
    by_contra hne
    obtain ⟨x, hx, hxid, hx'⟩ := h.row (Nat.pos_of_ne_zero hne)
    obtain rfl := hc.held.shared.ids x hx r hr (hxid.trans hid.symm)
    obtain ⟨q, hq, -⟩ := hx' hcl
    exact hf q ((c.thread q).emitted_subset hq)
  have kept (hp : (c.thread p).Owns i) : deliveries E i tr = 0 := by
    refine h.fresh p hp ?_
    by_contra hsu
    rcases hs.hasSucceeded (Bool.not_eq_false _ ▸ hsu) with hsu | hfree
    · rw [hsu] at hno
      cases hno
    · exact hfree i ht
  rcases ht with ht | ht
  · rcases hs.holds (hc.held.each p).2.1 ht with ⟨hold, -⟩ | ⟨r, hn, rfl⟩
    · exact kept (.inl hold)
    · exact free hn.mem rfl hn.claimable (hex.1 _ hn.claims)
  · rcases hs.inFlight ht with hold | ⟨hnil, r, hr, hid, hp⟩
    · exact kept (.inr hold)
    · refine free hr hid (by rw [hp]; decide) fun q hq => ?_
      by_cases hqp : q = p
      · rw [hqp, hnil] at hq
        cases hq
      · exact hex.2 i ht (by simp [hnil]) q hqp hq

theorem Thread.hasSucceeded_of_settlement {t : Thread} {s : Slice} {x : Settle}
    (h : t.settlement = some (s, x)) : t.hasSucceeded = x.succeeds := by
  obtain ⟨f, rfl, -, -⟩ := Thread.slice_of_settlement h
  show ((Thread.flush f).settlement.any fun x => x.2.succeeds) = x.succeeds
  rw [h]
  rfl

/-- The settlement of a successful emission puts its runs to rest. -/
theorem Settle.row_of_succeeds {s : Slice} {x : Settle} {r : WatchActionRun}
    (hx : x.succeeds = true) (hg : batchGuard s.window.accountId s.ids r = true) :
    (x.row S s r).state ∉ claimableStates := by
  cases x with
  | complete action res d =>
    rw [Settle.row, if_pos hg]
    show res.state ∉ claimableStates
    rw [of_decide_eq_true hx]
    decide
  | _ => cases hx

/-- **A delivered run stays where it is not tried again.** -/
theorem Delivered.row_step (h : Delivered E i tr c)
    (hs : System S E R on (c.thread p) c.shared w t) (hreap : ¬ on .reap) (hdel : ¬ on .deleteRuns)
    (hc : Apart c) (hfits : (c.thread p).Fits R) (hn : NoCrash R c p w t)
    (hpos : 0 < deliveries E i tr) : ∃ r ∈ w.runs, r.id = i ∧ (r.state ∈ claimableStates →
      ∃ q, i ∈ ((c.set p w t).thread q).emitted ∧
        ((c.set p w t).thread q).hasSucceeded = true) := by
  have hw : RunsOk w.runs := (hs.runsOk hc.held.shared (hc.held.each p).1).1
  obtain ⟨r, hr, rfl, hcl⟩ := h.row hpos
  obtain ⟨r', hr', hwr⟩ := (hs.evolve hdel hc.held.shared hw).1 r hr
  refine ⟨r', hr', hwr.id, fun hcl' => ?_⟩
  by_cases hclaim : r.state ∈ claimableStates
  · obtain ⟨q, hq, hsu⟩ := hcl hclaim
    by_cases hqp : q = p
    · subst hqp
      obtain ⟨s, x, hx, hi⟩ := Thread.mem_emitted.mp hq
      rw [Thread.hasSucceeded_of_settlement hx] at hsu
      rcases hs.settlement hn hfits (hc.tracked.each q).2 hx hi with
        hkept | ⟨y, hy, hyid, hg, hrow⟩
      · refine ⟨q, ?_, ?_⟩ <;> rw [Conf.thread_set_self]
        · exact Thread.mem_emitted.mpr ⟨s, x, hkept, hi⟩
        · rwa [Thread.hasSucceeded_of_settlement hkept]
      · obtain rfl := hc.held.shared.ids y hy r hr hyid
        obtain rfl := hw.ids _ hrow r' hr' (Settle.row_id.trans hwr.id.symm)
        exact absurd hcl' (Settle.row_of_succeeds hsu hg)
    · exact ⟨q, by rwa [Conf.thread_set_of_ne _ hqp], by rwa [Conf.thread_set_of_ne _ hqp]⟩
  · rcases mem_terminalStates_or r.state with hp | hrun | hfail | hterm
    · exact absurd (by rw [hp]; decide) hclaim
    · rcases hwr.running (hc.held.each p).2.1 (hs.not_reap hreap) hrun with
        rfl | ⟨k, action, res, d, succ, hp, hid, hst⟩
      · exact absurd hcl' hclaim
      · -- the holder completes the run: it has not succeeded, so the run was not delivered
        have hres : res.state ≠ succeeded := by
          intro he
          rw [hst, he] at hcl'
          exact absurd hcl' (by decide)
        have hzero := h.fresh p (by rw [hp, ← hid]; exact .inl rfl)
          (by rw [hp]; exact decide_eq_false hres)
        exact absurd hpos (by rw [hzero]; exact Nat.lt_irrefl 0)
    · exact absurd (by rw [hfail]; decide) hclaim
    · rw [hwr.terminal (hc.held.each p).2.1 hterm] at hcl'
      exact absurd hcl' hclaim

/-- **One step** keeps that. -/
theorem Delivered.step (h : Delivered E i tr c) (hs : System S E R on (c.thread p) c.shared w t)
    (hreap : ¬ on .reap) (hdel : ¬ on .deleteRuns) (hc : Apart c) (hfits : (c.thread p).Fits R)
    (hn : NoCrash R c p w t) (hex : Exclusive c p w t) :
    Delivered E i (⟨c, p, w, t⟩ :: tr) (c.set p w t) := by
  cases hd : delivers E i ⟨c, p, w, t⟩ with
  | false =>
    have hcount : deliveries E i (⟨c, p, w, t⟩ :: tr) = deliveries E i tr :=
      List.countP_cons_of_neg (by rw [hd]; exact Bool.false_ne_true)
    refine ⟨?_, ?_, ?_⟩ <;> rw [hcount]
    · exact h.once
    · exact h.row_step hs hreap hdel hc hfits hn
    · exact Conf.forall_set (Q := fun _ (t : Thread) => t.Owns i → t.hasSucceeded = false →
        deliveries E i tr = 0) (h.taken hs hc hex) fun q _ => h.fresh q
  | true =>
    obtain ⟨hinv, hsu⟩ := Bool.and_eq_true_iff.mp hd
    have hsu : t.hasSucceeded = true := hsu
    obtain ⟨rfl, hno, hown⟩ := hs.owns_of_invokes hinv
    have hp : (c.thread p).Owns i := hown.imp id And.left
    have hcount : deliveries E i (⟨c, p, c.shared, t⟩ :: tr) = 1 := by
      rw [deliveries, List.countP_cons_of_pos hd]
      exact congrArg (· + 1) (h.fresh p hp hno)
    refine ⟨hcount.le, fun _ => ?_, ?_⟩
    · rcases hown with hh | ⟨hin, hem⟩
      · obtain ⟨r, hr, hid, hrun⟩ := (hc.held.each p).2.2 i hh
        exact ⟨r, hr, hid, fun hcl => absurd hcl (by rw [hrun]; decide)⟩
      · obtain ⟨r, hr, hid, -, -⟩ := (hc.tracked.each p).2.slices hin
        exact ⟨r, hr, hid, fun _ => ⟨p, by rwa [Conf.thread_set_self], by rwa [Conf.thread_set_self]⟩⟩
    · refine Conf.forall_set (Q := fun _ (t : Thread) => t.Owns i → t.hasSucceeded = false →
        deliveries E i _ = 0) (fun _ hf => ?_) fun q hq hqi => ?_
      · rw [hsu] at hf
        cases hf
      · exact absurd hqi (hc.owns (Ne.symm hq) hp)

end Step

/-! ## Every run -/

variable (S E R on) in
/-- The runs beside one flush whose steps satisfy `ok`, with their steps. -/
abbrev SingleFlightRun (ok : StepCond World Thread) : List (Move World Thread) →
    Conf World Thread → Prop :=
  Run (System S E R on) InitSingleFlight ok

/-- **One flush beside the drain.** In every run of one flush, any number of drain workers, trigger
passes and edits that respects the window rows of slices in flight: the drain runs no action on a
run of a slice that is not completed or failed yet; and when no flush crashes after an emission
and every successor it looks up loads, every run is delivered successfully at most once. -/
theorem slices_left_alone (hreap : ¬ on .reap) (hdel : ¬ on .deleteRuns) :
    (∀ tr c, SingleFlightRun S E R on WindowKept tr c → ∀ m ∈ tr, ∀ d i, m.prev = .drain d →
      invokes E i m = true → ∀ q, i ∉ (m.before.thread q).inFlight) ∧
    ∀ tr c, SingleFlightRun S E R on
      (fun c p w t => WindowKept c p w t ∧ NoCrash R c p w t ∧ SuccessorLoads R c p w t) tr c →
      ∀ i, deliveries E i tr ≤ 1 := by
  have apart {ok : StepCond World Thread} (hok : ∀ c p w t, ok c p w t → Exclusive c p w t)
      {c : Conf World Thread} (h : ReachIn (System S E R on) InitSingleFlight ok c) : Apart c :=
    reach_apart hreap hdel (h.mono (fun _ _ _ _ h => h) (fun _ h => h.1) hok)
  refine ⟨fun tr c h => ?_, fun tr c h i => ?_⟩
  · have hrun := (Run.exclusive_of_windowKept hdel (fun _ _ _ _ h => h) h).strengthen
      fun c hc => apart (fun _ _ _ _ h => h.2) hc
    refine hrun.invariant (I := fun tr _ => ∀ m ∈ tr, ∀ d i, m.prev = .drain d →
      invokes E i m = true → ∀ q, i ∉ (m.before.thread q).inFlight)
      (fun _ _ _ hm => absurd hm List.not_mem_nil) ?_
    intro tr c p w t hi hs ⟨_, hc⟩ m hm
    rcases List.mem_cons.mp hm with rfl | hm
    · intro d i hd hinv q
      obtain ⟨-, -, hh | ⟨hin, -⟩⟩ := hs.owns_of_invokes hinv
      · exact hc.not_inFlight hh
      · have hd : c.thread p = .drain d := hd
        rw [hd] at hin
        cases hin
    · exact hi m hm
  · have hrun := (Run.exclusive_of_windowKept hdel (fun _ _ _ _ h => h.1) h).strengthen
      (K := fun c => Apart c ∧ ∀ p, (c.thread p).Fits R) fun c hc =>
        ⟨apart (fun _ _ _ _ h => h.2) hc, reach_fits (fun _ _ _ _ h => h.1.2.2)
          (ReachIn.of_singleFlight S E R on hc)⟩
    have hdel' : Delivered E i tr c := by
      refine hrun.invariant (I := fun tr c => Delivered E i tr c) (fun _ _ => ?_) ?_
      · exact ⟨Nat.zero_le 1, fun h => absurd h (Nat.lt_irrefl 0), fun _ _ _ => rfl⟩
      · intro tr c p w t hi hs ⟨⟨⟨_, hn, _⟩, hex⟩, hc, hfits⟩
        exact hi.step hs hreap hdel hc (hfits p) hn hex
    exact hdel'.once

/-! ## With and without the condition -/

/-- The flush of the open digest, at a program point. -/
def openAt (f : Flush) : Conf World Thread :=
  Conf.set ⟨openDigest, flushWorkerEditor⟩ 0 openDigest (.flush f)

/-- The conditions on steps. -/
def SampleOk : StepCond World Thread := fun c p w t =>
  WindowKept c p w t ∧ NoCrash sampleRegistry c p w t ∧ SuccessorLoads sampleRegistry c p w t

theorem init_openAt : InitSingleFlight (openAt .idle) := by
  have hsame : openAt .idle = ⟨openDigest, flushWorkerEditor⟩ := by
    simp [openAt, Conf.set, flushWorkerEditor, Function.update_eq_self_iff]
  rw [hsame]
  refine ⟨init_openDigest, fun q f hq => ?_⟩
  rcases q with _ | _ | _ | q
  · rfl
  all_goals cases hq

/-- A step that creates and deletes no window row. -/
theorem windowKept_of_keys {c : Conf World Thread} {p : ℕ} {w : World} {t : Thread}
    (h : windowKeys w = windowKeys c.shared) : WindowKept c p w t := by
  refine ⟨fun k hk => absurd (h ▸ hk.2) hk.1, fun k hk hgone => ?_⟩
  rw [h] at hgone
  exact absurd hk hgone

/-- A step of a thread without an emission, and before or after the lookup of a successor. -/
theorem sampleOk_of_quiet {c : Conf World Thread} {p : ℕ} {w : World} {t : Thread}
    (h : WindowKept c p w t) (he : (c.thread p).emitted = [])
    (hx : ∀ s x, c.thread p ≠ .flush (.settling s x)) : SampleOk c p w t :=
  ⟨h, fun hne => absurd he hne, fun s x hp => absurd hp (hx s x)⟩

/-- A step of the flush before anything is emitted. -/
theorem Run.openAt {tr : List (Move World Thread)} {f f' : Flush}
    (h : SingleFlightRun {} sampleExecutors sampleRegistry FlushDrainEdit SampleOk tr (openAt f))
    (hs : Flush.Step {} sampleExecutors sampleRegistry f openDigest openDigest f')
    (hu : f.unsent = true) :
    SingleFlightRun {} sampleExecutors sampleRegistry FlushDrainEdit SampleOk
      (⟨OpenMagpie.openAt f, 0, openDigest, .flush f'⟩ :: tr) (OpenMagpie.openAt f') := by
  obtain ⟨he, hx⟩ := Flush.of_unsent hu
  refine h.again (.flush (.inl rfl) hs) (sampleOk_of_quiet (windowKept_of_keys rfl) he ?_)
  exact fun s x hp => hx s x (Thread.flush.inj hp)

/-- The flush delivers the run of the digest. -/
theorem exists_delivery : ∃ tr, SingleFlightRun {} sampleExecutors sampleRegistry FlushDrainEdit
    SampleOk tr (openAt (.settling openSlice emitted)) ∧ deliveries sampleExecutors 1 tr = 1 := by
  have hdue : Flush.Step {} sampleExecutors sampleRegistry (.started 0) openDigest openDigest
      (.due 0 ⟨1, 1, some 0⟩) := .due (by decide)
  have hgather : Flush.Step {} sampleExecutors sampleRegistry (.due 0 ⟨1, 1, some 0⟩) openDigest
      openDigest (.gathered openSlice) := .gather (by decide)
  have hresolve : Flush.Step {} sampleExecutors sampleRegistry (.gathered openSlice) openDigest
      openDigest (.resolved openSlice (sampleAction 1 digestConfig 0)) := .resolve rfl (by decide)
  have hfetch : Flush.Step {} sampleExecutors sampleRegistry
      (.resolved openSlice (sampleAction 1 digestConfig 0)) openDigest openDigest
      (.fetched openSlice (sampleAction 1 digestConfig 0) []) := .fetch
  have hgone : Flush.Step {} sampleExecutors sampleRegistry
      (.fetched openSlice (sampleAction 1 digestConfig 0) []) openDigest openDigest
      (.emitting openSlice (sampleAction 1 digestConfig 0)) := .gone
  have hemit : Flush.Step {} sampleExecutors sampleRegistry
      (.emitting openSlice (sampleAction 1 digestConfig 0)) openDigest openDigest
      (.settling openSlice emitted) := .emit { state := succeeded } none (by decide)
  have h₁ := Run.openAt (.init init_openAt) .start rfl
  have h₂ := Run.openAt h₁ hdue rfl
  have h₃ := Run.openAt h₂ hgather rfl
  have h₄ := Run.openAt h₃ hresolve rfl
  have h₅ := Run.openAt h₄ hfetch rfl
  have h₆ := Run.openAt h₅ hgone rfl
  have h₇ := Run.openAt h₆ hemit rfl
  exact ⟨_, h₇, rfl⟩

/-- The store after the flush has completed the run and closed the window. -/
def sliceDone : World := openSlice.close true true { openDigest with runs := [flushedRun, advancedRun] }

/-- The digest made instant after that, its window row deleted. -/
def doneInstant : World :=
  { sliceDone with
    windows := []
    actions := [sampleAction 1 instantConfig 0, sampleAction 2 instantConfig 1] }

/-- The flush delivers the run and commits. Only then an edit makes the digest instant and deletes its
window row, and a drain worker takes the successor's run: the run is delivered once. -/
theorem slices_left_alone_sample : ∃ tr c, SingleFlightRun {} sampleExecutors sampleRegistry
    FlushDrainEdit SampleOk tr c ∧ c.shared.windows = [] ∧
    deliveries sampleExecutors 1 tr = 1 ∧ deliveries sampleExecutors 1 tr ≤ 1 := by
  obtain ⟨tr, h, hone⟩ := exists_delivery
  have hloads : Loads sampleRegistry (sampleAction 2 instantConfig 1) := ⟨none, rfl⟩
  have hcheck : Flush.Step {} sampleExecutors sampleRegistry
      (.advancing openSlice emitted (some (sampleAction 2 instantConfig 1))) openDigest
      { openDigest with locked := [(1, 1)] } (openClosing true true) :=
    .check (w := openDigest) (s := openSlice) (.add (n := 10) (by decide)) (not_blocked_instant _ _ _)
      (by decide) rfl
  have hcommit : Flush.Step {} sampleExecutors sampleRegistry (openClosing true true)
      { openDigest with locked := [(1, 1)] } sliceDone (.started 0) :=
    .commit (.add (n := 10) (by decide)) (not_blocked_instant _ _ _) rfl
  have hload : Edit.Step sampleRegistry .idle sliceDone sliceDone
      (.loaded (sampleAction 1 digestConfig 0) toInstant) := .load (by decide)
  have hedit : setConfig sampleRegistry (sampleAction 1 digestConfig 0) toInstant = .ok {
      account := 1, updated := [(1, "log", instantConfig)], cleared := [1] } := by rfl
  have hset : Edit.Step sampleRegistry (.loaded (sampleAction 1 digestConfig 0) toInstant)
      sliceDone doneInstant .idle :=
    .setConfig hedit (by decide) ⟨by decide, by decide, by decide, by decide⟩
  -- the transaction of the flush
  have h₁ := h.again (.flush (.inl rfl) .lookup) ⟨windowKept_of_keys rfl,
    fun _ he => Flush.noConfusion (Thread.flush.inj he), fun s x hp nxt hn => by
      cases hp
      obtain rfl := Option.some.inj hn
      exact hloads⟩
  have h₂ := h₁.again (.flush (.inl rfl) hcheck) ⟨windowKept_of_keys rfl,
    fun _ he => Flush.noConfusion (Thread.flush.inj he), fun s x hp => by cases hp⟩
  have h₃ := h₂.again (.flush (.inl rfl) hcommit) ⟨windowKept_of_keys rfl,
    fun _ he => Flush.noConfusion (Thread.flush.inj he), fun s x hp => by cases hp⟩
  -- the edit finds no slice in flight
  have h₄ := h₃.next 2 (.edit (.inr (.inr rfl)) hload) rfl rfl
    (sampleOk_of_quiet (windowKept_of_keys rfl) rfl fun _ _ hp => Thread.noConfusion hp)
  have h₅ := h₄.again (.edit (.inr (.inr rfl)) hset) (sampleOk_of_quiet
    ⟨fun k hk => absurd hk.2 List.not_mem_nil, fun k _ _ q hq => by
      rcases hq with ⟨f, hf, hne, -⟩ | ⟨now, v, hf, -⟩ <;> rcases q with _ | _ | _ | q <;> cases hf
      exact hne rfl⟩ rfl fun _ _ hp => Thread.noConfusion hp)
  have h₆ := h₅.next 1 (.drain (.inr (.inl rfl)) .start) rfl rfl
    (sampleOk_of_quiet (windowKept_of_keys rfl) rfl fun _ _ hp => Thread.noConfusion hp)
  have h₇ := h₆.again (.drain (.inr (.inl rfl)) (.candidate (by decide : advancedRun ∈ _)))
    (sampleOk_of_quiet (windowKept_of_keys rfl) rfl fun _ _ hp => Thread.noConfusion hp)
  have hreap : ¬ FlushDrainEdit .reap := by simp [FlushDrainEdit]
  have hdel : ¬ FlushDrainEdit .deleteRuns := by simp [FlushDrainEdit]
  refine ⟨_, _, h₇, rfl, ?_, (slices_left_alone hreap hdel).2 _ _ h₇ 1⟩
  have hadd (l : List (Move World Thread)) (hl : deliveries sampleExecutors 1 l = 0) :
      deliveries sampleExecutors 1 (l ++ tr) = 1 := by
    rw [deliveries, List.countP_append]
    exact congrArg₂ (· + ·) hl hone
  exact hadd (_ :: _ :: _ :: _ :: _ :: _ :: _ :: []) rfl

/-- **A slice is taken.** After the emission an edit makes the digest instant and clears its window
row. A drain worker then claims the run of the slice that is still in flight, and delivers it a
second time. -/
theorem slice_taken : ∃ tr c, SingleFlightRun {} sampleExecutors sampleRegistry FlushDrainEdit
    (fun c p w t => NoCrash sampleRegistry c p w t ∧ SuccessorLoads sampleRegistry c p w t) tr c ∧
    (∃ m ∈ tr, ∃ d, m.prev = .drain d ∧ invokes sampleExecutors 1 m = true ∧
      1 ∈ (m.before.thread 0).inFlight) ∧
    deliveries sampleExecutors 1 tr = 2 := by
  obtain ⟨tr, h, hone⟩ := exists_delivery
  have h₀ : SingleFlightRun {} sampleExecutors sampleRegistry FlushDrainEdit
      (fun c p w t => NoCrash sampleRegistry c p w t ∧ SuccessorLoads sampleRegistry c p w t) tr
      (openAt (.settling openSlice emitted)) := h.imp fun _ _ _ _ _ _ hok => hok.2
  -- neither the editor nor the worker is a flush
  have idle {c : Conf World Thread} {p : ℕ} {w : World} {t t₀ : Thread} (hp : c.thread p = t₀)
      (ht : ∀ f, t₀ ≠ .flush f) :
      NoCrash sampleRegistry c p w t ∧ SuccessorLoads sampleRegistry c p w t := by
    refine ⟨fun hne => ?_, fun s x hs => absurd (hp.symm.trans hs) (ht _)⟩
    obtain ⟨i, hi⟩ := List.exists_mem_of_ne_nil _ hne
    obtain ⟨f, hf⟩ := Thread.flush_of_inFlight ((c.thread p).emitted_subset hi)
    exact absurd (hp.symm.trans hf) (ht f)
  have h₁ := h₀.next 2 (.edit (.inr (.inr rfl)) step_loadDigest) rfl rfl
    (idle rfl fun _ h => Thread.noConfusion h)
  have h₂ := h₁.again (.edit (.inr (.inr rfl)) step_madeInstant)
    (idle (Conf.thread_set_self ..) fun _ h => Thread.noConfusion h)
  have h₃ := h₂.next 1 (.drain (.inr (.inl rfl)) .start) rfl rfl
    (idle rfl fun _ h => Thread.noConfusion h)
  have h₄ := h₃.again (.drain (.inr (.inl rfl)) (.candidate (by decide : sampleRun 1 1 1 ∈ _)))
    (idle (Conf.thread_set_self ..) fun _ h => Thread.noConfusion h)
  have h₅ := h₄.again (.drain (.inr (.inl rfl)) step_drainClaimed)
    (idle (Conf.thread_set_self ..) fun _ h => Thread.noConfusion h)
  have h₆ := h₅.again (.drain (.inr (.inl rfl)) (.refresh List.mem_cons_self rfl))
    (idle (Conf.thread_set_self ..) fun _ h => Thread.noConfusion h)
  have h₇ := h₆.again (.drain (.inr (.inl rfl)) .resolve)
    (idle (Conf.thread_set_self ..) fun _ h => Thread.noConfusion h)
  have h₈ := h₇.again (.drain (.inr (.inl rfl)) (.judge (.returns (by decide) rfl
    { state := succeeded } none))) (idle (Conf.thread_set_self ..) fun _ h => Thread.noConfusion h)
  refine ⟨_, _, h₈, ⟨_, List.mem_cons_self, _, rfl, rfl, List.mem_cons_self⟩, ?_⟩
  have hadd (l : List (Move World Thread)) :
      deliveries sampleExecutors 1 (l ++ tr) = deliveries sampleExecutors 1 l + 1 := by
    rw [deliveries, List.countP_append]
    exact congrArg _ hone
  exact (hadd (_ :: _ :: _ :: _ :: _ :: _ :: _ :: _ :: [])).trans rfl

end OpenMagpie
