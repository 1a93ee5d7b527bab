import OpenMagpie.Watches.Candidates
import OpenMagpie.Watches.Settlement

/-!
# The drain beside a flush

The drain leaves an action's runs alone when the window row is there as the candidates are read, and
the flush starts from the row. Neither the claim nor the flush looks at the row again.

* `Thread.holds`, **`reach_holdsRunning`**: without a reaper, a run that a worker holds is running, and no
  two workers hold it.
* `WindowKept`: the steps that create no window row over a candidate, and delete none under a flush.
* **`exclusive_of_windowKept`**: beside one flush, such steps keep the slices in flight to it.
-/

set_option autoImplicit false

namespace OpenMagpie

open WatchActionRunState Interleave

variable {C : Type} {S : Settings} {E : Executors} {R : Registry C} {on : Component → Prop}

/-! ## The runs that workers hold -/

/-- The run that a worker has claimed and not yet completed. -/
def Thread.holds : Thread → Option Id
  | .drain (.claimed _ id _) => some id
  | .drain (.held h) | .drain (.resolved h _) | .drain (.judged h ..) | .drain (.advancing h ..) =>
    some h.run.id
  | _ => none

/-- **A run that a worker holds after a step** was held before, or has just been claimed. -/
theorem System.holds {t t' : Thread} {w w' : World} (h : System S E R on t w w' t')
    (hc : t.CandidateOk) {i : Id} (hi : t'.holds = some i) :
    (t.holds = some i ∧ w'.runs = w.runs) ∨ ∃ r, NewClaim S t t' w w' r ∧ i = r.id := by
  cases h with
  | drain _ h =>
    cases h with
    | claim hr hg =>
      obtain rfl := Option.some.inj hi
      exact .inr ⟨_, .of_guard hc hr hg, (claimGuard_iff.mp hg).1.symm⟩
    | refresh hr hid => exact .inl ⟨hid ▸ hi, rfl⟩
    | resolve | judge | lookup => exact .inl ⟨hi, rfl⟩
    | _ => cases hi
  | _ => cases hi

/-- A running run is written by a reaper, or by the completion of a worker that holds it. -/
theorem RowWrite.running {t : Thread} {r r' : WatchActionRun} (h : RowWrite S t r r')
    (hc : t.CandidateOk) (ht : ∀ x, t ≠ .reap x) (hr : r.state = running) : r' = r ∨
      ∃ k action res d succ, t = .drain (.advancing k action res d succ) ∧ k.run.id = r.id ∧
        r'.state = res.state := by
  cases h with
  | keep => exact .inl rfl
  | @claim now run _ hg =>
    have hcl : run.state ∈ claimableStates := hc
    rw [← (claimGuard_iff.mp hg).2.1, hr] at hcl
    exact absurd hcl (by decide)
  | complete hg => exact .inr ⟨_, _, _, _, _, rfl, (completeGuard_iff.mp hg).1.symm, rfl⟩
  | exhausted | retryable => exact absurd rfl (ht _)
  | unresolvable _ hg | gone hg =>
    rw [(batchGuard_iff.mp hg).2.2] at hr
    cases hr
  | settle => exact .inl (Settle.row_of_not_pending (by rw [hr]; nofun))

/-- Without a reaper, no thread is one when it steps. -/
theorem System.not_reap {t t' : Thread} {w w' : World} (h : System S E R on t w w' t')
    (hreap : ¬ on .reap) : ∀ x, t ≠ .reap x := by
  rintro x rfl
  cases h with
  | reap hon => exact hreap hon

/-- A running run that the thread does not hold stays as it is. -/
theorem System.running {t t' : Thread} {w w' : World} (h : System S E R on t w w' t')
    (hreap : ¬ on .reap) (hdel : ¬ on .deleteRuns) (hw : RunsOk w.runs) (hw' : RunsOk w'.runs)
    (hc : t.CandidateOk) {r : WatchActionRun} (hr : r ∈ w.runs) (hrun : r.state = running)
    (ht : t.holds ≠ some r.id) : r ∈ w'.runs := by
  obtain ⟨r', hr', hwr⟩ := (h.evolve hdel hw hw').1 r hr
  rcases hwr.running hc (h.not_reap hreap) hrun with rfl | ⟨k, _, _, _, _, rfl, hid, -⟩
  · exact hr'
  · exact absurd (congrArg some hid) ht

/-- The run that a thread holds is running. -/
def Thread.HoldsRunning (runs : List WatchActionRun) (t : Thread) : Prop :=
  ∀ i, t.holds = some i → ∃ r ∈ runs, r.id = i ∧ r.state = running

/-- What one step keeps of the runs that workers hold. -/
theorem preserves_held (hreap : ¬ on .reap) (hdel : ¬ on .deleteRuns)
    {ok : StepCond World Thread} :
    Preserves (System S E R on) ok (fun w => RunsOk w.runs)
      (fun w t => t.SliceOk ∧ t.CandidateOk ∧ t.HoldsRunning w.runs)
      (fun _ t t' => ∀ i, t.holds = some i → t'.holds ≠ some i) where
  own {c p w t} hi hs _ := by
    obtain ⟨hslice, hcand, hrun⟩ := hi.each p
    obtain ⟨hw, hslice'⟩ := hs.runsOk hi.shared hslice
    refine ⟨hw, hslice', hs.candidateOk, fun i hh => ?_⟩
    rcases hs.holds hcand hh with ⟨hold, hsame⟩ | ⟨r, hn, rfl⟩
    · rw [hsame]
      exact hrun i hold
    · obtain ⟨r', hr', hid, -, hst⟩ := hn.written
      exact ⟨r', hr', hid, hst⟩
  other {c p q w t} hi hs _ hq := by
    obtain ⟨hslice, hcand, -⟩ := hi.each p
    obtain ⟨hsliceq, hcandq, hrunq⟩ := hi.each q
    have hw := (hs.runsOk hi.shared hslice).1
    -- a claimed run was claimable, and a held one is running
    have hnew : ∀ i, t.holds = some i → (c.thread q).holds ≠ some i := by
      intro i hh hhq
      rcases hs.holds hcand hh with ⟨hold, -⟩ | ⟨r, hn, rfl⟩
      · exact hi.pair p q (Ne.symm hq) i hold hhq
      · obtain ⟨x, hx, hid, hst⟩ := hrunq _ hhq
        obtain rfl := hi.shared.ids x hx r hn.mem hid
        have hcl := hn.claimable
        rw [hst] at hcl
        exact absurd hcl (by decide)
    refine ⟨⟨hsliceq, hcandq, fun i hhq => ?_⟩, hnew, fun i hhq hh => hnew i hh hhq⟩
    obtain ⟨r, hr, rfl, hst⟩ := hrunq i hhq
    refine ⟨r, hs.running hreap hdel hi.shared hw hcand hr hst ?_, rfl, hst⟩
    exact hi.pair q p hq _ hhq
  others hi _ _ _ _ hqr := hi.pair _ _ hqr

theorem Thread.Idle.holds {t : Thread} (h : t.Idle) : t.holds = none := by
  cases t with
  | drain d =>
    obtain rfl : d = .idle := h
    rfl
  | _ => rfl

/-- **Without a reaper, a run that a worker holds is running**, and no other worker holds it. -/
theorem reach_holdsRunning (hreap : ¬ on .reap) (hdel : ¬ on .deleteRuns) {G : World → Prop}
    (hG : ∀ w, G w → RunsOk w.runs) {ok : StepCond World Thread} {c : Conf World Thread}
    (h : ReachIn (System S E R on) (Init G) ok c) :
    ThreadInv (fun w => RunsOk w.runs)
      (fun w t => t.SliceOk ∧ t.CandidateOk ∧ t.HoldsRunning w.runs)
      (fun _ t t' => ∀ i, t.holds = some i → t'.holds ≠ some i) c := by
  refine h.threads ?_ (preserves_held hreap hdel)
  rintro c ⟨hg, hidle⟩
  have hno : ∀ p i, (c.thread p).holds ≠ some i := fun p i he => by
    rw [(hidle p).holds] at he
    cases he
  exact ⟨hG _ hg, fun p => ⟨(hidle p).sliceOk, (hidle p).candidateOk, fun i he => absurd he (hno p i)⟩,
    fun p q _ i he => absurd he (hno p i)⟩

/-! ## Window rows of slices in flight -/

/-- The thread has a slice of the action in flight. -/
def Thread.Slices (k : WindowKey) (t : Thread) : Prop :=
  ∃ f, t = .flush f ∧ f.inFlight ≠ [] ∧ ∃ s ∈ f.slice, s.window.key = k

theorem Thread.flush_of_inFlight {t : Thread} {i : Id} (h : i ∈ t.inFlight) : ∃ f, t = .flush f := by
  cases t with
  | flush f => exact ⟨f, rfl⟩
  | _ => cases h

/-- A run in flight is pending, and of the action of its slice. -/
theorem Thread.Tracked.slices {t : Thread} {runs : List WatchActionRun} {i : Id}
    (h : t.Tracked runs) (hi : i ∈ t.inFlight) :
    ∃ r ∈ runs, r.id = i ∧ r.state = pending ∧ t.Slices (r.accountId, r.actionId) := by
  obtain ⟨f, rfl⟩ := Thread.flush_of_inFlight hi
  obtain ⟨s, hs⟩ : ∃ s, s ∈ f.slice := by
    cases f <;> first | exact ⟨_, rfl⟩ | exact nomatch hi
  obtain ⟨r, hr, hid, ⟨hacc, hact, hst⟩, -⟩ := h.row s hs i hi
  refine ⟨r, hr, hid, hst, f, rfl, List.ne_nil_of_mem hi, s, hs, ?_⟩
  rw [hacc, hact]
  rfl

/-- The thread has the window of `k` due, or a slice of the action in flight. -/
def Thread.Flushes (k : WindowKey) (t : Thread) : Prop :=
  t.Slices k ∨ ∃ now v, t = .flush (.due now v) ∧ v.key = k

/-- The steps that leave the window row of an action alone while a candidate or a slice of the action
is in flight. -/
structure WindowKept (c : Conf World Thread) (p : ℕ) (w : World) (t : Thread) : Prop where
  /-- A window row is created only while no worker has a run of its action as a candidate. -/
  create : CreatesAside c p w t
  /-- A window row is deleted only while no flush has it due or a slice of its action in flight. -/
  delete : ∀ k ∈ windowKeys c.shared, k ∉ windowKeys w → ∀ q, ¬ (c.thread q).Flushes k

/-- An action whose window is due or that has a slice in flight has its window row. -/
def Thread.WindowThere (w : World) (t : Thread) : Prop := ∀ k, t.Flushes k → k ∈ windowKeys w

/-- An emitted slice that is to be completed has a run. -/
def Thread.Loaded : Thread → Prop
  | .flush (.emitting s _) => s.batch ≠ []
  | .flush (.settling s (.complete ..)) | .flush (.advancing s (.complete ..) _)
  | .flush (.closing s (.complete ..) ..) => s.batch ≠ []
  | _ => True

theorem System.loaded {t t' : Thread} {w w' : World} (h : System S E R on t w w' t')
    (ht : t.Loaded) : t'.Loaded := by
  cases h with
  | flush _ h =>
    cases h with
    | @gone w s action gone =>
      split_ifs with hb
      · trivial
      · exact hb
    | emit =>
      split_ifs
      · trivial
      · exact ht
    | @lookup w s x =>
      cases x with
      | complete => exact ht
      | _ => trivial
    | @check w w' s x succ mint hm hb hl hadv =>
      cases x with
      | complete => exact ht
      | _ => trivial
    | commit => split_ifs <;> trivial
    | _ => trivial
  | _ => trivial

theorem reach_loaded {G : World → Prop} {ok : StepCond World Thread} {c : Conf World Thread}
    (h : ReachIn (System S E R on) (Init G) ok c) : ∀ p, (c.thread p).Loaded := by
  refine (h.each (G := fun _ => True) (L := fun _ t => t.Loaded) ?_
    (fun _ hL hs _ => ⟨trivial, hs.loaded (hL _)⟩) fun _ hL _ _ _ => hL _).2
  rintro c ⟨-, hidle⟩
  refine ⟨trivial, fun p => ?_⟩
  have hp := hidle p
  cases ht : c.thread p with
  | flush f =>
    rw [ht] at hp
    obtain rfl : f = .idle := hp
    trivial
  | _ => trivial

theorem Thread.Idle.not_flushes {t : Thread} (h : t.Idle) (k : WindowKey) : ¬ t.Flushes k := by
  rintro (⟨f, rfl, hne, -⟩ | ⟨now, v, rfl, -⟩)
  · obtain rfl : f = .idle := h
    exact hne rfl
  · cases h

/-- **A slice in flight after a step** was in flight before, or has just been gathered. -/
theorem System.slices {t t' : Thread} {w w' : World} (h : System S E R on t w w' t')
    {k : WindowKey} (hk : t'.Slices k) : t.Slices k ∨
      ∃ now window s, t = .flush (.due now window) ∧ t' = .flush (.gathered s) ∧ window.key = k := by
  obtain ⟨f', rfl, hne, s, hs, rfl⟩ := hk
  cases h with
  | flush _ h =>
    cases h with
    | gather => exact .inr ⟨_, _, _, rfl, rfl, by obtain rfl := Option.some.inj hs; rfl⟩
    | resolve | lookup | check => exact .inl ⟨_, rfl, hne, s, hs, rfl⟩
    | emit | raise => exact .inl ⟨_, rfl, hne, s, hs, rfl⟩
    | @fetch w s' action =>
      refine .inl ⟨_, rfl, ?_, s', rfl, by obtain rfl := Option.some.inj hs; rfl⟩
      intro hnil
      have hb : s'.batch = [] := List.map_eq_nil_iff.mp hnil
      exact hne (by simp [Flush.inFlight, Slice.ids, hb])
    | @gone w s' action gone =>
      refine .inl ⟨_, rfl, ?_, s', rfl, ?_⟩
      · intro hnil
        obtain ⟨hids, -⟩ := List.append_eq_nil_iff.mp hnil
        have hb : s'.batch = [] := List.map_eq_nil_iff.mp hids
        rw [if_pos hb] at hne
        exact hne hids
      · split_ifs at hs <;> (obtain rfl := Option.some.inj hs; rfl)
    | commit => split_ifs at hne <;> exact absurd rfl hne
    | _ => exact absurd rfl hne

/-- **A flush that has a window due after a step**, or a slice of its action in flight, had that
before, or has just read the row. -/
theorem System.flushes {t t' : Thread} {w w' : World} (h : System S E R on t w w' t')
    (ht : t.Loaded) {k : WindowKey} (hk : t'.Flushes k) :
    t.Flushes k ∨ k ∈ OpenMagpie.windowKeys w' := by
  rcases hk with hk | ⟨now, v, rfl, rfl⟩
  · rcases h.slices hk with hold | ⟨now, window, s, rfl, -, rfl⟩
    · exact .inl (.inl hold)
    · exact .inl (.inr ⟨now, window, rfl, rfl⟩)
  · cases h with
    | flush _ h =>
      generalize hf : Flush.due now v = f' at h
      cases h with
      | due hv =>
        obtain ⟨rfl, rfl⟩ := Flush.due.inj hf
        exact .inr (List.mem_map_of_mem (mem_iterDue.mp hv).1)
      | @commit w w' s x succ mint locked drained hm hb hadv =>
        split_ifs at hf with hloop
        obtain ⟨rfl, rfl⟩ := Flush.due.inj hf
        cases x with
        | complete action res d =>
          refine .inl (.inl ⟨_, rfl, fun hnil => ht ?_, s, rfl, rfl⟩)
          exact List.map_eq_nil_iff.mp hnil
        | _ => exact absurd hloop Bool.false_ne_true
      | gone => split_ifs at hf
      | _ => cases hf

/-- **One step** keeps the window rows of the flushes at work. -/
theorem WindowKept.there {c : Conf World Thread} {p : ℕ} {w : World} {t : Thread}
    (h : WindowKept c p w t) (hs : System S E R on (c.thread p) c.shared w t)
    (he : (c.thread p).Loaded) (hc : ∀ q, (c.thread q).WindowThere c.shared) :
    ∀ q, ((c.set p w t).thread q).WindowThere w := by
  have stays {q : ℕ} {k : WindowKey} (hk : (c.thread q).Flushes k) : k ∈ windowKeys w := by
    by_contra hgone
    exact h.delete k (hc q k hk) hgone q hk
  refine Conf.forall_set (Q := fun _ (t : Thread) => t.WindowThere w) (fun k hk => ?_)
    fun q _ k hk => stays hk
  exact (hs.flushes he hk).elim stays id

/-! ## One flush -/

/-- Thread 0 is the only flush. -/
def SingleFlight (c : Conf World Thread) : Prop := ∀ q f, c.thread q = .flush f → q = 0

/-- Every thread idle, one of them a flush, over a store whose run table is in order. -/
def InitSingleFlight (c : Conf World Thread) : Prop := Init (fun w => RunsOk w.runs) c ∧ SingleFlight c

theorem reach_singleFlight {ok : StepCond World Thread} {c : Conf World Thread}
    (h : ReachIn (System S E R on) InitSingleFlight ok c) : SingleFlight c := by
  refine h.invariant (I := SingleFlight) (fun _ hc => hc.2) ?_
  intro c p w t hi hs _
  refine Conf.forall_set (Q := fun q (t : Thread) => ∀ f, t = .flush f → q = 0) ?_ fun q _ => hi q
  rintro f rfl
  generalize hp : c.thread p = t₀ at hs
  cases hs with
  | flush => exact hi p _ hp

variable (S E R on) in
/-- A run beside one flush is a run. -/
theorem ReachIn.of_singleFlight {ok : StepCond World Thread} {c : Conf World Thread}
    (h : ReachIn (System S E R on) InitSingleFlight ok c) :
    ReachIn (System S E R on) (Init fun w => RunsOk w.runs) ok c :=
  h.mono (fun _ _ _ _ h => h) (fun _ h => h.1) fun _ _ _ _ h => h

/-- **One step** that respects the window rows claims and gathers no run that is in flight: a slice's
action has its window row, a candidate's action has none. -/
theorem WindowKept.exclusive (hdel : ¬ on .deleteRuns) {c : Conf World Thread} {p : ℕ} {w : World}
    {t : Thread} (hs : System S E R on (c.thread p) c.shared w t)
    (hc : ReachIn (System S E R on) InitSingleFlight WindowKept c)
    (hex : ReachIn (System S E R on) InitSingleFlight Exclusive c) : Exclusive c p w t := by
  have htr := reach_tracked hdel (fun _ h => h) (ReachIn.of_singleFlight S E R on hex)
  have hone := reach_singleFlight hc
  have hrun := ReachIn.of_singleFlight S E R on hc
  have hthere : ∀ q, (c.thread q).WindowThere c.shared := by
    refine (hrun.strengthen fun _ h => reach_loaded h).invariant
      (I := fun c => ∀ q, (c.thread q).WindowThere c.shared) ?_
      fun _ p _ _ hi hs hok => hok.1.there hs (hok.2.1 p) hi
    rintro c ⟨-, hidle⟩ q k hk
    exact absurd hk ((hidle q).not_flushes k)
  refine ⟨fun i hi q hq => ?_, fun i hi hold q hqp hq => ?_⟩
  · have hknown := reach_candidateKnown hdel (fun _ h => h) hrun p
    have hfree := reach_unwindowed (fun _ _ _ _ h => h.create) hrun p
    generalize hp : c.thread p = t₀ at hi hknown hfree
    cases hi with
    | @claim now run n =>
      obtain ⟨r, hr, hid, hkey⟩ := hknown
      obtain ⟨x, hx, hxid, -, hsl⟩ := (htr.each q).2.slices hq
      obtain rfl := htr.shared.ids x hx r hr (hxid.trans hid.symm)
      have hact : x.windowKey = run.windowKey := windowKey_of_key hkey
      exact hfree run.windowKey rfl (hact ▸ hthere q _ (.inl hsl))
  · obtain ⟨f, rfl⟩ := Thread.flush_of_inFlight hi
    obtain ⟨fq, hfq⟩ := Thread.flush_of_inFlight hq
    generalize hp : c.thread p = t₀ at hs
    cases hs with
    | flush => exact hqp ((hone q _ hfq).trans (hone p _ hp).symm)

/-- **Runs beside one flush** that respect the window rows are exclusive. -/
theorem exclusive_of_windowKept (hdel : ¬ on .deleteRuns) {c : Conf World Thread}
    (h : ReachIn (System S E R on) InitSingleFlight WindowKept c) :
    ReachIn (System S E R on) InitSingleFlight Exclusive c :=
  h.imp_along fun _ _ _ _ hc hex hs _ => WindowKept.exclusive hdel hs hc hex

/-- The same for runs with their steps. -/
theorem Run.exclusive_of_windowKept (hdel : ¬ on .deleteRuns) {ok : StepCond World Thread}
    (hok : ∀ c p w t, ok c p w t → WindowKept c p w t) {tr : List (Move World Thread)}
    {c : Conf World Thread} (h : Run (System S E R on) InitSingleFlight ok tr c) :
    Run (System S E R on) InitSingleFlight (fun c p w t => ok c p w t ∧ Exclusive c p w t) tr c := by
  refine h.imp fun c p w t hc hs hs' => ⟨hs', ?_⟩
  have hwk : ReachIn (System S E R on) InitSingleFlight WindowKept c :=
    hc.mono (fun _ _ _ _ h => h) (fun _ h => h) hok
  exact WindowKept.exclusive hdel hs hwk (OpenMagpie.exclusive_of_windowKept hdel hwk)

end OpenMagpie
