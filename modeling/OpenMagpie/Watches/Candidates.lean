import OpenMagpie.Watches.Rows
import OpenMagpie.Watches.WindowRows

/-!
# Candidates and window rows

A drain worker takes its candidates from the runs whose action has no window row, and claims one
in a later step, without another look at the row.

* `CreatesWindow`, `Thread.IsCandidateOf`: a window row is created; a worker stands between the
  read and the claim of a run of an action.
* `CreatesAside`: no window row is created over a candidate.
* **`reach_unwindowed`**: then a candidate's action has no window row up to the claim.
* `Thread.CandidateKnown`, `reach_candidateKnown`: without deletes, a candidate is a run of the
  table, under its unique key.
-/

set_option autoImplicit false

namespace OpenMagpie

open WatchActionRunState Interleave

variable {C : Type} {S : Settings} {E : Executors} {R : Registry C} {on : Component → Prop}

/-- The window key of a run's action. -/
def WatchActionRun.windowKey (r : WatchActionRun) : WindowKey := (r.accountId, r.actionId)

/-- The unique key of a run names its action. -/
theorem windowKey_of_key {r r' : WatchActionRun} (h : r.key = r'.key) :
    r.windowKey = r'.windowKey := by
  simp only [WatchActionRun.key, Prod.mk.injEq] at h
  rw [WatchActionRun.windowKey, WatchActionRun.windowKey, h.1, h.2.2.1]

/-! ## The action of a candidate -/

/-- The write creates the window row of `k`. -/
def CreatesWindow (k : WindowKey) (w w' : World) : Prop := k ∉ windowKeys w ∧ k ∈ windowKeys w'

/-- The thread has a run of the action `k` as its candidate. -/
def Thread.IsCandidateOf (k : WindowKey) : Thread → Prop
  | .drain (.candidate _ run) => run.windowKey = k
  | _ => False

/-- A window row is created only while no worker has a run of its action as a candidate. -/
def CreatesAside : StepCond World Thread := fun c _ w _ =>
  ∀ k, CreatesWindow k c.shared w → ∀ q, ¬ (c.thread q).IsCandidateOf k

/-- **The anti-join of `_due_runs`.** A run that has just been read as a candidate is of an action
without a window row, and the read writes nothing. -/
theorem System.candidate_unwindowed {t t' : Thread} {w w' : World} (h : System S E R on t w w' t')
    {k : WindowKey} (hk : t'.IsCandidateOf k) : k ∉ OpenMagpie.windowKeys w' := by
  cases h with
  | drain _ h =>
    cases h with
    | candidate hr =>
      obtain rfl := hk
      exact (of_decide_eq_true (List.mem_filter.mp hr).2 : IsDue S _ _ _).2.2.2
    | _ => exact hk.elim
  | _ => exact hk.elim

theorem Thread.Idle.not_candidate {t : Thread} (h : t.Idle) (k : WindowKey) :
    ¬ t.IsCandidateOf k := by
  cases t with
  | drain d =>
    obtain rfl : d = .idle := h
    exact id
  | _ => exact id

/-- **Up to its claim, a candidate's action has no window row**, in every run that creates no window
row over a candidate. -/
theorem reach_unwindowed {G : World → Prop} {ok : StepCond World Thread}
    (hok : ∀ c p w t, ok c p w t → CreatesAside c p w t) {c : Conf World Thread}
    (h : ReachIn (System S E R on) (Init G) ok c) :
    ∀ p k, (c.thread p).IsCandidateOf k → k ∉ windowKeys c.shared := by
  refine (h.each (G := fun _ => True)
    (L := fun w t => ∀ k, t.IsCandidateOf k → k ∉ windowKeys w) ?_ ?_ ?_).2
  · rintro c ⟨-, hidle⟩
    exact ⟨trivial, fun p k hk => absurd hk ((hidle p).not_candidate k)⟩
  · exact fun _ _ hs _ => ⟨trivial, fun k hk => hs.candidate_unwindowed hk⟩
  · intro c p q w t _ hL _ hc _ k hk hnew
    exact hok c p w t hc k ⟨hL q k hk, hnew⟩ q hk

/-! ## The row of a candidate -/

/-- A worker's candidate is a run of the table, under its unique key. -/
def Thread.CandidateKnown (runs : List WatchActionRun) : Thread → Prop
  | .drain (.candidate _ run) => ∃ r ∈ runs, r.id = run.id ∧ r.key = run.key
  | _ => True

theorem reach_candidateKnown (hdel : ¬ on .deleteRuns) {G : World → Prop}
    (hG : ∀ w, G w → RunsOk w.runs) {ok : StepCond World Thread} {c : Conf World Thread}
    (h : ReachIn (System S E R on) (Init G) ok c) :
    ∀ p, (c.thread p).CandidateKnown c.shared.runs := by
  refine fun p => ((h.each (G := fun w => RunsOk w.runs)
    (L := fun w t => t.SliceOk ∧ t.CandidateKnown w.runs) ?_ ?_ ?_).2 p).2
  · rintro c ⟨hg, hidle⟩
    refine ⟨hG _ hg, fun p => ⟨(hidle p).sliceOk, ?_⟩⟩
    have hp := hidle p
    cases ht : c.thread p with
    | drain d =>
      rw [ht] at hp
      obtain rfl : d = .idle := hp
      trivial
    | _ => trivial
  · intro c p w t hw hL hs _
    obtain ⟨hw', hslice⟩ := hs.runsOk hw (hL p).1
    refine ⟨hw', hslice, ?_⟩
    generalize c.thread p = t₀ at hs
    cases hs with
    | drain _ hs =>
      cases hs with
      | candidate hr => exact ⟨_, List.mem_of_mem_filter hr, rfl, rfl⟩
      | _ => trivial
    | _ => trivial
  · intro c p q w t hw hL hs _ _
    refine ⟨(hL q).1, ?_⟩
    have hev := (hs.evolve hdel hw (hs.runsOk hw (hL p).1).1).1
    have hq := (hL q).2
    cases ht : c.thread q with
    | drain d =>
      rw [ht] at hq
      cases d with
      | candidate now run =>
        obtain ⟨r, hr, hid, hkey⟩ := hq
        obtain ⟨r', hr', hwr⟩ := hev r hr
        exact ⟨r', hr', hwr.id.trans hid, hwr.key.trans hkey⟩
      | _ => trivial
    | _ => trivial

/-- **A claim is of the candidate's run**: the row that a claim selects has the candidate's key. -/
theorem Thread.CandidateKnown.key_of_claim {now : Time} {run r : WatchActionRun}
    {runs : List WatchActionRun} (h : (Thread.drain (.candidate now run)).CandidateKnown runs)
    (hids : IdUnique runs) (hr : r ∈ runs) (hg : claimGuard S run r = true) : r.key = run.key := by
  obtain ⟨x, hx, hid, hkey⟩ := h
  obtain rfl := hids x hx r hr (hid.trans (claimGuard_iff.mp hg).1.symm)
  exact hkey

end OpenMagpie
