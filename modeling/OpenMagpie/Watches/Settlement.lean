import OpenMagpie.Watches.Dispatch
import OpenMagpie.Watches.Fencing
import OpenMagpie.Watches.Slices

/-!
# From the emission of a slice to its settlement

The settling transaction also looks the successor up, loads its config and opens its window. An
error there takes the slice's accounting back with it.

* `Thread.settlement`, `Thread.emitted`: a slice that was emitted and not settled, and its runs.
* `NoCrash`, `SuccessorLoads`: a flush stops there only where its transaction raises; the stored
  successor loads.
* **`System.settlement`**: under these, an emitted slice is kept until the one step that settles it.
* **`reach_numbered`**: a pending run has an attempt left, and the workers that have not run their
  action yet hold different claims, numbered by the attempts they wrote.
-/

set_option autoImplicit false

namespace OpenMagpie

open WatchActionRunState Interleave

variable {C : Type} {S : Settings} {E : Executors} {R : Registry C} {on : Component → Prop}

/-! ## Emitted slices -/

/-- The slice that a thread's flush has emitted, and what is to become of it. -/
def Thread.settlement : Thread → Option (Slice × Settle)
  | .flush (.settling s x) | .flush (.advancing s x _) | .flush (.closing s x ..) => some (s, x)
  | _ => none

/-- The runs that a thread's flush has emitted and not yet settled. -/
def Thread.emitted (t : Thread) : List Id := t.settlement.elim [] (·.1.ids)

theorem Thread.mem_emitted {t : Thread} {i : Id} :
    i ∈ t.emitted ↔ ∃ s x, t.settlement = some (s, x) ∧ i ∈ s.ids := by
  rw [Thread.emitted]
  cases t.settlement with
  | none => simp
  | some sx => exact ⟨fun h => ⟨_, _, rfl, h⟩, by rintro ⟨s, x, ⟨⟩, h⟩; exact h⟩

/-- An emitted slice is in flight. -/
theorem Thread.slice_of_settlement {t : Thread} {s : Slice} {x : Settle}
    (h : t.settlement = some (s, x)) : ∃ f, t = .flush f ∧ s ∈ f.slice ∧ f.inFlight = s.ids := by
  cases t with
  | flush f =>
    refine ⟨f, rfl, ?_⟩
    cases f <;> cases h <;> exact ⟨rfl, rfl⟩
  | _ => cases h

theorem Thread.emitted_subset (t : Thread) : t.emitted ⊆ t.inFlight := by
  intro i hi
  obtain ⟨s, x, hs, hi⟩ := Thread.mem_emitted.mp hi
  obtain ⟨f, rfl, -, hf⟩ := Thread.slice_of_settlement hs
  show i ∈ f.inFlight
  rwa [hf]

/-- The flush has emitted nothing that waits for its settlement. -/
def Flush.unsent : Flush → Bool
  | .settling .. | .advancing .. | .closing .. => false
  | _ => true

theorem Flush.of_unsent {f : Flush} (h : f.unsent = true) :
    (Thread.flush f).emitted = [] ∧ ∀ s x, f ≠ .settling s x := by
  cases f with
  | settling | advancing | closing => cases h
  | _ => exact ⟨rfl, fun _ _ h => Flush.noConfusion h⟩

variable (R) in
/-- The stored config of the successor loads, under a registered kind. -/
def Loads (nxt : WatchAction) : Prop := ∃ interval, digestInterval R nxt = .ok interval

variable (R) in
/-- The thread's flush is about to raise: its successor's config does not load. -/
def Raises (t : Thread) : Prop :=
  ∃ s x nxt, t = .flush (.advancing s x (some nxt)) ∧ ¬ Loads R nxt

variable (R) in
/-- A flush that has emitted a slice stops before settling it only where it raises. -/
def NoCrash : StepCond World Thread := fun c p _ t =>
  (c.thread p).emitted ≠ [] → t = .flush .idle → Raises R (c.thread p)

variable (R) in
/-- A flush that looks the successor up finds none, or one whose stored config loads. -/
def SuccessorLoads : StepCond World Thread := fun c p _ _ =>
  ∀ s x, c.thread p = .flush (.settling s x) →
    ∀ nxt ∈ x.successor c.shared.actions s.window.accountId, Loads R nxt

/-- What a settlement does fits its slice: only an empty slice is left alone, and a completed one
gets a terminal state. -/
def Settle.Fits (s : Slice) : Settle → Prop
  | .close => s.batch = []
  | .complete _ res _ => res.state ∈ terminalStates
  | .fail => True

variable (R) in
/-- What a flush keeps about its settlement: it fits the slice, and the successor loads. -/
def Thread.Fits : Thread → Prop
  | .flush (.settling s x) | .flush (.closing s x ..) => x.Fits s
  | .flush (.advancing s x succ) => x.Fits s ∧ ∀ nxt ∈ succ, Loads R nxt
  | _ => True

variable (R) in
theorem Thread.Fits.settle {t : Thread} {s : Slice} {x : Settle} (h : t.Fits R)
    (hx : t.settlement = some (s, x)) : x.Fits s := by
  obtain ⟨f, rfl, -, -⟩ := Thread.slice_of_settlement hx
  cases f <;> cases hx
  · exact h
  · exact h.1
  · exact h

/-- **One step** keeps that. -/
theorem System.fits {c : Conf World Thread} {p : ℕ} {w : World} {t : Thread}
    (hs : System S E R on (c.thread p) c.shared w t) (hl : SuccessorLoads R c p w t)
    (h : (c.thread p).Fits R) : t.Fits R := by
  rw [SuccessorLoads] at hl
  generalize c.thread p = t₀ at hs hl h
  cases hs with
  | flush _ hs =>
    cases hs with
    | empty | unresolvable => exact rfl
    | gone =>
      split_ifs with hb
      · exact hb
      · trivial
    | emit outcome d =>
      split_ifs with hf
      · trivial
      · exact (failed_or_terminal (ActionResult.isOutcome _)).resolve_left hf
    | raise => trivial
    | lookup => exact ⟨h, hl _ _ rfl⟩
    | check => exact h.1
    | commit => split_ifs <;> trivial
    | _ => trivial
  | _ => trivial

variable (R) in
theorem Thread.Idle.fits {t : Thread} (h : t.Idle) : t.Fits R := by
  cases t with
  | flush f =>
    obtain rfl : f = .idle := h
    trivial
  | _ => trivial

/-- **Every run** in which the successors load keeps that. -/
theorem reach_fits {G : World → Prop} {ok : StepCond World Thread}
    (hok : ∀ c p w t, ok c p w t → SuccessorLoads R c p w t) {c : Conf World Thread}
    (h : ReachIn (System S E R on) (Init G) ok c) : ∀ p, (c.thread p).Fits R :=
  h.invariant (I := fun c => ∀ p, (c.thread p).Fits R) (fun _ hc p => (hc.2 p).fits R)
    fun c p w t hi hs hc => Conf.forall_set (Q := fun _ (t : Thread) => t.Fits R)
      (hs.fits (hok c p w t hc) (hi p)) fun q _ => hi q

/-- A settled run has been tried once more, or is at rest. -/
theorem Settle.Fits.settled {s : Slice} {x : Settle} {r : WatchActionRun} (h : x.Fits s)
    (hg : batchGuard s.window.accountId s.ids r = true) :
    r.attempts < (x.row S s r).attempts ∨ (x.row S s r).state ∈ terminalStates := by
  cases x with
  | close =>
    have hid := (batchGuard_iff.mp hg).1
    rw [Slice.ids, show s.batch = [] from h] at hid
    cases hid
  | complete action res d =>
    rw [Settle.row, if_pos hg]
    exact .inr h
  | fail => exact .inl (Settle.attempts_lt_row_fail hg)

/-- **An emitted slice** stays with its flush until the step that settles its runs. -/
theorem System.settlement {c : Conf World Thread} {p : ℕ} {w : World} {t : Thread}
    (hs : System S E R on (c.thread p) c.shared w t) (hn : NoCrash R c p w t)
    (hf : (c.thread p).Fits R) (ht : (c.thread p).Tracked c.shared.runs) {i : Id} {s : Slice}
    {x : Settle} (hx : (c.thread p).settlement = some (s, x)) (hi : i ∈ s.ids) :
    t.settlement = some (s, x) ∨ ∃ r ∈ c.shared.runs, r.id = i ∧
      batchGuard s.window.accountId s.ids r = true ∧ x.row S s r ∈ w.runs := by
  have hstop : t ≠ .flush .idle := by
    intro he
    have hne := List.ne_nil_of_mem (Thread.mem_emitted.mpr ⟨s, x, hx, hi⟩)
    obtain ⟨s', x', nxt, hp, hload⟩ := hn hne he
    rw [hp] at hf
    exact hload (hf.2 nxt rfl)
  generalize c.thread p = t₀ at hs hf ht hx
  generalize c.shared = w₀ at hs ht
  cases hs with
  | flush _ hs =>
    cases hs with
    | lookup => exact .inl hx
    | check => exact .inl hx
    | @commit _ w' s' x' succ mint locked drained hm hb hadv =>
      obtain ⟨rfl, rfl⟩ := Prod.mk.inj (Option.some.inj hx)
      obtain ⟨r, hr, rfl, hp, -⟩ := ht.row s' rfl i hi
      refine .inr ⟨r, hr, rfl, batchGuard_iff.mpr ⟨hi, hp.1, hp.2.2⟩, ?_⟩
      refine (advanced_of_enqueueNextBatch hadv).runs.1 ?_
      show x'.row S s' r ∈ s'.settle S w₀.runs x'
      rw [settle_eq_map]
      exact List.mem_map_of_mem hr
    | abort | crash => exact absurd rfl hstop
    | _ => cases hx
  | _ => cases hx

/-! ## Unused claims -/

/-- The claim that a worker has made and not yet run the action under: run and number. -/
def Thread.unused : Thread → Option (Id × ℕ)
  | .drain (.claimed _ id claim) => some (id, claim)
  | .drain (.held h) | .drain (.resolved h _) => some (h.run.id, h.claim)
  | _ => none

/-- The step from `t` to `t'` claims the row `r` under the next number. -/
structure NewClaim (S : Settings) (t t' : Thread) (w w' : World) (r : WatchActionRun) : Prop where
  claims : Claims t t' r.id
  mem : r ∈ w.runs
  claimable : r.state ∈ claimableStates
  attempts : r.attempts < S.watchRunMaxAttempts
  written : ∃ r' ∈ w'.runs, r'.id = r.id ∧ r'.attempts = r.attempts + 1 ∧ r'.state = running

theorem NewClaim.of_guard {now : Time} {run r : WatchActionRun} {w : World} {log : List Event}
    (hc : run.state ∈ claimableStates) (hr : r ∈ w.runs) (hg : claimGuard S run r = true) :
    NewClaim S (.drain (.candidate now run)) (.drain (.claimed now run.id (r.attempts + 1))) w
      { w with runs := claimRun S run now w.runs, log := log } r := by
  obtain ⟨hid, hst, ha⟩ := claimGuard_iff.mp hg
  refine ⟨?_, hr, hst ▸ hc, ha, claimedRow now r, Table.mem_update_of hr hg, rfl, rfl, rfl⟩
  rw [hid]
  exact .claim

/-- **An unused claim after a step** was unused before, or has just been made. -/
theorem System.unused {t t' : Thread} {w w' : World} (h : System S E R on t w w' t')
    (hc : t.CandidateOk) {e : Id × ℕ} (he : t'.unused = some e) :
    t.unused = some e ∨ ∃ r, NewClaim S t t' w w' r ∧ e = (r.id, r.attempts + 1) := by
  cases h with
  | drain _ h =>
    cases h with
    | claim hr hg =>
      obtain rfl := Option.some.inj he
      exact .inr ⟨_, .of_guard hc hr hg, by rw [(claimGuard_iff.mp hg).1]⟩
    | refresh hr hid => exact .inl (hid ▸ he)
    | resolve => exact .inl he
    | _ => cases he
  | _ => cases he

/-- The numbers that attempts have. -/
def AttemptNumber (S : Settings) (n : ℕ) : Prop := 0 < n ∧ n ≤ S.watchRunMaxAttempts

/-- A pending run has an attempt left. -/
def PendingTriable (S : Settings) (runs : List WatchActionRun) : Prop :=
  ∀ r ∈ runs, r.state = pending → r.attempts < S.watchRunMaxAttempts

instance (runs : List WatchActionRun) : Decidable (PendingTriable S runs) := by
  unfold PendingTriable; infer_instance

/-- An unused claim has a number that its run's attempts have reached. -/
def Thread.Numbered (S : Settings) (runs : List WatchActionRun) (t : Thread) : Prop :=
  ∀ e ∈ t.unused, AttemptNumber S e.2 ∧ ∃ r ∈ runs, r.id = e.1 ∧ e.2 ≤ r.attempts

/-- A step takes no attempt back. -/
theorem System.attempts_le {t t' : Thread} {w w' : World} (h : System S E R on t w w' t')
    (hdel : ¬ on .deleteRuns) (hw : RunsOk w.runs) (hw' : RunsOk w'.runs) {i : Id} {n : ℕ}
    (hr : ∃ r ∈ w.runs, r.id = i ∧ n ≤ r.attempts) : ∃ r ∈ w'.runs, r.id = i ∧ n ≤ r.attempts := by
  obtain ⟨r, hr, hid, hle⟩ := hr
  obtain ⟨r', hr', hwr⟩ := (h.evolve hdel hw hw').1 r hr
  exact ⟨r', hr', hwr.id.trans hid, hle.trans hwr.attempts_le⟩

/-- What one step keeps of the numbering. -/
theorem preserves_numbered (hdel : ¬ on .deleteRuns) {ok : StepCond World Thread} :
    Preserves (System S E R on) ok (fun w => RunsOk w.runs ∧ PendingTriable S w.runs)
      (fun w t => t.SliceOk ∧ t.CandidateOk ∧ t.Numbered S w.runs)
      (fun _ t t' => ∀ e, t.unused = some e → t'.unused ≠ some e) where
  own {c p w t} hi hs _ := by
    obtain ⟨hslice, hcand, hnum⟩ := hi.each p
    obtain ⟨hw, hslice'⟩ := hs.runsOk hi.shared.1 hslice
    have hev := hs.evolve hdel hi.shared.1 hw
    refine ⟨⟨hw, fun r' hr' hp => ?_⟩, hslice', hs.candidateOk, fun e he => ?_⟩
    · rcases hev.2 r' hr' with ⟨r, hr, hwr⟩ | ⟨⟨_, _, _, _, _, _, _, _, rfl⟩, -⟩
      · exact hwr.attempts_lt (hi.shared.2 r hr) hp
      · exact S.maxAttempts_pos
    · rcases hs.unused hcand he with hold | ⟨r, hn, rfl⟩
      · obtain ⟨hb, hr⟩ := hnum e hold
        exact ⟨hb, hs.attempts_le hdel hi.shared.1 hw hr⟩
      · obtain ⟨r', hr', hid, ha, -⟩ := hn.written
        exact ⟨⟨Nat.succ_pos _, hn.attempts⟩, r', hr', hid, ha.ge⟩
  other {c p q w t} hi hs _ hq := by
    obtain ⟨hslice, hcand, -⟩ := hi.each p
    obtain ⟨hsliceq, hcandq, hnumq⟩ := hi.each q
    have hw := (hs.runsOk hi.shared.1 hslice).1
    -- a new number is above every number of the run
    have hnew : ∀ e, t.unused = some e → (c.thread q).unused ≠ some e := by
      intro e he heq
      rcases hs.unused hcand he with hold | ⟨r, hn, rfl⟩
      · exact hi.pair p q (Ne.symm hq) e hold heq
      · obtain ⟨-, x, hx, hid, hle⟩ := hnumq _ heq
        obtain rfl := hi.shared.1.ids x hx r hn.mem hid
        exact absurd hle (Nat.not_succ_le_self _)
    refine ⟨⟨hsliceq, hcandq, fun e he => ?_⟩, hnew, fun e he het => hnew e het he⟩
    obtain ⟨hb, hr⟩ := hnumq e he
    exact ⟨hb, hs.attempts_le hdel hi.shared.1 hw hr⟩
  others hi _ _ _ _ hqr := hi.pair _ _ hqr

theorem Thread.Idle.unused {t : Thread} (h : t.Idle) : t.unused = none := by
  cases t with
  | drain d =>
    obtain rfl : d = .idle := h
    rfl
  | _ => rfl

theorem Thread.Idle.candidateOk {t : Thread} (h : t.Idle) : t.CandidateOk := by
  cases t with
  | drain d =>
    obtain rfl : d = .idle := h
    trivial
  | _ => trivial

/-- A store whose run table is in order, with an attempt left for every pending run. -/
structure Triable (S : Settings) (w : World) : Prop where
  runs : RunsOk w.runs
  pending : PendingTriable S w.runs

/-- **Claims are numbered by attempts**, in every run. -/
theorem reach_numbered (hdel : ¬ on .deleteRuns) {ok : StepCond World Thread}
    {c : Conf World Thread} (h : ReachIn (System S E R on) (Init (Triable S)) ok c) :
    ThreadInv (fun w => RunsOk w.runs ∧ PendingTriable S w.runs)
      (fun w t => t.SliceOk ∧ t.CandidateOk ∧ t.Numbered S w.runs)
      (fun _ t t' => ∀ e, t.unused = some e → t'.unused ≠ some e) c := by
  refine h.threads ?_ (preserves_numbered hdel)
  rintro c ⟨hg, hidle⟩
  refine ⟨⟨hg.runs, hg.pending⟩, fun p => ⟨(hidle p).sliceOk, (hidle p).candidateOk, ?_⟩, ?_⟩
  · intro e he
    rw [(hidle p).unused] at he
    cases he
  · intro p q _ e he
    rw [(hidle p).unused] at he
    cases he

end OpenMagpie
