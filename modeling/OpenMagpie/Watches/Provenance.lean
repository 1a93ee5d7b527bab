import OpenMagpie.Watches.Dispatch
import OpenMagpie.Watches.Rows

/-!
# Which impl produced a result

A run's kind is a column of its own, written at enqueue and again with the result.

* `producer`: the kind of the impl whose output a run stores, read off the steps of a run.
* `Thread.Carries`: the result that a thread carries is from the impl it ran last, under the kind
  it will write.
* `System.carries`, `System.kinds`: what a step does to both.
* **`results_of_kind`**: whatever is edited meanwhile, a stored result is from an impl of the run's
  kind, and the wire shows it as such.
-/

set_option autoImplicit false

namespace OpenMagpie

open WatchActionRunState Interleave

variable {C : Type} {S : Settings} {R : Registry C} {on : Component → Prop}

/-- The kind of the impl that a thread ran last. -/
def lastKind (E : Executors) (p : ℕ) (tr : List (Move World Thread)) : Option String :=
  (latest (dispatchOf E) p tr).map (·.kind)

/-- **The kind of the impl whose output a run stores**: what the thread that wrote the result last
had run last. -/
def producer (E : Executors) (id : Id) : List (Move World Thread) → Option String
  | [] => none
  | m :: tr => if id ∈ storedOf m then lastKind E m.thread tr else producer E id tr

/-- A thread that last ran an impl of kind `k` writes its result under that kind. -/
def Thread.Carries (E : Executors) (k : Option String) : Thread → Prop
  | .drain (.judged _ action res _) | .drain (.advancing _ action res _ _) =>
    res.result ≠ Json.empty → ∃ a, action = some a ∧ k = some a.kind ∧ E.hasImpl a.kind = true
  | .flush (.resolved _ a) | .flush (.fetched _ a _) | .flush (.emitting _ a) =>
    E.hasImpl a.kind = true
  | .flush (.settling _ x) | .flush (.advancing _ x _) | .flush (.closing _ x _ _ _ _) =>
    ∀ a res d, x = .complete a res d → k = some a.kind ∧ E.hasImpl a.kind = true
  | _ => True

/-- What the thread has run last, after a step. -/
def Thread.ran (E : Executors) (k : Option String) (t : Thread) (w : World) (t' : Thread) :
    Option String :=
  ((t.dispatch E w t').map (·.kind)) <|> k

theorem lastKind_cons {E : Executors} {c : Conf World Thread} {p : ℕ} {s : World} {t : Thread}
    {tr : List (Move World Thread)} : lastKind E p (⟨c, p, s, t⟩ :: tr) =
      (c.thread p).ran E (lastKind E p tr) c.shared t := by
  have hd : dispatchOf E ⟨c, p, s, t⟩ = (c.thread p).dispatch E c.shared t := rfl
  rw [lastKind, latest, if_pos rfl, hd, Thread.ran, lastKind]
  cases (c.thread p).dispatch E c.shared t <;> rfl

theorem lastKind_cons_of_ne {E : Executors} {m : Move World Thread} {q : ℕ}
    {tr : List (Move World Thread)} (h : m.thread ≠ q) :
    lastKind E q (m :: tr) = lastKind E q tr := by
  rw [lastKind, latest_of_ne h, lastKind]

section Step

variable {E : Executors} {k : Option String}

/-- What a step of a drain worker carries on. -/
theorem Drain.Step.carries {d d' : Drain} {w w' : World} (h : Drain.Step S E R d w w' d')
    (hk : (Thread.drain d).Carries E k) :
    (Thread.drain d').Carries E ((Thread.drain d).ran E k w (.drain d')) := by
  cases h with
  | @judge w h action res deliveryId hres =>
    intro hne
    cases hres with
    | returns hi he outcome d => exact ⟨_, rfl, by simp [Thread.ran, Thread.dispatch, hi, he], he⟩
    | _ => exact absurd rfl hne
  | lookup => exact hk
  | _ => trivial

/-- What a step of a flush carries on. -/
theorem Flush.Step.carries {f f' : Flush} {w w' : World} (h : Flush.Step S E R f w w' f')
    (hk : (Thread.flush f).Carries E k) :
    (Thread.flush f').Carries E ((Thread.flush f).ran E k w (.flush f')) := by
  cases h with
  | resolve ha he => exact he
  | fetch => exact hk
  | gone =>
    split_ifs
    · intro a res d hx
      cases hx
    · exact hk
  | @emit w s action outcome d hone =>
    intro a res d hx
    split_ifs at hx
    cases hx
    exact ⟨rfl, hk⟩
  | commit => split_ifs <;> trivial
  | lookup => exact hk
  | check => exact hk
  | _ => first | trivial | (intro a res d hx; cases hx)

variable (E) in
/-- **What a thread carries, after its own step.** -/
theorem System.carries {t t' : Thread} {w w' : World} (h : System S E R on t w w' t')
    (hk : t.Carries E k) : t'.Carries E (t.ran E k w t') := by
  cases h with
  | drain _ h => exact h.carries hk
  | flush _ h => exact h.carries hk
  | _ => trivial

/-! ## What a step writes -/

/-- A row keeps its result and its kind. -/
def SameResult (r r' : WatchActionRun) : Prop :=
  r'.id = r.id ∧ r'.result = r.result ∧ r'.kind = r.kind

theorem SameResult.refl (r : WatchActionRun) : SameResult r r := ⟨rfl, rfl, rfl⟩

/-- The rows after a step that writes the results of the runs `ids`, output of an impl of kind `k`:
a result is empty, written now, or there before. -/
def KindsKept (k : Option String) (ids : List Id) (runs runs' : List WatchActionRun) : Prop :=
  ∀ r' ∈ runs', r'.result ≠ Json.empty → (r'.id ∈ ids ∧ k = some r'.kind) ∨
    (r'.id ∉ ids ∧ ∃ r ∈ runs, SameResult r r')

/-- Rows that keep their results, and fresh rows. -/
theorem KindsKept.of_same {runs runs' : List WatchActionRun}
    (h : ∀ r' ∈ runs', (∃ r ∈ runs, SameResult r r') ∨ IsNewRun r') : KindsKept k [] runs runs' := by
  intro r' hr' hne
  rcases h r' hr' with hr | ⟨_, _, _, _, _, _, _, _, rfl⟩
  · exact .inr ⟨List.not_mem_nil, hr⟩
  · exact absurd rfl hne

/-- An update of columns other than result and kind. -/
theorem KindsKept.update {p : WatchActionRun → Bool} {f : WatchActionRun → WatchActionRun}
    (hf : ∀ r, SameResult r (f r)) (runs : List WatchActionRun) :
    KindsKept k [] runs (Table.update p f runs) := by
  refine .of_same fun r' hr' => .inl ?_
  obtain ⟨r, hr, rfl⟩ := Table.mem_update.mp hr'
  refine ⟨r, hr, ?_⟩
  split_ifs
  · exact hf r
  · exact .refl r

/-- An update that writes a result under the kind of the impl it is from. -/
theorem KindsKept.completed {runs : List WatchActionRun} (hu : IdUnique runs)
    {p : WatchActionRun → Bool} {res : ActionResult} {ct : Option Time} {d : Option Id}
    {kind : Option String}
    (hk : res.result ≠ Json.empty → ∃ a, kind = some a ∧ k = some a ∧ a ≠ "") :
    KindsKept k (selected p runs) runs (Table.update p (completedRow res ct d kind) runs) := by
  intro r' hr' hne
  rcases mem_update_selected (f := completedRow res ct d kind) hu (fun _ => rfl) hr' with
    ⟨hid, r, -, -, rfl⟩ | ⟨hid, hr⟩
  · obtain ⟨a, rfl, hka, ha⟩ := hk hne
    have hf : ((some a).filter fun k => decide (k ≠ "")) = some a :=
      Option.filter_some_pos (decide_eq_true ha)
    refine .inl ⟨hid, ?_⟩
    simp only [completedRow, hf, Option.getD_some, hka]
  · exact .inr ⟨hid, r', hr, .refl r'⟩

/-- Fresh rows have no result. -/
theorem KindsKept.advance {mint : Id → Id} {account : Id} {batch runs : List WatchActionRun}
    {succ : Option WatchAction} {now : Time} {w w' : World} {ids : List Id}
    (h : KindsKept k ids runs w.runs) (ha : Advanced R mint account batch succ now w w') :
    KindsKept k ids runs w'.runs := by
  intro r' hr' hne
  rcases ha.runs.2 r' hr' with hold | ⟨_, _, _, _, _, rfl, _⟩
  · exact h r' hold hne
  · exact absurd rfl hne

theorem SameResult.failRow (account : Id) (now : Time) (r : WatchActionRun) (chunk : List Id) :
    SameResult r (OpenMagpie.failRow S account now r chunk) := by
  rw [OpenMagpie.failRow]
  split_ifs <;> exact ⟨rfl, rfl, rfl⟩

theorem SameResult.trans {r r' r'' : WatchActionRun} (h : SameResult r r')
    (h' : SameResult r' r'') : SameResult r r'' :=
  ⟨h'.1.trans h.1, h'.2.1.trans h.2.1, h'.2.2.trans h.2.2⟩

/-- A failed slice keeps the results of its runs. -/
theorem KindsKept.fail (s : Slice) (runs : List WatchActionRun) :
    KindsKept k [] runs (s.settle S runs .fail) := by
  refine .of_same fun r' hr' => .inl ?_
  rw [settle_eq_map] at hr'
  obtain ⟨r, hr, rfl⟩ := List.mem_map.mp hr'
  refine ⟨r, hr, ?_⟩
  rw [Settle.row]
  generalize Batched.batched idInChunk s.ids = chunks
  clear hr hr'
  induction chunks generalizing r with
  | nil => exact .refl r
  | cons chunk chunks ih =>
    rw [List.foldl_cons]
    exact (SameResult.failRow _ _ r chunk).trans (ih _)

/-- What the transaction at the end of a slice does to results. -/
theorem KindsKept.settle {E : RegisteredExecutors} {runs : List WatchActionRun}
    (hu : IdUnique runs) (s : Slice) {x : Settle} {succ : Option WatchAction} {mint : Id → Id}
    {locked drained : Bool} {w : World} (hw : w.runs = runs)
    (hk : (Thread.flush (.closing s x succ mint locked drained)).Carries E.toExecutors k) :
    KindsKept k ((Thread.flush (.closing s x succ mint locked drained)).stores w
      (.flush (if x.loops drained then .due s.now s.window else .started s.now))) runs
      (s.settle S runs x) := by
  subst hw
  cases x with
  | close => exact .of_same fun r hr => .inl ⟨r, hr, .refl r⟩
  | complete action res d =>
    obtain ⟨hk, he⟩ := hk action res d rfl
    have hc : KindsKept k (selected (batchGuard s.window.accountId s.ids) w.runs) w.runs
        (s.settle S w.runs (.complete action res d)) := by
      rw [Slice.settle, completeBatch_eq_update]
      exact .completed hu fun _ => ⟨_, rfl, hk, E.ne_blank he⟩
    split_ifs <;> exact hc
  | fail =>
    have hs : (Thread.flush (.closing s .fail succ mint locked drained)).stores w
        (.flush (if Settle.loops drained .fail then .due s.now s.window else .started s.now)) =
          [] := rfl
    rw [hs]
    exact .fail s w.runs

theorem stores_drain_idle (d : Drain) (w : World) : (Thread.drain d).stores w (.drain .idle) = [] := by
  cases d <;> rfl

theorem stores_flush_idle (f : Flush) (w : World) : (Thread.flush f).stores w (.flush .idle) = [] := by
  cases f with
  | closing s x => cases x <;> rfl
  | _ => rfl

/-- **What a step does to results and kinds.** -/
theorem System.kinds {E : RegisteredExecutors} {t t' : Thread} {w w' : World}
    (h : System S E.toExecutors R on t w w' t') (hk : t.Carries E.toExecutors k)
    (hu : IdUnique w.runs) : KindsKept k (t.stores w t') w.runs w'.runs := by
  have same : KindsKept k [] w.runs w.runs := .of_same fun r hr => .inl ⟨r, hr, .refl r⟩
  cases h with
  | drain _ h =>
    cases h with
    | claim => exact .update (f := claimedRow _) (fun _ => ⟨rfl, rfl, rfl⟩) _
    | @commit w w' h action succ res d mint hwin hm hb hadv =>
      refine KindsKept.advance ?_ (advanced_of_enqueueNextBatch hadv)
      refine .completed hu fun hne => ?_
      obtain ⟨a, rfl, hka, he⟩ := hk hne
      exact ⟨a.kind, rfl, hka, E.ne_blank he⟩
    | @lose w h action succ res d hl =>
      intro r' hr' hne
      refine .inr ⟨fun hs => ?_, r', hr', .refl r'⟩
      obtain ⟨x, hx, -⟩ := List.mem_map.mp hs
      obtain ⟨hx, hg⟩ := List.mem_filter.mp hx
      exact absurd (List.any_eq_true.mpr ⟨x, hx, hg⟩) (by rw [← completeWins, hl]; simp)
    | crash =>
      rw [stores_drain_idle]
      exact same
    | _ => exact same
  | reap _ h =>
    cases h with
    | exhausted => exact .update (f := reapedExhausted _) (fun _ => ⟨rfl, rfl, rfl⟩) _
    | retryable => exact .update (f := reapedRetryable) (fun _ => ⟨rfl, rfl, rfl⟩) _
    | _ => exact same
  | flush _ h =>
    cases h with
    | unresolvable =>
      simp only [completeBatch_eq_update]
      exact .completed hu fun hne => absurd rfl hne
    | @gone w s action gone =>
      have hc : KindsKept k (selected (batchGuard s.window.accountId gone) w.runs) w.runs
          (completeBatch s.window.accountId gone (.defect RunMessages.itemGone) none none s.now
            w.runs) := by
        rw [completeBatch_eq_update]
        exact .completed hu fun hne => absurd rfl hne
      split_ifs <;> exact hc
    | check => split_ifs <;> exact same
    | @commit w w' s x succ mint locked drained hm hb hadv =>
      have ha := advanced_of_enqueueNextBatch hadv
      show KindsKept k _ w.runs w'.runs
      exact KindsKept.advance (KindsKept.settle hu s rfl hk) ha
    | abort =>
      rw [stores_flush_idle]
      exact same
    | crash =>
      rw [stores_flush_idle]
      exact same
    | _ => exact same
  | trigger _ h =>
    cases h with
    | chunk hm hc =>
      refine .of_same fun r' hr' => ?_
      rcases (enqueueChunk_inserted hc).new r' hr' with hold | ⟨hnew, -⟩
      · exact .inl ⟨r', hold, .refl r'⟩
      · obtain ⟨item, -, rfl⟩ := List.mem_map.mp hnew
        exact .inr ⟨_, _, _, _, _, _, _, _, rfl⟩
    | _ => exact same
  | edit _ h => cases h <;> exact same
  | env _ h =>
    cases h with
    | deleteRuns p => exact .of_same fun r hr => .inl ⟨r, List.mem_of_mem_filter hr, .refl r⟩
    | _ => exact same

end Step

/-! ## Whole runs -/

/-- A store in which nothing has run yet. -/
structure NoResults (w : World) : Prop where
  runs : RunsOk w.runs
  results : ∀ r ∈ w.runs, r.result = Json.empty

variable {ok : StepCond World Thread} {c : Conf World Thread} {tr : List (Move World Thread)}

/-- What a run keeps about stored results and about every thread. -/
theorem run_kinds {E : RegisteredExecutors}
    (h : Run (System S E.toExecutors R on) (Init NoResults) ok tr c) :
    (RunsOk c.shared.runs ∧ ∀ r ∈ c.shared.runs, r.result ≠ Json.empty →
      producer E.toExecutors r.id tr = some r.kind) ∧
    ∀ p, (c.thread p).SliceOk ∧ (c.thread p).Carries E.toExecutors (lastKind E.toExecutors p tr) := by
  refine h.each
    (G := fun tr w => RunsOk w.runs ∧ ∀ r ∈ w.runs, r.result ≠ Json.empty →
      producer E.toExecutors r.id tr = some r.kind)
    (L := fun tr _ p t => t.SliceOk ∧ t.Carries E.toExecutors (lastKind E.toExecutors p tr))
    ?_ ?_ ?_
  · rintro c ⟨hg, hidle⟩
    refine ⟨⟨hg.runs, fun r hr hne => absurd (hg.results r hr) hne⟩, fun p => ?_⟩
    have hp := hidle p
    cases ht : c.thread p with
    | drain d =>
      rw [ht] at hp
      obtain rfl : d = .idle := hp
      exact ⟨trivial, trivial⟩
    | flush f =>
      rw [ht] at hp
      obtain rfl : f = .idle := hp
      exact ⟨by simp [Thread.SliceOk, Flush.slice], trivial⟩
    | _ => exact ⟨trivial, trivial⟩
  · intro tr c p s t hG hL hs _
    obtain ⟨hruns, hslice⟩ := hs.runsOk hG.1 (hL p).1
    refine ⟨⟨hruns, fun r' hr' hne => ?_⟩, hslice, ?_⟩
    · have hst : storedOf ⟨c, p, s, t⟩ = (c.thread p).stores c.shared t := rfl
      rcases hs.kinds (hL p).2 hG.1.ids r' hr' hne with ⟨hid, hk⟩ | ⟨hid, r, hr, he, hres, hkind⟩
      · rw [producer, hst, if_pos hid, hk]
      · rw [producer, hst, if_neg hid, he, hkind]
        exact hG.2 r hr (hres ▸ hne)
    · rw [lastKind_cons]
      exact hs.carries _ (hL p).2
  · intro tr c p q s t _ hL _ _ hq
    rw [lastKind_cons_of_ne (Ne.symm hq)]
    exact hL q

variable (V : LaxMode)

/-- **A stored result is from an impl of the run's kind**, whatever was edited or deleted before or
since; and a result of that kind's model is what the run's audit row shows. -/
theorem results_of_kind {E : RegisteredExecutors}
    (h : Run (System S E.toExecutors R on) (Init NoResults) ok tr c) {r : WatchActionRun}
    (hr : r ∈ c.shared.runs) (hne : r.result ≠ Json.empty) :
    producer E.toExecutors r.id tr = some r.kind ∧
      ∀ x : RunResult, producer E.toExecutors r.id tr = some x.kind → r.result = x.dump →
        watchActionRunWire V r = some (x.wire (runFields r)) := by
  have hp := (run_kinds h).1.2 r hr hne
  refine ⟨hp, fun x hx hd => watchActionRunWire_of_dump V x ?_ hd⟩
  exact Option.some.inj (hp.symm.trans hx)

/-! ## A kind that changes before the run -/

/-- The deployment that runs `log` actions. -/
def logExecutors : RegisteredExecutors where
  toExecutors := sampleExecutors
  hasImpl_kind kind h := by
    obtain rfl : kind = "log" := by simpa [sampleExecutors] using h
    exact .inl (by decide)

/-- A pending run that was enqueued for a webhook; its action is a log by now. -/
def enqueuedAsWebhook : WatchActionRun := { sampleRun 1 1 1 with kind := "webhook" }

/-- The store with the run and the action. -/
def editedSince : World where
  runs := [enqueuedAsWebhook]
  actions := [sampleAction 1 instantConfig 0]
  items := [sampleItem 1]

/-- One drain worker. -/
def oneWorker : ℕ → Thread
  | 0 => .drain .idle
  | _ => .env

theorem init_editedSince : Init NoResults ⟨editedSince, oneWorker⟩ := by
  refine ⟨⟨⟨by simp [IdUnique, editedSince], by decide⟩, by decide⟩, fun p => ?_⟩
  cases p with
  | zero => rfl
  | succ p => trivial

/-- The line that the log action wrote. -/
def loggedLine : LogResult := ⟨"[watch] item 1"⟩

/-- The log action's result. -/
def loggedResult : ActionResult := { state := succeeded, result := loggedLine.modelDump }

/-- The run shows the log line under the log member. -/
theorem results_of_kind_sample :
    ∃ (c : Conf World Thread) (tr : List (Move World Thread)) (r : WatchActionRun),
      Run (SampleSystem (· = .drain)) (Init NoResults) (fun _ _ _ _ => True) tr c ∧
      r ∈ c.shared.runs ∧ enqueuedAsWebhook.id = r.id ∧ enqueuedAsWebhook.kind = "webhook" ∧
      producer sampleExecutors r.id tr = some "log" ∧ r.kind = "log" ∧
      watchActionRunWire strictMode r = some (.log (runFields r) (some loggedLine)) := by
  let claimed := claimedRow 0 enqueuedAsWebhook
  let done := completedRow loggedResult (some 0) none (some "log") claimed
  let after : World :=
    { editedSince with runs := [done], log := [.completed 1 1, .claimed 1 1 0 0] }
  have hclaim : Drain.Step {} sampleExecutors sampleRegistry (.candidate 0 enqueuedAsWebhook)
      editedSince { editedSince with runs := [claimed], log := [.claimed 1 1 0 0] }
      (.claimed 0 1 1) := .claim (by decide : enqueuedAsWebhook ∈ _) (by decide)
  have hcommit : Drain.Step {} sampleExecutors sampleRegistry
      (.advancing ⟨0, claimed, 1⟩ (some (sampleAction 1 instantConfig 0)) loggedResult none none)
      { editedSince with runs := [claimed], log := [.claimed 1 1 0 0] } after (.started 0) :=
    .commit (by decide) (.add (n := 10) (by decide)) (by rintro ⟨_, h, _⟩; cases h) rfl
  have h₀ : Run (SampleSystem (· = .drain)) (Init NoResults) (fun _ _ _ _ => True) []
      ⟨editedSince, oneWorker⟩ := .init init_editedSince
  have h₁ := h₀.next 0 (.drain rfl .start) rfl rfl trivial
  have h₂ := h₁.again (.drain rfl (.candidate (by decide : enqueuedAsWebhook ∈ _))) trivial
  have h₃ := h₂.again (.drain rfl hclaim) trivial
  have h₄ := h₃.again (.drain rfl (.refresh (by decide : claimed ∈ _) rfl)) trivial
  have h₅ := h₄.again (.drain rfl .resolve) trivial
  have h₆ := h₅.again (.drain rfl
    (.judge (.returns (by decide) (by decide) loggedResult none))) trivial
  have h₇ := h₆.again (.drain rfl .lookup) trivial
  have h₈ := h₇.again (.drain rfl hcommit) trivial
  have hdone : done ∈ after.runs := List.mem_singleton_self _
  have hk := results_of_kind strictMode (E := logExecutors) h₈ hdone (by decide)
  exact ⟨_, _, done, h₈, hdone, rfl, rfl, hk.1, rfl, hk.2 (.log loggedLine) hk.1 rfl⟩

end OpenMagpie
