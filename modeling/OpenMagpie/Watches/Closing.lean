import OpenMagpie.Watches.Pending
import OpenMagpie.Watches.WindowRows

/-!
# Closing a window

A flush closes a window in one transaction, which holds the window row from its drained check to its
commit. A trigger pass opens the window once, in a transaction of its own, and enqueues after it.

* `System.locks`, **`reach_locks`**: no two flushes hold the row of one window.
* `ClosesBy`, `System.closed`: only such a transaction closes a window, after `closing_drained`.
* `Thread.Owes`: a trigger pass stands between its `open_window` and its last chunk.
* `ClosesAside`: no flush checks a window to close it while such a pass is under way.
* **`reach_open`**: then the window of such a pass is open, and no flush is about to close it.
-/

set_option autoImplicit false

namespace OpenMagpie

open WatchActionRunState Interleave

variable {C : Type} {S : Settings} {E : Executors} {R : Registry C} {on : Component → Prop}

/-! ## Locks -/

/-- **What a step does to the locks**: takes a free one, gives its own back, or nothing. -/
theorem System.locks {t t' : Thread} {w w' : World} (h : System S E R on t w w' t') :
    (∃ k, t'.lock = some k ∧ k ∉ w.locked ∧ w'.locked = k :: w.locked) ∨
    (∃ k, t.lock = some k ∧ t'.lock = none ∧ w'.locked = w.locked.erase k) ∨
    (t'.lock = none ∧ w'.locked = w.locked) := by
  cases h with
  | drain _ h =>
    cases h with
    | commit hwin hm hb hadv =>
      exact .inr (.inr ⟨rfl, by rw [(advanced_of_enqueueNextBatch hadv).frame]⟩)
    | _ => exact .inr (.inr ⟨rfl, rfl⟩)
  | reap _ h => cases h <;> exact .inr (.inr ⟨rfl, rfl⟩)
  | flush _ h =>
    cases h with
    | @check w w' s x succ mint hm hb hl hadv =>
      by_cases hw : hasWindow w.windows s.window.accountId s.window.actionId
      · refine .inl ⟨s.window.key, ?_, hl, ?_⟩
        · simp only [hw, decide_true]
          rfl
        · rw [if_pos hw]
      · refine .inr (.inr ⟨?_, ?_⟩)
        · simp only [hw, decide_false]
          rfl
        · rw [if_neg hw]
    | @commit w w' s x succ mint locked drained hm hb hadv =>
      have hl : (s.close locked drained w').locked = (s.release locked w).locked := by
        rw [Slice.close, (advanced_of_enqueueNextBatch hadv).frame]
      have ht : (Thread.flush (if x.loops drained then .due s.now s.window
          else .started s.now)).lock = none := by
        split_ifs <;> rfl
      cases locked with
      | true => exact .inr (.inl ⟨s.window.key, rfl, ht, hl⟩)
      | false => exact .inr (.inr ⟨ht, hl⟩)
    | @abort s w x succ mint locked drained =>
      cases locked with
      | true => exact .inr (.inl ⟨s.window.key, rfl, rfl, rfl⟩)
      | false => exact .inr (.inr ⟨rfl, rfl⟩)
    | gone => split_ifs <;> exact .inr (.inr ⟨rfl, rfl⟩)
    | _ => exact .inr (.inr ⟨rfl, rfl⟩)
  | trigger _ h => cases h <;> exact .inr (.inr ⟨rfl, rfl⟩)
  | edit _ h =>
    rcases h.writes with ⟨locks, rfl⟩ | ⟨x, locks, hc, hl, rfl⟩ <;> exact .inr (.inr ⟨rfl, rfl⟩)
  | env _ h => cases h <;> exact .inr (.inr ⟨rfl, rfl⟩)

/-- A held lock is in the table, and held by one thread. -/
abbrev LocksOk : Conf World Thread → Prop :=
  ThreadInv (fun _ => True) (fun w t => ∀ k ∈ t.lock, k ∈ w.locked)
    fun _ t t' => ∀ k ∈ t.lock, k ∉ t'.lock

theorem Thread.Idle.lock {t : Thread} (h : t.Idle) : t.lock = none := by
  cases t with
  | flush f =>
    obtain rfl : f = .idle := h
    rfl
  | _ => rfl

/-- **No two flushes hold the row of one window.** -/
theorem reach_locks {G : World → Prop} {ok : StepCond World Thread} {c : Conf World Thread}
    (h : ReachIn (System S E R on) (Init G) ok c) : LocksOk c := by
  refine h.threads ?_ ⟨?_, ?_, ?_⟩
  · rintro c ⟨-, hidle⟩
    refine ⟨trivial, fun p k hk => ?_, fun p q _ k hk => ?_⟩ <;>
    · rw [(hidle p).lock] at hk
      cases hk
  · intro c p w t hi hs _
    refine ⟨trivial, fun k hk => ?_⟩
    rcases hs.locks with ⟨k', hk', -, hl⟩ | ⟨k', -, hn, -⟩ | ⟨hn, -⟩
    · obtain rfl : k = k' := Option.some.inj (hk.symm.trans hk')
      rw [hl]
      exact List.mem_cons_self
    · rw [hn] at hk
      cases hk
    · rw [hn] at hk
      cases hk
  · intro c p q w t hi hs _ hqp
    rcases hs.locks with ⟨k', hk', hfree, hl⟩ | ⟨k', hk', hn, hl⟩ | ⟨hn, hl⟩
    · have hq : ∀ k ∈ (c.thread q).lock, k ≠ k' := fun k hk he => hfree (he ▸ hi.each q k hk)
      refine ⟨fun k hk => ?_, fun k hk hkq => ?_, fun k hk hkt => ?_⟩
      · rw [hl]
        exact List.mem_cons_of_mem _ (hi.each q k hk)
      · exact hq k hkq (Option.some.inj (hk.symm.trans hk'))
      · exact hq k hk (Option.some.inj (hkt.symm.trans hk'))
    · refine ⟨fun k hk => ?_, fun k hk => ?_, fun k _ hkt => ?_⟩
      · rw [hl]
        refine (List.mem_erase_of_ne fun he => ?_).mpr (hi.each q k hk)
        exact hi.pair q p hqp k hk (he ▸ hk')
      · rw [hn] at hk
        cases hk
      · rw [hn] at hkt
        cases hkt
    · refine ⟨fun k hk => hl ▸ hi.each q k hk, fun k hk => ?_, fun k _ hkt => ?_⟩
      · rw [hn] at hk
        cases hk
      · rw [hn] at hkt
        cases hkt
  · exact fun hi _ _ _ _ hqr => hi.pair _ _ hqr

/-! ## Closing a window -/

/-- An advance closes no window. -/
theorem Advanced.closed {mint : Id → Id} {account : Id} {batch : List WatchActionRun}
    {succ : Option WatchAction} {now : Time} {w w' : World} {v : WatchActionDigestWindow}
    (h : Advanced R mint account batch succ now w w') (hv : v ∈ w'.windows)
    (hc : v.closeAt = .none) : v ∈ w.windows := by
  cases h with
  | none _ hw => rwa [hw] at hv
  | instant _ _ _ _ hw _ => rwa [hw] at hv
  | digest nxt n _ _ _ hw _ =>
    rw [hw] at hv
    rcases mem_openWindow hv with hold | hk
    · exact hold
    · exact absurd hc (closeAt_of_mem_openWindow hv hk)

/-- The thread is a flush that has locked the row of `k` and found it drained. -/
def Thread.Closes (k : WindowKey) : Thread → Prop
  | .flush (.closing s _ _ _ true true) => s.window.key = k
  | _ => False

/-- What a closing commit does to the runs: it settles the slice, then advances. -/
def ClosesBy (S : Settings) (R : Registry C) (k : WindowKey) (t : Thread) (w w' : World) : Prop :=
  ∃ s x succ mint w₀ w₁, t = .flush (.closing s x succ mint true true) ∧ s.window.key = k ∧
    w₀.runs = s.settle S w.runs x ∧ Advanced R mint s.window.accountId s.batch succ s.now w₀ w₁ ∧
    w'.runs = w₁.runs

/-- **A window that is closed after a step was closed before, or a flush has closed it.** -/
theorem System.closed {t t' : Thread} {w w' : World} (h : System S E R on t w w' t')
    {v : WatchActionDigestWindow} (hv : v ∈ w'.windows) (hc : v.closeAt = none) :
    v ∈ w.windows ∨ ClosesBy S R v.key t w w' := by
  cases h with
  | drain _ h =>
    cases h with
    | commit hwin hm hb hadv => exact .inl ((advanced_of_enqueueNextBatch hadv).closed hv hc)
    | _ => exact .inl hv
  | reap _ h => cases h <;> exact .inl hv
  | flush _ h =>
    cases h with
    | check => split_ifs at hv <;> exact .inl hv
    | @commit w w' s x succ mint locked drained hm hb hadv =>
      have ha := advanced_of_enqueueNextBatch hadv
      have hleft (hv : v ∈ w'.windows) : v ∈ w.windows := ha.closed hv hc
      cases locked with
      | false => exact .inl (hleft hv)
      | true =>
        cases drained with
        | false => exact .inl (hleft hv)
        | true =>
          rcases mem_closeWindow hv with hold | ⟨hk, -⟩
          · exact .inl (hleft hold)
          · exact .inr ⟨s, x, succ, mint, _, w', rfl, hk.symm, rfl, ha, rfl⟩
    | _ => exact .inl hv
  | trigger _ h =>
    cases h with
    | openWindow hi hs hl =>
      rcases mem_openWindow hv with hold | hk
      · exact .inl hold
      · exact absurd hc (closeAt_of_mem_openWindow hv hk)
    | _ => exact .inl hv
  | edit _ h =>
    rcases h.writes with ⟨locks, rfl⟩ | ⟨x, locks, _, _, rfl⟩
    · exact .inl hv
    · exact .inl (mem_clearDigestWindows.mp hv).1
  | env _ h => cases h <;> exact .inl hv

/-- A flush that is about to close its window has just found it drained. -/
theorem System.closing_drained {t t' : Thread} {w w' : World} (h : System S E R on t w w' t')
    {s : Slice} {x : Settle} {succ : Option WatchAction} {mint : Id → Id}
    (ht : t' = .flush (.closing s x succ mint true true)) :
    IsDrained s.window.accountId s.window.actionId (s.settle S w'.runs x) := by
  cases h with
  | flush _ h =>
    cases h with
    | @check w w₁ s' x' succ' mint' hm hb hl hadv =>
      simp only [Thread.flush.injEq, Flush.closing.injEq, decide_eq_true_eq] at ht
      obtain ⟨rfl, rfl, rfl, rfl, hw, hdr⟩ := ht
      rw [if_pos hw]
      have ha := advanced_of_enqueueNextBatch hadv
      exact fun r hr => hdr.resolve_right (fun hno => hno hw) r (ha.runs.1 hr)
    | gone => split_ifs at ht <;> cases ht
    | commit => split_ifs at ht <;> cases ht
    | _ => cases ht
  | _ => cases ht

/-! ## Passes past `open_window` -/

/-- The window key of a pass's head. -/
def Pass.key (p : Pass) : WindowKey := (p.watch.accountId, p.head.id)

/-- The pass has opened the window of `k` and may still enqueue runs of it. -/
def Trigger.Owes (k : WindowKey) : Trigger → Prop
  | .cycle p sched feeds => p.key = k ∧ sched ≠ none ∧ feeds ≠ []
  | .bounded s | .scanning s _ _ | .paged s _ _ => s.pass.key = k ∧ s.sched ≠ none
  | .scanned s => s.pass.key = k ∧ s.sched ≠ none ∧ s.rest ≠ []
  | _ => False

/-- The thread is a trigger pass between its `open_window` of `k` and its last chunk. -/
def Thread.Owes (k : WindowKey) : Thread → Prop
  | .trigger t => t.Owes k
  | _ => False

theorem Trigger.Step.owes {t t' : Trigger} {w w' : World} (h : Trigger.Step R t w w' t')
    {k : WindowKey} (hk : t'.Owes k) : t.Owes k ∨
      (k ∉ w.locked ∧ ∀ v ∈ w'.windows, v.key = k → v.closeAt ≠ none) := by
  cases h with
  | feeds => exact absurd rfl hk.2.1
  | missing | emptyFeed | atHead => exact .inl ⟨hk.1, hk.2.1, List.cons_ne_nil _ _⟩
  | bound => exact .inl ⟨hk.1, hk.2, List.cons_ne_nil _ _⟩
  | openWindow hi hs hl =>
    obtain ⟨rfl, -⟩ := hk
    exact .inr ⟨hl, fun v hv hvk => closeAt_of_mem_openWindow hv hvk⟩
  | joinWindow | instant | page => exact .inl hk
  | lastPage => exact .inl ⟨hk.1, hk.2.1⟩
  | chunk =>
    split_ifs at hk
    · exact .inl ⟨hk.1, hk.2.1⟩
    · exact .inl hk
  | advance => exact .inl hk
  | _ => exact hk.elim

/-- **A pass past its `open_window` after a step** was past it before, or has just opened the window,
whose row nobody had locked. -/
theorem System.owes {t t' : Thread} {w w' : World} (h : System S E R on t w w' t') {k : WindowKey}
    (hk : t'.Owes k) : t.Owes k ∨
      (k ∉ w.locked ∧ ∀ v ∈ w'.windows, v.key = k → v.closeAt ≠ none) := by
  cases h with
  | trigger _ h => exact h.owes hk
  | _ => exact hk.elim

theorem Thread.Owes.not_closes {t : Thread} {k : WindowKey} (h : t.Owes k) (k' : WindowKey) :
    ¬ t.Closes k' := by
  cases t with
  | trigger => exact id
  | _ => exact h.elim

theorem Thread.closes_closing {s : Slice} {x : Settle} {succ : Option WatchAction} {mint : Id → Id}
    {locked drained : Bool} {k : WindowKey} :
    (Thread.flush (.closing s x succ mint locked drained)).Closes k ↔
      locked = true ∧ drained = true ∧ s.window.key = k := by
  cases locked <;> cases drained <;> simp [Thread.Closes]

/-- What locks its row to close a window holds the lock. -/
theorem Thread.Closes.lock {t : Thread} {k : WindowKey} (h : t.Closes k) : k ∈ t.lock := by
  cases t with
  | flush f =>
    cases f with
    | closing s x succ mint locked drained =>
      obtain ⟨rfl, -, rfl⟩ := closes_closing.mp h
      rfl
    | _ => exact h.elim
  | _ => exact h.elim

theorem ClosesBy.closes {k : WindowKey} {t : Thread} {w w' : World} (h : ClosesBy S R k t w w') :
    t.Closes k := by
  obtain ⟨s, x, succ, mint, -, -, rfl, hk, -⟩ := h
  exact hk

/-- A flush locks a window row to close the window only while no trigger pass stands between its
`open_window` and its last chunk. -/
def ClosesAside : StepCond World Thread := fun c _ _ t =>
  ∀ k, t.Closes k → ∀ q, ¬ (c.thread q).Owes k

/-- The window of a pass past its `open_window` is open, and no flush is about to close it. -/
abbrev PassesOpen : Conf World Thread → Prop :=
  ThreadInv (fun _ => True)
    (fun w t => ∀ k, t.Owes k → ∀ v ∈ w.windows, v.key = k → v.closeAt ≠ none)
    fun _ t t' => ∀ k, t.Owes k → ¬ t'.Closes k

theorem Thread.Idle.not_owes {t : Thread} (h : t.Idle) (k : WindowKey) : ¬ t.Owes k := by
  cases t with
  | trigger t =>
    obtain rfl : t = .idle := h
    exact id
  | _ => exact id

/-- **Between its `open_window` and its last chunk a pass finds its window open**, in every run in
which no flush checks a window to close it under such a pass. Its own `open_window` waits for a
flush that holds the row. -/
theorem reach_open {G : World → Prop} {ok : StepCond World Thread}
    (hok : ∀ c p w t, ok c p w t → ClosesAside c p w t) {c : Conf World Thread}
    (h : ReachIn (System S E R on) (Init G) ok c) : PassesOpen c := by
  have hK : ∀ c, ReachIn (System S E R on) (Init G) ok c → LocksOk c := fun c hc => reach_locks hc
  refine (h.strengthen hK).threads ?_ ⟨?_, ?_, ?_⟩
  · rintro c ⟨-, hidle⟩
    exact ⟨trivial, fun p k hk => absurd hk ((hidle p).not_owes k),
      fun p q _ k hk => absurd hk ((hidle p).not_owes k)⟩
  · intro c p w t hi hs _
    refine ⟨trivial, fun k hk v hv hvk hc => ?_⟩
    rcases hs.owes hk with hold | ⟨-, hopen⟩
    · rcases hs.closed hv hc with hv | hby
      · exact hi.each p k hold v hv hvk hc
      · exact hold.not_closes _ hby.closes
    · exact hopen v hv hvk hc
  · intro c p q w t hi hs ⟨hcond, hlocks, _⟩ hqp
    refine ⟨fun k hk v hv hvk hc => ?_, fun k hk hcl => ?_, fun k hk hcl => ?_⟩
    · rcases hs.closed hv hc with hv | hby
      · exact hi.each q k hk v hv hvk hc
      · exact hi.pair q p hqp k hk (hvk ▸ hby.closes)
    · rcases hs.owes hk with hold | ⟨hfree, -⟩
      · exact hi.pair p q (Ne.symm hqp) k hold hcl
      · exact hfree (hlocks.each q k hcl.lock)
    · exact hok c p w t hcond k hcl q hk
  · exact fun hi _ _ _ _ hqr => hi.pair _ _ hqr

end OpenMagpie
