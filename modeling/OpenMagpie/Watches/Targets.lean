import OpenMagpie.Watches.Closing

/-!
# The action a thread has read

An advance enqueues into the successor it has looked up, a trigger pass into the head it has loaded.
Either reads the action's config in a step before the one that enqueues.

* `Thread.target`: the action that a thread has read and may still enqueue into.
* `StoredAs`: that action is stored, instant or digest as it was read.
* `KeepsTargets`: no edit lands that changes this; **`reach_targets`**.
* `Trigger.Knows`: what a pass keeps of its head's config.
* **`PassesOpen.enqueues`**: a chunk of a pass past its `open_window` finds the window open.
-/

set_option autoImplicit false

namespace OpenMagpie

open WatchActionRunState Interleave

variable {C : Type} {S : Settings} {E : Executors} {R : Registry C} {on : Component → Prop}

/-! ## Targets -/

/-- The head of a trigger pass that has loaded it. -/
def Trigger.pass : Trigger → Option Pass
  | .loaded p | .cycle p .. => some p
  | .bounded s | .scanning s .. | .paged s .. | .scanned s => some s.pass
  | _ => none

/-- The action that the thread has read and may still enqueue into, with its window key. -/
def Thread.target : Thread → Option (WindowKey × WatchAction)
  | .drain (.advancing h _ _ _ succ) => succ.map fun n => ((h.run.accountId, n.id), n)
  | .flush (.advancing s _ succ) | .flush (.closing s _ succ ..) =>
    succ.map fun n => ((s.window.accountId, n.id), n)
  | .trigger t => t.pass.map fun p => (p.key, p.head)
  | _ => none

theorem Thread.AdvancesInto.target {t : Thread} {k : WindowKey} {nxt : WatchAction}
    (h : t.AdvancesInto k.1 nxt) (hid : nxt.id = k.2) : t.target = some (k, nxt) := by
  obtain ⟨account, id⟩ := k
  cases t with
  | drain d =>
    cases d with
    | advancing d action res dl succ =>
      obtain ⟨rfl, rfl⟩ := h
      obtain rfl := hid
      rfl
    | _ => exact h.elim
  | flush f =>
    cases f with
    | closing s x succ mint locked drained =>
      obtain ⟨rfl, rfl⟩ := h
      obtain rfl := hid
      rfl
    | _ => exact h.elim
  | _ => exact h.elim

/-- The action `a` of the key is stored, and a digest exactly when `a` is one. -/
def StoredAs (R : Registry C) (actions : List WatchAction) (k : WindowKey) (a : WatchAction) : Prop :=
  ∃ b ∈ actions, b.accountId = k.1 ∧ b.id = k.2 ∧ (IsDigest R b ↔ IsDigest R a)

/-- Every action that the thread may still enqueue into is stored as it was read. -/
def Thread.Reads (R : Registry C) (actions : List WatchAction) (t : Thread) : Prop :=
  ∀ k a, t.target = some (k, a) → StoredAs R actions k a

/-- No edit deletes an action, or moves it between instant and digest, while a thread that has read it
may still enqueue into it. -/
def KeepsTargets (R : Registry C) : StepCond World Thread := fun c _ w _ =>
  ∀ q, (c.thread q).Reads R c.shared.actions → (c.thread q).Reads R w.actions

/-- A stored digest that was read is a digest. -/
theorem StoredAs.isDigest {actions : List WatchAction} {k : WindowKey} {a : WatchAction}
    (h : StoredAs R actions k a) (hok : ActionsOk actions) (hd : DigestStored R actions k) :
    IsDigest R a := by
  obtain ⟨b, hb, -, hid, hiff⟩ := h
  obtain ⟨d, hdm, -, hid', hdd⟩ := hd
  obtain rfl := hok.eq_of_id hb hdm (hid.trans hid'.symm)
  exact hiff.mp hdd

/-- A digest that was read is stored as one. -/
theorem StoredAs.digestStored {actions : List WatchAction} {k : WindowKey} {a : WatchAction}
    (h : StoredAs R actions k a) (hd : IsDigest R a) : DigestStored R actions k := by
  obtain ⟨b, hb, hacc, hid, hiff⟩ := h
  exact ⟨b, hb, hacc, hid, hiff.mpr hd⟩

theorem mem_nextInChain_account {account : Id} {a n : WatchAction} {actions : List WatchAction}
    (h : n ∈ nextInChain account a actions) : n.accountId = account :=
  (mem_above.mp (List.argmin_mem h)).2.1

/-- The pass of a trigger after a step is the one before, or it has just loaded its head. -/
theorem Trigger.Step.pass {t t' : Trigger} {w w' : World} (h : Trigger.Step R t w w' t') {p : Pass}
    (hp : t'.pass = some p) : t.pass = some p ∨
      (p.head ∈ w'.actions ∧ p.head.accountId = p.watch.accountId ∧
        digestInterval R p.head = .ok p.interval) := by
  cases h with
  | head hh hi =>
    obtain rfl := Option.some.inj hp
    obtain ⟨hm, hacc, -⟩ := mem_listForPath.mp (List.mem_of_mem_head? hh)
    exact .inr ⟨hm, hacc, hi⟩
  | chunk => split_ifs at hp <;> exact .inl hp
  | start | done | crash => cases hp
  | _ => exact .inl hp

/-- **A step's own target** is the one before, or has just been read. -/
theorem System.target {t t' : Thread} {w w' : World} (h : System S E R on t w w' t')
    {k : WindowKey} {a : WatchAction} (ht : t'.target = some (k, a)) : t.target = some (k, a) ∨
      (a ∈ w'.actions ∧ a.accountId = k.1 ∧ a.id = k.2) := by
  cases h with
  | drain _ h =>
    cases h with
    | @lookup w d action res dl =>
      obtain ⟨n, hn, he⟩ := Option.map_eq_some_iff.mp ht
      obtain ⟨rfl, rfl⟩ := Prod.mk.inj he
      unfold lookupSuccessor at hn
      split_ifs at hn
      obtain ⟨b, -, hb⟩ := Option.bind_eq_some_iff.mp hn
      exact .inr ⟨(mem_of_nextInChain hb).1, mem_nextInChain_account hb, rfl⟩
    | _ => cases ht
  | flush _ h =>
    cases h with
    | @lookup w s x =>
      obtain ⟨n, hn, he⟩ := Option.map_eq_some_iff.mp ht
      obtain ⟨rfl, rfl⟩ := Prod.mk.inj he
      cases x with
      | complete b res d =>
        simp only [Settle.successor] at hn
        split_ifs at hn
        exact .inr ⟨(mem_of_nextInChain hn).1, mem_nextInChain_account hn, rfl⟩
      | _ => cases hn
    | check => exact .inl ht
    | gone => split_ifs at ht <;> cases ht
    | commit => split_ifs at ht <;> cases ht
    | _ => cases ht
  | trigger _ h =>
    obtain ⟨p, hp, he⟩ := Option.map_eq_some_iff.mp ht
    obtain ⟨rfl, rfl⟩ := Prod.mk.inj he
    refine (h.pass hp).imp (fun hold => ?_) fun ⟨hm, hacc, _⟩ => ⟨hm, hacc, rfl⟩
    simp only [Thread.target, hold, Option.map_some]
  | _ => cases ht

theorem Thread.Idle.target {t : Thread} (h : t.Idle) : t.target = none := by
  cases t with
  | drain d =>
    obtain rfl : d = .idle := h
    rfl
  | flush f =>
    obtain rfl : f = .idle := h
    rfl
  | trigger t =>
    obtain rfl : t = .idle := h
    rfl
  | _ => rfl

/-- **What a thread has read is stored as it was read**, up to its last insert, in every run whose
edits leave the actions of the others' pending inserts alone. -/
theorem reach_targets {G : World → Prop} {ok : StepCond World Thread}
    (hok : ∀ c p w t, ReachIn (System S E R on) (Init G) ok c →
      System S E R on (c.thread p) c.shared w t → ok c p w t → KeepsTargets R c p w t)
    {c : Conf World Thread} (h : ReachIn (System S E R on) (Init G) ok c) :
    ∀ p, (c.thread p).Reads R c.shared.actions := by
  have h' : ReachIn (System S E R on) (Init G) (KeepsTargets R) c :=
    h.imp_along fun c p w t hc _ hs hcond => hok c p w t hc hs hcond
  refine (h'.each (G := fun _ => True) (L := fun w t => t.Reads R w.actions) ?_ ?_ ?_).2
  · rintro c ⟨-, hidle⟩
    refine ⟨trivial, fun p k a ht => ?_⟩
    rw [(hidle p).target] at ht
    cases ht
  · intro c p w t _ hL hs hk
    refine ⟨trivial, fun k a ht => ?_⟩
    rcases hs.target ht with hold | ⟨hm, hacc, hid⟩
    · exact hk p (hL p) k a hold
    · exact ⟨a, hm, hacc, hid, Iff.rfl⟩
  · exact fun _ hL _ hk _ => hk _ (hL _)

/-! ## The config of a pass -/

/-- The pass has its head's window length, and is past its `open_window` when it scans for a
digest. -/
def Trigger.Knows (R : Registry C) (t : Trigger) : Prop :=
  (∀ p ∈ t.pass, digestInterval R p.head = .ok p.interval) ∧
    ∀ s, (∃ tm cursor, t = .scanning s tm cursor) ∨ (∃ tm page, t = .paged s tm page) →
      IsDigest R s.pass.head → s.sched ≠ none

/-- What a trigger pass knows of its head. -/
def Thread.Knows (R : Registry C) : Thread → Prop
  | .trigger t => t.Knows R
  | _ => True

theorem Trigger.Step.knows {t t' : Trigger} {w w' : World} (h : Trigger.Step R t w w' t')
    (hk : t.Knows R) : t'.Knows R := by
  refine ⟨fun p hp => (h.pass hp).elim (hk.1 p) fun hl => hl.2.2, fun s hs hd => ?_⟩
  cases h with
  | openWindow =>
    obtain ⟨tm, cursor, he⟩ | ⟨tm, page, he⟩ := hs
    · obtain ⟨rfl, -⟩ := Trigger.scanning.inj he
      exact Option.some_ne_none _
    · cases he
  | joinWindow hi hsome =>
    obtain ⟨tm, cursor, he⟩ | ⟨tm, page, he⟩ := hs
    · obtain ⟨rfl, -⟩ := Trigger.scanning.inj he
      rw [hsome]
      exact Option.some_ne_none _
    · cases he
  | @instant w s' hi =>
    obtain ⟨tm, cursor, he⟩ | ⟨tm, page, he⟩ := hs
    · obtain ⟨rfl, -⟩ := Trigger.scanning.inj he
      have hint := hk.1 _ rfl
      obtain ⟨n, hn⟩ := hd
      rw [hint, hi] at hn
      cases hn
    · cases he
  | page =>
    obtain ⟨tm, cursor, he⟩ | ⟨tm, page, he⟩ := hs
    · cases he
    · obtain ⟨rfl, -⟩ := Trigger.paged.inj he
      exact hk.2 _ (.inl ⟨_, _, rfl⟩) hd
  | chunk =>
    split_ifs at hs
    · obtain ⟨tm, cursor, he⟩ | ⟨tm, page, he⟩ := hs <;> cases he
    · obtain ⟨tm, cursor, he⟩ | ⟨tm, page, he⟩ := hs
      · obtain ⟨rfl, -⟩ := Trigger.scanning.inj he
        exact hk.2 _ (.inr ⟨_, _, rfl⟩) hd
      · cases he
  | _ => obtain ⟨tm, cursor, he⟩ | ⟨tm, page, he⟩ := hs <;> cases he

theorem reach_knows {G : World → Prop} {ok : StepCond World Thread} {c : Conf World Thread}
    (h : ReachIn (System S E R on) (Init G) ok c) : ∀ p, (c.thread p).Knows R := by
  refine (h.each (G := fun _ => True) (L := fun _ t => t.Knows R) ?_ ?_
    fun _ hL _ _ _ => hL _).2
  · rintro c ⟨-, hidle⟩
    refine ⟨trivial, fun p => ?_⟩
    have hp := hidle p
    cases ht : c.thread p with
    | trigger t =>
      rw [ht] at hp
      obtain rfl : t = .idle := hp
      refine ⟨fun p hp => absurd hp nofun, fun s hs => ?_⟩
      obtain ⟨tm, cursor, he⟩ | ⟨tm, page, he⟩ := hs <;> cases he
    | _ => trivial
  · intro c p w t _ hL hs _
    refine ⟨trivial, ?_⟩
    have hp := hL p
    generalize c.thread p = t₀ at hs hp
    cases hs with
    | trigger _ h => exact h.knows hp
    | _ => trivial

/-! ## Chunks -/

/-- **A chunk for a stored digest is of a pass past its `open_window`.** -/
theorem Thread.EnqueuesInto.owes {t : Thread} {w : World} {k : WindowKey}
    (h : t.EnqueuesInto w k) (hr : t.Reads R w.actions) (hk : t.Knows R)
    (hok : ActionsOk w.actions) (hd : DigestStored R w.actions k) : t.Owes k := by
  cases t with
  | trigger t =>
    cases t with
    | paged s tm page =>
      obtain ⟨rfl, -⟩ := h
      have hdig : IsDigest R s.pass.head := (hr _ _ rfl).isDigest hok hd
      exact ⟨rfl, hk.2 s (.inr ⟨_, _, rfl⟩) hdig⟩
    | _ => exact h.elim
  | _ => exact h.elim

/-- **A chunk for a stored digest finds the digest's window open**, and no flush about to close
it. -/
theorem PassesOpen.enqueues {c : Conf World Thread} {p : ℕ} {k : WindowKey} (h : PassesOpen c)
    (ho : (c.thread p).Owes k) :
    (∀ v ∈ c.shared.windows, v.key = k → v.closeAt ≠ none) ∧ ∀ q, ¬ (c.thread q).Closes k := by
  refine ⟨h.each p k ho, fun q hq => ?_⟩
  by_cases hqp : q = p
  · exact ho.not_closes k (hqp ▸ hq)
  · exact h.pair p q (Ne.symm hqp) k ho hq

end OpenMagpie
