import OpenMagpie.Watches.Targets

/-!
# Pending runs of a closed window

A flush gathers the runs of open windows only, so a pending run of a digest action whose window is
closed waits for the next arrival. An advance inserts its runs while it holds the window row; the
trigger opens the window in one transaction and inserts after it.

* `Thread.Held`, `reach_held`: the successors that the passes hold are stored.
* `insertsOpen_of_reach`: without edits, each chunk of a trigger finds its digest's window open, and no
  flush about to close it, when no flush closes a window under a pass.
* **`no_orphan`**: in every such run a digest action with a pending run has its window open.
* **`orphan_left`**: a flush closes the window between the two steps of a trigger pass.
-/

set_option autoImplicit false

namespace OpenMagpie

open WatchActionRunState Interleave

variable {C : Type} {S : Settings} {E : Executors} {R : Registry C} {on : Component → Prop}

/-- Everything but edits. -/
def NoEdit (k : Component) : Prop := k ≠ .edit

theorem System.actions_eq {t t' : Thread} {w w' : World} (h : System S E R NoEdit t w w' t') :
    w'.actions = w.actions := by
  rcases h.actions with he | ⟨_, _, _, _, rfl, rfl, -⟩
  · exact he
  · cases h with
    | edit hon _ => exact absurd rfl hon

/-! ## Held successors -/

/-- The action is the one of the slice's window, and stored. -/
def Slice.Stored (s : Slice) (actions : List WatchAction) (a : WatchAction) : Prop :=
  a ∈ actions ∧ a.id = s.window.actionId

/-- What a flush holds is stored, and its successor is not the window's own action. -/
def Flush.Held (actions : List WatchAction) : Flush → Prop
  | .resolved s a | .fetched s a _ | .emitting s a | .settling s (.complete a _ _) =>
    s.Stored actions a
  | .advancing s _ succ | .closing s _ succ .. =>
    ∀ n ∈ succ, n ∈ actions ∧ n.id ≠ s.window.actionId
  | _ => True

/-- What a thread holds is stored. -/
def Thread.Held (actions : List WatchAction) : Thread → Prop
  | .drain (.advancing _ _ _ _ succ) => ∀ n ∈ succ, n ∈ actions
  | .flush f => f.Held actions
  | _ => True

theorem Flush.Step.held {f f' : Flush} {w w' : World} (h : Flush.Step S E R f w w' f')
    (hok : ActionsOk w.actions) (hf : f.Held w.actions) : f'.Held w.actions := by
  cases h with
  | resolve ha he =>
    obtain ⟨hm, hid, -⟩ := of_getAction ha
    exact ⟨hm, hid⟩
  | fetch => exact hf
  | gone =>
    split_ifs
    · trivial
    · exact hf
  | emit =>
    split_ifs
    · trivial
    · exact hf
  | @lookup w s x =>
    intro n hn
    cases x with
    | complete a res d =>
      simp only [Settle.successor] at hn
      split_ifs at hn
      · obtain ⟨hm, hr⟩ := mem_of_nextInChain hn
        obtain ⟨ha, hid⟩ := hf
        refine ⟨hm, fun he => ?_⟩
        obtain rfl := hok.eq_of_id hm ha (he.trans hid.symm)
        exact absurd hr (lt_irrefl _)
      · cases hn
    | close => cases hn
    | fail => cases hn
  | check => exact hf
  | commit => split_ifs <;> trivial
  | _ => trivial

theorem System.held {t t' : Thread} {w w' : World} (h : System S E R on t w w' t')
    (hok : ActionsOk w.actions) (ht : t.Held w.actions) : t'.Held w.actions := by
  cases h with
  | drain _ h =>
    cases h with
    | @lookup w k action res d =>
      intro n hn
      unfold lookupSuccessor at hn
      split_ifs at hn
      · obtain ⟨a, -, hna⟩ := Option.bind_eq_some_iff.mp hn
        exact (mem_of_nextInChain hna).1
      · cases hn
    | _ => trivial
  | flush _ h => exact h.held hok ht
  | _ => trivial

/-- **What the passes hold is stored.** -/
theorem reach_held {G : World → Prop} (hG : ∀ w, G w → ActionsOk w.actions)
    {ok : StepCond World Thread} {c : Conf World Thread}
    (h : ReachIn (System S E R NoEdit) (Init G) ok c) :
    ∀ p, (c.thread p).Held c.shared.actions := by
  have hK : ∀ c, ReachIn (System S E R NoEdit) (Init G) ok c → ActionsOk c.shared.actions :=
    fun c hc => reach_actionsOk hG hc
  refine ((h.strengthen hK).each (G := fun _ => True) (L := fun w t => t.Held w.actions)
    ?_ ?_ ?_).2
  · rintro c ⟨-, hidle⟩
    refine ⟨trivial, fun p => ?_⟩
    have hp := hidle p
    cases ht : c.thread p with
    | drain d =>
      rw [ht] at hp
      obtain rfl : d = .idle := hp
      trivial
    | flush f =>
      rw [ht] at hp
      obtain rfl : f = .idle := hp
      trivial
    | _ => trivial
  · intro c p w t _ hL hs ⟨_, hok, _⟩
    refine ⟨trivial, ?_⟩
    rw [hs.actions_eq]
    exact hs.held hok (hL p)
  · intro c p q w t _ hL hs _ _
    show (c.thread q).Held w.actions
    rw [hs.actions_eq]
    exact hL q

/-! ## Every run -/

/-- The closed window of a stored digest has no pending run. -/
def WindowsSettled (R : Registry C) (w : World) : Prop :=
  ∀ v ∈ w.windows, DigestStored R w.actions v.key → v.closeAt = none →
    IsDrained v.accountId v.actionId w.runs

/-- A flush that is about to close a digest's window leaves no pending run. -/
def Thread.Drains (S : Settings) (R : Registry C) (w : World) (t : Thread) : Prop :=
  ∀ s x succ mint, t = .flush (.closing s x succ mint true true) →
    DigestStored R w.actions s.window.key →
    IsDrained s.window.accountId s.window.actionId (s.settle S w.runs x)

/-- A chunk of a trigger that enqueues a run of a digest action finds the action's window, if there
is one, open, and no flush about to close it. -/
def InsertsOpen (R : Registry C) : StepCond World Thread := fun c p _ t =>
  ∀ k, (c.thread p).EnqueuesInto c.shared k → t ≠ .trigger .idle →
    DigestStored R c.shared.actions k →
    (∀ v ∈ c.shared.windows, v.key = k → v.closeAt ≠ none) ∧ ∀ q, ¬ (c.thread q).Closes k

/-- The held successor with a digest's id is that digest. -/
theorem Thread.Held.isDigest {t : Thread} {w : World} {k : WindowKey} {nxt : WatchAction}
    (ht : t.Held w.actions) (hok : ActionsOk w.actions) (hadv : t.AdvancesInto k.1 nxt)
    (hid : nxt.id = k.2) (hd : DigestStored R w.actions k) : IsDigest R nxt := by
  obtain ⟨a, ha, -, hida, hda⟩ := hd
  have hm : nxt ∈ w.actions := by
    cases t with
    | drain d =>
      cases d with
      | advancing k' action res dl succ => exact ht nxt hadv.2
      | _ => exact hadv.elim
    | flush f =>
      cases f with
      | closing s x succ mint locked drained => exact (ht nxt hadv.2).1
      | _ => exact hadv.elim
    | _ => exact hadv.elim
  obtain rfl := hok.eq_of_id hm ha (hid.trans hida.symm)
  exact hda

/-- A thread does not advance into the action whose window it has locked. -/
theorem Thread.Held.lock_ne {t : Thread} {w : World} {k : WindowKey} {nxt : WatchAction}
    (ht : t.Held w.actions) (hadv : t.AdvancesInto k.1 nxt) (hid : nxt.id = k.2) :
    t.lock ≠ some k := by
  intro hl
  cases t with
  | flush f =>
    cases f with
    | closing s x succ mint locked drained =>
      cases locked with
      | true =>
        have hk : s.window.key = k := Option.some.inj hl
        exact (ht nxt hadv.2).2 (hid.trans (congrArg Prod.snd hk).symm)
      | false => cases hl
    | _ => cases hl
  | _ => cases hl

/-- **The store after a step.** -/
theorem WindowsSettled.step {c : Conf World Thread} {p : ℕ} {w : World} {t : Thread}
    (h : WindowsSettled R c.shared) (hs : System S E R NoEdit (c.thread p) c.shared w t)
    (hok : ActionsOk c.shared.actions) (hheld : (c.thread p).Held c.shared.actions)
    (hdrains : (c.thread p).Drains S R c.shared) (hins : InsertsOpen R c p w t) :
    WindowsSettled R w := by
  intro v hv hd hc
  rw [hs.actions_eq] at hd
  rcases hs.closed hv hc with hold | ⟨s, x, succ, mint, w₀, w₁, ht, hk, hw₀, ha, hw⟩
  · have hdr : IsDrained v.key.1 v.key.2 c.shared.runs := h v hold hd hc
    rcases hs.pendingRuns v.key with hno | ⟨nxt, hadv, hid, hopen⟩ | ⟨henq, hne, -⟩
    · exact hdr.of_noNew hno
    · have hdig : IsDigest R nxt := hheld.isDigest hok hadv hid hd
      exact absurd hc ((hopen hdig).2 (hheld.lock_ne hadv hid) v hv rfl)
    · exact absurd hc ((hins v.key henq hne hd).1 v hold rfl)
  · -- the flush that closed it found it drained, and its own advance goes elsewhere
    have hdr : IsDrained v.key.1 v.key.2 (s.settle S c.shared.runs x) := by
      rw [← hk]
      exact hdrains s x succ mint ht (hk ▸ hd)
    rw [ht] at hheld
    have hno : NoNew v.key w₀.runs w₁.runs := by
      refine ha.noNew fun r _ nxt hn hin => (hheld nxt hn).2 ?_
      exact hin.2.trans (congrArg Prod.snd hk).symm
    show IsDrained v.key.1 v.key.2 w.runs
    rw [hw]
    rw [← hw₀] at hdr
    exact hdr.of_noNew hno

theorem System.drains {t t' : Thread} {w w' : World} (h : System S E R on t w w' t') :
    t'.Drains S R w' :=
  fun _ _ _ _ ht _ => h.closing_drained ht

/-- A step of another thread adds no pending run to an action whose window is about to be
closed. -/
theorem Thread.Drains.other {c : Conf World Thread} {p q : ℕ} {w : World} {t : Thread}
    (h : (c.thread q).Drains S R c.shared) (hs : System S E R NoEdit (c.thread p) c.shared w t)
    (hok : ActionsOk c.shared.actions) (hheld : (c.thread p).Held c.shared.actions)
    (hlocks : LocksOk c) (hins : InsertsOpen R c p w t) (hqp : q ≠ p) :
    (c.thread q).Drains S R w := by
  intro s x succ mint ht hd
  rw [hs.actions_eq] at hd
  have hlock : s.window.key ∈ (c.thread q).lock := by
    rw [ht]
    rfl
  refine drained_settle (k := s.window.key) (h s x succ mint ht hd) ?_
  rcases hs.pendingRuns s.window.key with hno | ⟨nxt, hadv, hid, hopen⟩ | ⟨henq, hne, -⟩
  · exact hno
  · have hdig : IsDigest R nxt := hheld.isDigest hok hadv hid hd
    have hown := (hopen hdig).1 (hlocks.each q _ hlock)
    exact absurd hown (hlocks.pair q p hqp _ hlock)
  · refine absurd ?_ ((hins _ henq hne hd).2 q)
    rw [ht]
    rfl

/-- A store whose closed digest windows have no pending run. -/
structure SettledStore (R : Registry C) (w : World) : Prop where
  actions : ActionsOk w.actions
  settled : WindowsSettled R w

/-- **Every chunk of a trigger lands in an open window**, without edits, when no flush closes a window
between a pass's `open_window` and its last chunk. -/
theorem insertsOpen_of_reach {G : World → Prop} (hG : ∀ w, G w → ActionsOk w.actions)
    {c : Conf World Thread} (h : ReachIn (System S E R NoEdit) (Init G) ClosesAside c) {p : ℕ}
    {w : World} {t : Thread} : InsertsOpen R c p w t := by
  have hreads : (c.thread p).Reads R c.shared.actions := by
    refine reach_targets (fun c p w t _ hs _ q hq => ?_) h p
    rwa [hs.actions_eq]
  intro k hk _ hd
  exact (reach_open (fun _ _ _ _ h => h) h).enqueues
    (hk.owes hreads (reach_knows h p) (reach_actionsOk hG h) hd)

/-- **No orphan.** In every run without edits in which no flush checks a window to close it while a
trigger pass stands between its `open_window` and its last chunk: in every state, and so also when
no pass is at work, a digest action that has a pending run and a window row has its window open. -/
theorem no_orphan {c : Conf World Thread}
    (h : ReachIn (System S E R NoEdit) (Init (SettledStore R)) ClosesAside c) :
    ∀ v ∈ c.shared.windows, DigestStored R c.shared.actions v.key →
      (∃ r ∈ c.shared.runs, IsPendingOf v.accountId v.actionId r) → v.closeAt ≠ none := by
  have hins : ReachIn (System S E R NoEdit) (Init (SettledStore R)) (InsertsOpen R) c :=
    h.imp_along fun _ _ _ _ hc _ _ _ => insertsOpen_of_reach (fun _ hw => hw.actions) hc
  have hK : ∀ c, ReachIn (System S E R NoEdit) (Init (SettledStore R)) (InsertsOpen R) c →
      ActionsOk c.shared.actions ∧ (∀ p, (c.thread p).Held c.shared.actions) ∧ LocksOk c :=
    fun c hc => ⟨reach_actionsOk (fun _ hw => hw.actions) hc,
      reach_held (fun _ hw => hw.actions) hc, reach_locks hc⟩
  have hall := (hins.strengthen hK).each (G := WindowsSettled R) (L := Thread.Drains S R) ?_ ?_ ?_
  · intro v hv hd ⟨r, hr, hp⟩ hc
    exact hall.1 v hv hd hc r hr hp
  · rintro c ⟨hw, hidle⟩
    refine ⟨hw.settled, fun p s x succ mint ht => ?_⟩
    have hp := hidle p
    rw [ht] at hp
    cases hp
  · intro c p w t hG hL hs ⟨hins, ⟨hok, hheld, _⟩, _⟩
    exact ⟨hG.step hs hok (hheld p) (hL p) hins, hs.drains⟩
  · intro c p q w t _ hL hs ⟨hins, ⟨hok, hheld, hlocks⟩, _⟩ hqp
    exact (hL q).other hs hok (hheld p) hlocks hins hqp

/-! ## With and without the condition -/

/-- A trigger pass and a flush. -/
def triggerAndFlush : ℕ → Thread
  | 0 => .trigger .idle
  | 1 => .flush .idle
  | _ => .env

theorem idle_triggerAndFlush (p : ℕ) : (triggerAndFlush p).Idle := by
  rcases p with _ | _ | p
  · rfl
  · rfl
  · trivial

theorem init_triggerAndFlush :
    Init (SettledStore sampleRegistry) ⟨watchedDigest, triggerAndFlush⟩ :=
  ⟨⟨⟨by decide, by decide⟩, fun _ hv => absurd hv List.not_mem_nil⟩, idle_triggerAndFlush⟩

/-- The due window of the digest, without a run. -/
def emptyDue : World := { watchedDigest with clock := 60, windows := [⟨1, 1, some 60⟩] }

/-- The empty slice of a flush at 60. -/
def emptySlice : Slice := ⟨60, ⟨1, 1, some 60⟩, []⟩

theorem init_emptyDue : Init (SettledStore sampleRegistry) ⟨emptyDue, triggerAndFlush⟩ :=
  ⟨⟨⟨by decide, by decide⟩, fun _ _ _ _ _ hr => absurd hr List.not_mem_nil⟩, idle_triggerAndFlush⟩

/-- A flush closes the empty window, and then a pass opens it again and enqueues item 1. -/
theorem no_orphan_sample : ∃ c, ReachIn (SampleSystem NoEdit) (Init (SettledStore sampleRegistry))
    ClosesAside c ∧ (∃ r ∈ c.shared.runs, IsPendingOf 1 1 r) ∧
    (⟨1, 1, some 120⟩ : WatchActionDigestWindow) ∈ c.shared.windows ∧
    ∀ v ∈ c.shared.windows, v.key = (1, 1) → v.closeAt ≠ none := by
  let closed : World := emptySlice.close true true emptyDue
  let bounded : World := { closed with log := [.bounded 1 1 1] }
  let opened : World := { bounded with windows := [⟨1, 1, some 120⟩] }
  let pass : Pass := ⟨60, sampleWatch, sampleAction 1 digestConfig 0, some 60⟩
  let scan : Scan := ⟨pass, none, [], sampleWatchFeed none, 1, [1]⟩
  let run : WatchActionRun := newRun 11 1 1 1 "log" 1 120 none
  have hcheck : Flush.Step {} sampleExecutors sampleRegistry (.advancing emptySlice .close none)
      emptyDue { emptyDue with locked := [(1, 1)] }
      (.closing emptySlice .close none (· + 10) true true) :=
    .check (w := emptyDue) (s := emptySlice) (.add (n := 10) (by decide))
      (by rintro ⟨_, h, _⟩; cases h) (by decide) rfl
  have hcommit : Flush.Step {} sampleExecutors sampleRegistry
      (.closing emptySlice .close none (· + 10) true true) { emptyDue with locked := [(1, 1)] }
      closed (.started 60) :=
    .commit (.add (n := 10) (by decide)) (by rintro ⟨_, h, _⟩; cases h) rfl
  have hbound : Trigger.Step sampleRegistry (.cycle pass none [sampleWatchFeed none]) closed bounded
      (.bounded scan) := .bound rfl (by decide)
  have hopen : Trigger.Step sampleRegistry (.bounded scan) bounded opened
      (.scanning { scan with sched := some 120 } 120 none) :=
    .openWindow (w := bounded) (s := scan) rfl rfl (by decide)
  have hpage : Trigger.Step sampleRegistry (.scanning { scan with sched := some 120 } 120 none)
      opened opened (.paged { scan with sched := some 120 } 120 [1]) := .page (by decide)
  have hchunk : Trigger.Step sampleRegistry (.paged { scan with sched := some 120 } 120 [1]) opened
      { opened with runs := [run] } (.scanned { scan with sched := some 120 }) :=
    .chunk (.add (n := 10) (by decide)) rfl
  have h₀ : ReachIn (SampleSystem NoEdit) (Init (SettledStore sampleRegistry)) ClosesAside
      ⟨emptyDue, triggerAndFlush⟩ := .init init_emptyDue
  -- the flush finds no pass under way
  have h₁ := h₀.next 1 (.flush nofun .start) rfl rfl fun _ h => h.elim
  have h₂ := h₁.again (.flush nofun (.due (by decide : ⟨1, 1, some 60⟩ ∈ _))) fun _ h => h.elim
  have h₃ := h₂.again (.flush nofun (.empty (by decide))) fun _ h => h.elim
  have h₄ := h₃.again (.flush nofun .lookup) fun _ h => h.elim
  have h₅ := h₄.again (.flush nofun hcheck) (by
    intro k _ q hq
    rcases q with _ | _ | q <;> exact hq)
  have h₆ := h₅.again (.flush nofun hcommit) fun _ h => h.elim
  -- the pass
  have h₇ := h₆.next 0 (.trigger nofun (.start (by decide : sampleWatch ∈ _))) rfl rfl
    fun _ h => h.elim
  have h₈ := h₇.again (.trigger nofun (.head rfl rfl)) fun _ h => h.elim
  have h₉ := h₈.again (.trigger nofun .feeds) fun _ h => h.elim
  have h₁₀ := h₉.again (.trigger nofun hbound) fun _ h => h.elim
  have h₁₁ := h₁₀.again (.trigger nofun hopen) fun _ h => h.elim
  have h₁₂ := h₁₁.again (.trigger nofun hpage) fun _ h => h.elim
  have h₁₃ := h₁₂.again (.trigger nofun hchunk) fun _ h => h.elim
  have hrun : run ∈ [run] := List.mem_cons_self
  refine ⟨_, h₁₃, ⟨run, hrun, rfl, rfl, rfl⟩, List.mem_cons_self, fun v hv hk => ?_⟩
  obtain ⟨hacc, hact⟩ := Prod.mk.inj hk
  refine no_orphan h₁₃ v hv ?_ ⟨run, hrun, hacc.symm, hact.symm, rfl⟩
  rw [hk]
  exact ⟨sampleAction 1 digestConfig 0, List.mem_cons_self, rfl, rfl, 60, rfl⟩

/-- A trigger pass has opened the window. -/
theorem reach_windowOpened : Reach (SampleSystem NoEdit) (Init (SettledStore sampleRegistry))
    (Conf.set ⟨watchedDigest, triggerAndFlush⟩ 0 windowOpened
      (.trigger (.scanning openScan 60 none))) := by
  have h₀ : Reach (SampleSystem NoEdit) (Init (SettledStore sampleRegistry))
      ⟨watchedDigest, triggerAndFlush⟩ := .init init_triggerAndFlush
  have h₁ := Reach.next h₀ 0 (.trigger nofun step_start) rfl rfl
  have h₂ := Reach.again h₁ (.trigger nofun step_head)
  have h₃ := Reach.again h₂ (.trigger nofun .feeds)
  have h₄ := Reach.again h₃ (.trigger nofun step_bound)
  exact Reach.again h₄ (.trigger nofun step_openWindow)

/-- The run of item 1, scheduled at the window's close. -/
def batchedRun : WatchActionRun := newRun 11 1 1 1 "log" 1 60 none

/-- The store when the window falls due. -/
def windowDue : World := { windowOpened with clock := 60 }

/-- The store after the flush has closed the window. -/
def windowClosed : World := { windowDue with windows := [⟨1, 1, none⟩] }

/-- **An orphan.** A trigger pass opens the window; before its first chunk the window falls due,
and a flush finds no pending run and closes it; the pass enqueues item 1 and finishes. No pass is
at work, and the run waits in a closed window. -/
theorem orphan_left : ∃ c : Conf World Thread,
    Reach (SampleSystem NoEdit) (Init (SettledStore sampleRegistry)) c ∧
    (∀ p, (c.thread p).Idle) ∧
    ∃ v ∈ c.shared.windows, DigestStored sampleRegistry c.shared.actions v.key ∧
      (∃ r ∈ c.shared.runs, IsPendingOf v.accountId v.actionId r) ∧ v.closeAt = none := by
  let slice : Slice := ⟨60, ⟨1, 1, some 60⟩, []⟩
  let done : World := { windowClosed with
    runs := [batchedRun]
    watchFeeds := [sampleWatchFeed (some 1)]
    log := .scanned 1 [1] :: windowClosed.log }
  have hdue : Flush.Step {} sampleExecutors sampleRegistry (.started 60) windowDue windowDue
      (.due 60 ⟨1, 1, some 60⟩) := .due (by decide)
  have hcheck : Flush.Step {} sampleExecutors sampleRegistry (.advancing slice .close none)
      windowDue { windowDue with locked := [(1, 1)] }
      (.closing slice .close none (· + 10) true true) :=
    .check (w := windowDue) (s := slice) (.add (n := 10) (by decide)) (by rintro ⟨_, h, _⟩; cases h)
      (by decide) rfl
  have hcommit : Flush.Step {} sampleExecutors sampleRegistry
      (.closing slice .close none (· + 10) true true) { windowDue with locked := [(1, 1)] }
      (slice.close true true windowDue) (.started 60) :=
    .commit (.add (n := 10) (by decide)) (by rintro ⟨_, h, _⟩; cases h) rfl
  have hpage : Trigger.Step sampleRegistry (.scanning openScan 60 none) windowClosed windowClosed
      (.paged openScan 60 [1]) := .page (by decide)
  have hchunk : Trigger.Step sampleRegistry (.paged openScan 60 [1]) windowClosed
      { windowClosed with runs := [batchedRun] } (.scanned openScan) :=
    .chunk (.add (n := 10) (by decide)) rfl
  have hadvance : Trigger.Step sampleRegistry (.scanned openScan)
      { windowClosed with runs := [batchedRun] } done (.cycle digestPass (some 60) []) :=
    .advance ⟨_, List.mem_singleton_self _, rfl⟩
  have h₁ := Reach.next reach_windowOpened 2 (.env (k := .clock) nofun (.clock 60)) rfl rfl
  -- the flush
  have h₂ := Reach.next h₁ 1 (s := windowDue) (.flush nofun .start) rfl rfl
  have h₃ := Reach.again h₂ (.flush nofun hdue)
  have h₄ := Reach.again h₃ (.flush nofun (.empty (by decide)))
  have h₅ := Reach.again h₄ (.flush nofun .lookup)
  have h₆ := Reach.again h₅ (.flush nofun hcheck)
  have h₇ := Reach.again h₆ (.flush nofun hcommit)
  have h₈ := Reach.again h₇ (.flush nofun (.crash fun _ _ _ _ _ _ h => by cases h))
  -- the rest of the pass
  have h₉ := Reach.next h₈ 0 (.trigger nofun hpage) rfl rfl
  have h₁₀ := Reach.again h₉ (.trigger nofun hchunk)
  have h₁₁ := Reach.again h₁₀ (.trigger nofun hadvance)
  have h₁₂ := Reach.again h₁₁ (.trigger nofun .done)
  have hdigest : DigestStored sampleRegistry done.actions (1, 1) :=
    ⟨sampleAction 1 digestConfig 0, List.mem_cons_self, rfl, rfl, 60, rfl⟩
  have hpending : ∃ r ∈ done.runs, IsPendingOf 1 1 r :=
    ⟨batchedRun, List.mem_cons_self, rfl, rfl, rfl⟩
  have hwindow : (⟨1, 1, none⟩ : WatchActionDigestWindow) ∈ done.windows := List.mem_cons_self
  refine ⟨_, h₁₂, fun p => ?_, ⟨1, 1, none⟩, hwindow, hdigest, hpending, rfl⟩
  match p with
  | 0 | 1 => rfl
  | 2 => trivial
  | _ + 3 => trivial

end OpenMagpie
