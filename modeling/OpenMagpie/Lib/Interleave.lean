import Mathlib.Data.Nat.Notation
import Mathlib.Logic.Function.Basic

/-!
# Interleavings of threads over a shared state

A configuration is a shared state and one local state per thread. A thread relation says which
atomic steps a local state can take: what they do to the shared state and to the local state. An
interleaving lets any thread take any of its steps.

* `ReachIn T init ok`: the configurations reached by runs all of whose steps satisfy `ok`
  (`Reach T init`: by any run); `ReachIn.next`, `ReachIn.again`: one more step of a thread.
* `ReachIn.mono`, `ReachIn.imp`, `ReachIn.imp_along`, `ReachIn.trans`, `ReachIn.invariant`: other
  conditions and steps; two runs in a row; induction over a run; `ReachIn.strengthen`: a proved
  invariant as a condition on steps.
* **`ReachIn.threads`**: the rule for invariants of the shape "the shared state satisfies `G`,
  every thread satisfies `L`, every two threads satisfy `P`". One step is checked for the thread
  that takes it, for one other thread and for two others, and no thread map is updated by hand;
  `ReachIn.each` is the rule without `P`.
-/

set_option autoImplicit false

namespace Interleave

variable {σ τ : Type*}

/-- A shared state and one local state per thread. -/
structure Conf (σ τ : Type*) where
  shared : σ
  thread : ℕ → τ

/-- A thread relation: local and shared state before, shared and local state after. -/
abbrev ThreadRel (σ τ : Type*) := τ → σ → σ → τ → Prop

/-- A condition on steps: the configuration before, the thread, shared and local state after. -/
abbrev StepCond (σ τ : Type*) := Conf σ τ → ℕ → σ → τ → Prop

/-- The configuration after thread `p` moved to `t` and left the shared state `s`. -/
def Conf.set (c : Conf σ τ) (p : ℕ) (s : σ) (t : τ) : Conf σ τ := ⟨s, Function.update c.thread p t⟩

@[simp] theorem Conf.shared_set (c : Conf σ τ) (p : ℕ) (s : σ) (t : τ) :
    (c.set p s t).shared = s := rfl

@[simp] theorem Conf.thread_set_self (c : Conf σ τ) (p : ℕ) (s : σ) (t : τ) :
    (c.set p s t).thread p = t := by
  simp [Conf.set]

theorem Conf.thread_set_of_ne (c : Conf σ τ) {p q : ℕ} (h : q ≠ p) (s : σ) (t : τ) :
    (c.set p s t).thread q = c.thread q := by
  simp [Conf.set, h]

/-- What holds of every thread after a step. -/
theorem Conf.forall_set {c : Conf σ τ} {p : ℕ} {s : σ} {t : τ} {Q : ℕ → τ → Prop} (hp : Q p t)
    (hq : ∀ q, q ≠ p → Q q (c.thread q)) : ∀ q, Q q ((c.set p s t).thread q) := by
  intro q
  by_cases h : q = p
  · subst h
    simpa using hp
  · simpa [Conf.thread_set_of_ne _ h] using hq q h

@[simp] theorem Conf.set_set (c : Conf σ τ) (p : ℕ) (s s' : σ) (t t' : τ) :
    (c.set p s t).set p s' t' = c.set p s' t' := by
  simp [Conf.set]

/-- The configurations reached by runs whose steps all satisfy `ok`. -/
inductive ReachIn (T : ThreadRel σ τ) (init : Conf σ τ → Prop) (ok : StepCond σ τ) : Conf σ τ → Prop
  | init {c : Conf σ τ} (h : init c) : ReachIn T init ok c
  | step {c : Conf σ τ} {p : ℕ} {s : σ} {t : τ} (h : ReachIn T init ok c)
      (hs : T (c.thread p) c.shared s t) (hok : ok c p s t) : ReachIn T init ok (c.set p s t)

/-- The configurations reached by any run. -/
abbrev Reach (T : ThreadRel σ τ) (init : Conf σ τ → Prop) : Conf σ τ → Prop :=
  ReachIn T init fun _ _ _ _ => True

variable {T T' : ThreadRel σ τ} {init init' : Conf σ τ → Prop} {ok ok' : StepCond σ τ} {c c' : Conf σ τ}

/-- One step of a run, from the states that it reads. -/
theorem ReachIn.next (h : ReachIn T init ok c) (p : ℕ) {s s' : σ} {t t' : τ} (hs : T t s s' t')
    (ht : c.thread p = t) (hc : c.shared = s) (hok : ok c p s' t') :
    ReachIn T init ok (c.set p s' t') := by
  subst ht hc
  exact h.step hs hok

/-- One step of a run without a condition. -/
theorem Reach.next (h : Reach T init c) (p : ℕ) {s s' : σ} {t t' : τ} (hs : T t s s' t')
    (ht : c.thread p = t) (hc : c.shared = s) : Reach T init (c.set p s' t') :=
  ReachIn.next h p hs ht hc trivial

/-- Another step of the thread that took the last one. -/
theorem ReachIn.again {p : ℕ} {s s' : σ} {t t' : τ} (h : ReachIn T init ok (c.set p s t))
    (hs : T t s s' t') (hok : ok (c.set p s t) p s' t') : ReachIn T init ok (c.set p s' t') := by
  have hn := h.next p hs (Conf.thread_set_self c p s t) rfl hok
  rwa [Conf.set_set] at hn

theorem Reach.again {p : ℕ} {s s' : σ} {t t' : τ} (h : Reach T init (c.set p s t))
    (hs : T t s s' t') : Reach T init (c.set p s' t') :=
  ReachIn.again h hs trivial

theorem ReachIn.mono (hT : ∀ t s s' t', T t s s' t' → T' t s s' t') (hi : ∀ c, init c → init' c)
    (hok : ∀ c p s t, ok c p s t → ok' c p s t) (h : ReachIn T init ok c) :
    ReachIn T' init' ok' c := by
  induction h with
  | init h => exact .init (hi _ h)
  | step _ hs hc ih => exact ih.step (hT _ _ _ _ hs) (hok _ _ _ _ hc)

theorem ReachIn.reach (h : ReachIn T init ok c) : Reach T init c :=
  h.mono (fun _ _ _ _ h => h) (fun _ h => h) fun _ _ _ _ _ => trivial

/-- A run from a configuration that a run reaches. -/
theorem ReachIn.trans (h : ReachIn T init ok c) (h' : ReachIn T (· = c) ok c') :
    ReachIn T init ok c' := by
  induction h' with
  | init h0 => exact h0 ▸ h
  | step _ hs hc ih => exact ih.step hs hc

/-- **Induction over a run.** -/
theorem ReachIn.invariant {I : Conf σ τ → Prop} (h0 : ∀ c, init c → I c)
    (hstep : ∀ c p s t, I c → T (c.thread p) c.shared s t → ok c p s t → I (c.set p s t))
    (h : ReachIn T init ok c) : I c := by
  induction h with
  | init hi => exact h0 _ hi
  | step _ hs hc ih => exact hstep _ _ _ _ ih hs hc

/-- A run whose steps meet a condition meets what the condition implies at every step of a run. -/
theorem ReachIn.imp (hok : ∀ c p s t, Reach T init c → T (c.thread p) c.shared s t → ok c p s t →
    ok' c p s t) (h : ReachIn T init ok c) : ReachIn T init ok' c := by
  induction h with
  | init hi => exact .init hi
  | step h hs hc ih => exact ih.step hs (hok _ _ _ _ h.reach hs hc)

/-- The same, where the second condition is argued along the run that meets it so far. -/
theorem ReachIn.imp_along (hok : ∀ c p s t, ReachIn T init ok c → ReachIn T init ok' c →
    T (c.thread p) c.shared s t → ok c p s t → ok' c p s t) (h : ReachIn T init ok c) :
    ReachIn T init ok' c := by
  induction h with
  | init hi => exact .init hi
  | step h hs hc ih => exact ih.step hs (hok _ _ _ _ h ih hs hc)

/-- What every reachable configuration satisfies may be used at every step. -/
theorem ReachIn.strengthen {K : Conf σ τ → Prop} (hK : ∀ c, ReachIn T init ok c → K c)
    (h : ReachIn T init ok c) :
    ReachIn T init (fun c p s t => ok c p s t ∧ K c ∧ K (c.set p s t)) c := by
  induction h with
  | init hi => exact .init hi
  | step h hs hc ih => exact ih.step hs ⟨hc, hK _ h, hK _ (h.step hs hc)⟩

/-- An invariant of the shape "shared state, each thread, each two threads". -/
structure ThreadInv (G : σ → Prop) (L : σ → τ → Prop) (P : σ → τ → τ → Prop) (c : Conf σ τ) :
    Prop where
  shared : G c.shared
  each : ∀ p, L c.shared (c.thread p)
  pair : ∀ p q, p ≠ q → P c.shared (c.thread p) (c.thread q)

section Rule

variable {G : σ → Prop} {L : σ → τ → Prop} {P : σ → τ → τ → Prop}

/-- What one step of thread `p` must establish for a `ThreadInv`: for the shared state and the
thread itself, for one other thread against it, and for two other threads. -/
structure Preserves (T : ThreadRel σ τ) (ok : StepCond σ τ) (G : σ → Prop) (L : σ → τ → Prop)
    (P : σ → τ → τ → Prop) : Prop where
  own : ∀ {c : Conf σ τ} {p : ℕ} {s' : σ} {t' : τ}, ThreadInv G L P c →
    T (c.thread p) c.shared s' t' → ok c p s' t' → G s' ∧ L s' t'
  other : ∀ {c : Conf σ τ} {p q : ℕ} {s' : σ} {t' : τ}, ThreadInv G L P c →
    T (c.thread p) c.shared s' t' → ok c p s' t' → q ≠ p →
    L s' (c.thread q) ∧ P s' t' (c.thread q) ∧ P s' (c.thread q) t'
  others : ∀ {c : Conf σ τ} {p q r : ℕ} {s' : σ} {t' : τ}, ThreadInv G L P c →
    T (c.thread p) c.shared s' t' → ok c p s' t' → q ≠ p → r ≠ p → q ≠ r →
    P s' (c.thread q) (c.thread r)

theorem Preserves.step (h : Preserves T ok G L P) {p : ℕ} {s : σ} {t : τ}
    (hi : ThreadInv G L P c) (hs : T (c.thread p) c.shared s t) (hc : ok c p s t) :
    ThreadInv G L P (c.set p s t) := by
  refine ⟨(h.own hi hs hc).1, fun q => ?_, fun q r hqr => ?_⟩
  · by_cases hq : q = p
    · subst hq
      simpa using (h.own hi hs hc).2
    · simpa [Conf.thread_set_of_ne _ hq] using (h.other hi hs hc hq).1
  · by_cases hq : q = p
    · subst hq
      simpa [Conf.thread_set_of_ne _ hqr.symm] using (h.other hi hs hc hqr.symm).2.1
    · by_cases hr : r = p
      · subst hr
        simpa [Conf.thread_set_of_ne _ hq] using (h.other hi hs hc hq).2.2
      · simpa [Conf.thread_set_of_ne _ hq, Conf.thread_set_of_ne _ hr] using
          h.others hi hs hc hq hr hqr

/-- **The rule for threads.** -/
theorem ReachIn.threads (h0 : ∀ c, init c → ThreadInv G L P c) (hp : Preserves T ok G L P)
    (h : ReachIn T init ok c) : ThreadInv G L P c :=
  h.invariant h0 fun _ _ _ _ hi hs hc => hp.step hi hs hc

/-- The rule for threads without a condition on two of them. -/
theorem ReachIn.each (h0 : ∀ c, init c → G c.shared ∧ ∀ p, L c.shared (c.thread p))
    (hown : ∀ {c : Conf σ τ} {p : ℕ} {s' : σ} {t' : τ}, G c.shared → (∀ q, L c.shared (c.thread q)) →
      T (c.thread p) c.shared s' t' → ok c p s' t' → G s' ∧ L s' t')
    (hother : ∀ {c : Conf σ τ} {p q : ℕ} {s' : σ} {t' : τ}, G c.shared →
      (∀ q, L c.shared (c.thread q)) → T (c.thread p) c.shared s' t' → ok c p s' t' → q ≠ p →
      L s' (c.thread q))
    (h : ReachIn T init ok c) : G c.shared ∧ ∀ p, L c.shared (c.thread p) := by
  have hi := h.threads (G := G) (L := L) (P := fun _ _ _ => True)
    (fun c hc => ⟨(h0 c hc).1, (h0 c hc).2, fun _ _ _ => trivial⟩)
    ⟨fun hi hs hc => hown hi.shared hi.each hs hc,
      fun hi hs hc hq => ⟨hother hi.shared hi.each hs hc hq, trivial, trivial⟩,
      fun _ _ _ _ _ _ => trivial⟩
  exact ⟨hi.shared, hi.each⟩

end Rule

end Interleave
