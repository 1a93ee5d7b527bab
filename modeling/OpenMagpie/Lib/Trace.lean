import OpenMagpie.Lib.Interleave

/-!
# Runs with their steps

A run together with the list of its steps, the newest first: for properties of what happened in a
run and in which order.

* `Move`, `Run`: a step of a run, and the runs with their steps; `Run.reachIn`: what a run leads to is
  reached.
* `Run.invariant`, **`Run.each`**: induction over a run, for properties that mention its steps;
  `Run.imp`, `Run.strengthen`: other conditions, a proved invariant as one.
* `latest`: the last value that a thread's steps gave.
-/

set_option autoImplicit false

namespace Interleave

variable {σ τ : Type*}

/-- A step of a run: the configuration before, the thread, shared and local state after. -/
structure Move (σ τ : Type*) where
  before : Conf σ τ
  thread : ℕ
  shared : σ
  next : τ

/-- The local state that the thread stepped from. -/
def Move.prev (m : Move σ τ) : τ := m.before.thread m.thread

/-- The runs whose steps all satisfy `ok`, with their steps. -/
inductive Run (T : ThreadRel σ τ) (init : Conf σ τ → Prop) (ok : StepCond σ τ) :
    List (Move σ τ) → Conf σ τ → Prop
  | init {c : Conf σ τ} (h : init c) : Run T init ok [] c
  | step {c : Conf σ τ} {tr : List (Move σ τ)} {p : ℕ} {s : σ} {t : τ} (h : Run T init ok tr c)
      (hs : T (c.thread p) c.shared s t) (hok : ok c p s t) :
      Run T init ok (⟨c, p, s, t⟩ :: tr) (c.set p s t)

variable {T : ThreadRel σ τ} {init : Conf σ τ → Prop} {ok : StepCond σ τ} {c : Conf σ τ}
  {tr : List (Move σ τ)}

theorem Run.reachIn (h : Run T init ok tr c) : ReachIn T init ok c := by
  induction h with
  | init h => exact .init h
  | step _ hs hc ih => exact ih.step hs hc

/-- One step of a run, from the states that it reads. -/
theorem Run.next (h : Run T init ok tr c) (p : ℕ) {s s' : σ} {t t' : τ} (hs : T t s s' t')
    (ht : c.thread p = t) (hc : c.shared = s) (hok : ok c p s' t') :
    Run T init ok (⟨c, p, s', t'⟩ :: tr) (c.set p s' t') := by
  subst ht hc
  exact h.step hs hok

/-- Another step of the thread that took the last one. -/
theorem Run.again {p : ℕ} {s s' : σ} {t t' : τ} (h : Run T init ok tr (c.set p s t))
    (hs : T t s s' t') (hok : ok (c.set p s t) p s' t') :
    Run T init ok (⟨c.set p s t, p, s', t'⟩ :: tr) (c.set p s' t') := by
  have hn := h.next p hs (Conf.thread_set_self c p s t) rfl hok
  rwa [Conf.set_set] at hn

/-- A run whose steps meet a condition meets what the condition implies along it. -/
theorem Run.imp {ok' : StepCond σ τ} (hok : ∀ c p s t, ReachIn T init ok c →
    T (c.thread p) c.shared s t → ok c p s t → ok' c p s t) (h : Run T init ok tr c) :
    Run T init ok' tr c := by
  induction h with
  | init hi => exact .init hi
  | step h hs hc ih => exact ih.step hs (hok _ _ _ _ h.reachIn hs hc)

/-- What every reachable configuration satisfies may be used at every step. -/
theorem Run.strengthen {K : Conf σ τ → Prop} (hK : ∀ c, ReachIn T init ok c → K c)
    (h : Run T init ok tr c) : Run T init (fun c p s t => ok c p s t ∧ K c) tr c :=
  h.imp fun c _ _ _ hr _ hc => ⟨hc, hK c hr⟩

/-- **Induction over a run and its steps.** -/
theorem Run.invariant {I : List (Move σ τ) → Conf σ τ → Prop} (h0 : ∀ c, init c → I [] c)
    (hstep : ∀ tr c p s t, I tr c → T (c.thread p) c.shared s t → ok c p s t →
      I (⟨c, p, s, t⟩ :: tr) (c.set p s t)) (h : Run T init ok tr c) : I tr c := by
  induction h with
  | init hi => exact h0 _ hi
  | step _ hs hc ih => exact hstep _ _ _ _ _ ih hs hc

/-- **The rule for the shared state and each thread**, with the steps taken so far. -/
theorem Run.each {G : List (Move σ τ) → σ → Prop} {L : List (Move σ τ) → σ → ℕ → τ → Prop}
    (h0 : ∀ c, init c → G [] c.shared ∧ ∀ p, L [] c.shared p (c.thread p))
    (hown : ∀ {tr : List (Move σ τ)} {c : Conf σ τ} {p : ℕ} {s : σ} {t : τ}, G tr c.shared →
      (∀ q, L tr c.shared q (c.thread q)) → T (c.thread p) c.shared s t → ok c p s t →
      G (⟨c, p, s, t⟩ :: tr) s ∧ L (⟨c, p, s, t⟩ :: tr) s p t)
    (hother : ∀ {tr : List (Move σ τ)} {c : Conf σ τ} {p q : ℕ} {s : σ} {t : τ}, G tr c.shared →
      (∀ q, L tr c.shared q (c.thread q)) → T (c.thread p) c.shared s t → ok c p s t → q ≠ p →
      L (⟨c, p, s, t⟩ :: tr) s q (c.thread q))
    (h : Run T init ok tr c) : G tr c.shared ∧ ∀ p, L tr c.shared p (c.thread p) := by
  refine h.invariant (I := fun tr c => G tr c.shared ∧ ∀ p, L tr c.shared p (c.thread p)) h0 ?_
  rintro tr c p s t ⟨hG, hL⟩ hs hc
  refine ⟨(hown hG hL hs hc).1, fun q => ?_⟩
  by_cases hq : q = p
  · subst hq
    simpa using (hown hG hL hs hc).2
  · simpa [Conf.thread_set_of_ne _ hq] using hother hG hL hs hc hq

/-- The last value that `f` gives on a step of thread `p`. -/
def latest {α : Type*} (f : Move σ τ → Option α) (p : ℕ) : List (Move σ τ) → Option α
  | [] => none
  | m :: tr => (if m.thread = p then f m else none) <|> latest f p tr

section Latest

variable {α : Type*} {f : Move σ τ → Option α} {p q : ℕ} {m : Move σ τ} {a : α}

theorem latest_of_ne (h : m.thread ≠ p) : latest f p (m :: tr) = latest f p tr := by
  simp [latest, h]

end Latest

end Interleave
