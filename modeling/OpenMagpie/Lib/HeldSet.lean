import OpenMagpie.Lib.Interleave

/-!
# A shared set of keys that threads take and give back

A thread takes a key that is not in the set, works, and gives the key back. The test and the
insertion are one step.

* `HeldSet`, `HeldSet.Move`: the set, the key a thread holds, and what a step may do to them.
* **`HeldSet.exclusive`**: in every run the set holds exactly the keys that the threads hold, and no
  two threads hold one key.
-/

set_option autoImplicit false

namespace Interleave

variable {σ τ κ : Type*}

/-- A shared set of keys, and the key that a thread holds. -/
structure HeldSet (σ τ κ : Type*) where
  keys : σ → List κ
  held : τ → Option κ

namespace HeldSet

variable (H : HeldSet σ τ κ)

/-- What a step may do: nothing to either, take a free key, or give a held one back. -/
inductive Move (t : τ) (s s' : σ) (t' : τ) : Prop
  | keep (hk : H.keys s' = H.keys s) (ht : H.held t' = H.held t)
  | take (k : κ) (hfree : k ∉ H.keys s) (hk : H.keys s' = H.keys s ++ [k]) (ht : H.held t = none)
      (ht' : H.held t' = some k)
  | drop (k : κ) (hk : ∀ k', k' ∈ H.keys s' ↔ k' ∈ H.keys s ∧ k' ≠ k) (ht : H.held t = some k)
      (ht' : H.held t' = none)

/-- The set holds what the threads hold, each key once. -/
structure Exclusive (c : Conf σ τ) : Prop where
  mem_iff : ∀ k, k ∈ H.keys c.shared ↔ ∃ p, H.held (c.thread p) = some k
  single : ∀ p q k, H.held (c.thread p) = some k → H.held (c.thread q) = some k → p = q

variable {H} {c : Conf σ τ}

theorem Exclusive.step {p : ℕ} {s' : σ} {t' : τ} (h : H.Exclusive c)
    (hm : H.Move (c.thread p) c.shared s' t') : H.Exclusive (c.set p s' t') := by
  -- what the threads hold after the step
  have hheld : ∀ q, H.held ((c.set p s' t').thread q) =
      if q = p then H.held t' else H.held (c.thread q) := by
    intro q
    by_cases hq : q = p
    · subst hq
      simp
    · simp [Conf.thread_set_of_ne _ hq, hq]
  cases hm with
  | keep hk ht =>
    have hsame : ∀ q, H.held ((c.set p s' t').thread q) = H.held (c.thread q) := by
      intro q
      rw [hheld]
      by_cases hq : q = p
      · rw [if_pos hq, ht, hq]
      · rw [if_neg hq]
    refine ⟨fun k => ?_, fun q r k hq hr => ?_⟩
    · simp only [Conf.shared_set, hk, hsame]
      exact h.mem_iff k
    · rw [hsame] at hq hr
      exact h.single q r k hq hr
  | take k hfree hk ht ht' =>
    refine ⟨fun k' => ?_, fun q r k' hq hr => ?_⟩
    · rw [Conf.shared_set, hk, List.mem_append, List.mem_singleton, h.mem_iff]
      constructor
      · rintro (⟨q, hq⟩ | rfl)
        · have hqp : q ≠ p := by
            rintro rfl
            rw [ht] at hq
            cases hq
          exact ⟨q, by rw [hheld, if_neg hqp, hq]⟩
        · exact ⟨p, by rw [hheld, if_pos rfl, ht']⟩
      · rintro ⟨q, hq⟩
        rw [hheld] at hq
        by_cases hqp : q = p
        · rw [if_pos hqp, ht'] at hq
          exact .inr (Option.some.inj hq).symm
        · rw [if_neg hqp] at hq
          exact .inl ⟨q, hq⟩
    · -- the key was free, so no other thread holds it
      have hother : ∀ q, q ≠ p → H.held (c.thread q) ≠ some k :=
        fun q _ hq => hfree ((h.mem_iff k).mpr ⟨q, hq⟩)
      rw [hheld] at hq hr
      by_cases hqp : q = p <;> by_cases hrp : r = p
      · rw [hqp, hrp]
      · rw [if_pos hqp, ht'] at hq
        rw [if_neg hrp, ← hq] at hr
        exact absurd hr (hother r hrp)
      · rw [if_pos hrp, ht'] at hr
        rw [if_neg hqp, ← hr] at hq
        exact absurd hq (hother q hqp)
      · rw [if_neg hqp] at hq
        rw [if_neg hrp] at hr
        exact h.single q r k' hq hr
  | drop k hk ht ht' =>
    have hold : ∀ q k', H.held ((c.set p s' t').thread q) = some k' ↔
        H.held (c.thread q) = some k' ∧ q ≠ p := by
      intro q k'
      rw [hheld]
      by_cases hq : q = p
      · simp [hq, ht']
      · simp [hq]
    refine ⟨fun k' => ?_, fun q r k' hq hr => ?_⟩
    · simp only [Conf.shared_set, hk, h.mem_iff, hold]
      constructor
      · rintro ⟨⟨q, hq⟩, hne⟩
        refine ⟨q, hq, ?_⟩
        rintro rfl
        exact hne (Option.some.inj (hq.symm.trans ht))
      · rintro ⟨q, hq, hqp⟩
        refine ⟨⟨q, hq⟩, ?_⟩
        rintro rfl
        exact hqp (h.single q p k' hq ht)
    · exact h.single q r k' ((hold q k').mp hq).1 ((hold r k').mp hr).1

/-- **The set holds what the threads hold**, in every run whose steps are such moves. -/
theorem exclusive {T : ThreadRel σ τ} {init : Conf σ τ → Prop} {ok : StepCond σ τ}
    (h0 : ∀ c, init c → H.keys c.shared = [] ∧ ∀ p, H.held (c.thread p) = none)
    (hT : ∀ t s s' t', T t s s' t' → H.Move t s s' t') (h : ReachIn T init ok c) :
    H.Exclusive c := by
  refine h.invariant (fun c hc => ?_) fun c p s t hi hs _ => hi.step (hT _ _ _ _ hs)
  obtain ⟨hkeys, hheld⟩ := h0 c hc
  refine ⟨fun k => ?_, fun p q k hp _ => ?_⟩
  · simp [hkeys, hheld]
  · rw [hheld p] at hp
    cases hp

end HeldSet

end Interleave
