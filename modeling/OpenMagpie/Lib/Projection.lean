import OpenMagpie.Lib.Interleave
import OpenMagpie.Lib.Table

/-!
# Parts of a shared state

The part of a store that one owner sees, and what the steps of all threads look like in it.

* `Conf.map`, **`ReachIn.project`**: where a projection turns every step into a step or into nothing,
  it turns runs into runs.
* `Table.filter_update`, `Table.filter_bulkInsert`: the selected rows of a written table, when the
  statement writes selected rows; `Table.filter_update_of_not`, `Table.filter_bulkInsert_of_not`: when
  it writes other rows only.
-/

set_option autoImplicit false

/-! ## Runs -/

namespace Interleave

variable {σ σ' τ τ' : Type*}

/-- A projection of the shared state and of every thread. -/
def Conf.map (f : σ → σ') (g : τ → τ') (c : Conf σ τ) : Conf σ' τ' :=
  ⟨f c.shared, fun p => g (c.thread p)⟩

variable {f : σ → σ'} {g : τ → τ'}

theorem Conf.map_set (c : Conf σ τ) (p : ℕ) (s : σ) (t : τ) :
    (c.set p s t).map f g = (c.map f g).set p (f s) (g t) := by
  simp only [Conf.map, Conf.set, Conf.mk.injEq, true_and]
  funext q
  by_cases hq : q = p
  · subst hq
    simp
  · simp [hq]

/-- A step that the projection does not show. -/
theorem Conf.map_set_of_eq (c : Conf σ τ) {p : ℕ} {s : σ} {t : τ} (hs : f s = f c.shared)
    (ht : g t = g (c.thread p)) : (c.set p s t).map f g = c.map f g := by
  rw [Conf.map_set, hs, ht]
  simp [Conf.map, Conf.set]

variable {T : ThreadRel σ τ} {T' : ThreadRel σ' τ'} {init : Conf σ τ → Prop} {init' : Conf σ' τ' → Prop}
  {ok : StepCond σ τ} {ok' : StepCond σ' τ'} {c : Conf σ τ}

/-- **Runs seen through a projection.** -/
theorem ReachIn.project (hi : ∀ c, init c → init' (c.map f g))
    (hstep : ∀ c p s t, ReachIn T init ok c → T (c.thread p) c.shared s t → ok c p s t →
      (T' (g (c.thread p)) (f c.shared) (f s) (g t) ∧ ok' (c.map f g) p (f s) (g t)) ∨
      (f s = f c.shared ∧ g t = g (c.thread p)))
    (h : ReachIn T init ok c) : ReachIn T' init' ok' (c.map f g) := by
  induction h with
  | init h0 => exact .init (hi _ h0)
  | step h hs hok ih =>
    rcases hstep _ _ _ _ h hs hok with ⟨hs', hok'⟩ | ⟨hs', ht'⟩
    · rw [Conf.map_set]
      exact ih.step hs' hok'
    · rwa [Conf.map_set_of_eq _ hs' ht']

end Interleave

/-! ## Tables -/

namespace Table

variable {α κ : Type*} {p q : α → Bool} {f : α → α} {t : List α}

/-- The selected rows of a table after an update that keeps the selection. -/
theorem filter_update (hq : ∀ r, q (f r) = q r) :
    (update p f t).filter q = update p f (t.filter q) := by
  induction t with
  | nil => rfl
  | cons r t ih =>
    have hr : q (if p r then f r else r) = q r := by
      split
      · exact hq r
      · rfl
    simp only [update, List.map_cons, List.filter_cons, hr] at ih ⊢
    split
    · rw [List.map_cons, ih]
    · exact ih

/-- An update of other rows leaves the selected ones. -/
theorem filter_update_of_not (hq : ∀ r, q (f r) = q r) (hp : ∀ r ∈ t, q r = true → p r = false) :
    (update p f t).filter q = t.filter q := by
  rw [filter_update hq]
  exact update_eq_self fun r hr => hp r (List.mem_of_mem_filter hr) (List.of_mem_filter hr)

section Insert

variable [DecidableEq κ] {key : α → κ} {rs : List α}

theorem filter_insertIgnore (hkey : ∀ r r', key r = key r' → q r = q r') {r : α} (hr : q r = true) :
    (insertIgnore key t r).filter q = insertIgnore key (t.filter q) r := by
  have hmem : key r ∈ (t.filter q).map key ↔ key r ∈ t.map key := by
    simp only [List.mem_map, List.mem_filter]
    constructor
    · rintro ⟨x, ⟨hx, -⟩, hk⟩
      exact ⟨x, hx, hk⟩
    · rintro ⟨x, hx, hk⟩
      exact ⟨x, ⟨hx, (hkey x r hk).trans hr⟩, hk⟩
  unfold insertIgnore
  by_cases hk : key r ∈ t.map key
  · rw [if_pos hk, if_pos (hmem.mpr hk)]
  · rw [if_neg hk, if_neg fun h => hk (hmem.mp h), List.filter_append, List.filter_cons_of_pos hr,
      List.filter_nil]

theorem filter_insertIgnore_of_not {r : α} (hr : q r = false) :
    (insertIgnore key t r).filter q = t.filter q := by
  unfold insertIgnore
  split
  · rfl
  · rw [List.filter_append, List.filter_cons_of_neg (by simp [hr]), List.filter_nil, List.append_nil]

/-- The selected rows of a table after an insert of selected rows, when keys decide the selection. -/
theorem filter_bulkInsert (hkey : ∀ r r', key r = key r' → q r = q r') (hrs : ∀ r ∈ rs, q r = true) :
    (bulkInsert key rs t).filter q = bulkInsert key rs (t.filter q) := by
  induction rs generalizing t with
  | nil => rfl
  | cons r rs ih =>
    have h := ih (t := insertIgnore key t r) fun x hx => hrs x (List.mem_cons_of_mem _ hx)
    rw [filter_insertIgnore hkey (hrs r List.mem_cons_self)] at h
    exact h

/-- An insert of other rows leaves the selected ones. -/
theorem filter_bulkInsert_of_not (hrs : ∀ r ∈ rs, q r = false) :
    (bulkInsert key rs t).filter q = t.filter q := by
  induction rs generalizing t with
  | nil => rfl
  | cons r rs ih =>
    have h := ih (t := insertIgnore key t r) fun x hx => hrs x (List.mem_cons_of_mem _ hx)
    rw [filter_insertIgnore_of_not (hrs r List.mem_cons_self)] at h
    exact h

end Insert

end Table
