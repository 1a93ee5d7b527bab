import Mathlib.Data.List.Sort
import Mathlib.Order.Interval.Finset.Defs

/-!
# Scrolling through a table that changes

A scroll reads a table in ascending order of a key, `size` rows for each query. Every query reads the
table as it is then, behind the key that the page before has ended in. It stops behind a page that the
stop rule names: one without a row, or one that is not full.

* `page`, `Scroll.next`, `run`: one query, and the scroll after `n` queries of a sequence of tables.
* `StopRule`: a rule that names every page without a row and no full one.
* **`ascending_run`**: the keys that are yielded are strictly ascending.
* **`held_run`**: a key that every table has is yielded, or still in front of the scroll.
* **`exists_done_or_leaves`**: a scroll ends, or its cursor leaves a given finite set of keys.
* **`yields_const`**: over a table that stays the same, the rows behind the start.
-/

set_option autoImplicit false

namespace Scroll

variable {α κ : Type*} [LinearOrder κ] (f : α → κ) (size : ℕ)

/-- The row is behind the cursor. -/
def beyond (after : Option κ) (k : κ) : Bool := after.all fun c => decide (c < k)

/-- The rows behind a cursor, in ascending order. -/
def rest (xs : List α) (after : Option κ) : List α :=
  (xs.filter fun x => beyond after (f x)).insertionSort fun x y => f x ≤ f y

/-- The page of a query. -/
def page (xs : List α) (after : Option κ) : List α := (rest f xs after).take size

/-- Where a scroll stands: its cursor, what it has yielded, and whether it has stopped. -/
structure State (α κ : Type*) where
  after : Option κ
  yielded : List α := []
  done : Bool := false

/-- The scroll after the next page. -/
def State.next (stop : List α → Bool) (xs : List α) (s : State α κ) : State α κ :=
  if s.done then s else
    let chunk := page f size xs s.after
    { after := (chunk.getLast?.map f).or s.after
      yielded := s.yielded ++ chunk
      done := stop chunk }

/-- The scroll after `n` queries; the `k`-th reads the `k`-th table. -/
def run (stop : List α → Bool) (tables : ℕ → List α) (start : Option κ) : ℕ → State α κ
  | 0 => { after := start }
  | n + 1 => (run stop tables start n).next f size stop (tables n)

/-- The rule names every page without a row, and no full one. -/
structure StopRule (size : ℕ) (stop : List α → Bool) : Prop where
  nil : stop [] = true
  short : ∀ chunk, stop chunk = true → chunk.length < size

/-- `if not chunk: return`. -/
theorem StopRule.isEmpty (hs : 0 < size) : StopRule size fun chunk : List α => chunk.isEmpty :=
  ⟨rfl, fun chunk h => by rwa [List.isEmpty_iff.mp h]⟩

/-- `if not chunk: return`, and `if len(chunk) < size: return` behind the page. -/
theorem StopRule.notFull (hs : 0 < size) :
    StopRule size fun chunk : List α => chunk.isEmpty || decide (chunk.length < size) := by
  refine ⟨rfl, fun chunk h => ?_⟩
  rcases Bool.or_eq_true_iff.mp h with h | h
  · exact (StopRule.isEmpty size hs).short chunk h
  · exact of_decide_eq_true h

variable {f size} {xs : List α} {after : Option κ} {x : α} {c k : κ}

/-! ## One page -/

theorem mem_rest : x ∈ rest f xs after ↔ x ∈ xs ∧ beyond after (f x) := by
  rw [rest, List.mem_insertionSort, List.mem_filter]

/-- The keys behind a cursor are strictly ascending. -/
theorem pairwise_rest (h : (xs.map f).Nodup) : (rest f xs after).Pairwise fun x y => f x < f y := by
  have hkeys : ((rest f xs after).map f).Nodup :=
    ((List.perm_insertionSort _ _).map f).nodup_iff.mpr (h.sublist (List.filter_sublist.map f))
  have hsorted : (rest f xs after).Pairwise fun x y => f x ≤ f y := List.pairwise_insertionSort _ _
  exact (hsorted.and (List.pairwise_map.mp hkeys)).imp fun hxy => lt_of_le_of_ne hxy.1 hxy.2

theorem pairwise_page (h : (xs.map f).Nodup) : (page f size xs after).Pairwise fun x y => f x < f y :=
  (pairwise_rest h).sublist (List.take_sublist _ _)

theorem mem_of_mem_page (h : x ∈ page f size xs after) : x ∈ xs ∧ beyond after (f x) :=
  mem_rest.mp (List.mem_of_mem_take h)

/-- The keys of a page are at most the one that it ends in. -/
theorem le_getLast (h : (xs.map f).Nodup) (hc : (page f size xs after).getLast?.map f = some c)
    (hx : x ∈ page f size xs after) : f x ≤ c := by
  obtain ⟨y, hlast, rfl⟩ := Option.map_eq_some_iff.mp hc
  obtain ⟨front, heq⟩ := List.getLast?_eq_some_iff.mp hlast
  have hpairs : (page f size xs after).Pairwise fun x y => f x < f y := pairwise_page h
  rw [heq] at hpairs hx
  rcases List.mem_append.mp hx with hx | hx
  · exact le_of_lt ((List.pairwise_append.mp hpairs).2.2 x hx y List.mem_cons_self)
  · rw [List.mem_singleton.mp hx]

variable (size) in
/-- **What a page leaves out is behind the key that it ends in**, and the page is full. -/
theorem mem_page_or (h : (xs.map f).Nodup) (hx : x ∈ xs) (hb : beyond after (f x)) :
    x ∈ page f size xs after ∨ size ≤ (page f size xs after).length ∧
      ∀ y ∈ page f size xs after, f y < f x := by
  have hmem : x ∈ rest f xs after := mem_rest.mpr ⟨hx, hb⟩
  have hpairs : (rest f xs after).Pairwise fun x y => f x < f y := pairwise_rest h
  rw [← List.take_append_drop size (rest f xs after)] at hmem hpairs
  refine (List.mem_append.mp hmem).imp_right fun hdrop => ⟨?_, fun y hy => ?_⟩
  · have hpos := List.length_pos_of_mem hdrop
    rw [List.length_drop] at hpos
    rw [page, List.length_take]
    omega
  · exact (List.pairwise_append.mp hpairs).2.2 y hy x hdrop

/-! ## The run -/

section Run

variable {stop : List α → Bool} {tables : ℕ → List α} {start : Option κ} {n m : ℕ}

theorem run_succ_of_done (h : (run f size stop tables start n).done = true) :
    run f size stop tables start (n + 1) = run f size stop tables start n := by
  rw [run, State.next, if_pos h]

theorem run_succ (h : (run f size stop tables start n).done = false) :
    run f size stop tables start (n + 1) =
      { after := ((page f size (tables n) (run f size stop tables start n).after).getLast?.map f).or
          (run f size stop tables start n).after
        yielded := (run f size stop tables start n).yielded ++
          page f size (tables n) (run f size stop tables start n).after
        done := stop (page f size (tables n) (run f size stop tables start n).after) } := by
  rw [run, State.next, if_neg (by rw [h]; decide)]

/-- What has been yielded is in strictly ascending order, and not behind the cursor. -/
structure Ascending (f : α → κ) (s : State α κ) : Prop where
  pairwise : s.yielded.Pairwise fun x y => f x < f y
  le : ∀ x ∈ s.yielded, beyond s.after (f x) = false

/-- A cursor that is moved on to a key behind it. -/
theorem beyond_trans (hc : beyond after c = true) (hk : beyond (some c) k = true) :
    beyond after k = true := by
  cases after with
  | none => rfl
  | some a => exact decide_eq_true (lt_trans (of_decide_eq_true hc) (of_decide_eq_true hk))

theorem lt_of_beyond (hc : beyond after c = false) (hk : beyond after k = true) : c < k := by
  cases after with
  | none => cases hc
  | some a =>
    exact lt_of_le_of_lt (not_lt.mp (of_decide_eq_false hc)) (of_decide_eq_true hk)

variable (f size xs after) in
/-- The cursor behind a page. -/
theorem after_cases : ((page f size xs after).getLast?.map f).or after = after ∧
      page f size xs after = [] ∨
    ∃ c, ((page f size xs after).getLast?.map f).or after = some c ∧
      (page f size xs after).getLast?.map f = some c ∧ beyond after c = true := by
  cases hlast : (page f size xs after).getLast? with
  | none => exact .inl ⟨rfl, List.getLast?_eq_none_iff.mp hlast⟩
  | some y => exact .inr ⟨f y, rfl, rfl, (mem_of_mem_page (List.mem_of_getLast? hlast)).2⟩

theorem Ascending.next {s : State α κ} (h : Ascending f s) (hkeys : (xs.map f).Nodup) :
    Ascending f (s.next f size stop xs) := by
  unfold State.next
  split_ifs
  · exact h
  refine ⟨List.pairwise_append.mpr ⟨h.pairwise, pairwise_page hkeys, fun x hx y hy => ?_⟩,
    fun x hx => ?_⟩
  · exact lt_of_beyond (h.le x hx) (mem_of_mem_page hy).2
  · rcases after_cases f size xs s.after with
      ⟨hafter, hnil⟩ | ⟨c, hafter, hlast, hc⟩
    · have hold : x ∈ s.yielded := by
        have hall : x ∈ s.yielded ++ page f size xs s.after := hx
        rwa [hnil, List.append_nil] at hall
      simp only [hafter]
      exact h.le x hold
    · simp only [hafter]
      refine decide_eq_false (not_lt.mpr ?_)
      rcases List.mem_append.mp hx with hx | hx
      · exact le_of_lt (lt_of_beyond (h.le x hx) hc)
      · exact le_getLast hkeys hlast hx

/-- **The keys that a scroll yields are strictly ascending.** -/
theorem ascending_run (hkeys : ∀ n, ((tables n).map f).Nodup) :
    Ascending f (run f size stop tables start n) := by
  induction n with
  | zero => exact ⟨List.Pairwise.nil, fun x hx => absurd hx List.not_mem_nil⟩
  | succ n ih => exact ih.next (hkeys n)

/-- What has been yielded, a scroll never takes back. -/
theorem yielded_subset_next {s : State α κ} : s.yielded ⊆ (s.next f size stop xs).yielded := by
  unfold State.next
  split_ifs
  · exact List.Subset.refl _
  · exact List.subset_append_left _ _

theorem yielded_subset_run (hm : n ≤ m) :
    (run f size stop tables start n).yielded ⊆ (run f size stop tables start m).yielded := by
  induction m, hm using Nat.le_induction with
  | base => exact List.Subset.refl _
  | succ m _ ih => exact List.Subset.trans ih yielded_subset_next

/-- The key has been yielded, or is still in front of the scroll. -/
def Held (f : α → κ) (k : κ) (s : State α κ) : Prop :=
  k ∈ s.yielded.map f ∨ s.done = false ∧ beyond s.after k = true

theorem Held.next {s : State α κ} (hr : StopRule size stop) (hkeys : (xs.map f).Nodup)
    (hk : s.done = false → k ∈ xs.map f) (h : Held f k s) : Held f k (s.next f size stop xs) := by
  rcases h with h | ⟨hdone, hb⟩
  · obtain ⟨x, hx, rfl⟩ := List.mem_map.mp h
    exact .inl (List.mem_map_of_mem (yielded_subset_next hx))
  obtain ⟨x, hx, rfl⟩ := List.mem_map.mp (hk hdone)
  unfold State.next
  rw [if_neg (by rw [hdone]; decide)]
  rcases mem_page_or size hkeys hx hb with hpage | ⟨hfull, hlt⟩
  · exact .inl (List.mem_map_of_mem (List.mem_append_right _ hpage))
  · refine .inr ⟨Bool.eq_false_iff.mpr fun hstop => ?_, ?_⟩
    · exact absurd (hr.short _ hstop) (Nat.not_lt.mpr hfull)
    · rcases after_cases f size xs s.after with
        ⟨hafter, -⟩ | ⟨c, hafter, hlast, -⟩
      · simp only [hafter]
        exact hb
      · obtain ⟨y, hy, rfl⟩ := Option.map_eq_some_iff.mp hlast
        simp only [hafter]
        exact decide_eq_true (hlt y (List.mem_of_getLast? hy))

/-- **A key that every table has is yielded**, or is still in front of the scroll. -/
theorem held_run (hr : StopRule size stop) (hkeys : ∀ n, ((tables n).map f).Nodup)
    (hstart : beyond start k = true)
    (hk : ∀ n, (run f size stop tables start n).done = false → k ∈ (tables n).map f) :
    Held f k (run f size stop tables start n) := by
  induction n with
  | zero => exact .inr ⟨rfl, hstart⟩
  | succ n ih => exact ih.next hr (hkeys n) (hk n)

/-- The keys of a set that a cursor has in front of it. -/
def ahead (S : Finset κ) (after : Option κ) : Finset κ := S.filter fun k => beyond after k

theorem card_ahead_lt {S : Finset κ} (hc : c ∈ S) (hb : beyond after c = true) :
    (ahead S (some c)).card < (ahead S after).card := by
  refine Finset.card_lt_card (Finset.ssubset_iff_of_subset (fun k hk => ?_) |>.mpr ⟨c, ?_, ?_⟩)
  · obtain ⟨hk, hck⟩ := Finset.mem_filter.mp hk
    exact Finset.mem_filter.mpr ⟨hk, beyond_trans hb hck⟩
  · exact Finset.mem_filter.mpr ⟨hc, hb⟩
  · exact fun hmem => absurd (of_decide_eq_true (Finset.mem_filter.mp hmem).2) (lt_irrefl c)

/-- A query that does not end the scroll moves its cursor on. -/
theorem after_run_succ (hr : StopRule size stop)
    (h : (run f size stop tables start (n + 1)).done = false) :
    ∃ c, (run f size stop tables start (n + 1)).after = some c ∧
      beyond (run f size stop tables start n).after c = true := by
  have hn : (run f size stop tables start n).done = false := by
    rw [Bool.eq_false_iff]
    intro hdone
    rw [run_succ_of_done hdone, hdone] at h
    cases h
  rw [run_succ hn] at h ⊢
  rcases after_cases f size (tables n) (run f size stop tables start n).after with
    ⟨-, hnil⟩ | ⟨c, hafter, -, hb⟩
  · rw [hnil, hr.nil] at h
    cases h
  · exact ⟨c, hafter, hb⟩

variable (f tables start) in
/-- **A scroll ends, or its cursor leaves a finite set of keys.** -/
theorem exists_done_or_leaves (hr : StopRule size stop) (S : Finset κ) :
    ∃ n, (run f size stop tables start n).done = true ∨
      ∃ c, (run f size stop tables start n).after = some c ∧ c ∉ S := by
  by_contra hnot
  push Not at hnot
  -- then every query takes a key of the set from in front of the cursor
  have hcard (n : ℕ) : (ahead S (run f size stop tables start n).after).card + n ≤
      (ahead S start).card := by
    induction n with
    | zero => exact Nat.le_refl _
    | succ n ih =>
      obtain ⟨c, hafter, hb⟩ := after_run_succ hr (Bool.eq_false_iff.mpr (hnot (n + 1)).1)
      have hless := card_ahead_lt ((hnot (n + 1)).2 c hafter) hb
      rw [hafter]
      omega
  have := hcard ((ahead S start).card + 1)
  omega

/-- A cursor is behind the start. -/
theorem beyond_start (h : beyond (run f size stop tables start n).after k = true) :
    beyond start k = true := by
  induction n with
  | zero => exact h
  | succ n ih =>
    by_cases hdone : (run f size stop tables start n).done = true
    · exact ih (run_succ_of_done hdone ▸ h)
    · rw [run_succ (Bool.eq_false_iff.mpr hdone)] at h
      rcases after_cases f size (tables n) (run f size stop tables start n).after with
        ⟨hafter, -⟩ | ⟨c, hafter, -, hb⟩
      · rw [hafter] at h
        exact ih h
      · rw [hafter] at h
        exact ih (beyond_trans hb h)

variable (start) in
/-- A scroll ends when its tables have keys of a finite set only, behind its start. -/
theorem exists_done (hr : StopRule size stop) (S : Finset κ)
    (hS : ∀ n, ∀ x ∈ tables n, beyond start (f x) = true → f x ∈ S) :
    ∃ n, (run f size stop tables start n).done = true := by
  obtain ⟨n, h | ⟨c, hafter, hc⟩⟩ := exists_done_or_leaves f tables start hr (S ∪ start.toFinset)
  · exact ⟨n, h⟩
  · refine absurd ?_ hc
    have hmem (n : ℕ) : ∀ c ∈ (run f size stop tables start n).after, c ∈ S ∪ start.toFinset := by
      induction n with
      | zero => exact fun c hc => Finset.mem_union_right _ (Option.mem_toFinset.mpr hc)
      | succ n ih =>
        intro c hc
        by_cases hdone : (run f size stop tables start n).done = true
        · rw [run_succ_of_done hdone] at hc
          exact ih c hc
        · rw [run_succ (Bool.eq_false_iff.mpr hdone)] at hc
          rcases Option.or_eq_some_iff.mp hc with hlast | ⟨-, hold⟩
          · obtain ⟨y, hy, rfl⟩ := Option.map_eq_some_iff.mp hlast
            obtain ⟨hmem, hb⟩ := mem_of_mem_page (List.mem_of_getLast? hy)
            exact Finset.mem_union_left _ (hS n y hmem (beyond_start hb))
          · exact ih c hold
    exact hmem n c hafter

/-- **A key that every table has is yielded**, when only finitely many keys are in front of it. -/
theorem exists_mem_run [LocallyFiniteOrderBot κ] (hr : StopRule size stop)
    (hkeys : ∀ n, ((tables n).map f).Nodup) (hstart : beyond start k = true)
    (hk : ∀ n, (run f size stop tables start n).done = false → k ∈ (tables n).map f) :
    ∃ n, k ∈ (run f size stop tables start n).yielded.map f := by
  obtain ⟨n, h⟩ := exists_done_or_leaves f tables start hr (Finset.Iic k)
  refine ⟨n, (held_run (n := n) hr hkeys hstart hk).resolve_right fun ⟨hdone, hb⟩ => ?_⟩
  rcases h with h | ⟨c, hafter, hc⟩
  · rw [hdone] at h
    cases h
  · rw [hafter] at hb
    exact hc (Finset.mem_Iic.mpr (le_of_lt (of_decide_eq_true hb)))

/-- What has been yielded, a query has read behind the start. -/
theorem mem_tables (hx : x ∈ (run f size stop tables start n).yielded) :
    (∃ m, x ∈ tables m) ∧ beyond start (f x) = true := by
  induction n with
  | zero => exact absurd hx List.not_mem_nil
  | succ n ih =>
    by_cases hdone : (run f size stop tables start n).done = true
    · exact ih (run_succ_of_done hdone ▸ hx)
    · rw [run_succ (Bool.eq_false_iff.mpr hdone)] at hx
      rcases List.mem_append.mp hx with hx | hx
      · exact ih hx
      · obtain ⟨hmem, hb⟩ := mem_of_mem_page hx
        exact ⟨⟨n, hmem⟩, beyond_start hb⟩

/-- Two lists in strictly ascending order with the same elements are equal. -/
theorem eq_of_ascending {ys zs : List α} (hy : ys.Pairwise fun x y => f x < f y)
    (hz : zs.Pairwise fun x y => f x < f y) (h : ∀ x, x ∈ ys ↔ x ∈ zs) : ys = zs := by
  have hnodup {ls : List α} (hl : ls.Pairwise fun x y => f x < f y) : ls.Nodup :=
    hl.imp fun {x y} hlt (he : x = y) => absurd hlt (he ▸ lt_irrefl (f x))
  refine List.Perm.eq_of_pairwise (fun x y _ _ hxy hyx => ?_) hy hz
    ((List.perm_ext_iff_of_nodup (hnodup hy) (hnodup hz)).mpr h)
  exact absurd (lt_trans hxy hyx) (lt_irrefl _)

variable (start) in
/-- **A scroll over a table that stays the same yields the rows behind its start**, in ascending
order. -/
theorem yields_const (hr : StopRule size stop) (hkeys : (xs.map f).Nodup) :
    ∃ n, (run f size stop (fun _ => xs) start n).done = true ∧
      (run f size stop (fun _ => xs) start n).yielded = rest f xs start := by
  obtain ⟨n, hdone⟩ := exists_done start hr (xs.map f).toFinset fun _ x hx _ =>
    List.mem_toFinset.mpr (List.mem_map_of_mem hx)
  refine ⟨n, hdone, eq_of_ascending (f := f) (ascending_run fun _ => hkeys).pairwise
    (pairwise_rest hkeys) fun x => ⟨fun hx => ?_, fun hx => ?_⟩⟩
  · obtain ⟨⟨_, hmem⟩, hb⟩ := mem_tables hx
    exact mem_rest.mpr ⟨hmem, hb⟩
  · obtain ⟨hmem, hb⟩ := mem_rest.mp hx
    have hheld : Held f (f x) (run f size stop (fun _ => xs) start n) :=
      held_run hr (fun _ => hkeys) hb fun _ _ => List.mem_map_of_mem hmem
    rcases hheld with hy | ⟨hnot, -⟩
    · obtain ⟨y, hy, heq⟩ := List.mem_map.mp hy
      obtain ⟨⟨_, hy'⟩, -⟩ := mem_tables hy
      rwa [← List.inj_on_of_nodup_map hkeys hy' hmem heq]
    · rw [hdone] at hnot
      cases hnot

end Run

end Scroll
