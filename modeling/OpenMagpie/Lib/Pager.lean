import Mathlib.Data.List.Sort
import OpenMagpie.Lib.Newest

/-!
# Keyset paging with a strict cursor

A drain reads the elements of a list in descending order of a key, a page of `size` elements for each
request. A full page ends in a cursor, and the next request reads behind it; a page that is not full is
the last one. What a request selects may change from one to the next.

* `page`, `cursor`: the answer to a request, and the cursor of the next one.
* `Drains f size xs p k after pages`: the requests from the `k`-th on are answered by `pages`.
* `turn`: the request that reads a key, by the cursors in front of it.
* **`Drains.mem_iff`**: an element is shown when the request that reads its key selects it.
* **`Drains.pairwise`**: the keys that are shown are strictly descending.
* **`exists_drains`**: requests that select few enough elements drain the list in `n` pages.
-/

set_option autoImplicit false

namespace Pager

open Newest

variable {α κ : Type*} [LinearOrder κ] (f : α → κ) (size : ℕ)

/-- The cursor is in front of the element. -/
def behind (after : Option κ) (x : α) : Bool := after.all fun c => decide (f x < c)

/-- What a request selects, in descending order. -/
def selection (xs : List α) (p : α → Bool) (after : Option κ) : List α :=
  (xs.filter fun x => p x && behind f after x).insertionSort fun x y => f y ≤ f x

/-- The page of a request. -/
def page (xs : List α) (p : α → Bool) (after : Option κ) : List α := (selection f xs p after).take size

/-- The cursor that a page ends in. -/
def cursor (xs : List α) : Option κ := if xs.length = size then xs.getLast?.map f else none

/-- The requests from the `k`-th on are answered by these pages. -/
inductive Drains (xs : List α) (p : ℕ → α → Bool) : ℕ → Option κ → List (List α) → Prop
  | last {k after} : cursor f size (page f size xs (p k) after) = none →
      Drains xs p k after [page f size xs (p k) after]
  | more {k after c rest} : cursor f size (page f size xs (p k) after) = some c →
      Drains xs p (k + 1) (some c) rest → Drains xs p k after (page f size xs (p k) after :: rest)

/-- The request that reads a key: as many cursors are in front of it. -/
def turn (cursors : List κ) (i : κ) : ℕ := cursors.countP fun c => decide (i < c)

variable {f size} {xs ys : List α} {p : α → Bool} {after : Option κ} {c : κ} {x y : α}

/-! ## One page -/

theorem mem_selection : x ∈ selection f xs p after ↔ x ∈ xs ∧ p x ∧ behind f after x := by
  rw [selection, List.mem_insertionSort, List.mem_filter, Bool.and_eq_true]

variable (p after) in
/-- The keys of a selection are strictly descending. -/
theorem pairwise_selection (h : (xs.map f).Nodup) :
    (selection f xs p after).Pairwise fun x y => f y < f x := by
  have hkeys : ((selection f xs p after).map f).Nodup :=
    ((List.perm_insertionSort _ _).map f).nodup_iff.mpr (h.sublist (List.filter_sublist.map f))
  have hsorted : (selection f xs p after).Pairwise fun x y => f y ≤ f x :=
    List.pairwise_insertionSort _ _
  exact (hsorted.and (List.pairwise_map.mp hkeys)).imp fun hxy => lt_of_le_of_ne hxy.1 (Ne.symm hxy.2)

theorem pairwise_page (h : (xs.map f).Nodup) :
    (page f size xs p after).Pairwise fun x y => f y < f x :=
  (pairwise_selection _ _ h).sublist (List.take_sublist _ _)

omit [LinearOrder κ] in
theorem cursor_eq_some (h : cursor f size ys = some c) :
    ys.length = size ∧ ∃ x, ys.getLast? = some x ∧ f x = c := by
  unfold cursor at h
  split_ifs at h with hlen
  · exact ⟨hlen, Option.map_eq_some_iff.mp h⟩

/-- The last element of a descending list is the least one. -/
theorem le_of_getLast? (h : ys.Pairwise fun x y => f y < f x) (hx : ys.getLast? = some x)
    (hy : y ∈ ys) : f x ≤ f y := by
  obtain ⟨front, rfl⟩ := List.getLast?_eq_some_iff.mp hx
  rcases List.mem_append.mp hy with hy | hy
  · exact le_of_lt ((List.pairwise_append.mp h).2.2 y hy x List.mem_cons_self)
  · rw [List.mem_singleton.mp hy]

/-- **A page shows what its request selects, down to the cursor that it ends in.** -/
theorem mem_page (hs : 0 < size) (h : (xs.map f).Nodup) : x ∈ page f size xs p after ↔
    (x ∈ xs ∧ p x ∧ behind f after x) ∧ ∀ c ∈ cursor f size (page f size xs p after), c ≤ f x := by
  have hpairs : (page f size xs p after).Pairwise fun x y => f y < f x := pairwise_page h
  rw [← mem_selection]
  constructor
  · intro hx
    refine ⟨List.mem_of_mem_take hx, fun c hc => ?_⟩
    obtain ⟨-, y, hlast, rfl⟩ := cursor_eq_some hc
    exact le_of_getLast? hpairs hlast hx
  · rintro ⟨hx, hcursor⟩
    by_contra hnot
    have hdrop : x ∈ (selection f xs p after).drop size := by
      rw [← List.take_append_drop size (selection f xs p after)] at hx
      exact (List.mem_append.mp hx).resolve_left hnot
    -- something is left behind the page, so it is full and ends in a cursor
    have hfull : (page f size xs p after).length = size := by
      have hpos := List.length_pos_of_mem hdrop
      rw [List.length_drop] at hpos
      rw [page, List.length_take]
      omega
    have hne : page f size xs p after ≠ [] := fun he => by rw [he] at hfull; simp at hfull; omega
    have hlast := List.getLast?_eq_some_getLast hne
    have hc : cursor f size (page f size xs p after) = some (f ((page f size xs p after).getLast hne)) := by
      rw [cursor, if_pos hfull, hlast]
      rfl
    have hsorted := pairwise_selection p after h
    rw [← List.take_append_drop size (selection f xs p after)] at hsorted
    have hlt := (List.pairwise_append.mp hsorted).2.2 _ (List.getLast_mem hne) x hdrop
    exact absurd (hcursor _ hc) (not_le.mpr hlt)

/-- A page that ends in a cursor ends behind the cursor before. -/
theorem behind_of_cursor (hc : cursor f size (page f size xs p after) = some c) (hx : f x < c) :
    behind f after x := by
  obtain ⟨-, y, hlast, rfl⟩ := cursor_eq_some hc
  have hy : behind f after y :=
    (mem_selection.mp (List.mem_of_mem_take (List.mem_of_getLast? hlast))).2.2
  unfold behind at hy ⊢
  cases after with
  | none => rfl
  | some a => exact decide_eq_true (lt_trans hx (of_decide_eq_true hy))

/-! ## A drain -/

section Drain

variable {p : ℕ → α → Bool} {pages : List (List α)} {k n : ℕ}

theorem behind_of_drains (h : Drains f size xs p k after pages) :
    ∀ page ∈ pages, ∀ x ∈ page, behind f after x := by
  induction h with
  | last _ =>
    intro page hpage x hx
    rw [List.mem_singleton.mp hpage] at hx
    exact (mem_selection.mp (List.mem_of_mem_take hx)).2.2
  | more hc _ ih =>
    intro page hpage x hx
    rcases List.mem_cons.mp hpage with rfl | hpage
    · exact (mem_selection.mp (List.mem_of_mem_take hx)).2.2
    · exact behind_of_cursor hc (of_decide_eq_true (ih page hpage x hx))

/-- The cursors of a drain are behind its first one. -/
theorem lt_of_mem_cursors (h : Drains f size xs p k (some c) pages) :
    ∀ b ∈ pages.filterMap (cursor f size), b < c := by
  intro b hb
  obtain ⟨page, hpage, hcursor⟩ := List.mem_filterMap.mp hb
  obtain ⟨-, x, hlast, rfl⟩ := cursor_eq_some hcursor
  exact of_decide_eq_true (behind_of_drains h page hpage x (List.mem_of_getLast? hlast))

/-- A key that no cursor is in front of is read by the first request. -/
theorem turn_eq_zero {cursors : List κ} {i : κ} (h : ∀ b ∈ cursors, b ≤ i) : turn cursors i = 0 :=
  List.countP_eq_zero.mpr fun b hb hlt => absurd (of_decide_eq_true hlt) (not_lt.mpr (h b hb))

/-- **An element is shown when the request that reads its key selects it.** -/
theorem Drains.mem_iff (hs : 0 < size) (hkeys : (xs.map f).Nodup)
    (h : Drains f size xs p k after pages) : x ∈ pages.flatten ↔
      x ∈ xs ∧ behind f after x ∧ p (k + turn (pages.filterMap (cursor f size)) (f x)) x := by
  induction h with
  | @last k after hc =>
    have hpage : x ∈ page f size xs (p k) after ↔ _ := mem_page hs hkeys
    rw [hc] at hpage
    simp only [List.flatten_cons, List.flatten_nil, List.append_nil, List.filterMap_cons, hc,
      List.filterMap_nil, turn, List.countP_nil, Nat.add_zero, hpage]
    tauto
  | @more k after c rest hc hrest ih =>
    have hpage : x ∈ page f size xs (p k) after ↔ _ := mem_page hs hkeys
    simp only [hc, Option.mem_some_iff, forall_eq'] at hpage
    rw [List.flatten_cons, List.mem_append, hpage, ih, List.filterMap_cons_some hc]
    rcases lt_or_ge (f x) c with hlt | hge
    · -- the cursor is in front of the key: a later request reads it
      have hturn : turn (c :: rest.filterMap (cursor f size)) (f x) =
          turn (rest.filterMap (cursor f size)) (f x) + 1 :=
        List.countP_cons_of_pos (decide_eq_true hlt)
      have hb : behind f after x := behind_of_cursor hc hlt
      have hb' : behind f (some c) x := decide_eq_true hlt
      rw [hturn, Nat.add_right_comm k 1, Nat.add_assoc k]
      simp only [hb, hb', not_le.mpr hlt, and_false, false_or, true_and]
    · have hturn : turn (c :: rest.filterMap (cursor f size)) (f x) = 0 :=
        turn_eq_zero (List.forall_mem_cons.mpr
          ⟨hge, fun b hb => le_trans (le_of_lt (lt_of_mem_cursors hrest b hb)) hge⟩)
      have hb' : behind f (some c) x = false := decide_eq_false (not_lt.mpr hge)
      rw [hturn, Nat.add_zero]
      simp only [hb', hge, and_true, Bool.false_eq_true, false_and, and_false, or_false]
      exact and_congr_right fun _ => and_comm

/-- **The keys that a drain shows are strictly descending.** -/
theorem Drains.pairwise (hkeys : (xs.map f).Nodup) (h : Drains f size xs p k after pages) :
    pages.flatten.Pairwise fun x y => f y < f x := by
  induction h with
  | last _ =>
    rw [List.flatten_singleton]
    exact pairwise_page hkeys
  | @more k after c rest hc hrest ih =>
    rw [List.flatten_cons, List.pairwise_append]
    refine ⟨pairwise_page hkeys, ih, fun x hx y hy => ?_⟩
    obtain ⟨page, hpage, hy⟩ := List.mem_flatten.mp hy
    obtain ⟨-, z, hlast, rfl⟩ := cursor_eq_some hc
    exact lt_of_lt_of_le (of_decide_eq_true (behind_of_drains hrest page hpage y hy))
      (le_of_getLast? (pairwise_page hkeys) hlast hx)

variable {q : α → Bool}

/-- A full page leaves that much less behind its cursor. -/
theorem length_behind_cursor (hkeys : (xs.map f).Nodup) (hq : ∀ x ∈ xs, p k x → q x)
    (hc : cursor f size (page f size xs (p k) after) = some c) :
    ((xs.filter q).filter (behind f (some c))).length + size ≤
      ((xs.filter q).filter (behind f after)).length := by
  obtain ⟨hlen, z, hlast, hz⟩ := cursor_eq_some hc
  have hpairs : (page f size xs (p k) after).Pairwise fun x y => f y < f x := pairwise_page hkeys
  have hnodup : (page f size xs (p k) after).Nodup :=
    hpairs.imp fun {x y} hlt (he : x = y) => absurd hlt (he ▸ lt_irrefl (f x))
  have hfront : page f size xs (p k) after ⊆
      ((xs.filter q).filter (behind f after)).filter fun x => decide (c ≤ f x) := by
    intro x hx
    obtain ⟨hmem, hp, hb⟩ := mem_selection.mp (List.mem_of_mem_take hx)
    exact List.mem_filter.mpr ⟨List.mem_filter.mpr ⟨List.mem_filter.mpr ⟨hmem, hq x hmem hp⟩, hb⟩,
      decide_eq_true (hz ▸ le_of_getLast? hpairs hlast hx)⟩
  have hback : ∀ zs : List α, zs.filter (behind f (some c)) =
      (zs.filter (behind f after)).filter fun x => !decide (c ≤ f x) := by
    intro zs
    rw [List.filter_filter]
    refine List.filter_congr fun x _ => Bool.eq_iff_iff.mpr ?_
    rw [Bool.and_eq_true, Bool.not_eq_true', decide_eq_false_iff_not, not_le]
    exact ⟨fun h => ⟨of_decide_eq_true h, behind_of_cursor hc (of_decide_eq_true h)⟩,
      fun h => decide_eq_true h.1⟩
  have hsub := (List.subperm_of_subset hnodup hfront).length_le
  have hsplit := List.length_eq_length_filter_add (l := (xs.filter q).filter (behind f after))
    fun x => decide (c ≤ f x)
  rw [hback]
  omega

/-- **Requests that select few enough elements drain the list in `n` pages.** -/
theorem exists_drains (hkeys : (xs.map f).Nodup) (hq : ∀ k, ∀ x ∈ xs, p k x → q x)
    (hlen : ((xs.filter q).filter (behind f after)).length < size * n) :
    ∃ pages, Drains f size xs p k after pages ∧ pages.length ≤ n := by
  induction n generalizing k after with
  | zero => omega
  | succ n ih =>
    cases hc : cursor f size (page f size xs (p k) after) with
    | none => exact ⟨_, .last hc, by simp⟩
    | some c =>
      have hless := length_behind_cursor hkeys (hq k) hc
      rw [Nat.mul_succ] at hlen
      have hrec : ((xs.filter q).filter (behind f (some c))).length < size * n := by omega
      obtain ⟨rest, hrest, hn⟩ := ih (k := k + 1) hrec
      exact ⟨_, .more hc hrest, by simpa using hn⟩

end Drain

end Pager
