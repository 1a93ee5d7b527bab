import Mathlib.Data.Int.Order.Basic
import OpenMagpie.Lib.Newest

/-!
# Keyset paging with an inclusive cursor

A walk reads a newest-first list in pages of `size` elements. The cursor of the next page is the
oldest value of the page before, inclusive: the elements of that value are read again. A page that is
not full is the last one.

* `walk f size n xs`: what `n` pages show.
* `Fits f size n xs`: the list fits into `n` such pages.
* **`walk_covers_iff`**: `n` pages show the whole list exactly when it fits.
* **`mem_walk_append_left`**, **`exists_mem_walk_append_iff`**: of a list with older elements behind, the
  pages show what they show of it alone, and an older element when one more fits.
* **`fits_iff_of_strict`**: a list without ties fits when it has at most `1 + n * (size - 1)` elements.
-/

set_option autoImplicit false

namespace Keyset

open Newest

variable {α : Type*} (f : α → ℤ) (size : ℕ)

/-- The oldest value of the first page. -/
def boundary (xs : List α) : Option ℤ := ((xs.take size).map f).min?

/-- The elements that a cursor lets in. -/
def upTo (b : ℤ) (xs : List α) : List α := xs.filter fun x => decide (f x ≤ b)

/-- What `n` pages show. -/
def walk : ℕ → List α → List α
  | 0, _ => []
  | n + 1, xs => xs.take size ++
    if xs.length < size then [] else match boundary f size xs with
      | none => []
      | some b => walk n (upTo f b xs)

/-- The list fits into `n` pages, each of which starts with the elements of the last value of the
page before. -/
def Fits : ℕ → List α → Prop
  | 0, xs => xs = []
  | n + 1, xs => xs.length ≤ size ∨ ∃ b, boundary f size xs = some b ∧ Fits n (upTo f b xs)

variable {f size} {xs : List α} {n : ℕ} {b : ℤ}

theorem mem_of_mem_walk {x : α} (hx : x ∈ walk f size n xs) : x ∈ xs := by
  induction n generalizing xs with
  | zero => exact absurd hx List.not_mem_nil
  | succ n ih =>
    rw [walk] at hx
    rcases List.mem_append.mp hx with hx | hx
    · exact List.mem_of_mem_take hx
    · split at hx
      · exact absurd hx List.not_mem_nil
      · split at hx
        · exact absurd hx List.not_mem_nil
        · exact (List.mem_filter.mp (ih hx)).1

theorem newest_upTo (h : Newest f xs) : Newest f (upTo f b xs) := h.sublist List.filter_sublist

/-- The cursor after a page is one of its values. -/
theorem exists_boundary (h : xs ≠ []) (hs : 0 < size) : ∃ b, boundary f size xs = some b := by
  refine Option.ne_none_iff_exists'.mp fun hnone => ?_
  have htake := List.map_eq_nil_iff.mp (List.min?_eq_none_iff.mp hnone)
  rcases List.take_eq_nil_iff.mp htake with hsize | hnil
  · omega
  · exact h hnil

/-- Behind the first page nothing is newer than its oldest element. -/
theorem mem_upTo_of_not_mem_take (h : Newest f xs) (hb : boundary f size xs = some b) {x : α}
    (hx : x ∈ xs) (hpage : x ∉ xs.take size) : x ∈ upTo f b xs := by
  obtain ⟨y, hy, rfl⟩ := List.mem_map.mp (List.min?_mem hb)
  refine List.mem_filter.mpr ⟨hx, decide_eq_true ?_⟩
  rw [← List.take_append_drop size xs] at h hx
  exact (List.pairwise_append.mp h).2.2 y hy x ((List.mem_append.mp hx).resolve_left hpage)

/-- What the first page shows of the next one, that one starts with. -/
theorem mem_take_upTo {x : α} (hx : x ∈ xs.take size) (hxb : f x ≤ b) :
    x ∈ (upTo f b xs).take size := by
  have hsplit : upTo f b xs = upTo f b (xs.take size) ++ upTo f b (xs.drop size) := by
    rw [upTo, upTo, upTo, ← List.filter_append, List.take_append_drop]
  have hlen : (upTo f b (xs.take size)).length ≤ size :=
    Nat.le_trans (List.length_filter_le _ _) (List.length_take_le _ _)
  rw [hsplit, List.take_append, List.take_of_length_le hlen]
  exact List.mem_append_left _ (List.mem_filter.mpr ⟨hx, decide_eq_true hxb⟩)

/-- **One page and the rest.** A list that is longer than a page is shown when the rest from the
boundary on is. -/
theorem covers_succ (h : Newest f xs) (hn : xs.Nodup) (hlen : size < xs.length)
    (hb : boundary f size xs = some b) :
    (∀ x ∈ xs, x ∈ walk f size (n + 1) xs) ↔ ∀ x ∈ upTo f b xs, x ∈ walk f size n (upTo f b xs) := by
  have hwalk : walk f size (n + 1) xs = xs.take size ++ walk f size n (upTo f b xs) := by
    rw [walk, if_neg (by omega), hb]
  rw [hwalk]
  constructor
  · intro hall x hx
    obtain ⟨hmem, hxb⟩ := List.mem_filter.mp hx
    rcases List.mem_append.mp (hall x hmem) with hpage | hrest
    · cases n with
      | zero =>
        -- the element behind the only page is not shown
        have hlast := hall xs[size] (List.getElem_mem hlen)
        rw [walk, List.append_nil] at hlast
        have hdrop : xs[size] ∈ xs.drop size := by
          rw [← List.getElem_cons_drop hlen]
          exact List.mem_cons_self
        rw [← List.take_append_drop size xs] at hn
        exact absurd rfl ((List.nodup_append.mp hn).2.2 _ hlast _ hdrop)
      | succ n => exact List.mem_append_left _ (mem_take_upTo hpage (of_decide_eq_true hxb))
    · exact hrest
  · intro hall x hx
    by_cases hpage : x ∈ xs.take size
    · exact List.mem_append_left _ hpage
    · exact List.mem_append_right _ (hall x (mem_upTo_of_not_mem_take h hb hx hpage))

/-- **The pages show the whole list exactly when it fits.** -/
theorem walk_covers_iff (hs : 0 < size) (h : Newest f xs) (hn : xs.Nodup) :
    (∀ x ∈ xs, x ∈ walk f size n xs) ↔ Fits f size n xs := by
  induction n generalizing xs with
  | zero =>
    rw [Fits, walk]
    exact ⟨fun hall => List.eq_nil_iff_forall_not_mem.mpr fun x hx =>
      absurd (hall x hx) List.not_mem_nil, fun hnil x hx => absurd (hnil ▸ hx) List.not_mem_nil⟩
  | succ n ih =>
    rw [Fits]
    by_cases hlen : xs.length ≤ size
    · refine iff_of_true (fun x hx => ?_) (.inl hlen)
      rw [walk, List.take_of_length_le hlen]
      exact List.mem_append_left _ hx
    · have hne : xs ≠ [] := fun hnil => hlen (by simp [hnil])
      obtain ⟨b, hb⟩ := exists_boundary (f := f) hne hs
      rw [covers_succ h hn (by omega) hb, ih (newest_upTo h) (hn.filter _)]
      exact ⟨fun hfits => .inr ⟨b, hb, hfits⟩, fun hfits => by
        obtain ⟨b', hb', hfits⟩ := hfits.resolve_left hlen
        exact Option.some.inj (hb.symm.trans hb') ▸ hfits⟩

/-! ## Older elements behind a list -/

section Append

variable {as rs : List α}

theorem upTo_append : upTo f b (as ++ rs) = upTo f b as ++ upTo f b rs := List.filter_append ..

/-- The first page of a list that fills it is its own, whatever stands behind. -/
theorem boundary_append (hlen : size ≤ as.length) :
    boundary f size (as ++ rs) = boundary f size as := by
  rw [boundary, boundary, List.take_append_of_le_length hlen]

/-- The cursor after a page of newer elements lets all older ones in. -/
theorem upTo_boundary_append (hb : boundary f size as = some b) (hlt : ∀ x ∈ as, ∀ y ∈ rs, f y < f x) :
    upTo f b (as ++ rs) = upTo f b as ++ rs := by
  obtain ⟨x, hx, rfl⟩ := List.mem_map.mp (List.min?_mem hb)
  have hrs : upTo f (f x) rs = rs := List.filter_eq_self.mpr fun y hy =>
    decide_eq_true (hlt x (List.mem_of_mem_take hx) y hy).le
  rw [upTo_append, hrs]

/-- What the pages show of a list that fills the first one, with older elements behind. -/
theorem walk_append (hs : 0 < size) (hlen : size ≤ as.length)
    (hlt : ∀ x ∈ as, ∀ y ∈ rs, f y < f x) : ∃ b, boundary f size as = some b ∧
      walk f size (n + 1) (as ++ rs) = as.take size ++ walk f size n (upTo f b as ++ rs) := by
  have hne : as ≠ [] := fun hnil => by simp [hnil] at hlen; omega
  obtain ⟨b, hb⟩ := exists_boundary (f := f) hne hs
  refine ⟨b, hb, ?_⟩
  rw [walk, if_neg (by rw [List.length_append]; omega), boundary_append hlen, hb,
    List.take_append_of_le_length hlen, ← upTo_boundary_append hb hlt]

/-- **The pages show the same of a list**, with older elements behind it or alone. -/
theorem mem_walk_append_left (hs : 0 < size) (hlt : ∀ x ∈ as, ∀ y ∈ rs, f y < f x) {x : α}
    (hx : x ∈ as) : x ∈ walk f size n (as ++ rs) ↔ x ∈ walk f size n as := by
  induction n generalizing as with
  | zero => exact Iff.rfl
  | succ n ih =>
    rcases Nat.lt_or_ge as.length size with hshort | hlen
    · refine iff_of_true ?_ ?_ <;> rw [walk] <;> refine List.mem_append_left _ ?_
      · rw [List.take_append, List.take_of_length_le hshort.le]
        exact List.mem_append_left _ hx
      · rwa [List.take_of_length_le hshort.le]
    · have hnone : ∀ x ∈ as, ∀ y ∈ ([] : List α), f y < f x := fun _ _ _ hy => by cases hy
      obtain ⟨b, hb, hwalk⟩ := walk_append (n := n) hs hlen hlt
      obtain ⟨b', hb', halone⟩ := walk_append (n := n) hs hlen hnone
      obtain rfl := Option.some.inj (hb.symm.trans hb')
      rw [List.append_nil, List.append_nil] at halone
      rw [hwalk, halone, List.mem_append, List.mem_append]
      refine or_congr_right ?_
      by_cases hxb : x ∈ upTo f b as
      · exact ih (fun x hx => hlt x (List.mem_filter.mp hx).1) hxb
      · refine iff_of_false (fun h => ?_) fun h => hxb (mem_of_mem_walk h)
        rcases List.mem_append.mp (mem_of_mem_walk h) with h | h
        · exact hxb h
        · exact lt_irrefl _ (hlt x hx x h)

/-- **The pages show an older element exactly when one fits behind the list.** -/
theorem exists_mem_walk_append_iff (hs : 0 < size) (hlt : ∀ x ∈ as, ∀ y ∈ rs, f y < f x) :
    (∃ y ∈ rs, y ∈ walk f size n (as ++ rs)) ↔ ∃ y ∈ rs, Fits f size n (as ++ [y]) := by
  induction n generalizing as with
  | zero =>
    refine iff_of_false ?_ ?_
    · rintro ⟨y, -, hy⟩
      exact List.not_mem_nil hy
    · rintro ⟨y, -, hy⟩
      exact List.append_ne_nil_of_right_ne_nil as (List.cons_ne_nil y []) hy
  | succ n ih =>
    rcases Nat.lt_or_ge as.length size with hshort | hlen
    · cases rs with
      | nil => simp
      | cons y rs =>
        refine iff_of_true ⟨y, List.mem_cons_self, ?_⟩ ⟨y, List.mem_cons_self, .inl ?_⟩
        · obtain ⟨m, hm⟩ : ∃ m, size - as.length = m + 1 := ⟨size - as.length - 1, by omega⟩
          rw [walk, List.take_append, hm, List.take_succ_cons]
          exact List.mem_append_left _ (List.mem_append_right _ List.mem_cons_self)
        · rw [List.length_append]
          exact hshort
    · obtain ⟨b, hb, hwalk⟩ := walk_append (n := n) hs hlen hlt
      have hlt' : ∀ x ∈ upTo f b as, ∀ y ∈ rs, f y < f x := fun x hx =>
        hlt x (List.mem_filter.mp hx).1
      have hnew : ∀ y ∈ rs, y ∉ as.take size := fun y hy htake =>
        lt_irrefl _ (hlt y (List.mem_of_mem_take htake) y hy)
      have hfits : ∀ y ∈ rs, Fits f size (n + 1) (as ++ [y]) ↔ Fits f size n (upTo f b as ++ [y]) := by
        intro y hy
        have hlty : ∀ x ∈ as, ∀ z ∈ [y], f z < f x := fun x hx z hz =>
          List.mem_singleton.mp hz ▸ hlt x hx y hy
        rw [Fits, or_iff_right (by rw [List.length_append, List.length_singleton]; omega)]
        simp only [boundary_append hlen, hb, Option.some.injEq, exists_eq_left',
          upTo_boundary_append hb hlty]
      rw [hwalk]
      constructor
      · rintro ⟨y, hy, hw⟩
        obtain ⟨z, hz, hzfits⟩ := (ih hlt').mp ⟨y, hy, (List.mem_append.mp hw).resolve_left (hnew y hy)⟩
        exact ⟨z, hz, (hfits z hz).mpr hzfits⟩
      · rintro ⟨y, hy, hyfits⟩
        obtain ⟨z, hz, hzw⟩ := (ih hlt').mpr ⟨y, hy, (hfits y hy).mp hyfits⟩
        exact ⟨z, hz, List.mem_append_right _ hzw⟩

end Append

/-! ## Lists without ties -/

/-- The first page of a list without ties, and what the next one starts with. -/
theorem boundary_of_strict {ys zs : List α} {y : α} (hlen : ys.length + 1 = size)
    (h : (ys ++ y :: zs).Pairwise fun x x' => f x' < f x) :
    boundary f size (ys ++ y :: zs) = some (f y) ∧ upTo f (f y) (ys ++ y :: zs) = y :: zs := by
  obtain ⟨-, hrest, hbefore⟩ := List.pairwise_append.mp h
  constructor
  · have htake : (ys ++ y :: zs).take size = ys ++ [y] := by
      rw [← hlen, List.take_length_add_append]
      rfl
    rw [boundary, htake, List.min?_eq_some_iff]
    refine ⟨by simp, fun b hb => ?_⟩
    obtain ⟨x, hx, rfl⟩ := List.mem_map.mp hb
    rcases List.mem_append.mp hx with hx | hx
    · exact (hbefore x hx y List.mem_cons_self).le
    · exact (congrArg f (List.mem_singleton.mp hx)).ge
  · have hys : ys.filter (fun x => decide (f x ≤ f y)) = [] :=
      List.filter_eq_nil_iff.mpr fun x hx => by simpa using hbefore x hx y List.mem_cons_self
    rw [upTo, List.filter_append, hys, List.nil_append, List.filter_eq_self]
    intro x hx
    rcases List.mem_cons.mp hx with rfl | hx
    · simp
    · exact decide_eq_true ((List.pairwise_cons.mp hrest).1 x hx).le

/-- **A list without ties fits** when it has at most `1 + n * (size - 1)` elements. -/
theorem fits_iff_of_strict (hs : 0 < size) (h : xs.Pairwise fun x x' => f x' < f x) :
    Fits f size (n + 1) xs ↔ xs.length ≤ 1 + (n + 1) * (size - 1) := by
  obtain ⟨m, rfl⟩ := Nat.exists_eq_add_one.mpr hs
  rw [Nat.add_sub_cancel]
  induction n generalizing xs with
  | zero =>
    rw [Fits, Nat.zero_add, Nat.one_mul, Nat.add_comm 1 m]
    refine or_iff_left fun ⟨b, hb, hnil⟩ => ?_
    obtain ⟨x, hx, rfl⟩ := List.mem_map.mp (List.min?_mem hb)
    have hmem : x ∈ upTo f (f x) xs :=
      List.mem_filter.mpr ⟨List.mem_of_mem_take hx, decide_eq_true (le_refl _)⟩
    rw [Fits] at hnil
    exact absurd (hnil ▸ hmem) List.not_mem_nil
  | succ n ih =>
    rw [Fits]
    by_cases hlen : xs.length ≤ m + 1
    · exact iff_of_true (.inl hlen) (by rw [Nat.succ_mul]; omega)
    · have hm : m < xs.length := by omega
      have hsplit : xs = xs.take m ++ xs[m] :: xs.drop (m + 1) := by
        rw [List.getElem_cons_drop, List.take_append_drop]
      have hpage : (xs.take m).length + 1 = m + 1 := by rw [List.length_take, min_eq_left hm.le]
      have hrest : (xs[m] :: xs.drop (m + 1)).Pairwise fun x x' => f x' < f x := by
        rw [hsplit] at h
        exact (List.pairwise_append.mp h).2.1
      obtain ⟨hb, hup⟩ := boundary_of_strict hpage (hsplit ▸ h)
      rw [← hsplit] at hb hup
      have hfits : (∃ b, boundary f (m + 1) xs = some b ∧ Fits f (m + 1) (n + 1) (upTo f b xs)) ↔
          Fits f (m + 1) (n + 1) (xs[m] :: xs.drop (m + 1)) := by
        simp only [hb, Option.some.injEq, exists_eq_left', hup]
      rw [or_iff_right hlen, hfits, ih hrest, List.length_cons, List.length_drop, Nat.succ_mul (n + 1)]
      omega

end Keyset
