import Mathlib.Data.List.TakeWhile
import Mathlib.Order.Basic
import Mathlib.Order.Defs.LinearOrder
import Mathlib.Order.Lattice

/-!
# Lists that are newest first

`Newest f xs`: the elements of `xs` are in descending order of `f`; ties are in any order.

* **`takeWhile_eq_filter`**: a loop that stops at the first element below a bound sees every element
  at or above it.
* `filter_append_filter`: the elements at or above a bound, and then the ones below.
-/

set_option autoImplicit false
set_option linter.dupNamespace false

namespace Newest

variable {α β : Type*} [LinearOrder β] {f : α → β} {xs ys : List α} {c : β}

/-- The elements are in descending order of `f`. -/
def Newest (f : α → β) (xs : List α) : Prop := xs.Pairwise fun x y => f y ≤ f x

/-- **An early stop loses nothing.** -/
theorem takeWhile_eq_filter (h : Newest f xs) :
    xs.takeWhile (fun x => decide (c ≤ f x)) = xs.filter fun x => decide (c ≤ f x) := by
  induction xs with
  | nil => rfl
  | cons x xs ih =>
    obtain ⟨hx, hxs⟩ := List.pairwise_cons.mp h
    by_cases hc : c ≤ f x
    · rw [List.takeWhile_cons_of_pos (by simpa using hc), List.filter_cons_of_pos (by simpa using hc),
        ih hxs]
    · have hnone : xs.filter (fun y => decide (c ≤ f y)) = [] :=
        List.filter_eq_nil_iff.mpr fun y hy => by
          simpa using lt_of_le_of_lt (hx y hy) (not_le.mp hc)
      rw [List.takeWhile_cons_of_neg (by simpa using hc), List.filter_cons_of_neg (by simpa using hc),
        hnone]

/-- The newer elements, and then the older ones. -/
theorem filter_append_filter (h : Newest f xs) :
    (xs.filter fun x => decide (c ≤ f x)) ++ (xs.filter fun x => decide (f x < c)) = xs := by
  induction xs with
  | nil => rfl
  | cons x xs ih =>
    obtain ⟨hx, hxs⟩ := List.pairwise_cons.mp h
    by_cases hc : c ≤ f x
    · rw [List.filter_cons_of_pos (by simpa using hc), List.filter_cons_of_neg (by simpa using hc),
        List.cons_append, ih hxs]
    · have hold : ∀ y ∈ xs, f y < c := fun y hy => lt_of_le_of_lt (hx y hy) (not_le.mp hc)
      have hnew : xs.filter (fun y => decide (c ≤ f y)) = [] :=
        List.filter_eq_nil_iff.mpr fun y hy => by simpa using hold y hy
      rw [List.filter_cons_of_neg (by simpa using hc), hnew, List.nil_append,
        List.filter_cons_of_pos (by simpa using hc), List.filter_eq_self.mpr fun y hy =>
          decide_eq_true (hold y hy)]

theorem Newest.sublist (h : Newest f xs) (hs : ys.Sublist xs) : Newest f ys := List.Pairwise.sublist hs h

end Newest
