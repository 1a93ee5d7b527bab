import Mathlib.Data.List.Nodup
import Mathlib.Data.List.Perm.Subperm
import Mathlib.Data.List.Range

/-!
# Fresh names

The search for a name that is not in use among numbered candidates. `Fresh.search_notMem`: with more
steps than names in use, and no two candidates the same, the search ends at a name that is not in use.
-/

set_option autoImplicit false

namespace Fresh

variable {α : Type*} [DecidableEq α]

/-- The first number from `n` on whose name is not in use, within so many steps. -/
def search (name : ℕ → α) (used : List α) : ℕ → ℕ → ℕ
  | 0, n => n
  | steps + 1, n => if name n ∈ used then search name used steps (n + 1) else n

variable {name : ℕ → α} {used : List α} {steps n : ℕ}

/-- The search ends at a fresh name, or has passed names in use at all its steps. -/
theorem search_notMem_or (steps n : ℕ) : name (search name used steps n) ∉ used ∨
    ∀ k < steps, name (n + k) ∈ used := by
  induction steps generalizing n with
  | zero => exact .inr fun k hk => absurd hk (Nat.not_lt_zero k)
  | succ steps ih =>
    rw [search]
    by_cases hn : name n ∈ used
    · rw [if_pos hn]
      refine (ih (n + 1)).imp_right fun h k hk => ?_
      cases k with
      | zero => exact hn
      | succ k =>
        rw [Nat.add_comm k 1, ← Nat.add_assoc]
        exact h k (Nat.lt_of_succ_lt_succ hk)
    · rw [if_neg hn]
      exact .inl hn

/-- **More steps than names in use are enough.** -/
theorem search_notMem (hname : Function.Injective name) (h : used.length < steps) (n : ℕ) :
    name (search name used steps n) ∉ used := by
  refine (search_notMem_or steps n).resolve_right fun hall => ?_
  have hnodup : ((List.range steps).map fun k => name (n + k)).Nodup :=
    List.Nodup.map (fun a b hab => Nat.add_left_cancel (hname hab)) List.nodup_range
  have hsub : (List.range steps).map (fun k => name (n + k)) ⊆ used := by
    intro x hx
    obtain ⟨k, hk, rfl⟩ := List.mem_map.mp hx
    exact hall k (List.mem_range.mp hk)
  have hle := (List.subperm_of_subset hnodup hsub).length_le
  rw [List.length_map, List.length_range] at hle
  exact Nat.not_lt_of_le hle h

end Fresh
