import Mathlib.Data.Nat.Notation
import OpenMagpie.Lib.Table

/-!
# Batches of a list

`batched n xs` cuts a list into runs of at most `n` elements, as `itertools.batched` does.

* `batched_eq_cons`: the first batch and the rest.
* `flatten_batched`, `length_le_of_mem_batched`: nothing is lost, no batch is too long.
* **`foldl_update`**: one update per batch is one update over all of them, when a written row is
  not selected again.
-/

set_option autoImplicit false

namespace Batched

variable {α β : Type*}

/-- The batches, by recursion on a bound of the number of batches. -/
def batchedAux (n : ℕ) : ℕ → List α → List (List α)
  | 0, _ => []
  | _ + 1, [] => []
  | k + 1, x :: xs => (x :: xs).take n :: batchedAux n k ((x :: xs).drop n)

/-- `itertools.batched(xs, n, strict=False)`. -/
def batched (n : ℕ) (xs : List α) : List (List α) := batchedAux n xs.length xs

theorem flatten_batchedAux {n : ℕ} (hn : 0 < n) {k : ℕ} {xs : List α} (hk : xs.length ≤ k) :
    (batchedAux n k xs).flatten = xs := by
  induction k generalizing xs with
  | zero => simp [batchedAux, List.length_eq_zero_iff.mp (Nat.le_zero.mp hk)]
  | succ k ih =>
    cases xs with
    | nil => simp [batchedAux]
    | cons x xs =>
      have hd : ((x :: xs).drop n).length ≤ k := by
        simp only [List.length_drop, List.length_cons] at hk ⊢
        omega
      simp only [batchedAux, List.flatten_cons, ih hd, List.take_append_drop]

/-- More recursion than batches is no difference. -/
theorem batchedAux_congr {n : ℕ} (hn : 0 < n) {k k' : ℕ} {xs : List α} (hk : xs.length ≤ k)
    (hk' : xs.length ≤ k') : batchedAux n k xs = batchedAux n k' xs := by
  induction k generalizing k' xs with
  | zero =>
    obtain rfl := List.length_eq_zero_iff.mp (Nat.le_zero.mp hk)
    cases k' <;> rfl
  | succ k ih =>
    cases xs with
    | nil => cases k' <;> rfl
    | cons x xs =>
      cases k' with
      | zero => exact absurd hk' (Nat.not_succ_le_zero _)
      | succ k' =>
        rw [List.length_cons] at hk hk'
        rw [batchedAux, batchedAux, ih] <;> rw [List.length_drop, List.length_cons] <;> omega

@[simp] theorem batched_nil (n : ℕ) : batched n ([] : List α) = [] := rfl

/-- **The first batch and the rest.** -/
theorem batched_eq_cons {n : ℕ} (hn : 0 < n) {xs : List α} (h : xs ≠ []) :
    batched n xs = xs.take n :: batched n (xs.drop n) := by
  cases xs with
  | nil => exact absurd rfl h
  | cons x xs =>
    rw [batched, List.length_cons, batchedAux, batched]
    refine congrArg _ (batchedAux_congr hn ?_ (Nat.le_refl _))
    rw [List.length_drop, List.length_cons]
    omega

/-- **Nothing is lost or repeated.** -/
theorem flatten_batched {n : ℕ} (hn : 0 < n) (xs : List α) : (batched n xs).flatten = xs :=
  flatten_batchedAux hn (Nat.le_refl _)

theorem mem_flatten_batched {n : ℕ} (hn : 0 < n) {xs : List α} {x : α} :
    (∃ b ∈ batched n xs, x ∈ b) ↔ x ∈ xs := by
  rw [← List.mem_flatten, flatten_batched hn]

theorem length_le_of_mem_batchedAux {n k : ℕ} {xs b : List α} (hb : b ∈ batchedAux n k xs) :
    b.length ≤ n := by
  induction k generalizing xs with
  | zero => simp [batchedAux] at hb
  | succ k ih =>
    cases xs with
    | nil => simp [batchedAux] at hb
    | cons x xs =>
      rcases List.mem_cons.mp hb with rfl | h
      · exact List.length_take_le _ _
      · exact ih h

/-- No batch is longer than the bound. -/
theorem length_le_of_mem_batched {n : ℕ} {xs b : List α} (hb : b ∈ batched n xs) : b.length ≤ n :=
  length_le_of_mem_batchedAux hb

/-- **One update per batch is one update.** A row that was written is not selected again. -/
theorem foldl_update {p : β → α → Bool} {f : α → α}
    (hf : ∀ b b' r, p b r = true → p b' (f r) = false) (bs : List β) (t : List α) :
    bs.foldl (fun t b => Table.update (p b) f t) t =
      Table.update (fun r => bs.any fun b => p b r) f t := by
  induction bs generalizing t with
  | nil => exact (Table.update_eq_self fun r _ => by simp).symm
  | cons b bs ih =>
    rw [List.foldl_cons, ih, Table.update, Table.update, Table.update, List.map_map]
    refine List.map_congr_left fun r _ => ?_
    have hnot (h : p b r = true) : (bs.any fun b' => p b' (f r)) = false := by
      simpa using fun b' _ => hf b b' r h
    cases h : p b r <;> simp_all

example : batched 2 [1, 2, 3, 4, 5] = [[1, 2], [3, 4], [5]] := by decide

end Batched
