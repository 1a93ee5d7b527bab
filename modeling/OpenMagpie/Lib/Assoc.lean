import Mathlib.Algebra.GroupWithZero.Nat
import Mathlib.Data.List.Nodup
import Mathlib.Algebra.BigOperators.Group.List.Basic

/-!
# Dictionaries in insertion order

A dictionary is the list of its entries in the order in which the keys were first assigned.

* `set`, `get`: assignment and lookup; `get_set_self`, `get_set_of_ne`, `nodup_keys_set`.
* **`get_foldl_set`**: after a loop of assignments a key has the value of its last assignment.
* **`sum_foldl_set_eq_iff`**: the loop keeps every value exactly when it assigns no key twice.
-/

set_option autoImplicit false

namespace Assoc

variable {α κ β : Type*} [DecidableEq κ]

/-- `d[k] = v`: the entry is overwritten in place, or added at the end. -/
def set (k : κ) (v : β) : List (κ × β) → List (κ × β)
  | [] => [(k, v)]
  | (k', v') :: d => if k' = k then (k, v) :: d else (k', v') :: set k v d

/-- `d.get(k)`. -/
def get : List (κ × β) → κ → Option β
  | [], _ => none
  | (k', v) :: d, k => if k' = k then some v else get d k

variable {k k' : κ} {v : β} {d : List (κ × β)}

@[simp]
theorem get_set_self : get (set k v d) k = some v := by
  induction d with
  | nil => simp [set, get]
  | cons p d ih =>
    by_cases h : p.1 = k
    · simp [set, get, h]
    · simp [set, get, h, ih]

theorem get_set_of_ne (h : k ≠ k') : get (set k v d) k' = get d k' := by
  induction d with
  | nil => simp [set, get, h]
  | cons p d ih =>
    by_cases hp : p.1 = k
    · have hk : p.1 ≠ k' := fun e => h (hp.symm.trans e)
      simp [set, get, hp, h]
    · simp [set, get, hp, ih]

theorem mem_keys_set : k' ∈ (set k v d).map Prod.fst ↔ k' = k ∨ k' ∈ d.map Prod.fst := by
  induction d with
  | nil => simp [set]
  | cons p d ih =>
    by_cases hp : p.1 = k
    · simp [set, hp]
    · rw [set, if_neg hp, List.map_cons, List.mem_cons, ih, List.map_cons, List.mem_cons]
      exact or_left_comm

theorem nodup_keys_set (h : (d.map Prod.fst).Nodup) : ((set k v d).map Prod.fst).Nodup := by
  induction d with
  | nil => simp [set]
  | cons p d ih =>
    rw [List.map_cons, List.nodup_cons] at h
    by_cases hp : p.1 = k
    · subst hp
      simpa [set] using h
    · rw [set, if_neg hp, List.map_cons, List.nodup_cons, mem_keys_set]
      exact ⟨fun hm => hm.elim hp h.1, ih h.2⟩

/-! ## Loops of assignments -/

variable (key : α → κ) (val : α → β)

/-- **A key has the value of its last assignment.** -/
theorem get_foldl_set (rows : List α) (d : List (κ × β)) (k : κ) :
    get (rows.foldl (fun d r => set (key r) (val r) d) d) k =
      ((rows.filter fun r => decide (key r = k)).getLast?.map val).or (get d k) := by
  induction rows generalizing d with
  | nil => rfl
  | cons r rows ih =>
    rw [List.foldl_cons, ih]
    by_cases hr : key r = k
    · have hf : (r :: rows).filter (fun r => decide (key r = k)) =
          r :: rows.filter fun r => decide (key r = k) := by simp [hr]
      rw [hf, hr, get_set_self, List.getLast?_cons]
      cases (rows.filter fun r => decide (key r = k)).getLast? <;> rfl
    · have hf : (r :: rows).filter (fun r => decide (key r = k)) =
          rows.filter fun r => decide (key r = k) := by simp [hr]
      rw [hf, get_set_of_ne hr]

/-- A loop over keys. -/
theorem get_foldl_set_keys (f : κ → β) (keys : List κ) (d : List (κ × β)) (k : κ) :
    get (keys.foldl (fun d k => set k (f k) d) d) k = if k ∈ keys then some (f k) else get d k := by
  induction keys generalizing d with
  | nil => simp
  | cons k' keys ih =>
    rw [List.foldl_cons, ih]
    by_cases hk : k' = k
    · subst hk
      simp
    · rw [get_set_of_ne hk]
      simp [Ne.symm hk]

theorem nodup_keys_foldl_set {rows : List α} {d : List (κ × β)} (h : (d.map Prod.fst).Nodup) :
    ((rows.foldl (fun d r => set (key r) (val r) d) d).map Prod.fst).Nodup := by
  induction rows generalizing d with
  | nil => exact h
  | cons r rows ih => exact ih (nodup_keys_set h)

/-! ## Sums of values -/

/-- An assignment replaces what the key had. -/
theorem sum_set {d : List (κ × ℕ)} {n : ℕ} :
    ((set k n d).map Prod.snd).sum + (get d k).getD 0 = (d.map Prod.snd).sum + n := by
  induction d with
  | nil => simp [set, get]
  | cons p d ih =>
    by_cases hp : p.1 = k
    · simp only [set, get, hp, if_true, List.map_cons, List.sum_cons, Option.getD_some]
      omega
    · simp only [set, get, hp, if_false, List.map_cons, List.sum_cons]
      omega

theorem get_eq_none_iff : get d k = none ↔ k ∉ d.map Prod.fst := by
  induction d with
  | nil => simp [get]
  | cons p d ih =>
    by_cases hp : p.1 = k
    · simp [get, hp]
    · simp [get, hp, ih, Ne.symm hp]

/-- The entries of a dictionary are its lookups. -/
theorem mem_iff_get (h : (d.map Prod.fst).Nodup) : (k, v) ∈ d ↔ get d k = some v := by
  induction d with
  | nil => simp [get]
  | cons p d ih =>
    rw [List.map_cons, List.nodup_cons] at h
    by_cases hp : p.1 = k
    · subst hp
      rw [List.mem_cons, get, if_pos rfl, Option.some.injEq]
      constructor
      · rintro (he | hm)
        · exact (congrArg Prod.snd he).symm
        · exact absurd (List.mem_map_of_mem hm) h.1
      · rintro rfl
        exact .inl rfl
    · rw [List.mem_cons, get, if_neg hp, ← ih h.2, or_iff_right]
      rintro rfl
      exact hp rfl

/-- Dictionaries with the same lookups have the same entries. -/
theorem perm_of_get_eq {d' : List (κ × β)} (h : (d.map Prod.fst).Nodup)
    (h' : (d'.map Prod.fst).Nodup) (hget : ∀ k, get d k = get d' k) : d.Perm d' := by
  refine (List.perm_ext_iff_of_nodup h.of_map h'.of_map).mpr ?_
  rintro ⟨k, v⟩
  rw [mem_iff_get h, mem_iff_get h', hget]

variable (key : α → κ) (num : α → ℕ)

theorem sum_foldl_set_le (rows : List α) (d : List (κ × ℕ)) :
    ((rows.foldl (fun d r => set (key r) (num r) d) d).map Prod.snd).sum ≤
      (d.map Prod.snd).sum + (rows.map num).sum := by
  induction rows generalizing d with
  | nil => simp
  | cons r rows ih =>
    have hle := ih (set (key r) (num r) d)
    have hset := sum_set (d := d) (k := key r) (n := num r)
    rw [List.foldl_cons, List.map_cons, List.sum_cons]
    omega

/-- **A loop of assignments keeps every value** exactly when it assigns no key twice. -/
theorem sum_foldl_set_eq_iff {rows : List α} {d : List (κ × ℕ)} (hrows : ∀ r ∈ rows, 0 < num r)
    (hd : ∀ p ∈ d, 0 < p.2) (hkeys : (d.map Prod.fst).Nodup) :
    ((rows.foldl (fun d r => set (key r) (num r) d) d).map Prod.snd).sum =
      (d.map Prod.snd).sum + (rows.map num).sum ↔
    (rows.map key).Nodup ∧ ∀ r ∈ rows, key r ∉ d.map Prod.fst := by
  induction rows generalizing d with
  | nil => simp
  | cons r rows ih =>
    have hset := sum_set (d := d) (k := key r) (n := num r)
    rw [List.foldl_cons, List.map_cons, List.sum_cons, List.map_cons, List.nodup_cons,
      List.forall_mem_cons]
    by_cases hr : key r ∈ d.map Prod.fst
    · -- the old value is lost
      have hle := sum_foldl_set_le key num rows (set (key r) (num r) d)
      obtain ⟨n, hn⟩ := Option.ne_none_iff_exists'.mp fun h => get_eq_none_iff.mp h hr
      have hpos : 0 < n := hd (key r, n) ((mem_iff_get hkeys).mpr hn)
      rw [hn, Option.getD_some] at hset
      refine iff_of_false (fun heq => ?_) fun h => h.2.1 hr
      omega
    · rw [get_eq_none_iff.mpr hr, Option.getD_none] at hset
      have hpos : ∀ p ∈ set (key r) (num r) d, 0 < p.2 := by
        rintro ⟨k, n⟩ hp
        rw [mem_iff_get (nodup_keys_set hkeys)] at hp
        by_cases hk : key r = k
        · subst hk
          rw [get_set_self] at hp
          exact Option.some.inj hp ▸ hrows r List.mem_cons_self
        · rw [get_set_of_ne hk, ← mem_iff_get hkeys] at hp
          exact hd _ hp
      have hiff := ih (fun x hx => hrows x (List.mem_cons_of_mem _ hx)) hpos (nodup_keys_set hkeys)
      have hsum : ((set (key r) (num r) d).map Prod.snd).sum + (rows.map num).sum =
          (d.map Prod.snd).sum + (num r + (rows.map num).sum) := by omega
      rw [← hsum, hiff]
      have hmem : key r ∉ rows.map key ↔ ∀ x ∈ rows, key x ≠ key r := by simp
      rw [hmem]
      constructor
      · rintro ⟨hn, hm⟩
        exact ⟨⟨fun x hx he => hm x hx (mem_keys_set.mpr (.inl he)), hn⟩, hr,
          fun x hx h => hm x hx (mem_keys_set.mpr (.inr h))⟩
      · rintro ⟨⟨hx, hn⟩, -, hm⟩
        exact ⟨hn, fun x hx' h => (mem_keys_set.mp h).elim (hx x hx') (hm x hx')⟩

end Assoc
