import Mathlib.Data.List.Nodup
import Mathlib.Data.List.Perm.Subperm
import Mathlib.Data.Set.Function

/-!
# Renumbering under a unique constraint

Keys carry ranks that must stay distinct, and the ranks are rewritten one key at a time. The ranks
are parked past every rank in use, and then take their final values; both passes may write their
keys in any order.

* `write`: the ranks after a list of single writes.
* `parked`, `List.zipIdx`: the two passes over a list of keys.
* **`injOn_parking`**, **`injOn_final`**: the ranks are distinct after every write of either pass;
  `write_final`: where the passes end.
-/

set_option autoImplicit false

namespace Renumber

variable {κ : Type*} [DecidableEq κ] {us ws rest : List (κ × ℕ)} {r : κ → ℕ} {k : κ} {n offset : ℕ}
  {keys : List κ} {live : Set κ}

/-! ## Single writes -/

/-- The ranks after the writes, one after the other. -/
def write (us : List (κ × ℕ)) (r : κ → ℕ) : κ → ℕ :=
  us.foldl (fun r u => Function.update r u.1 u.2) r

theorem write_of_not_mem (h : k ∉ us.map (·.1)) : write us r k = r k := by
  induction us generalizing r with
  | nil => rfl
  | cons u us ih =>
    rw [List.map_cons, List.mem_cons, not_or] at h
    have hcons : write (u :: us) r = write us (Function.update r u.1 u.2) := rfl
    rw [hcons, ih h.2, Function.update_of_ne h.1]

theorem write_of_mem (hn : (us.map (·.1)).Nodup) (h : (k, n) ∈ us) : write us r k = n := by
  induction us generalizing r with
  | nil => exact absurd h List.not_mem_nil
  | cons u us ih =>
    rw [List.map_cons, List.nodup_cons] at hn
    have hcons : write (u :: us) r = write us (Function.update r u.1 u.2) := rfl
    rcases List.mem_cons.mp h with rfl | h
    · rw [hcons, write_of_not_mem hn.1, Function.update_self]
    · rw [hcons, ih hn.2 h]

/-- A rank after the writes is a written one, or the one before. -/
theorem write_cases (hn : (us.map (·.1)).Nodup) (r : κ → ℕ) (k : κ) :
    (k, write us r k) ∈ us ∨ (k ∉ us.map (·.1) ∧ write us r k = r k) := by
  by_cases h : k ∈ us.map (·.1)
  · obtain ⟨⟨k', n⟩, hu, rfl⟩ := List.mem_map.mp h
    exact .inl (by rwa [write_of_mem hn hu])
  · exact .inr ⟨h, write_of_not_mem h⟩

/-- **Distinct ranks stay distinct** under writes of distinct ranks that are not in use. -/
theorem injOn_write (hr : Set.InjOn r live) (hn : (us.map (·.1)).Nodup) (hv : (us.map (·.2)).Nodup)
    (hfree : ∀ u ∈ us, ∀ k ∈ live, r k ≠ u.2) : Set.InjOn (write us r) live := by
  intro a ha b hb hab
  rcases write_cases hn r a with h₁ | ⟨-, h₁⟩ <;> rcases write_cases hn r b with h₂ | ⟨-, h₂⟩
  · rw [← hab] at h₂
    exact congrArg Prod.fst (List.inj_on_of_nodup_map hv h₁ h₂ rfl)
  · exact absurd (h₂.symm.trans hab.symm) (hfree _ h₁ b hb)
  · exact absurd (h₁.symm.trans hab) (hfree _ h₂ a ha)
  · exact hr ha hb (h₁.symm.trans (hab.trans h₂))

/-! ## The two passes -/

/-- The writes of the first pass. -/
def parked (keys : List κ) (offset : ℕ) : List (κ × ℕ) := keys.zipIdx offset

omit [DecidableEq κ] in
theorem zipIdx_keys (keys : List κ) (n : ℕ) : (keys.zipIdx n).map (·.1) = keys :=
  List.zipIdx_map_fst n keys

omit [DecidableEq κ] in
theorem zipIdx_values_nodup (keys : List κ) (n : ℕ) : ((keys.zipIdx n).map (·.2)).Nodup := by
  rw [List.zipIdx_map_snd]
  exact List.nodup_range'

omit [DecidableEq κ] in
/-- The writes that a pass has made in some order have distinct keys and distinct ranks. -/
theorem nodup_of_perm (hk : keys.Nodup) (h : (us ++ rest).Perm (keys.zipIdx n)) :
    (us.map (·.1)).Nodup ∧ (us.map (·.2)).Nodup ∧ ∀ u ∈ us, u ∈ keys.zipIdx n := by
  have hs : us.Sublist (us ++ rest) := List.sublist_append_left us rest
  refine ⟨(hs.map _).nodup ?_, (hs.map _).nodup ?_, fun u hu => h.subset (hs.subset hu)⟩
  · rw [(h.map _).nodup_iff, zipIdx_keys]
    exact hk
  · rw [(h.map _).nodup_iff]
    exact zipIdx_values_nodup keys n

/-- **Every write of the first pass keeps the ranks distinct.** -/
theorem injOn_parking (hk : keys.Nodup) (hr : Set.InjOn r live) (hlt : ∀ k ∈ live, r k < offset)
    (h : (us ++ rest).Perm (parked keys offset)) : Set.InjOn (write us r) live := by
  obtain ⟨hn, hv, hmem⟩ := nodup_of_perm hk h
  refine injOn_write hr hn hv fun u hu k hlive => ?_
  have hle := List.le_snd_of_mem_zipIdx (hmem u hu)
  exact Nat.ne_of_lt (Nat.lt_of_lt_of_le (hlt k hlive) hle)

/-- After the first pass a key is parked at its position past the offset. -/
theorem write_parked (hk : keys.Nodup) (hw : ws.Perm (parked keys offset)) (hmem : k ∈ keys) :
    (k, write ws r k) ∈ parked keys offset := by
  have hn : (ws.map (·.1)).Nodup := by
    rw [(hw.map _).nodup_iff, parked, zipIdx_keys]
    exact hk
  have hkeys : k ∈ ws.map (·.1) := by
    rw [(hw.map _).mem_iff, parked, zipIdx_keys]
    exact hmem
  exact hw.subset ((write_cases hn r k).resolve_right fun h => h.1 hkeys)

/-- **Every write of the second pass keeps the ranks distinct.** -/
theorem injOn_final (hk : keys.Nodup) (hr : Set.InjOn r live) (hlt : ∀ k ∈ live, r k < offset)
    (hlen : keys.length ≤ offset) (hlive : ∀ k ∈ live, k ∈ keys)
    (hw : ws.Perm (parked keys offset)) (h : (us ++ rest).Perm keys.zipIdx) :
    Set.InjOn (write us (write ws r)) live := by
  obtain ⟨hn, hv, hmem⟩ := nodup_of_perm hk h
  have hall : (ws ++ []).Perm (parked keys offset) := by rwa [List.append_nil]
  have hparked : Set.InjOn (write ws r) live := injOn_parking hk hr hlt hall
  refine injOn_write hparked hn hv fun u hu k hkl => ?_
  have hge := List.le_snd_of_mem_zipIdx (write_parked (r := r) hk hw (hlive k hkl))
  have hult := List.snd_lt_of_mem_zipIdx (hmem u hu)
  dsimp only at hge
  omega

/-- **Where the passes end**: every key at its position. -/
theorem write_final (hk : keys.Nodup) (h : us.Perm keys.zipIdx) (hmem : (k, n) ∈ keys.zipIdx)
    (r : κ → ℕ) : write us r k = n := by
  have hn : (us.map (·.1)).Nodup := by
    rw [(h.map _).nodup_iff, zipIdx_keys]
    exact hk
  exact write_of_mem hn (h.symm.subset hmem)

/-- A rank depends on what was there under its own key only. -/
theorem write_congr {r' : κ → ℕ} (h : r k = r' k) : write us r k = write us r' k := by
  induction us generalizing r r' with
  | nil => exact h
  | cons u us ih =>
    refine ih ?_
    show Function.update r u.1 u.2 k = Function.update r' u.1 u.2 k
    by_cases hu : k = u.1
    · rw [hu, Function.update_self, Function.update_self]
    · rw [Function.update_of_ne hu, Function.update_of_ne hu, h]

end Renumber
