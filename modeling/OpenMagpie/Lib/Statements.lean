import OpenMagpie.Lib.Except
import OpenMagpie.Lib.Table

/-!
# Statements that a store may refuse

A store takes a row or refuses it; a statement that writes a refused row raises, and a transaction
that raises leaves the table as it was.

* `atomic`: a transaction. `insertRows`, `updateRows`: the statements.
* **`foldlM_updateRows`**: a loop of updates, one for each of many keys, in closed form.
* **`lookup_bulkInsert`**: a dictionary filled in a loop that skips the keys that it has holds the
  first value of each key.
-/

set_option autoImplicit false

namespace Table

section Transactions

variable {σ ε α : Type}

/-- `transaction.atomic`. -/
def atomic (body : σ → Except ε (σ × α)) (s : σ) : σ × Except ε α :=
  match body s with
  | .ok (s', a) => (s', .ok a)
  | .error e => (s, .error e)

variable {body : σ → Except ε (σ × α)} {s s' : σ} {a : α} {e : ε}

theorem atomic_eq_ok : atomic body s = (s', .ok a) ↔ body s = .ok (s', a) := by
  unfold atomic
  split <;> rename_i h
  · simp [h]
  · simp [h]

/-- **A transaction that raises changes nothing.** -/
theorem atomic_error (h : atomic body s = (s', .error e)) : s' = s := by
  unfold atomic at h
  split at h
  · cases h
  · cases h
    rfl

end Transactions

/-! ## Statements -/

section Statements

variable {ε α β κ : Type} [DecidableEq κ] (takes : α → Bool) (refused : ε)

/-- `INSERT … ON CONFLICT DO NOTHING` of many rows. -/
def insertRows (key : α → κ) (rows t : List α) : Except ε (List α) :=
  if rows.all takes then .ok (bulkInsert key rows t) else .error refused

/-- `UPDATE … SET f WHERE p`. -/
def updateRows (p : α → Bool) (f : α → α) (t : List α) : Except ε (List α) :=
  if ((t.filter p).map f).all takes then .ok (update p f t) else .error refused

/-- The rows of some keys rewritten, each with the value of its key. -/
def rewrite (p : α → Bool) (key : α → κ) (f : β → α → α) (kbs : List (κ × β)) (r : α) : α :=
  match p r, kbs.lookup (key r) with
  | true, some b => f b r
  | _, _ => r

variable {takes refused} {p : α → Bool} {key : α → κ} {f : β → α → α} {kbs : List (κ × β)} {k : κ}
  {b : β} {r : α} {t t' rows : List α}

theorem insertRows_eq_ok : insertRows takes refused key rows t = .ok t' ↔
    (∀ r ∈ rows, takes r = true) ∧ bulkInsert key rows t = t' := by
  unfold insertRows
  split_ifs with h <;> rw [List.all_eq_true] at h
  · rw [Except.ok.injEq, and_iff_right h]
  · exact ⟨fun he => (by cases he), fun he => (h he.1).elim⟩

theorem updateRows_eq_ok {g : α → α} : updateRows takes refused p g t = .ok t' ↔
    (∀ r ∈ t, p r = true → takes (g r) = true) ∧ update p g t = t' := by
  unfold updateRows
  split_ifs with h <;> simp only [List.all_map, List.all_eq_true, List.mem_filter] at h
  · refine ⟨fun he => ⟨fun r hr hp => h r ⟨hr, hp⟩, Except.ok.inj he⟩, fun he => ?_⟩
    rw [he.2]
  · exact ⟨nofun, fun he => (h fun r hr => he.1 r hr.1 hr.2).elim⟩

theorem rewrite_of_not (hp : p r = false) : rewrite p key f kbs r = r := by
  rw [rewrite, hp]

theorem rewrite_of_lookup (hp : p r = true) (hb : kbs.lookup (key r) = some b) :
    rewrite p key f kbs r = f b r := by
  rw [rewrite, hp, hb]

theorem rewrite_of_none (hb : kbs.lookup (key r) = none) : rewrite p key f kbs r = r := by
  rw [rewrite, hb]
  cases p r <;> rfl

/-- A column that the rewriting of a row keeps. -/
theorem rewrite_frame {γ : Type} (g : α → γ) (hg : ∀ b r, g (f b r) = g r) :
    g (rewrite p key f kbs r) = g r := by
  unfold rewrite
  split
  · exact hg _ r
  · rfl

/-- The rewriting of one more key. -/
theorem rewrite_cons (hk : ∀ b r, key (f b r) = key r)
    (hn : k ∉ kbs.map (·.1)) : rewrite p key f ((k, b) :: kbs) r =
      rewrite p key f kbs (if p r && decide (key r = k) then f b r else r) := by
  have hnone : kbs.lookup k = none := List.lookup_eq_none_iff.mpr fun kb hkb => by
    simpa using fun he => hn (List.mem_map.mpr ⟨kb, hkb, he.symm⟩)
  cases hpr : p r with
  | false => rw [rewrite_of_not hpr, Bool.false_and, if_neg Bool.false_ne_true, rewrite_of_not hpr]
  | true =>
    by_cases hkr : key r = k
    · have hb : ((k, b) :: kbs).lookup (key r) = some b := by simp [hkr]
      have hrest : kbs.lookup (key (f b r)) = none := by rw [hk, hkr, hnone]
      rw [rewrite_of_lookup hpr hb, if_pos (by simp [hkr]), rewrite_of_none hrest]
    · have hne : (key r == k) = false := beq_false_of_ne hkr
      rw [if_neg (by simp [hkr]), rewrite, rewrite, List.lookup_cons, hne]

/-- **A loop of updates**, each of the rows of its own key, returns when the store takes every row
that it writes, and rewrites every row once. -/
theorem foldlM_updateRows (hk : ∀ b r, key (f b r) = key r) (hn : (kbs.map (·.1)).Nodup) :
    kbs.foldlM (fun t kb => updateRows takes refused (fun r => p r && decide (key r = kb.1))
      (f kb.2) t) t = .ok t' ↔
    (∀ kb ∈ kbs, ∀ r ∈ t, p r = true → key r = kb.1 → takes (f kb.2 r) = true) ∧
      t' = t.map (rewrite p key f kbs) := by
  induction kbs generalizing t with
  | nil =>
    have hid : t.map (rewrite p key f []) = t := by
      rw [List.map_congr_left fun r _ => rewrite_of_none rfl, List.map_id']
    rw [List.foldlM_nil, Except.pure_eq_ok, hid, and_iff_right nofun]
    exact eq_comm
  | cons kb kbs ih =>
    obtain ⟨k, b⟩ := kb
    rw [List.map_cons, List.nodup_cons] at hn
    have hmap : (update (fun r => p r && decide (key r = k)) (f b) t).map (rewrite p key f kbs) =
        t.map (rewrite p key f ((k, b) :: kbs)) := by
      rw [update, List.map_map]
      exact List.map_congr_left fun r _ => (rewrite_cons hk hn.1).symm
    -- the rows of the other keys are not written
    have hrest : (∀ kb ∈ kbs, ∀ r ∈ update (fun r => p r && decide (key r = k)) (f b) t,
        p r = true → key r = kb.1 → takes (f kb.2 r) = true) ↔
        ∀ kb ∈ kbs, ∀ r ∈ t, p r = true → key r = kb.1 → takes (f kb.2 r) = true := by
      refine forall₂_congr fun kb hkb => ⟨fun h r hr hpr hkr => ?_, fun h r hr hpr hkr => ?_⟩
      · have hne : key r ≠ k := fun he => hn.1 (List.mem_map.mpr ⟨kb, hkb, hkr.symm.trans he⟩)
        exact h r (mem_update_of_not hr (by simp [hne])) hpr hkr
      · obtain ⟨r₀, hr₀, rfl⟩ := mem_update.mp hr
        have hne : key r₀ ≠ k := by
          rintro rfl
          refine hn.1 (List.mem_map.mpr ⟨kb, hkb, hkr.symm.trans ?_⟩)
          split_ifs
          · exact hk b r₀
          · rfl
        rw [if_neg (by simp [hne])] at hpr hkr ⊢
        exact h r₀ hr₀ hpr hkr
    rw [List.foldlM_cons, Except.bind_eq_ok]
    constructor
    · rintro ⟨t₁, ht₁, h⟩
      obtain ⟨htakes, rfl⟩ := updateRows_eq_ok.mp ht₁
      obtain ⟨htakes', rfl⟩ := (ih hn.2).mp h
      refine ⟨List.forall_mem_cons.mpr ⟨fun r hr hpr hkr => ?_, hrest.mp htakes'⟩, hmap⟩
      exact htakes r hr (by simp [hpr, hkr])
    · rintro ⟨htakes, rfl⟩
      obtain ⟨hfirst, htakes'⟩ := List.forall_mem_cons.mp htakes
      refine ⟨_, updateRows_eq_ok.mpr ⟨fun r hr hpr => ?_, rfl⟩, ?_⟩
      · obtain ⟨hpr, hkr⟩ := Bool.and_eq_true_iff.mp hpr
        exact hfirst r hr hpr (of_decide_eq_true hkr)
      · exact (ih hn.2).mpr ⟨hrest.mpr htakes', hmap.symm⟩

end Statements

/-! ## Dictionaries -/

section Dictionaries

variable {α β κ : Type} [DecidableEq κ] {k : κ} {b : β} {l : List (κ × β)}

/-- **The first value of a key stays.** -/
theorem lookup_bulkInsert {kbs t : List (κ × β)} :
    (bulkInsert (·.1) kbs t).lookup k = (t ++ kbs).lookup k := by
  induction kbs generalizing t with
  | nil => rw [List.append_nil]; rfl
  | cons kb kbs ih =>
    have hcons : bulkInsert (·.1) (kb :: kbs) t = bulkInsert (·.1) kbs (insertIgnore (·.1) t kb) := rfl
    rw [hcons, ih, insertIgnore]
    split_ifs with hk
    · rw [List.lookup_append, List.lookup_append, List.lookup_cons]
      by_cases he : k = kb.1
      · obtain ⟨kb', hkb', he'⟩ := List.mem_map.mp hk
        cases ht : t.lookup k with
        | some b => rfl
        | none => exact absurd (List.lookup_eq_none_iff.mp ht kb' hkb') (by simp [he, he'])
      · rw [beq_false_of_ne he]
    · rw [List.append_assoc, List.singleton_append]

/-- A dictionary of the elements of a list, by their keys. -/
theorem lookup_map_key {key : α → κ} {t : List α} :
    (t.map fun x => (key x, x)).lookup k = t.find? fun x => decide (key x = k) := by
  induction t with
  | nil => rfl
  | cons x t ih =>
    rw [List.map_cons, List.lookup_cons, List.find?_cons, ih]
    by_cases hx : key x = k
    · simp [hx]
    · simp [hx, beq_false_of_ne (Ne.symm hx)]

theorem mem_iff_lookup (hn : (l.map (·.1)).Nodup) : (k, b) ∈ l ↔ l.lookup k = some b := by
  refine ⟨lookup_of_mem hn, fun h => ?_⟩
  obtain ⟨l₁, l₂, he, -⟩ := List.lookup_eq_some_iff.mp h
  simp [he]

end Dictionaries

end Table
