import Mathlib.Data.List.Basic
import Mathlib.Data.List.Nodup

/-!
# Tables of rows

A table is a list of rows. The write statements of a relational store act on it:

* `update p f`: `UPDATE … SET f WHERE p`;
* `insertIgnore key r`: `INSERT … ON CONFLICT DO NOTHING` under a unique key;
* `bulkInsert key rs`: the same for many rows in one statement.

The lemmas say which rows a written table holds (`mem_update`, `mem_bulkInsert`) and that an
update which keeps a column keeps its list of values (`map_update`). `Inserted` collects what an
insert does to a table, whole runs of inserts included (`Inserted.trans`).
-/

set_option autoImplicit false

namespace Table

variable {α β κ : Type*}

/-! ## Updates -/

/-- `UPDATE … SET f WHERE p`. -/
def update (p : α → Bool) (f : α → α) (t : List α) : List α := t.map fun r => if p r then f r else r

theorem mem_update {p : α → Bool} {f : α → α} {t : List α} {x : α} :
    x ∈ update p f t ↔ ∃ r ∈ t, (if p r then f r else r) = x := by
  simp [update]

/-- **What an update must establish.** A property of every row survives when the written rows get
it back. -/
theorem forall_update {p : α → Bool} {f : α → α} {t : List α} {Q : α → Prop}
    (hw : ∀ r ∈ t, p r = true → Q (f r)) (hk : ∀ r ∈ t, p r = false → Q r) :
    ∀ x ∈ update p f t, Q x := by
  intro x hx
  obtain ⟨r, hr, rfl⟩ := mem_update.mp hx
  cases hp : p r with
  | true => simpa [hp] using hw r hr hp
  | false => simpa [hp] using hk r hr hp

/-- An update keeps a column that the written rows keep. -/
theorem map_update {p : α → Bool} {f : α → α} {t : List α} (g : α → β)
    (hg : ∀ r, p r = true → g (f r) = g r) : (update p f t).map g = t.map g := by
  rw [update, List.map_map]
  refine List.map_congr_left fun r _ => ?_
  cases hp : p r with
  | true => simpa [hp] using hg r hp
  | false => simp [hp]

/-- A row that the condition leaves out is still there. -/
theorem mem_update_of_not {p : α → Bool} {f : α → α} {t : List α} {r : α} (hr : r ∈ t)
    (hp : p r = false) : r ∈ update p f t :=
  mem_update.mpr ⟨r, hr, by simp [hp]⟩

/-- A row that the condition selects is there as written. -/
theorem mem_update_of {p : α → Bool} {f : α → α} {t : List α} {r : α} (hr : r ∈ t)
    (hp : p r = true) : f r ∈ update p f t :=
  mem_update.mpr ⟨r, hr, by simp [hp]⟩

/-- An update that selects no row changes nothing. -/
theorem update_eq_self {p : α → Bool} {f : α → α} {t : List α} (h : ∀ r ∈ t, p r = false) :
    update p f t = t := by
  conv_rhs => rw [← List.map_id t]
  exact List.map_congr_left fun r hr => by simp [h r hr]

/-! ## Lookups -/

/-- The row of a key, through a dictionary of the rows of many keys. -/
theorem lookup_map_filter [DecidableEq κ] {key : α → κ} {q : α → Bool} {g : α → β} {t : List α}
    {ids : List κ} {i : κ} (hi : i ∈ ids) :
    ((t.filter fun x => q x && decide (key x ∈ ids)).map fun x => (key x, g x)).lookup i =
      (t.find? fun x => q x && decide (key x = i)).map g := by
  induction t with
  | nil => rfl
  | cons x t ih =>
    by_cases hx : key x = i
    · subst hx
      cases hq : q x <;> simp [hq, hi, ih]
    · have hne : (i == key x) = false := beq_false_of_ne (Ne.symm hx)
      by_cases hsel : q x = true ∧ key x ∈ ids
      · simp [hsel.1, hsel.2, hx, hne, List.lookup_cons, ih]
      · rw [List.filter_cons_of_neg (by simpa using hsel), ih]
        simp [hx]

/-! ## Inserts under a unique key -/

section Insert

variable [DecidableEq κ] (key : α → κ)

/-- `INSERT … ON CONFLICT DO NOTHING`: the row is dropped when its key is taken. -/
def insertIgnore (t : List α) (r : α) : List α :=
  if key r ∈ t.map key then t else t ++ [r]

/-- One `INSERT … ON CONFLICT DO NOTHING` of many rows. -/
def bulkInsert (rs t : List α) : List α := rs.foldl (insertIgnore key) t

variable {key}

theorem subset_insertIgnore (t : List α) (r : α) : t ⊆ insertIgnore key t r := by
  intro x hx
  unfold insertIgnore
  split_ifs
  · exact hx
  · exact List.mem_append_left _ hx

theorem subset_bulkInsert (rs t : List α) : t ⊆ bulkInsert key rs t := by
  induction rs generalizing t with
  | nil => exact fun _ h => h
  | cons r rs ih => exact fun x hx => ih _ (subset_insertIgnore t r hx)

theorem prefix_bulkInsert (rs t : List α) : t <+: bulkInsert key rs t := by
  induction rs generalizing t with
  | nil => exact List.prefix_rfl
  | cons r rs ih =>
    refine List.IsPrefix.trans ?_ (ih _)
    unfold insertIgnore
    split_ifs
    · exact List.prefix_rfl
    · exact List.prefix_append t [r]

/-- **Rows after an insert**: the old ones, and new ones whose key was free. -/
theorem mem_bulkInsert {rs t : List α} {x : α} (hx : x ∈ bulkInsert key rs t) :
    x ∈ t ∨ (x ∈ rs ∧ key x ∉ t.map key) := by
  induction rs generalizing t with
  | nil => exact .inl hx
  | cons r rs ih =>
    rcases ih hx with h | ⟨h, hn⟩
    · unfold insertIgnore at h
      split_ifs at h with hk
      · exact .inl h
      · rcases List.mem_append.mp h with h | h
        · exact .inl h
        · obtain rfl := List.mem_singleton.mp h
          exact .inr ⟨List.mem_cons_self, hk⟩
    · refine .inr ⟨List.mem_cons_of_mem _ h, fun hc => hn ?_⟩
      exact List.map_subset key (subset_insertIgnore t r) hc

/-- Every inserted key is present afterwards. -/
theorem key_mem_bulkInsert {rs t : List α} {r : α} (hr : r ∈ rs) :
    key r ∈ (bulkInsert key rs t).map key := by
  induction rs generalizing t with
  | nil => exact absurd hr List.not_mem_nil
  | cons a rs ih =>
    rcases List.mem_cons.mp hr with rfl | h
    · refine List.map_subset key (subset_bulkInsert rs _) ?_
      unfold insertIgnore
      split_ifs with hk
      · exact hk
      · simp
    · exact ih h

theorem nodup_insertIgnore {t : List α} (r : α) (h : (t.map key).Nodup) :
    ((insertIgnore key t r).map key).Nodup := by
  unfold insertIgnore
  split_ifs with hk
  · exact h
  · rw [List.map_append, List.nodup_append]
    refine ⟨h, by simp, ?_⟩
    rintro a ha b hb rfl
    simp only [List.map_cons, List.map_nil, List.mem_singleton] at hb
    exact hk (hb ▸ ha)

/-- **An insert keeps the unique key unique.** -/
theorem nodup_bulkInsert (rs : List α) {t : List α} (h : (t.map key).Nodup) :
    ((bulkInsert key rs t).map key).Nodup := by
  induction rs generalizing t with
  | nil => exact h
  | cons r rs ih => exact ih (nodup_insertIgnore r h)

/-- Rows with free keys, each its own, are appended. -/
theorem bulkInsert_eq_append {rs t : List α} (hn : (rs.map key).Nodup)
    (hf : ∀ r ∈ rs, key r ∉ t.map key) : bulkInsert key rs t = t ++ rs := by
  induction rs generalizing t with
  | nil => exact (List.append_nil t).symm
  | cons r rs ih =>
    rw [List.map_cons, List.nodup_cons] at hn
    have hcons : bulkInsert key (r :: rs) t = bulkInsert key rs (insertIgnore key t r) := rfl
    rw [hcons, insertIgnore, if_neg (hf r List.mem_cons_self), ih hn.2, List.append_assoc,
      List.singleton_append]
    intro x hx hc
    rw [List.map_append, List.mem_append, List.map_singleton, List.mem_singleton] at hc
    rcases hc with hc | hc
    · exact hf x (List.mem_cons_of_mem _ hx) hc
    · exact hn.1 (List.mem_map.mpr ⟨x, hx, hc⟩)

variable (key) in
theorem length_bulkInsert_le (rs t : List α) : (bulkInsert key rs t).length ≤ t.length + rs.length := by
  induction rs generalizing t with
  | nil => exact Nat.le_refl _
  | cons r rs ih =>
    have hr : (insertIgnore key t r).length ≤ t.length + 1 := by
      unfold insertIgnore
      split_ifs <;> simp
    have hrest := ih (insertIgnore key t r)
    rw [List.length_cons]
    exact Nat.le_trans hrest (by omega)

/-- **When an insert drops no row**: the rows have free keys, each its own. -/
theorem length_bulkInsert_eq_iff {rs t : List α} :
    (bulkInsert key rs t).length = t.length + rs.length ↔
      (rs.map key).Nodup ∧ ∀ r ∈ rs, key r ∉ t.map key := by
  induction rs generalizing t with
  | nil => exact iff_of_true rfl ⟨.nil, nofun⟩
  | cons r rs ih =>
    have hcons : bulkInsert key (r :: rs) t = bulkInsert key rs (insertIgnore key t r) := rfl
    rw [hcons, insertIgnore, List.length_cons]
    split_ifs with hk
    · have hle := length_bulkInsert_le key rs t
      exact iff_of_false (by omega) fun h => h.2 r List.mem_cons_self hk
    · have hlen : (t ++ [r]).length + rs.length = t.length + (rs.length + 1) := by
        rw [List.length_append, List.length_singleton]
        omega
      rw [← hlen, ih, List.map_cons, List.nodup_cons, List.forall_mem_cons, and_iff_right hk]
      simp only [List.map_append, List.map_cons, List.map_nil, List.mem_append, List.mem_singleton,
        not_or, List.mem_map]
      constructor
      · exact fun ⟨hn, h⟩ => ⟨⟨fun ⟨x, hx, he⟩ => (h x hx).2 he, hn⟩, fun x hx => (h x hx).1⟩
      · exact fun ⟨⟨hr, hn⟩, h⟩ => ⟨hn, fun x hx => ⟨h x hx, fun he => hr ⟨x, hx, he⟩⟩⟩

variable (key) in
/-- What inserting `rows` under a unique key makes of the table `t`. -/
structure Inserted (rows t t' : List α) : Prop where
  old : t ⊆ t'
  new : ∀ x ∈ t', x ∈ t ∨ (x ∈ rows ∧ key x ∉ t.map key)
  all : ∀ x ∈ rows, key x ∈ t'.map key
  nodup : (t.map key).Nodup → (t'.map key).Nodup

/-- **What a bulk insert does.** -/
theorem inserted_bulkInsert (rows t : List α) : Inserted key rows t (bulkInsert key rows t) :=
  ⟨subset_bulkInsert rows t, fun _ => mem_bulkInsert, fun _ => key_mem_bulkInsert,
    nodup_bulkInsert rows⟩

omit [DecidableEq κ] in
theorem Inserted.refl (t : List α) : Inserted key [] t t :=
  ⟨fun _ h => h, fun _ h => .inl h, by simp, fun h => h⟩

omit [DecidableEq κ] in
/-- Two inserts in a row. -/
theorem Inserted.trans {rows rows' t t' t'' : List α} (h : Inserted key rows t t')
    (h' : Inserted key rows' t' t'') : Inserted key (rows ++ rows') t t'' := by
  refine ⟨fun x hx => h'.old (h.old hx), fun x hx => ?_, fun x hx => ?_, fun hn => h'.nodup (h.nodup hn)⟩
  · rcases h'.new x hx with hx | ⟨hx, hk⟩
    · exact (h.new x hx).imp_right fun ⟨hx, hk⟩ => ⟨List.mem_append_left _ hx, hk⟩
    · exact .inr ⟨List.mem_append_right _ hx, fun hc => hk (List.map_subset key h.old hc)⟩
  · rcases List.mem_append.mp hx with hx | hx
    · exact List.map_subset key h'.old (h.all x hx)
    · exact h'.all x hx

omit [DecidableEq κ] in
/-- Rows whose key is taken may be left out of an insert. -/
theorem Inserted.of_filter {p : α → Bool} {rows t t' : List α}
    (hp : ∀ x ∈ rows, p x = false → key x ∈ t.map key) (h : Inserted key (rows.filter p) t t') :
    Inserted key rows t t' := by
  refine ⟨h.old, fun x hx => ?_, fun x hx => ?_, h.nodup⟩
  · exact (h.new x hx).imp_right fun ⟨hx, hk⟩ => ⟨List.mem_of_mem_filter hx, hk⟩
  · cases hpx : p x with
    | true => exact h.all x (List.mem_filter.mpr ⟨hx, hpx⟩)
    | false => exact List.map_subset key h.old (hp x hx hpx)

end Insert

/-! ## Rows and their keys -/

/-- Two rows of a table with one unique key are one row. -/
theorem eq_of_key {key : α → κ} {t : List α} (h : (t.map key).Nodup) {x y : α} (hx : x ∈ t)
    (hy : y ∈ t) (hk : key x = key y) : x = y :=
  List.inj_on_of_nodup_map h hx hy hk

/-- The value under a key that occurs once. -/
theorem lookup_of_mem [BEq κ] [LawfulBEq κ] {l : List (κ × β)} {k : κ} {b : β}
    (hn : (l.map (·.1)).Nodup) (h : (k, b) ∈ l) : l.lookup k = some b := by
  cases hl : l.lookup k with
  | none => exact absurd (List.lookup_eq_none_iff.mp hl _ h) (by simp)
  | some m =>
    obtain ⟨l₁, l₂, he, -⟩ := List.lookup_eq_some_iff.mp hl
    have hm : (k, m) ∈ l := by simp [he]
    rw [show m = b from congrArg Prod.snd (eq_of_key hn hm h rfl)]

end Table
