import Mathlib.Data.List.Forall2

/-!
# Computations that may fail

Inversion of the monadic operations on `Except` that return a value, and the rules for a monadic
fold: what every step keeps, the fold keeps (`Except.of_foldlM_eq_ok`), also when it speaks of the
elements consumed so far (`Except.prefix_of_foldlM_eq_ok`); `Except.foldlM_congr_ok`;
`Except.exists_foldlM_iff` says when a fold returns. `Except.Ensures` says what a computation may raise
and return, with the rules for a sequence and for a fold.
-/

set_option autoImplicit false

namespace Except

variable {ε ε' α β : Type}

theorem bind_eq_ok {x : Except ε α} {f : α → Except ε β} {b : β} :
    x >>= f = .ok b ↔ ∃ a, x = .ok a ∧ f a = .ok b := by
  cases x with
  | error e => simp [bind, Except.bind]
  | ok a => simp [bind, Except.bind]

theorem pure_eq_ok {a b : α} : (pure a : Except ε α) = .ok b ↔ a = b := by
  simp [pure, Except.pure]

theorem map_eq_ok {x : Except ε α} {f : α → β} {b : β} :
    x.map f = .ok b ↔ ∃ a, x = .ok a ∧ f a = b := by
  cases x <;> simp [Except.map]

theorem mapError_eq_ok {x : Except ε α} {f : ε → ε'} {a : α} :
    x.mapError f = .ok a ↔ x = .ok a := by
  cases x <;> simp [Except.mapError]

@[simp]
theorem isOk_ok {a : α} : (Except.ok a : Except ε α).isOk = true := rfl

@[simp]
theorem isOk_error {e : ε} : (Except.error e : Except ε α).isOk = false := rfl

@[simp]
theorem isOk_map {x : Except ε α} {f : α → β} : (x.map f).isOk = x.isOk := by
  cases x <;> rfl

theorem isOk_iff {x : Except ε α} : x.isOk = true ↔ ∃ a, x = .ok a := by
  cases x <;> simp

/-- A list of computations returns when every one does. -/
theorem mapM_eq_ok {f : α → Except ε β} {xs : List α} {ys : List β} :
    xs.mapM f = .ok ys ↔ List.Forall₂ (fun x y => f x = .ok y) xs ys := by
  induction xs generalizing ys with
  | nil =>
    rw [List.mapM_nil, pure_eq_ok]
    constructor
    · rintro rfl
      exact .nil
    · rintro ⟨⟩
      rfl
  | cons x xs ih =>
    rw [List.mapM_cons, bind_eq_ok]
    constructor
    · rintro ⟨y, hy, h⟩
      obtain ⟨ys, hys, h⟩ := bind_eq_ok.mp h
      obtain rfl := pure_eq_ok.mp h
      exact .cons hy (ih.mp hys)
    · rintro (_ | ⟨hy, hys⟩)
      exact ⟨_, hy, bind_eq_ok.mpr ⟨_, ih.mpr hys, rfl⟩⟩

/-- A list of computations that each return one value, or do not, under a condition. -/
theorem mapM_eq_ok_map {f : α → Except ε β} {P : α → Prop} {g : α → β}
    (h : ∀ x y, f x = .ok y ↔ P x ∧ y = g x) {xs : List α} {ys : List β} :
    xs.mapM f = .ok ys ↔ (∀ x ∈ xs, P x) ∧ ys = xs.map g := by
  rw [mapM_eq_ok]
  induction xs generalizing ys with
  | nil => simp
  | cons x xs ih =>
    rw [List.forall₂_cons_left_iff, List.forall_mem_cons, List.map_cons]
    constructor
    · rintro ⟨y, ys, hy, hys, rfl⟩
      obtain ⟨hp, rfl⟩ := (h x y).mp hy
      obtain ⟨hps, rfl⟩ := ih.mp hys
      exact ⟨⟨hp, hps⟩, rfl⟩
    · rintro ⟨⟨hp, hps⟩, rfl⟩
      exact ⟨g x, xs.map g, (h x _).mpr ⟨hp, rfl⟩, ih.mpr ⟨hps, rfl⟩, rfl⟩

/-- A loop over a list returns when every turn does. -/
theorem forM_eq_ok {f : α → Except ε Unit} {xs : List α} :
    xs.forM f = .ok () ↔ ∀ x ∈ xs, f x = .ok () := by
  induction xs with
  | nil => simp [pure_eq_ok]
  | cons x xs ih =>
    rw [List.forM_eq_forM, List.forM_cons, bind_eq_ok, List.forall_mem_cons]
    constructor
    · rintro ⟨_, hx, hxs⟩
      exact ⟨hx, ih.mp hxs⟩
    · rintro ⟨hx, hxs⟩
      exact ⟨_, hx, ih.mpr hxs⟩

/-- The results of a list of computations come from its members. -/
theorem forall₂_mem_right {R : α → β → Prop} {xs : List α} {ys : List β}
    (h : List.Forall₂ R xs ys) {y : β} (hy : y ∈ ys) : ∃ x ∈ xs, R x y := by
  induction h with
  | nil => exact absurd hy List.not_mem_nil
  | cons hxy _ ih =>
    rcases List.mem_cons.mp hy with rfl | hy
    · exact ⟨_, List.mem_cons_self, hxy⟩
    · obtain ⟨x, hx, hr⟩ := ih hy
      exact ⟨x, List.mem_cons_of_mem _ hx, hr⟩

/-- **The rule for a monadic fold.** -/
theorem of_foldlM_eq_ok {f : β → α → Except ε β} {P : β → Prop}
    (hf : ∀ b a b', P b → f b a = .ok b' → P b') {xs : List α} {b b' : β} (hb : P b)
    (h : xs.foldlM f b = .ok b') : P b' := by
  induction xs generalizing b with
  | nil => exact pure_eq_ok.mp h ▸ hb
  | cons x xs ih =>
    rw [List.foldlM_cons] at h
    obtain ⟨c, hc, h⟩ := bind_eq_ok.mp h
    exact ih (hf _ _ _ hb hc) h

/-- The rule for a monadic fold, with the elements consumed so far. -/
theorem prefix_of_foldlM_eq_ok {f : β → α → Except ε β} {P : List α → β → Prop}
    (hf : ∀ xs b a b', P xs b → f b a = .ok b' → P (xs ++ [a]) b') {xs ys : List α} {b b' : β}
    (hb : P xs b) (h : ys.foldlM f b = .ok b') : P (xs ++ ys) b' := by
  induction ys generalizing xs b with
  | nil =>
    rw [List.append_nil]
    exact pure_eq_ok.mp h ▸ hb
  | cons y ys ih =>
    rw [List.foldlM_cons] at h
    obtain ⟨c, hc, h⟩ := bind_eq_ok.mp h
    have hy := ih (hf _ _ _ _ hb hc) h
    rwa [List.append_assoc] at hy

/-- A fold whose steps return what another's do returns what the other does. -/
theorem foldlM_congr_ok {f g : β → α → Except ε β} {xs : List α}
    (hfg : ∀ a ∈ xs, ∀ b b', f b a = .ok b' → g b a = .ok b') {b b' : β}
    (h : xs.foldlM f b = .ok b') : xs.foldlM g b = .ok b' := by
  induction xs generalizing b with
  | nil => exact h
  | cons x xs ih =>
    rw [List.foldlM_cons] at h ⊢
    obtain ⟨c, hc, h⟩ := bind_eq_ok.mp h
    refine bind_eq_ok.mpr ⟨c, hfg x List.mem_cons_self b c hc, ?_⟩
    exact ih (fun a ha => hfg a (List.mem_cons_of_mem _ ha)) h

/-- A fold returns when the success of a step depends on its element only, and every element has
it. -/
theorem exists_foldlM_iff {f : β → α → Except ε β} {P : α → Prop}
    (hf : ∀ b a, (∃ b', f b a = .ok b') ↔ P a) {xs : List α} {b : β} :
    (∃ b', xs.foldlM f b = .ok b') ↔ ∀ a ∈ xs, P a := by
  induction xs generalizing b with
  | nil => exact iff_of_true ⟨b, rfl⟩ (fun _ h => absurd h List.not_mem_nil)
  | cons x xs ih =>
    rw [List.forall_mem_cons, List.foldlM_cons]
    constructor
    · rintro ⟨b', h⟩
      obtain ⟨c, hc, h⟩ := bind_eq_ok.mp h
      exact ⟨(hf b x).mp ⟨c, hc⟩, ih.mp ⟨b', h⟩⟩
    · rintro ⟨hx, hxs⟩
      obtain ⟨c, hc⟩ := (hf b x).mpr hx
      obtain ⟨b', h⟩ := ih.mpr hxs
      exact ⟨b', bind_eq_ok.mpr ⟨c, hc, h⟩⟩

/-! ## What is raised and what is returned -/

section Ensures

variable {P : ε → Prop} {Q Q' : α → Prop} {R : β → Prop}

/-- The computation raises only errors in `P`, and returns only values in `Q`. -/
def Ensures (P : ε → Prop) (Q : α → Prop) : Except ε α → Prop
  | .error e => P e
  | .ok a => Q a

theorem Ensures.of_ok {x : Except ε α} (h : Ensures P Q x) {a : α} (ha : x = .ok a) : Q a := by
  subst ha
  exact h

theorem Ensures.of_error {x : Except ε α} (h : Ensures P Q x) {e : ε} (he : x = .error e) : P e := by
  subst he
  exact h

theorem Ensures.imp {x : Except ε α} (h : Ensures P Q x) (hq : ∀ a, Q a → Q' a) :
    Ensures P Q' x := by
  cases x with
  | error e => exact h
  | ok a => exact hq a h

/-- **The rule for a sequence.** -/
theorem Ensures.bind {x : Except ε α} {f : α → Except ε β} (h : Ensures P Q x)
    (hf : ∀ a, Q a → Ensures P R (f a)) : Ensures P R (x >>= f) := by
  cases x with
  | error e => exact h
  | ok a => exact hf a h

/-- **The rule for a fold**, with an invariant of its steps. -/
theorem Ensures.foldlM {f : β → α → Except ε β} {xs : List α} {b : β} (hb : R b)
    (hf : ∀ a ∈ xs, ∀ b, R b → Ensures P R (f b a)) : Ensures P R (xs.foldlM f b) := by
  induction xs generalizing b with
  | nil => exact hb
  | cons x xs ih =>
    rw [List.foldlM_cons]
    exact (hf x List.mem_cons_self b hb).bind fun b' hb' =>
      ih hb' fun a ha => hf a (List.mem_cons_of_mem _ ha)

end Ensures

end Except
