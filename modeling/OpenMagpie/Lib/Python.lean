import Mathlib.Data.Int.Notation
import Mathlib.Data.Rat.Init
import OpenMagpie.Lib.Except
import OpenMagpie.Lib.Split

/-!
# Values and exceptions of Python

The values that `json.loads` returns, with the operations of the language that may raise on them,
and generators.

* `Exc`, `Raises`: the exceptions, and a computation that raises one of a class of them;
  `raises_bind`: a sequence raises where one of its parts does.
* `forEach`: a loop over a state; **`forEach_ok`**: it returns when its body does at every turn.
* `Value`, `Dict.get`, `Value.iter`, `Value.toInt`: the values, and the operations.
* `Generator`: what a generator has yielded, and how it ended. **`raises_ofList`**: a generator over a
  list raises what the first element that raises does.
-/

set_option autoImplicit false

namespace Python

open Split

/-! ## Exceptions -/

/-- The exceptions of the language that the operations raise, and those of the libraries. -/
inductive Exc (ε : Type)
  | attributeError
  | typeError
  | valueError
  | jsonDecodeError
  | overflowError
  | recursionError
  | assertionError
  | keyError
  | lib (e : ε)
  deriving DecidableEq

section Raises

variable {ε α β : Type} {P : Exc ε → Prop}

/-- The computation raises an exception of the class `P`. -/
def Raises (P : Exc ε → Prop) (x : Except (Exc ε) α) : Prop := ∃ e, x = .error e ∧ P e

@[simp] theorem raises_ok {a : α} : ¬ Raises P (.ok a : Except (Exc ε) α) := by simp [Raises]

@[simp] theorem raises_pure {a : α} : ¬ Raises P (pure a : Except (Exc ε) α) := raises_ok

@[simp] theorem raises_error {e : Exc ε} : Raises P (.error e : Except (Exc ε) α) ↔ P e := by
  simp [Raises]

/-- A sequence raises in its first part, or in the second. -/
@[simp] theorem raises_bind {x : Except (Exc ε) α} {f : α → Except (Exc ε) β} :
    Raises P (x >>= f) ↔ Raises P x ∨ ∃ a, x = .ok a ∧ Raises P (f a) := by
  cases x with
  | error e => simp [bind, Except.bind]
  | ok a => simp [bind, Except.bind]

@[simp] theorem raises_map {x : Except (Exc ε) α} {f : α → β} :
    Raises P (x.map f) ↔ Raises P x := by
  cases x <;> simp [Except.map]

/-- It returns when it raises nothing. -/
theorem exists_eq_ok (P : Exc ε → Prop) {x : Except (Exc ε) α} :
    (∃ a, x = .ok a) ↔ ¬ Raises P x ∧ ¬ Raises (fun e => ¬ P e) x := by
  cases x with
  | ok a => simp
  | error e => simp

end Raises

/-! ## Loops -/

section Loops

variable {ε α σ : Type}

/-- A loop whose body may raise, with the state that it leaves. -/
def forEach (step : α → σ → σ × Except (Exc ε) Unit) : List α → σ → σ × Except (Exc ε) Unit
  | [], s => (s, .ok ())
  | x :: xs, s => match step x s with
    | (s, .ok ()) => forEach step xs s
    | (s, .error e) => (s, .error e)

variable {step : α → σ → σ × Except (Exc ε) Unit} {x : α} {xs : List α} {s : σ}

theorem forEach_cons_ok (h : (step x s).2 = .ok ()) :
    forEach step (x :: xs) s = forEach step xs (step x s).1 := by
  rw [forEach]
  split
  · rename_i hs
    rw [hs]
  · rename_i hs
    rw [hs] at h
    cases h

theorem forEach_cons_error {e : Exc ε} (h : (step x s).2 = .error e) :
    forEach step (x :: xs) s = ((step x s).1, .error e) := by
  rw [forEach]
  split
  · rename_i hs
    rw [hs] at h
    cases h
  · rename_i hs
    rw [hs] at h ⊢
    rw [Except.error.inj h]

/-- **A loop returns** when its body does at every element, in the state that the ones before it
leave. -/
theorem forEach_ok : (forEach step xs s).2 = .ok () ↔ ∀ before x after, xs = before ++ x :: after →
    (step x (forEach step before s).1).2 = .ok () := by
  induction xs generalizing s with
  | nil => simp [forEach]
  | cons x xs ih =>
    cases hx : (step x s).2 with
    | error e =>
      rw [forEach_cons_error hx]
      refine iff_of_false nofun fun h => ?_
      cases hx.symm.trans (h [] x xs rfl)
    | ok u =>
      have hfirst : (step x (forEach step [] s).1).2 = .ok () := hx
      rw [forEach_cons_ok hx, ih, forall_split_cons, and_iff_right hfirst]
      exact forall₃_congr fun before y after => by rw [forEach_cons_ok hx]

/-- What the loop raises, its body raises. -/
theorem of_forEach_error {P : Exc ε → Prop} (h : ∀ x s e, (step x s).2 = .error e → P e) {e : Exc ε}
    (he : (forEach step xs s).2 = .error e) : P e := by
  induction xs generalizing s with
  | nil => cases he
  | cons x xs ih =>
    cases hx : (step x s).2 with
    | error e' =>
      rw [forEach_cons_error hx] at he
      exact Except.error.inj he ▸ h x s e' hx
    | ok u =>
      rw [forEach_cons_ok hx] at he
      exact ih he

/-- A column that every turn of the body extends. -/
theorem forEach_append {β : Type} {f : σ → List β} {g : α → List β}
    (h : ∀ x s, f (step x s).1 = f s ++ g x) (he : (forEach step xs s).2 = .ok ()) :
    f (forEach step xs s).1 = f s ++ xs.flatMap g := by
  induction xs generalizing s with
  | nil => simp [forEach]
  | cons x xs ih =>
    cases hx : (step x s).2 with
    | error e =>
      rw [forEach_cons_error hx] at he
      cases he
    | ok u =>
      rw [forEach_cons_ok hx] at he ⊢
      rw [ih he, h, List.flatMap_cons, List.append_assoc]

end Loops

/-! ## Values -/

/-- A float. -/
inductive FloatValue
  | finite (q : ℚ)
  | inf (negative : Bool)
  | nan

/-- A value that `json.loads` returns. -/
inductive Value
  | none
  | bool (b : Bool)
  | int (n : ℤ)
  | float (x : FloatValue)
  | str (s : String)
  | list (xs : List Value)
  | dict (kvs : List (String × Value))

/-- The pairs of a dict. -/
abbrev Dict := List (String × Value)

/-- `d.get(k, default)`. -/
def Dict.get (d : Dict) (k : String) (default : Value := .none) : Value :=
  (d.lookup k).getD default

namespace Value

/-- A value counts as true unless it is `None`, false, zero or empty. -/
def truthy : Value → Bool
  | none => false
  | bool b => b
  | int n => n != 0
  | float (.finite q) => q != 0
  | float _ => true
  | str s => s != ""
  | list xs => ! xs.isEmpty
  | dict kvs => ! kvs.isEmpty

/-- `v or default`. -/
def orElse (v default : Value) : Value := if v.truthy then v else default

/-- The number that a finite `int` or `float` is; a `bool` is an `int`. -/
def asNumber : Value → Option ℚ
  | int n => some n
  | bool b => some (if b then 1 else 0)
  | float (.finite q) => some q
  | _ => Option.none

/-- `isinstance(v, dict)`. -/
def asDict : Value → Option Dict
  | dict kvs => some kvs
  | _ => Option.none

/-- `str(v)`, given the `repr` of the values that are not strings. -/
def toStr (repr : Value → String) : Value → String
  | str s => s
  | v => repr v

variable {ε : Type}

/-- `iter(v)`: the elements of a list, the keys of a dict, the characters of a string. -/
def iter : Value → Except (Exc ε) (List Value)
  | list xs => .ok xs
  | dict kvs => .ok (kvs.map fun kv => str kv.1)
  | str s => .ok (s.toList.map fun c => str (String.ofList [c]))
  | none | bool _ | int _ | float _ => .error .typeError

/-- `int(v)`, given the integers that strings spell. -/
def toInt (parse : String → Option ℤ) : Value → Except (Exc ε) ℤ
  | int n => .ok n
  | bool b => .ok (if b then 1 else 0)
  | float (.finite q) => .ok (q.num.tdiv q.den)
  | float (.inf _) => .error .overflowError
  | float .nan => .error .valueError
  | str s => match parse s with
    | some n => .ok n
    | Option.none => .error .valueError
  | none | list _ | dict _ => .error .typeError

/-- The value can be iterated over. -/
def Iterable : Value → Prop
  | list _ | dict _ | str _ => True
  | none | bool _ | int _ | float _ => False

/-- The value spells an integer. -/
def Integral (parse : String → Option ℤ) : Value → Prop
  | int _ | bool _ | float (.finite _) => True
  | str s => (parse s).isSome
  | float _ | none | list _ | dict _ => False

instance : DecidablePred Iterable := fun v => by unfold Iterable; split <;> infer_instance

instance (parse : String → Option ℤ) : DecidablePred (Integral parse) := fun v => by
  unfold Integral; split <;> infer_instance

/-- `iter` raises a `TypeError` on the rest. -/
@[simp] theorem raises_iter {P : Exc ε → Prop} {v : Value} :
    Raises P v.iter ↔ ¬ v.Iterable ∧ P .typeError := by
  cases v <;> simp [iter, Iterable]

/-- `int` raises a `TypeError`, a `ValueError` or an `OverflowError` on the rest. -/
theorem raises_toInt {P : Exc ε → Prop} {Q : Prop} {parse : String → Option ℤ} {v : Value}
    (ht : P .typeError ↔ Q) (hv : P .valueError ↔ Q) (ho : P .overflowError ↔ Q) :
    Raises P (v.toInt parse) ↔ ¬ v.Integral parse ∧ Q := by
  cases v with
  | float x => cases x <;> simp [toInt, Integral, ho, hv]
  | str s => cases h : parse s <;> simp [toInt, Integral, h, hv]
  | _ => simp [toInt, Integral, ht]

end Value

/-! ## Generators -/

/-- What a generator has yielded, and how it ended. -/
structure Generator (ε α : Type) where
  yielded : List α
  outcome : Except (Exc ε) Unit

namespace Generator

variable {ε α β : Type}

/-- A generator that raises before it yields. -/
def raise (e : Exc ε) : Generator ε α := ⟨[], .error e⟩

/-- A loop over a list whose body yields at most one value. -/
def ofList (step : α → Except (Exc ε) (Option β)) : List α → Generator ε β
  | [] => ⟨[], .ok ()⟩
  | x :: xs => match step x with
    | .error e => raise e
    | .ok r =>
      let rest := ofList step xs
      ⟨r.toList ++ rest.yielded, rest.outcome⟩

/-- `yield from` one generator, then from another. -/
def append (s t : Generator ε β) : Generator ε β :=
  match s.outcome with
  | .error _ => s
  | .ok () => ⟨s.yielded ++ t.yielded, t.outcome⟩

/-- A loop over what a computation returns. -/
def ofExcept (step : α → Except (Exc ε) (Option β)) (xs : Except (Exc ε) (List α)) : Generator ε β :=
  match xs with
  | .error e => raise e
  | .ok xs => ofList step xs

/-- A generator whose values pass through a function. -/
def map {γ : Type} (f : β → γ) (s : Generator ε β) : Generator ε γ := ⟨s.yielded.map f, s.outcome⟩

variable {step : α → Except (Exc ε) (Option β)} {P : Exc ε → Prop}

/-- The body of a loop may apply the function. -/
theorem map_ofList {γ : Type} (f : β → γ) (xs : List α) :
    (ofList step xs).map f = ofList (fun x => (step x).map (·.map f)) xs := by
  induction xs with
  | nil => rfl
  | cons x xs ih =>
    unfold ofList
    cases step x with
    | error e => rfl
    | ok r =>
      rw [← ih]
      cases r <;> rfl

theorem map_ofExcept {γ : Type} (f : β → γ) (xs : Except (Exc ε) (List α)) :
    (ofExcept step xs).map f = ofExcept (fun x => (step x).map (·.map f)) xs := by
  cases xs with
  | error e => rfl
  | ok xs => exact map_ofList f xs

/-- What is yielded comes from an element. -/
theorem mem_ofList {xs : List α} {y : β} (hy : y ∈ (ofList step xs).yielded) :
    ∃ x ∈ xs, step x = .ok (some y) := by
  induction xs with
  | nil => exact absurd hy List.not_mem_nil
  | cons x xs ih =>
    unfold ofList at hy
    cases hs : step x with
    | error e => simp [hs, raise] at hy
    | ok r =>
      rw [hs] at hy
      rcases List.mem_append.mp hy with h | h
      · obtain rfl := Option.mem_toList.mp h
        exact ⟨x, List.mem_cons_self, hs⟩
      · obtain ⟨x', hx', hs'⟩ := ih h
        exact ⟨x', List.mem_cons_of_mem _ hx', hs'⟩

theorem mem_ofExcept {xs : Except (Exc ε) (List α)} {y : β}
    (hy : y ∈ (ofExcept step xs).yielded) : ∃ l x, xs = .ok l ∧ x ∈ l ∧ step x = .ok (some y) := by
  cases xs with
  | error e => exact absurd hy List.not_mem_nil
  | ok l =>
    obtain ⟨x, hx, hs⟩ := mem_ofList hy
    exact ⟨l, x, rfl, hx, hs⟩

/-- A loop that ends normally has run its body on every element. -/
theorem ofList_ok {xs : List α} (h : (ofList step xs).outcome = .ok ()) {x : α} (hx : x ∈ xs) :
    ∃ r, step x = .ok r ∧ r.toList ⊆ (ofList step xs).yielded := by
  induction xs with
  | nil => exact absurd hx List.not_mem_nil
  | cons x' xs ih =>
    unfold ofList at h ⊢
    cases hs : step x' with
    | error e => simp [hs, raise] at h
    | ok r =>
      rw [hs] at h
      rcases List.mem_cons.mp hx with rfl | hx
      · exact ⟨r, hs, List.subset_append_left _ _⟩
      · obtain ⟨r', hs', hr'⟩ := ih h hx
        exact ⟨r', hs', List.subset_append_of_subset_right _ hr'⟩

/-- **A loop raises what the first element that raises does.** -/
theorem raises_ofList {xs : List α} : Raises P (ofList step xs).outcome ↔
    ∃ before x after, xs = before ++ x :: after ∧ (∀ y ∈ before, ∃ r, step y = .ok r) ∧
      Raises P (step x) := by
  induction xs with
  | nil => simp [ofList]
  | cons x xs ih =>
    rw [exists_split_cons]
    unfold ofList
    cases hs : step x with
    | error e => simp [raise, hs]
    | ok r => simpa [hs] using ih

/-- A loop ends normally when its body returns on every element. -/
theorem outcome_ofList {xs : List α} :
    (ofList step xs).outcome = .ok () ↔ ∀ x ∈ xs, ∃ r, step x = .ok r := by
  refine ⟨fun h x hx => ?_, fun h => ?_⟩
  · obtain ⟨r, hr, -⟩ := ofList_ok h hx
    exact ⟨r, hr⟩
  · cases ho : (ofList step xs).outcome with
    | ok u => rfl
    | error e =>
      obtain ⟨before, x, after, rfl, -, e', he, -⟩ :=
        raises_ofList.mp (⟨e, ho, trivial⟩ : Raises (fun _ => True) (ofList step xs).outcome)
      obtain ⟨r, hr⟩ := h x (by simp)
      cases hr.symm.trans he

/-- What such a loop yields, through a function. -/
theorem yielded_ofList {γ : Type} {f : β → γ} {g : α → Option γ} {xs : List α}
    (h : ∀ x ∈ xs, ∃ r, step x = .ok r ∧ r.map f = g x) :
    (ofList step xs).yielded.map f = xs.filterMap g := by
  induction xs with
  | nil => rfl
  | cons x xs ih =>
    obtain ⟨⟨r, hr, hg⟩, h⟩ := List.forall_mem_cons.mp h
    have hcons : (ofList step (x :: xs)).yielded = r.toList ++ (ofList step xs).yielded := by
      simp [ofList, hr]
    rw [hcons, List.map_append, ih h, List.filterMap_cons, ← hg]
    cases r <;> rfl

theorem ofList_cons_ok {x : α} {xs : List α} {r : Option β} (h : step x = .ok r) :
    ofList step (x :: xs) =
      ⟨r.toList ++ (ofList step xs).yielded, (ofList step xs).outcome⟩ := by
  rw [ofList, h]

theorem ofList_cons_error {x : α} {xs : List α} {e : Exc ε} (h : step x = .error e) :
    ofList step (x :: xs) = raise e := by
  rw [ofList, h]

/-- A function that only gives what the body returns gives at most as much as the loop yields. -/
theorem length_filterMap_le {g : α → Option β} {xs : List α}
    (hg : ∀ x ∈ xs, ∀ r y, step x = .ok r → g x = some y → r = some y)
    (h : (ofList step xs).outcome = .ok ()) :
    (xs.filterMap g).length ≤ (ofList step xs).yielded.length := by
  induction xs with
  | nil => exact Nat.le_refl _
  | cons x xs ih =>
    obtain ⟨hx, hxs⟩ := List.forall_mem_cons.mp hg
    cases hs : step x with
    | error e =>
      rw [ofList_cons_error hs] at h
      cases h
    | ok r =>
      rw [ofList_cons_ok hs] at h ⊢
      have hrest := ih hxs h
      cases hy : g x with
      | none =>
        rw [List.filterMap_cons_none hy, List.length_append]
        omega
      | some y =>
        rw [List.filterMap_cons_some hy, hx r y hs hy]
        exact Nat.succ_le_succ hrest

/-- **A loop yields what such a function gives** when its body returns just that, element by
element. -/
theorem ofList_eq_iff {g : α → Option β} {xs : List α}
    (hg : ∀ x ∈ xs, ∀ r y, step x = .ok r → g x = some y → r = some y) :
    ofList step xs = ⟨xs.filterMap g, .ok ()⟩ ↔ ∀ x ∈ xs, step x = .ok (g x) := by
  induction xs with
  | nil => exact iff_of_true rfl nofun
  | cons x xs ih =>
    obtain ⟨hx, hxs⟩ := List.forall_mem_cons.mp hg
    rw [List.forall_mem_cons, ← ih hxs]
    cases hs : step x with
    | error e => simp [ofList_cons_error hs, raise]
    | ok r =>
      rw [ofList_cons_ok hs, Except.ok.injEq]
      generalize hrest : ofList step xs = rest
      obtain ⟨yielded, outcome⟩ := rest
      cases hy : g x with
      | some y =>
        obtain rfl := hx r y hs hy
        simp [List.filterMap_cons_some hy]
      | none =>
        rw [List.filterMap_cons_none hy]
        cases r with
        | none => simp
        | some z =>
          -- the body yields one value too many, and nothing later makes up for it
          refine iff_of_false (fun h => ?_) nofun
          obtain ⟨hyielded, hout⟩ := Generator.mk.inj h
          have hle := length_filterMap_le hxs (hrest ▸ hout)
          rw [← hyielded, hrest, Option.toList_some, List.singleton_append, List.length_cons] at hle
          omega

theorem mem_append {s t : Generator ε β} {y : β} (hy : y ∈ (s.append t).yielded) :
    y ∈ s.yielded ∨ y ∈ t.yielded := by
  unfold append at hy
  split at hy
  · exact .inl hy
  · exact List.mem_append.mp hy

/-- Two generators in a row raise what the first one does, or what the second one does after it. -/
theorem raises_append {s t : Generator ε β} : Raises P (s.append t).outcome ↔
    Raises P s.outcome ∨ s.outcome = .ok () ∧ Raises P t.outcome := by
  unfold append
  cases h : s.outcome with
  | error e => simp [h]
  | ok u => simp

end Generator

end Python
