import Mathlib.Init

/-!
# Splits of a list

A list split at one of its elements: what comes before it, the element, and what comes after.
`exists_split_cons` and `forall_split_cons`: a property of some split, or of every split, of a list
with a first element.
-/

set_option autoImplicit false

namespace Split

variable {α : Type*} {Q : List α → α → List α → Prop} {x : α} {xs : List α}

theorem exists_split_cons : (∃ l y r, x :: xs = l ++ y :: r ∧ Q l y r) ↔
    Q [] x xs ∨ ∃ l y r, xs = l ++ y :: r ∧ Q (x :: l) y r := by
  constructor
  · rintro ⟨_ | ⟨z, l⟩, y, r, h, hQ⟩
    · obtain ⟨rfl, rfl⟩ := List.cons.inj h
      exact .inl hQ
    · obtain ⟨rfl, rfl⟩ := List.cons.inj h
      exact .inr ⟨l, y, r, rfl, hQ⟩
  · rintro (hQ | ⟨l, y, r, rfl, hQ⟩)
    · exact ⟨[], x, xs, rfl, hQ⟩
    · exact ⟨x :: l, y, r, rfl, hQ⟩

theorem forall_split_cons : (∀ l y r, x :: xs = l ++ y :: r → Q l y r) ↔
    Q [] x xs ∧ ∀ l y r, xs = l ++ y :: r → Q (x :: l) y r := by
  constructor
  · exact fun h => ⟨h [] x xs rfl, fun l y r hxs => h (x :: l) y r (congrArg (x :: ·) hxs)⟩
  · rintro ⟨hx, hxs⟩ (_ | ⟨z, l⟩) y r h
    · obtain ⟨rfl, rfl⟩ := List.cons.inj h
      exact hx
    · obtain ⟨rfl, hr⟩ := List.cons.inj h
      exact hxs l y r hr

end Split
