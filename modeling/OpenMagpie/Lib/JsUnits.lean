import OpenMagpie.Lib.Js

/-!
# Texts as code units

* `toText`: the text of UTF-16 code units, which have none where a surrogate stands alone.
* **`toText_ofString`**, **`ofString_injective`**: a text is read back from its code units.
* `length_flatMap_unitsOf_le`: at most two code units for each character.
* `ownOrder_eq_self`: an object without index keys has its keys in the order of their addition.
-/

set_option autoImplicit false

namespace Js

/-- A character is no surrogate. -/
theorem char_cases (c : Char) : c.toNat < 0xD800 ∨ 0xE000 ≤ c.toNat ∧ c.toNat < 0x110000 := by
  have h : c.toNat < 0xD800 ∨ 0xDFFF < c.toNat ∧ c.toNat < 0x110000 := c.valid
  omega

/-- The characters of code units, after a high surrogate or at the start of a character; nothing where
a surrogate stands alone. -/
def decode : Option ℕ → Str → Option (List Char)
  | none, [] => some []
  | some _, [] => none
  | none, u :: s =>
    if 0xD800 ≤ u ∧ u < 0xDC00 then decode (some u) s
    else if 0xDC00 ≤ u ∧ u < 0xE000 ∨ 0x10000 ≤ u then none
    else (decode none s).map (Char.ofNat u :: ·)
  | some high, u :: s =>
    if 0xDC00 ≤ u ∧ u < 0xE000 then
      (decode none s).map (Char.ofNat (0x10000 + (high - 0xD800) * 0x400 + (u - 0xDC00)) :: ·)
    else none

/-- **A character is read back from its code units.** -/
theorem decode_unitsOf (c : Char) (s : Str) :
    decode none (unitsOf c ++ s) = (decode none s).map (c :: ·) := by
  have hc := char_cases c
  unfold unitsOf
  by_cases hbig : c.toNat < 0x10000
  · rw [if_pos hbig, List.cons_append, List.nil_append, decode, if_neg (by omega),
      if_neg (by omega), Char.ofNat_toNat]
  · have hhigh : 0xD800 ≤ 0xD800 + (c.toNat - 0x10000) / 0x400 ∧
        0xD800 + (c.toNat - 0x10000) / 0x400 < 0xDC00 := by omega
    have hlow : 0xDC00 ≤ 0xDC00 + (c.toNat - 0x10000) % 0x400 ∧
        0xDC00 + (c.toNat - 0x10000) % 0x400 < 0xE000 := by omega
    have hcode : 0x10000 + (0xD800 + (c.toNat - 0x10000) / 0x400 - 0xD800) * 0x400 +
        (0xDC00 + (c.toNat - 0x10000) % 0x400 - 0xDC00) = c.toNat := by omega
    rw [if_neg hbig, List.cons_append, List.cons_append, List.nil_append, decode, if_pos hhigh, decode,
      if_pos hlow, hcode, Char.ofNat_toNat]

theorem decode_flatMap_unitsOf (s : List Char) : decode none (s.flatMap unitsOf) = some s := by
  induction s with
  | nil => rfl
  | cons c s ih =>
    rw [List.flatMap_cons, decode_unitsOf, ih]
    rfl

/-- The text of code units. -/
def toText (s : Str) : Option String := (decode none s).map String.ofList

/-- **A text is read back from its code units.** -/
theorem toText_ofString (s : String) : toText (ofString s) = some s := by
  rw [toText, ofString, decode_flatMap_unitsOf, Option.map_some, String.ofList_toList]

/-- **A text is determined by its code units.** -/
theorem ofString_injective : Function.Injective ofString := by
  intro s t h
  have hs := toText_ofString s
  rw [h, toText_ofString] at hs
  exact (Option.some.inj hs).symm

@[simp]
theorem ofString_inj {s t : String} : ofString s = ofString t ↔ s = t := ofString_injective.eq_iff

theorem length_unitsOf_le (c : Char) : (unitsOf c).length ≤ 2 := by
  unfold unitsOf
  split <;> simp

theorem length_flatMap_unitsOf_le (s : List Char) : (s.flatMap unitsOf).length ≤ 2 * s.length := by
  induction s with
  | nil => simp
  | cons c s ih =>
    have hc := length_unitsOf_le c
    rw [List.flatMap_cons, List.length_append, List.length_cons]
    omega

/-- Without index keys, the own keys are in the order of their addition. -/
theorem ownOrder_eq_self {α : Type} {kvs : List (Str × α)}
    (h : ∀ k ∈ kvs.map (·.1), elementIndex k = none) : ownOrder kvs = kvs := by
  have hnone (p : Str × α) (hp : p ∈ kvs) : elementIndex p.1 = none := h p.1 (List.mem_map_of_mem hp)
  have hindices : (kvs.filter fun p => (elementIndex p.1).isSome) = [] := by
    rw [List.filter_eq_nil_iff]
    intro p hp
    simp [hnone p hp]
  have hothers : (kvs.filter fun p => (elementIndex p.1).isNone) = kvs := by
    rw [List.filter_eq_self]
    intro p hp
    simp [hnone p hp]
  rw [ownOrder, hindices, hothers, List.mergeSort_nil, List.nil_append]

end Js
