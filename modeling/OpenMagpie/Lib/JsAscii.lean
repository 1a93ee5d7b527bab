import Mathlib.Algebra.BigOperators.Group.List.Basic
import OpenMagpie.Lib.JsRoundTrip

/-!
# Texts of ASCII characters

* `Ascii n s`: the text has ASCII characters only, at most `n` of them.
* **`Ascii.quote`**, **`Ascii.obj`**, `Ascii.arr`: what `JSON.stringify` writes of such texts.
* `ascii_units`, `ascii_ofList`: the code units of such characters.
-/

set_option autoImplicit false

namespace Js

/-- A text of ASCII characters, at most `n` of them. -/
structure Ascii (n : ℕ) (s : Str) : Prop where
  short : s.length ≤ n
  lt : ∀ u ∈ s, u < 128

instance instDecidableAscii (n : ℕ) (s : Str) : Decidable (Ascii n s) :=
  decidable_of_iff (s.length ≤ n ∧ ∀ u ∈ s, u < 128)
    ⟨fun h => ⟨h.1, h.2⟩, fun h => ⟨h.short, h.lt⟩⟩

variable {n m : ℕ} {s t : Str}

theorem Ascii.mono (h : Ascii n s) (hnm : n ≤ m) : Ascii m s := ⟨h.short.trans hnm, h.lt⟩

theorem Ascii.append (hs : Ascii n s) (ht : Ascii m t) : Ascii (n + m) (s ++ t) where
  short := by
    rw [List.length_append]
    exact Nat.add_le_add hs.short ht.short
  lt u hu := (List.mem_append.mp hu).elim (hs.lt u) (ht.lt u)

theorem Ascii.cons {u : ℕ} (hu : u < 128) (hs : Ascii n s) : Ascii (n + 1) (u :: s) where
  short := Nat.succ_le_succ hs.short
  lt := List.forall_mem_cons.mpr ⟨hu, hs.lt⟩

/-! ## What is written -/

theorem quoteUnit_ascii {u : ℕ} (hu : u < 128) : Ascii 6 (quoteUnit u) := by
  have h : ∀ u < 128, (quoteUnit u).length ≤ 6 ∧ (quoteUnit u).all (· < 128) = true := by decide +kernel
  obtain ⟨hshort, hlt⟩ := h u hu
  exact ⟨hshort, fun c hc => by simpa using List.all_eq_true.mp hlt c hc⟩

theorem quoteUnits_ascii (h : ∀ u ∈ s, u < 128) : Ascii (6 * s.length) (quoteUnits s) := by
  induction s with
  | nil => decide
  | cons u s ih =>
    obtain ⟨hu, hs⟩ := List.forall_mem_cons.mp h
    have hunit := quoteUnit_ascii hu
    cases s with
    | nil => exact hunit
    | cons v s =>
      have hnone : ¬ (isHighSurrogate u ∧ isLowSurrogate v) := by
        simp only [isHighSurrogate, Bool.and_eq_true, decide_eq_true_eq]
        omega
      rw [quoteUnits, if_neg hnone]
      refine (hunit.append (ih hs)).mono ?_
      simp only [List.length_cons]
      omega

/-- **A quoted text**: at most six characters for each of its own, and the quotes. -/
theorem Ascii.quote (h : Ascii n s) : Ascii (6 * n + 2) (quote s) := by
  have hunits := (quoteUnits_ascii h.lt).mono (Nat.mul_le_mul_left 6 h.short)
  have hend : Ascii 1 [0x22] := by decide
  exact (hunits.append hend).cons (by decide)

/-- Texts with commas between them. -/
theorem Ascii.intercalate {texts : List Str} {ns : List ℕ}
    (h : List.Forall₂ (fun s n => Ascii n s) texts ns) :
    Ascii (ns.sum + texts.length) (List.intercalate [0x2C] texts) := by
  have hcomma : Ascii 1 [0x2C] := by decide
  induction h with
  | nil => decide
  | @cons s n texts ns hs hrest ih =>
    cases texts with
    | nil =>
      refine Ascii.mono (n := n) ?_ (by simp; omega)
      simpa [List.intercalate] using hs
    | cons t texts =>
      have heq : List.intercalate [0x2C] (s :: t :: texts) =
          s ++ ([0x2C] ++ List.intercalate [0x2C] (t :: texts)) := by
        simp [List.intercalate]
      rw [heq]
      refine (hs.append (hcomma.append ih)).mono ?_
      simp only [List.sum_cons, List.length_cons]
      omega

section Values

variable (E : Engine)

/-- A member of an object. -/
theorem Ascii.member {k : Str} {v : Value} (hk : Ascii n k) (hv : Ascii m (E.stringify v)) :
    Ascii (6 * n + m + 3) (Js.quote k ++ 0x3A :: E.stringify v) :=
  (hk.quote.append (hv.cons (by decide))).mono (by omega)

/-- **An object without index keys.** -/
theorem Ascii.obj {kvs : List (Str × Value)} {ns : List ℕ}
    (hkeys : ∀ k ∈ kvs.map (·.1), elementIndex k = none)
    (h : List.Forall₂ (fun p n => Ascii n (Js.quote p.1 ++ 0x3A :: E.stringify p.2)) kvs ns) :
    Ascii (ns.sum + kvs.length + 2) (E.stringify (.obj kvs)) := by
  have horder : ownOrder (kvs.map fun p => (p.1, E.stringify p.2)) =
      kvs.map fun p => (p.1, E.stringify p.2) :=
    ownOrder_eq_self (by simpa [List.map_map] using hkeys)
  have hmembers : List.Forall₂ (fun s n => Ascii n s)
      (kvs.map fun p => Js.quote p.1 ++ 0x3A :: E.stringify p.2) ns := List.forall₂_map_left_iff.mpr h
  have hend : Ascii 1 [0x7D] := by decide
  rw [Engine.stringify, stringifyMembers_eq, horder, List.map_map]
  refine ((Ascii.intercalate hmembers).append hend).cons (by decide) |>.mono ?_
  rw [List.length_map]

theorem Ascii.arr {xs : List Value} {ns : List ℕ}
    (h : List.Forall₂ (fun x n => Ascii n (E.stringify x)) xs ns) :
    Ascii (ns.sum + xs.length + 2) (E.stringify (.arr xs)) := by
  have helements : List.Forall₂ (fun s n => Ascii n s) (xs.map E.stringify) ns :=
    List.forall₂_map_left_iff.mpr h
  have hend : Ascii 1 [0x5D] := by decide
  rw [Engine.stringify, stringifyElements_eq]
  refine ((Ascii.intercalate helements).append hend).cons (by decide) |>.mono ?_
  rw [List.length_map]

end Values

/-! ## Characters -/

theorem Ascii.units_append {cs ds : List Char} (hs : Ascii n (cs.flatMap unitsOf))
    (ht : Ascii m (ds.flatMap unitsOf)) : Ascii (n + m) ((cs ++ ds).flatMap unitsOf) := by
  rw [List.flatMap_append]
  exact hs.append ht

theorem Ascii.ofString_append {s t : String} (hs : Ascii n (ofString s)) (ht : Ascii m (ofString t)) :
    Ascii (n + m) (ofString (s ++ t)) := by
  rw [ofString, String.toList_append]
  exact hs.units_append ht

/-- The code units of ASCII characters. -/
theorem ascii_units {cs : List Char} (h : cs.all (fun c => c.toNat < 128) = true) :
    Ascii cs.length (cs.flatMap unitsOf) := by
  induction cs with
  | nil => decide
  | cons c cs ih =>
    rw [List.all_cons, Bool.and_eq_true, decide_eq_true_eq] at h
    have hunit : unitsOf c = [c.toNat] := if_pos (by omega)
    rw [List.flatMap_cons, hunit]
    exact (ih h.2).cons h.1

/-- The code units of a literal. -/
theorem ascii_ofList {cs : List Char} (hn : cs.length ≤ n)
    (h : cs.all (fun c => c.toNat < 128) = true) : Ascii n (ofString (String.ofList cs)) := by
  rw [ofString, String.toList_ofList]
  exact (ascii_units h).mono hn

end Js
