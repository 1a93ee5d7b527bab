import Mathlib.Algebra.GroupWithZero.Nat
import Mathlib.Algebra.BigOperators.Group.List.Basic
import Mathlib.Data.List.Infix
import Mathlib.Data.List.TakeDrop

/-!
# Fences around a text

A word occurs at a place of a text when the text goes on with the word from there.

* `occurrences`: how often a word occurs; **`occurrences_append_cons`**: the occurrences on two sides
  of a character that the word does not have.
* `fill`: a template, its holes filled; **`occurrences_fill`**: a word that the template's own text
  sets apart occurs in the holes only.
* `Fenced`: a body between an opening and a closing mark that occur once; **`Fenced.read`**: whoever
  looks for the marks reads the body.
-/

set_option autoImplicit false

namespace Fence

variable {α : Type*}

/-! ## Occurrences -/

/-- A word that goes past a character has that character. -/
theorem prefix_append_cons {w s t : List α} {c : α} (hc : c ∉ w) : w <+: s ++ c :: t ↔ w <+: s := by
  refine ⟨fun h => ?_, fun h => h.trans (List.prefix_append s _)⟩
  rcases List.prefix_or_prefix_of_prefix h (List.prefix_append s (c :: t)) with hw | ⟨r, rfl⟩
  · exact hw
  · rw [List.prefix_append_right_inj] at h
    cases r with
    | nil => rw [List.append_nil]
    | cons d r =>
      obtain rfl : d = c := (List.cons_prefix_cons.mp h).1
      exact absurd (List.mem_append_right _ List.mem_cons_self) hc

variable [DecidableEq α]

/-- How often `w` occurs in a text, for a word that is not empty. -/
def occurrences (w : List α) : List α → ℕ
  | [] => 0
  | x :: s => (if w <+: x :: s then 1 else 0) + occurrences w s

/-- The text before the first occurrence of `w`, and the text after it. -/
def cut (w : List α) : List α → Option (List α × List α)
  | [] => none
  | x :: s =>
    if w <+: x :: s then some ([], (x :: s).drop w.length)
    else (cut w s).map fun p => (x :: p.1, p.2)

variable {w s t : List α} {c : α}

/-- **A character that the word does not have parts its occurrences.** -/
theorem occurrences_append_cons (hc : c ∉ w) (hw : w ≠ []) :
    occurrences w (s ++ c :: t) = occurrences w s + occurrences w t := by
  induction s with
  | nil =>
    have hno : ¬ w <+: c :: t := by
      intro h
      have hnil := (prefix_append_cons (s := []) hc).mp h
      exact hw (List.prefix_nil.mp hnil)
    simp only [List.nil_append, occurrences, if_neg hno]
  | cons x s ih =>
    have hhead : w <+: x :: (s ++ c :: t) ↔ w <+: x :: s := prefix_append_cons (s := x :: s) hc
    rw [List.cons_append, occurrences, occurrences, ih, Nat.add_assoc]
    simp only [hhead]

theorem occurrences_eq_zero_iff (hw : w ≠ []) : occurrences w s = 0 ↔ ¬ w <:+: s := by
  induction s with
  | nil => simp [occurrences, hw]
  | cons x s ih =>
    rw [occurrences, Nat.add_eq_zero_iff, ih, List.infix_cons_iff, not_or]
    simp

/-- A text without a character of the word. -/
theorem occurrences_of_not_mem (hc : c ∈ w) (hs : c ∉ s) : occurrences w s = 0 := by
  have hw : w ≠ [] := List.ne_nil_of_mem hc
  exact (occurrences_eq_zero_iff hw).mpr fun h => hs (h.subset hc)

theorem occurrences_self (hw : w ≠ []) : occurrences w w = 1 := by
  cases w with
  | nil => exact absurd rfl hw
  | cons x w =>
    have hrest : occurrences (x :: w) w = 0 := by
      refine (occurrences_eq_zero_iff hw).mpr fun h => ?_
      have hle := h.length_le
      rw [List.length_cons] at hle
      omega
    simp only [occurrences, if_pos (List.prefix_refl (x :: w)), hrest]

/-- An occurrence counts for itself and those that start before it. -/
theorem occurrences_append_self (hw : w ≠ []) :
    1 ≤ occurrences w (w ++ t) := by
  cases w with
  | nil => exact absurd rfl hw
  | cons x w =>
    have hp : x :: w <+: x :: (w ++ t) := List.prefix_append (x :: w) t
    rw [List.cons_append, occurrences, if_pos hp]
    omega

theorem occurrences_le_append : occurrences w t ≤ occurrences w (s ++ t) := by
  induction s with
  | nil => exact le_rfl
  | cons x s ih =>
    rw [List.cons_append, occurrences]
    omega

/-- **The only occurrence is the one that is found.** -/
theorem cut_of_occurrences (hw : w ≠ []) (h : occurrences w (s ++ (w ++ t)) = 1) :
    cut w (s ++ (w ++ t)) = some (s, t) := by
  induction s with
  | nil =>
    cases w with
    | nil => exact absurd rfl hw
    | cons x w =>
      have hp : x :: w <+: x :: (w ++ t) := List.prefix_append (x :: w) t
      rw [List.nil_append, List.cons_append, cut, if_pos hp, ← List.cons_append, List.drop_left]
  | cons x s ih =>
    have hrest : 1 ≤ occurrences w (s ++ (w ++ t)) :=
      (occurrences_append_self hw).trans occurrences_le_append
    rw [List.cons_append, occurrences] at h
    have hno : ¬ w <+: x :: (s ++ (w ++ t)) := by
      intro hp
      rw [if_pos hp] at h
      omega
    rw [if_neg hno, Nat.zero_add] at h
    rw [List.cons_append, cut, if_neg hno, ih h]
    rfl

/-! ## Templates -/

/-- A template filled: each piece is a text of the template and what its hole is filled with, and the
template ends with `last`. -/
def fill : List (List α × List α) → List α → List α
  | [], last => last
  | p :: pieces, last => p.1 ++ (p.2 ++ fill pieces last)

omit [DecidableEq α] in
theorem fill_append_pieces (pieces pieces' : List (List α × List α)) (last : List α) :
    fill (pieces ++ pieces') last = fill pieces (fill pieces' last) := by
  induction pieces with
  | nil => rfl
  | cons p pieces ih => rw [List.cons_append, fill, ih, fill]

omit [DecidableEq α] in
theorem fill_append (pieces : List (List α × List α)) (s t : List α) :
    fill pieces (s ++ t) = fill pieces s ++ t := by
  induction pieces with
  | nil => rfl
  | cons p pieces ih => simp only [fill, ih, List.append_assoc]

/-- A text of a template that `w` does not occur in and does not reach beyond at its end. -/
structure Apart (w lit : List α) : Prop where
  last : ∃ l c, lit = l ++ [c] ∧ c ∉ w
  none : occurrences w lit = 0

/-- A text of a template that `w` does not reach into, either. -/
structure Separates (w lit : List α) : Prop extends Apart w lit where
  first : ∃ c l, lit = c :: l ∧ c ∉ w

theorem Apart.occurrences_append (h : Apart w s) (hw : w ≠ []) :
    occurrences w (s ++ t) = occurrences w t := by
  obtain ⟨l, c, rfl, hc⟩ := h.last
  have hzero := h.none
  rw [occurrences_append_cons hc hw] at hzero
  rw [List.append_assoc, List.singleton_append, occurrences_append_cons hc hw]
  omega

theorem Separates.append_occurrences {lit : List α} (h : Separates w lit) (hw : w ≠ []) :
    occurrences w (s ++ (lit ++ t)) = occurrences w s + occurrences w (lit ++ t) := by
  obtain ⟨c, l, rfl, hc⟩ := h.first
  have hl := occurrences_append_cons (s := []) (t := l ++ t) hc hw
  rw [List.nil_append] at hl
  rw [List.cons_append, occurrences_append_cons hc hw, hl]
  simp [occurrences]

theorem sum_occurrences_eq_zero_iff {texts : List (List α)} :
    (texts.map (occurrences w)).sum = 0 ↔ ∀ t ∈ texts, occurrences w t = 0 := by
  rw [List.sum_eq_zero_iff_forall_eq_nat]
  simp

/-- **A word that the template sets apart occurs in the holes only.** -/
theorem occurrences_fill (text : List α) (hw : w ≠ []) {lit last : List α}
    {pieces : List (List α × List α)} (hlit : Apart w lit)
    (hpieces : ∀ p ∈ pieces, Separates w p.1) (hlast : Separates w last) :
    occurrences w (fill ((lit, text) :: pieces) last) =
      ((text :: pieces.map Prod.snd).map (occurrences w)).sum := by
  rw [fill, hlit.occurrences_append hw, List.map_cons, List.sum_cons]
  induction pieces generalizing text with
  | nil =>
    have h := hlast.append_occurrences (s := text) (t := []) hw
    rw [List.append_nil, hlast.none] at h
    simpa [fill] using h
  | cons p pieces ih =>
    have hp := hpieces p List.mem_cons_self
    rw [fill, hp.append_occurrences hw, hp.occurrences_append hw, List.map_cons, List.map_cons,
      List.sum_cons]
    rw [ih _ fun q hq => hpieces q (List.mem_cons_of_mem _ hq)]

/-! ## Places -/

omit [DecidableEq α] in
/-- What is read at the places of a text is no more than the text has characters, when nothing is read
at its end. -/
theorem length_filterMap_tails_le {β : Type*} {f : List α → Option β} (hf : f [] = none)
    (s : List α) : (s.tails.filterMap f).length ≤ s.length := by
  induction s with
  | nil => simp [hf]
  | cons x s ih =>
    rw [List.tails_cons, List.filterMap_cons]
    cases f (x :: s) with
    | none => exact ih.trans (Nat.le_succ _)
    | some b => exact Nat.succ_le_succ ih

/-! ## Fences -/

/-- A body between an opening and a closing mark, each of which occurs once. -/
structure Fenced (opening closing body text : List α) : Prop where
  split : ∃ before after, text = before ++ (opening ++ (body ++ (closing ++ after)))
  opening_once : occurrences opening text = 1
  closing_once : occurrences closing text = 1

/-- **Whoever looks for the first opening mark, and then for the first closing mark, reads the
body.** -/
theorem Fenced.read {opening closing body text : List α} (h : Fenced opening closing body text)
    (ho : opening ≠ []) (hc : closing ≠ []) : ∃ before rest after,
      cut opening text = some (before, rest) ∧ cut closing rest = some (body, after) := by
  obtain ⟨before, after, rfl⟩ := h.split
  refine ⟨before, body ++ (closing ++ after), after, cut_of_occurrences ho h.opening_once, ?_⟩
  refine cut_of_occurrences hc (Nat.le_antisymm ?_ ?_)
  · have hle : occurrences closing (body ++ (closing ++ after)) ≤
        occurrences closing (before ++ opening ++ (body ++ (closing ++ after))) :=
      occurrences_le_append
    rw [List.append_assoc, h.closing_once] at hle
    exact hle
  · exact (occurrences_append_self hc).trans occurrences_le_append

end Fence
