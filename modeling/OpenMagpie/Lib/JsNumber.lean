import Mathlib.Data.Int.Log
import Mathlib.Data.Nat.Digits.Lemmas
import Mathlib.Data.Nat.Prime.Basic
import Mathlib.Data.Rat.Floor
import Mathlib.Tactic.Linarith
import Mathlib.Tactic.SplitIfs

/-!
# Numbers of JavaScript

* `Str`, `decimal`, `numeral`: strings of UTF-16 code units, and the number that a numeral of JSON
  writes.
* `Number`, `Number.ofRat`: binary64, rounded to nearest, ties to even.
* **`Number.ofRat_ofRat`**: a rounded number is its own nearest.
* `exactText`: a number with all its digits; **`numeral_exactText`**.
-/

set_option autoImplicit false

namespace Js

/-- A string: its UTF-16 code units. -/
abbrev Str := List ℕ

def isDigit (c : ℕ) : Bool := 0x30 ≤ c && c ≤ 0x39

/-- The number that digits write. -/
def decimal (ds : Str) : ℕ := ds.foldl (fun n c => 10 * n + (c - 0x30)) 0

/-! ## Numerals -/

/-- The digits after a decimal point, and the rest. -/
def fraction : Str → Option (Str × Str)
  | 0x2E :: w => if w.takeWhile isDigit = [] then none else some (w.takeWhile isDigit, w.dropWhile isDigit)
  | w => some ([], w)

/-- A signed number in an exponent. -/
def signed : Str → Bool × Str
  | 0x2B :: w => (false, w)
  | 0x2D :: w => (true, w)
  | w => (false, w)

/-- The exponent that a numeral ends with. -/
def exponent : Str → Option ℤ
  | [] => some 0
  | e :: w =>
    let (negative, ds) := signed w
    if (e = 0x65 ∨ e = 0x45) ∧ ds ≠ [] ∧ ds.all isDigit then
      some (if negative then - (decimal ds : ℤ) else decimal ds)
    else none

/-- A numeral without a sign. -/
def magnitude (w : Str) : Option ℚ :=
  let int := w.takeWhile isDigit
  if int ≠ [] ∧ (int = [0x30] ∨ int.head? ≠ some 0x30) then do
    let (frac, rest) ← fraction (w.dropWhile isDigit)
    let e ← exponent rest
    return (decimal (int ++ frac) : ℚ) * 10 ^ (e - frac.length)
  else none

/-- The number that a numeral of JSON writes. -/
def numeral : Str → Option ℚ
  | 0x2D :: w => (magnitude w).map (- ·)
  | w => magnitude w

/-! ## Rounding -/

/-- A number. Zero has no sign here: no operation of this library tells the two zeros apart. -/
inductive Number
  | nan
  | infinity (negative : Bool)
  | finite (q : ℚ)
  deriving DecidableEq

/-- `x < y`: false where one of them is NaN. -/
def Number.lt : Number → Number → Bool
  | finite p, finite q => p < q
  | finite _, infinity negative => ! negative
  | infinity negative, finite _ => negative
  | infinity negative, infinity negative' => negative && ! negative'
  | _, _ => false

/-- The nearest integer, the even one of two. -/
def roundHalfEven (x : ℚ) : ℤ :=
  if x - ⌊x⌋ < 1 / 2 then ⌊x⌋
  else if 1 / 2 < x - ⌊x⌋ then ⌊x⌋ + 1
  else if ⌊x⌋ % 2 = 0 then ⌊x⌋ else ⌊x⌋ + 1

theorem roundHalfEven_intCast (n : ℤ) : roundHalfEven n = n := by
  unfold roundHalfEven
  rw [Int.floor_intCast, sub_self, if_pos (by norm_num)]

theorem floor_le_roundHalfEven (x : ℚ) : ⌊x⌋ ≤ roundHalfEven x := by
  unfold roundHalfEven
  split_ifs <;> omega

theorem roundHalfEven_le {x : ℚ} {n : ℤ} (h : x ≤ n) : roundHalfEven x ≤ n := by
  rcases h.lt_or_eq with hlt | rfl
  · have hfloor : ⌊x⌋ + 1 ≤ n := Int.floor_lt.mpr hlt
    unfold roundHalfEven
    split_ifs <;> omega
  · rw [roundHalfEven_intCast]

theorem abs_roundHalfEven_le {x : ℚ} {n : ℤ} (h : |x| ≤ n) : |roundHalfEven x| ≤ n := by
  obtain ⟨hlow, hhigh⟩ := abs_le.mp h
  refine abs_le.mpr ⟨?_, roundHalfEven_le hhigh⟩
  have hfloor : -n ≤ ⌊x⌋ := Int.le_floor.mpr (by push_cast; exact hlow)
  exact hfloor.trans (floor_le_roundHalfEven x)

/-- The exponent of the last place of a number. -/
def lastPlace (q : ℚ) : ℤ := max (Int.log 2 |q|) (-1022) - 52

/-- The nearest number with that exponent. -/
def roundPlace (q : ℚ) : ℚ := roundHalfEven (q / 2 ^ lastPlace q) * 2 ^ lastPlace q

/-- The nearest binary64 number. -/
def Number.ofRat (q : ℚ) : Number :=
  if 2 ^ 1024 ≤ |roundPlace q| then .infinity (decide (q < 0)) else .finite (roundPlace q)

example : Number.ofRat (1 / 2) = .finite (1 / 2) := by decide +kernel

/-- A number is less than 2^53 last places. -/
theorem abs_div_lastPlace_le (q : ℚ) : |q / 2 ^ lastPlace q| ≤ (2 ^ 53 : ℤ) := by
  have hpos : (0 : ℚ) < 2 ^ lastPlace q := zpow_pos two_pos _
  rw [abs_div, abs_of_pos hpos, div_le_iff₀ hpos]
  have hlog : |q| < (2 : ℚ) ^ (Int.log 2 |q| + 1) := by
    exact_mod_cast Int.lt_zpow_succ_log_self one_lt_two |q|
  have hle : Int.log 2 |q| + 1 ≤ 53 + lastPlace q := by
    unfold lastPlace
    omega
  calc |q| ≤ (2 : ℚ) ^ (Int.log 2 |q| + 1) := hlog.le
    _ ≤ 2 ^ (53 + lastPlace q) := zpow_le_zpow_right₀ one_le_two hle
    _ = (2 ^ 53 : ℤ) * 2 ^ lastPlace q := by
      rw [zpow_add₀ two_ne_zero]
      norm_num

/-- A multiple of its own last place is its own nearest. -/
theorem roundPlace_of_multiple {r : ℚ} {k : ℤ} (h : r = k * 2 ^ lastPlace r) : roundPlace r = r := by
  have hne : (2 : ℚ) ^ lastPlace r ≠ 0 := (zpow_pos two_pos _).ne'
  have hdiv : r / 2 ^ lastPlace r = k := by
    rw [div_eq_iff hne]
    exact h
  rw [roundPlace, hdiv, roundHalfEven_intCast]
  exact h.symm

/-- A multiple of a last place that is no smaller. -/
theorem multiple_of_le {n e e' : ℤ} (h : e' ≤ e) : ∃ k : ℤ, (n : ℚ) * 2 ^ e = k * 2 ^ e' := by
  refine ⟨n * 2 ^ (e - e').toNat, ?_⟩
  have hsplit : (2 : ℚ) ^ e = 2 ^ (e - e').toNat * 2 ^ e' := by
    rw [← zpow_natCast, Int.toNat_of_nonneg (by omega), ← zpow_add₀ two_ne_zero, sub_add_cancel]
  rw [hsplit]
  push_cast
  ring

/-- A rounded number is a multiple of its own last place. -/
theorem exists_multiple (q : ℚ) : ∃ k : ℤ, roundPlace q = k * 2 ^ lastPlace (roundPlace q) := by
  obtain ⟨n, hn, hround⟩ : ∃ n : ℤ, |n| ≤ 2 ^ 53 ∧ roundPlace q = n * 2 ^ lastPlace q :=
    ⟨_, abs_roundHalfEven_le (abs_div_lastPlace_le q), rfl⟩
  generalize roundPlace q = r at hround ⊢
  by_cases hzero : r = 0
  · exact ⟨0, by rw [hzero]; simp⟩
  rcases le_or_gt (lastPlace r) (lastPlace q) with hle | hgt
  · rw [hround]
    exact hround ▸ multiple_of_le hle
  -- the rounding went up to the next power of two
  · have hlow : (2 : ℚ) ^ Int.log 2 |r| ≤ |r| := by
      exact_mod_cast Int.zpow_log_le_self one_lt_two (abs_pos.mpr hzero)
    have hhigh : |r| ≤ 2 ^ (lastPlace q + 53) := by
      have hpos : |(2 : ℚ) ^ lastPlace q| = 2 ^ lastPlace q := abs_of_pos (zpow_pos two_pos _)
      rw [hround, abs_mul, hpos, zpow_add₀ two_ne_zero, mul_comm]
      have hcast : |(n : ℚ)| ≤ 2 ^ (53 : ℤ) := by exact_mod_cast hn
      exact mul_le_mul_of_nonneg_left hcast (zpow_pos two_pos _).le
    have hlog : Int.log 2 |r| ≤ lastPlace q + 53 :=
      (zpow_le_zpow_iff_right₀ one_lt_two).mp (hlow.trans hhigh)
    have hplace : Int.log 2 |r| = lastPlace q + 53 ∧ lastPlace r = lastPlace q + 1 := by
      unfold lastPlace at hgt hlog ⊢
      omega
    have habs : |r| = 2 ^ 52 * 2 ^ lastPlace r := by
      rw [hplace.1] at hlow
      rw [le_antisymm hhigh hlow, hplace.2, ← zpow_natCast, ← zpow_add₀ two_ne_zero]
      congr 1
      push_cast
      ring
    rcases abs_cases r with ⟨h, -⟩ | ⟨h, -⟩
    · exact ⟨2 ^ 52, by push_cast; linarith⟩
    · exact ⟨-2 ^ 52, by push_cast; linarith⟩

/-- **A rounded number is its own nearest.** -/
theorem Number.ofRat_ofRat {q r : ℚ} (h : Number.ofRat q = .finite r) :
    Number.ofRat r = .finite r := by
  unfold Number.ofRat at h
  split_ifs at h with hbig
  obtain rfl := Number.finite.inj h
  obtain ⟨k, hk⟩ := exists_multiple q
  rw [Number.ofRat, roundPlace_of_multiple hk, if_neg hbig]

theorem Number.ofRat_ne_nan {q : ℚ} : Number.ofRat q ≠ .nan := by
  unfold Number.ofRat
  split_ifs <;> exact nofun

/-- A rounded number is a fraction whose denominator is a power of two. -/
theorem Number.den_of_ofRat {q r : ℚ} (h : Number.ofRat q = .finite r) : ∃ k, r.den = 2 ^ k := by
  unfold Number.ofRat at h
  split_ifs at h
  obtain rfl := Number.finite.inj h
  obtain ⟨n, hn⟩ : ∃ n : ℤ, roundPlace q = n * 2 ^ lastPlace q := ⟨_, rfl⟩
  obtain ⟨m, hm⟩ : ∃ m : ℕ, -(m : ℤ) ≤ lastPlace q := ⟨(-lastPlace q).toNat, by omega⟩
  obtain ⟨j, hj⟩ := multiple_of_le (n := n) hm
  have hfrac : roundPlace q = Rat.divInt j (2 ^ m : ℕ) := by
    rw [hn, hj, zpow_neg, zpow_natCast, Rat.divInt_eq_div, ← div_eq_mul_inv]
    push_cast
    rfl
  have hdvd : ((roundPlace q).den : ℤ) ∣ (2 ^ m : ℕ) := hfrac ▸ Rat.den_dvd _ _
  obtain ⟨k, -, hk⟩ := (Nat.dvd_prime_pow Nat.prime_two).mp (Int.natCast_dvd_natCast.mp hdvd)
  exact ⟨k, hk⟩

/-! ## Exact texts -/

/-- The digits of a natural number. -/
def digitText (n : ℕ) : Str := if n = 0 then [0x30] else (Nat.digits 10 n).reverse.map (0x30 + ·)

/-- A fraction whose denominator is a power of two, with all its digits. -/
def exactText (q : ℚ) : Str :=
  let k := Nat.log 2 q.den
  (if q < 0 then [0x2D] else []) ++ (digitText (q.num.natAbs * 5 ^ k) ++
    if k = 0 then [] else 0x65 :: 0x2D :: digitText k)

example : exactText (-3 / 2) = "-15e-1".toList.map Char.toNat := by decide +kernel

variable {n : ℕ}

theorem decimal_digitText : decimal (digitText n) = n := by
  unfold digitText decimal
  split_ifs with h
  · exact h.symm
  · rw [List.foldl_map, List.foldl_reverse]
    simp only [Nat.add_sub_cancel_left]
    conv_rhs => rw [← Nat.ofDigits_digits 10 n, Nat.ofDigits_eq_foldr]
    simp only [Nat.cast_id, add_comm]

theorem isDigit_of_mem_digitText {c : ℕ} (h : c ∈ digitText n) : isDigit c := by
  unfold digitText at h
  split_ifs at h
  · obtain rfl := List.mem_singleton.mp h
    rfl
  · obtain ⟨d, hd, rfl⟩ := List.mem_map.mp h
    have hlt : d < 10 := Nat.digits_lt_base (by norm_num) (List.mem_reverse.mp hd)
    simp [isDigit]
    omega

theorem digitText_ne_nil : digitText n ≠ [] := by
  unfold digitText
  split_ifs with h
  · exact List.cons_ne_nil _ _
  · simpa [Nat.digits_eq_nil_iff_eq_zero] using h

theorem digitText_leading : digitText n = [0x30] ∨ (digitText n).head? ≠ some 0x30 := by
  unfold digitText
  split_ifs with h
  · exact .inl rfl
  · refine .inr fun hhead => ?_
    rw [List.head?_map, List.head?_reverse] at hhead
    obtain ⟨d, hd, hzero⟩ := Option.map_eq_some_iff.mp hhead
    have hne : Nat.digits 10 n ≠ [] := Nat.digits_ne_nil_iff_ne_zero.mpr h
    rw [List.getLast?_eq_some_getLast hne] at hd
    have hlast := Nat.getLast_digit_ne_zero 10 h
    have hd := Option.some.inj hd
    omega

/-- Digits in front of a text that begins with no digit. -/
theorem takeWhile_digitText {w : Str} (hw : ∀ c ∈ w.head?, isDigit c = false) :
    (digitText n ++ w).takeWhile isDigit = digitText n ∧
      (digitText n ++ w).dropWhile isDigit = w := by
  rw [List.takeWhile_append_of_pos fun _ => isDigit_of_mem_digitText,
    List.dropWhile_append_of_pos fun _ => isDigit_of_mem_digitText]
  cases w with
  | nil => simp
  | cons c w => simp [hw c rfl]

theorem exponent_negative {k : ℕ} : exponent (0x65 :: 0x2D :: digitText k) = some (-(k : ℤ)) := by
  have hall : (digitText k).all isDigit = true := List.all_eq_true.mpr fun _ => isDigit_of_mem_digitText
  simp [exponent, signed, digitText_ne_nil, hall, decimal_digitText]

theorem magnitude_digitText {m k : ℕ} :
    magnitude (digitText m ++ if k = 0 then [] else 0x65 :: 0x2D :: digitText k) =
      some ((m : ℚ) / 10 ^ k) := by
  have htail : ∀ c ∈ (if k = 0 then [] else 0x65 :: 0x2D :: digitText k).head?,
      isDigit c = false := by
    split_ifs
    · exact nofun
    · intro c hc
      obtain rfl := Option.some.inj hc
      rfl
  obtain ⟨htake, hdrop⟩ := takeWhile_digitText (n := m) htail
  have hexp : fraction (if k = 0 then [] else 0x65 :: 0x2D :: digitText k) =
      some ([], if k = 0 then [] else 0x65 :: 0x2D :: digitText k) ∧
      exponent (if k = 0 then [] else 0x65 :: 0x2D :: digitText k) = some (-(k : ℤ)) := by
    split_ifs with hk
    · exact ⟨rfl, by rw [hk]; rfl⟩
    · exact ⟨rfl, exponent_negative⟩
  unfold magnitude
  rw [htake, hdrop, if_pos ⟨digitText_ne_nil, digitText_leading⟩, hexp.1]
  simp only [Option.bind_eq_bind, Option.bind_some, hexp.2, List.append_nil, decimal_digitText]
  simp [div_eq_mul_inv]

theorem numeral_of_head {w : Str} (h : w.head? ≠ some 0x2D) : numeral w = magnitude w := by
  unfold numeral
  split
  · exact absurd rfl h
  · rfl

/-- **The exact text of a fraction is a numeral that writes it.** -/
theorem numeral_exactText {q : ℚ} {k : ℕ} (h : q.den = 2 ^ k) : numeral (exactText q) = some q := by
  have hk : Nat.log 2 q.den = k := by rw [h, Nat.log_pow one_lt_two]
  have habs : ((q.num.natAbs * 5 ^ k : ℕ) : ℚ) / 10 ^ k = |q| := by
    have hq : |q| = q.num.natAbs / q.den := by
      rw [Rat.abs_def, Rat.divInt_eq_div]
      simp only [Int.cast_natCast]
    rw [hq, h]
    push_cast
    rw [show (10 : ℚ) = 5 * 2 by norm_num, mul_pow]
    field_simp
  unfold exactText
  rw [hk]
  dsimp only
  by_cases hneg : q < 0
  · rw [if_pos hneg, List.singleton_append]
    change (magnitude _).map (- ·) = some q
    rw [magnitude_digitText, habs, Option.map_some, abs_of_neg hneg, neg_neg]
  · rw [if_neg hneg, List.nil_append, numeral_of_head, magnitude_digitText, habs,
      abs_of_nonneg (not_lt.mp hneg)]
    intro hhead
    have hmem : 0x2D ∈ digitText (q.num.natAbs * 5 ^ k) := by
      rw [List.head?_append_of_ne_nil _ digitText_ne_nil] at hhead
      exact List.mem_of_head? hhead
    cases isDigit_of_mem_digitText hmem

end Js
