import Mathlib.Data.List.Basic
import Mathlib.Data.List.DropRight
import OpenMagpie.Lib.Python
import Std.Data.String.ToNat

/-!
# Text

What Python's strings are compared by, read as and written from.

* `Python.Text`: the Unicode tables, and the `repr` of strings and floats.
* `Text.casefold`: a string ignoring case; `Text.casefold_suffix`: a numbered suffix stays one.
* `Text.isFloat`: whether `float` reads a string.
* `Text.str`, `Text.dumps`: `str` of a scalar, and the compact JSON text of a value.
-/

set_option autoImplicit false

namespace Python

/-- The Unicode tables that strings are handled by, and the `repr` of strings and floats. ASCII letters
fold to their lower case, the other ASCII characters to themselves. -/
structure Text where
  fold : Char → List Char
  fold_ascii : ∀ c, c.toNat < 128 → fold c = [c.toLower]
  upper : String → String
  decimal : Char → Option (Fin 10)
  floatRepr : ℚ → String
  repr : String → String

namespace Text

variable {T : Text}

/-! ## Ignoring case -/

/-- `str.casefold`. -/
def casefold (T : Text) (s : String) : String := String.ofList (s.toList.flatMap T.fold)

theorem casefold_append (s t : String) : T.casefold (s ++ t) = T.casefold s ++ T.casefold t := by
  simp [casefold, String.ofList_append]

/-- A text of ASCII characters without capital letters is its own folding. -/
theorem casefold_eq_self {s : String} (h : ∀ c ∈ s.toList, c.toNat < 128 ∧ c.toLower = c) :
    T.casefold s = s := by
  rw [casefold, List.flatMap_congr (g := fun c => [c])]
  · rw [List.flatMap_singleton', String.ofList_toList]
  · intro c hc
    rw [T.fold_ascii c (h c hc).1, (h c hc).2]

theorem casefold_underscore : T.casefold "_" = "_" :=
  casefold_eq_self (List.forall_mem_singleton.mpr (by decide))

/-- The digits of a number are ASCII. -/
theorem ascii_of_mem_repr {n : ℕ} {c : Char} (h : c ∈ n.repr.toList) :
    c.toNat < 128 ∧ c.toLower = c := by
  rw [Nat.toList_repr] at h
  have hd := Nat.isDigit_of_mem_toDigits (by decide) (by decide) h
  simp only [Char.isDigit, ge_iff_le, Bool.and_eq_true, decide_eq_true_eq,
    UInt32.le_iff_toNat_le] at hd
  change 48 ≤ c.toNat ∧ c.toNat ≤ 57 at hd
  refine ⟨by omega, ?_⟩
  refine dif_neg ?_
  simp only [UInt32.le_iff_toNat_le, not_and]
  change 65 ≤ c.toNat → ¬ c.toNat ≤ 90
  omega

/-- A numbered suffix is no matter of case. -/
theorem casefold_suffix (s : String) (n : ℕ) :
    T.casefold (s ++ "_" ++ n.repr) = T.casefold s ++ "_" ++ n.repr := by
  rw [casefold_append, casefold_append, casefold_underscore,
    casefold_eq_self fun _ => ascii_of_mem_repr]

theorem suffix_injective {s : String} {n m : ℕ} (h : s ++ "_" ++ n.repr = s ++ "_" ++ m.repr) :
    n = m := by
  have h := congrArg String.toList h
  simp only [String.toList_append, List.append_cancel_left_eq] at h
  exact Nat.repr_injective (String.toList_injective h)

/-! ## Numbers -/

/-- A character that `float` strips. -/
def isFloatSpace (c : Char) : Bool := (9 ≤ c.toNat && c.toNat ≤ 13) || c = ' '

/-- An ASCII string as it is, in another one spaces and decimal digits as ASCII, the rest as a
character that no number has. -/
def toAscii (T : Text) (isSpace : Char → Bool) (s : List Char) : List Char :=
  if s.all fun c => c.toNat < 128 then s
  else s.map fun c =>
    if c.toNat < 127 then c else if isSpace c then ' '
    else match T.decimal c with
      | some d => Nat.digitChar d
      | none => '?'

/-- An underscore stands between two digits. -/
def underscoresOk : Option Char → List Char → Bool
  | prev, [] => prev ≠ some '_'
  | prev, c :: cs =>
    (if c = '_' then prev.any Char.isDigit else prev ≠ some '_' || c.isDigit) &&
      underscoresOk (some c) cs

def dropSign : List Char → List Char
  | '+' :: cs | '-' :: cs => cs
  | cs => cs

def isExponent : List Char → Bool
  | [] => true
  | c :: cs => (c = 'e' || c = 'E') && dropSign cs ≠ [] && (dropSign cs).all Char.isDigit

/-- A number without a sign. -/
def isUnsigned (s : List Char) : Bool :=
  let whole := s.takeWhile Char.isDigit
  match s.dropWhile Char.isDigit with
  | '.' :: rest =>
    let fraction := rest.takeWhile Char.isDigit
    (whole ≠ [] || fraction ≠ []) && isExponent (rest.dropWhile Char.isDigit)
  | rest =>
    whole ≠ [] && isExponent rest ||
      ["inf", "infinity", "nan"].any fun name => decide (s.map Char.toLower = name.toList)

/-- `float` reads the string. -/
def isFloat (T : Text) (isSpace : Char → Bool) (s : String) : Bool :=
  let s := ((T.toAscii isSpace s.toList).dropWhile isFloatSpace).rdropWhile isFloatSpace
  underscoresOk none s && isUnsigned (dropSign (s.filter (· ≠ '_')))

/-! ## Texts of values -/

/-- A character of a JSON string, without `ensure_ascii`. -/
def escape (c : Char) : String :=
  if c = '"' then "\\\"" else if c = '\\' then "\\\\"
  else if c = '\n' then "\\n" else if c = '\r' then "\\r" else if c = '\t' then "\\t"
  else if c.toNat = 8 then "\\b" else if c.toNat = 12 then "\\f"
  else if c.toNat < 32 then
    "\\u" ++ String.ofList ((Nat.toDigits 16 c.toNat).leftpad 4 '0')
  else String.ofList [c]

def quote (s : String) : String := "\"" ++ String.join (s.toList.map escape) ++ "\""

/-- The JSON text of a float. -/
def dumpsFloat (T : Text) : FloatValue → String
  | .finite q => T.floatRepr q
  | .inf negative => if negative then "-Infinity" else "Infinity"
  | .nan => "NaN"

mutual

/-- `json.dumps(v, ensure_ascii=False, separators=(",", ":"))`. -/
def dumps (T : Text) : Value → String
  | .none => "null"
  | .bool b => if b then "true" else "false"
  | .int n => toString n
  | .float x => T.dumpsFloat x
  | .str s => quote s
  | .list xs => "[" ++ String.intercalate "," (dumpsList T xs) ++ "]"
  | .dict kvs => "\x7b" ++ String.intercalate "," (dumpsDict T kvs) ++ "\x7d"

def dumpsList (T : Text) : List Value → List String
  | [] => []
  | x :: xs => dumps T x :: dumpsList T xs

def dumpsDict (T : Text) : List (String × Value) → List String
  | [] => []
  | (k, x) :: kvs => (quote k ++ ":" ++ dumps T x) :: dumpsDict T kvs

end

/-- `str(v)` of a scalar, and the JSON text of the rest. -/
def str (T : Text) : Value → String
  | .str s => s
  | .bool b => if b then "True" else "False"
  | .int n => toString n
  | .float (.finite q) => T.floatRepr q
  | .float (.inf negative) => if negative then "-inf" else "inf"
  | .float .nan => "nan"
  | v => T.dumps v

end Text

end Python
