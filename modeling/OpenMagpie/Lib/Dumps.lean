import Mathlib.Data.List.Sort
import Mathlib.Data.String.Basic
import OpenMagpie.Lib.Json

/-!
# Canonical JSON text

`json.dumps` with sorted keys and compact separators.
-/

set_option autoImplicit false

namespace Json

/-- `\uXXXX`. -/
def unicodeEscape (n : ℕ) : String := "\\u" ++ String.ofList ((Nat.toDigits 16 n).leftpad 4 '0')

/-- A character of a string, with `ensure_ascii`. -/
def escape (c : Char) : String :=
  if c = '"' then "\\\"" else if c = '\\' then "\\\\"
  else if c = '\n' then "\\n" else if c = '\r' then "\\r" else if c = '\t' then "\\t"
  else if c.toNat = 8 then "\\b" else if c.toNat = 12 then "\\f"
  else if 32 ≤ c.toNat ∧ c.toNat ≤ 126 then String.ofList [c]
  else if c.toNat < 0x10000 then unicodeEscape c.toNat
  else
    -- a surrogate pair
    unicodeEscape (0xd800 + (c.toNat - 0x10000) / 1024) ++
      unicodeEscape (0xdc00 + (c.toNat - 0x10000) % 1024)

def quote (s : String) : String := "\"" ++ String.join (s.toList.map escape) ++ "\""

/-- The text of an object, from its keys and the texts of its values. -/
def objText (kvs : List (String × String)) : String :=
  let fields := (kvs.insertionSort fun a b => a.1 ≤ b.1).map fun (k, v) => quote k ++ ":" ++ v
  "\x7b" ++ String.intercalate "," fields ++ "\x7d"

mutual

/-- `json.dumps(v, sort_keys=True, separators=(",", ":"))`, given the `repr` of the floats. -/
def dumps (floatRepr : ℚ → String) : Json → String
  | null => "null"
  | bool b => if b then "true" else "false"
  | num n => toString n
  | float q => floatRepr q
  | str s => quote s
  | arr xs => "[" ++ String.intercalate "," (dumpsArr floatRepr xs) ++ "]"
  | obj kvs => objText (dumpsObj floatRepr kvs)

def dumpsArr (floatRepr : ℚ → String) : List Json → List String
  | [] => []
  | x :: xs => dumps floatRepr x :: dumpsArr floatRepr xs

def dumpsObj (floatRepr : ℚ → String) : List (String × Json) → List (String × String)
  | [] => []
  | (k, x) :: kvs => (k, dumps floatRepr x) :: dumpsObj floatRepr kvs

end

example : dumps (fun _ => "") (obj [("b", arr [num 1, null]), ("a", str "é\"")]) =
    "\x7b\"a\":\"\\u00e9\\\"\",\"b\":[1,null]\x7d" := by decide +kernel

end Json
