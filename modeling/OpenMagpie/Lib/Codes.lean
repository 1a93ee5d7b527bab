import Mathlib.Algebra.Group.Nat.Defs
import OpenMagpie.Lib.Python

/-!
# Texts with surrogates

A text of Python is a sequence of code points, and a JSON escape may put lone surrogates into it:
`json.loads` accepts them, and encoding the text as UTF-8 does not.

* `Codes`, `Codes.encode`: such texts, and `str.encode("utf-8")`.
* `Reply`: the values of `json.loads` with such texts; `Reply.truthy`, `Reply.get`.
-/

set_option autoImplicit false

namespace Python

/-- A text: its code points. -/
abbrev Codes := List ℕ

namespace Codes

/-- The code points of a text without surrogates. -/
def ofString (s : String) : Codes := s.toList.map Char.toNat

/-- A surrogate. -/
def IsSurrogate (c : ℕ) : Prop := 0xD800 ≤ c ∧ c ≤ 0xDFFF

instance : DecidablePred IsSurrogate := fun c => by unfold IsSurrogate; infer_instance

/-- The bytes of a code point in UTF-8. -/
def utf8 (c : ℕ) : List UInt8 :=
  let tail (k : ℕ) : UInt8 := .ofNat (0x80 + c / 64 ^ k % 64)
  if c < 0x80 then [.ofNat c]
  else if c < 0x800 then [.ofNat (0xC0 + c / 64), tail 0]
  else if c < 0x10000 then [.ofNat (0xE0 + c / 64 ^ 2), tail 1, tail 0]
  else [.ofNat (0xF0 + c / 64 ^ 3), tail 2, tail 1, tail 0]

/-- `str.encode("utf-8")`; the `UnicodeEncodeError` of a surrogate is a `ValueError`. -/
def encode {ε : Type} (s : Codes) : Except (Exc ε) (List UInt8) :=
  if ∃ c ∈ s, IsSurrogate c then .error .valueError else .ok (s.flatMap utf8)

example : (encode (ofString "é€") : Except (Exc Empty) _) = .ok [0xC3, 0xA9, 0xE2, 0x82, 0xAC] := by
  decide

end Codes

/-- A value of `json.loads`. -/
inductive Reply
  | none
  | bool (b : Bool)
  | int (n : ℤ)
  | float (x : FloatValue)
  | str (s : Codes)
  | list (xs : List Reply)
  | dict (kvs : List (Codes × Reply))

namespace Reply

/-- A value counts as true unless it is `None`, false, zero or empty. -/
def truthy : Reply → Bool
  | none => false
  | bool b => b
  | int n => n != 0
  | float (.finite q) => q != 0
  | float _ => true
  | str s => ! s.isEmpty
  | list xs => ! xs.isEmpty
  | dict kvs => ! kvs.isEmpty

/-- `d.get(k)`. -/
def get (d : List (Codes × Reply)) (k : String) : Reply := (d.lookup (Codes.ofString k)).getD .none

/-- The value is this text. -/
def isText (s : String) : Reply → Bool
  | str t => t == Codes.ofString s
  | _ => false

end Reply

end Python
