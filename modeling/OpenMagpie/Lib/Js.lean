import Mathlib.Data.List.DropRight
import OpenMagpie.Lib.JsNumber

/-!
# Values of JavaScript

The values that a JSON text denotes, with the operations of the language on them.

* `ofString`, `trim`: strings of UTF-16 code units.
* `Value`, `Value.own`, `Engine.get`, `Engine.has`: values, and properties along the prototype chain.
* `Engine.toKey`: a value as a property key.
* `ownOrder`: the order of an object's own keys.
-/

set_option autoImplicit false

namespace Js

/-! ## Strings -/

/-- The code units of a character. -/
def unitsOf (c : Char) : Str :=
  if c.toNat < 0x10000 then [c.toNat]
  else [0xD800 + (c.toNat - 0x10000) / 0x400, 0xDC00 + (c.toNat - 0x10000) % 0x400]

def ofString (s : String) : Str := s.toList.flatMap unitsOf

/-- White space and line terminators. -/
def isSpace (c : ℕ) : Bool :=
  (9 ≤ c && c ≤ 13) || (0x2000 ≤ c && c ≤ 0x200A) ||
    [0x20, 0xA0, 0x1680, 0x2028, 0x2029, 0x202F, 0x205F, 0x3000, 0xFEFF].contains c

/-- `s.trim()`. -/
def trim (s : Str) : Str := (s.dropWhile isSpace).rdropWhile isSpace

/-- The index that a property key is. -/
def arrayIndex (k : Str) : Option ℕ :=
  if k ≠ [] ∧ k.all isDigit ∧ (k = [0x30] ∨ k.head? ≠ some 0x30) then some (decimal k) else none

/-! ## Values -/

/-- A value that `JSON.parse` can give. An object has its own properties in the order in which they
were added. -/
inductive Value
  | null
  | bool (b : Bool)
  | num (x : Number)
  | str (s : Str)
  | arr (xs : List Value)
  | obj (kvs : List (Str × Value))

/-- What a property access gives: nothing, a value, or a member of a prototype: a function, or a
prototype itself. -/
inductive Got
  | undefined
  | value (v : Value)
  | builtin

namespace Value

/-- The value as a condition. -/
def truthy : Value → Bool
  | null | num .nan => false
  | bool b => b
  | num (.finite q) => q != 0
  | str s => ! s.isEmpty
  | _ => true

/-- The value is this text. -/
def isText (s : String) : Value → Bool
  | str t => t == ofString s
  | _ => false

/-- The own property `k`. -/
def own : Value → Str → Option Value
  | obj kvs, k => kvs.lookup k
  | arr xs, k =>
    if k = ofString "length" then some (num (.finite xs.length))
    else (arrayIndex k).bind fun i => xs[i]?
  | str s, k =>
    if k = ofString "length" then some (num (.finite s.length))
    else (arrayIndex k).bind fun i => s[i]?.map fun c => str [c]
  | _, _ => none

end Value

namespace Got

def truthy : Got → Bool
  | undefined => false
  | value v => v.truthy
  | builtin => true

/-- The result is this text. -/
def isText (s : String) : Got → Bool
  | value v => v.isText s
  | _ => false

end Got

/-- The names of `Object.prototype`. -/
def objectPrototype : List Str :=
  ["constructor", "__defineGetter__", "__defineSetter__", "hasOwnProperty", "__lookupGetter__",
    "__lookupSetter__", "isPrototypeOf", "propertyIsEnumerable", "toString", "valueOf", "__proto__",
    "toLocaleString"].map ofString

/-- What depends on the engine: the text of a number, which is a numeral that reads as the number, and
the names that the prototypes of arrays and of primitive values add to those of `Object.prototype`. -/
structure Engine where
  numberText : ℚ → Str
  methods : Value → List Str
  reads_numberText : ∀ q, Number.ofRat q = .finite q →
    ∃ s, numeral (numberText q) = some s ∧ Number.ofRat s = .finite q

/-- An engine that writes every number with all its digits. -/
def exactEngine : Engine where
  numberText := exactText
  methods _ := []
  reads_numberText q hq := by
    obtain ⟨k, hk⟩ := Number.den_of_ofRat hq
    exact ⟨q, numeral_exactText hk, hq⟩

namespace Engine

variable (E : Engine)

/-- The names that a value inherits. -/
def inherited : Value → List Str
  | .obj _ => objectPrototype
  | v => E.methods v ++ objectPrototype

/-- `v[k]`; nothing for null, where a program must not ask. -/
def get (v : Value) (k : Str) : Got :=
  match v.own k with
  | some w => .value w
  | none => if v matches .null then .undefined else if k ∈ E.inherited v then .builtin else .undefined

/-- `k in v`, for an object or an array. -/
def has (v : Value) (k : Str) : Bool := (v.own k).isSome || k ∈ E.inherited v

/-- The text of a number. -/
def textOf : Number → Str
  | .nan => ofString "NaN"
  | .infinity negative => ofString (if negative then "-Infinity" else "Infinity")
  | .finite q => E.numberText q

mutual

/-- A value as a property key; none is a `TypeError`, of an object whose own `toString` hides the
method. -/
def toKey : Value → Option Str
  | .null => some (ofString "null")
  | .bool b => some (ofString (if b then "true" else "false"))
  | .num x => some (E.textOf x)
  | .str s => some s
  | .arr xs => (elementTexts xs).map (List.intercalate (ofString ","))
  | .obj kvs =>
    if (kvs.lookup (ofString "toString")).isSome then none else some (ofString "[object Object]")

/-- The texts that `join` puts together. -/
def elementTexts : List Value → Option (List Str)
  | [] => some []
  | x :: xs => do
    let text ← if x matches .null then some [] else toKey x
    let texts ← elementTexts xs
    return text :: texts

end

end Engine

/-! ## Own keys -/

variable {α : Type}

/-- A key as an array index. -/
def elementIndex (k : Str) : Option ℕ := (arrayIndex k).filter (· < 2 ^ 32 - 1)

/-- The properties of an object in the order of its own keys: the array indices, ascending, and then
the others. -/
def ownOrder (kvs : List (Str × α)) : List (Str × α) :=
  (kvs.filter fun p => (elementIndex p.1).isSome).mergeSort
    (fun p q => (elementIndex p.1).getD 0 ≤ (elementIndex q.1).getD 0) ++
    kvs.filter fun p => (elementIndex p.1).isNone

theorem ownOrder_perm {kvs : List (Str × α)} : (ownOrder kvs).Perm kvs := by
  refine ((List.mergeSort_perm _ _).append_right _).trans ?_
  have hnot : (kvs.filter fun p => (elementIndex p.1).isNone) =
      kvs.filter fun p => ! (elementIndex p.1).isSome := by
    simp
  rw [hnot]
  exact List.filter_append_perm _ _

end Js
