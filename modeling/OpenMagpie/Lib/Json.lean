import Mathlib.Data.Int.Notation
import Mathlib.Data.Rat.Init

/-!
# JSON values

The values a JSON column can hold, with decidable equality (`Json.decEq`) and the lookup of an
object's key (`Json.get?`); `Json.truthy`: its truth value; `Json.hasNul`: whether a jsonb column refuses
it.
-/

set_option autoImplicit false

/-- A JSON value. A number is an integer or a finite float; an object keeps its pairs in order. -/
inductive Json
  | null
  | bool (b : Bool)
  | num (n : ℤ)
  | float (q : ℚ)
  | str (s : String)
  | arr (xs : List Json)
  | obj (kvs : List (String × Json))
  deriving Repr

namespace Json

mutual

/-- Equality of two values is decidable. -/
def decEq : (a b : Json) → Decidable (a = b)
  | null, b => by
    cases b <;> first | exact isTrue rfl | exact isFalse nofun
  | bool a, b => by
    cases b with
    | bool b => exact decidable_of_iff (a = b) ⟨fun h => h ▸ rfl, fun h => by injection h⟩
    | _ => exact isFalse nofun
  | num a, b => by
    cases b with
    | num b => exact decidable_of_iff (a = b) ⟨fun h => h ▸ rfl, fun h => by injection h⟩
    | _ => exact isFalse nofun
  | float a, b => by
    cases b with
    | float b => exact decidable_of_iff (a = b) ⟨fun h => h ▸ rfl, fun h => by injection h⟩
    | _ => exact isFalse nofun
  | str a, b => by
    cases b with
    | str b => exact decidable_of_iff (a = b) ⟨fun h => h ▸ rfl, fun h => by injection h⟩
    | _ => exact isFalse nofun
  | arr a, arr b =>
    match decEqArr a b with
    | isTrue h => isTrue (h ▸ rfl)
    | isFalse h => isFalse fun e => h (by injection e)
  | arr _, null | arr _, bool _ | arr _, num _ | arr _, float _ | arr _, str _ | arr _, obj _ =>
    isFalse nofun
  | obj a, obj b =>
    match decEqObj a b with
    | isTrue h => isTrue (h ▸ rfl)
    | isFalse h => isFalse fun e => h (by injection e)
  | obj _, null | obj _, bool _ | obj _, num _ | obj _, float _ | obj _, str _ | obj _, arr _ =>
    isFalse nofun

/-- Equality of two arrays is decidable. -/
def decEqArr : (a b : List Json) → Decidable (a = b)
  | [], [] => isTrue rfl
  | [], _ :: _ => isFalse nofun
  | _ :: _, [] => isFalse nofun
  | x :: xs, y :: ys =>
    match decEq x y, decEqArr xs ys with
    | isTrue h, isTrue h' => isTrue (h ▸ h' ▸ rfl)
    | isFalse h, _ => isFalse fun e => h (by injection e)
    | _, isFalse h => isFalse fun e => h (by injection e)

/-- Equality of two lists of pairs is decidable. -/
def decEqObj : (a b : List (String × Json)) → Decidable (a = b)
  | [], [] => isTrue rfl
  | [], _ :: _ => isFalse nofun
  | _ :: _, [] => isFalse nofun
  | (k, x) :: xs, (l, y) :: ys =>
    match decEq x y, decEqObj xs ys, String.decEq k l with
    | isTrue h, isTrue h', isTrue h'' => isTrue (h ▸ h' ▸ h'' ▸ rfl)
    | isFalse h, _, _ => isFalse fun e => h (by simp at e; exact e.1.2)
    | _, isFalse h, _ => isFalse fun e => h (by simp at e; exact e.2)
    | _, _, isFalse h => isFalse fun e => h (by simp at e; exact e.1.1)

end

instance : DecidableEq Json := decEq

/-- The value an object holds under a key. -/
def get? (k : String) : Json → Option Json
  | obj kvs => (kvs.find? (·.1 == k)).map (·.2)
  | _ => none

/-- The empty object. -/
abbrev empty : Json := obj []

/-- A value counts as true unless it is null, false, zero or empty. -/
def truthy : Json → Bool
  | null => false
  | bool b => b
  | num n => n != 0
  | float q => q != 0
  | str s => s != ""
  | arr xs => ! xs.isEmpty
  | obj kvs => ! kvs.isEmpty

/-- The text has a NUL character. -/
def textHasNul (s : String) : Bool := s.toList.any (· == Char.ofNat 0)

mutual

/-- A text or a key of the value has a NUL character, which no jsonb column takes. -/
def hasNul : Json → Bool
  | null | bool _ | num _ | float _ => false
  | str s => textHasNul s
  | arr xs => elementsHaveNul xs
  | obj kvs => membersHaveNul kvs

def elementsHaveNul : List Json → Bool
  | [] => false
  | x :: xs => x.hasNul || elementsHaveNul xs

def membersHaveNul : List (String × Json) → Bool
  | [] => false
  | (k, x) :: kvs => textHasNul k || x.hasNul || membersHaveNul kvs

end

theorem membersHaveNul_eq (kvs : List (String × Json)) :
    membersHaveNul kvs = kvs.any fun kv => textHasNul kv.1 || kv.2.hasNul := by
  induction kvs with
  | nil => rfl
  | cons kv kvs ih => rw [membersHaveNul, ih, List.any_cons]

theorem hasNul_obj_eq_false {kvs : List (String × Json)} : (obj kvs).hasNul = false ↔
    ∀ kv ∈ kvs, textHasNul kv.1 = false ∧ kv.2.hasNul = false := by
  rw [hasNul, membersHaveNul_eq, List.any_eq_false]
  simp

example : obj [("a", num 1)] = obj [("a", num 1)] := by decide
example : obj [("a", arr [num 1])] ≠ obj [("a", arr [num 2])] := by decide

end Json
