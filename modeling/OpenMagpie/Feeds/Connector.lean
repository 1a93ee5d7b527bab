import Mathlib.Data.Int.Order.Basic
import OpenMagpie.Lib.Python
import OpenMagpie.Watches.Models

/-!
# Connectors

What the connectors of the sources share: the exceptions, the upstream they call, and the payload
they yield.

* `SourceError`, `Recoverable`: the exceptions of the libraries, and the tuple `_RECOVERABLE_ERRORS`.
* `Upstream`: the answers of the HTTP services; `Fetch.response`, `Body.loads`: a call of httpx, and
  the parse of a body.
* `Stamp`, `SourcePayload`: a datetime, and the payload of one item.
* `Reader`: the functions on strings, numbers and payloads that are not modelled.
-/

set_option autoImplicit false

namespace OpenMagpie

open Python

/-! ## Exceptions -/

/-- The exceptions of httpx, pydantic, the connectors and the database. `httpError` is an
`httpx.HTTPError`; `httpx.InvalidURL` is none. -/
inductive SourceError
  | httpError
  | invalidUrl
  | validationError
  | connectionError
  | connectorParseError
  | databaseError
  deriving DecidableEq

/-- An exception that a poll may raise. -/
abbrev Raised := Exc SourceError

/-- `_RECOVERABLE_ERRORS`. -/
def Recoverable : Raised → Prop
  | .lib .httpError | .lib .validationError | .lib .connectionError | .lib .connectorParseError
  | .keyError => True
  | _ => False

instance : DecidablePred Recoverable := fun e => by unfold Recoverable; split <;> infer_instance

/-- The computation raises an exception that the poll does not catch. -/
abbrev Escapes {α : Type} : Except Raised α → Prop := Raises fun e => ¬ Recoverable e

/-! ## The upstream -/

/-- The body of a response: JSON, or what `json.loads` raises on it. -/
inductive Body
  | json (v : Value)
  | notJson
  | undecodable
  | tooDeep

/-- `json.loads`. -/
def Body.loads : Body → Except Raised Value
  | json v => .ok v
  | notJson => .error .jsonDecodeError
  | undecodable => .error .valueError
  | tooDeep => .error .recursionError

/-- A response: its status, and its content as JSON, as text and by its length. -/
structure Response where
  status : ℕ
  body : Body
  text : String := ""
  length : ℕ := 0

/-- `raise_for_status`. -/
def Response.raiseForStatus (r : Response) : Except Raised Unit :=
  if 200 ≤ r.status ∧ r.status < 300 then .ok () else .error (.lib .httpError)

/-- What a call of httpx gives. -/
inductive Fetch
  | httpError
  | invalidUrl
  | response (r : Response)

/-- The response of a call. -/
def Fetch.get : Fetch → Except Raised Response
  | httpError => .error (.lib .httpError)
  | invalidUrl => .error (.lib .invalidUrl)
  | response r => .ok r

/-- The requests of the connectors. -/
inductive Request
  | events
  | repo (name : String)
  | readme (name : String)
  | searchRepositories (query sort order : String) (perPage : ℕ)
  | searchByDate (params : List (String × String))

/-- The services during one poll: the answer to each request, by the number of the event or page it
is made for, and the clock, by the number of the repository. -/
structure Upstream where
  get : ℕ → Request → Fetch
  now : ℕ → Time := fun _ => 0

/-! ## Payloads -/

/-- A datetime with or without an offset. The time of a naive one is the one it has in UTC. -/
inductive Stamp
  | aware (t : Time)
  | naive (t : Time)
  deriving DecidableEq

/-- `_ensure_aware`. -/
def Stamp.ensureAware : Stamp → Time
  | aware t | naive t => t

/-- `since is not None and ts <= since`. -/
def Stamp.notAfter (ts : Stamp) (since : Option Time) : Except Raised Bool :=
  match since, ts with
  | none, _ => .ok false
  | some since, .aware t => .ok (decide (t ≤ since))
  | some _, .naive _ => .error .typeError

/-- The datetime can be compared with the watermark. -/
def Stamp.Comparable (ts : Stamp) (since : Option Time) : Prop := since.isSome → ∃ t, ts = .aware t

/-- The datetime is after the watermark. -/
def Stamp.IsNew (ts : Stamp) (since : Option Time) : Prop := ∀ w ∈ since, w < ts.ensureAware

/-- The watermark filter: nothing is yielded of what is not newer. -/
def unlessOld {α : Type} (since : Option Time) (ts : Stamp) (x : Except Raised (Option α)) :
    Except Raised (Option α) := do
  let old ← ts.notAfter since
  if old then return none else x

/-- The fields that every payload has. -/
structure SourcePayload where
  externalId : String
  kind : String
  occurredAt : Stamp
  source : String
  title : String := ""
  content : String := ""
  url : String := ""
  externalUrl : String := ""
  parentExternalId : String := ""

/-- Functions of the language and of pydantic: the `repr` of a value, the integer that a string
spells, `fromisoformat`, `strip`, the collapse of whitespace, the text nodes of HTML (none where the
parser raises an `AssertionError`), `fromtimestamp` (none where it raises) and `timestamp`, an integer
field, and the string fields of a payload. -/
structure Reader where
  repr : Value → String
  parseInt : String → Option ℤ
  fromisoformat : String → Option Stamp
  strip : String → String
  collapse : String → String
  textNodes : String → Option (List String)
  fromtimestamp : ℚ → Option Time
  timestamp : Time → ℚ
  integerField : Value → Option ℤ
  validStrings : List String → Bool

/-- `str(v)`. -/
def Reader.str (X : Reader) (v : Value) : String := v.toStr X.repr

/-- `str(v or "")`. -/
def Reader.strOr (X : Reader) (v : Value) : String := X.str (v.orElse (.str ""))

/-- pydantic's construction of a payload from fields of the right types. -/
def Reader.construct {α : Type} (X : Reader) (strings : List String) (payload : α) :
    Except Raised α :=
  if X.validStrings strings then .ok payload else .error (.lib .validationError)

/-- `s.replace(c, by)`. -/
def replaceChar (c : Char) (by' : String) (s : String) : String :=
  String.ofList (s.toList.flatMap fun d => if d = c then by'.toList else [d])

/-- `sep.join(p for p in parts if p)`. -/
def joinNonempty (sep : String) (parts : List String) : String :=
  String.intercalate sep (parts.filter fun p => decide (p ≠ ""))

/-! ## What is raised -/

section

variable {P : Raised → Prop} {since : Option Time} {ts : Stamp}

@[simp] theorem raises_loads {b : Body} : Raises P b.loads ↔
    b = .notJson ∧ P .jsonDecodeError ∨ b = .undecodable ∧ P .valueError ∨
      b = .tooDeep ∧ P .recursionError := by
  cases b <;> simp [Body.loads]

@[simp] theorem raises_raiseForStatus {r : Response} : Raises P r.raiseForStatus ↔
    ¬ (200 ≤ r.status ∧ r.status < 300) ∧ P (.lib .httpError) := by
  unfold Response.raiseForStatus
  split <;> simp [*]

@[simp] theorem raises_get {f : Fetch} : Raises P f.get ↔
    f = .httpError ∧ P (.lib .httpError) ∨ f = .invalidUrl ∧ P (.lib .invalidUrl) := by
  cases f <;> simp [Fetch.get]

@[simp] theorem raises_construct {X : Reader} {strings : List String} {α : Type} {a : α} :
    Raises P (X.construct strings a) ↔
      X.validStrings strings = false ∧ P (.lib .validationError) := by
  unfold Reader.construct
  split <;> simp [*]

theorem construct_ok {X : Reader} {α : Type} {strings : List String} {a b : α}
    (h : X.construct strings a = .ok b) : b = a := by
  unfold Reader.construct at h
  split at h
  · exact (Except.ok.inj h).symm
  · cases h

theorem valid_of_construct {X : Reader} {α : Type} {strings : List String} {a b : α}
    (h : X.construct strings a = .ok b) : X.validStrings strings = true := by
  by_contra hv
  rw [Reader.construct, if_neg hv] at h
  cases h

theorem unlessOld_none {α : Type} {x : Except Raised (Option α)} : unlessOld none ts x = x := by
  cases ts <;> rfl

/-- **The filter under a watermark**, where it returns. -/
theorem unlessOld_some {α : Type} {w : Time} {x : Except Raised (Option α)} {r : Option α}
    (h : unlessOld (some w) ts x = .ok r) {p : α} :
    r = some p ↔ x = .ok (some p) ∧ w < ts.ensureAware := by
  cases ts with
  | naive t => cases h
  | aware t =>
    have ht : (if decide (t ≤ w) then pure none else x) = .ok r := h
    by_cases hle : t ≤ w
    · rw [if_pos (decide_eq_true hle)] at ht
      obtain rfl := Except.pure_eq_ok.mp ht
      exact ⟨nofun, fun ⟨_, hw⟩ => absurd hle (not_le_of_gt hw)⟩
    · rw [if_neg (by simpa using hle)] at ht
      subst ht
      exact ⟨fun hr => ⟨congrArg _ hr, not_le.mp hle⟩, fun hr => Except.ok.inj hr.1⟩

theorem unlessOld_ok {α : Type} {x : Except Raised (Option α)} {p : α}
    (h : unlessOld since ts x = .ok (some p)) : x = .ok (some p) := by
  cases since with
  | none => rwa [unlessOld_none] at h
  | some w => exact ((unlessOld_some h).mp rfl).1

/-- What the filter raises. -/
theorem raises_unlessOld {α : Type} {x : Except Raised (Option α)} :
    Raises P (unlessOld since ts x) ↔ ¬ ts.Comparable since ∧ P .typeError ∨
      ts.Comparable since ∧ ts.IsNew since ∧ Raises P x := by
  cases since with
  | none => simp [unlessOld_none, Stamp.Comparable, Stamp.IsNew]
  | some w =>
    cases ts with
    | naive t => simp [unlessOld, Stamp.Comparable, Stamp.notAfter]
    | aware t =>
      by_cases hle : t ≤ w
      · have hw : ¬ w < t := not_lt.mpr hle
        simp [unlessOld, Stamp.Comparable, Stamp.notAfter, Stamp.IsNew, Stamp.ensureAware, hle, hw]
      · have hw : w < t := not_le.mp hle
        simp [unlessOld, Stamp.Comparable, Stamp.notAfter, Stamp.IsNew, Stamp.ensureAware, hle, hw]

end

end OpenMagpie
