import OpenMagpie.Lib.Datetime
import OpenMagpie.Lib.Except
import OpenMagpie.Watches.Kinds

/-!
# The windows of a run list

The query parameters of a run list bound the runs' completion and their items' source times. A value
is a duration back from the clock of the request, or an ISO datetime.

* `resolveWindowValue`, `resolveRunWindows`: a value, and all of them.
* **`resolveRunWindows_congr`**: absolute windows do not move with the clock.
* `Bounded`: every until has its since, which is before it, and every bound is aware.
* **`resolve_bounded`**: of values that are strings, nothing but a `ValueError` is raised, and what is
  returned is bounded.
* **`null_value_raises`**: a null raises something else.
-/

set_option autoImplicit false

namespace OpenMagpie

open Python

/-! ## Values -/

/-- The exceptions of a resolution. -/
inductive WindowError
  | valueError (message : String)
  | typeError (message : String)
  | attributeError (message : String)
  deriving DecidableEq

/-- Functions of the language: the value of a decimal digit of any script, `repr`, and
`datetime.fromisoformat`, none where it raises a `ValueError`. -/
structure WindowReader where
  digit : Char → Option ℕ
  repr : String → String
  fromisoformat : String → Option DateTime

/-- `_REL_UNIT`: the microseconds of a unit. -/
def relUnit : Char → Option ℤ
  | 's' => some 1000000
  | 'm' => some (60 * 1000000)
  | 'h' => some (3600 * 1000000)
  | 'd' => some dayMicros
  | 'w' => some (7 * dayMicros)
  | _ => none

variable (X : WindowReader)

/-- `_REL_DURATION.fullmatch`: the digits and the unit. -/
def relDuration (text : List Char) : Option (List ℕ × ℤ) :=
  match text.getLast?.bind relUnit, text.dropLast.mapM X.digit with
  | some unit, some digits => if digits = [] then none else some (digits, unit)
  | _, _ => none

/-- `int(digits)`, which the interpreter refuses of more than 4300 digits. -/
def intOfDigits (digits : List ℕ) : Except WindowError ℤ :=
  if 4300 < digits.length then
    .error (.valueError s!"Exceeds the limit (4300 digits) for integer string conversion: value has {digits.length} digits; use sys.set_int_max_str_digits() to increase the limit")
  else .ok (digits.foldl (fun n d => 10 * n + d) 0 : ℕ)

/-- `resolve_window_value`. -/
def resolveWindowValue (now : DateTime) (raw : Option String) : Except WindowError DateTime :=
  if now.offset = none then .error (.typeError "now must be timezone-aware")
  else match raw with
    | none => .error (.attributeError "'NoneType' object has no attribute 'strip'")
    | some raw =>
      let text := strip raw.toList
      match relDuration X text with
      | some (digits, unit) => do
        let amount ← intOfDigits digits
        match (timedelta unit amount).bind now.sub with
        | some d => return d
        | none => .error (.valueError s!"{X.repr raw} is out of range")
      | none => match X.fromisoformat (String.ofList text) with
        | none => .error (.valueError
            s!"{X.repr raw} is neither a duration (e.g. 7d, 24h) nor an ISO datetime")
        | some parsed => .ok (if parsed.offset = none then parsed.replaceUtc else parsed)

/-! ## Windows -/

/-- What a window bounds: an item's source time, or a run's completion. -/
inductive WindowBase
  | occurred
  | completed
  deriving DecidableEq

/-- The two bounds of a window. -/
inductive WindowBound
  | sinceBound
  | untilBound
  deriving DecidableEq

/-- A parameter of `RUN_WINDOW_PARAMS`. -/
abbrev RunWindowParam := WindowBase × WindowBound

/-- The name of a base. -/
def WindowBase.value : WindowBase → String
  | occurred => "occurred"
  | completed => "completed"

/-- The name of a parameter. -/
def RunWindowParam.value : RunWindowParam → String
  | (base, .sinceBound) => base.value ++ "_since"
  | (base, .untilBound) => base.value ++ "_until"

/-- The bounds that are set. -/
abbrev ResolvedWindows := RunWindowParam → Option DateTime

/-- `RUN_WINDOW_DEFAULT_SPAN`. -/
def runWindowDefaultSpan : ℤ := 7 * dayMicros

/-- `resolved[name] = value`. -/
def ResolvedWindows.set (w : ResolvedWindows) (param : RunWindowParam) (d : DateTime) : ResolvedWindows :=
  Function.update w param (some d)

/-- The body of the loop over the values: a `ValueError` names the parameter. -/
def resolveOne (now : DateTime) (w : ResolvedWindows) (kv : RunWindowParam × Option String) :
    Except WindowError ResolvedWindows :=
  match resolveWindowValue X now kv.2 with
  | .ok d => .ok (w.set kv.1 d)
  | .error (.valueError message) => .error (.valueError s!"{kv.1.value}: {message}")
  | .error e => .error e

/-- A lone until gets a since. -/
def defaultSince (w : ResolvedWindows) (base : WindowBase) : Except WindowError ResolvedWindows :=
  match w (base, .untilBound), w (base, .sinceBound) with
  | some upper, none => match upper.sub runWindowDefaultSpan with
    | some since => .ok (w.set (base, .sinceBound) since)
    | none => .error (.valueError
        s!"{RunWindowParam.value (base, .untilBound)} is too early to bound a window below")
  | _, _ => .ok w

/-- The body of the loop over the bases. -/
def boundWindow (w : ResolvedWindows) (base : WindowBase) : Except WindowError ResolvedWindows := do
  let w ← defaultSince w base
  match w (base, .sinceBound), w (base, .untilBound) with
  | some since, some upper =>
    if upper.instant ≤ since.instant then .error (.valueError
      s!"{RunWindowParam.value (base, .sinceBound)} must be before {RunWindowParam.value (base, .untilBound)}")
    else return w
  | _, _ => return w

/-- `resolve_run_windows`, with the bases in the order that the set gives them. -/
def resolveRunWindows (bases : List WindowBase) (now : DateTime)
    (raw : List (RunWindowParam × Option String)) : Except WindowError ResolvedWindows := do
  let resolved ← raw.foldlM (resolveOne X now) fun _ => none
  bases.foldlM boundWindow resolved

/-! ## What a resolution returns -/

/-- The until has its since, which is before it. -/
def Closed (w : ResolvedWindows) (base : WindowBase) : Prop :=
  ∀ upper, w (base, .untilBound) = some upper →
    ∃ since, w (base, .sinceBound) = some since ∧ since.instant < upper.instant

/-- **Every until has its since, which is before it, and every bound is aware.** -/
structure Bounded (w : ResolvedWindows) : Prop where
  closed : ∀ base, Closed w base
  aware : ∀ param d, w param = some d → d.Aware

/-- The exception is a `ValueError`. -/
def IsValueError (e : WindowError) : Prop := ∃ message, e = .valueError message

section Resolution

variable {X : WindowReader} {now : DateTime} {w : ResolvedWindows} {base : WindowBase}

open Except

theorem intOfDigits_ensures {digits : List ℕ} :
    Ensures IsValueError (fun _ => True) (intOfDigits digits) := by
  unfold intOfDigits
  split_ifs
  · exact ⟨_, rfl⟩
  · trivial

/-- **One value.** -/
theorem resolveWindowValue_ensures (hnow : now.Aware) (raw : String) :
    Ensures IsValueError DateTime.Aware (resolveWindowValue X now (some raw)) := by
  have hoffset : now.offset ≠ none := Option.isSome_iff_ne_none.mp hnow
  rw [resolveWindowValue, if_neg hoffset]
  dsimp only
  split
  · rename_i digits unit _
    refine intOfDigits_ensures.bind fun amount _ => ?_
    cases hd : (timedelta unit amount).bind now.sub with
    | none => exact ⟨_, rfl⟩
    | some d =>
      obtain ⟨delta, -, hsub⟩ := Option.bind_eq_some_iff.mp hd
      exact hnow.sub hsub
  · split
    · exact ⟨_, rfl⟩
    · rename_i parsed _
      split_ifs with hp
      · exact DateTime.aware_replaceUtc
      · exact Option.isSome_iff_ne_none.mpr hp

theorem aware_set (hw : ∀ param d, w param = some d → d.Aware) {d : DateTime} (hd : d.Aware)
    (param : RunWindowParam) : ∀ param' d', w.set param d param' = some d' → d'.Aware := by
  intro param' d' h
  unfold ResolvedWindows.set at h
  by_cases he : param' = param
  · subst he
    rw [Function.update_self] at h
    exact Option.some.inj h ▸ hd
  · rw [Function.update_of_ne he] at h
    exact hw param' d' h

/-- One value in the loop. -/
theorem resolveOne_ensures (hnow : now.Aware) {kv : RunWindowParam × Option String}
    (hkv : kv.2.isSome) (hw : ∀ param d, w param = some d → d.Aware) :
    Ensures IsValueError (fun w' => ∀ param d, w' param = some d → d.Aware)
      (resolveOne X now w kv) := by
  obtain ⟨raw, hraw⟩ := Option.isSome_iff_exists.mp hkv
  have hvalue := resolveWindowValue_ensures (X := X) hnow raw
  rw [resolveOne, hraw]
  cases hr : resolveWindowValue X now (some raw) with
  | ok d => exact aware_set hw (hvalue.of_ok hr) kv.1
  | error e =>
    obtain ⟨message, rfl⟩ := hvalue.of_error hr
    exact ⟨_, rfl⟩

/-- What a turn of the loop over the bases keeps. -/
structure Keeps (w w' : ResolvedWindows) : Prop where
  aware : ∀ param d, w' param = some d → d.Aware
  closed : ∀ base, Closed w base → Closed w' base

/-- A window's own since. -/
theorem defaultSince_ensures (hw : ∀ param d, w param = some d → d.Aware) :
    Ensures IsValueError (fun w' => Keeps w w' ∧
      (w' (base, .untilBound) ≠ none → w' (base, .sinceBound) ≠ none)) (defaultSince w base) := by
  rw [defaultSince]
  split
  · rename_i upper hu hs
    split
    · rename_i since hsub
      refine ⟨⟨aware_set hw ((hw _ _ hu).sub hsub) _, fun base' hc upper' hu' => ?_⟩, fun _ => ?_⟩
      · have hother : ((base', .untilBound) : RunWindowParam) ≠ (base, .sinceBound) := by simp
        rw [ResolvedWindows.set, Function.update_of_ne hother] at hu'
        obtain ⟨since', hs', hlt⟩ := hc upper' hu'
        have hne : ((base', .sinceBound) : RunWindowParam) ≠ (base, .sinceBound) := by
          rintro ⟨⟩
          rw [hs] at hs'
          cases hs'
        exact ⟨since', by rw [ResolvedWindows.set, Function.update_of_ne hne, hs'], hlt⟩
      · rw [ResolvedWindows.set, Function.update_self]
        exact Option.some_ne_none _
    · exact ⟨_, rfl⟩
  · rename_i hno
    refine ⟨⟨hw, fun _ hc => hc⟩, fun hu hs => ?_⟩
    obtain ⟨upper, hu⟩ := Option.ne_none_iff_exists'.mp hu
    exact hno upper hu hs

/-- **One base.** -/
theorem boundWindow_ensures (hw : ∀ param d, w param = some d → d.Aware) :
    Ensures IsValueError (fun w' => Keeps w w' ∧ Closed w' base) (boundWindow w base) := by
  rw [boundWindow]
  refine (defaultSince_ensures hw).bind fun w' ⟨hkeeps, hsince⟩ => ?_
  split
  · rename_i since upper hs hu
    split_ifs with hlt
    · exact ⟨_, rfl⟩
    · refine ⟨hkeeps, fun upper' hu' => ⟨since, hs, ?_⟩⟩
      rw [← Option.some.inj (hu.symm.trans hu')]
      exact not_le.mp hlt
  · rename_i hno
    refine ⟨hkeeps, fun upper hu => ?_⟩
    obtain ⟨since, hs⟩ := Option.ne_none_iff_exists'.mp (hsince (by simp [hu]))
    exact absurd hu (hno since upper hs)

theorem boundWindows_ensures {bases : List WindowBase}
    (hw : ∀ param d, w param = some d → d.Aware) :
    Ensures IsValueError (fun w' => Keeps w w' ∧ ∀ base ∈ bases, Closed w' base)
      (bases.foldlM boundWindow w) := by
  induction bases generalizing w with
  | nil => exact ⟨⟨hw, fun _ hc => hc⟩, nofun⟩
  | cons base bases ih =>
    rw [List.foldlM_cons]
    refine (boundWindow_ensures hw).bind fun w₁ ⟨hkeeps, hclosed⟩ => ?_
    refine (ih hkeeps.aware).imp fun w₂ ⟨hkeeps', hrest⟩ => ?_
    exact ⟨⟨hkeeps'.aware, fun base' hc => hkeeps'.closed base' (hkeeps.closed base' hc)⟩,
      List.forall_mem_cons.mpr ⟨hkeeps'.closed base hclosed, hrest⟩⟩

variable (X) in
/-- **Of values that are strings, nothing but a `ValueError` is raised, and what is returned is
bounded.** -/
theorem resolve_bounded (hnow : now.Aware) {bases : List WindowBase} (hbases : ∀ base, base ∈ bases)
    (raw : List (RunWindowParam × Option String)) (hraw : ∀ kv ∈ raw, kv.2.isSome) :
    (∀ e, resolveRunWindows X bases now raw = .error e → IsValueError e) ∧
      ∀ w, resolveRunWindows X bases now raw = .ok w → Bounded w := by
  have hvalues : Ensures IsValueError (fun w => ∀ param d, w param = some d → d.Aware)
      (raw.foldlM (resolveOne X now) fun _ => none) :=
    Ensures.foldlM (fun _ d (h : none = some d) => nomatch h) fun kv hkv w hw =>
      resolveOne_ensures hnow (hraw kv hkv) hw
  have hall : Ensures IsValueError Bounded (resolveRunWindows X bases now raw) :=
    hvalues.bind fun w hw => (boundWindows_ensures hw).imp fun w' ⟨hkeeps, hclosed⟩ =>
      ⟨fun base => hclosed base (hbases base), hkeeps.aware⟩
  exact ⟨fun e he => hall.of_error he, fun w hw => hall.of_ok hw⟩

/-! ## Absolute values -/

variable {now' : DateTime} {kv : RunWindowParam × Option String} {raw : List (RunWindowParam × Option String)}

variable (X) in
/-- The value is a duration back from the clock. -/
def IsRelative (value : String) : Prop := (relDuration X (strip value.toList)).isSome

/-- An absolute value is read without the clock. -/
theorem resolveOne_congr (hnow : now.Aware) (hnow' : now'.Aware)
    (hkv : ∀ value, kv.2 = some value → ¬ IsRelative X value) :
    resolveOne X now w kv = resolveOne X now' w kv := by
  have h : now.offset ≠ none := Option.isSome_iff_ne_none.mp hnow
  have h' : now'.offset ≠ none := Option.isSome_iff_ne_none.mp hnow'
  have hvalue : resolveWindowValue X now kv.2 = resolveWindowValue X now' kv.2 := by
    unfold resolveWindowValue
    rw [if_neg h, if_neg h']
    cases hraw : kv.2 with
    | none => rfl
    | some value =>
      have hrel : relDuration X (strip value.toList) = none :=
        Option.not_isSome_iff_eq_none.mp (hkv value hraw)
      simp only [hrel]
  rw [resolveOne, resolveOne, hvalue]

/-- **Absolute windows do not move with the clock.** -/
theorem resolveRunWindows_congr (hnow : now.Aware) (hnow' : now'.Aware) (bases : List WindowBase)
    (hraw : ∀ kv ∈ raw, ∀ value, kv.2 = some value → ¬ IsRelative X value) :
    resolveRunWindows X bases now raw = resolveRunWindows X bases now' raw := by
  have hfold : ∀ w, raw.foldlM (resolveOne X now) w = raw.foldlM (resolveOne X now') w := by
    induction raw with
    | nil => exact fun _ => rfl
    | cons kv raw ih =>
      intro w
      obtain ⟨hkv, hraw⟩ := List.forall_mem_cons.mp hraw
      rw [List.foldlM_cons, List.foldlM_cons, resolveOne_congr hnow hnow' hkv]
      exact congrArg _ (funext fun w' => ih hraw w')
  rw [resolveRunWindows, resolveRunWindows, hfold]

end Resolution

/-! ## Two resolutions -/

/-- Readers that only take ASCII digits. -/
def asciiWindowReader : WindowReader where
  digit c := if c.isDigit then some (c.toNat - '0'.toNat) else none
  repr s := s
  fromisoformat _ := none

/-- Hundred days into the year 1, in UTC. -/
def earlyNow : DateTime :=
  ⟨100 * dayMicros, some 0, by unfold dayMicros; omega, by unfold maxWall dayMicros; omega⟩

/-- A lone until of one hour before. -/
theorem resolve_bounded_sample :
    (∀ e, resolveRunWindows asciiWindowReader [.occurred, .completed] earlyNow
      [((.completed, .untilBound), some "1h")] = .error e → IsValueError e) ∧
    ∀ w, resolveRunWindows asciiWindowReader [.occurred, .completed] earlyNow
      [((.completed, .untilBound), some "1h")] = .ok w → Bounded w :=
  resolve_bounded asciiWindowReader (rfl : earlyNow.Aware) (by rintro ⟨⟩ <;> decide) _ (by decide)

/-- **A null raises something else.** -/
theorem null_value_raises : ¬ ∀ (raw : List (RunWindowParam × Option String)) (e : WindowError),
    resolveRunWindows asciiWindowReader [.occurred, .completed] earlyNow raw = .error e →
      IsValueError e := by
  intro h
  obtain ⟨message, he⟩ := h [((.completed, .sinceBound), none)] _ rfl
  cases he

end OpenMagpie
