import OpenMagpie.Bridge.Api
import Mathlib.Tactic.SplitIfs

/-!
# A session with an agent

`integrations/acp-bridge/src/acp.mjs`: one process and one session per post. The updates of the
session are read until the agent stops; a timer races the session.

* `runAcpPrompt`: the outcome of a run, from what happens in it.
* `Turn`: an agent's turn with no tool call and no more text than the limit.
* **`runAcpPrompt_ok_iff`**: a run returns a text exactly when such a turn ended with `end_turn`
  before anything else happened, and the text is what the turn said.
* `runAcpPrompt_settles`: a run settles at the latest when the timer rings; `runAcpPrompt_status`: what
  the other runs throw.
-/

set_option autoImplicit false

namespace OpenMagpie.Bridge

open Js

/-- What a request throws: an `ApiError`, an `AcpError`, or any other error. -/
inductive Raised
  | apiError (message : Str) (status : ℕ)
  | acpError (message : Str) (status : ℕ)
  | other

/-- An update of the session. -/
inductive Update
  | stop (reason : Str)
  | toolCall
  | text (chunk : Str)
  | other

/-- What happens in a run: an update arrives, the connection or the session fails, the timer rings. -/
inductive Event
  | update (u : Update)
  | failed (message : Str)
  | timeout

/-- The limit on the text of a turn. -/
def maxOutput : ℕ := 65536

/-- `new AcpError(message, status)`. -/
def acpError (message : String) (status : ℕ) : Raised := .acpError (ofString message) status

section Run

variable (E : Engine)

/-- The text of a model in a message. -/
def modelText : Option Value → Str
  | none => ofString "undefined"
  | some model => (E.toKey model).getD []

/-- The run fails with an error that is no `AcpError`. -/
def unavailable (model : Option Value) (message : Str) : Raised :=
  .acpError (modelText E model ++ ofString " unavailable or not authenticated: " ++ message) 503

/-- The loop over the updates, raced by the timer: none while nothing is settled. -/
def readUpdates (model : Option Value) (output : Str) (attemptedTool : Bool) :
    List Event → Option (Except Raised Str)
  | [] => none
  | .timeout :: _ => some (.error (acpError "ACP agent timed out" 504))
  | .failed message :: _ => some (.error (unavailable E model message))
  | .update (.stop reason) :: _ =>
    if reason ≠ ofString "end_turn" then
      some (.error (.acpError (ofString "ACP agent stopped: " ++ reason) 502))
    else if attemptedTool then some (.error (acpError "ACP agent attempted a tool call" 502))
    else some (.ok output)
  | .update .toolCall :: events => readUpdates model output true events
  | .update (.text chunk) :: events =>
    if maxOutput < (output ++ chunk).length then
      some (.error (acpError "ACP response exceeded size limit" 502))
    else readUpdates model (output ++ chunk) attemptedTool events
  | .update .other :: events => readUpdates model output attemptedTool events

/-- `runAcpPrompt`, from the model, whether the workspace and the process can be made, and what happens
in the run. -/
def runAcpPrompt (model : Option Value) (spawned : Bool) (events : List Event) :
    Option (Except Raised Str) :=
  match knownModel E model with
  | .ok true =>
    -- `mkdtemp` and `spawn` stand before the `try`: their errors are passed on as they are
    if spawned then readUpdates E model [] false events else some (.error .other)
  | .ok false =>
    some (.error (.acpError (ofString "Unknown ACP model: " ++ modelText E model) 400))
  | .error _ => some (.error .other)

end Run

/-! ## A turn -/

/-- What an update says. -/
def Update.said : Update → Str
  | .text chunk => chunk
  | _ => []

/-- What a turn says. -/
def said (turn : List Update) : Str := (turn.map Update.said).flatten

/-- The update neither stops the session nor is a tool call. -/
def Update.Harmless : Update → Prop
  | .stop _ => False
  | .toolCall => False
  | _ => True

/-- A turn without a stop and without a tool call, that says no more than the limit. -/
structure Turn (turn : List Update) : Prop where
  harmless : ∀ u ∈ turn, u.Harmless
  short : (said turn).length ≤ maxOutput

/-- The events of a turn that ends by itself, and what happens after it. -/
def ended (turn : List Update) (rest : List Event) : List Event :=
  turn.map .update ++ .update (.stop (ofString "end_turn")) :: rest

@[simp]
theorem said_other : Update.said .other = [] := rfl

@[simp]
theorem said_cons (u : Update) (turn : List Update) : said (u :: turn) = u.said ++ said turn := rfl

variable {E : Engine} {model : Option Value} {output text : Str} {attemptedTool spawned : Bool}
  {events : List Event}

/-- An update at the head of a turn. -/
theorem readUpdates_harmless {u : Update} (hu : u.Harmless)
    (hshort : (output ++ u.said).length ≤ maxOutput) :
    readUpdates E model output attemptedTool (.update u :: events) =
      readUpdates E model (output ++ u.said) attemptedTool events := by
  cases u with
  | stop reason => exact hu.elim
  | toolCall => exact hu.elim
  | text chunk => exact if_neg (Nat.not_lt.mpr hshort)
  | other => rw [readUpdates, said_other, List.append_nil]

theorem readUpdates_ended {turn : List Update} (hharmless : ∀ u ∈ turn, u.Harmless)
    (hshort : (output ++ said turn).length ≤ maxOutput) (rest : List Event) :
    readUpdates E model output false (ended turn rest) = some (.ok (output ++ said turn)) := by
  induction turn generalizing output with
  | nil => simp [ended, readUpdates, said]
  | cons u turn ih =>
    rw [said_cons, ← List.append_assoc] at hshort ⊢
    have hhead : (output ++ u.said).length ≤ maxOutput := by
      rw [List.length_append] at hshort
      omega
    rw [ended, List.map_cons, List.cons_append,
      readUpdates_harmless (hharmless u List.mem_cons_self) hhead]
    exact ih (fun v hv => hharmless v (List.mem_cons_of_mem _ hv)) hshort

/-- What is read when the loop returns a text. -/
theorem ended_of_readUpdates (h : readUpdates E model output attemptedTool events = some (.ok text))
    (hshort : output.length ≤ maxOutput) : attemptedTool = false ∧ ∃ turn rest,
      events = ended turn rest ∧ (∀ u ∈ turn, u.Harmless) ∧ text = output ++ said turn ∧
      text.length ≤ maxOutput := by
  induction events generalizing output attemptedTool with
  | nil => cases h
  | cons e events ih =>
    cases e with
    | timeout => cases h
    | failed message => cases h
    | update u =>
      cases u with
      | stop reason =>
        by_cases hreason : reason = ofString "end_turn"
        · subst hreason
          cases attemptedTool with
          | true => simp [readUpdates] at h
          | false =>
            obtain rfl : output = text := by simpa [readUpdates] using h
            exact ⟨rfl, [], events, rfl, by simp, by simp [said], hshort⟩
        · simp [readUpdates, hreason] at h
      | toolCall =>
        obtain ⟨htool, -⟩ := ih h hshort
        cases htool
      | text chunk =>
        rw [readUpdates] at h
        by_cases hlong : maxOutput < (output ++ chunk).length
        · rw [if_pos hlong] at h
          cases h
        · rw [if_neg hlong] at h
          obtain ⟨htool, turn, rest, rfl, hharmless, htext, hlen⟩ := ih h (Nat.not_lt.mp hlong)
          refine ⟨htool, .text chunk :: turn, rest, rfl, ?_, ?_, hlen⟩
          · exact List.forall_mem_cons.mpr ⟨trivial, hharmless⟩
          · rw [htext, said_cons, List.append_assoc, Update.said]
      | other =>
        obtain ⟨htool, turn, rest, rfl, hharmless, htext, hlen⟩ := ih h hshort
        refine ⟨htool, .other :: turn, rest, rfl, ?_, ?_, hlen⟩
        · exact List.forall_mem_cons.mpr ⟨trivial, hharmless⟩
        · rw [htext, said_cons, said_other, List.nil_append]

/-- **A run returns a text exactly when the agent's turn ended by itself first**: for a model that is
known, in a process that could be made, after updates that were no tool calls, with the text that they
said, within the limit. -/
theorem runAcpPrompt_ok_iff : runAcpPrompt E model spawned events = some (.ok text) ↔
    knownModel E model = .ok true ∧ spawned = true ∧
      ∃ turn rest, events = ended turn rest ∧ Turn turn ∧ text = said turn := by
  unfold runAcpPrompt
  cases hknown : knownModel E model with
  | error e => simp
  | ok known =>
    cases known with
    | false => simp
    | true =>
      cases spawned with
      | false => simp
      | true =>
        constructor
        · intro h
          obtain ⟨-, turn, rest, he, hharmless, rfl, hlen⟩ := ended_of_readUpdates h (Nat.zero_le _)
          exact ⟨rfl, rfl, turn, rest, he, ⟨hharmless, hlen⟩, rfl⟩
        · rintro ⟨-, -, turn, rest, rfl, hturn, rfl⟩
          exact readUpdates_ended hturn.harmless hturn.short rest

/-! ## A run settles -/

theorem readUpdates_timeout (h : .timeout ∈ events) :
    (readUpdates E model output attemptedTool events).isSome := by
  induction events generalizing output attemptedTool with
  | nil => cases h
  | cons e events ih =>
    cases e with
    | timeout => rfl
    | failed message => rfl
    | update u =>
      have hrest : .timeout ∈ events := by simpa using h
      cases u with
      | stop reason =>
        rw [readUpdates]
        split_ifs <;> rfl
      | toolCall => exact ih hrest
      | other => exact ih hrest
      | text chunk =>
        rw [readUpdates]
        by_cases hlong : maxOutput < (output ++ chunk).length
        · rw [if_pos hlong]
          rfl
        · rw [if_neg hlong]
          exact ih hrest

/-- A run in which the timer rings settles, and one that has no process does. -/
theorem runAcpPrompt_settles (h : spawned = true → .timeout ∈ events) :
    (runAcpPrompt E model spawned events).isSome := by
  unfold runAcpPrompt
  split
  · cases spawned with
    | false => rfl
    | true => exact readUpdates_timeout (h rfl)
  · rfl
  · rfl

/-- The statuses of an agent's failure. -/
def Raised.FromAgent : Raised → Prop
  | .acpError _ status => status ∈ [400, 502, 503, 504]
  | .apiError _ _ => False
  | .other => True

theorem readUpdates_status {e : Raised}
    (h : readUpdates E model output attemptedTool events = some (.error e)) : e.FromAgent := by
  induction events generalizing output attemptedTool with
  | nil => cases h
  | cons e' events ih =>
    cases e' with
    | timeout =>
      cases h
      simp [Raised.FromAgent, acpError]
    | failed message =>
      cases h
      simp [Raised.FromAgent, unavailable]
    | update u =>
      cases u with
      | stop reason =>
        rw [readUpdates] at h
        split_ifs at h <;> cases h <;> simp [Raised.FromAgent, acpError]
      | toolCall => exact ih h
      | other => exact ih h
      | text chunk =>
        rw [readUpdates] at h
        split_ifs at h
        · cases h
          simp [Raised.FromAgent, acpError]
        · exact ih h

/-- A run that throws throws an `AcpError` with a status of its own, or another error: the language's,
or the one of a process that cannot be made. -/
theorem runAcpPrompt_status {e : Raised}
    (h : runAcpPrompt E model spawned events = some (.error e)) : e.FromAgent := by
  unfold runAcpPrompt at h
  split at h
  · split_ifs at h
    · exact readUpdates_status h
    · cases h
      trivial
  · cases h
    simp [Raised.FromAgent]
  · cases h
    trivial

end OpenMagpie.Bridge
