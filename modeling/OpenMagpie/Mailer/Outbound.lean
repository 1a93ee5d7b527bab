import Mathlib.Data.List.Sort
import OpenMagpie.Lib.Table
import OpenMagpie.Lib.Trace
import OpenMagpie.Watches.Models

/-!
# The outbound mail queue

A drain reads the due rows, claims them one at a time by a guarded update, reads a claimed row back,
sends it and records the outcome under the claim's number. Any number of drains, reapers and
enqueues share the table.

* `MailerService`: the statements of the service.
* `MailThread`, `MailThread.Step`: a drain, a reaper, an enqueue and the clock, one statement a step.
* `EmailsKept`: no row is dropped or its attempts lowered, and a sent or failed row stays as it is.
* `AsSnapshot`: the claimed row is scheduled as the snapshot had it, and a claimed row that is read
  back is still under its claim.
* `mail_rows`: the rows and the claim numbers, in every run; **`mail_drains`**: all laws of the queue,
  in every run that meets the condition.
* **`mail_overtaken`**: a run without each half of it.
-/

set_option autoImplicit false

namespace OpenMagpie

open Interleave

/-! ## Rows -/

/-- The lifecycle of an email. -/
inductive EmailState
  | pending
  | sending
  | sent
  | failed
  deriving DecidableEq

/-- A queued email. -/
structure OutboundEmail where
  id : Id
  idempotencyKey : String
  state : EmailState := .pending
  attempts : ℕ := 0
  error : String := ""
  scheduledAt : Time
  startedAt : Option Time := none
  sentAt : Option Time := none
  deriving DecidableEq

/-- The settings of the queue. -/
structure MailSettings where
  emailSendMaxAttempts : ℤ := 5
  emailSendStaleSeconds : ℤ := 300
  emailSendRetrySeconds : ℤ := 300

/-- Sent, or failed for good. -/
def OutboundEmail.Final (r : OutboundEmail) : Prop := r.state = .sent ∨ r.state = .failed

/-! ## Statements -/

namespace MailerService

variable (S : MailSettings)

/-- The filter of `iter_due`. -/
def IsDue (ts : Time) (r : OutboundEmail) : Prop :=
  r.state = .pending ∧ r.scheduledAt ≤ ts ∧ (r.attempts : ℤ) < S.emailSendMaxAttempts

instance (ts : Time) (r : OutboundEmail) : Decidable (IsDue S ts r) := by
  unfold IsDue; infer_instance

/-- `iter_due`: the due rows, oldest first. -/
def iterDue (ts : Time) (emails : List OutboundEmail) : List OutboundEmail :=
  (emails.filter fun r => decide (IsDue S ts r)).insertionSort fun r r' =>
    r.scheduledAt ≤ r'.scheduledAt

/-- The condition of the claim. -/
def claimGuard (email r : OutboundEmail) : Bool :=
  decide (r.id = email.id ∧ r.state = .pending ∧ (r.attempts : ℤ) < S.emailSendMaxAttempts)

/-- A claimed row. -/
def claimedRow (ts : Time) (r : OutboundEmail) : OutboundEmail :=
  { r with state := .sending, startedAt := some ts, attempts := r.attempts + 1 }

/-- The guard of `complete_sent` and `fail`: the row is sending under this claim. -/
def heldGuard (email r : OutboundEmail) : Bool :=
  decide (r.id = email.id ∧ r.state = .sending ∧ r.attempts = email.attempts)

/-- The row that `complete_sent` writes. -/
def sentRow (ts : Time) (r : OutboundEmail) : OutboundEmail :=
  { r with state := .sent, sentAt := some ts, error := "" }

/-- The row that `fail` writes. -/
def failedRow (email : OutboundEmail) (error : String) (ts : Time) (r : OutboundEmail) :
    OutboundEmail :=
  if S.emailSendMaxAttempts ≤ email.attempts then
    { r with state := .failed, error := error, scheduledAt := email.scheduledAt }
  else
    { r with state := .pending, error := error, scheduledAt := ts + S.emailSendRetrySeconds }

/-- Stuck in sending past the cutoff of a reaper at `ts`. -/
def IsStale (ts : Time) (r : OutboundEmail) : Prop :=
  r.state = .sending ∧ ∃ t ∈ r.startedAt, t < ts - S.emailSendStaleSeconds

instance (ts : Time) (r : OutboundEmail) : Decidable (IsStale S ts r) := by
  unfold IsStale; infer_instance

/-- The rows of the first update of `reap_stale`. -/
def exhaustedGuard (ts : Time) (r : OutboundEmail) : Bool :=
  decide (IsStale S ts r ∧ S.emailSendMaxAttempts ≤ r.attempts)

/-- The row that the first update of `reap_stale` writes. -/
def exhaustedRow (r : OutboundEmail) : OutboundEmail :=
  { r with state := .failed, error := "reaped after stale timeout (attempts exhausted)" }

/-- The rows of the second update of `reap_stale`. -/
def retryableGuard (ts : Time) (r : OutboundEmail) : Bool :=
  decide (IsStale S ts r ∧ (r.attempts : ℤ) < S.emailSendMaxAttempts)

/-- The row that the second update of `reap_stale` writes. -/
def retryableRow (r : OutboundEmail) : OutboundEmail := { r with state := .pending }

/-- `enqueue`: `get_or_create` on the idempotency key. -/
def enqueue (id : Id) (key : String) (scheduledAt : Time) (emails : List OutboundEmail) :
    List OutboundEmail :=
  if key ∈ emails.map (·.idempotencyKey) then emails
  else emails ++ [{ id := id, idempotencyKey := key, scheduledAt := scheduledAt }]

end MailerService

/-! ## The system -/

/-- A claim: its row and number, the pass clock, and when the row was scheduled. -/
structure MailClaim where
  id : Id
  number : ℕ
  passClock : Time
  scheduledAt : Time

/-- How a claim ended: its row and number, and the number of the worker's own claim, or none for a
reaper. -/
structure MailResolution where
  id : Id
  number : ℕ
  worker : Option ℕ

/-- The table and the clock; and, for the record, the claims and how they ended. -/
structure MailStore where
  clock : Time := 0
  emails : List OutboundEmail := []
  claims : List MailClaim := []
  resolved : List MailResolution := []

namespace MailStore

variable (s : MailStore)

/-- The claiming update of `claim_due`. -/
def claim (S : MailSettings) (email : OutboundEmail) (ts : Time) : MailStore :=
  { s with
    emails := Table.update (MailerService.claimGuard S email) (MailerService.claimedRow ts) s.emails
    claims := (s.emails.filter (MailerService.claimGuard S email)).map
      (fun r => ⟨r.id, r.attempts + 1, ts, r.scheduledAt⟩) ++ s.claims }

/-- An update that ends the claims of the rows it writes. -/
def resolve (p : OutboundEmail → Bool) (f : OutboundEmail → OutboundEmail) (worker : Option ℕ) :
    MailStore :=
  { s with
    emails := Table.update p f s.emails
    resolved := (s.emails.filter p).map (fun r => ⟨r.id, r.attempts, worker⟩) ++ s.resolved }

end MailStore

/-- Where a thread stands. A drain has its pass clock and the candidates left; a worker also has the
number of its own claim. -/
inductive MailThread
  | idle
  | draining (now : Time) (candidates : List OutboundEmail)
  | refreshing (now : Time) (id : Id) (claim : ℕ) (candidates : List OutboundEmail)
  | sending (now : Time) (email : OutboundEmail) (claim : ℕ) (candidates : List OutboundEmail)
  | reaping (now : Time)
  | clock

/-- The steps of the queue. -/
inductive MailThread.Step (S : MailSettings) : ThreadRel MailStore MailThread
  -- a drain
  | query {s : MailStore} (now : Time) (hn : now ≤ s.clock) :
      Step S .idle s s (.draining now (MailerService.iterDue S now s.emails))
  | claim {s : MailStore} {now : Time} {email r : OutboundEmail} {rest : List OutboundEmail}
      (hr : r ∈ s.emails) (hg : MailerService.claimGuard S email r = true) :
      Step S (.draining now (email :: rest)) s (s.claim S email now)
        (.refreshing now email.id (r.attempts + 1) rest)
  | miss {s : MailStore} {now : Time} {email : OutboundEmail} {rest : List OutboundEmail}
      (hg : ∀ r ∈ s.emails, MailerService.claimGuard S email r = false) :
      Step S (.draining now (email :: rest)) s s (.draining now rest)
  | refresh {s : MailStore} {now : Time} {r : OutboundEmail} {claim : ℕ}
      {rest : List OutboundEmail} (hr : r ∈ s.emails) :
      Step S (.refreshing now r.id claim rest) s s (.sending now r claim rest)
  | completeSent {s : MailStore} {now : Time} {email : OutboundEmail} {claim : ℕ}
      {rest : List OutboundEmail} :
      Step S (.sending now email claim rest) s
        (s.resolve (MailerService.heldGuard email) (MailerService.sentRow s.clock) (some claim))
        (.draining now rest)
  | fail {s : MailStore} {now : Time} {email : OutboundEmail} {claim : ℕ}
      {rest : List OutboundEmail} (error : String) :
      Step S (.sending now email claim rest) s
        (s.resolve (MailerService.heldGuard email) (MailerService.failedRow S email error s.clock)
          (some claim)) (.draining now rest)
  -- the outcome of a send is not recorded
  | lose {s : MailStore} {now : Time} {email : OutboundEmail} {claim : ℕ}
      {rest : List OutboundEmail} :
      Step S (.sending now email claim rest) s s (.draining now rest)
  -- a reaper
  | reapExhausted {s : MailStore} (now : Time) (hn : now ≤ s.clock) :
      Step S .idle s
        (s.resolve (MailerService.exhaustedGuard S now) MailerService.exhaustedRow none)
        (.reaping now)
  | reapRetryable {s : MailStore} {now : Time} :
      Step S (.reaping now) s
        (s.resolve (MailerService.retryableGuard S now) MailerService.retryableRow none) .idle
  -- an enqueue
  | enqueue {s : MailStore} {id : Id} {key : String} {scheduledAt : Time}
      (hid : ∀ r ∈ s.emails, r.id ≠ id) :
      Step S .idle s { s with emails := MailerService.enqueue id key scheduledAt s.emails } .idle
  -- the end of a pass, or of its process
  | stop {s : MailStore} {t : MailThread} : Step S t s s .idle
  | tick {s : MailStore} (now : Time) (hn : s.clock ≤ now) :
      Step S .clock s { s with clock := now } .clock

/-- The rows have ids of their own; no attempts are over the cap, and a pending row has one left. -/
structure EmailsOk (S : MailSettings) (emails : List OutboundEmail) : Prop where
  ids : (emails.map (·.id)).Nodup
  cap : ∀ r ∈ emails, (r.attempts : ℤ) ≤ S.emailSendMaxAttempts
  pending : ∀ r ∈ emails, r.state = .pending → (r.attempts : ℤ) < S.emailSendMaxAttempts

/-- Any such queue, and no pass. -/
def MailInit (S : MailSettings) (c : Conf MailStore MailThread) : Prop :=
  EmailsOk S c.shared.emails ∧ c.shared.claims = [] ∧ c.shared.resolved = [] ∧
    ∀ p, c.thread p = .idle ∨ c.thread p = .clock

/-- A claimed row is scheduled as the drain's snapshot had it, and a row that is read back after its
claim is still under that claim. -/
def AsSnapshot : StepCond MailStore MailThread := fun c p _ t =>
  match c.thread p, t with
  | .draining _ (email :: _), .refreshing .. =>
    ∀ r ∈ c.shared.emails, r.id = email.id → r.scheduledAt = email.scheduledAt
  | .refreshing _ id claim _, .sending .. => ∀ r ∈ c.shared.emails, r.id = id → r.attempts = claim
  | _, _ => True

/-! ## Rows -/

/-- No row is dropped or its attempts lowered, and a sent or failed row stays as it is. -/
def EmailsKept (old new : List OutboundEmail) : Prop :=
  ∀ r ∈ old, ∃ r' ∈ new, r'.id = r.id ∧ r.attempts ≤ r'.attempts ∧ (r.Final → r' = r)

theorem EmailsKept.refl (emails : List OutboundEmail) : EmailsKept emails emails :=
  fun r hr => ⟨r, hr, rfl, le_rfl, fun _ => rfl⟩

theorem EmailsKept.trans {l₁ l₂ l₃ : List OutboundEmail} (h : EmailsKept l₁ l₂)
    (h' : EmailsKept l₂ l₃) : EmailsKept l₁ l₃ := by
  intro r hr
  obtain ⟨r₂, hr₂, hid₂, ha₂, hf₂⟩ := h r hr
  obtain ⟨r₃, hr₃, hid₃, ha₃, hf₃⟩ := h' r₂ hr₂
  refine ⟨r₃, hr₃, hid₃.trans hid₂, ha₂.trans ha₃, fun hr => ?_⟩
  obtain rfl := hf₂ hr
  exact hf₃ hr

/-- What a statement keeps of the rows it selects: the id and the attempts, and it spares the sent and
failed rows. -/
structure MailWrite (p : OutboundEmail → Bool) (f : OutboundEmail → OutboundEmail) : Prop where
  id : ∀ r, (f r).id = r.id
  attempts : ∀ r, r.attempts ≤ (f r).attempts
  live : ∀ r, p r = true → ¬ r.Final

/-- A statement that ends claims: it takes sending rows to another state, and to pending only with an
attempt left. -/
structure MailEnd (S : MailSettings) (p : OutboundEmail → Bool)
    (f : OutboundEmail → OutboundEmail) : Prop where
  id : ∀ r, (f r).id = r.id
  attempts : ∀ r, (f r).attempts = r.attempts
  held : ∀ r, p r = true → r.state = .sending
  ended : ∀ r, p r = true → (f r).state ≠ .sending
  retried : ∀ r, p r = true → (f r).state = .pending → (r.attempts : ℤ) < S.emailSendMaxAttempts

section Write

variable {S : MailSettings} {emails : List OutboundEmail} {p : OutboundEmail → Bool}
  {f : OutboundEmail → OutboundEmail}

theorem not_final_of_sending {r : OutboundEmail} (h : r.state = .sending) : ¬ r.Final := by
  simp [OutboundEmail.Final, h]

theorem MailEnd.write (h : MailEnd S p f) : MailWrite p f :=
  ⟨h.id, fun r => (h.attempts r).ge, fun r hr => not_final_of_sending (h.held r hr)⟩

theorem MailWrite.kept (hw : MailWrite p f) (emails : List OutboundEmail) :
    EmailsKept emails (Table.update p f emails) := by
  intro r hr
  cases hp : p r with
  | true => exact ⟨f r, Table.mem_update_of hr hp, hw.id r, hw.attempts r,
      fun hf => absurd hf (hw.live r hp)⟩
  | false => exact ⟨r, Table.mem_update_of_not hr hp, rfl, le_rfl, fun _ => rfl⟩

theorem MailWrite.ids (hw : MailWrite p f) (emails : List OutboundEmail) :
    (Table.update p f emails).map (·.id) = emails.map (·.id) :=
  Table.map_update _ fun r _ => hw.id r

theorem MailEnd.ok (he : MailEnd S p f) (h : EmailsOk S emails) :
    EmailsOk S (Table.update p f emails) where
  ids := by rw [he.write.ids]; exact h.ids
  cap := Table.forall_update (fun r hr _ => by rw [he.attempts]; exact h.cap r hr)
    fun r hr _ => h.cap r hr
  pending := Table.forall_update (fun r _ hp hs => by rw [he.attempts]; exact he.retried r hp hs)
    fun r hr _ => h.pending r hr

variable (S)

theorem sent_end (email : OutboundEmail) (ts : Time) :
    MailEnd S (MailerService.heldGuard email) (MailerService.sentRow ts) where
  id _ := rfl
  attempts _ := rfl
  held r hr := by
    simp only [MailerService.heldGuard, decide_eq_true_eq] at hr
    exact hr.2.1
  ended r _ := by simp [MailerService.sentRow]
  retried r _ hs := by simp [MailerService.sentRow] at hs

theorem failed_end (email : OutboundEmail) (error : String) (ts : Time) :
    MailEnd S (MailerService.heldGuard email) (MailerService.failedRow S email error ts) where
  id r := by unfold MailerService.failedRow; split_ifs <;> rfl
  attempts r := by unfold MailerService.failedRow; split_ifs <;> rfl
  held r hr := by
    simp only [MailerService.heldGuard, decide_eq_true_eq] at hr
    exact hr.2.1
  ended r _ := by unfold MailerService.failedRow; split_ifs <;> simp
  retried r hr hs := by
    simp only [MailerService.heldGuard, decide_eq_true_eq] at hr
    unfold MailerService.failedRow at hs
    split_ifs at hs with hc
    rw [hr.2.2]
    omega

theorem exhausted_end (ts : Time) :
    MailEnd S (MailerService.exhaustedGuard S ts) MailerService.exhaustedRow where
  id _ := rfl
  attempts _ := rfl
  held r hr := by
    simp only [MailerService.exhaustedGuard, decide_eq_true_eq] at hr
    exact hr.1.1
  ended r _ := by simp [MailerService.exhaustedRow]
  retried r _ hs := by simp [MailerService.exhaustedRow] at hs

theorem retryable_end (ts : Time) :
    MailEnd S (MailerService.retryableGuard S ts) MailerService.retryableRow where
  id _ := rfl
  attempts _ := rfl
  held r hr := by
    simp only [MailerService.retryableGuard, decide_eq_true_eq] at hr
    exact hr.1.1
  ended r _ := by simp [MailerService.retryableRow]
  retried r hr _ := by
    simp only [MailerService.retryableGuard, decide_eq_true_eq] at hr
    exact hr.2

variable {S}

theorem MailerService.claimGuard_iff {email r : OutboundEmail} : MailerService.claimGuard S email r = true ↔
    r.id = email.id ∧ r.state = .pending ∧ (r.attempts : ℤ) < S.emailSendMaxAttempts := by
  simp [MailerService.claimGuard]

theorem claim_write (email : OutboundEmail) (ts : Time) :
    MailWrite (MailerService.claimGuard S email) (MailerService.claimedRow ts) where
  id _ := rfl
  attempts r := Nat.le_succ r.attempts
  live r hr := by simp [OutboundEmail.Final, (MailerService.claimGuard_iff.mp hr).2.1]

theorem ok_claim (h : EmailsOk S emails) (email : OutboundEmail) (ts : Time) : EmailsOk S
    (Table.update (MailerService.claimGuard S email) (MailerService.claimedRow ts) emails) where
  ids := by rw [(claim_write email ts).ids]; exact h.ids
  cap := Table.forall_update (fun r _ hp => by
      have hlt := (MailerService.claimGuard_iff.mp hp).2.2
      simp only [MailerService.claimedRow]
      omega) fun r hr _ => h.cap r hr
  pending := Table.forall_update (fun r _ _ hs => by simp [MailerService.claimedRow] at hs)
    fun r hr _ => h.pending r hr

/-- What an enqueue does: nothing when the key is taken, else it appends one fresh row. -/
theorem enqueue_cases (id : Id) (key : String) (scheduledAt : Time)
    (emails : List OutboundEmail) :
    MailerService.enqueue id key scheduledAt emails = emails ∨
      ∃ r : OutboundEmail, r.id = id ∧ r.state = .pending ∧ r.attempts = 0 ∧
        MailerService.enqueue id key scheduledAt emails = emails ++ [r] := by
  unfold MailerService.enqueue
  split_ifs
  · exact .inl rfl
  · exact .inr ⟨_, rfl, rfl, rfl, rfl⟩

theorem ok_enqueue (hcap : 0 < S.emailSendMaxAttempts) (h : EmailsOk S emails) {id : Id}
    (hid : ∀ r ∈ emails, r.id ≠ id) (key : String) (scheduledAt : Time) :
    EmailsOk S (MailerService.enqueue id key scheduledAt emails) := by
  obtain he | ⟨r, hr, -, ha, he⟩ := enqueue_cases id key scheduledAt emails
  · rwa [he]
  · rw [he]
    refine ⟨?_, fun x hx => ?_, fun x hx hs => ?_⟩
    · rw [List.map_append, List.nodup_append]
      refine ⟨h.ids, by simp, ?_⟩
      rintro a ha b hb rfl
      obtain ⟨x, hx, rfl⟩ := List.mem_map.mp ha
      simp only [List.map_cons, List.map_nil, List.mem_singleton] at hb
      exact hid x hx (hb.trans hr)
    · obtain hx | hx := List.mem_append.mp hx
      · exact h.cap x hx
      · obtain rfl := List.mem_singleton.mp hx
        rw [ha]
        exact_mod_cast hcap.le
    · obtain hx | hx := List.mem_append.mp hx
      · exact h.pending x hx hs
      · obtain rfl := List.mem_singleton.mp hx
        rw [ha]
        exact_mod_cast hcap

theorem kept_enqueue (id : Id) (key : String) (scheduledAt : Time)
    (emails : List OutboundEmail) :
    EmailsKept emails (MailerService.enqueue id key scheduledAt emails) := by
  obtain he | ⟨r, -, -, -, he⟩ := enqueue_cases id key scheduledAt emails
  · rw [he]
    exact .refl emails
  · rw [he]
    exact fun x hx => ⟨x, List.mem_append_left _ hx, rfl, le_rfl, fun _ => rfl⟩

end Write

/-! ## Claims and their numbers -/

/-- A number under which a row has been claimed. -/
def ClaimSeen (emails : List OutboundEmail) (x : Id × ℕ) : Prop :=
  ∃ r ∈ emails, r.id = x.1 ∧ x.2 ≤ r.attempts

/-- A number under which a row has been claimed and is no longer sending. -/
def ClaimBehind (emails : List OutboundEmail) (x : Id × ℕ) : Prop :=
  ∃ r ∈ emails, r.id = x.1 ∧ x.2 ≤ r.attempts ∧ (r.state = .sending → x.2 < r.attempts)

/-- The claims have numbers of their own, and each ends at most once. -/
structure MailLog (s : MailStore) : Prop where
  claimed : (s.claims.map fun x => (x.id, x.number)).Nodup
  known : ∀ x ∈ s.claims, ClaimSeen s.emails (x.id, x.number)
  resolved : (s.resolved.map fun x => (x.id, x.number)).Nodup
  behind : ∀ x ∈ s.resolved, ClaimBehind s.emails (x.id, x.number)

section Numbers

variable {S : MailSettings} {s : MailStore} {emails : List OutboundEmail}
  {p : OutboundEmail → Bool} {f : OutboundEmail → OutboundEmail}

theorem ClaimSeen.kept {l : List OutboundEmail} {x : Id × ℕ} (h : ClaimSeen emails x)
    (hk : EmailsKept emails l) : ClaimSeen l x := by
  obtain ⟨r, hr, hid, hn⟩ := h
  obtain ⟨r', hr', hid', ha, -⟩ := hk r hr
  exact ⟨r', hr', hid'.trans hid, hn.trans ha⟩

theorem ClaimBehind.append {x : Id × ℕ} (h : ClaimBehind emails x) (l : List OutboundEmail) :
    ClaimBehind (emails ++ l) x := by
  obtain ⟨r, hr, h⟩ := h
  exact ⟨r, List.mem_append_left _ hr, h⟩

/-- A statement that takes rows out of sending, or claims them anew, leaves old numbers behind. -/
theorem ClaimBehind.update {x : Id × ℕ} (h : ClaimBehind emails x) (hw : MailWrite p f)
    (hs : ∀ r, p r = true → (f r).state = .sending → r.attempts < (f r).attempts) :
    ClaimBehind (Table.update p f emails) x := by
  obtain ⟨r, hr, hid, hn, hlt⟩ := h
  cases hp : p r with
  | true => exact ⟨f r, Table.mem_update_of hr hp, (hw.id r).trans hid, hn.trans (hw.attempts r),
      fun hf => hn.trans_lt (hs r hp hf)⟩
  | false => exact ⟨r, Table.mem_update_of_not hr hp, hid, hn, hlt⟩

/-- Numbers of selected rows are new when they are above all the old ones. -/
theorem nodup_numbers (hids : (emails.map (·.id)).Nodup) {old : List (Id × ℕ)} (hold : old.Nodup)
    (num : OutboundEmail → ℕ)
    (hfree : ∀ x ∈ old, ∃ r ∈ emails, r.id = x.1 ∧ (p r = true → x.2 < num r)) :
    ((emails.filter p).map (fun r => (r.id, num r)) ++ old).Nodup := by
  rw [List.nodup_append]
  refine ⟨?_, hold, ?_⟩
  · refine List.Nodup.of_map Prod.fst ?_
    rw [List.map_map]
    exact hids.sublist (List.filter_sublist.map _)
  · rintro a ha b hb rfl
    obtain ⟨r, hr, rfl⟩ := List.mem_map.mp ha
    obtain ⟨hr, hp⟩ := List.mem_filter.mp hr
    obtain ⟨r', hr', hid, hlt⟩ := hfree _ hb
    obtain rfl := Table.eq_of_key hids hr' hr hid
    exact lt_irrefl _ (hlt hp)

theorem MailLog.claim (h : MailLog s) (ho : EmailsOk S s.emails) (email : OutboundEmail)
    (ts : Time) : MailLog (s.claim S email ts) where
  claimed := by
    simp only [MailStore.claim, List.map_append, List.map_map]
    refine nodup_numbers ho.ids h.claimed (fun r => r.attempts + 1) fun x hx => ?_
    obtain ⟨y, hy, rfl⟩ := List.mem_map.mp hx
    obtain ⟨r, hr, hid, hn⟩ := h.known y hy
    exact ⟨r, hr, hid, fun _ => Nat.lt_succ_of_le hn⟩
  known x hx := by
    obtain hx | hx := List.mem_append.mp hx
    · obtain ⟨r, hr, rfl⟩ := List.mem_map.mp hx
      obtain ⟨hr, hp⟩ := List.mem_filter.mp hr
      exact ⟨_, Table.mem_update_of hr hp, rfl, le_rfl⟩
    · exact (h.known x hx).kept ((claim_write email ts).kept _)
  resolved := h.resolved
  behind x hx := (h.behind x hx).update (claim_write email ts) fun r _ _ => Nat.lt_succ_self _

theorem MailLog.resolve (h : MailLog s) (ho : EmailsOk S s.emails) (he : MailEnd S p f)
    (worker : Option ℕ) : MailLog (s.resolve p f worker) where
  claimed := h.claimed
  known x hx := (h.known x hx).kept (he.write.kept _)
  resolved := by
    simp only [MailStore.resolve, List.map_append, List.map_map]
    refine nodup_numbers ho.ids h.resolved (fun r => r.attempts) fun x hx => ?_
    obtain ⟨y, hy, rfl⟩ := List.mem_map.mp hx
    obtain ⟨r, hr, hid, -, hlt⟩ := h.behind y hy
    exact ⟨r, hr, hid, fun hp => hlt (he.held r hp)⟩
  behind x hx := by
    obtain hx | hx := List.mem_append.mp hx
    · obtain ⟨r, hr, rfl⟩ := List.mem_map.mp hx
      obtain ⟨hr, hp⟩ := List.mem_filter.mp hr
      exact ⟨f r, Table.mem_update_of hr hp, he.id r, (he.attempts r).ge,
        fun hs => absurd hs (he.ended r hp)⟩
    · exact (h.behind x hx).update he.write fun r hp hs => absurd hs (he.ended r hp)

theorem MailLog.enqueue (h : MailLog s) (id : Id) (key : String) (scheduledAt : Time) :
    MailLog { s with emails := MailerService.enqueue id key scheduledAt s.emails } where
  claimed := h.claimed
  known x hx := (h.known x hx).kept (kept_enqueue id key scheduledAt s.emails)
  resolved := h.resolved
  behind x hx := by
    obtain he | ⟨r, -, -, -, he⟩ := enqueue_cases id key scheduledAt s.emails
    · simpa only [he] using h.behind x hx
    · simpa only [he] using (h.behind x hx).append [r]

end Numbers

/-! ## In every run -/

section Runs

variable {S : MailSettings} {s s' : MailStore} {t t' : MailThread}
  {c : Conf MailStore MailThread} {ok : StepCond MailStore MailThread}
  {tr : List (Move MailStore MailThread)}

/-- No step drops a row, lowers its attempts or changes a sent or failed one. -/
theorem MailThread.Step.kept (h : MailThread.Step S t s s' t') :
    EmailsKept s.emails s'.emails := by
  cases h with
  | query | miss | refresh | lose | stop | tick => exact .refl _
  | claim => exact (claim_write _ _).kept _
  | completeSent => exact (sent_end S _ _).write.kept _
  | fail => exact (failed_end S _ _ _).write.kept _
  | reapExhausted => exact (exhausted_end S _).write.kept _
  | reapRetryable => exact (retryable_end S _).write.kept _
  | enqueue => exact kept_enqueue _ _ _ _

/-- One step keeps the rows and the numbers in order. -/
theorem MailThread.Step.log (h : MailThread.Step S t s s' t') (hcap : 0 < S.emailSendMaxAttempts)
    (ho : EmailsOk S s.emails) (hl : MailLog s) : EmailsOk S s'.emails ∧ MailLog s' := by
  cases h with
  | query | miss | refresh | lose | stop => exact ⟨ho, hl⟩
  | tick => exact ⟨ho, hl.claimed, hl.known, hl.resolved, hl.behind⟩
  | claim => exact ⟨ok_claim ho _ _, hl.claim ho _ _⟩
  | completeSent => exact ⟨(sent_end S _ _).ok ho, hl.resolve ho (sent_end S _ _) _⟩
  | fail => exact ⟨(failed_end S _ _ _).ok ho, hl.resolve ho (failed_end S _ _ _) _⟩
  | reapExhausted => exact ⟨(exhausted_end S _).ok ho, hl.resolve ho (exhausted_end S _) _⟩
  | reapRetryable => exact ⟨(retryable_end S _).ok ho, hl.resolve ho (retryable_end S _) _⟩
  | enqueue hid => exact ⟨ok_enqueue hcap ho hid _ _, hl.enqueue _ _ _⟩

/-- **The rows and the numbers, in every run.** -/
theorem mail_rows (hcap : 0 < S.emailSendMaxAttempts)
    (h : Run (MailThread.Step S) (MailInit S) ok tr c) :
    EmailsOk S c.shared.emails ∧ MailLog c.shared ∧
      ∀ m ∈ tr, EmailsKept m.before.shared.emails c.shared.emails := by
  refine h.invariant (I := fun tr c => EmailsOk S c.shared.emails ∧ MailLog c.shared ∧
    ∀ m ∈ tr, EmailsKept m.before.shared.emails c.shared.emails) ?_ ?_
  · rintro c ⟨ho, hcl, hre, -⟩
    refine ⟨ho, ⟨?_, ?_, ?_, ?_⟩, by simp⟩ <;> simp [hcl, hre]
  · rintro tr c p s t ⟨ho, hl, hk⟩ hs -
    obtain ⟨ho', hl'⟩ := hs.log hcap ho hl
    refine ⟨ho', hl', fun m hm => ?_⟩
    obtain rfl | hm := List.mem_cons.mp hm
    · exact hs.kept
    · exact (hk m hm).trans hs.kept

/-- What a drain knows: its candidates were due at its pass clock, and a row that it sends is under
its own claim. -/
def MailThread.Knows : MailThread → Prop
  | draining now candidates | refreshing now _ _ candidates =>
    ∀ email ∈ candidates, email.scheduledAt ≤ now
  | sending now email claim candidates =>
    email.attempts = claim ∧ ∀ email ∈ candidates, email.scheduledAt ≤ now
  | _ => True

/-- A worker ends its own claim only, and no row is claimed before it is scheduled. -/
structure MailFenced (s : MailStore) : Prop where
  own : ∀ x ∈ s.resolved, ∀ n ∈ x.worker, n = x.number
  backoff : ∀ x ∈ s.claims, x.scheduledAt ≤ x.passClock

theorem MailFenced.resolve {p : OutboundEmail → Bool} (h : MailFenced s) {worker : Option ℕ}
    (hw : ∀ r, p r = true → ∀ n ∈ worker, n = r.attempts) (f : OutboundEmail → OutboundEmail) :
    MailFenced (s.resolve p f worker) where
  own x hx := by
    obtain hx | hx := List.mem_append.mp hx
    · obtain ⟨r, hr, rfl⟩ := List.mem_map.mp hx
      exact hw r (List.mem_filter.mp hr).2
    · exact h.own x hx
  backoff := h.backoff

theorem MailFenced.held (h : MailFenced s) (email : OutboundEmail)
    (f : OutboundEmail → OutboundEmail) :
    MailFenced (s.resolve (MailerService.heldGuard email) f (some email.attempts)) := by
  refine h.resolve (fun r hr n hn => ?_) f
  simp only [MailerService.heldGuard, decide_eq_true_eq] at hr
  rw [hr.2.2, Option.mem_some_iff.mp hn]

theorem MailFenced.claim (h : MailFenced s) {email : OutboundEmail} {now : Time}
    (hs : ∀ r ∈ s.emails, r.id = email.id → r.scheduledAt ≤ now) :
    MailFenced (s.claim S email now) where
  own := h.own
  backoff x hx := by
    obtain hx | hx := List.mem_append.mp hx
    · obtain ⟨r, hr, rfl⟩ := List.mem_map.mp hx
      obtain ⟨hr, hp⟩ := List.mem_filter.mp hr
      exact hs r hr (MailerService.claimGuard_iff.mp hp).1
    · exact h.backoff x hx

theorem MailerService.mem_iterDue {ts : Time} {emails : List OutboundEmail} {r : OutboundEmail} :
    r ∈ MailerService.iterDue S ts emails ↔ r ∈ emails ∧ MailerService.IsDue S ts r := by
  simp [MailerService.iterDue]

/-- One step of a thread that meets the condition. -/
theorem MailThread.Step.fenced {p : ℕ} (hs : MailThread.Step S (c.thread p) c.shared s' t')
    (hc : AsSnapshot c p s' t') (hf : MailFenced c.shared) (hk : (c.thread p).Knows) :
    MailFenced s' ∧ t'.Knows := by
  generalize ht : c.thread p = t₀ at hs hk
  generalize hc₀ : c.shared = s₀ at hs hf
  simp only [AsSnapshot, ht, hc₀] at hc
  cases hs with
  | query => exact ⟨hf, fun r hr => (MailerService.mem_iterDue.mp hr).2.2.1⟩
  | claim hr hg =>
    have hdue := hk _ List.mem_cons_self
    exact ⟨hf.claim fun r hr hid => (hc r hr hid).trans_le hdue,
      fun e he => hk e (List.mem_cons_of_mem _ he)⟩
  | miss => exact ⟨hf, fun e he => hk e (List.mem_cons_of_mem _ he)⟩
  | refresh hr => exact ⟨hf, hc _ hr rfl, hk⟩
  | completeSent =>
    obtain ⟨rfl, hk⟩ := hk
    exact ⟨hf.held _ _, hk⟩
  | fail =>
    obtain ⟨rfl, hk⟩ := hk
    exact ⟨hf.held _ _, hk⟩
  | lose => exact ⟨hf, hk.2⟩
  | reapExhausted => exact ⟨hf.resolve (by simp) _, trivial⟩
  | reapRetryable => exact ⟨hf.resolve (by simp) _, trivial⟩
  | enqueue => exact ⟨⟨hf.own, hf.backoff⟩, trivial⟩
  | stop => exact ⟨hf, trivial⟩
  | tick => exact ⟨⟨hf.own, hf.backoff⟩, trivial⟩

/-- The laws of the queue: the rows are in order, the claims have numbers of their own and end at
most once, a worker ends its own claim only, and no row is claimed before it is scheduled. -/
structure MailLaws (S : MailSettings) (s : MailStore) : Prop where
  rows : EmailsOk S s.emails
  log : MailLog s
  fenced : MailFenced s

/-- **The queue keeps its laws.** In every run of any number of drains, reapers and enqueues that
meets the condition, the laws hold, no row is dropped or loses attempts, and a sent or failed row
stays as it is. -/
theorem mail_drains (hcap : 0 < S.emailSendMaxAttempts)
    (h : Run (MailThread.Step S) (MailInit S) AsSnapshot tr c) :
    MailLaws S c.shared ∧ ∀ m ∈ tr, EmailsKept m.before.shared.emails c.shared.emails := by
  obtain ⟨hrows, hlog, hkept⟩ := mail_rows hcap h
  have hfenced := h.reachIn.each (G := MailFenced) (L := fun _ t => MailThread.Knows t)
    (fun c hc => ⟨⟨by simp [hc.2.2.1], by simp [hc.2.1]⟩, fun p => by
      obtain hp | hp := hc.2.2.2 p <;> rw [hp] <;> trivial⟩)
    (fun hf hk hs hc => hs.fenced hc hf (hk _)) fun _ hk _ _ _ => hk _
  exact ⟨⟨hrows, hlog, hfenced.1⟩, hkept⟩

end Runs

/-! ## Overtaken drains -/

/-- A welcome email that is due. -/
def welcome : OutboundEmail := { id := 1, idempotencyKey := "welcome:1", scheduledAt := 0 }

/-- The welcome email under claim `n`, made at `ts`. -/
def welcomeClaimed (n : ℕ) (ts : Time) : OutboundEmail :=
  { welcome with state := .sending, attempts := n, startedAt := some ts }

/-- The queue with the welcome email; thread 3 is the clock. -/
def mailStart : Conf MailStore MailThread :=
  ⟨{ emails := [welcome] }, fun p => if p = 3 then .clock else .idle⟩

theorem init_mailStart : MailInit {} mailStart := by
  refine ⟨⟨by decide, ?_, ?_⟩, rfl, rfl, fun p => ?_⟩
  · simp [mailStart, welcome]
  · simp [mailStart, welcome]
  · by_cases hp : p = 3
    · exact .inr (by simp [mailStart, hp])
    · exact .inl (by simp [mailStart, hp])

theorem query_welcome {s : MailStore} (he : s.emails = [welcome]) (hn : 0 ≤ s.clock) :
    MailThread.Step {} .idle s s (.draining 0 [welcome]) := by
  have h := MailThread.Step.query (S := {}) 0 hn
  rw [he] at h
  exact h

theorem claim_welcome {s : MailStore} (he : s.emails = [welcome]) :
    MailThread.Step {} (.draining 0 [welcome]) s (s.claim {} welcome 0) (.refreshing 0 1 1 []) :=
  .claim (he ▸ List.mem_singleton_self welcome) rfl

theorem refresh_welcome {s : MailStore} (n : ℕ) (ts : Time) (claim : ℕ)
    (he : s.emails = [welcomeClaimed n ts]) : MailThread.Step {} (.refreshing 0 1 claim []) s s
      (.sending 0 (welcomeClaimed n ts) claim []) :=
  .refresh (he ▸ List.mem_singleton_self (welcomeClaimed n ts))

theorem miss_welcome {s : MailStore} (n : ℕ) (ts : Time) (he : s.emails = [welcomeClaimed n ts]) :
    MailThread.Step {} (.draining 0 [welcome]) s s (.draining 0 []) :=
  .miss (he ▸ List.forall_mem_singleton.mpr rfl)

theorem enqueue_second {s : MailStore} (n : ℕ) (ts : Time) (he : s.emails = [welcomeClaimed n ts]) :
    MailThread.Step {} .idle s { s with
      emails := MailerService.enqueue 2 "welcome:2" 0 s.emails } .idle :=
  .enqueue (he ▸ List.forall_mem_singleton.mpr (by decide : (1 : Id) ≠ 2))

/-- Two drains that have read the welcome email: one claims it, the other misses it, another email is
enqueued while the first one sends, and the send is recorded. -/
theorem mail_drains_sample : ∃ c : Conf MailStore MailThread,
    c.shared.emails.map (·.state) = [.sent, .pending] ∧
      c.shared.resolved = [⟨1, 1, some 1⟩] ∧ MailLaws {} c.shared := by
  have hone {P : OutboundEmail → Prop} {r : OutboundEmail} (hr : P r) : ∀ x ∈ [r], P x :=
    List.forall_mem_singleton.mpr hr
  have h0 : Run (MailThread.Step {}) (MailInit {}) AsSnapshot [] mailStart := .init init_mailStart
  have h1 := h0.next 0 (query_welcome rfl le_rfl) rfl rfl trivial
  have h2 := h1.next 1 (query_welcome rfl le_rfl) rfl rfl trivial
  have h3 := h2.next 0 (claim_welcome rfl) rfl rfl (hone fun _ => rfl)
  have h4 := h3.next 1 (miss_welcome 1 0 rfl) rfl rfl trivial
  have h5 := h4.next 0 (refresh_welcome 1 0 1 rfl) rfl rfl (hone fun _ => rfl)
  have h6 := h5.next 2 (enqueue_second 1 0 rfl) rfl rfl trivial
  have h7 := h6.next 0 MailThread.Step.completeSent rfl rfl trivial
  exact ⟨_, rfl, rfl, (mail_drains (by decide) h7).1⟩

/-- **Overtaken drains.** A drain claims a row from its snapshot after another has failed the send
and put the row off; and a drain that reads its claimed row back after a reaper and another claim
writes under that claim. -/
theorem mail_overtaken :
    (∃ c, Reach (MailThread.Step {}) (MailInit {}) c ∧
      ∃ x ∈ c.shared.claims, x.passClock < x.scheduledAt) ∧
    ∃ c, Reach (MailThread.Step {}) (MailInit {}) c ∧
      c.shared.emails.map (·.state) = [.sent] ∧
      ∃ x ∈ c.shared.resolved, x.worker = some 1 ∧ x.number = 2 := by
  have h0 : Reach (MailThread.Step {}) (MailInit {}) mailStart := .init init_mailStart
  have h1 := h0.next 0 (query_welcome rfl le_rfl) rfl rfl
  constructor
  · have h2 := h1.next 1 (query_welcome rfl le_rfl) rfl rfl
    have h3 := h2.next 0 (claim_welcome rfl) rfl rfl
    have h4 := h3.again (refresh_welcome 1 0 1 rfl)
    have h5 := h4.again (MailThread.Step.fail "timeout")
    have h6 := h5.next 1 (.claim (List.mem_singleton_self _) rfl) rfl rfl
    exact ⟨_, h6, ⟨1, 2, 0, 300⟩, List.mem_cons_self, by decide⟩
  · have h2 := h1.again (claim_welcome rfl)
    have h3 := h2.next 3 (MailThread.Step.tick 400 (by decide)) rfl rfl
    have h4 := h3.next 1 (MailThread.Step.reapExhausted 400 le_rfl) rfl rfl
    have h5 := h4.again MailThread.Step.reapRetryable
    have h6 := h5.next 2 (MailThread.Step.query 400 le_rfl) rfl rfl
    have h7 := h6.again (.claim (List.mem_singleton_self _) rfl)
    have h8 := h7.next 0 (refresh_welcome 2 400 1 rfl) rfl rfl
    have h9 := h8.again MailThread.Step.completeSent
    exact ⟨_, h9, rfl, ⟨1, 2, some 1⟩, List.mem_cons_self, rfl, rfl⟩

end OpenMagpie
