import Mathlib.Data.List.Dedup
import OpenMagpie.Mailer.Outbound
import OpenMagpie.Watches.Kinds

/-!
# The waitlist

A signup gets or creates the row of its address. The request that creates the row then enqueues the
welcome email, under a key of the row; a later one for the address may only record a vote. The two
statements of a first signup are not one transaction.

* `WaitlistThread.Step`: signups, statement by statement, beside the mail queue.
* `SignupsOk`: an address has one row, and a row a vote in its order, with a text only for `other`.
* **`waitlist_welcomes`**: in every run each row has its one welcome email in the queue, or a request
  that is about to enqueue it, or lost that request before it did: exactly one of the three.
* **`welcome_lost`**: what is lost is not made up for by any later signup; a vote stays on record.
-/

set_option autoImplicit false

namespace OpenMagpie.Waitlist

open Interleave

/-! ## Signups -/

/-- `WaitlistSourceInterest`. -/
inductive SourceInterest
  | linkedin
  | slack
  | x
  | bluesky
  | mastodon
  | github
  | other
  deriving DecidableEq

/-- `_SOURCE_ORDER`. -/
def SourceInterest.order : SourceInterest → ℕ
  | .linkedin => 0
  | .slack => 1
  | .x => 2
  | .bluesky => 3
  | .mastodon => 4
  | .github => 5
  | .other => 6

/-- `_canonical`. -/
def canonical (values : List SourceInterest) : List SourceInterest :=
  values.dedup.insertionSort fun v w => v.order ≤ w.order

/-- A row of `WaitlistSignup`. -/
structure WaitlistSignup where
  id : Id
  email : String
  source : String := ""
  sourceInterests : List SourceInterest := []
  sourceInterestOther : String := ""
  deriving DecidableEq

/-- A valid request. -/
structure Submission where
  email : String
  source : String := ""
  sourceInterests : List SourceInterest := []
  sourceInterestOther : String := ""

/-- `str.lower`, and the text of an id. -/
structure WaitlistConfig where
  lower : List Char → List Char
  idText : Id → String
  idText_injective : Function.Injective idText

namespace Submission

variable (X : WaitlistConfig) (sub : Submission)

/-- `normalized`. -/
def normalized : String := String.ofList (X.lower (strip sub.email.toList))

/-- `votes`. -/
def votes : List SourceInterest := canonical sub.sourceInterests

/-- `other`. -/
def otherText : String := if .other ∈ sub.votes then sub.sourceInterestOther else ""

/-- The row that `get_or_create` creates. -/
def row (id : Id) : WaitlistSignup where
  id := id
  email := sub.normalized X
  source := sub.source
  sourceInterests := sub.votes
  sourceInterestOther := sub.otherText

/-- The request's vote is recorded on a row that was read so. -/
def Votes (signup : WaitlistSignup) : Prop :=
  sub.votes ≠ [] ∧
    (signup.sourceInterests ≠ sub.votes ∨ signup.sourceInterestOther ≠ sub.otherText)

/-- `save` of the vote. -/
def save (signup : WaitlistSignup) (signups : List WaitlistSignup) : List WaitlistSignup :=
  Table.update (fun r => decide (r.id = signup.id))
    (fun r => { r with sourceInterests := sub.votes, sourceInterestOther := sub.otherText }) signups

end Submission

/-- The idempotency key of a row's welcome email. -/
def welcomeKey (X : WaitlistConfig) (id : Id) : String := "waitlist-welcome:" ++ X.idText id

/-! ## The system -/

/-- The rows and the mail queue; and, for the record, the rows whose request stopped before it
enqueued the welcome. -/
structure WaitlistStore where
  signups : List WaitlistSignup := []
  mail : MailStore := {}
  lost : List Id := []

/-- The keys of the queue. -/
def WaitlistStore.keys (s : WaitlistStore) : List String := s.mail.emails.map (·.idempotencyKey)

/-- Where a request stands: its address has no row; it created the row; it read the row. Or a thread of
the mail queue. -/
inductive WaitlistThread
  | idle
  | creating (sub : Submission)
  | created (signup : WaitlistSignup)
  | found (signup : WaitlistSignup) (sub : Submission)
  | mail (t : MailThread)

/-- The steps of the signups and of the mail queue. -/
inductive WaitlistThread.Step (X : WaitlistConfig) (M : MailSettings) :
    ThreadRel WaitlistStore WaitlistThread
  -- `get_or_create`
  | get {s : WaitlistStore} {sub : Submission} {signup : WaitlistSignup} (hr : signup ∈ s.signups)
      (he : signup.email = sub.normalized X) : Step X M .idle s s (.found signup sub)
  | doesNotExist {s : WaitlistStore} {sub : Submission}
      (he : sub.normalized X ∉ s.signups.map (·.email)) : Step X M .idle s s (.creating sub)
  | create {s : WaitlistStore} {sub : Submission} {id : Id} (hid : id ∉ s.signups.map (·.id))
      (he : sub.normalized X ∉ s.signups.map (·.email)) :
      Step X M (.creating sub) s { s with signups := s.signups ++ [sub.row X id] }
        (.created (sub.row X id))
  -- another request created the row in between
  | integrityError {s : WaitlistStore} {sub : Submission} {signup : WaitlistSignup}
      (hr : signup ∈ s.signups) (he : signup.email = sub.normalized X) :
      Step X M (.creating sub) s s (.found signup sub)
  -- the rest of a request
  | enqueue {s : WaitlistStore} {signup : WaitlistSignup} {id : Id} {scheduledAt : Time}
      (hid : ∀ r ∈ s.mail.emails, r.id ≠ id) :
      Step X M (.created signup) s
        { s with
          mail := { s.mail with
            emails := MailerService.enqueue id (welcomeKey X signup.id) scheduledAt s.mail.emails } }
        .idle
  | vote {s : WaitlistStore} {sub : Submission} {signup : WaitlistSignup} (hv : sub.Votes signup) :
      Step X M (.found signup sub) s { s with signups := sub.save signup s.signups } .idle
  | keep {s : WaitlistStore} {sub : Submission} {signup : WaitlistSignup} (hv : ¬ sub.Votes signup) :
      Step X M (.found signup sub) s s .idle
  -- a request stops
  | lose {s : WaitlistStore} {signup : WaitlistSignup} :
      Step X M (.created signup) s { s with lost := signup.id :: s.lost } .idle
  | stop {s : WaitlistStore} {t : WaitlistThread} (ht : ∀ signup, t ≠ .created signup) :
      Step X M t s s .idle
  -- the mail queue; what else is enqueued has other keys
  | mail {s : WaitlistStore} {m : MailStore} {t t' : MailThread} (h : MailThread.Step M t s.mail m t')
      (hk : ∀ id, welcomeKey X id ∈ m.emails.map (·.idempotencyKey) → welcomeKey X id ∈ s.keys) :
      Step X M (.mail t) s { s with mail := m } (.mail t')

/-- No signup yet, and any mail queue of other emails. -/
def WaitlistInit (X : WaitlistConfig) (c : Conf WaitlistStore WaitlistThread) : Prop :=
  c.shared.signups = [] ∧ c.shared.lost = [] ∧ c.shared.keys.Nodup ∧
    (∀ id, welcomeKey X id ∉ c.shared.keys) ∧ ∀ p signup, c.thread p ≠ .created signup

/-! ## Rows -/

/-- The rows: an address has one, the ids differ, and a vote is in its order, with a text only for
`other`. -/
structure SignupsOk (signups : List WaitlistSignup) : Prop where
  ids : (signups.map (·.id)).Nodup
  emails : (signups.map (·.email)).Nodup
  votes : ∀ r ∈ signups, canonical r.sourceInterests = r.sourceInterests
  other : ∀ r ∈ signups, r.sourceInterestOther ≠ "" → .other ∈ r.sourceInterests

theorem canonical_canonical (values : List SourceInterest) :
    canonical (canonical values) = canonical values := by
  have hperm : (canonical values).Perm values.dedup := List.perm_insertionSort _ _
  have hnodup : (canonical values).Nodup := hperm.nodup_iff.mpr (List.nodup_dedup values)
  have hsorted : (canonical values).Pairwise fun v w => v.order ≤ w.order :=
    List.pairwise_insertionSort (fun v w : SourceInterest => v.order ≤ w.order) values.dedup
  rw [canonical, hnodup.dedup]
  exact hsorted.insertionSort_eq

section Rows

variable {X : WaitlistConfig} {signups : List WaitlistSignup} {sub : Submission} {id : Id}

/-- The text of a submission belongs to its vote. -/
theorem other_mem_votes (h : sub.otherText ≠ "") : SourceInterest.other ∈ sub.votes := by
  by_contra hno
  simp [Submission.otherText, hno] at h

/-- A new row. -/
theorem SignupsOk.create (h : SignupsOk signups) (hid : id ∉ signups.map (·.id))
    (he : sub.normalized X ∉ signups.map (·.email)) : SignupsOk (signups ++ [sub.row X id]) := by
  refine ⟨?_, ?_, fun r hr => ?_, fun r hr ho => ?_⟩
  · rw [List.map_append]
    exact h.ids.append (List.nodup_singleton _) (List.disjoint_singleton.mpr hid)
  · rw [List.map_append]
    exact h.emails.append (List.nodup_singleton _) (List.disjoint_singleton.mpr he)
  · obtain hr | hr := List.mem_append.mp hr
    · exact h.votes r hr
    · obtain rfl := List.mem_singleton.mp hr
      exact canonical_canonical _
  · obtain hr | hr := List.mem_append.mp hr
    · exact h.other r hr ho
    · obtain rfl := List.mem_singleton.mp hr
      exact other_mem_votes ho

/-- A vote keeps the rows' ids and addresses. -/
theorem save_keeps (sub : Submission) (signup : WaitlistSignup) (signups : List WaitlistSignup) :
    (sub.save signup signups).map (·.id) = signups.map (·.id) ∧
      (sub.save signup signups).map (·.email) = signups.map (·.email) :=
  ⟨Table.map_update _ fun _ _ => rfl, Table.map_update _ fun _ _ => rfl⟩

theorem SignupsOk.save (h : SignupsOk signups) (signup : WaitlistSignup) :
    SignupsOk (sub.save signup signups) := by
  obtain ⟨hids, hemails⟩ := save_keeps sub signup signups
  refine ⟨hids ▸ h.ids, hemails ▸ h.emails, ?_, ?_⟩
  · exact Table.forall_update (fun _ _ _ => canonical_canonical _) fun r hr _ => h.votes r hr
  · exact Table.forall_update (fun _ _ _ ho => other_mem_votes ho) fun r hr _ => h.other r hr

end Rows

/-! ## Keys -/

section Keys

variable {X : WaitlistConfig} {M : MailSettings} {m m' : MailStore} {t t' : MailThread} {id : Id}

theorem welcomeKey_injective (X : WaitlistConfig) : Function.Injective (welcomeKey X) := by
  intro i j h
  refine X.idText_injective (String.ext ?_)
  have hlist := congrArg String.toList h
  simpa [welcomeKey] using hlist

/-- What an enqueue does to the keys. -/
theorem keys_enqueue (id : Id) (key : String) (ts : Time) (emails : List OutboundEmail) :
    (MailerService.enqueue id key ts emails).map (·.idempotencyKey) =
      if key ∈ emails.map (·.idempotencyKey) then emails.map (·.idempotencyKey)
      else emails.map (·.idempotencyKey) ++ [key] := by
  unfold MailerService.enqueue
  split_ifs <;> simp

theorem mem_keys_enqueue {key key' : String} {emails : List OutboundEmail} {ts : Time} :
    key ∈ (MailerService.enqueue id key' ts emails).map (·.idempotencyKey) ↔
      key ∈ emails.map (·.idempotencyKey) ∨ key = key' := by
  rw [keys_enqueue]
  split_ifs with hk
  · exact ⟨.inl, fun h => h.elim (fun h => h) fun h => h ▸ hk⟩
  · rw [List.mem_append, List.mem_singleton]

theorem nodup_keys_enqueue {key : String} {emails : List OutboundEmail} {ts : Time}
    (h : (emails.map (·.idempotencyKey)).Nodup) :
    ((MailerService.enqueue id key ts emails).map (·.idempotencyKey)).Nodup := by
  rw [keys_enqueue]
  split_ifs with hk
  · exact h
  · exact h.append (List.nodup_singleton _) (List.disjoint_singleton.mpr hk)

/-- **The mail queue keeps its keys** and may get a new one. -/
theorem keys_step (h : MailThread.Step M t m m' t') :
    m'.emails.map (·.idempotencyKey) = m.emails.map (·.idempotencyKey) ∨
      ∃ key, key ∉ m.emails.map (·.idempotencyKey) ∧
        m'.emails.map (·.idempotencyKey) = m.emails.map (·.idempotencyKey) ++ [key] := by
  cases h with
  | claim | completeSent | reapExhausted | reapRetryable =>
    exact .inl (Table.map_update _ fun _ _ => rfl)
  | fail error =>
    refine .inl (Table.map_update _ fun r _ => ?_)
    unfold MailerService.failedRow
    split_ifs <;> rfl
  | @enqueue _ id key scheduledAt hid =>
    by_cases hk : key ∈ m.emails.map (·.idempotencyKey)
    · exact .inl ((keys_enqueue id key scheduledAt m.emails).trans (if_pos hk))
    · exact .inr ⟨key, hk, (keys_enqueue id key scheduledAt m.emails).trans (if_neg hk)⟩
  | query | miss | refresh | lose | stop | tick => exact .inl rfl

theorem keys_subset (h : MailThread.Step M t m m' t') :
    m.emails.map (·.idempotencyKey) ⊆ m'.emails.map (·.idempotencyKey) := by
  obtain hk | ⟨key, -, hk⟩ := keys_step h <;> rw [hk]
  · exact List.Subset.refl _
  · exact List.subset_append_left _ _

theorem keys_nodup (h : MailThread.Step M t m m' t') (hn : (m.emails.map (·.idempotencyKey)).Nodup) :
    (m'.emails.map (·.idempotencyKey)).Nodup := by
  obtain hk | ⟨key, hnew, hk⟩ := keys_step h <;> rw [hk]
  · exact hn
  · exact hn.append (List.nodup_singleton _) (List.disjoint_singleton.mpr hnew)

end Keys

/-! ## Welcomes -/

/-- A request is about to enqueue the welcome of a row. -/
def WaitlistThread.Welcomes (id : Id) : WaitlistThread → Prop
  | .created signup => signup.id = id
  | _ => False

/-- What holds of the rows and the queue: a welcome in the queue is of a row that has not lost it, and
there is no key twice. -/
structure WaitlistOk (X : WaitlistConfig) (s : WaitlistStore) : Prop where
  signups : SignupsOk s.signups
  keys : s.keys.Nodup
  rows : ∀ id, welcomeKey X id ∈ s.keys → id ∈ s.signups.map (·.id)
  lostRows : ∀ id ∈ s.lost, id ∈ s.signups.map (·.id)
  lost : ∀ id ∈ s.lost, welcomeKey X id ∉ s.keys

/-- What a request that created a row knows: its welcome is not in the queue and not lost. -/
def WaitlistThread.Known (X : WaitlistConfig) (s : WaitlistStore) (t : WaitlistThread) : Prop :=
  ∀ id, t.Welcomes id → id ∈ s.signups.map (·.id) ∧ welcomeKey X id ∉ s.keys ∧ id ∉ s.lost

/-- Two requests do not welcome one row. -/
def WaitlistThread.Apart (t t' : WaitlistThread) : Prop := ∀ id, t.Welcomes id → ¬ t'.Welcomes id

/-- What holds of every state. -/
abbrev WaitlistInv (X : WaitlistConfig) : Conf WaitlistStore WaitlistThread → Prop :=
  ThreadInv (WaitlistOk X) (fun s t => t.Known X s) fun _ t t' => t.Apart t'

section Invariant

variable {X : WaitlistConfig} {M : MailSettings} {s s' : WaitlistStore} {t t' : WaitlistThread}
  {c : Conf WaitlistStore WaitlistThread} {id : Id}

/-- What a step does to the keys of the welcomes: it adds the one of the row that the thread created. -/
theorem keys_of_step (h : WaitlistThread.Step X M t s s' t') (hid : welcomeKey X id ∈ s'.keys) :
    welcomeKey X id ∈ s.keys ∨ t.Welcomes id ∧ s'.lost = s.lost := by
  cases h with
  | enqueue =>
    refine (mem_keys_enqueue.mp hid).imp_right fun heq => ?_
    exact ⟨(welcomeKey_injective X heq).symm, rfl⟩
  | mail h hk => exact .inl (hk id hid)
  | get | doesNotExist | create | integrityError | vote | keep | lose | stop => exact .inl hid

/-- What a thread was to welcome before its step: it is welcomed, lost, or still to be. -/
theorem welcomed_of_step (h : WaitlistThread.Step X M t s s' t') (hid : t.Welcomes id) :
    welcomeKey X id ∈ s'.keys ∨ id ∈ s'.lost ∨ t'.Welcomes id := by
  cases h with
  | @enqueue _ signup =>
    obtain rfl : signup.id = id := hid
    exact .inl (mem_keys_enqueue.mpr (.inr rfl))
  | @lose _ signup =>
    obtain rfl : signup.id = id := hid
    exact .inr (.inl List.mem_cons_self)
  | stop ht =>
    cases t with
    | created signup => exact absurd rfl (ht signup)
    | _ => exact hid.elim
  | get | doesNotExist | create | integrityError | vote | keep | mail => exact hid.elim

/-- What a step does to the rows: their ids stay. -/
theorem ids_of_step (h : WaitlistThread.Step X M t s s' t') :
    s.signups.map (·.id) ⊆ s'.signups.map (·.id) := by
  cases h with
  | create =>
    rw [List.map_append]
    exact List.subset_append_left _ _
  | vote => exact (save_keeps _ _ _).1.symm ▸ List.Subset.refl _
  | get | doesNotExist | integrityError | enqueue | keep | lose | stop | mail => exact List.Subset.refl _

/-- What a step does to the lost welcomes: it adds the one of the row that the thread created. -/
theorem lost_of_step (h : WaitlistThread.Step X M t s s' t') (hid : id ∈ s'.lost) :
    id ∈ s.lost ∨ t.Welcomes id := by
  cases h with
  | lose =>
    obtain rfl | hid := List.mem_cons.mp hid
    · exact .inr rfl
    · exact .inl hid
  | get | doesNotExist | create | integrityError | enqueue | vote | keep | stop | mail => exact .inl hid

/-- A step keeps the keys and the lost welcomes. -/
theorem subset_of_step (h : WaitlistThread.Step X M t s s' t') : s.keys ⊆ s'.keys ∧ s.lost ⊆ s'.lost := by
  cases h with
  | enqueue => exact ⟨fun _ hk => mem_keys_enqueue.mpr (.inl hk), List.Subset.refl _⟩
  | lose => exact ⟨List.Subset.refl _, List.subset_cons_self _ _⟩
  | mail h hk => exact ⟨keys_subset h, List.Subset.refl _⟩
  | get | doesNotExist | create | integrityError | vote | keep | stop =>
    exact ⟨List.Subset.refl _, List.Subset.refl _⟩

/-- A row that was not there before is to be welcomed by the thread. -/
theorem new_of_step (h : WaitlistThread.Step X M t s s' t') (hid : id ∈ s'.signups.map (·.id)) :
    id ∈ s.signups.map (·.id) ∨ t'.Welcomes id := by
  cases h with
  | @create _ sub id' hnew he =>
    rw [List.map_append] at hid
    exact (List.mem_append.mp hid).imp_right fun h => (List.mem_singleton.mp h).symm
  | vote => exact .inl ((save_keeps _ _ _).1 ▸ hid)
  | get | doesNotExist | integrityError | enqueue | keep | lose | stop | mail => exact .inl hid

/-- What a thread welcomes after its step, a row that was not there before. -/
theorem welcomes_of_step (h : WaitlistThread.Step X M t s s' t') (hid : t'.Welcomes id) :
    id ∉ s.signups.map (·.id) ∧ id ∈ s'.signups.map (·.id) ∧ s'.keys = s.keys ∧ s'.lost = s.lost := by
  cases h with
  | @create _ sub id' hnew he =>
    obtain rfl : id' = id := hid
    refine ⟨hnew, ?_, rfl, rfl⟩
    rw [List.map_append]
    exact List.mem_append_right _ (List.mem_singleton_self _)
  | get | doesNotExist | integrityError | enqueue | vote | keep | lose | stop | mail => exact hid.elim

/-- **The stepping thread.** -/
theorem WaitlistOk.step (h : WaitlistThread.Step X M t s s' t') (hs : WaitlistOk X s)
    (ht : t.Known X s) : WaitlistOk X s' ∧ t'.Known X s' := by
  refine ⟨⟨?_, ?_, fun id hid => ?_, fun id hid => ?_, fun id hid hkey => ?_⟩, fun id hid => ?_⟩
  · cases h with
    | create hid he => exact hs.signups.create hid he
    | vote => exact hs.signups.save _
    | get | doesNotExist | integrityError | enqueue | keep | lose | stop | mail => exact hs.signups
  · cases h with
    | enqueue => exact nodup_keys_enqueue hs.keys
    | mail h hk => exact keys_nodup h hs.keys
    | get | doesNotExist | create | integrityError | vote | keep | lose | stop => exact hs.keys
  · obtain hkey | ⟨hw, -⟩ := keys_of_step h hid
    · exact ids_of_step h (hs.rows id hkey)
    · exact ids_of_step h (ht id hw).1
  · obtain hlost | hw := lost_of_step h hid
    · exact ids_of_step h (hs.lostRows id hlost)
    · exact ids_of_step h (ht id hw).1
  · obtain hkey | ⟨hw, hsame⟩ := keys_of_step h hkey
    · obtain hlost | hw := lost_of_step h hid
      · exact hs.lost id hlost hkey
      · exact (ht id hw).2.1 hkey
    · exact (ht id hw).2.2 (hsame ▸ hid)
  · obtain ⟨hnew, hrow, hkeys, hlost⟩ := welcomes_of_step h hid
    rw [hkeys, hlost]
    exact ⟨hrow, fun hkey => hnew (hs.rows id hkey), fun hl => hnew (hs.lostRows id hl)⟩

/-- Every step. -/
theorem waitlist_preserves : Preserves (WaitlistThread.Step X M) (fun _ _ _ _ => True) (WaitlistOk X)
    (fun s t => t.Known X s) fun _ t t' => t.Apart t' where
  own hi hs _ := WaitlistOk.step hs hi.shared (hi.each _)
  other {c p q s' t'} hi hs _ hqp := by
    have hapart := hi.pair p q hqp.symm
    have hknown := hi.each q
    refine ⟨fun id hid => ⟨ids_of_step hs (hknown id hid).1, fun hkey => ?_, fun hlost => ?_⟩,
      fun id ht hid => ?_, fun id hid ht => ?_⟩
    · obtain hkey | ⟨hw, -⟩ := keys_of_step hs hkey
      · exact (hknown id hid).2.1 hkey
      · exact hapart id hw hid
    · obtain hlost | hw := lost_of_step hs hlost
      · exact (hknown id hid).2.2 hlost
      · exact hapart id hw hid
    · exact (welcomes_of_step hs ht).1 (hknown id hid).1
    · exact (welcomes_of_step hs ht).1 (hknown id hid).1
  others hi _ _ _ _ hqr := hi.pair _ _ hqr

theorem waitlistInv (h : Reach (WaitlistThread.Step X M) (WaitlistInit X) c) : WaitlistInv X c := by
  refine h.threads (fun c hc => ?_) waitlist_preserves
  obtain ⟨hsignups, hlost, hkeys, hnone, hthreads⟩ := hc
  have hidle : ∀ p id, ¬ (c.thread p).Welcomes id := by
    intro p id hw
    cases ht : c.thread p with
    | created signup => exact hthreads p signup ht
    | _ => rw [ht] at hw; exact hw
  refine ⟨⟨⟨?_, ?_, ?_, ?_⟩, hkeys, fun id hid => absurd hid (hnone id), ?_, ?_⟩,
    fun p id hid => absurd hid (hidle p id), fun p q _ id hid => absurd hid (hidle p id)⟩ <;>
    simp [hsignups, hlost]

/-- Every row is welcomed, has lost its welcome, or has a request that is about to. -/
theorem welcomed (h : Reach (WaitlistThread.Step X M) (WaitlistInit X) c) :
    ∀ id ∈ c.shared.signups.map (·.id), welcomeKey X id ∈ c.shared.keys ∨ id ∈ c.shared.lost ∨
      ∃ p, (c.thread p).Welcomes id := by
  refine h.invariant (I := fun c => ∀ id ∈ c.shared.signups.map (·.id), welcomeKey X id ∈ c.shared.keys ∨
    id ∈ c.shared.lost ∨ ∃ p, (c.thread p).Welcomes id) (fun c hc => by simp [hc.1])
    fun c p s' t' hi hs _ id hid => ?_
  have hnow : t'.Welcomes id → ∃ q, ((c.set p s' t').thread q).Welcomes id := fun hw =>
    ⟨p, by rw [Conf.thread_set_self]; exact hw⟩
  obtain hid | hw := new_of_step hs hid
  · obtain hkey | hlost | ⟨q, hq⟩ := hi id hid
    · exact .inl ((subset_of_step hs).1 hkey)
    · exact .inr (.inl ((subset_of_step hs).2 hlost))
    · by_cases hqp : q = p
      · subst hqp
        exact (welcomed_of_step hs hq).imp_right (Or.imp_right hnow)
      · exact .inr (.inr ⟨q, by rw [Conf.thread_set_of_ne _ hqp]; exact hq⟩)
  · exact .inr (.inr (hnow hw))

/-- **Each row has one welcome**, in every run of signups beside the mail queue: it is in the queue,
once; or one request is about to enqueue it; or the request stopped before. No other welcome is in the
queue, an address has one row, and a vote on record is in its order, with a text only for `other`. -/
theorem waitlist_welcomes (h : Reach (WaitlistThread.Step X M) (WaitlistInit X) c) :
    SignupsOk c.shared.signups ∧
    (∀ id, welcomeKey X id ∈ c.shared.keys → id ∈ c.shared.signups.map (·.id)) ∧
    ∀ id ∈ c.shared.signups.map (·.id),
      (c.shared.keys.count (welcomeKey X id) = 1 ∧ (∀ p, ¬ (c.thread p).Welcomes id) ∧
        id ∉ c.shared.lost) ∨
      (c.shared.keys.count (welcomeKey X id) = 0 ∧ (∃! p, (c.thread p).Welcomes id) ∧
        id ∉ c.shared.lost) ∨
      (c.shared.keys.count (welcomeKey X id) = 0 ∧ (∀ p, ¬ (c.thread p).Welcomes id) ∧
        id ∈ c.shared.lost) := by
  have hinv := waitlistInv h
  refine ⟨hinv.shared.signups, hinv.shared.rows, fun id hid => ?_⟩
  obtain hkey | hlost | ⟨p, hp⟩ := welcomed h id hid
  · refine .inl ⟨List.count_eq_one_of_mem hinv.shared.keys hkey, fun p hp => ?_, fun hl => ?_⟩
    · exact (hinv.each p id hp).2.1 hkey
    · exact hinv.shared.lost id hl hkey
  · refine .inr (.inr ⟨List.count_eq_zero_of_not_mem (hinv.shared.lost id hlost), fun p hp => ?_, hlost⟩)
    exact (hinv.each p id hp).2.2 hlost
  · obtain ⟨-, hkey, hlost⟩ := hinv.each p id hp
    refine .inr (.inl ⟨List.count_eq_zero_of_not_mem hkey, ⟨p, hp, fun q hq => ?_⟩, hlost⟩)
    by_contra hne
    exact hinv.pair q p hne id hq hp

/-- A row with a vote. -/
def HasVote (signups : List WaitlistSignup) (row : WaitlistSignup) : Prop :=
  ∃ r ∈ signups, r.id = row.id ∧ r.email = row.email ∧ r.sourceInterests ≠ []

/-- A step leaves a vote on record. -/
theorem hasVote_of_step {row : WaitlistSignup} (h : WaitlistThread.Step X M t s s' t')
    (hv : HasVote s.signups row) : HasVote s'.signups row := by
  obtain ⟨r, hr, hid, hemail, hvotes⟩ := hv
  cases h with
  | create => exact ⟨r, List.mem_append_left _ hr, hid, hemail, hvotes⟩
  | @vote _ sub signup hsub =>
    by_cases hrow : r.id = signup.id
    · exact ⟨_, Table.mem_update_of hr (decide_eq_true hrow), hid, hemail, hsub.1⟩
    · exact ⟨r, Table.mem_update_of_not hr (decide_eq_false hrow), hid, hemail, hvotes⟩
  | get | doesNotExist | integrityError | enqueue | keep | lose | stop | mail =>
    exact ⟨r, hr, hid, hemail, hvotes⟩

/-- **A lost welcome is not made up for** by any later signup, and a vote on record is never emptied. -/
theorem waitlist_later {c' : Conf WaitlistStore WaitlistThread}
    (h : Reach (WaitlistThread.Step X M) (WaitlistInit X) c)
    (h' : Reach (WaitlistThread.Step X M) (· = c) c') :
    (∀ id ∈ c.shared.lost, id ∈ c'.shared.signups.map (·.id) ∧ welcomeKey X id ∉ c'.shared.keys) ∧
    ∀ row ∈ c.shared.signups, row.sourceInterests ≠ [] → HasVote c'.shared.signups row := by
  have hinv := waitlistInv (h.trans h')
  have hlater : c.shared.lost ⊆ c'.shared.lost ∧
      ∀ row, HasVote c.shared.signups row → HasVote c'.shared.signups row :=
    h'.invariant (I := fun c' => c.shared.lost ⊆ c'.shared.lost ∧
        ∀ row, HasVote c.shared.signups row → HasVote c'.shared.signups row)
      (fun c₀ (hc : c₀ = c) => hc ▸ ⟨List.Subset.refl _, fun _ hv => hv⟩)
      fun _ _ _ _ hi hs _ => ⟨List.Subset.trans hi.1 (subset_of_step hs).2,
        fun row hv => hasVote_of_step hs (hi.2 row hv)⟩
  refine ⟨fun id hid => ⟨hinv.shared.lostRows id (hlater.1 hid), hinv.shared.lost id (hlater.1 hid)⟩,
    fun row hrow hv => hlater.2 row ⟨row, hrow, rfl, rfl, hv⟩⟩

end Invariant

/-! ## A run -/

theorem strokes_injective : Function.Injective fun n : Id => String.ofList (List.replicate n 'i') := by
  intro m n h
  simpa using congrArg List.length (String.ofList_injective h)

/-- Ids as so many strokes, ASCII case mapping. -/
def strokes : WaitlistConfig where
  lower := List.map Char.toLower
  idText n := String.ofList (List.replicate n 'i')
  idText_injective := strokes_injective

/-- A first signup, and a vote from the same address. -/
def firstSignup : Submission := { email := "Ada@example.org ", source := "hero" }

def laterVote : Submission where
  email := "ada@example.org"
  sourceInterests := [.other, .slack, .other]
  sourceInterestOther := "forums"

/-- The row of the first signup. -/
def adaRow : WaitlistSignup := { id := 1, email := "ada@example.org", source := "hero" }

/-- Nothing yet. -/
def waitlistStart : Conf WaitlistStore WaitlistThread := ⟨{}, fun _ => .idle⟩

/-- A first signup up to its row. -/
theorem reach_created : Reach (WaitlistThread.Step strokes {}) (WaitlistInit strokes)
    (waitlistStart.set 0 { signups := [adaRow] } (.created adaRow)) := by
  have h0 : Reach (WaitlistThread.Step strokes {}) (WaitlistInit strokes) waitlistStart :=
    .init ⟨rfl, rfl, List.nodup_nil, fun _ => List.not_mem_nil, fun p signup h => by cases h⟩
  have hnone : WaitlistThread.Step strokes {} .idle {} {} (.creating firstSignup) :=
    .doesNotExist List.not_mem_nil
  have hrow : firstSignup.row strokes 1 = adaRow := by decide
  have hcreate : WaitlistThread.Step strokes {} (.creating firstSignup) {}
      { signups := [firstSignup.row strokes 1] } (.created (firstSignup.row strokes 1)) :=
    .create List.not_mem_nil List.not_mem_nil
  rw [hrow] at hcreate
  exact (h0.next 0 hnone rfl rfl).again hcreate

/-- The signup enqueues its welcome. -/
theorem waitlist_welcomes_sample : ∃ c : Conf WaitlistStore WaitlistThread,
    c.shared.keys = [welcomeKey strokes 1] ∧ SignupsOk c.shared.signups := by
  have henqueue : WaitlistThread.Step strokes {} (.created adaRow) { signups := [adaRow] }
      { signups := [adaRow]
        mail := { emails := MailerService.enqueue 3 (welcomeKey strokes 1) 0 [] } } .idle :=
    .enqueue fun r hr => (by cases hr)
  exact ⟨_, rfl, (waitlist_welcomes (reach_created.again henqueue)).1⟩

/-- The signup stops before it does, and a later vote makes up for nothing. -/
theorem waitlist_later_sample : ∃ c : Conf WaitlistStore WaitlistThread,
    c.shared.signups =
      [{ adaRow with sourceInterests := [.slack, .other], sourceInterestOther := "forums" }] ∧
      welcomeKey strokes 1 ∉ c.shared.keys := by
  have hlost : Reach (WaitlistThread.Step strokes {}) (WaitlistInit strokes)
      (waitlistStart.set 0 { signups := [adaRow], lost := [1] } .idle) := reach_created.again .lose
  have hfrom : Reach (WaitlistThread.Step strokes {})
      (· = waitlistStart.set 0 { signups := [adaRow], lost := [1] } .idle)
      (waitlistStart.set 0 { signups := [adaRow], lost := [1] } .idle) := .init rfl
  have hget : WaitlistThread.Step strokes {} .idle { signups := [adaRow], lost := [1] }
      { signups := [adaRow], lost := [1] } (.found adaRow laterVote) :=
    .get List.mem_cons_self (by decide)
  have hvotes : laterVote.votes = [.slack, .other] := by decide
  have hvote : laterVote.Votes adaRow := ⟨by rw [hvotes]; decide, .inl (by rw [hvotes]; decide)⟩
  have hlater := (hfrom.next 0 hget rfl rfl).again (.vote hvote)
  refine ⟨_, ?_, ((waitlist_later hlost hlater).1 1 List.mem_cons_self).2⟩
  decide

end OpenMagpie.Waitlist
