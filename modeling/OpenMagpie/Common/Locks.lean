import Mathlib.Tactic.SplitIfs
import OpenMagpie.Lib.Interleave

/-!
# Named locks

`named_lock` is a try-lock on one cache key. A lease owns the key while the key holds the lease's
token; it renews with a `get` and a `set`, and releases with a `get` and a `delete`.

* `LockThread.Step`: the cache operations of the holders of one name, and the expiry of the key.
* `LockThread.Owns`: a lease that was last answered `True` and whose token is in the cache.
* `NoExpiryBetween`: the key does not expire between a lease's own `get` and the write after it.
* **`lease_writes_own`**: at most one lease owns the key, and under that condition no lease
  overwrites or deletes a key that holds another token.
* **`stale_lease_writes`**: with an expiry in between, a stale lease overwrites another holder's
  token, and a stale release frees another holder's lock.
-/

set_option autoImplicit false

namespace OpenMagpie

open Interleave

/-- The `uuid4` of a lease. -/
abbrev LockToken := ℕ

/-- The cache under one name, and the tokens drawn so far. -/
structure LockCache where
  value : Option LockToken := none
  issued : List LockToken := []

/-- Where a holder stands: in the body of its `with`, with the answer of `cache.add` and the
lease's own flag; between the `get` and the `set` of a renewal; or between the `get` and the
`delete` of the release. -/
inductive LockHolder
  | idle
  | body (token : LockToken) (acquired live : Bool)
  | stamping (token : LockToken)
  | deleting (token : LockToken)

/-- A thread: a holder, or the expiry of the key. -/
inductive LockThread
  | holder (h : LockHolder)
  | expiry

namespace LockHolder

/-- The body of a lease that the cache granted or refused. -/
def entered (token : LockToken) (value : Option LockToken) : LockHolder :=
  .body token value.isNone value.isNone

/-- After the `get` of `renew`. -/
def renewed (token : LockToken) (value : Option LockToken) : LockHolder :=
  if value = some token then .stamping token else .body token true false

/-- After the `get` of the release. -/
def released (token : LockToken) (value : Option LockToken) : LockHolder :=
  if value = some token then .deleting token else .idle

/-- The lease's token. -/
def token : LockHolder → Option LockToken
  | idle => none
  | body token .. | stamping token | deleting token => some token

/-- The token that the lease's next write takes the key to hold. -/
def writes : LockHolder → Option LockToken
  | stamping token | deleting token => some token
  | _ => none

/-- The last renewal or acquisition answered `True`. -/
def live : LockHolder → Bool
  | body _ _ live => live
  | stamping _ | deleting _ => true
  | idle => false

end LockHolder

/-- The cache operations on one name. -/
inductive LockThread.Step : ThreadRel LockCache LockThread
  | add {c : LockCache} (token : LockToken) (hnew : token ∉ c.issued) :
      Step (.holder .idle) c ⟨c.value <|> some token, token :: c.issued⟩
        (.holder (.entered token c.value))
  | renewGet {c : LockCache} {token : LockToken} {acquired : Bool} :
      Step (.holder (.body token acquired true)) c c (.holder (.renewed token c.value))
  | renewSet {c : LockCache} {token : LockToken} :
      Step (.holder (.stamping token)) c { c with value := some token }
        (.holder (.body token true true))
  | releaseGet {c : LockCache} {token : LockToken} {live : Bool} :
      Step (.holder (.body token true live)) c c (.holder (.released token c.value))
  | delete {c : LockCache} {token : LockToken} :
      Step (.holder (.deleting token)) c { c with value := none } (.holder .idle)
  | leave {c : LockCache} {token : LockToken} {live : Bool} :
      Step (.holder (.body token false live)) c c (.holder .idle)
  | crash {c : LockCache} {h : LockHolder} : Step (.holder h) c c (.holder .idle)
  | expire {c : LockCache} : Step .expiry c { c with value := none } .expiry

namespace LockThread

/-- The thread's token. -/
def token : LockThread → Option LockToken
  | holder h => h.token
  | expiry => none

/-- The token that the thread's next write takes the key to hold. -/
def writes : LockThread → Option LockToken
  | holder h => h.writes
  | expiry => none

/-- A lease that was last answered `True` and whose token is in the cache. -/
def Owns (c : LockCache) : LockThread → Prop
  | holder h => h.live = true ∧ ∃ token ∈ h.token, c.value = some token
  | expiry => False

end LockThread

/-- Nobody holds the name. -/
def LockInit (c : Conf LockCache LockThread) : Prop :=
  c.shared = {} ∧ ∀ p, c.thread p = .holder .idle ∨ c.thread p = .expiry

/-- The key does not expire between a lease's own `get` and the write after it. -/
def NoExpiryBetween : StepCond LockCache LockThread := fun c p _ _ =>
  c.thread p = .expiry → ∀ q, ∀ token ∈ (c.thread q).writes, c.shared.value ≠ some token

/-! ## Tokens -/

/-- What the tokens satisfy: those in the cache and in the threads were drawn, and no two threads
have the same. -/
abbrev LockTokens (c : Conf LockCache LockThread) : Prop :=
  ThreadInv (fun s : LockCache => ∀ token ∈ s.value, token ∈ s.issued)
    (fun s (t : LockThread) => ∀ token ∈ t.token, token ∈ s.issued)
    (fun _ (t t' : LockThread) => ∀ token ∈ t.token, token ∉ t'.token) c

variable {c : Conf LockCache LockThread} {ok : StepCond LockCache LockThread}

/-- **A step keeps the thread's token or draws a new one.** -/
theorem LockThread.Step.token {t t' : LockThread} {s s' : LockCache} (h : Step t s s' t') :
    s.issued ⊆ s'.issued ∧ (∀ token ∈ s'.value, token ∈ s.value ∨ token ∈ t'.token) ∧
      ∀ token ∈ t'.token, token ∈ s'.issued ∧ token ∉ s.issued ∨ token ∈ t.token := by
  cases h with
  | @add _ token hnew =>
    refine ⟨List.subset_cons_self _ _, ?_, ?_⟩
    · intro token' h'
      cases hv : s.value with
      | none =>
        rw [hv] at h'
        exact .inr h'
      | some v =>
        rw [hv] at h'
        exact .inl h'
    · intro token' h'
      obtain rfl := Option.some.inj h'
      exact .inl ⟨List.mem_cons_self, hnew⟩
  | renewGet =>
    refine ⟨fun _ h => h, fun _ h => .inl h, fun token' h' => .inr ?_⟩
    unfold LockHolder.renewed at h'
    split_ifs at h' <;> exact h'
  | renewSet => exact ⟨fun _ h => h, fun _ h => .inr h, fun _ h => .inr h⟩
  | releaseGet =>
    refine ⟨fun _ h => h, fun _ h => .inl h, fun token' h' => .inr ?_⟩
    unfold LockHolder.released at h'
    split_ifs at h'
    · exact h'
    · cases h'
  | delete => exact ⟨fun _ h => h, nofun, nofun⟩
  | leave => exact ⟨fun _ h => h, fun _ h => .inl h, nofun⟩
  | crash => exact ⟨fun _ h => h, fun _ h => .inl h, nofun⟩
  | expire => exact ⟨fun _ h => h, nofun, nofun⟩

theorem LockInit.tokens (h : LockInit c) : LockTokens c := by
  have hnone (p : ℕ) : (c.thread p).token = none := by
    rcases h.2 p with hp | hp <;> rw [hp] <;> rfl
  refine ⟨?_, fun p token ht => ?_, fun p q _ token ht => ?_⟩
  · rw [h.1]
    exact fun _ hv => by cases hv
  · rw [hnone p] at ht
    cases ht
  · rw [hnone p] at ht
    cases ht

/-- **The tokens of the leases are distinct.** -/
theorem lockTokens (h : ReachIn LockThread.Step LockInit ok c) : LockTokens c := by
  refine h.threads (fun c hc => hc.tokens) ⟨?_, ?_, ?_⟩
  · intro c p s' t' hi hs _
    obtain ⟨hsub, hval, htok⟩ := hs.token
    have hown : ∀ token ∈ t'.token, token ∈ s'.issued := fun token ht =>
      (htok token ht).elim And.left fun h => hsub (hi.each p token h)
    exact ⟨fun token hv => (hval token hv).elim (fun h => hsub (hi.shared token h)) (hown token), hown⟩
  · intro c p q s' t' hi hs _ hqp
    obtain ⟨hsub, -, htok⟩ := hs.token
    refine ⟨fun token ht => hsub (hi.each q token ht), fun token ht hq => ?_, fun token ht hq => ?_⟩
    · rcases htok token ht with ⟨-, hnew⟩ | hold
      · exact hnew (hi.each q token hq)
      · exact hi.pair p q hqp.symm token hold hq
    · rcases htok token hq with ⟨-, hnew⟩ | hold
      · exact hnew (hi.each q token ht)
      · exact hi.pair q p hqp token ht hold
  · exact fun hi _ _ _ _ hqr => hi.pair _ _ hqr

/-! ## Ownership -/

/-- The owner's token is the one in the cache. -/
theorem LockThread.Owns.token {s : LockCache} {t : LockThread} (h : t.Owns s) :
    ∃ token ∈ t.token, s.value = some token := by
  cases t with
  | holder _ => exact h.2
  | expiry => exact h.elim

theorem LockThread.mem_token_of_writes {t : LockThread} {token : LockToken}
    (h : token ∈ t.writes) : token ∈ t.token := by
  cases t with
  | expiry => cases h
  | holder h' =>
    cases h' with
    | stamping _ | deleting _ => exact h
    | idle | body => cases h

/-- A step that leaves the thread about to write has read the thread's token. -/
theorem LockThread.Step.writes {t t' : LockThread} {s s' : LockCache} (h : Step t s s' t')
    {token : LockToken} (ht : token ∈ t'.writes) : s'.value = some token := by
  cases h with
  | renewGet =>
    unfold LockHolder.renewed at ht
    split_ifs at ht with hv
    · obtain rfl := Option.some.inj ht
      exact hv
    · cases ht
  | releaseGet =>
    unfold LockHolder.released at ht
    split_ifs at ht with hv
    · obtain rfl := Option.some.inj ht
      exact hv
    · cases ht
  | add | renewSet | delete | leave | crash | expire => cases ht

/-- The key keeps its token unless it expires or its holder writes. -/
theorem LockThread.Step.value {t t' : LockThread} {s s' : LockCache} (h : Step t s s' t')
    {token : LockToken} (hv : s.value = some token) : s'.value = some token ∨ t = .expiry ∨
      ∃ token' ∈ t.writes, token' ∈ t.token := by
  cases h with
  | add => exact .inl (by rw [hv]; rfl)
  | renewGet | releaseGet | leave | crash => exact .inl hv
  | renewSet | delete => exact .inr (.inr ⟨_, rfl, rfl⟩)
  | expire => exact .inr (.inl rfl)

/-- Every lease that is about to write has its token in the cache. -/
def WritesOwn (c : Conf LockCache LockThread) : Prop :=
  ∀ p, ∀ token ∈ (c.thread p).writes, c.shared.value = some token

/-- **The check stands** when the key does not expire before the write. -/
theorem writesOwn (h : ReachIn LockThread.Step LockInit NoExpiryBetween c) : WritesOwn c := by
  have hs := h.strengthen fun c hc => lockTokens hc
  refine hs.invariant (I := WritesOwn) (fun c hc p token ht => ?_) fun c p s t hi hstep hok => ?_
  · rcases hc.2 p with hp | hp <;> rw [hp] at ht <;> cases ht
  · refine Conf.forall_set (Q := fun _ (t : LockThread) => ∀ token ∈ t.writes,
      s.value = some token) (fun token ht => hstep.writes ht) fun q hqp token ht => ?_
    have hv := hi q token ht
    rcases hstep.value hv with hv' | hexp | ⟨token', hw, htok⟩
    · exact hv'
    · exact absurd hv (hok.1 hexp q token ht)
    · -- the writer's token would be in the cache too
      have hown := hi p token' hw
      obtain rfl := Option.some.inj (hv.symm.trans hown)
      exact absurd (LockThread.mem_token_of_writes ht) (hok.2.1.pair p q hqp.symm token htok)

/-- **Leases and the key.** In every run at most one lease that was last answered `True` has its token
in the cache; and in every run in which the key does not expire between a lease's own `get` and the
write after it, the key holds the lease's own token when the lease overwrites or deletes it. -/
theorem lease_writes_own (h : Reach LockThread.Step LockInit c) :
    (∀ p q, (c.thread p).Owns c.shared → (c.thread q).Owns c.shared → p = q) ∧
      (ReachIn LockThread.Step LockInit NoExpiryBetween c →
        ∀ p, ∀ token ∈ (c.thread p).writes, c.shared.value = some token) := by
  refine ⟨fun p q hp hq => ?_, fun hok => writesOwn hok⟩
  by_contra hne
  obtain ⟨token, ht, hv⟩ := hp.token
  obtain ⟨token', ht', hv'⟩ := hq.token
  obtain rfl := Option.some.inj (hv.symm.trans hv')
  exact (lockTokens h).pair p q hne token ht ht'

/-! ## An expiry between the check and the write -/

/-- Holders, and the expiry as thread 2. -/
def lockThreads (p : ℕ) : LockThread := if p = 2 then .expiry else .holder .idle

theorem lockInit_lockThreads : LockInit ⟨{}, lockThreads⟩ := by
  refine ⟨rfl, fun p => ?_⟩
  by_cases hp : p = 2
  · exact .inr (if_pos hp)
  · exact .inl (if_neg hp)

/-- A refused or granted `add` of token `n`. -/
theorem add_step (n : LockToken) {c : LockCache} (h : n ∉ c.issued) :
    LockThread.Step (.holder .idle) c ⟨c.value <|> some n, n :: c.issued⟩
      (.holder (.entered n c.value)) := .add n h

/-- A lease acquires and renews; the key expires while its body runs; a second lease takes the key and
is about to renew it. The second one owns the key, and the first one does not. -/
theorem lease_writes_own_sample : ∃ c : Conf LockCache LockThread,
    c.thread 0 = .holder (.body 1 true true) ∧ (c.thread 1).writes = some 2 ∧
      c.shared.value = some 2 ∧ ∀ p, (c.thread p).Owns c.shared → p = 1 := by
  have h0 : ReachIn LockThread.Step LockInit NoExpiryBetween ⟨{}, lockThreads⟩ :=
    .init lockInit_lockThreads
  have h1 := h0.next 0 (add_step 1 (c := {}) (by decide)) rfl rfl nofun
  have h2 := h1.again LockThread.Step.renewGet nofun
  have h3 := h2.again LockThread.Step.renewSet nofun
  have h4 := h3.next 2 (LockThread.Step.expire (c := ⟨some 1, [1]⟩)) rfl rfl fun _ q token ht => by
    by_cases hq : q = 0
    · subst hq
      cases ht
    · rw [Conf.thread_set_of_ne _ hq] at ht
      by_cases hq2 : q = 2 <;> simp [lockThreads, hq2, LockThread.writes, LockHolder.writes] at ht
  have h5 := h4.next 1 (add_step 2 (c := ⟨none, [1]⟩) (by decide)) rfl rfl nofun
  have h6 := h5.again LockThread.Step.renewGet nofun
  obtain ⟨hone, hown⟩ := lease_writes_own h6.reach
  exact ⟨_, rfl, rfl, hown h6 1 2 rfl, fun p hp => hone p 1 hp ⟨rfl, 2, rfl, rfl⟩⟩

/-- Thread 0 is about to write after its check; the key has expired, and thread 1 has acquired
it. -/
theorem exists_overtaken {h : LockHolder}
    (hget : LockThread.Step (.holder (.body 1 true true)) ⟨some 1, [1]⟩ ⟨some 1, [1]⟩ (.holder h)) :
    ∃ c, Reach LockThread.Step LockInit c ∧ c.thread 0 = .holder h ∧
      c.thread 1 = .holder (.body 2 true true) ∧ c.shared = ⟨some 2, [2, 1]⟩ := by
  have h0 : Reach LockThread.Step LockInit ⟨{}, lockThreads⟩ := .init lockInit_lockThreads
  have h1 := h0.next 0 (add_step 1 (c := {}) (by decide)) rfl rfl
  have h2 := h1.again hget
  have h3 := h2.next 2 (LockThread.Step.expire (c := ⟨some 1, [1]⟩)) rfl rfl
  have h4 := h3.next 1 (add_step 2 (c := ⟨none, [1]⟩) (by decide)) rfl rfl
  exact ⟨_, h4, rfl, rfl, rfl⟩

/-- **A stale lease writes.** A renewal whose key has expired after its `get` overwrites the token of
the next holder, and a release deletes it, while that holder's lease was last answered `True`. -/
theorem stale_lease_writes :
    (∃ c s t, Reach LockThread.Step LockInit c ∧ (c.thread 1).Owns c.shared ∧
      c.shared.value = some 2 ∧ (c.thread 0).token = some 1 ∧
      LockThread.Step (c.thread 0) c.shared s t ∧ s.value = some 1) ∧
    ∃ c s t, Reach LockThread.Step LockInit c ∧ (c.thread 1).Owns c.shared ∧
      c.shared.value = some 2 ∧ (c.thread 0).token = some 1 ∧
      LockThread.Step (c.thread 0) c.shared s t ∧ s.value = none := by
  constructor
  · obtain ⟨c, hc, h0, h1, hs⟩ := exists_overtaken (h := .renewed 1 (some 1))
      LockThread.Step.renewGet
    refine ⟨c, _, _, hc, ?_, ?_, ?_, h0 ▸ LockThread.Step.renewSet, rfl⟩
    · rw [h1, hs]
      exact ⟨rfl, 2, rfl, rfl⟩
    · rw [hs]
    · rw [h0]
      rfl
  · obtain ⟨c, hc, h0, h1, hs⟩ := exists_overtaken (h := .released 1 (some 1))
      LockThread.Step.releaseGet
    refine ⟨c, _, _, hc, ?_, ?_, ?_, h0 ▸ LockThread.Step.delete, rfl⟩
    · rw [h1, hs]
      exact ⟨rfl, 2, rfl, rfl⟩
    · rw [hs]
    · rw [h0]
      rfl

end OpenMagpie
