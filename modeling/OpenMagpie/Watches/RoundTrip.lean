import OpenMagpie.Watches.ReplaceChain
import OpenMagpie.Watches.Service

/-!
# Submitting back what was read

* `Renders`: a submitted action that came from a read of a stored one.
* `reconcileOne_rendered`: the loop of `replace_chain` on it: the stored config comes back.
* `replaceChain_rendered`: the transaction of a chain that is submitted back.
* **`round_trip`**: a watch that is read and submitted back is unchanged.
-/

set_option autoImplicit false

namespace OpenMagpie

open Renumber

variable {C : Type} {R : Registry C} {account path : Id}

/-- The submission `spec` is the rendered action `a`: its config merges with `a`'s to `a`'s. -/
def Renders (R : Registry C) (a : WatchAction) (spec : WatchActionInput) : Prop :=
  spec.id = some a.id ∧ spec.kind = a.kind ∧ ∃ c s, loadConfig R a = .ok c ∧
    parseConfig R spec.kind spec.config = .ok s ∧ R.mergePreserving s c = .ok c

/-- The update `u` writes the dump of the config that `a` stores. -/
def Restores (R : Registry C) (a : WatchAction) (u : Id × String × Json) : Prop :=
  ∃ c, loadConfig R a = .ok c ∧ u = (a.id, a.kind, R.modelDump c)

/-- The loop's step on a rendered action. -/
def Reconcile.restore (R : Registry C) (acc : Reconcile) (a : WatchAction) (c : C) : Reconcile :=
  { acc with
    kept := a.id :: acc.kept
    ordered := acc.ordered ++ [a.id]
    updated := acc.updated ++ [(a.id, a.kind, R.modelDump c)]
    toClear := if (intervalOf R c).isSome then acc.toClear else acc.toClear ++ [a.id] }

theorem find?_of_mem {existing : List WatchAction} (hids : (existing.map (·.id)).Nodup)
    {a : WatchAction} (ha : a ∈ existing) :
    existing.find? (fun b => decide (b.id = a.id)) = some a := by
  cases hf : existing.find? fun b : WatchAction => decide (b.id = a.id) with
  | none => exact absurd (List.find?_eq_none.mp hf a ha) (by simp)
  | some b =>
    have hid : b.id = a.id := of_decide_eq_true
      (List.find?_some (p := fun b : WatchAction => decide (b.id = a.id)) hf)
    rw [Table.eq_of_key hids (List.mem_of_find?_eq_some hf) ha hid]

/-- **One rendered action**: the loop refuses it by policy only, and otherwise restores it. -/
theorem reconcileOne_rendered {mint : Id → Id} {existing : List WatchAction} {acc : Reconcile}
    {a : WatchAction} {spec : WatchActionInput} {c s : C} (hids : (existing.map (·.id)).Nodup)
    (ha : a ∈ existing) (hk : a.id ∉ acc.kept) (hid : spec.id = some a.id)
    (hkind : spec.kind = a.kind) (hload : loadConfig R a = .ok c)
    (hparse : parseConfig R spec.kind spec.config = .ok s) (hm : R.mergePreserving s c = .ok c) :
    reconcileOne R mint account path existing acc spec =
      ((R.enforceActionPolicy c).mapError .config).map fun _ => acc.restore R a c := by
  have hrow : resolvePrior existing acc.kept spec.id = .ok (some a) := by
    rw [hid, resolvePrior, find?_of_mem hids ha]
    exact if_neg hk
  have hfilter : (some a).filter (fun a => decide (a.kind = spec.kind)) = some a := by
    rw [Option.filter_some, if_pos (decide_eq_true hkind.symm)]
  have hrefuse : refuseMasked R (some a) spec = .ok () := by
    rw [refuseMasked, hfilter]
    rfl
  have hprior : loadPrior R (some a) spec.kind = .ok (some c) := by
    rw [loadPrior, hfilter, Option.mapM_some, hload]
    rfl
  have hmerge : mergeConfig R spec.kind spec.config (some c) = R.enforceActionPolicy c := by
    rw [mergeConfig, hparse]
    show (R.mergePreserving s c >>= R.enforceActionPolicy) = _
    rw [hm]
    rfl
  rw [reconcileOne, hrow]
  show (refuseMasked R (some a) spec >>= _) = _
  rw [hrefuse]
  show (loadPrior R (some a) spec.kind >>= _) = _
  rw [hprior]
  show ((mergeConfig R spec.kind spec.config (some c)).mapError _ >>= _) = _
  rw [hmerge]
  cases hp : R.enforceActionPolicy c with
  | error e => rfl
  | ok m =>
    rw [R.enforceActionPolicy_eq hp, hkind]
    rfl

/-- What the loop has written once it has consumed the rendered actions `rows`. -/
structure RestoredBy (R : Registry C) (rows : List WatchAction) (acc acc' : Reconcile) : Prop where
  kept : acc'.kept = (rows.map (·.id)).reverse ++ acc.kept
  ordered : acc'.ordered = acc.ordered ++ rows.map (·.id)
  created : acc'.created = acc.created
  updated : ∃ us, acc'.updated = acc.updated ++ us ∧ List.Forall₂ (Restores R) rows us
  toClear : ∀ i ∈ acc'.toClear, i ∈ acc.toClear ∨ ∃ a ∈ rows, a.id = i ∧ ¬ IsDigest R a

theorem isDigest_of_load {a : WatchAction} {c : C} (h : loadConfig R a = .ok c) :
    IsDigest R a ↔ (intervalOf R c).isSome := by
  have hd : digestInterval R a = .ok (intervalOf R c) := by
    rw [digestInterval, h]
    rfl
  rw [IsDigest, hd, Option.isSome_iff_exists]
  simp

/-- **The loop of `replace_chain`** on rendered actions of the path. -/
theorem foldlM_rendered {mint : Id → Id} {existing rows : List WatchAction}
    {specs : List WatchActionInput} {acc acc' : Reconcile}
    (hids : (existing.map (·.id)).Nodup) (hr : List.Forall₂ (Renders R) rows specs)
    (hsub : ∀ a ∈ rows, a ∈ existing) (hnew : ∀ a ∈ rows, a.id ∉ acc.kept)
    (hrows : (rows.map (·.id)).Nodup)
    (h : specs.foldlM (reconcileOne R mint account path existing) acc = .ok acc') :
    RestoredBy R rows acc acc' := by
  induction hr generalizing acc with
  | nil =>
    obtain rfl := Except.pure_eq_ok.mp h
    exact ⟨rfl, by simp, rfl, ⟨[], by simp, .nil⟩, fun i hi => .inl hi⟩
  | @cons a spec rows specs ha _ ih =>
    rw [List.foldlM_cons] at h
    obtain ⟨acc₁, hstep, h⟩ := Except.bind_eq_ok.mp h
    obtain ⟨hid, hkind, c, s, hload, hparse, hm⟩ := ha
    rw [reconcileOne_rendered hids (hsub a List.mem_cons_self) (hnew a List.mem_cons_self) hid hkind
      hload hparse hm] at hstep
    obtain ⟨_, -, rfl⟩ := Except.map_eq_ok.mp hstep
    rw [List.map_cons, List.nodup_cons] at hrows
    have hfresh : ∀ b ∈ rows, b.id ∉ (acc.restore R a c).kept := by
      intro b hb hm
      rcases List.mem_cons.mp hm with he | hm
      · exact hrows.1 (he ▸ List.mem_map_of_mem hb)
      · exact hnew b (List.mem_cons_of_mem _ hb) hm
    have hrest := ih (fun b hb => hsub b (List.mem_cons_of_mem _ hb)) hfresh hrows.2 h
    obtain ⟨us, hu, hus⟩ := hrest.updated
    refine ⟨?_, ?_, hrest.created, ⟨(a.id, a.kind, R.modelDump c) :: us, ?_, .cons ⟨c, hload, rfl⟩ hus⟩,
      fun i hi => ?_⟩
    · rw [hrest.kept]
      simp [Reconcile.restore]
    · rw [hrest.ordered]
      simp [Reconcile.restore]
    · rw [hu]
      simp [Reconcile.restore]
    · rcases hrest.toClear i hi with hi | ⟨b, hb, hbi⟩
      · rw [Reconcile.restore] at hi
        dsimp only at hi
        split_ifs at hi with hd
        · exact .inl hi
        · rcases List.mem_append.mp hi with hi | hi
          · exact .inl hi
          · refine .inr ⟨a, List.mem_cons_self, (List.mem_singleton.mp hi).symm, ?_⟩
            rwa [isDigest_of_load hload]
      · exact .inr ⟨b, List.mem_cons_of_mem _ hb, hbi⟩

/-- The loop accepts rendered actions whose stored configs pass the policy. -/
theorem foldlM_accepts {mint : Id → Id} {existing rows : List WatchAction}
    {specs : List WatchActionInput} {acc : Reconcile}
    (hids : (existing.map (·.id)).Nodup) (hr : List.Forall₂ (Renders R) rows specs)
    (hsub : ∀ a ∈ rows, a ∈ existing) (hnew : ∀ a ∈ rows, a.id ∉ acc.kept)
    (hrows : (rows.map (·.id)).Nodup)
    (hpolicy : ∀ a ∈ rows, ∀ c, loadConfig R a = .ok c → R.enforceActionPolicy c = .ok c) :
    ∃ acc', specs.foldlM (reconcileOne R mint account path existing) acc = .ok acc' := by
  induction hr generalizing acc with
  | nil => exact ⟨acc, rfl⟩
  | @cons a spec rows specs ha _ ih =>
    obtain ⟨hid, hkind, c, s, hload, hparse, hm⟩ := ha
    rw [List.map_cons, List.nodup_cons] at hrows
    have hstep : reconcileOne R mint account path existing acc spec = .ok (acc.restore R a c) := by
      rw [reconcileOne_rendered hids (hsub a List.mem_cons_self) (hnew a List.mem_cons_self) hid
        hkind hload hparse hm, hpolicy a List.mem_cons_self c hload]
      rfl
    have hfresh : ∀ b ∈ rows, b.id ∉ (acc.restore R a c).kept := by
      intro b hb hm
      rcases List.mem_cons.mp hm with he | hm
      · exact hrows.1 (he ▸ List.mem_map_of_mem hb)
      · exact hnew b (List.mem_cons_of_mem _ hb) hm
    obtain ⟨acc', hacc⟩ := ih (fun b hb => hsub b (List.mem_cons_of_mem _ hb)) hfresh hrows.2
      fun b hb => hpolicy b (List.mem_cons_of_mem _ hb)
    rw [List.foldlM_cons, hstep]
    exact ⟨acc', hacc⟩

/-! ## The chain -/

/-- The row of the chain is as before, with a config that loads as before. -/
def SameAction (R : Registry C) (a a' : WatchAction) : Prop :=
  a' = { a with config := a'.config } ∧ loadConfig R a' = loadConfig R a

variable {t : List WatchAction} {x : ChainWrite}

/-- The ranks of the chain are its positions. -/
theorem ChainOk.rank_eq (h : ChainOk account path t) {a : WatchAction} {n : ℕ}
    (ha : (a, n) ∈ (listForPath account path t).zipIdx) : a.rank = n := by
  have hget := List.mk_mem_zipIdx_iff_getElem?.mp ha
  have hlt : n < (listForPath account path t).length := (List.getElem?_eq_some_iff.mp hget).1
  have hrank := congrArg (fun l : List ℕ => l[n]?) h.dense
  rw [List.getElem?_map, hget, List.getElem?_range hlt] at hrank
  exact Option.some.inj hrank

/-- A transaction that updates the rows of the path in place and renumbers them in their order. -/
theorem listForPath_inPlace (h : ChainOk account path t) (hacc : x.account = account)
    (hdel : x.deleted = []) (hcre : x.created = [])
    (hranks : x.ranks = renumber ((listForPath account path t).map (·.id))) :
    listForPath account path (x.actions t) = (listForPath account path t).map x.updateRow := by
  have hbase : x.base t = t.map x.updateRow := base_of_updated hdel hcre
  have hr : x.Renumbers account path t ((listForPath account path t).map x.updateRow) := by
    refine ⟨hacc, by rw [x.map_id_updateRow, hranks], ?_, ?_, ?_⟩
    · rw [hbase, chainRows_map _ _ fun a => ⟨(updateRow_frame x a).1, (updateRow_frame x a).2.1⟩]
      exact (perm_listForPath account path t).map _
    · rw [hbase, x.map_id_updateRow]
      exact h.ids
    · rw [map_rank_updateRow]
      exact h.nodup
  rw [hr.listForPath, List.zipIdx_map, List.map_map]
  conv_rhs => rw [← List.zipIdx_map_fst 0 (listForPath account path t), List.map_map]
  refine List.map_congr_left fun ⟨a, n⟩ ha => ?_
  show { x.updateRow a with rank := n } = x.updateRow a
  rw [← h.rank_eq ha, ← (updateRow_frame x a).2.2]

/-- A config that has been loaded loads again from its dump. -/
theorem parseConfig_modelDump (S : Redaction R) {kind : String} {data : Json} {c : C}
    (h : parseConfig R kind data = .ok c) : parseConfig R kind (R.modelDump c) = .ok c := by
  have hk := kind_parseConfig h
  unfold parseConfig at h ⊢
  split at h
  · cases h
  · rename_i f hf
    exact S.reload_eq (hk ▸ hf)

/-- **The transaction of a chain that is submitted back.** -/
theorem replaceChain_rendered (S : Redaction R) {mint : Id → Id} {specs : List WatchActionInput}
    (h : ChainOk account path t)
    (hr : List.Forall₂ (Renders R) (listForPath account path t) specs)
    (hx : replaceChain R mint account path (listForPath account path t) specs = .ok x) :
    x.account = account ∧ (∀ i ∈ x.cleared, ∃ a ∈ listForPath account path t, a.id = i ∧
        ¬ IsDigest R a) ∧
      List.Forall₂ (SameAction R) (listForPath account path t)
        (listForPath account path (x.actions t)) := by
  have hids : ((listForPath account path t).map (·.id)).Nodup := by
    rw [((perm_listForPath account path t).map _).nodup_iff]
    exact (List.filter_sublist.map _).nodup h.ids
  obtain ⟨acc, hfold, hacc, hdel, hclear, hupd, hcre, hranks⟩ := replaceChain_eq_ok hx
  have hres := foldlM_rendered hids hr (fun _ ha => ha) (by simp) hids hfold
  obtain ⟨us, hu, hus⟩ := hres.updated
  have hnone : x.deleted = [] := by
    rw [hdel, List.map_eq_nil_iff, List.filter_eq_nil_iff]
    intro a ha
    rw [hres.kept]
    simpa using ⟨a, ha, rfl⟩
  refine ⟨hacc, fun i hi => ?_, ?_⟩
  · rw [hclear, hnone] at hi
    exact (hres.toClear i hi).resolve_left (by simp)
  · rw [listForPath_inPlace h hacc hnone (hcre.trans hres.created) (by rw [hranks, hres.ordered]; rfl),
      List.forall₂_map_right_iff, List.forall₂_same]
    intro a ha
    have hkeys : us.map (·.1) = (listForPath account path t).map (·.id) := by
      rw [← List.forall₂_eq_eq_eq, List.forall₂_map_left_iff, List.forall₂_map_right_iff]
      exact hus.flip.imp fun u a ⟨c, _, he⟩ => by rw [he]
    obtain ⟨u, hmem, c, hc, rfl⟩ := Except.forall₂_mem_right hus.flip ha
    have hlookup : x.updated.lookup a.id = some (a.kind, R.modelDump c) := by
      rw [hupd, hu]
      exact Table.lookup_of_mem (hkeys ▸ hids) hmem
    have hrow : x.updateRow a = { a with config := R.modelDump c } := by
      rw [ChainWrite.updateRow, if_pos ((mem_listForPath.mp ha).2.1.trans hacc.symm), hlookup]
    rw [SameAction, hrow]
    exact ⟨rfl, (parseConfig_modelDump S hc).trans hc.symm⟩

/-! ## The request -/

/-- The masked config of a stored action, as the request carries it. -/
theorem wireConfig_parse (S : Redaction R) {kind : String} {masked j : Json}
    (h : wireConfig R kind masked = some j) {typed : C} (ht : validateConfig R kind j = .ok typed) :
    parseConfig R kind masked = .ok typed := by
  obtain ⟨s, hs, hp⟩ := Except.bind_eq_ok.mp ht
  obtain rfl := R.enforceActionPolicy_eq hp
  rw [wireConfig] at h
  split_ifs at h with hb
  · split at h
    · rename_i c hc
      obtain rfl := Option.some.inj h
      rw [hc, Except.ok.inj (hs.symm.trans (parseConfig_modelDump S hc))]
    · cases h
  · rwa [Option.some.inj h]

/-- **The serializer on a rendered action.** -/
theorem renders_of_validateAction (S : Redaction R) {a : WatchAction} {c : C} {n : ℕ}
    {spec : WatchActionInput} (hload : loadConfig R a = .ok c)
    (h : validateAction R ⟨a.id, a.kind, n, actionRedacted R S a >>= wireConfig R a.kind⟩ =
      .ok spec) : Renders R a spec := by
  have hred : actionRedacted R S a = some (S.redactedDump c) := by rw [actionRedacted, hload]
  rw [validateAction, hred] at h
  dsimp only at h
  split_ifs at h
  split at h
  · rename_i kvs hobj
    obtain ⟨typed, ht, h⟩ := Except.bind_eq_ok.mp h
    have hparse := wireConfig_parse S hobj ht
    have hspec : spec = ⟨some a.id, a.kind, R.modelDump typed⟩ := by
      rw [buildWatchActionInput] at h
      split_ifs at h
      · obtain ⟨s, hs, h⟩ := Except.bind_eq_ok.mp h
        rw [← Except.pure_eq_ok.mp h, Except.ok.inj (hs.symm.trans (parseConfig_modelDump S hparse))]
      · exact (Except.pure_eq_ok.mp h).symm
    subst hspec
    refine ⟨rfl, rfl, c, typed, hload, parseConfig_modelDump S hparse, ?_⟩
    have hk : R.kind c = a.kind := kind_parseConfig hload
    unfold parseConfig at hparse
    split at hparse
    · cases hparse
    · rename_i f hf
      exact S.restores (hk ▸ hf) hparse
  · cases h

/-- What the serializer makes of the rendered chain. -/
theorem renders_of_validateWatch (S : Redaction R) {watch : Watch} {w : World}
    {inputs : List WatchActionInput}
    (hload : ∀ a ∈ listForPath watch.accountId watch.initialPathId w.actions,
      ∃ c, loadConfig R a = .ok c)
    (h : validateWatch R watch.accountId (watchView R S watch w) w = .ok inputs) :
    List.Forall₂ (Renders R) (listForPath watch.accountId watch.initialPathId w.actions) inputs := by
  have hview : (watchView R S watch w).actions =
      (listForPath watch.accountId watch.initialPathId w.actions).map fun a =>
        ⟨a.id, a.kind, a.rank, actionRedacted R S a >>= wireConfig R a.kind⟩ := by
    rw [← List.filterMap_eq_map]
    show List.filterMap (watchActionWire R S) _ = _
    refine List.filterMap_congr fun a ha => ?_
    obtain ⟨c, hc⟩ := hload a ha
    have hknown : IsKnownKind R a.kind := by
      rw [IsKnownKind, Option.isSome_iff_ne_none]
      intro hn
      rw [loadConfig, parseConfig, hn] at hc
      cases hc
    exact if_pos hknown
  rw [validateWatch] at h
  split at h
  · split at h
    · rename_i inputs' hm
      obtain rfl := Except.ok.inj h
      rw [hview, Except.mapM_eq_ok, List.forall₂_map_left_iff] at hm
      refine ((List.forall₂_and_left _ _).mpr ⟨hload, hm⟩).imp fun a spec hb => ?_
      obtain ⟨⟨c, hc⟩, hv⟩ := hb
      exact renders_of_validateAction S hc hv
    · cases h
  · cases h

/-- Subscribing to the feeds that are subscribed changes nothing. -/
theorem setFeeds_self (mint : Id → Id) (watch : Watch) (watchFeeds : List WatchFeed) :
    setFeeds mint watch ((watchFeedsOf watch watchFeeds).map (·.feedId)) watchFeeds = watchFeeds := by
  have hperm : (watchFeedsOf watch watchFeeds).Perm (watchFeeds.filter fun f =>
      decide (f.accountId = watch.accountId ∧ f.watchId = watch.id)) := List.perm_insertionSort _ _
  have hmem : ∀ id, id ∈ dedupePreservingOrder ((watchFeedsOf watch watchFeeds).map (·.feedId)) ↔
      id ∈ (watchFeeds.filter fun f =>
        decide (f.accountId = watch.accountId ∧ f.watchId = watch.id)).map (·.feedId) := by
    intro id
    rw [dedupePreservingOrder, List.mem_eraseDups]
    exact (hperm.map _).mem_iff
  have hkeep : (watchFeeds.filter fun f => decide (¬ ((f.accountId = watch.accountId ∧
      f.watchId = watch.id) ∧ f.feedId ∉ dedupePreservingOrder
        ((watchFeedsOf watch watchFeeds).map (·.feedId))))) = watchFeeds := by
    refine List.filter_eq_self.mpr fun f hf => decide_eq_true ?_
    rintro ⟨hown, hn⟩
    exact hn ((hmem _).mpr (List.mem_map_of_mem (List.mem_filter.mpr ⟨hf, decide_eq_true hown⟩)))
  have hadd : (dedupePreservingOrder ((watchFeedsOf watch watchFeeds).map (·.feedId))).filter
      (fun id => decide (id ∉ (watchFeeds.filter fun f =>
        decide (f.accountId = watch.accountId ∧ f.watchId = watch.id)).map (·.feedId))) = [] := by
    refine List.filter_eq_nil_iff.mpr fun id hid => ?_
    rw [decide_eq_true_iff, not_not]
    exact (hmem id).mp hid
  rw [setFeeds, hkeep, hadd]
  simp

/-- What a watch that is submitted back keeps: its subscriptions with their watermarks, its chain,
and the window of every action that is a digest. -/
structure Unchanged (R : Registry C) (watch : Watch) (w w' : World) : Prop where
  watchFeeds : w'.watchFeeds = w.watchFeeds
  chain : List.Forall₂ (SameAction R) (listForPath watch.accountId watch.initialPathId w.actions)
    (listForPath watch.accountId watch.initialPathId w'.actions)
  windows : ∀ k ∈ w.windows, (∀ a ∈ listForPath watch.accountId watch.initialPathId w.actions,
    a.id = k.actionId → IsDigest R a) → k ∈ w'.windows

theorem unchanged_refl (R : Registry C) (watch : Watch) (w : World) : Unchanged R watch w w :=
  ⟨rfl, List.forall₂_same.mpr fun _ _ => ⟨rfl, rfl⟩, fun _ hk _ => hk⟩

section Put

variable (S : Redaction R) (ctx : RequestContext) {watch : Watch} {w : World}
  (hchain : ChainOk watch.accountId watch.initialPathId w.actions)
  (hload : ∀ a ∈ listForPath watch.accountId watch.initialPathId w.actions,
    ∃ c, loadConfig R a = .ok c)

include hchain hload

/-- **Whatever becomes of the request**, the watch is unchanged. -/
theorem resubmit_unchanged :
    Unchanged R watch w (resubmit R S ctx watch w).1 := by
  rw [resubmit, putWatch]
  split
  · rename_i inputs hv
    have hr := renders_of_validateWatch S hload hv
    have hfeeds : setFeeds ctx.mintFeed watch (watchView R S watch w).feedIds w.watchFeeds =
        w.watchFeeds := setFeeds_self _ _ _
    rw [updateWatch, hfeeds]
    dsimp only
    split_ifs
    · split
      · rename_i x hx
        obtain ⟨hacc, hclear, hsame⟩ := replaceChain_rendered S hchain hr hx
        refine ⟨rfl, hsame, fun k hk hd => ?_⟩
        refine List.mem_filter.mpr ⟨hk, ?_⟩
        simp only [Bool.not_eq_true', decide_eq_false_iff_not]
        rintro ⟨-, hin⟩
        obtain ⟨a, ha, hid, hnd⟩ := hclear _ hin
        exact hnd (hd a ha hid)
      · exact unchanged_refl R watch w
    · exact unchanged_refl R watch w
  · exact unchanged_refl R watch w

/-- A request that the serializer accepts is carried out, when the chain lock is free and the stored
configs pass the policy. -/
theorem resubmit_accepted {inputs : List WatchActionInput}
    (hv : validateWatch R watch.accountId (watchView R S watch w) w = .ok inputs)
    (hlock : ctx.acquired = true)
    (hpolicy : ∀ a ∈ listForPath watch.accountId watch.initialPathId w.actions, ∀ c,
      loadConfig R a = .ok c → R.enforceActionPolicy c = .ok c) :
    (resubmit R S ctx watch w).2 = .ok () := by
  have hr := renders_of_validateWatch S hload hv
  have hids : ((listForPath watch.accountId watch.initialPathId w.actions).map (·.id)).Nodup := by
    rw [((perm_listForPath _ _ _).map _).nodup_iff]
    exact (List.filter_sublist.map _).nodup hchain.ids
  have hfold : ∃ acc, inputs.foldlM (reconcileOne R ctx.mintAction watch.accountId
      watch.initialPathId (listForPath watch.accountId watch.initialPathId w.actions))
      { tempRank := (listForPath watch.accountId watch.initialPathId w.actions).length + 1 } =
        .ok acc := foldlM_accepts hids hr (fun _ ha => ha) (by simp) hids hpolicy
  obtain ⟨acc, hacc⟩ := hfold
  have hkept := (foldlM_rendered hids hr (fun _ ha => ha) (by simp) hids hacc).kept
  have hnone : (listForPath watch.accountId watch.initialPathId w.actions).filter
      (fun a => decide (a.id ∉ acc.kept)) = [] := by
    rw [List.filter_eq_nil_iff]
    intro a ha
    rw [hkept]
    simpa using ⟨a, ha, rfl⟩
  have hx : ∃ x, replaceChain R ctx.mintAction watch.accountId watch.initialPathId
      (listForPath watch.accountId watch.initialPathId w.actions) inputs = .ok x := by
    rw [replaceChain, hacc]
    show ∃ x, (refuseHidden R ((listForPath watch.accountId watch.initialPathId w.actions).filter
      fun a => decide (a.id ∉ acc.kept)) >>= _) = _
    rw [hnone]
    exact ⟨_, rfl⟩
  obtain ⟨x, hx⟩ := hx
  rw [resubmit, putWatch, hv]
  dsimp only
  rw [updateWatch, hlock, if_pos rfl]
  dsimp only
  rw [hx]

end Put

section RoundTrip

variable {D : Deployment} {P : Type} {plugins : PluginRegistry P}

/-- **A watch that is read and submitted back is unchanged**, with all its secrets; and the request
is carried out when nothing but the lock and the policy could refuse it. -/
theorem round_trip (secrets : Redaction plugins.toRegistry) (ctx : RequestContext) {watch : Watch}
    {w : World} (hchain : ChainOk watch.accountId watch.initialPathId w.actions)
    (hload : ∀ a ∈ listForPath watch.accountId watch.initialPathId w.actions,
      ∃ c, loadConfig (actionRegistry D plugins) a = .ok c) :
    Unchanged (actionRegistry D plugins) watch w
        (resubmit (actionRegistry D plugins) (actionRedaction D plugins secrets) ctx watch w).1 ∧
      ∀ inputs, validateWatch (actionRegistry D plugins) watch.accountId
          (watchView (actionRegistry D plugins) (actionRedaction D plugins secrets) watch w) w =
            .ok inputs →
        ctx.acquired = true →
        (∀ a ∈ listForPath watch.accountId watch.initialPathId w.actions, ∀ c,
          loadConfig (actionRegistry D plugins) a = .ok c →
            (actionRegistry D plugins).enforceActionPolicy c = .ok c) →
        (resubmit (actionRegistry D plugins) (actionRedaction D plugins secrets) ctx watch w).2 = .ok () :=
  ⟨resubmit_unchanged _ ctx hchain hload,
    fun _ hv hlock hpolicy => resubmit_accepted _ ctx hchain hload hv hlock hpolicy⟩

end RoundTrip

/-- A digest `log` action behind the webhook. -/
def digestRow : WatchAction :=
  ⟨8, 1, 2, "log", LogConfig.modelDump
    { delivery := .digest, digestIntervalSeconds := 60, digest_requires_interval := minute_pos }, 1⟩

/-- A webhook and a digest with an open window, subscribed to feed 5. -/
def hookWorld : World where
  actions := [hookRow "token", digestRow]
  windows := [⟨1, 8, some 60⟩]
  feeds := [⟨5, 1⟩]
  watchFeeds := [⟨4, 1, 3, 5, some 9⟩]

theorem round_trip_sample :
    Unchanged sampleActions ⟨3, 1, 2⟩ hookWorld (resubmit sampleActions
        (actionRedaction sampleDeployment noPlugins noSecrets) ⟨id, id, true⟩ ⟨3, 1, 2⟩ hookWorld).1 ∧
      (resubmit sampleActions (actionRedaction sampleDeployment noPlugins noSecrets) ⟨id, id, true⟩
        ⟨3, 1, 2⟩ hookWorld).2 = .ok () := by
  have hlist : listForPath 1 2 hookWorld.actions = [hookRow "token", digestRow] := rfl
  have hchain : ChainOk (Watch.mk 3 1 2).accountId (Watch.mk 3 1 2).initialPathId hookWorld.actions :=
    ⟨by decide, by rw [hlist]; rfl⟩
  have hload : ∀ a ∈ listForPath 1 2 hookWorld.actions, ∃ c, loadConfig sampleActions a = .ok c ∧
      sampleActions.enforceActionPolicy c = .ok c := by
    rw [hlist]
    intro a ha
    rcases List.mem_pair.mp ha with rfl | rfl
    · exact ⟨.webhook (hook "token"), rfl, rfl⟩
    · exact ⟨.log { delivery := .digest, digestIntervalSeconds := 60 }, rfl, rfl⟩
  have h := round_trip (D := sampleDeployment) noSecrets ⟨id, id, true⟩ hchain
    fun a ha => (hload a ha).imp fun _ hc => hc.1
  refine ⟨h.1, h.2 _ rfl rfl fun a ha c hc => ?_⟩
  obtain ⟨c', hc', hp⟩ := hload a ha
  rwa [← Except.ok.inj (hc'.symm.trans hc)]

end OpenMagpie
