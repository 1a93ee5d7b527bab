import Mathlib.Data.List.Perm.Basic
import OpenMagpie.Watches.Chain

/-!
# Replacing a chain

* `Reconciled`: what the loop of `replace_chain` has prepared; `reconcileOne_reconciled`.
* `replaceChain_renumbers`: the rows it hands to `_renumber`, in the submitted order.
* `ChainCall.Done`: what a call must have done. **`chain_calls`**: every call on a chain that calls
  have built has done it.
-/

set_option autoImplicit false

namespace OpenMagpie

open Renumber (parked)

variable {C : Type} {R : Registry C} {account path : Id} {t : List WatchAction} {x : ChainWrite}

/-- The submitted action `spec` is handled by an update or an insert of the row `id`. -/
def Reconcile.Handles (acc : Reconcile) (spec : WatchActionInput) (id : Id) : Prop :=
  (spec.id = some id ∧ ∃ config, (id, spec.kind, config) ∈ acc.updated) ∨
    (spec.id = none ∧ ∃ row ∈ acc.created, row.id = id ∧ row.kind = spec.kind)

/-- What the loop has prepared for the submitted actions `specs`. -/
structure Reconciled (mint : Id → Id) (account path : Id) (existing : List WatchAction)
    (specs : List WatchActionInput) (acc : Reconcile) : Prop where
  ordered : List.Forall₂ acc.Handles specs acc.ordered
  perm : acc.ordered.Perm (acc.kept ++ acc.created.map (·.id))
  keys : acc.updated.map (·.1) = acc.kept.reverse
  kept : acc.kept.Nodup
  mem : ∀ id ∈ acc.kept, id ∈ existing.map (·.id)
  created : ∀ row ∈ acc.created, row.accountId = account ∧ row.pathId = path ∧
    row.id = mint row.rank ∧ existing.length < row.rank ∧ row.rank < acc.tempRank
  parked : (acc.created.map (·.rank)).Nodup
  temp : existing.length < acc.tempRank

theorem reconciled_nil (mint : Id → Id) (account path : Id) (existing : List WatchAction) :
    Reconciled mint account path existing [] { tempRank := existing.length + 1 } :=
  ⟨.nil, .nil, rfl, .nil, nofun, nofun, .nil, Nat.lt_succ_self _⟩

/-- **One submitted action.** -/
theorem reconcileOne_reconciled {mint : Id → Id} {existing : List WatchAction}
    {specs : List WatchActionInput} {acc acc' : Reconcile} {spec : WatchActionInput}
    (hi : Reconciled mint account path existing specs acc)
    (h : reconcileOne R mint account path existing acc spec = .ok acc') :
    Reconciled mint account path existing (specs ++ [spec]) acc' := by
  obtain ⟨_, prior, merged, -, -, -, ⟨a, ha, -, hid, hk, rfl⟩ | ⟨-, hid, rfl⟩⟩ := reconcileOne_eq_ok h
  · refine ⟨List.rel_append (hi.ordered.imp fun s id hs => ?_) (.cons (.inl ?_) .nil), ?_, ?_,
      List.nodup_cons.mpr ⟨hk, hi.kept⟩, ?_, hi.created, hi.parked, hi.temp⟩
    · exact hs.imp_left (And.imp_right (Exists.imp fun _ hm => List.mem_append_left _ hm))
    · exact ⟨hid, R.modelDump merged, List.mem_append_right _ List.mem_cons_self⟩
    · exact (List.perm_append_singleton _ _).trans (hi.perm.cons _)
    · simp [Reconcile.update, hi.keys]
    · intro id hm
      rcases List.mem_cons.mp hm with rfl | hm
      · exact List.mem_map_of_mem ha
      · exact hi.mem id hm
  · refine ⟨List.rel_append (hi.ordered.imp fun s id hs => ?_) (.cons (.inr ?_) .nil), ?_, hi.keys,
      hi.kept, hi.mem, ?_, ?_, hi.temp.trans (Nat.lt_succ_self _)⟩
    · exact hs.imp_right (And.imp_right (Exists.imp fun _ hm => hm.imp_left (List.mem_append_left _)))
    · exact ⟨hid, _, List.mem_append_right _ List.mem_cons_self, rfl, rfl⟩
    · dsimp only [Reconcile.create]
      rw [List.map_append, ← List.append_assoc]
      exact hi.perm.append_right _
    · intro row hm
      rcases List.mem_append.mp hm with hm | hm
      · obtain ⟨h₁, h₂, h₃, h₄, h₅⟩ := hi.created row hm
        exact ⟨h₁, h₂, h₃, h₄, h₅.trans (Nat.lt_succ_self _)⟩
      · obtain rfl := List.mem_singleton.mp hm
        exact ⟨rfl, rfl, rfl, hi.temp, Nat.lt_succ_self _⟩
    · dsimp only [Reconcile.create]
      rw [List.map_append, List.nodup_append]
      refine ⟨hi.parked, List.nodup_singleton _, ?_⟩
      rintro n hn m hm rfl
      obtain ⟨row, hrow, rfl⟩ := List.mem_map.mp hn
      have hlt := (hi.created row hrow).2.2.2.2
      rw [List.mem_singleton.mp hm] at hlt
      exact Nat.lt_irrefl _ hlt

/-! ## The rows that are renumbered -/

section Replace

variable {mint : Id → Id} {specs : List WatchActionInput} {acc : Reconcile}

/-- The transaction of `replace_chain`, from what its loop has prepared. -/
theorem replaceChain_eq_ok {existing : List WatchAction}
    (hx : replaceChain R mint account path existing specs = .ok x) :
    ∃ acc, specs.foldlM (reconcileOne R mint account path existing)
        { tempRank := existing.length + 1 } = .ok acc ∧
      x.account = account ∧
      x.deleted = (existing.filter fun a => decide (a.id ∉ acc.kept)).map (·.id) ∧
      x.cleared = x.deleted ++ acc.toClear ∧ x.updated = acc.updated ∧ x.created = acc.created ∧
      x.ranks = renumber acc.ordered := by
  obtain ⟨acc, hacc, hx⟩ := Except.bind_eq_ok.mp hx
  obtain ⟨_, -, hx⟩ := Except.bind_eq_ok.mp hx
  obtain rfl := Except.pure_eq_ok.mp hx
  exact ⟨acc, hacc, rfl, rfl, rfl, rfl, rfl, rfl⟩

theorem reconciled_of_foldlM {existing : List WatchAction}
    (hacc : specs.foldlM (reconcileOne R mint account path existing)
      { tempRank := existing.length + 1 } = .ok acc) :
    Reconciled mint account path existing specs acc :=
  Except.prefix_of_foldlM_eq_ok (P := Reconciled mint account path existing)
    (fun _ _ _ _ hi h => reconcileOne_reconciled hi h) (reconciled_nil mint account path existing)
    hacc

/-- The surviving rows of the path are the kept ones. -/
theorem keeps_iff (hacc : x.account = account)
    (hdel : x.deleted = ((listForPath account path t).filter fun a => decide (a.id ∉ acc.kept)).map
      (·.id)) {a : WatchAction} (ha : a ∈ chainRows account path t) :
    x.Keeps a ↔ a.id ∈ acc.kept := by
  have hin := (perm_listForPath account path t).symm.subset ha
  rw [ChainWrite.Keeps, hacc, hdel]
  constructor
  · intro hk
    by_contra hn
    exact hk ⟨(mem_chainRows.mp ha).2.1,
      List.mem_map_of_mem (List.mem_filter.mpr ⟨hin, decide_eq_true hn⟩)⟩
  · rintro hk ⟨-, hm⟩
    obtain ⟨b, hb, hid⟩ := List.mem_map.mp hm
    exact of_decide_eq_true (List.mem_filter.mp hb).2 (hid ▸ hk)

/-- The rows of the path when `_renumber` starts: the kept ones, updated, and the new ones. -/
theorem chainRows_base (hi : Reconciled mint account path (listForPath account path t) specs acc)
    (hcre : x.created = acc.created) : chainRows account path (x.base t) =
      ((chainRows account path t).filter fun a => decide (x.Keeps a)).map x.updateRow ++
        acc.created := by
  have hnew : chainRows account path acc.created = acc.created :=
    List.filter_eq_self.mpr fun row hrow =>
      decide_eq_true ⟨(hi.created row hrow).1, (hi.created row hrow).2.1⟩
  have hkept := chainRows_map account path
    (fun a => ⟨(updateRow_frame x a).1, (updateRow_frame x a).2.1⟩)
    (t.filter fun a => decide (x.Keeps a))
  rw [ChainWrite.base, hcre, chainRows, List.filter_append]
  congr 1
  refine hkept.trans ?_
  rw [chainRows, chainRows, List.filter_comm]

/-- New rows have new ids. -/
theorem base_ids (hi : Reconciled mint account path (listForPath account path t) specs acc)
    (hids : (t.map (·.id)).Nodup) (hinj : Function.Injective mint)
    (hnew : ∀ i, ∀ a ∈ t, a.id ≠ mint i) (hcre : x.created = acc.created) :
    ((x.base t).map (·.id)).Nodup := by
  have hmint : acc.created.map (·.id) = (acc.created.map (·.rank)).map mint := by
    rw [List.map_map]
    exact List.map_congr_left fun row hrow => (hi.created row hrow).2.2.1
  rw [ChainWrite.base, hcre, List.map_append, x.map_id_updateRow, hmint, List.nodup_append]
  refine ⟨(List.filter_sublist.map _).nodup hids, hi.parked.map hinj, ?_⟩
  rintro id hid _ hmem rfl
  obtain ⟨a, ha, rfl⟩ := List.mem_map.mp hid
  obtain ⟨n, -, hn⟩ := List.mem_map.mp hmem
  exact hnew n a (List.mem_filter.mp ha).1 hn.symm

/-- The ids of `ordered` are the ids of those rows. -/
theorem ordered_perm (hi : Reconciled mint account path (listForPath account path t) specs acc)
    (hids : (t.map (·.id)).Nodup) (hacc : x.account = account) (hcre : x.created = acc.created)
    (hdel : x.deleted = ((listForPath account path t).filter fun a => decide (a.id ∉ acc.kept)).map
      (·.id)) : acc.ordered.Perm ((chainRows account path (x.base t)).map (·.id)) := by
  refine hi.perm.trans ?_
  rw [chainRows_base hi hcre, List.map_append, x.map_id_updateRow]
  refine List.Perm.append_right _ ((List.perm_ext_iff_of_nodup hi.kept ?_).mpr fun id => ?_)
  · exact ((List.filter_sublist.trans List.filter_sublist).map _).nodup hids
  · rw [List.mem_map]
    constructor
    · intro hk
      obtain ⟨a, ha, rfl⟩ := List.mem_map.mp (hi.mem id hk)
      have hrow := (perm_listForPath account path t).subset ha
      exact ⟨a, List.mem_filter.mpr ⟨hrow, decide_eq_true ((keeps_iff hacc hdel hrow).mpr hk)⟩, rfl⟩
    · rintro ⟨a, ha, rfl⟩
      obtain ⟨hrow, hk⟩ := List.mem_filter.mp ha
      exact (keeps_iff hacc hdel hrow).mp (of_decide_eq_true hk)

/-- The ranks that `_renumber` starts from are distinct: new rows are parked past the old ones. -/
theorem base_distinct (h : ChainOk account path t)
    (hi : Reconciled mint account path (listForPath account path t) specs acc)
    (hcre : x.created = acc.created) :
    ((chainRows account path (x.base t)).map (·.rank)).Nodup := by
  have hold : ((chainRows account path t).map (·.rank)).Nodup :=
    (((perm_listForPath account path t).map _).nodup_iff).mp h.nodup
  rw [chainRows_base hi hcre, List.map_append, map_rank_updateRow, List.nodup_append]
  refine ⟨(List.filter_sublist.map _).nodup hold, hi.parked, ?_⟩
  rintro n hn m hm rfl
  obtain ⟨a, ha, rfl⟩ := List.mem_map.mp hn
  obtain ⟨row, hrow, hr⟩ := List.mem_map.mp hm
  have hlt := h.lt_length ((perm_listForPath account path t).symm.subset (List.mem_filter.mp ha).1)
  have hgt := (hi.created row hrow).2.2.2.1
  omega

/-- A row at the place of a submitted action has its kind; it is the row named, or a new one. -/
theorem handled_row (hi : Reconciled mint account path (listForPath account path t) specs acc)
    (hbase : ((x.base t).map (·.id)).Nodup) (hnew : ∀ i, ∀ a ∈ t, a.id ≠ mint i)
    (hacc : x.account = account) (hcre : x.created = acc.created) (hupd : x.updated = acc.updated)
    {spec : WatchActionInput} {row : WatchAction} (hrow : row ∈ chainRows account path (x.base t))
    (hh : acc.Handles spec row.id) : row.kind = spec.kind ∧
      ((spec.id = some row.id ∧ row.id ∈ (listForPath account path t).map (·.id)) ∨
        (spec.id = none ∧ row.id ∉ (listForPath account path t).map (·.id))) := by
  have hfresh : ∀ r ∈ acc.created, r.id ∉ (listForPath account path t).map (·.id) := by
    intro r hr hm
    obtain ⟨a, ha, hid⟩ := List.mem_map.mp hm
    exact hnew r.rank a (mem_listForPath.mp ha).1 (hid.trans (hi.created r hr).2.2.1)
  rcases hh with ⟨hid, config, hm⟩ | ⟨hid, r, hr, hrid, hkind⟩
  · have hk : row.id ∈ acc.kept := by
      rw [← List.mem_reverse, ← hi.keys]
      exact List.mem_map_of_mem hm
    have hin := hi.mem _ hk
    refine ⟨?_, .inl ⟨hid, hin⟩⟩
    rw [chainRows_base hi hcre] at hrow
    rcases List.mem_append.mp hrow with hrow | hrow
    · obtain ⟨a, ha, rfl⟩ := List.mem_map.mp hrow
      have haid : a.id = (x.updateRow a).id := by simp
      have hkeys : (acc.updated.map (·.1)).Nodup := by
        rw [hi.keys]
        exact List.nodup_reverse.mpr hi.kept
      have hlookup : acc.updated.lookup a.id = some (spec.kind, config) :=
        Table.lookup_of_mem hkeys (haid ▸ hm)
      have hown : a.accountId = x.account :=
        (mem_chainRows.mp (List.mem_filter.mp ha).1).2.1.trans hacc.symm
      rw [ChainWrite.updateRow, if_pos hown, hupd, hlookup]
    · exact absurd hin (hfresh row hrow)
  · have hr' : r ∈ x.base t := by
      rw [ChainWrite.base, hcre]
      exact List.mem_append_right _ hr
    obtain rfl := Table.eq_of_key hbase hr' (mem_chainRows.mp hrow).1 hrid
    exact ⟨hkind, .inr ⟨hid, hfresh r hr⟩⟩

/-- **What `replace_chain` hands to `_renumber`**: the rows in the submitted order. -/
theorem replaceChain_renumbers (h : ChainOk account path t) (hinj : Function.Injective mint)
    (hnew : ∀ i, ∀ a ∈ t, a.id ≠ mint i)
    (hx : replaceChain R mint account path (listForPath account path t) specs = .ok x) :
    ∃ chain, x.Renumbers account path t chain ∧ List.Forall₂ (fun spec n => n.2.1 = spec.kind ∧
      ((spec.id = some n.1 ∧ n.1 ∈ (chainOf account path t).map (·.1)) ∨
        (spec.id = none ∧ n.1 ∉ (chainOf account path t).map (·.1))))
      specs (chain.map WatchAction.node) := by
  obtain ⟨acc, hfold, hacc, hdel, -, hupd, hcre, hranks⟩ := replaceChain_eq_ok hx
  have hi := reconciled_of_foldlM hfold
  have hbase := base_ids (x := x) hi h.ids hinj hnew hcre
  obtain ⟨chain, hchain, hperm⟩ := List.perm_comp_forall₂
    (r := fun id (row : WatchAction) => id = row.id)
    (ordered_perm (x := x) hi h.ids hacc hcre hdel)
    (List.forall₂_map_left_iff.mpr (List.forall₂_same.mpr fun _ _ => rfl))
  have hmap : acc.ordered = chain.map (·.id) := by
    rwa [← List.forall₂_eq_eq_eq, List.forall₂_map_right_iff]
  refine ⟨chain, ⟨hacc, hmap ▸ hranks, hperm, hbase, ?_⟩, ?_⟩
  · rw [(hperm.map _).nodup_iff]
    exact base_distinct h hi hcre
  · have hh : List.Forall₂ (fun row spec => acc.Handles spec row.id) chain specs := by
      have ho := hi.ordered
      rw [hmap, List.forall₂_map_right_iff] at ho
      exact ho.flip
    have hids : (chainOf account path t).map (·.1) = (listForPath account path t).map (·.id) := by
      rw [chainOf, List.map_map]
      rfl
    rw [List.forall₂_map_right_iff, hids]
    have hrows := (List.forall₂_and_left chain specs).mpr ⟨fun row hrow => hperm.subset hrow, hh⟩
    exact List.Forall₂.flip (hrows.imp fun row spec hrs =>
      handled_row hi hbase hnew hacc hcre hupd hrs.1 hrs.2)

end Replace

/-! ## Every call -/

/-- What a call must have done: dense unique ranks and the requested order in the end, and no shared
rank on the way there. -/
structure ChainCall.Done (account path : Id) (t : List WatchAction) (c : ChainCall)
    (x : ChainWrite) : Prop where
  chainOk : ChainOk account path (x.actions t)
  requested : c.Requested (chainOf account path t) (chainOf account path (x.actions t))
  passes : ∀ t', x.Passes t t' → ((chainRows account path t').map (·.rank)).Nodup
  ends : ∀ ws us : List (Id × ℕ), ws.Perm (parked (x.ranks.map (·.1)) (x.offset t)) →
    us.Perm x.ranks → writeRanks us (writeRanks ws (x.base t)) = x.actions t

/-- What is left to show of a call that renumbers. -/
theorem ChainWrite.Renumbers.done {chain : List WatchAction} {c : ChainCall}
    (h : x.Renumbers account path t chain)
    (hr : c.Requested (chainOf account path t) (chain.map WatchAction.node)) :
    c.Done account path t x :=
  ⟨h.chainOk.1, h.chainOk.2 ▸ hr, fun _ hp => h.passes hp, fun _ _ hw hu => h.actions hw hu⟩

/-- **One call on a chain with dense ranks.** -/
theorem ChainOk.done (h : ChainOk account path t) {c : ChainCall} (hc : c.Ok account path t)
    (hx : c.run R account path t = .ok x) : c.Done account path t x := by
  have hlen : (chainOf account path t).length = (listForPath account path t).length :=
    List.length_map _
  cases c with
  | replaceChain mint specs =>
    obtain ⟨chain, hr, hreq⟩ := replaceChain_renumbers h hc.1 hc.2 hx
    exact hr.done hreq
  | add newId spec rank =>
    obtain ⟨config, hr⟩ := add_renumbers h hc hx
    refine hr.done ⟨config, ?_⟩
    rw [hlen, chainOf, List.map_insertIdx]
    rfl
  | remove action =>
    obtain rfl := Except.ok.inj hx
    refine (remove_renumbers h hc.2).done ?_
    show _ = (chainOf account path t).filter _
    rw [chainOf, List.filter_map]
    rfl
  | setConfig action spec =>
    obtain ⟨hok, hreq, hp, hends⟩ := setConfig_chain h hc.1 hx
    exact ⟨hok, hreq, hp, hends⟩

theorem ChainReach.chainOk (h : ChainReach R account path t) : ChainOk account path t := by
  induction h with
  | empty hids hnone =>
    have hnil : listForPath account path _ = [] := List.eq_nil_iff_forall_not_mem.mpr
      fun a ha => hnone a (mem_listForPath.mp ha).1 (mem_listForPath.mp ha).2
    exact ⟨hids, by rw [hnil]; rfl⟩
  | @call t _ c hc ih =>
    rw [ChainCall.apply]
    split
    · exact (ih.done hc ‹_›).chainOk
    · exact ih

/-- **Calls on a chain.** On a chain that any calls have built, every call leaves dense unique ranks
and the order it asks for, and no two rows of the path share a rank after any row update. -/
theorem chain_calls (h : ChainReach R account path t) : ChainOk account path t ∧
    ∀ c : ChainCall, c.Ok account path t → ∀ x, c.run R account path t = .ok x →
      c.Done account path t x :=
  ⟨h.chainOk, fun _ hc _ hx => h.chainOk.done hc hx⟩

/-- A new `log` action at a rank. -/
def sampleAdd (newId : Id) (rank : Option ℤ) : ChainCall :=
  .add newId { kind := "log", config := .empty } rank

/-- A table with an action of another path. -/
def otherPath : List WatchAction := [⟨1, 1, 5, "log", .empty, 0⟩]

/-- After three calls: the chain of path 2 is 8, 7, 9. -/
def sampleChain : List WatchAction :=
  [⟨1, 1, 5, "log", .empty, 0⟩, ⟨7, 1, 2, "log", LogConfig.modelDump {}, 1⟩,
    ⟨8, 1, 2, "log", LogConfig.modelDump {}, 0⟩, ⟨9, 1, 2, "log", LogConfig.modelDump {}, 2⟩]

theorem ok_sampleAdd {t : List WatchAction} {newId : Id} (rank : Option ℤ)
    (h : newId ∉ t.map (·.id)) : (sampleAdd newId rank).Ok 1 2 t :=
  fun _ ha he => h (he ▸ List.mem_map_of_mem ha)

/-- The calls that make it: an append, an insertion before the first rank, and another append. -/
theorem reach_sampleChain : ChainReach (logRegistry strictMode 1 2) 1 2 sampleChain := by
  have h0 : ChainReach (logRegistry strictMode 1 2) 1 2 otherPath := .empty (by decide) (by decide)
  have h1 := h0.call (sampleAdd 7 none) (ok_sampleAdd none (by decide))
  have h2 := h1.call (sampleAdd 8 (some (-3))) (ok_sampleAdd (some (-3)) (by decide))
  exact h2.call (sampleAdd 9 (some 12)) (ok_sampleAdd (some 12) (by decide))

/-- A replacement that moves 9 to the front, creates an action, gives 8 another config, and drops 7. -/
def sampleReplace : ChainCall := .replaceChain (· + 100)
  [{ id := some 9, kind := "log", config := .empty }, { kind := "log", config := .empty },
    { id := some 8, kind := "log", config := LogConfig.modelDump { linePrefix := "8:" } }]

/-- The chain is as it was asked for. -/
theorem chain_calls_sample : ∃ x, sampleReplace.run (logRegistry strictMode 1 2) 1 2 sampleChain = .ok x ∧
    x.deleted = [7] ∧ (chainOf 1 2 (x.actions sampleChain)).map (·.1) = [9, 104, 8] ∧
    ChainOk 1 2 sampleChain ∧ sampleReplace.Done 1 2 sampleChain x := by
  obtain ⟨hok, hdone⟩ := chain_calls reach_sampleChain
  have hsmall : ∀ a ∈ sampleChain, a.id < 100 := by decide
  have hnew : sampleReplace.Ok 1 2 sampleChain :=
    ⟨fun i j h => Nat.add_right_cancel h, fun i a ha =>
      Nat.ne_of_lt ((hsmall a ha).trans_le (Nat.le_add_left 100 i))⟩
  exact ⟨_, rfl, rfl, rfl, hok, hdone sampleReplace hnew _ rfl⟩

end OpenMagpie
