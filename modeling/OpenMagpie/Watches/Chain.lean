import Mathlib.Computability.Primrec.List
import OpenMagpie.Lib.Renumber
import OpenMagpie.Watches.Actions

/-!
# Calls on one chain

`replace_chain`, `add`, `remove` and `set_config` called one after the other on a path, row update
by row update.

* `writeRanks`, `ChainWrite.Passes`: the tables between the row updates of `_renumber`, in any
  order of the rows of a pass.
* `ChainWrite.Renumbers`: what a transaction has prepared when `_renumber` starts;
  `Renumbers.passes`, `Renumbers.listForPath`: what the passes keep and where they end.
* `ChainCall`, `ChainCall.Step`, `ChainReach`: the calls, and the tables they lead to.
* **`chain_calls`**: ranks are dense, the order is the requested one, and no two rows of the path
  ever share a rank.
-/

set_option autoImplicit false

namespace OpenMagpie

open Renumber

/-! ## Row updates -/

/-- One row update of a renumber pass. -/
def writeRank (table : List WatchAction) (u : Id × ℕ) : List WatchAction :=
  Table.update (fun a => decide (a.id = u.1)) (fun a => { a with rank := u.2 }) table

/-- The row updates `us`, one after the other. -/
def writeRanks (us : List (Id × ℕ)) (table : List WatchAction) : List WatchAction :=
  us.foldl writeRank table

/-- The row with the rank that the updates leave it. -/
def rewritten (us : List (Id × ℕ)) (a : WatchAction) : WatchAction :=
  { a with rank := write us (fun _ => a.rank) a.id }

theorem writeRanks_eq_map (us : List (Id × ℕ)) (table : List WatchAction) :
    writeRanks us table = table.map (rewritten us) := by
  induction us generalizing table with
  | nil => exact (List.map_id table).symm
  | cons u us ih =>
    have hcons : writeRanks (u :: us) table = writeRanks us (writeRank table u) := rfl
    rw [hcons, ih, writeRank, Table.update, List.map_map]
    refine List.map_congr_left fun a _ => ?_
    have hstep : rewritten (u :: us) a =
        { a with rank := write us (Function.update (fun _ => a.rank) u.1 u.2) a.id } := rfl
    rw [hstep, Function.comp_apply]
    split_ifs with h
    · have hid := of_decide_eq_true h
      rw [rewritten]
      congr 1
      exact write_congr (by rw [hid, Function.update_self])
    · have hid : a.id ≠ u.1 := fun he => h (decide_eq_true he)
      rw [rewritten]
      congr 1
      exact write_congr (by rw [Function.update_of_ne hid])

theorem chainRows_map {f : WatchAction → WatchAction} (account path : Id)
    (hf : ∀ a, (f a).accountId = a.accountId ∧ (f a).pathId = a.pathId) (t : List WatchAction) :
    chainRows account path (t.map f) = (chainRows account path t).map f := by
  rw [chainRows, chainRows, List.filter_map]
  congr 1
  refine List.filter_congr fun a _ => ?_
  rw [Function.comp_apply, (hf a).1, (hf a).2]

theorem mem_chainRows {account path : Id} {t : List WatchAction} {a : WatchAction} :
    a ∈ chainRows account path t ↔ a ∈ t ∧ a.accountId = account ∧ a.pathId = path := by
  rw [chainRows, List.mem_filter, decide_eq_true_iff]

theorem perm_listForPath (account path : Id) (t : List WatchAction) :
    (listForPath account path t).Perm (chainRows account path t) :=
  List.perm_insertionSort _ _

/-- A sorted list of the path's rows is the chain. -/
theorem listForPath_eq {account path : Id} {t L : List WatchAction}
    (hp : L.Perm (chainRows account path t)) (hs : L.Pairwise fun a b => a.rank < b.rank) :
    listForPath account path t = L := by
  have hsort : (listForPath account path t).Pairwise fun a b => a.rank ≤ b.rank :=
    List.pairwise_insertionSort _ _
  refine List.Perm.eq_of_pairwise ?_ hsort (hs.imp Nat.le_of_lt)
    ((perm_listForPath account path t).trans hp.symm)
  intro a b ha hb hab hba
  have hb' : b ∈ L := hb
  have ha' : a ∈ L := hp.symm.subset ((perm_listForPath account path t).subset ha)
  have hinj : (L.map (·.rank)).Nodup := by
    rw [List.Nodup, List.pairwise_map]
    exact hs.imp Nat.ne_of_lt
  exact List.inj_on_of_nodup_map hinj ha' hb' (Nat.le_antisymm hab hba)

/-! ## The tables of a transaction -/

/-- The table when `_renumber` starts. -/
def ChainWrite.base (x : ChainWrite) (t : List WatchAction) : List WatchAction :=
  ((t.filter fun a => decide (x.Keeps a)).map x.updateRow) ++ x.created

/-- `max(row.rank for row in ordered, default=0) + 1`. -/
def ChainWrite.offset (x : ChainWrite) (t : List WatchAction) : ℕ :=
  (((x.base t).filter fun a => decide (a.id ∈ x.ranks.map (·.1))).map (·.rank)).foldr max 0 + 1

/-- The tables between the row updates of the two passes, in any order of the rows of a pass. -/
inductive ChainWrite.Passes (x : ChainWrite) (t : List WatchAction) : List WatchAction → Prop
  | parking {us rest : List (Id × ℕ)}
      (h : (us ++ rest).Perm (parked (x.ranks.map (·.1)) (x.offset t))) :
      Passes x t (writeRanks us (x.base t))
  | final {ws us rest : List (Id × ℕ)} (hw : ws.Perm (parked (x.ranks.map (·.1)) (x.offset t)))
      (h : (us ++ rest).Perm x.ranks) : Passes x t (writeRanks us (writeRanks ws (x.base t)))

/-- What a transaction has prepared when `_renumber` starts: `chain`, the rows of the path in their
final order, all with distinct ids and ranks. -/
structure ChainWrite.Renumbers (x : ChainWrite) (account path : Id) (t chain : List WatchAction) :
    Prop where
  account_eq : x.account = account
  ranks : x.ranks = renumber (chain.map (·.id))
  perm : chain.Perm (chainRows account path (x.base t))
  ids : ((x.base t).map (·.id)).Nodup
  distinct : (chain.map (·.rank)).Nodup

namespace ChainWrite.Renumbers

variable {x : ChainWrite} {account path : Id} {t chain : List WatchAction}

theorem keys (h : x.Renumbers account path t chain) : x.ranks.map (·.1) = chain.map (·.id) := by
  rw [h.ranks, renumber, zipIdx_keys]

theorem mem_base (h : x.Renumbers account path t chain) {a : WatchAction} (ha : a ∈ chain) :
    a ∈ x.base t :=
  (mem_chainRows.mp (h.perm.subset ha)).1

theorem keys_nodup (h : x.Renumbers account path t chain) : (chain.map (·.id)).Nodup := by
  rw [(h.perm.map _).nodup_iff]
  exact (List.filter_sublist.map _).nodup h.ids

theorem lt_offset (h : x.Renumbers account path t chain) {a : WatchAction} (ha : a ∈ chain) :
    a.rank < x.offset t := by
  have hle : ∀ (l : List ℕ), ∀ n ∈ l, n ≤ l.foldr max 0 := by
    intro l
    induction l with
    | nil => exact fun n hn => absurd hn List.not_mem_nil
    | cons m l ih =>
      intro n hn
      rcases List.mem_cons.mp hn with rfl | hn
      · exact Nat.le_max_left _ _
      · exact (ih n hn).trans (Nat.le_max_right _ _)
  refine Nat.lt_succ_of_le (hle _ _ (List.mem_map_of_mem (List.mem_filter.mpr ⟨h.mem_base ha, ?_⟩)))
  rw [h.keys]
  exact decide_eq_true (List.mem_map_of_mem ha)

/-- Distinct ranks below the offset are at most as many. -/
theorem length_le (h : x.Renumbers account path t chain) :
    (chain.map (·.id)).length ≤ x.offset t := by
  have hsub : chain.map (·.rank) ⊆ List.range (x.offset t) := by
    intro n hn
    obtain ⟨a, ha, rfl⟩ := List.mem_map.mp hn
    exact List.mem_range.mpr (h.lt_offset ha)
  have hlen := (List.subperm_of_subset h.distinct hsub).length_le
  rw [List.length_map, List.length_range] at hlen
  rwa [List.length_map]

/-- The rows of the chain under ranks that are distinct on its ids. -/
theorem nodup_of_injOn (h : x.Renumbers account path t chain) {f : WatchAction → WatchAction}
    {r : Id → ℕ} (hf : ∀ a ∈ chain, (f a).rank = r a.id)
    (hpath : ∀ a, (f a).accountId = a.accountId ∧ (f a).pathId = a.pathId)
    (hr : Set.InjOn r {k | k ∈ chain.map (·.id)}) :
    ((chainRows account path ((x.base t).map f)).map (·.rank)).Nodup := by
  rw [chainRows_map _ _ hpath, List.map_map, ← (h.perm.map _).nodup_iff,
    List.map_congr_left (g := r ∘ (·.id)) hf, ← List.map_map]
  exact h.keys_nodup.map_on fun a ha b hb => hr ha hb

/-- The rank that every id of the chain has when `_renumber` starts. -/
theorem exists_ranks (h : x.Renumbers account path t chain) :
    ∃ r : Id → ℕ, (∀ a ∈ chain, r a.id = a.rank) ∧ Set.InjOn r {k | k ∈ chain.map (·.id)} ∧
      ∀ k ∈ {k | k ∈ chain.map (·.id)}, r k < x.offset t := by
  let r : Id → ℕ := fun k => ((chain.find? fun a => decide (a.id = k)).map (·.rank)).getD 0
  have hr : ∀ a ∈ chain, r a.id = a.rank := by
    intro a ha
    obtain ⟨b, hb⟩ : ∃ b, chain.find? (fun b : WatchAction => decide (b.id = a.id)) = some b :=
      Option.isSome_iff_exists.mp (List.find?_isSome.mpr ⟨a, ha, decide_eq_true rfl⟩)
    have hid : b.id = a.id := of_decide_eq_true
      (List.find?_some (p := fun b : WatchAction => decide (b.id = a.id)) hb)
    have he := List.inj_on_of_nodup_map h.keys_nodup (List.mem_of_find?_eq_some hb) ha hid
    simp only [r, hb, Option.map_some, Option.getD_some, he]
  refine ⟨r, hr, ?_, ?_⟩
  · rintro k hk k' hk' hkk
    obtain ⟨a, ha, rfl⟩ := List.mem_map.mp hk
    obtain ⟨b, hb, rfl⟩ := List.mem_map.mp hk'
    rw [hr a ha, hr b hb] at hkk
    rw [List.inj_on_of_nodup_map h.distinct ha hb hkk]
  · rintro k hk
    obtain ⟨a, ha, rfl⟩ := List.mem_map.mp hk
    rw [hr a ha]
    exact h.lt_offset ha

/-- **No two rows of the path share a rank** after any row update of the two passes. -/
theorem passes (h : x.Renumbers account path t chain) {t' : List WatchAction} (hp : x.Passes t t') :
    ((chainRows account path t').map (·.rank)).Nodup := by
  obtain ⟨r, hr, hinj, hlt⟩ := h.exists_ranks
  cases hp with
  | @parking us rest hperm =>
    rw [h.keys] at hperm
    rw [writeRanks_eq_map]
    refine h.nodup_of_injOn (r := write us r) (fun a ha => write_congr (hr a ha).symm)
      (fun _ => ⟨rfl, rfl⟩) ?_
    exact injOn_parking h.keys_nodup hinj hlt hperm
  | @final ws us rest hw hperm =>
    rw [h.keys] at hw
    rw [h.ranks, renumber] at hperm
    rw [writeRanks_eq_map, writeRanks_eq_map, List.map_map]
    refine h.nodup_of_injOn (r := write us (write ws r))
      (fun a ha => write_congr (write_congr (hr a ha).symm)) (fun _ => ⟨rfl, rfl⟩) ?_
    exact injOn_final h.keys_nodup hinj hlt h.length_le (fun _ hk => hk) hw hperm

/-- The final ranks of the rows of the chain: their positions. -/
theorem rankRow (h : x.Renumbers account path t chain) {a : WatchAction} {n : ℕ}
    (ha : (a, n) ∈ chain.zipIdx) : x.rankRow a = { a with rank := n } := by
  have hm : a ∈ chain := List.fst_mem_of_mem_zipIdx ha
  have hkey : (a.id, n) ∈ x.ranks := by
    rw [h.ranks, renumber, List.zipIdx_map]
    exact List.mem_map_of_mem (f := Prod.map (·.id) id) ha
  have hn : (x.ranks.map (·.1)).Nodup := h.keys ▸ h.keys_nodup
  have hlookup : x.ranks.lookup a.id = some n := Table.lookup_of_mem hn hkey
  have hacc : a.accountId = x.account := h.account_eq ▸ (mem_chainRows.mp (h.perm.subset hm)).2.1
  rw [ChainWrite.rankRow, if_pos hacc, hlookup, Option.getD_some]

/-- **Where the passes end**: the chain in its order, at dense ranks. -/
theorem listForPath (h : x.Renumbers account path t chain) :
    OpenMagpie.listForPath account path (x.actions t) =
      chain.zipIdx.map fun (a, n) => { a with rank := n } := by
  have hmap : chain.zipIdx.map (fun (a, n) => { a with rank := n }) = chain.map x.rankRow := by
    conv_rhs => rw [← List.zipIdx_map_fst 0 chain, List.map_map]
    exact List.map_congr_left fun ⟨a, n⟩ ha => (h.rankRow ha).symm
  refine listForPath_eq ?_ ?_
  · rw [hmap, show x.actions t = (x.base t).map x.rankRow from rfl,
      chainRows_map _ _ fun a => ⟨by simp, by unfold ChainWrite.rankRow; split_ifs <;> rfl⟩]
    exact h.perm.map _
  · rw [List.pairwise_map, ← List.pairwise_map (f := Prod.snd) (R := (· < ·)), List.zipIdx_map_snd]
    exact List.pairwise_lt_range'

/-- The transaction ends with the chain that it computes, whatever the order of its row updates. -/
theorem actions (h : x.Renumbers account path t chain) {ws us : List (Id × ℕ)}
    (hw : ws.Perm (parked (x.ranks.map (·.1)) (x.offset t))) (hu : us.Perm x.ranks) :
    writeRanks us (writeRanks ws (x.base t)) = x.actions t := by
  rw [writeRanks_eq_map, writeRanks_eq_map, List.map_map]
  refine List.map_congr_left fun a ha => ?_
  rw [h.keys] at hw
  rw [h.ranks, renumber] at hu
  by_cases hm : a.id ∈ chain.map (·.id)
  · obtain ⟨b, hb, hid⟩ := List.mem_map.mp hm
    obtain rfl := List.inj_on_of_nodup_map h.ids (h.mem_base hb) ha hid
    obtain ⟨n, hn⟩ : ∃ n, (b, n) ∈ chain.zipIdx := by
      obtain ⟨n, hlt, rfl⟩ := List.mem_iff_getElem.mp hb
      exact ⟨n, List.mk_mem_zipIdx_iff_getElem?.mpr (List.getElem?_eq_getElem hlt)⟩
    have hkey : (b.id, n) ∈ (chain.map (·.id)).zipIdx := by
      rw [List.zipIdx_map]
      exact List.mem_map_of_mem (f := Prod.map (·.id) id) hn
    have hrank : write us (fun _ => (rewritten ws b).rank) b.id = n :=
      write_final h.keys_nodup hu hkey _
    rw [h.rankRow hn, ← hrank]
    rfl
  · have hwk : a.id ∉ ws.map (·.1) := by rwa [(hw.map _).mem_iff, parked, zipIdx_keys]
    have huk : a.id ∉ us.map (·.1) := by rwa [(hu.map _).mem_iff, zipIdx_keys]
    have hl : x.ranks.lookup a.id = none := by
      refine List.lookup_eq_none_iff.mpr fun u hu' => ?_
      have : u.1 ∈ chain.map (·.id) := h.keys ▸ List.mem_map_of_mem hu'
      simpa using fun he : a.id = u.1 => hm (he ▸ this)
    rw [Function.comp_apply, rewritten, rewritten, write_of_not_mem huk, write_of_not_mem hwk,
      ChainWrite.rankRow, hl, Option.getD_none]
    split_ifs <;> rfl

end ChainWrite.Renumbers

/-- What every row says of its kind and config after a transaction. -/
theorem ChainWrite.forall_actions {Q : String → Json → Prop} {x : ChainWrite} {t : List WatchAction}
    (ht : ∀ a ∈ t, Q a.kind a.config) (hu : ∀ u ∈ x.updated, Q u.2.1 u.2.2)
    (hc : ∀ a ∈ x.created, Q a.kind a.config) : ∀ a ∈ x.actions t, Q a.kind a.config := by
  intro a ha
  obtain ⟨b, hb, rfl⟩ := List.mem_map.mp ha
  rw [x.rankRow_kind, x.rankRow_config]
  rcases List.mem_append.mp hb with hb | hb
  · obtain ⟨a, hold, rfl⟩ := List.mem_map.mp hb
    obtain h | ⟨kind, config, -, hmem, h⟩ := x.updateRow_cases a
    · rw [h]
      exact ht a (List.mem_filter.mp hold).1
    · rw [h]
      exact hu _ hmem
  · exact hc b hb

/-! ## The calls -/

/-- One call on a chain: the ids its new rows get, the rows it is passed, and what is submitted. -/
inductive ChainCall
  | replaceChain (mint : Id → Id) (specs : List WatchActionInput)
  | add (newId : Id) (spec : WatchActionInput) (rank : Option ℤ)
  | remove (action : WatchAction)
  | setConfig (action : WatchAction) (spec : WatchActionInput)

/-- New ids are new, and a row that is passed in is one of this path, if it is still stored. -/
def ChainCall.Ok (account path : Id) (t : List WatchAction) : ChainCall → Prop
  | .replaceChain mint _ => Function.Injective mint ∧ ∀ i, ∀ a ∈ t, a.id ≠ mint i
  | .add newId _ _ => ∀ a ∈ t, a.id ≠ newId
  | .remove action | .setConfig action _ =>
    action.accountId = account ∧ ∀ a ∈ t, a.id = action.id → a.accountId = account ∧ a.pathId = path

variable {C : Type} (R : Registry C)

/-- The transaction of a call. -/
def ChainCall.run (account path : Id) (t : List WatchAction) : ChainCall → Except ChainError ChainWrite
  | .replaceChain mint specs =>
    OpenMagpie.replaceChain R mint account path (listForPath account path t) specs
  | .add newId spec rank => OpenMagpie.add R newId account path spec rank t
  | .remove action => .ok (OpenMagpie.remove account path action.id t)
  | .setConfig action spec => OpenMagpie.setConfig R action spec

/-- The table after a call; a call that raises leaves it. -/
def ChainCall.apply (account path : Id) (t : List WatchAction) (c : ChainCall) : List WatchAction :=
  match c.run R account path t with
  | .ok x => x.actions t
  | .error _ => t

/-- The tables that calls lead to from a path without actions. -/
inductive ChainReach (account path : Id) : List WatchAction → Prop
  | empty {t : List WatchAction} (hids : (t.map (·.id)).Nodup)
      (h : ∀ a ∈ t, ¬ (a.accountId = account ∧ a.pathId = path)) : ChainReach account path t
  | call {t : List WatchAction} (h : ChainReach account path t) (c : ChainCall)
      (hc : c.Ok account path t) : ChainReach account path (c.apply R account path t)

/-- Ids are unique, and the ranks of the chain are `0, …, n - 1`. -/
structure ChainOk (account path : Id) (t : List WatchAction) : Prop where
  ids : (t.map (·.id)).Nodup
  dense : (listForPath account path t).map (·.rank) =
    List.range (listForPath account path t).length

/-- What a rank says nothing about: id, kind and config. -/
def WatchAction.node (a : WatchAction) : Id × String × Json := (a.id, a.kind, a.config)

/-- The chain as the client sees it. -/
def chainOf (account path : Id) (t : List WatchAction) : List (Id × String × Json) :=
  (listForPath account path t).map WatchAction.node

/-- Where `add` inserts. -/
def insertAt (rank : Option ℤ) (n : ℕ) : ℕ :=
  match rank with
  | none => n
  | some k => (max 0 (min k n)).toNat

/-- The order and the contents that a call asks for; the nodes that it does not mention stay. -/
def ChainCall.Requested (chain chain' : List (Id × String × Json)) : ChainCall → Prop
  | .replaceChain _ specs => List.Forall₂ (fun spec n => n.2.1 = spec.kind ∧
      ((spec.id = some n.1 ∧ n.1 ∈ chain.map (·.1)) ∨ (spec.id = none ∧ n.1 ∉ chain.map (·.1))))
      specs chain'
  | .add newId spec rank => ∃ config,
      chain' = chain.insertIdx (insertAt rank chain.length) (newId, spec.kind, config)
  | .remove action => chain' = chain.filter fun n => decide (n.1 ≠ action.id)
  | .setConfig action spec => ∃ config,
      chain' = chain.map fun n => if n.1 = action.id then (n.1, spec.kind, config) else n

variable {R} {account path : Id} {t chain : List WatchAction} {x : ChainWrite}

theorem ChainOk.nodup (h : ChainOk account path t) :
    ((listForPath account path t).map (·.rank)).Nodup := by
  rw [h.dense]
  exact List.nodup_range

theorem ChainOk.lt_length (h : ChainOk account path t) {a : WatchAction}
    (ha : a ∈ listForPath account path t) : a.rank < (listForPath account path t).length := by
  have hm : a.rank ∈ (listForPath account path t).map (·.rank) := List.mem_map_of_mem ha
  rwa [h.dense, List.mem_range] at hm

theorem ids_actions : (x.actions t).map (·.id) = (x.base t).map (·.id) := by
  rw [show x.actions t = (x.base t).map x.rankRow from rfl, List.map_map]
  exact List.map_congr_left fun a _ => by simp

/-- **What `_renumber` restores.** -/
theorem ChainWrite.Renumbers.chainOk (h : x.Renumbers account path t chain) :
    ChainOk account path (x.actions t) ∧
      chainOf account path (x.actions t) = chain.map WatchAction.node := by
  refine ⟨⟨ids_actions ▸ h.ids, ?_⟩, ?_⟩
  · rw [h.listForPath, List.map_map, List.length_map, List.length_zipIdx,
      List.range_eq_range', ← List.zipIdx_map_snd 0 chain]
    rfl
  · rw [chainOf, h.listForPath, List.map_map]
    conv_rhs => rw [← List.zipIdx_map_fst 0 chain, List.map_map]
    rfl

/-- A transaction that deletes no row keeps every row. -/
theorem filter_keeps (hd : x.deleted = []) : (t.filter fun a => decide (x.Keeps a)) = t :=
  List.filter_eq_self.mpr fun a _ => by simp [ChainWrite.Keeps, hd]

/-- The base of a transaction that deletes and creates no row. -/
theorem base_of_updated (hd : x.deleted = []) (hc : x.created = []) :
    x.base t = t.map x.updateRow := by
  rw [ChainWrite.base, filter_keeps hd, hc, List.append_nil]

/-- The base of a transaction that deletes and updates no row. -/
theorem base_of_created (hd : x.deleted = []) (hu : x.updated = []) : x.base t = t ++ x.created := by
  have hmap : t.map x.updateRow = t := by
    conv_rhs => rw [← List.map_id t]
    exact List.map_congr_left fun a _ => by simp [ChainWrite.updateRow, hu]
  rw [ChainWrite.base, filter_keeps hd, hmap]

/-- `add` inserts its row where it says. -/
theorem add_renumbers (h : ChainOk account path t) {newId : Id} {spec : WatchActionInput}
    {rank : Option ℤ} (hnew : ∀ a ∈ t, a.id ≠ newId)
    (hx : add R newId account path spec rank t = .ok x) : ∃ config,
      x.Renumbers account path t ((listForPath account path t).insertIdx
        (insertAt rank (listForPath account path t).length)
        ⟨newId, account, path, spec.kind, config, (listForPath account path t).length + 1⟩) := by
  obtain ⟨config, -, hx⟩ := Except.bind_eq_ok.mp hx
  obtain rfl := Except.pure_eq_ok.mp hx
  have hle : insertAt rank (listForPath account path t).length ≤
      (listForPath account path t).length := by
    cases rank with
    | none => exact Nat.le_refl _
    | some n =>
      simp only [insertAt]
      omega
  refine ⟨R.modelDump config, rfl, ?_, ?_, ?_, ?_⟩
  · show renumber _ = renumber _
    rw [List.map_insertIdx, List.length_map]
    cases rank <;> rfl
  · refine (List.perm_insertIdx _ _ hle).trans ?_
    rw [base_of_created rfl rfl, chainRows, List.filter_append]
    refine (List.perm_append_singleton _ _).symm.trans ?_
    refine ((perm_listForPath account path t).append_right _).trans ?_
    rw [chainRows, List.length_map]
    simp
  · rw [base_of_created rfl rfl, List.map_append, List.nodup_append]
    refine ⟨h.ids, by simp, ?_⟩
    rintro _ hi _ hj rfl
    obtain ⟨a, ha, rfl⟩ := List.mem_map.mp hi
    exact hnew a ha (by simpa using hj)
  · rw [((List.perm_insertIdx _ _ hle).map _).nodup_iff, List.map_cons, List.nodup_cons]
    refine ⟨fun hm => ?_, h.nodup⟩
    obtain ⟨a, ha, he⟩ := List.mem_map.mp hm
    have hlt := h.lt_length ha
    have hrank : a.rank = (listForPath account path t).length + 1 := he
    omega

/-- `remove` leaves the other rows. -/
theorem remove_renumbers (h : ChainOk account path t) {action : WatchAction}
    (ha : ∀ a ∈ t, a.id = action.id → a.accountId = account ∧ a.pathId = path) :
    (remove account path action.id t).Renumbers account path t
      ((listForPath account path t).filter fun a => decide (a.id ≠ action.id)) := by
  have hbase : (remove account path action.id t).base t =
      t.filter fun a => decide (a.id ≠ action.id) := by
    have hmap : ∀ l : List WatchAction, l.map (remove account path action.id t).updateRow = l := by
      intro l
      conv_rhs => rw [← List.map_id l]
      exact List.map_congr_left fun a _ => by simp [ChainWrite.updateRow, remove]
    rw [ChainWrite.base, hmap, show (remove account path action.id t).created = [] from rfl,
      List.append_nil]
    refine List.filter_congr fun a hm => ?_
    rw [decide_eq_decide, ChainWrite.Keeps]
    simp only [remove, List.mem_singleton]
    exact ⟨fun hk he => hk ⟨(ha a hm he).1, he⟩, fun hne hk => hne hk.2⟩
  refine ⟨rfl, rfl, ?_, ?_, ?_⟩
  · rw [hbase, chainRows, List.filter_comm]
    exact (perm_listForPath account path t).filter _
  · rw [hbase]
    exact (List.filter_sublist.map _).nodup h.ids
  · exact (List.filter_sublist.map _).nodup h.nodup

/-! ## Updates in place -/

theorem updateRow_frame (x : ChainWrite) (a : WatchAction) : (x.updateRow a).accountId = a.accountId ∧
    (x.updateRow a).pathId = a.pathId ∧ (x.updateRow a).rank = a.rank := by
  obtain h | ⟨_, _, -, -, h⟩ := x.updateRow_cases a <;> rw [h] <;> exact ⟨rfl, rfl, rfl⟩

theorem map_rank_updateRow (x : ChainWrite) (l : List WatchAction) :
    (l.map x.updateRow).map (·.rank) = l.map (·.rank) := by
  rw [List.map_map]
  exact List.map_congr_left fun a _ => (updateRow_frame x a).2.2

/-- Rows that are updated in place keep their order. -/
theorem ChainOk.map_listForPath (h : ChainOk account path t) {f : WatchAction → WatchAction}
    (hf : ∀ a, (f a).accountId = a.accountId ∧ (f a).pathId = a.pathId ∧ (f a).rank = a.rank) :
    listForPath account path (t.map f) = (listForPath account path t).map f := by
  refine listForPath_eq ?_ ?_
  · rw [chainRows_map _ _ fun a => ⟨(hf a).1, (hf a).2.1⟩]
    exact (perm_listForPath account path t).map _
  · have hlt : ((listForPath account path t).map (·.rank)).Pairwise (· < ·) := by
      rw [h.dense]
      exact List.pairwise_lt_range
    rw [List.pairwise_map] at hlt ⊢
    exact hlt.imp fun {a b} hab => by rwa [(hf a).2.2, (hf b).2.2]

/-- `set_config` updates one row in place and renumbers nothing. -/
theorem setConfig_base {action : WatchAction} {spec : WatchActionInput}
    (hx : setConfig R action spec = .ok x) : ∃ config, x = { x with
      account := action.accountId
      deleted := []
      updated := [(action.id, spec.kind, config)]
      created := []
      ranks := [] } := by
  obtain ⟨_, -, hx⟩ := Except.bind_eq_ok.mp hx
  obtain ⟨merged, -, hx⟩ := Except.bind_eq_ok.mp hx
  obtain rfl := Except.pure_eq_ok.mp hx
  exact ⟨R.modelDump merged, rfl⟩

/-- **What `set_config` does to the chain.** -/
theorem setConfig_chain (h : ChainOk account path t) {action : WatchAction}
    {spec : WatchActionInput} (hacc : action.accountId = account)
    (hx : setConfig R action spec = .ok x) :
    ChainOk account path (x.actions t) ∧
      (∃ config, chainOf account path (x.actions t) = (chainOf account path t).map fun n =>
        if n.1 = action.id then (n.1, spec.kind, config) else n) ∧
      (∀ t', x.Passes t t' → ((chainRows account path t').map (·.rank)).Nodup) ∧
      ∀ ws us : List (Id × ℕ), ws.Perm (parked (x.ranks.map (·.1)) (x.offset t)) →
        us.Perm x.ranks → writeRanks us (writeRanks ws (x.base t)) = x.actions t := by
  obtain ⟨config, he⟩ := setConfig_base hx
  have hdel : x.deleted = [] := by rw [he]
  have hcre : x.created = [] := by rw [he]
  have hranks : x.ranks = [] := by rw [he]
  have hupd : x.updated = [(action.id, spec.kind, config)] := by rw [he]
  have hacc : x.account = account := by rw [he, hacc]
  have hbase : x.base t = t.map x.updateRow := base_of_updated hdel hcre
  have hact : x.actions t = t.map x.updateRow := by
    rw [show x.actions t = (x.base t).map x.rankRow from rfl, hbase, List.map_map]
    refine List.map_congr_left fun a _ => ?_
    rw [Function.comp_apply, ChainWrite.rankRow, hranks]
    split_ifs <;> rfl
  have hlist := h.map_listForPath (updateRow_frame x)
  refine ⟨⟨?_, ?_⟩, ⟨config, ?_⟩, ?_, fun ws us hw hu => ?_⟩
  · rw [hact, x.map_id_updateRow]
    exact h.ids
  · rw [hact, hlist, map_rank_updateRow, List.length_map, ← h.dense]
  · rw [hact, chainOf, chainOf, hlist, List.map_map, List.map_map]
    refine List.map_congr_left fun a ha => ?_
    have hin : a.accountId = x.account := (mem_listForPath.mp ha).2.1.trans hacc.symm
    rw [Function.comp_apply, Function.comp_apply, ChainWrite.updateRow, if_pos hin, hupd]
    by_cases hid : a.id = action.id
    · simp [WatchAction.node, List.lookup, hid]
    · have hb : (a.id == action.id) = false := by simpa using hid
      simp [WatchAction.node, List.lookup, hid, hb]
  · have hnodup : ((chainRows account path (x.base t)).map (·.rank)).Nodup := by
      rw [hbase, ← ((perm_listForPath account path _).map _).nodup_iff, hlist, map_rank_updateRow]
      exact h.nodup
    intro t' hp
    cases hp with
    | @parking us rest hperm =>
      rw [hranks] at hperm
      obtain ⟨rfl, -⟩ := List.append_eq_nil_iff.mp hperm.eq_nil
      exact hnodup
    | @final ws us rest hw hperm =>
      rw [hranks] at hw hperm
      obtain ⟨rfl, -⟩ := List.append_eq_nil_iff.mp hperm.eq_nil
      obtain rfl := hw.eq_nil
      exact hnodup
  · rw [hranks] at hw hu
    obtain rfl := hw.eq_nil
    obtain rfl := hu.eq_nil
    exact hbase.trans hact.symm

end OpenMagpie
