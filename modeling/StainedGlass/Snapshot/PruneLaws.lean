import StainedGlass.Lib.StableSort
import StainedGlass.Snapshot.Prune

namespace StainedGlass.Snapshot

def storeIds (points : List Point) : List Sid :=
  (points.filter fun s => s.2.source = some "store").map Prod.fst

def updateIds (points : List Point) : List Sid :=
  (points.filter fun s => s.2.source ≠ some "store").map Prod.fst

theorem pool_eq_store (info : Info) : pool info = .store ↔ info.source = some "store" := by
  simp [pool]

theorem pool_eq_update (info : Info) : pool info = .update ↔ info.source ≠ some "store" := by
  simp [pool]

theorem poolIds_store (points : List Point) : poolIds .store points = storeIds points := by
  simp [poolIds, storeIds, pool_eq_store]

theorem poolIds_update (points : List Point) : poolIds .update points = updateIds points := by
  simp [poolIds, updateIds, pool_eq_update]

def spare (keepIds : List Sid) (limit : Int) (ids : List Sid) : List Sid :=
  (ids.filter (fun sid => sid ∉ keepIds)).take (ids.length - limit).toNat

theorem surplusLoop_eq (keepIds : List Sid) (extra : Int) (mine : List Sid) :
    surplusLoop keepIds extra mine =
      (mine.filter (fun sid => sid ∉ keepIds)).take extra.toNat := by
  induction mine generalizing extra with
  | nil => simp [surplusLoop]
  | cons sid mine ih =>
    rw [surplusLoop]
    by_cases hextra : extra ≤ 0
    · simp [hextra, Int.toNat_of_nonpos hextra]
    · by_cases hkeep : sid ∈ keepIds
      · simp [hextra, hkeep, ih]
      · obtain ⟨n, rfl⟩ : ∃ n : Nat, extra = n + 1 := ⟨(extra - 1).toNat, by omega⟩
        have hn : ((n : Int) + 1).toNat = n + 1 := by omega
        simp [hextra, hkeep, ih, hn]

theorem surplus_eq (cfg : Settings) (snaps : List Point) (keepIds : List Sid) :
    surplus cfg snaps keepIds =
      spare keepIds cfg.keep (updateIds snaps) ++ spare keepIds cfg.keepStore (storeIds snaps) := by
  simp [surplus, surplusLoop_eq, spare, Settings.limit, poolIds_store, poolIds_update]

variable {keepIds : List Sid} {sid : Sid}

theorem mem_spare {limit : Int} {ids : List Sid}
    (h : sid ∈ spare keepIds limit ids) : sid ∈ ids ∧ sid ∉ keepIds := by
  have := List.mem_of_mem_take h
  simpa using this

variable (d : Drive)

theorem nodup_points : (((d.entries.filter Entry.isPoint).map Entry.toPoint).map Prod.fst).Nodup := by
  have h : ((d.entries.filter Entry.isPoint).map Entry.name).Nodup :=
    d.nodup.sublist (List.filter_sublist.map _)
  simpa [Function.comp_def, Entry.toPoint] using h

theorem snapshots_perm : (snapshots d).Perm ((d.entries.filter Entry.isPoint).map Entry.toPoint) :=
  List.mergeSort_perm _ _

theorem nodup_snapshots : ((snapshots d).map Prod.fst).Nodup :=
  ((snapshots_perm d).map Prod.fst).nodup_iff.mpr (nodup_points d)

theorem sorted_snapshots : (snapshots d).Pairwise (fun a b => a.1 ≤ b.1) := by
  have h := @List.pairwise_mergeSort Point (fun a b => decide (a.1 ≤ b.1))
    (fun a b c hab hbc => by simpa using le_trans (by simpa using hab) (by simpa using hbc))
    (fun a b => by simpa using le_total a.1 b.1)
    ((d.entries.filter Entry.isPoint).map Entry.toPoint)
  exact h.imp (fun hab => by simpa using hab)

theorem eq_of_fst_eq {l : List Point} (hl : (l.map Prod.fst).Nodup) {a b : Point}
    (ha : a ∈ l) (hb : b ∈ l) (h : a.1 = b.1) : a = b :=
  List.inj_on_of_nodup_map hl ha hb h

@[simp] theorem snapshots_deleteSnapshot (sid : Sid) :
    snapshots (deleteSnapshot d sid) = (snapshots d).filter (fun s => s.1 != sid) := by
  have hperm : (snapshots (deleteSnapshot d sid)).Perm
      ((snapshots d).filter (fun s => s.1 != sid)) := by
    refine (snapshots_perm _).trans (.trans ?_ ((snapshots_perm d).filter _).symm)
    rw [deleteSnapshot, List.filter_map, List.filter_filter, List.filter_filter]
    apply List.Perm.of_eq
    congr 1
    apply List.filter_congr
    intro e _
    exact Bool.and_comm _ _
  refine hperm.eq_of_pairwise ?_ (sorted_snapshots _) ((sorted_snapshots d).filter _)
  intro a b ha hb hab hba
  have ha' := hperm.mem_iff.mp ha
  exact eq_of_fst_eq (nodup_snapshots d) (List.mem_of_mem_filter ha')
    (List.mem_of_mem_filter hb) (le_antisymm hab hba)

theorem snapshots_deleteAll (sids : List Sid) :
    snapshots (deleteAll d sids) = (snapshots d).filter (fun s => s.1 ∉ sids) := by
  induction sids generalizing d with
  | nil => simp [deleteAll]
  | cons sid sids ih =>
    have h := ih (deleteSnapshot d sid)
    rw [deleteAll] at h ⊢
    rw [List.foldl_cons, h, snapshots_deleteSnapshot, List.filter_filter]
    apply List.filter_congr
    intro s _
    by_cases h : s.1 = sid <;> simp [h]

def Protected (keepIds : List Sid) (left : List Point) (sid : Sid) : Prop :=
  sid ∈ keepIds ∨ keepIds = [] ∧ left.getLast?.map Prod.fst = some sid

instance (keepIds : List Sid) (left : List Point) (sid : Sid) :
    Decidable (Protected keepIds left sid) := inferInstanceAs (Decidable (_ ∨ _))

theorem mem_protect_iff {s : Point} (hs : s ∈ left) : s.1 ∈ protect keepIds left ↔ Protected keepIds left s.1 := by
  cases hlast : left.getLast? with
  | none => simp [List.getLast?_eq_none_iff.mp hlast] at hs
  | some newest =>
    by_cases hk : keepIds = []
    · simp [protect, Protected, hlast, hk, eq_comm]
    · simp [protect, Protected, hlast, hk]

theorem spaceOrder_eq (keepIds : List Sid) (left : List Point) :
    (spaceOrder keepIds left).map Prod.fst =
      storeIds (left.filter (fun s => ¬ Protected keepIds left s.1)) ++
        updateIds (left.filter (fun s => ¬ Protected keepIds left s.1)) := by
  have hleft : left.filter (fun s => s.1 ∉ protect keepIds left) =
      left.filter (fun s => ¬ Protected keepIds left s.1) := by
    apply List.filter_congr
    intro s hs
    simp [mem_protect_iff hs]
  have hkey := Lib.mergeSort_key (fun s : Point => pool s.2 = .store)
    (left.filter (fun s => ¬ Protected keepIds left s.1))
  rw [spaceOrder, hleft]
  simp only [decide_eq_true_eq] at hkey
  rw [hkey, List.map_append]
  simp only [storeIds, updateIds, pool_eq_store, ne_eq, decide_not]

theorem spaceLoop_spec (short : Nat → Bool) (k : Nat) (d : Drive) (snaps : List Point) :
    ∃ n ≤ snaps.length, (∀ j < n, short (k + j)) ∧ (n < snaps.length → short (k + n) = false) ∧
      (spaceLoop short k d snaps).deleted = (snaps.map Prod.fst).take n ∧
      (spaceLoop short k d snaps).drive =
        deleteAll d ((snaps.map Prod.fst).take n) := by
  induction snaps generalizing k d with
  | nil => exact ⟨0, le_rfl, by simp, by simp, by simp [spaceLoop], by simp [spaceLoop, deleteAll]⟩
  | cons s snaps ih =>
    cases hshort : short k with
    | false =>
      refine ⟨0, Nat.zero_le _, by simp, fun _ => hshort, ?_, ?_⟩ <;>
        simp [spaceLoop, hshort, deleteAll]
    | true =>
      obtain ⟨n, hn, hbefore, hstop, hdel, hdrive⟩ := ih (k + 1) (deleteSnapshot d s.1)
      refine ⟨n + 1, by simpa using hn, ?_, ?_, ?_, ?_⟩
      · intro j hj
        cases j with
        | zero => exact hshort
        | succ j => simpa [Nat.add_assoc, Nat.add_comm 1] using hbefore j (by omega)
      · intro hlt
        simpa [Nat.add_assoc, Nat.add_comm 1] using hstop (by simpa using hlt)
      · simp [spaceLoop, hshort, hdel]
      · simp [spaceLoop, hshort, hdrive, deleteAll]

theorem mem_storeIds {points : List Point} :
    sid ∈ storeIds points ↔ ∃ s ∈ points, s.2.source = some "store" ∧ s.1 = sid := by
  simp [storeIds, and_assoc]

theorem deleteAll_append (a b : List Sid) : deleteAll d (a ++ b) = deleteAll (deleteAll d a) b := by
  simp [deleteAll]

theorem notMem_keepIds_of_mem_surplus (h : sid ∈ surplus cfg snaps keepIds) : sid ∉ keepIds := by
  rw [surplus_eq, List.mem_append] at h
  obtain h | h := h
  · exact (mem_spare h).2
  · exact (mem_spare h).2

theorem notMem_keepIds_of_mem_spaceOrder {s : Point} (h : s ∈ spaceOrder keepIds left) : s.1 ∉ keepIds := by
  rw [spaceOrder, List.mem_mergeSort, List.mem_filter, decide_eq_true_eq] at h
  intro hkeep
  exact h.2 ((mem_protect_iff h.1).mpr (.inl hkeep))

theorem notMem_keepIds_of_mem_deleted {cfg : Settings} {d : Drive}
    {r : Readings} (h : sid ∈ (prune cfg d keepIds r).deleted) : sid ∉ keepIds := by
  rw [prune, List.mem_append] at h
  obtain h | h := h
  · exact notMem_keepIds_of_mem_surplus h
  · obtain ⟨n, -, -, -, hdel, -⟩ := spaceLoop_spec (r.short cfg) 0
      (deleteAll d (surplus cfg (snapshots d) keepIds))
      (spaceOrder keepIds (snapshots (deleteAll d (surplus cfg (snapshots d) keepIds))))
    rw [hdel] at h
    obtain ⟨s, hs, rfl⟩ := List.mem_map.mp (List.mem_of_mem_take h)
    exact notMem_keepIds_of_mem_spaceOrder hs

end StainedGlass.Snapshot
