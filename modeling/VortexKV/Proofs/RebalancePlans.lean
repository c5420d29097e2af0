import VortexKV.Rebalance

/-!
# Rebalance plans
-/

namespace VortexKV

namespace Rebalance

open List

variable {m r : MasterNodeInfo} {ms masters : List MasterNodeInfo} {ds : List (MasterNodeInfo × List Nat)} {n : Nat} {cur tgt : Bytes → Nat}

/-! ### The moves as a pairing -/

/-- The slots on offer, each with its donor, in the order in which they go. -/
def pool (ds : List (MasterNodeInfo × List Nat)) : List (MasterNodeInfo × Nat) := ds.flatMap fun (d, avail) => avail.map (d, ·)

/-- The receivers, each as often as it needs a slot. -/
def needs (rs : List (MasterNodeInfo × Nat)) : List MasterNodeInfo := rs.flatMap fun (r, needed) => replicate needed r

theorem serve_eq (r : MasterNodeInfo) (n : Nat) (ds : List (MasterNodeInfo × List Nat)) :
    (serve r n ds).1 = ((pool ds).take n).map (fun p => slotMove p.1 r p.2) ∧ pool (serve r n ds).2 = (pool ds).drop n := by
  induction ds generalizing n with
  | nil => simp [serve, pool]
  | cons d ds ih =>
    obtain ⟨d, avail⟩ := d
    have hp : pool ((d, avail) :: ds) = avail.map (d, ·) ++ pool ds := rfl
    rw [serve, hp]
    split
    · subst n
      simp [hp]
    · dsimp only
      split
      next h =>
        have hle : avail.length ≤ n := by simpa using drop_eq_nil_iff.mp h
        simp [ih, take_append, drop_append, hle, Function.comp_def]
      next h =>
        have hlt : n < avail.length := by simpa using h
        simp [take_append, drop_append, hlt.le, Function.comp_def, pool, Nat.sub_eq_zero_of_le hlt.le]

theorem zipWith_replicate_append {α β γ : Type} (f : α → β → γ) (n : Nat) (b : β) (l : List α) (bs : List β) :
    zipWith f l (replicate n b ++ bs) = (l.take n).map (f · b) ++ zipWith f (l.drop n) bs := by
  induction n generalizing l with
  | zero => simp
  | succ n ih => cases l <;> simp [replicate_succ, ih]

theorem serveAll_eq (rs : List (MasterNodeInfo × Nat)) (ds : List (MasterNodeInfo × List Nat)) :
    serveAll rs ds = zipWith (fun p r => slotMove p.1 r p.2) (pool ds) (needs rs) := by
  induction rs generalizing ds with
  | nil => simp [serveAll, needs]
  | cons r rs ih =>
    obtain ⟨r, needed⟩ := r
    obtain ⟨hm, hr⟩ := serve_eq r needed ds
    have hn : needs ((r, needed) :: rs) = replicate needed r ++ needs rs := rfl
    rw [serveAll, ih, hm, hr, hn, zipWith_replicate_append]

/-- What each master gives, by its own target. -/
theorem pool_donors (hc : ∀ m ∈ ms, cur m.id = m.slots.length) :
    pool (donors cur tgt ms) = ms.flatMap fun m => (m.slots.drop (tgt m.id)).map (m, ·) := by
  rw [pool, donors, filterMap_eq_flatMap_toList, flatMap_assoc]
  refine flatMap_congr fun m hm => ?_
  rw [hc m hm]
  split
  next h => simp [show m.slots.length - (m.slots.length - tgt m.id) = tgt m.id by omega]
  next h => simp [drop_eq_nil_iff.mpr (not_lt.mp h)]

theorem needs_receivers (hc : ∀ m ∈ ms, cur m.id = m.slots.length) :
    needs (receivers cur tgt ms) = ms.flatMap fun m => replicate (tgt m.id - m.slots.length) m := by
  rw [needs, receivers, filterMap_eq_flatMap_toList, flatMap_assoc]
  refine flatMap_congr fun m hm => ?_
  rw [hc m hm]
  split
  · simp
  next h => simp [Nat.sub_eq_zero_of_le (not_lt.mp h)]

/-- The lists `pool` and `needs` of `transfers` have one length if the targets add up to the slots. -/
theorem length_pool_eq (hsu : (ms.map fun m => tgt m.id).sum = (ms.map fun m => m.slots.length).sum) :
    (ms.flatMap fun m => (m.slots.drop (tgt m.id)).map (m, ·)).length = (ms.flatMap fun m => replicate (tgt m.id - m.slots.length) m).length := by
  simp only [length_flatMap, length_map, length_drop, length_replicate]
  have hs : (ms.map fun m => m.slots.length - tgt m.id).sum + (ms.map fun m => tgt m.id).sum =
      (ms.map fun m => tgt m.id - m.slots.length).sum + (ms.map fun m => m.slots.length).sum := by
    rw [← sum_map_add, ← sum_map_add]
    congr 1
    exact map_congr_left fun m _ => by omega
  omega

structure Settles (cur tgt : Bytes → Nat) (ms : List MasterNodeInfo) : Prop where
  ids : (ms.map (·.id)).Nodup
  cur_eq : ∀ m ∈ ms, cur m.id = m.slots.length
  sum_eq : (ms.map fun m => tgt m.id).sum = (ms.map fun m => m.slots.length).sum

theorem Settles.transfers_eq (h : Settles cur tgt ms) : transfers cur tgt ms = ((ms.flatMap fun m => (m.slots.drop (tgt m.id)).map (m, ·)).zip
    (ms.flatMap fun m => replicate (tgt m.id - m.slots.length) m)).map fun x => slotMove x.1.1 x.2 x.1.2 := by
  rw [transfers, serveAll_eq, pool_donors h.cur_eq, needs_receivers h.cur_eq, map_zip_eq_zipWith]
  rfl

theorem Settles.given (h : Settles cur tgt ms) : (transfers cur tgt ms).map (fun mv => (mv.fromNodeID, mv.slot)) =
    ms.flatMap fun m => (m.slots.drop (tgt m.id)).map (m.id, ·) := by
  have hf := congrArg (map fun p : MasterNodeInfo × Nat => (p.1.id, p.2)) (map_fst_zip (length_pool_eq h.sum_eq).le)
  rw [map_map] at hf
  rw [h.transfers_eq, map_map]
  exact hf.trans (by simp [map_flatMap, Function.comp_def])

theorem Settles.taken (h : Settles cur tgt ms) : (transfers cur tgt ms).map (fun mv => (mv.toNodeID, ())) =
    ms.flatMap fun m => (replicate (tgt m.id - m.slots.length) ()).map (m.id, ·) := by
  have hs := congrArg (map fun r : MasterNodeInfo => (r.id, ())) (map_snd_zip (length_pool_eq h.sum_eq).ge)
  rw [map_map] at hs
  rw [h.transfers_eq, map_map]
  exact hs.trans (by simp [map_flatMap])

theorem filter_flatMap_id {α : Type} (hi : (ms.map (·.id)).Nodup) (hm : m ∈ ms) (f : MasterNodeInfo → List α) :
    ((ms.flatMap fun m => (f m).map (m.id, ·)).filter (·.1 = m.id)).map Prod.snd = f m := by
  have hs : ∀ k : Bytes, ((f m).map (k, ·)).filter (·.1 = k) = (f m).map (k, ·) := fun k => by simp [filter_map, Function.comp_def]
  have ho : ∀ x : MasterNodeInfo, x.id ≠ m.id → ((f x).map (x.id, ·)).filter (·.1 = m.id) = [] := fun x hx => by simp [hx]
  induction ms with
  | nil => cases hm
  | cons x ms ih =>
    rw [map_cons, nodup_cons] at hi
    rw [flatMap_cons, filter_append, map_append]
    obtain rfl | hm := mem_cons.mp hm
    · have hr : (ms.flatMap fun x => (f x).map (x.id, ·)).filter (·.1 = m.id) = [] := by
        rw [filter_flatMap, flatMap_eq_nil_iff]
        exact fun x hx => ho x fun he => hi.1 (he ▸ mem_map_of_mem hx)
      simp [hr, hs]
    · rw [ho x fun he => hi.1 (he ▸ mem_map_of_mem hm), ih hi.2 hm]
      rfl

def applyMoves (moves : List SlotMove) (m : MasterNodeInfo) : MasterNodeInfo :=
  { m with slots := m.slots.filter (· ∉ (moves.filter (·.fromNodeID = m.id)).map (·.slot)) ++
      (moves.filter (·.toNodeID = m.id)).map (·.slot) }

theorem Settles.slots_given (h : Settles cur tgt ms) (hm : m ∈ ms) :
    ((transfers cur tgt ms).filter (·.fromNodeID = m.id)).map (·.slot) = m.slots.drop (tgt m.id) := by
  rw [← filter_flatMap_id h.ids hm fun m => m.slots.drop (tgt m.id), ← h.given, filter_map, map_map]
  rfl

theorem Settles.length_taken (h : Settles cur tgt ms) (hm : m ∈ ms) :
    ((transfers cur tgt ms).filter (·.toNodeID = m.id)).length = tgt m.id - m.slots.length := by
  have := filter_flatMap_id h.ids hm fun m => replicate (tgt m.id - m.slots.length) ()
  rw [← h.taken, filter_map, map_map] at this
  simpa [Function.comp_def] using congrArg length this

theorem Settles.length_applyMoves (h : Settles cur tgt ms) (hm : m ∈ ms) (hs : m.slots.Nodup) :
    (applyMoves (transfers cur tgt ms) m).slots.length = tgt m.id := by
  have hk : ∀ a b : List Nat, (a ++ b).Nodup → (a ++ b).filter (· ∉ b) = a := fun a b hab => by
    have hd := disjoint_of_nodup_append hab
    rw [filter_append, filter_eq_self.mpr (by simpa using fun x hx => hd hx), filter_eq_nil_iff.mpr (by simp), append_nil]
  replace hk := hk (m.slots.take (tgt m.id)) (m.slots.drop (tgt m.id)) (by rwa [take_append_drop])
  rw [take_append_drop] at hk
  simp only [applyMoves, length_append, length_map, h.length_taken hm, h.slots_given hm, hk, length_take]
  omega

/-! ### Counts -/

theorem lookup_recount (moves : List SlotMove) (c : GoMap Int) (k : Bytes) : ((moves.foldl recount c).lookup k).getD 0 =
    (c.lookup k).getD 0 - (moves.filter (·.fromNodeID = k)).length + (moves.filter (·.toNodeID = k)).length := by
  have hi : ∀ (c : GoMap Int) (a k : Bytes) (v : Int), ((c.insert a v).lookup k).getD 0 = if a = k then v else (c.lookup k).getD 0 := by
    intro c a k v
    split
    next h => simp [h]
    next h => rw [Finmap.lookup_insert_of_ne _ (Ne.symm h)]
  induction moves generalizing c with
  | nil => simp
  | cons mv moves ih =>
    have hstep : ((recount c mv).lookup k).getD 0 =
        (c.lookup k).getD 0 - (if mv.fromNodeID = k then 1 else 0) + if mv.toNodeID = k then 1 else 0 := by
      simp only [recount, hi]
      grind
    rw [foldl_cons, ih, hstep, filter_cons, filter_cons]
    split_ifs <;> simp_all <;> omega

section

variable {β : Type} (f : MasterNodeInfo → Nat → β) (i : Nat) (c : GoMap β)

theorem lookup_countMap_of_notMem {k : Bytes} (hk : k ∉ ms.map (·.id)) : (countMap f i ms c).lookup k = c.lookup k := by
  induction ms generalizing i c with
  | nil => rfl
  | cons m ms ih =>
    simp only [map_cons, mem_cons, not_or] at hk
    rw [countMap, ih _ _ hk.2, Finmap.lookup_insert_of_ne _ hk.1]

theorem map_countMap (hi : (ms.map (·.id)).Nodup) :
    ms.map (fun m => (countMap f i ms c).lookup m.id) = ms.mapIdx fun j m => some (f m (i + j)) := by
  induction ms generalizing i c with
  | nil => rfl
  | cons m ms ih =>
    rw [map_cons, nodup_cons] at hi
    simp only [map_cons, countMap, mapIdx_cons, ih _ _ hi.2, lookup_countMap_of_notMem f _ _ hi.1, Finmap.lookup_insert]
    simp [Nat.add_assoc, Nat.add_comm 1]

theorem lookup_countMap (hi : (ms.map (·.id)).Nodup) (g : MasterNodeInfo → β) (hm : m ∈ ms) :
    (countMap (fun m _ => g m) i ms c).lookup m.id = some (g m) := by
  have h := map_countMap (fun m _ => g m) i c hi
  rw [show (ms.mapIdx fun _ m => some (g m)) = ms.map fun m => some (g m) by simp [mapIdx_eq_zipIdx_map, ← map_map, ← Function.comp_def]] at h
  exact map_inj_left.mp h m hm

end

theorem sum_share {n : Nat} (hn : 0 < n) : ((range n).map (share n)).sum = 16384 := by
  have hp : ∀ k, ((range k).map (share n)).sum = k * (16384 / n) + min k (16384 % n) := by
    intro k
    induction k with
    | zero => simp
    | succ k ih =>
      rw [range_succ, map_append, sum_append, ih, map_singleton, sum_singleton, share, Nat.succ_mul]
      split <;> omega
  rw [hp, min_eq_right (Nat.mod_lt _ hn).le, Nat.div_add_mod]

theorem countMap_map {β : Type} (g : Nat → β) (F : MasterNodeInfo → MasterNodeInfo) (hF : ∀ m, (F m).id = m.id) (i : Nat) (c : GoMap β)
    (ms : List MasterNodeInfo) : countMap (fun _ => g) i (ms.map F) c = countMap (fun _ => g) i ms c := by
  induction ms generalizing i c with
  | nil => rfl
  | cons m ms ih => rw [map_cons, countMap, countMap, ih, hF]

/-! ### The plan -/

/-- At least two masters with distinct IDs that hold every slot once. -/
structure Partitioned (masters : List MasterNodeInfo) : Prop where
  two : 2 ≤ masters.length
  ids : (masters.map (·.id)).Nodup
  slots : (masters.flatMap (·.slots)).Perm (range 16384)

/-- Moves of slots from their masters to masters, of no slot twice. -/
structure Legal (masters : List MasterNodeInfo) (moves : List SlotMove) : Prop where
  from_mem : ∀ mv ∈ moves, ∃ m ∈ masters, m.id = mv.fromNodeID ∧ mv.slot ∈ m.slots
  to_mem : ∀ mv ∈ moves, mv.toNodeID ∈ masters.map (·.id)
  nodup : (moves.map (·.slot)).Nodup

def Balanced (masters : List MasterNodeInfo) : Prop := ∀ m ∈ masters, ∀ m' ∈ masters, m.slots.length ≤ m'.slots.length + 1

abbrev target (ms : List MasterNodeInfo) (k : Bytes) : Nat := ((targetCounts ms).lookup k).getD 0

theorem sorted_perm (masters : List MasterNodeInfo) : (sorted masters).Perm masters := perm_insertionSort _ _

namespace Partitioned

theorem perm (h : Partitioned masters) (hp : ms.Perm masters) : Partitioned ms where
  two := hp.length_eq ▸ h.two
  ids := (hp.map _).nodup_iff.mpr h.ids
  slots := (hp.flatMap_right _).trans h.slots

theorem nodup (h : Partitioned ms) : (ms.flatMap (·.slots)).Nodup := h.slots.nodup_iff.mpr nodup_range

theorem sum_slots (h : Partitioned ms) : (ms.map fun m => m.slots.length).sum = 16384 := by
  rw [← length_flatMap, h.slots.length_eq, length_range]

theorem map_target (h : Partitioned ms) : (ms.map fun m => target ms m.id) = (range ms.length).map (share ms.length) := by
  have := congrArg (map (·.getD 0)) (map_countMap (fun _ => share ms.length) 0 ∅ h.ids)
  rw [map_map] at this
  exact this.trans (ext_getElem (by simp) (by simp))

theorem settles (h : Partitioned ms) : Settles (fun k => ((initialCounts ms).lookup k).getD 0) (target ms) ms where
  ids := h.ids
  cur_eq m hm := by rw [initialCounts, lookup_countMap 0 ∅ h.ids _ hm, Option.getD_some]
  sum_eq := by rw [h.map_target, sum_share (by have := h.two; omega), h.sum_slots]

theorem length_applyMoves (h : Partitioned ms) (hm : m ∈ ms) : (applyMoves (movesOf ms) m).slots.length = target ms m.id :=
  h.settles.length_applyMoves hm ((nodup_flatMap.mp h.nodup).1 m hm)

theorem target_bounds (h : Partitioned ms) (hm : m ∈ ms) :
    16384 / ms.length ≤ target ms m.id ∧ target ms m.id ≤ 16384 / ms.length + 1 := by
  have hme : target ms m.id ∈ ms.map fun m => target ms m.id := mem_map_of_mem hm
  rw [h.map_target] at hme
  obtain ⟨i, -, hi⟩ := mem_map.mp hme
  rw [← hi, share]
  split <;> omega

theorem legal (h : Partitioned ms) : Legal ms (movesOf ms) where
  from_mem mv hmv := by
    have hme : (mv.fromNodeID, mv.slot) ∈ (movesOf ms).map fun mv => (mv.fromNodeID, mv.slot) := mem_map_of_mem hmv
    rw [movesOf, h.settles.given] at hme
    obtain ⟨m, hm, hs⟩ := mem_flatMap.mp hme
    obtain ⟨slot, hs, heq⟩ := mem_map.mp hs
    obtain ⟨hid, rfl⟩ := Prod.mk.inj heq
    exact ⟨m, hm, hid, mem_of_mem_drop hs⟩
  to_mem mv hmv := by
    have hme : (mv.toNodeID, ()) ∈ (movesOf ms).map fun mv => (mv.toNodeID, ()) := mem_map_of_mem hmv
    rw [movesOf, h.settles.taken] at hme
    obtain ⟨m, hm, hx⟩ := mem_flatMap.mp hme
    obtain ⟨_, -, heq⟩ := mem_map.mp hx
    exact (Prod.mk.inj heq).1 ▸ mem_map_of_mem hm
  nodup := by
    have hsl := congrArg (map Prod.snd) h.settles.given
    simp only [map_map, map_flatMap, Function.comp_def, map_id'] at hsl
    rw [movesOf, hsl]
    exact .sublist (.flatMap_right _ fun m _ => drop_sublist _ _) h.nodup

theorem balanced (h : Partitioned ms) : Balanced (ms.map (applyMoves (movesOf ms))) := by
  refine forall_mem_map.mpr fun m hm => forall_mem_map.mpr fun m' hm' => ?_
  rw [h.length_applyMoves hm, h.length_applyMoves hm']
  have := h.target_bounds hm
  have := h.target_bounds hm'
  omega

theorem final_count (h : Partitioned ms) (hm : m ∈ ms) :
    (((movesOf ms).foldl recount (countMap (fun m _ => m.slots.length) 0 ms ∅)).lookup m.id).getD 0 = target ms m.id := by
  have hg := congrArg length (h.settles.slots_given hm)
  rw [length_map, length_drop] at hg
  rw [lookup_recount, lookup_countMap 0 ∅ h.ids (fun m => (m.slots.length : Int)) hm, movesOf, hg, h.settles.length_taken hm]
  simp only [Option.getD_some]
  omega

theorem movesOf_applied (h : Partitioned ms) : movesOf (ms.map (applyMoves (movesOf ms))) = [] := by
  have hi : ((ms.map (applyMoves (movesOf ms))).map (·.id)).Nodup := by simpa [Function.comp_def, applyMoves] using h.ids
  have ht : targetCounts (ms.map (applyMoves (movesOf ms))) = targetCounts ms := by
    rw [targetCounts, length_map, countMap_map _ (applyMoves _) fun _ => rfl, targetCounts]
  rw [movesOf, transfers, ht, serveAll_eq, donors, filterMap_eq_nil_iff.mpr]
  · rfl
  intro m hm
  rw [initialCounts, lookup_countMap 0 ∅ hi _ hm]
  obtain ⟨m, hme, rfl⟩ := mem_map.mp hm
  exact if_neg (h.length_applyMoves hme).le.not_gt

end Partitioned

theorem compute_eq (h : 2 ≤ masters.length) : ∃ plan, computeRebalancePlan masters = .ok plan ∧ plan.moves = movesOf (sorted masters) ∧
    plan.finalCounts = (movesOf (sorted masters)).foldl recount (countMap (fun m _ => m.slots.length) 0 (sorted masters) ∅) := by
  rw [computeRebalancePlan, if_neg (by omega)]
  exact ⟨_, rfl, rfl, rfl⟩

theorem Legal.perm {moves : List SlotMove} (h : Legal ms moves) (hp : ms.Perm masters) : Legal masters moves where
  from_mem mv hmv := by simpa [hp.mem_iff] using h.from_mem mv hmv
  to_mem mv hmv := (hp.map _).mem_iff.mp (h.to_mem mv hmv)
  nodup := h.nodup

theorem Balanced.perm (h : Balanced ms) (hp : ms.Perm masters) : Balanced masters :=
  fun m hm m' hm' => h m (hp.mem_iff.mpr hm) m' (hp.mem_iff.mpr hm')

/-- A plan moves slots of their masters, none twice, and leaves counts that differ by one at most, those of `FinalCounts`; on the result
a plan is empty. -/
theorem rebalance_correct (masters : List MasterNodeInfo) (h : Partitioned masters) : ∃ plan, computeRebalancePlan masters = .ok plan ∧
    Legal masters plan.moves ∧ Balanced (masters.map (applyMoves plan.moves)) ∧
    (∀ m ∈ masters, (plan.finalCounts.lookup m.id).getD 0 = (applyMoves plan.moves m).slots.length) ∧
    ∃ plan', computeRebalancePlan (masters.map (applyMoves plan.moves)) = .ok plan' ∧ plan'.moves = [] := by
  obtain ⟨plan, hpa, hmv, hf⟩ := compute_eq h.two
  have hp := sorted_perm masters
  have hs := h.perm hp
  refine ⟨plan, hpa, ?_⟩
  rw [hmv, hf]
  refine ⟨hs.legal.perm hp, hs.balanced.perm (hp.map _), fun m hm => ?_, ?_⟩
  · rw [hs.final_count (hp.mem_iff.mpr hm), hs.length_applyMoves (hp.mem_iff.mpr hm)]
  · obtain ⟨plan', hpl, hmo, -⟩ := @compute_eq (masters.map (applyMoves (movesOf (sorted masters)))) (by simpa using h.two)
    refine ⟨plan', hpl, hmo.trans ?_⟩
    have hso : sorted (masters.map (applyMoves (movesOf (sorted masters)))) = _ :=
      (map_insertionSort _ _ (applyMoves (movesOf (sorted masters))) masters fun _ _ _ _ => Iff.rfl).symm
    rw [hso]
    exact hs.movesOf_applied

theorem rebalance_correct_two : ∃ plan, computeRebalancePlan [⟨lit "a", [], 0, range 16384⟩, ⟨lit "b", [], 0, []⟩] = .ok plan ∧
    (plan.moves.map (·.slot)).Nodup := by
  obtain ⟨plan, hp, hl, -⟩ := rebalance_correct [⟨lit "a", [], 0, range 16384⟩, ⟨lit "b", [], 0, []⟩] ⟨le_rfl, by decide, by simp⟩
  exact ⟨plan, hp, hl.nodup⟩

end Rebalance

end VortexKV
