import VortexKV.Proofs.TableRuns

/-!
# Node IDs that are too short

The lines that the bus writes to the log print the first eight bytes of a node ID. No operation panics as long as no shorter ID
comes in; a packet from a sender with a shorter ID can end a node.
-/

namespace VortexKV

/-- The IDs that the operation brings in are long enough to be printed. -/
def ClusterOp.Long : ClusterOp → Prop
  | .addNode node => 8 ≤ node.id.length
  | .processPacket _ _ p => 8 ≤ p.senderID.length
  | .merge _ _ text => ∀ l ∈ ClusterManager.nodeLines text, 8 ≤ l.id.length
  | .startElection failedMasterID => 8 ≤ failedMasterID.length
  | _ => True

namespace ClusterManager

variable {cm cm' : ClusterManager} {id : Bytes} {r : Readings} {a : Audit} {x : Except Bytes ClusterManager} {node : ClusterNode}

theorem logID_ok (h : 8 ≤ id.length) : logID id = .ok () := if_neg (by omega)

def Long (cm : ClusterManager) : Prop := ∀ q, 8 ≤ (cm.heap q).id.length

namespace Long

theorem sameTables (h : cm.Long) (hs : SameTables cm cm') : cm'.Long := fun q => hs.id q ▸ h q

theorem slotsOnly (h : cm.Long) (hs : SlotsOnly cm cm') : cm'.Long := fun q => hs.id q ▸ h q

theorem setNode (h : cm.Long) (p : Nat) {f : ClusterNode → ClusterNode} (hf : ∀ n, 8 ≤ n.id.length → 8 ≤ (f n).id.length) :
    (cm.setNode p f).Long := by
  intro q
  rw [heap_setNode]
  split
  · exact hf _ (h q)
  · exact h q

theorem enter (h : cm.Long) (k : Bytes) (hn : 8 ≤ node.id.length) : (cm.enter k node).Long := by
  intro q
  rw [heap_enter]
  split
  · exact hn
  · exact h q

theorem getD (h : cm.Long) (hx : ∀ {cm'}, x = .ok cm' → cm'.Long) : (x.toOption.getD cm).Long := by
  cases x with
  | error _ => exact h
  | ok cm' => exact hx rfl

theorem addSlots (h : cm.Long) {slots : List Nat} (hok : cm.addSlots slots = .ok cm') : cm'.Long := by
  obtain ⟨rfl, -⟩ := addSlots_ok hok
  exact h.slotsOnly (.foldl (fun cm s => slotsOnly_gain cm cm.self s) slots cm)

theorem assignLoop (h : cm.Long) (q : Nat) (slots : List Nat) : (cm.assignLoop q slots).2.Long := by
  induction slots generalizing cm with
  | nil => exact h
  | cons s slots ih =>
    rw [ClusterManager.assignLoop]
    split
    · exact h
    · exact ih (h.slotsOnly (slotsOnly_give cm q s))

theorem assignSlotsToNode (h : cm.Long) (nodeID : Bytes) (slots : List Nat) : (cm.assignSlotsToNode nodeID slots).2.Long := by
  unfold ClusterManager.assignSlotsToNode
  split
  · exact h
  · exact h.assignLoop _ slots

theorem delSlots (h : cm.Long) {slots : List Nat} (hok : cm.delSlots slots = .ok cm') : cm'.Long := by
  obtain ⟨rfl, -⟩ := delSlots_ok hok
  exact h.slotsOnly (.foldl (fun cm s => slotsOnly_free cm cm.self s) slots cm)

theorem setSlot (h : cm.Long) {slot : Nat} {sub target : Bytes} (hok : cm.setSlot slot sub target = .ok cm') : cm'.Long := by
  obtain ⟨-, hs | ⟨-, q, -, hs⟩⟩ := setSlot_ok hok
  · exact h.sameTables hs
  · exact (h.slotsOnly (slotsOnly_give cm q slot)).sameTables hs

theorem removeNode (h : cm.Long) {nodeID : Bytes} (hok : cm.removeNode nodeID = .ok cm') : cm'.Long := by
  obtain ⟨-, target, -, rfl⟩ := removeNode_ok hok
  exact h

theorem replicate (h : cm.Long) {masterID : Bytes} (hok : cm.replicate masterID = .ok cm') : cm'.Long := by
  obtain rfl := replicate_ok hok
  exact h.setNode cm.self (f := fun n => { n with slots := ∅, role := .slave, masterID := masterID }) fun _ hn => hn

theorem takeOver (h : cm.Long) (failedMasterID : Bytes) (s : Nat) : (takeOver failedMasterID cm s).Long := by
  unfold ClusterManager.takeOver
  split
  · split_ifs
    · exact h.slotsOnly ((slotsOnly_lose _ _ _).trans (slotsOnly_gain _ _ _))
    · exact h.slotsOnly (slotsOnly_gain _ _ _)
    · exact h
  · split
    · exact h.slotsOnly (slotsOnly_gain _ _ _)
    · exact h

theorem promoted (h : cm.Long) (failedMasterID : Bytes) : (cm.promoted failedMasterID).Long := by
  unfold ClusterManager.promoted
  exact List.foldlRecOn _ _ (h.setNode cm.self fun _ hn => hn) fun cm hcm s _ => hcm.takeOver failedMasterID s

theorem registerSender (h : cm.Long) (r : Readings) (seed : NodeSeed) {p : BusPacket} (hp : 8 ≤ p.senderID.length) :
    (cm.registerSender r seed p).2.Long := by
  unfold ClusterManager.registerSender
  split
  · exact h
  · refine h.enter _ ?_
    rw [newNode, if_neg (List.ne_nil_of_length_pos (by omega))]
    exact hp

theorem receive (h : cm.Long) (r : Readings) (seed : NodeSeed) {p : BusPacket} (hp : 8 ≤ p.senderID.length) : (cm.receive r seed p).Long := by
  have hg := (h.registerSender r seed hp).sameTables (sameTables_greet _ r p (cm.registerSender r seed p).1)
  rw [receive_eq]
  split
  · unfold syncSlots
    exact hg.slotsOnly (.foldl (fun cm s => slotsOnly_claim cm _ p s) _ _)
  · exact hg

theorem mergeNode (h : cm.Long) (seed : NodeSeed) (nowMilli : Int) {l : NodeLine} (hl : 8 ≤ l.id.length) : (cm.mergeNode seed nowMilli l).Long := by
  have hk : ∀ ip port busPort role, (cm.knownNode seed nowMilli l.id ip port busPort role).2.Long := by
    intro ip port busPort role
    unfold knownNode
    split
    · exact h
    · refine h.enter _ ?_
      rw [newNode, if_neg (List.ne_nil_of_length_pos (by omega))]
      exact hl
  have hp : (cm.linePeer seed nowMilli l).2.Long := by
    intro q
    unfold linePeer
    rw [heap_setNode]
    split <;> exact hk _ _ _ _ q
  have hn : (cm.lineNode seed nowMilli l).2.Long := by
    unfold lineNode
    split_ifs
    · intro q
      dsimp only [lineSelf]
      rw [heap_setNode]
      split
      · exact hl
      · exact h q
    · exact hp
    · exact h
    · exact hp
  exact hn.slotsOnly (slotsOnly_gains l.slots _ _)

theorem parseAndMergeNodesText (h : cm.Long) (seed : NodeSeed) (nowMilli : Int) {text : Bytes} (ht : ∀ l ∈ nodeLines text, 8 ≤ l.id.length) :
    (cm.parseAndMergeNodesText seed nowMilli text).Long := by
  refine List.foldlRecOn _ _ h fun cm hcm line hli => ?_
  obtain ⟨-, ep, heq⟩ | ⟨l, hl, heq⟩ := mergeLine_cases seed nowMilli cm line <;> rw [heq]
  · exact hcm
  · exact hcm.mergeNode seed nowMilli (ht l (List.mem_filterMap.mpr ⟨line, hli, hl⟩))

/-! ### Operations that write to the log -/

theorem processPacket (h : cm.Long) (r : Readings) (seed : NodeSeed) {p : BusPacket} (hp : 8 ≤ p.senderID.length) :
    ∃ x, cm.processPacket r seed p = .ok x ∧ x.2.Long := by
  have hl := h.receive r seed hp
  have hok : ∃ x, cm.processPacket r seed p = .ok x := by
    unfold ClusterManager.processPacket
    dsimp only
    split
    · exact ⟨_, rfl⟩
    · exact ⟨_, rfl⟩
    · split
      · exact ⟨_, rfl⟩
      · split
        · exact ⟨_, rfl⟩
        · rw [logID_ok hp, logID_ok (hl _)]
          exact ⟨_, rfl⟩
    · rw [logID_ok hp]
      split <;> exact ⟨_, rfl⟩
    · exact ⟨_, rfl⟩
  obtain ⟨x, hx⟩ := hok
  exact ⟨x, hx, hl.sameTables (sameTables_processPacket hx)⟩

theorem visit (h : a.cm.Long) (r : Readings) (q : Nat) : ∃ a', a.visit r q = .ok a' := by
  have he : ∀ {a : Audit}, a.cm.Long → ∃ a', a.elevate q = .ok a' := fun {a} ha => by
    unfold Audit.elevate
    dsimp only
    rw [logID_ok (ha q)]
    split <;> exact ⟨_, rfl⟩
  unfold Audit.visit
  dsimp only
  rw [logID_ok (h q)]
  rw [← a.count_cm q] at h
  split_ifs
  · exact ⟨_, rfl⟩
  · exact he (h.sameTables (sameTables_markPFail _ r q))
  · exact he h

theorem heartbeatStep (h : cm.Long) (ω : Env) : ∃ x, cm.heartbeatStep ω = .ok x := by
  have hal : ∀ (l : List Nat) (a : Audit), a.cm.Long → ∃ a', l.foldlM (Audit.visit (ω.sub 0 [])) a = .ok a' := by
    intro l
    induction l with
    | nil => exact fun a _ => ⟨a, rfl⟩
    | cons q l ih =>
      intro a ha
      obtain ⟨a', ha'⟩ := ha.visit (ω.sub 0 []) q
      rw [List.foldlM_cons, ha']
      exact ih a' (ha.sameTables (sameTables_visit ha'))
  obtain ⟨a, ha⟩ := hal (cm.nodeList (ω.sub 0 []).shuffle) ⟨cm, 0, []⟩ h
  unfold ClusterManager.heartbeatStep
  rw [audit, ha]
  exact ⟨_, rfl⟩

theorem startElection (h : cm.Long) (hid : 8 ≤ id.length) : ∃ x, cm.startElection id = .ok x := by
  unfold ClusterManager.startElection
  split
  · exact ⟨_, rfl⟩
  · have hs : 8 ≤ cm.selfNode.id.length := h cm.self
    exact ⟨_, by rw [logID_ok hid]; exact congrArg (· >>= _) (logID_ok hs)⟩

theorem promoteReplica (h : cm.Long) (r : Readings) (failedMasterID : Bytes) : ∃ x, cm.promoteReplica r failedMasterID = .ok x ∧ x.2.Long := by
  unfold ClusterManager.promoteReplica
  split
  · exact ⟨_, rfl, h⟩
  · rw [logID_ok (show 8 ≤ cm.selfNode.id.length from h cm.self)]
    exact ⟨_, rfl, h.promoted failedMasterID⟩

theorem step {op : ClusterOp} (h : cm.Long) (hop : op.Long) : ∃ cm', ClusterManager.step op cm = some cm' ∧ cm'.Long := by
  cases op with
  | addSlots slots => exact ⟨_, rfl, h.getD h.addSlots⟩
  | assignSlotsToNode nodeID slots => exact ⟨_, rfl, h.assignSlotsToNode nodeID slots⟩
  | delSlots slots => exact ⟨_, rfl, h.getD h.delSlots⟩
  | setSlot slot sub target => exact ⟨_, rfl, h.getD h.setSlot⟩
  | addNode node => exact ⟨_, rfl, h.enter node.id hop⟩
  | removeNode nodeID => exact ⟨_, rfl, h.getD h.removeNode⟩
  | replicate masterID => exact ⟨_, rfl, h.getD h.replicate⟩
  | reset => exact ⟨_, rfl, h.setNode cm.self (f := fun n => { n with slots := ∅ }) fun _ hn => hn⟩
  | merge seed nowMilli text => exact ⟨_, rfl, h.parseAndMergeNodesText seed nowMilli hop⟩
  | processPacket r seed p =>
    obtain ⟨x, hx, hl⟩ := h.processPacket r seed hop
    exact ⟨x.2, by rw [ClusterManager.step, hx]; rfl, hl⟩
  | promoteReplica r failedMasterID =>
    obtain ⟨x, hx, hl⟩ := h.promoteReplica r failedMasterID
    exact ⟨x.2, by rw [ClusterManager.step, hx]; rfl, hl⟩
  | heartbeatStep ω =>
    obtain ⟨x, hx⟩ := h.heartbeatStep ω
    exact ⟨x.2, by rw [ClusterManager.step, hx]; rfl, h.sameTables (sameTables_heartbeatStep hx)⟩
  | startElection failedMasterID =>
    obtain ⟨x, hx⟩ := h.startElection hop
    exact ⟨x.2, by rw [ClusterManager.step, hx]; rfl, h.sameTables (sameTables_startElection hx)⟩

end Long

theorem long_loneManager (seed : NodeSeed) (nowMilli : Int) (ip : Bytes) (port busPort : Int) : (loneManager seed nowMilli ip port busPort).Long := by
  intro q
  change 8 ≤ (generateNodeID seed).length
  simp [generateNodeID, hexEncode, seed.length_bytes]

/-- No operation of a run panics if all IDs that come in have at least eight bytes. -/
theorem long_ids_never_panic (seed : NodeSeed) (nowMilli : Int) (ip : Bytes) (port busPort : Int) (ops : List ClusterOp)
    (ho : ∀ op ∈ ops, op.Long) : (Machine.run ClusterManager.step ops (loneManager seed nowMilli ip port busPort)).isSome := by
  have ha : ∀ cm : ClusterManager, cm.Long → (Machine.run ClusterManager.step ops cm).isSome := by
    induction ops with
    | nil => exact fun _ _ => rfl
    | cons op ops ih =>
      intro cm hcm
      obtain ⟨cm', hstep, hc⟩ := hcm.step (ho op (by simp))
      rw [Machine.run, hstep]
      exact ih (fun op hop => ho op (by simp [hop])) cm' hc
  exact ha _ (long_loneManager seed nowMilli ip port busPort)

theorem long_ids_never_panic_packet : (Machine.run ClusterManager.step
    [.processPacket (.plain 0) ⟨List.replicate 20 1, rfl⟩ ⟨.fail, 0, lit "sender01", [], 0, 0, {}, ∅, [], lit "sender01", 0⟩]
      (loneManager ⟨List.replicate 20 0, rfl⟩ 0 [] 7379 0)).isSome :=
  long_ids_never_panic _ 0 [] 7379 0 _ (by simp [ClusterOp.Long, lit])

theorem processPacket_short {p : BusPacket} {seed : NodeSeed} (hty : p.type = .fail) (hm : p.flags.master = false)
    (ht : p.targetNodeID = p.senderID) (hni : p.senderID ≠ []) (hsh : p.senderID.length < 8) (hne : cm.nodes.lookup p.senderID = none)
    (hsl : p.senderID ≠ cm.selfNode.id) (hn : cm.self ≠ cm.next) : cm.processPacket r seed p = .error .panic := by
  obtain ⟨node, hid, hre⟩ : ∃ node, node.id = p.senderID ∧ cm.registerSender r seed p = (cm.next, cm.enter p.senderID node) := by
    rw [registerSender, hne]
    exact ⟨_, if_neg hni, rfl⟩
  have hg := sameTables_greet (cm.enter p.senderID node) r p cm.next
  have hr : cm.receive r seed p = (cm.enter p.senderID node).greet r p cm.next := by
    rw [receive_eq, hre, if_neg (by simp [hm])]
  have hl : (cm.receive r seed p).nodes.lookup p.targetNodeID = some cm.next := by
    rw [hr, hg.nodes, ht, lookup_enter, if_pos rfl]
  have hse : ((cm.receive r seed p).heap cm.next).id = p.senderID := by
    rw [hr, hg.id, heap_enter, if_pos rfl, hid]
  have hs : (cm.receive r seed p).selfNode.id = cm.selfNode.id := by
    rw [hr, selfNode, hg.id, hg.self, heap_enter]
    exact congrArg ClusterNode.id (if_neg hn)
  rw [processPacket, hty]
  simp only [hl, hse, hs, if_neg hsl, logID, if_pos hsh]
  rfl

theorem readPacket_header {s : Bytes} (hlen : s.length = 2174) (hm : s.take 4 = lit "VBUS") (hc : numField s 2172 2174 = 0) :
    ∃ p, readPacket s = .ok (p, []) ∧ p.type = packetType (numField s 4 5) ∧ p.senderID = textField s 14 54 ∧
      p.flags = busFlags (numField s 74 76) ∧ p.targetNodeID = textField s 2124 2164 := by
  have hf : readBus 2174 s = .ok (s, []) := by simp [readBus, hlen, List.take_of_length_le, List.drop_of_length_le]
  rw [readPacket, hf]
  simp only [bind, Except.bind, hm, hc, ne_eq, not_true_eq_false, if_false, gt_iff_lt, lt_irrefl]
  exact ⟨_, rfl, rfl, rfl, rfl, rfl⟩

/-- A packet of the bus that ends a new node. -/
theorem malformed_peer_crashes : ∃ s p, readPacket s = .ok (p, []) ∧
    (loneManager ⟨List.replicate 20 0, rfl⟩ 0 [] 7379 0).processPacket (.plain 0) ⟨List.replicate 20 1, rfl⟩ p = .error .panic := by
  let s : Bytes := lit "VBUS" ++ 3 :: List.replicate 9 0 ++ 97 :: List.replicate 2109 0 ++ 97 :: List.replicate 49 0
  have hs : textField s 14 54 = [97] := by decide +kernel
  have ht : textField s 2124 2164 = [97] := by decide +kernel
  obtain ⟨p, hr, hty, hid, hf, hto⟩ := readPacket_header (s := s) (by decide +kernel) (by decide +kernel) (by decide +kernel)
  rw [hs] at hid
  refine ⟨s, p, hr, processPacket_short ?_ ?_ ?_ ?_ ?_ ?_ ?_ Nat.zero_ne_one⟩
  · exact hty.trans (by decide +kernel)
  · rw [hf]
    decide +kernel
  · rw [hto, hid, ht]
  · simp [hid]
  · simp [hid]
  · rw [hid]
    rfl
  · rw [hid]
    decide

end ClusterManager

end VortexKV
