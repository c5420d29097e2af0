import VortexKV.ClusterRuns
import VortexKV.Proofs.SlotTable

/-!
# Runs of a cluster manager

The operations of `cluster.go` and `gossip.go` on one manager, as the steps of a machine. `slot_table_consistent`:
`SlotMap` and the bits of the nodes agree in every run in which no node enters the table with a slot that is bound
to another node, neither through `AddNode` nor through a text.
-/

namespace VortexKV

open Finmap Option

variable {node : ClusterNode} {α : Type} {r : Readings} {seed : NodeSeed} {x : Option BusPacket × ClusterManager} {failedMasterID : Bytes}
  {l : NodeLine} {a : Audit}

namespace ClusterManager

variable {cm cm' : ClusterManager} {p q q' s j : Nat}

/-! ### New nodes -/

theorem heap_enter (cm : ClusterManager) (k : Bytes) (node : ClusterNode) (q : Nat) :
    (cm.enter k node).heap q = if q = cm.next then node else cm.heap q := Function.update_apply _ _ _ _

theorem lookup_enter (cm : ClusterManager) (k : Bytes) (node : ClusterNode) (k' : Bytes) :
    (cm.enter k node).nodes.lookup k' = if k' = k then some cm.next else cm.nodes.lookup k' := by
  change (cm.nodes.insert k cm.next).lookup k' = _
  split
  · rename_i h
    rw [h, lookup_insert]
  · rename_i h
    rw [lookup_insert_of_ne _ h]

theorem Tabled.lt_next (h : cm.Tabled) (hq : cm.Known q) : q < cm.next := hq.elim fun k hk => h.fresh k q hk

theorem known_enter {k : Bytes} (hk : k ∉ cm.nodes) : (cm.enter k node).Known q ↔ cm.Known q ∨ q = cm.next := by
  constructor
  · rintro ⟨k', hk'⟩
    rw [lookup_enter] at hk'
    split at hk'
    · exact .inr (Option.some.inj hk').symm
    · exact .inl ⟨k', hk'⟩
  · rintro (⟨k', hk'⟩ | rfl)
    · refine ⟨k', ?_⟩
      rw [lookup_enter, if_neg]
      · exact hk'
      · rintro rfl
        exact hk (lookup_isSome.1 (by rw [hk']; rfl))
    · exact ⟨k, by rw [lookup_enter, if_pos rfl]⟩

/-- `AddNode` binds slots that are free, or that the node it replaces had. -/
def FitsTable (cm : ClusterManager) (node : ClusterNode) : Prop :=
  node.id ≠ cm.selfNode.id ∧ (∀ s, s < 16384 → s ∈ node.slots → node.role = .master ∧
    ∀ q, cm.slotMap s = some q → cm.nodes.lookup node.id = some q) ∧
  ∀ q, cm.nodes.lookup node.id = some q → ∀ s, s < 16384 → s ∈ (cm.heap q).slots → s ∈ node.slots

theorem InOrder.addNode (h : cm.InOrder) (hfi : cm.FitsTable node) : (cm.addNode node).InOrder := by
  obtain ⟨hot, hf, ha⟩ := hfi
  have hne : ∀ {q}, cm.Known q → q ≠ cm.next := fun hq => (h.tabled.lt_next hq).ne
  have hh : ∀ q, (cm.addNode node).heap q = if q = cm.next then node else cm.heap q := heap_enter cm node.id node
  have hl : ∀ k, (cm.addNode node).nodes.lookup k = if k = node.id then some cm.next else cm.nodes.lookup k :=
    lookup_enter cm node.id node
  have hse : (cm.addNode node).selfNode = cm.selfNode := by
    rw [selfNode, hh]
    exact if_neg (hne h.tabled.knownSelf)
  refine ⟨⟨?_, fun k' q hq => ?_, fun k' q hq => ?_, hse ▸ h.tabled.named⟩, fun s hs q => ?_⟩
  · rw [hse, hl, if_neg hot.symm]
    exact h.tabled.self
  · rw [hl] at hq
    rw [hh]
    split at hq
    · rename_i heq
      cases hq
      rw [if_pos rfl, heq]
    · rw [if_neg (hne ⟨k', hq⟩)]
      exact h.tabled.keys k' q hq
  · change q < cm.next + 1
    rw [hl] at hq
    split at hq
    · cases hq
      omega
    · have := h.tabled.fresh k' q hq
      omega
  · -- a known node is the new one or one that was not replaced
    have hkn : (cm.addNode node).Known q ↔ q = cm.next ∨ cm.Known q ∧ cm.nodes.lookup node.id ≠ some q := by
      constructor
      · rintro ⟨k, hk⟩
        rw [hl] at hk
        split at hk
        · exact .inl (Option.some.inj hk).symm
        · rename_i hke
          refine .inr ⟨⟨k, hk⟩, fun hn => hke ?_⟩
          exact (h.tabled.keys k q hk).symm.trans (h.tabled.keys node.id q hn)
      · rintro (rfl | ⟨⟨k, hk⟩, hno⟩)
        · exact ⟨node.id, by rw [hl, if_pos rfl]⟩
        · refine ⟨k, ?_⟩
          rw [hl, if_neg]
          · exact hk
          · rintro rfl
            exact hno hk
    have hc := h.consistent s hs
    change (if node.role = .master ∧ s ∈ node.slots then some cm.next else cm.slotMap s) = some q ↔ _
    rw [hkn, hh]
    by_cases hm : s ∈ node.slots
    · obtain ⟨hr, ho⟩ := hf s hs hm
      rw [if_pos ⟨hr, hm⟩, Option.some.injEq]
      constructor
      · rintro rfl
        rw [if_pos rfl]
        exact ⟨.inl rfl, hm⟩
      · rintro ⟨rfl | ⟨hq, hno⟩, hqm⟩
        · rfl
        · rw [if_neg (hne hq)] at hqm
          exact absurd (ho q ((hc q).2 ⟨hq, hqm⟩)) hno
    · rw [if_neg (by tauto), hc q]
      constructor
      · rintro ⟨hq, hqm⟩
        rw [if_neg (hne hq)]
        exact ⟨.inr ⟨hq, fun hn => hm (ha q hn s hs hqm)⟩, hqm⟩
      · rintro ⟨rfl | ⟨hq, -⟩, hqm⟩
        · rw [if_pos rfl] at hqm
          exact absurd hqm hm
        · rw [if_neg (hne hq)] at hqm
          exact ⟨hq, hqm⟩

theorem InOrder.enter {k : Bytes} (h : cm.InOrder) (hk : k ∉ cm.nodes) (hid : node.id = k)
    (hsl : node.slots = ∅) : (cm.enter k node).InOrder := by
  subst hid
  have hn := lookup_eq_none.2 hk
  have ha : cm.addNode node = cm.enter node.id node := by
    unfold ClusterManager.addNode
    simp only [hsl, Finset.notMem_empty, and_false, if_false]
    rfl
  rw [← ha]
  refine h.addNode ⟨fun hid => ?_, fun s _ hs => ?_, fun q hq => ?_⟩
  · rw [hid, h.tabled.self] at hn
    cases hn
  · rw [hsl] at hs
    cases hs
  · rw [hn] at hq
    cases hq

/-! ### Packets -/

theorem InOrder.registerSender (h : cm.InOrder) (r : Readings) (seed : NodeSeed) {p : BusPacket} (hp : p.senderID ≠ []) :
    (cm.registerSender r seed p).2.InOrder ∧ (cm.registerSender r seed p).2.Known (cm.registerSender r seed p).1 := by
  unfold ClusterManager.registerSender
  cases hq : cm.nodes.lookup p.senderID with
  | some q => exact ⟨h, p.senderID, hq⟩
  | none =>
    have hk : p.senderID ∉ cm.nodes := lookup_eq_none.1 hq
    exact ⟨h.enter hk (if_neg hp) rfl, (known_enter hk).2 (.inr rfl)⟩

theorem slotsOnly_claim (cm : ClusterManager) (sender : Nat) (p : BusPacket) (s : Nat) : SlotsOnly cm (claimSlot sender p cm s) := by
  unfold claimSlot
  split
  · split
    · exact slotsOnly_gain _ _ _
    · split_ifs
      · exact .refl cm
      · exact .refl cm
      · exact (slotsOnly_lose _ _ _).trans (slotsOnly_gain _ _ _)
  · exact .refl cm

theorem syncSlots_eq (cm : ClusterManager) (sender : Nat) (p : BusPacket) :
    cm.syncSlots sender p = ((List.range 16384).filter (· ∈ p.slots)).foldl (claimSlot sender p) cm := by
  rw [List.foldl_filter]
  unfold syncSlots
  congr 1
  funext cm s
  split
  · rfl
  · rename_i hs
    exact if_neg (of_decide_eq_false (Bool.eq_false_iff.2 hs))

theorem syncSlots_singleton (cm : ClusterManager) (sender : Nat) {p : BusPacket} (hp : p.slots = {s}) (hs : s < 16384) :
    cm.syncSlots sender p = claimSlot sender p cm s := by
  have hf : (List.range 16384).filter (· ∈ p.slots) = [s] := by
    rw [List.filter_congr (q := (· == s)) fun j _ => by simp [hp, beq_eq_decide]]
    rw [List.filter_beq, List.count_eq_one_of_mem List.nodup_range (List.mem_range.2 hs)]
    rfl
  rw [syncSlots_eq, hf]
  rfl

theorem InOrder.claim (h : cm.InOrder) {sender : Nat} (hq : cm.Known sender) (p : BusPacket) (s : Nat) :
    (claimSlot sender p cm s).InOrder := by
  refine ⟨h.tabled.slotsOnly (slotsOnly_claim cm sender p s), ?_⟩
  unfold claimSlot
  split
  · split
    · rename_i hn
      refine h.consistent.gain hq fun q' hq' => ?_
      rw [hn] at hq'
      cases hq'
    · rename_i owner ho
      split_ifs
      · exact h.consistent
      · exact h.consistent
      · exact h.consistent.move hq ho
  · exact h.consistent

theorem InOrder.syncSlots (h : cm.InOrder) {sender : Nat} (hq : cm.Known sender) (p : BusPacket) : (cm.syncSlots sender p).InOrder := by
  unfold ClusterManager.syncSlots
  generalize List.range 16384 = l
  induction l generalizing cm with
  | nil => exact h
  | cons s l ih => exact ih (h.claim hq p s) ((known_congr (slotsOnly_claim cm sender p s).nodes).2 hq)

theorem sameTables_gossip (cm : ClusterManager) (now : Int) (gossip : List GossipEntry) (reporterID : Bytes) :
    SameTables cm (cm.processGossipEntries now gossip reporterID) := by
  refine .foldl (fun cm g => ?_) gossip cm
  unfold processGossipEntry
  split_ifs
  · exact .refl cm
  · split
    · exact .setNode cm _ (fun _ => rfl) (fun _ => rfl) fun _ => rfl
    · exact .refl cm
  · exact .of_eq rfl rfl rfl rfl rfl rfl
  · exact .refl cm

theorem receive_eq (cm : ClusterManager) (r : Readings) (seed : NodeSeed) (p : BusPacket) :
    cm.receive r seed p =
      if p.flags.master then ((cm.registerSender r seed p).2.greet r p (cm.registerSender r seed p).1).syncSlots (cm.registerSender r seed p).1 p
      else (cm.registerSender r seed p).2.greet r p (cm.registerSender r seed p).1 := rfl

theorem sameTables_greet (cm : ClusterManager) (r : Readings) (p : BusPacket) (sender : Nat) : SameTables cm (cm.greet r p sender) := by
  have hset : SameTables cm (cm.setNode sender fun n => { n with pongRecv := r.nowMilli, pFail := false, fail := false, linkState := "connected" }) :=
    .setNode cm sender (fun _ => rfl) (fun _ => rfl) fun _ => rfl
  unfold greet
  dsimp only
  split
  · exact hset.trans (.of_eq rfl rfl rfl rfl rfl rfl)
  · exact hset

theorem InOrder.receive (h : cm.InOrder) (r : Readings) (seed : NodeSeed) {p : BusPacket} (hp : p.senderID ≠ []) :
    (cm.receive r seed p).InOrder := by
  obtain ⟨hr, hq⟩ := h.registerSender r seed hp
  have hg := sameTables_greet (cm.registerSender r seed p).2 r p (cm.registerSender r seed p).1
  rw [receive_eq]
  split
  · exact (hr.sameTables hg).syncSlots ((known_congr hg.nodes).2 hq) p
  · exact hr.sameTables hg

theorem logID_bind {id : Bytes} {f : Unit → Except Stop α} {x : α} (h : (logID id >>= f) = .ok x) : f () = .ok x := by
  obtain ⟨_, -, hf⟩ := Except.bind_eq_ok h
  exact hf

def NoAck (resp : Option BusPacket) : Prop := ∀ p ∈ resp, p.type ≠ .failoverAuthAck

theorem processPacket_cases {p : BusPacket}
    (hok : cm.processPacket r seed p = .ok x) :
    NoAck x.1 ∧ (x.2 = (cm.receive r seed p).processGossipEntries r.now p.gossip p.senderID ∨ x.2 = cm.receive r seed p ∨
      ∃ q, x.2 = (cm.receive r seed p).setNode q fun n => { n with fail := true, pFail := false, linkState := "disconnected" }) ∨
    (p.type = .failoverAuthReq ∧ (cm.receive r seed p).Grants p ∧
      x = (some ((cm.receive r seed p).ack p),
        { cm.receive r seed p with lastVoteEpoch := p.reqEpoch, currentEpoch := p.reqEpoch })) := by
  unfold processPacket at hok
  generalize cm.receive r seed p = cm₁ at *
  dsimp only at hok
  split at hok
  · cases hok
    refine .inl ⟨?_, .inl rfl⟩
    rintro _ ⟨⟩
    nofun
  · cases hok
    exact .inl ⟨by nofun, .inl rfl⟩
  · split at hok
    · cases hok
      exact .inl ⟨by nofun, .inr (.inl rfl)⟩
    · split at hok
      · cases hok
        exact .inl ⟨by nofun, .inr (.inl rfl)⟩
      · cases logID_bind (logID_bind hok)
        exact .inl ⟨by nofun, .inr (.inr ⟨_, rfl⟩)⟩
  · rename_i ht
    split at hok
    · rename_i hg
      cases logID_bind hok
      exact .inr ⟨ht, hg, rfl⟩
    · cases hok
      exact .inl ⟨by nofun, .inr (.inl rfl)⟩
  · cases hok
    exact .inl ⟨by nofun, .inr (.inl rfl)⟩

theorem processPacket_pong (cm : ClusterManager) (r : Readings) (seed : NodeSeed) {p : BusPacket} (hp : p.type = .pong) (hg : p.gossip = []) :
    cm.processPacket r seed p = .ok (none, cm.receive r seed p) := by
  unfold processPacket
  generalize cm.receive r seed p = cm₁
  rw [hp, hg]
  rfl

theorem sameTables_processPacket {p : BusPacket}
    (hok : cm.processPacket r seed p = .ok x) : SameTables (cm.receive r seed p) x.2 := by
  rcases processPacket_cases hok with ⟨-, heq | heq | ⟨q, heq⟩⟩ | ⟨-, -, heq⟩ <;> rw [heq]
  · exact sameTables_gossip _ _ _ _
  · exact .refl _
  · exact .setNode _ q (fun _ => rfl) (fun _ => rfl) fun _ => rfl
  · exact .of_eq rfl rfl rfl rfl rfl rfl

theorem InOrder.processPacket (h : cm.InOrder) {p : BusPacket} (hp : p.senderID ≠ []) (hok : cm.processPacket r seed p = .ok x) : x.2.InOrder :=
  (h.receive r seed hp).sameTables (sameTables_processPacket hok)

theorem InOrder.takeOver (h : cm.InOrder) (failedMasterID : Bytes) (hs : s < 16384) : (takeOver failedMasterID cm s).InOrder := by
  have hc := h.consistent s hs
  -- an owner of that name is the node of the table, and its bit is set
  have how : ∀ o, cm.slotMap s = some o → (cm.heap o).id = failedMasterID →
      cm.nodes.lookup failedMasterID = some o ∧ s ∈ (cm.heap o).slots := by
    intro o ho hid
    obtain ⟨⟨k, hk⟩, hm⟩ := (hc o).1 ho
    rw [h.tabled.keys k o hk] at hid
    exact ⟨hid ▸ hk, hm⟩
  have hn : ∀ cm' : ClusterManager, (∀ o, cm.slotMap s = some o → (cm.heap o).id ≠ failedMasterID) →
      (if (cm.slotMap s).map (fun o => (cm.heap o).id) = some failedMasterID then cm' else cm) = cm := by
    intro cm' hno
    rw [if_neg]
    intro hma
    obtain ⟨o, ho, hid⟩ := map_eq_some_iff.1 hma
    exact hno o ho hid
  unfold ClusterManager.takeOver
  cases hq : cm.nodes.lookup failedMasterID with
  | some q =>
    dsimp only
    split
    · rename_i hm
      have hma := (hc q).2 ⟨⟨_, hq⟩, hm⟩
      exact ⟨h.tabled.slotsOnly ((slotsOnly_lose _ _ _).trans (slotsOnly_gain _ _ _)), h.consistent.move h.tabled.knownSelf hma⟩
    · rename_i hm
      rw [hn _ fun o ho hid => ?_]
      · exact h
      · obtain ⟨hqo, hmo⟩ := how o ho hid
        cases hq.symm.trans hqo
        exact hm hmo
  | none =>
    rw [hn _ fun o ho hid => ?_]
    · exact h
    · cases hq.symm.trans (how o ho hid).1

theorem InOrder.promoted (h : cm.InOrder) (failedMasterID : Bytes) : (cm.promoted failedMasterID).InOrder := by
  unfold ClusterManager.promoted
  refine List.foldlRecOn _ _ ⟨h.tabled.congr rfl rfl rfl fun q => ?_, h.consistent.congr rfl rfl fun q => ?_⟩
    fun cm h s hs => h.takeOver failedMasterID (List.mem_range.1 hs)
  all_goals
    rw [heap_setNode]
    split <;> rfl

theorem promoteReplica_cases
    (hok : cm.promoteReplica r failedMasterID = .ok x) : x = (none, cm) ∨
      cm.selfNode.role ≠ .master ∧ x = (some ((cm.promoted failedMasterID).buildSelfPacket r .pong), cm.promoted failedMasterID) := by
  unfold promoteReplica at hok
  split at hok
  · exact .inl (Except.ok.inj hok).symm
  · rename_i hr
    have hx := logID_bind hok
    exact .inr ⟨hr, (Except.ok.inj hx).symm⟩

theorem InOrder.promoteReplica (h : cm.InOrder)
    (hok : cm.promoteReplica r failedMasterID = .ok x) : x.2.InOrder := by
  rcases promoteReplica_cases hok with heq | ⟨-, heq⟩
  · rwa [heq]
  · simpa only [heq] using h.promoted failedMasterID

/-! ### Texts -/

theorem ne_nil_of_mem_splitFields {t f : Bytes} (h : f ∈ splitFields t) : f ≠ [] := by
  have hl : ∀ (ts : List Bytes) (cur : Bytes), f ∈ fieldLoop cur ts → f ≠ [] := by
    intro ts
    induction ts with
    | nil =>
      intro cur h
      unfold fieldLoop at h
      split_ifs at h with hc
      · cases h
      · rwa [List.mem_singleton.1 h]
    | cons t ts ih =>
      intro cur h
      unfold fieldLoop at h
      split_ifs at h with hs hc
      · exact ih _ h
      · rcases List.mem_cons.1 h with rfl | h
        · exact hc
        · exact ih _ h
      · exact ih _ h
  exact hl _ _ h

theorem exists_of_mem_mapM {β : Type} {f : α → Option β} {l : List α} {ls : List β} (h : l.mapM f = some ls) {b : β} (hb : b ∈ ls) :
    ∃ a ∈ l, f a = some b := by
  induction l generalizing ls with
  | nil =>
    cases h
    cases hb
  | cons a l ih =>
    rw [List.mapM_cons] at h
    obtain ⟨b', hb', h⟩ := bind_eq_some_iff.1 h
    obtain ⟨ls', hl, h⟩ := bind_eq_some_iff.1 h
    cases h
    rcases List.mem_cons.1 hb with rfl | hb
    · exact ⟨a, by simp, hb'⟩
    · obtain ⟨a', ha', hf⟩ := ih hl hb
      exact ⟨a', by simp [ha'], hf⟩

theorem lt_of_mem_parseSlotRanges {spec : Bytes} {l : List Nat} (h : parseSlotRanges spec = some l) (hs : s ∈ l) : s < 16384 := by
  obtain ⟨ls, hls, rfl⟩ := map_eq_some_iff.1 h
  rw [List.mem_insertionSort, List.mem_flatten] at hs
  obtain ⟨l, hl, hs⟩ := hs
  obtain ⟨w, -, hw⟩ := exists_of_mem_mapM hls hl
  unfold parseSlotRange at hw
  split at hw
  · obtain ⟨⟨start, rest⟩, -, hw⟩ := bind_eq_some_iff.1 hw
    dsimp only at hw
    split at hw
    · obtain ⟨⟨stop, rest'⟩, -, hw⟩ := bind_eq_some_iff.1 hw
      split at hw
      · cases hw
      · cases hw
        have := List.mem_range'_1.1 hs
        omega
    · cases hw
  · obtain ⟨⟨n, rest⟩, -, hw⟩ := bind_eq_some_iff.1 hw
    dsimp only at hw
    split at hw
    · cases hw
    · cases hw
      rw [List.mem_singleton.1 hs]
      omega

def nodeLine (line : Bytes) : Option NodeLine :=
  if trimSpace line = [] ∨ lit "vars " <+: trimSpace line then none else parseNodeLine (splitFields (trimSpace line))

def nodeLines (text : Bytes) : List NodeLine := (splitByte 10 text).filterMap nodeLine

theorem parseNodeLine_spec {parts : List Bytes} (h : parseNodeLine parts = some l) :
    l.id ∈ parts ∧ ∀ s ∈ l.slots, s < 16384 := by
  have hsl : ∀ (c : Prop) [Decidable c] (spec : Bytes), ∀ s ∈ (if c then (parseSlotRanges spec).getD [] else []), s < 16384 := by
    intro c _ spec s hs
    split at hs
    · cases hp : parseSlotRanges spec with
      | none =>
        rw [hp] at hs
        cases hs
      | some l =>
        rw [hp] at hs
        exact lt_of_mem_parseSlotRanges hp hs
    · cases hs
  unfold parseNodeLine at h
  split at h
  · cases h
    exact ⟨by simp, hsl _ _⟩
  · cases h

theorem nodeLine_spec {line : Bytes} (h : nodeLine line = some l) : l.id ≠ [] ∧ ∀ s ∈ l.slots, s < 16384 := by
  unfold nodeLine at h
  split at h
  · cases h
  · obtain ⟨hid, hs⟩ := parseNodeLine_spec h
    exact ⟨ne_nil_of_mem_splitFields hid, hs⟩

theorem InOrder.knownNode (h : cm.InOrder) (seed : NodeSeed) (nowMilli : Int) {id : Bytes} (hid : id ≠ []) (ip : Bytes)
    (port busPort : Int) (role : NodeRole) {q : Nat} {cm' : ClusterManager}
    (hk : cm.knownNode seed nowMilli id ip port busPort role = (q, cm')) :
    cm'.InOrder ∧ cm'.nodes.lookup id = some q ∧ cm'.slotMap = cm.slotMap ∧ ∀ q, cm.Known q → cm'.heap q = cm.heap q := by
  unfold ClusterManager.knownNode at hk
  cases hq : cm.nodes.lookup id with
  | some q =>
    rw [hq] at hk
    cases hk
    exact ⟨h, hq, rfl, fun _ _ => rfl⟩
  | none =>
    rw [hq] at hk
    cases hk
    refine ⟨h.enter (lookup_eq_none.1 hq) (if_neg hid) rfl, ?_, rfl, fun q' hq' => ?_⟩
    · rw [lookup_enter, if_pos rfl]
    · rw [heap_enter, if_neg (h.tabled.lt_next hq').ne]

theorem InOrder.linePeer (h : cm.InOrder) (seed : NodeSeed) (nowMilli : Int) (hl : l.id ≠ []) :
    (cm.linePeer seed nowMilli l).2.InOrder ∧ (cm.linePeer seed nowMilli l).2.nodes.lookup l.id = some (cm.linePeer seed nowMilli l).1 ∧
      (cm.linePeer seed nowMilli l).2.slotMap = cm.slotMap ∧
      ∀ q, cm.Known q → ((cm.linePeer seed nowMilli l).2.heap q).id = (cm.heap q).id := by
  unfold ClusterManager.linePeer
  rcases hk : cm.knownNode seed nowMilli l.id l.ip l.port l.busPort l.role with ⟨q, cm'⟩
  obtain ⟨h', hq, hm, hh⟩ := h.knownNode seed nowMilli hl _ _ _ _ hk
  have hset : SameTables cm' (cm'.setNode q fun n => { n with masterID := l.masterID, epoch := l.epoch, linkState := l.linkState }) :=
    .setNode cm' q (fun _ => rfl) (fun _ => rfl) fun _ => rfl
  refine ⟨h'.sameTables hset, hq, hm, fun q' hq' => ?_⟩
  rw [hset.id, hh q' hq']

theorem InOrder.lineSelf (h : cm.InOrder) (hl : cm.selfNode.id = l.id) :
    (cm.lineSelf l).InOrder ∧ ∀ q, ((cm.lineSelf l).heap q).id = (cm.heap q).id := by
  have hi : ∀ q, ((cm.lineSelf l).heap q).id = (cm.heap q).id := by
    intro q
    unfold ClusterManager.lineSelf
    rw [heap_setNode]
    split
    · rename_i hq
      subst hq
      exact hl.symm
    · rfl
  refine ⟨⟨h.tabled.congr rfl rfl rfl hi, h.consistent.congr rfl rfl fun q => ?_⟩, hi⟩
  unfold ClusterManager.lineSelf
  rw [heap_setNode]
  split <;> rfl

theorem InOrder.lineNode (h : cm.InOrder) (seed : NodeSeed) (nowMilli : Int) (hl : l.id ≠ []) :
    (cm.lineNode seed nowMilli l).2.InOrder ∧ (cm.lineNode seed nowMilli l).2.nodes.lookup l.id = some (cm.lineNode seed nowMilli l).1 ∧
      (cm.lineNode seed nowMilli l).2.slotMap = cm.slotMap ∧
      ∀ q, cm.Known q → ((cm.lineNode seed nowMilli l).2.heap q).id = (cm.heap q).id := by
  unfold ClusterManager.lineNode
  split_ifs with hm hs hs
  · have heq := hs.resolve_left h.tabled.named
    obtain ⟨hli, hi⟩ := h.lineSelf heq
    exact ⟨hli, heq ▸ h.tabled.self, rfl, fun q _ => hi q⟩
  · exact h.linePeer seed nowMilli hl
  · exact ⟨h, hs ▸ h.tabled.self, rfl, fun _ _ => rfl⟩
  · exact h.linePeer seed nowMilli hl

theorem slotMap_gains (l : List Nat) (q : Nat) (cm : ClusterManager) (s : Nat) :
    (l.foldl (fun cm s => cm.gainSlot q s) cm).slotMap s = if s ∈ l then some q else cm.slotMap s := by
  induction l generalizing cm with
  | nil => rfl
  | cons j l ih =>
    refine (ih _).trans ?_
    rw [slotMap_gain]
    by_cases hs : s ∈ l <;> by_cases hj : s = j <;> simp [hs, hj]

theorem mem_gains (l : List Nat) (p : Nat) (cm : ClusterManager) :
    s ∈ ((l.foldl (fun cm s => cm.gainSlot p s) cm).heap q).slots ↔ s ∈ (cm.heap q).slots ∨ q = p ∧ s ∈ l := by
  induction l generalizing cm with
  | nil => simp
  | cons j l ih =>
    rw [List.foldl_cons, ih, mem_gain, List.mem_cons]
    tauto

theorem slotsOnly_gains (l : List Nat) (q : Nat) (cm : ClusterManager) : SlotsOnly cm (l.foldl (fun cm s => cm.gainSlot q s) cm) :=
  .foldl (fun cm s => slotsOnly_gain cm q s) l cm

theorem InOrder.mergeNode (h : cm.InOrder) (seed : NodeSeed) (nowMilli : Int) (hl : l.id ≠ []) (hlt : ∀ s ∈ l.slots, s < 16384)
    (hs : ∀ s ∈ l.slots, ∀ q, cm.slotMap s = some q → (cm.heap q).id = l.id) :
    (cm.mergeNode seed nowMilli l).InOrder ∧ ∀ s, s < 16384 → ∀ q, (cm.mergeNode seed nowMilli l).slotMap s = some q →
      s ∈ l.slots ∧ ((cm.mergeNode seed nowMilli l).heap q).id = l.id ∨
      ∃ q', cm.slotMap s = some q' ∧ ((cm.mergeNode seed nowMilli l).heap q).id = (cm.heap q').id := by
  obtain ⟨hli, hlo, hm, hi⟩ := h.lineNode seed nowMilli hl
  unfold ClusterManager.mergeNode
  generalize cm.lineNode seed nowMilli l = x at *
  obtain ⟨p, cm₁⟩ := x
  have hk : ∀ {s q}, s < 16384 → cm.slotMap s = some q → cm.Known q := fun hs hq => ((h.consistent _ hs _).1 hq).1
  refine ⟨hli.gains ⟨l.id, hlo⟩ fun s hsl q hq => ?_, fun s hs' q hq => ?_⟩
  · have hq' := ((hli.consistent s (hlt s hsl) q).1 hq).1
    rw [hm] at hq
    refine hli.tabled.eq_of_id hq' ⟨l.id, hlo⟩ ?_
    rw [hi q (hk (hlt s hsl) hq), hs s hsl q hq, hli.tabled.keys _ _ hlo]
  · rw [slotMap_gains] at hq
    rw [(slotsOnly_gains l.slots p cm₁).id]
    split at hq
    · rename_i hme
      cases hq
      exact .inl ⟨hme, hli.tabled.keys _ _ hlo⟩
    · rw [hm] at hq
      exact .inr ⟨q, hq, hi q (hk hs' hq)⟩

theorem epochOnly_readVars (parts : List Bytes) (cm : ClusterManager) : ∃ ep, cm.readVars parts = { cm with currentEpoch := ep } := by
  induction parts using List.twoStepInduction generalizing cm with
  | nil => exact ⟨cm.currentEpoch, rfl⟩
  | singleton a => exact ⟨cm.currentEpoch, rfl⟩
  | cons_cons name value rest ih =>
    simp only [readVars]
    split
    · cases parseUint64 value with
      | none => exact ih cm
      | some n => exact ih { cm with currentEpoch := n }
    · exact ih cm

theorem mergeLine_cases (seed : NodeSeed) (nowMilli : Int) (cm : ClusterManager) (line : Bytes) :
    nodeLine line = none ∧ (∃ ep, mergeLine seed nowMilli cm line = { cm with currentEpoch := ep }) ∨
      ∃ l, nodeLine line = some l ∧ mergeLine seed nowMilli cm line = cm.mergeNode seed nowMilli l := by
  unfold mergeLine nodeLine
  by_cases he : trimSpace line = []
  · rw [if_pos he, if_pos (.inl he)]
    exact .inl ⟨rfl, cm.currentEpoch, rfl⟩
  · by_cases hv : lit "vars " <+: trimSpace line
    · rw [if_neg he, if_pos hv, if_pos (.inr hv)]
      exact .inl ⟨rfl, epochOnly_readVars _ cm⟩
    · rw [if_neg he, if_neg hv, if_neg (by tauto)]
      cases parseNodeLine (splitFields (trimSpace line)) with
      | none => exact .inl ⟨rfl, cm.currentEpoch, rfl⟩
      | some l => exact .inr ⟨l, rfl, rfl⟩

def FitsLines (cm : ClusterManager) (lines : List NodeLine) : Prop :=
  ∀ l ∈ lines, ∀ s ∈ l.slots, (∀ q, cm.slotMap s = some q → (cm.heap q).id = l.id) ∧
    ∀ l' ∈ lines, s ∈ l'.slots → l'.id = l.id

theorem FitsLines.mergeNode {lines : List NodeLine} (h : cm.InOrder) (hf : cm.FitsLines (l :: lines))
    (seed : NodeSeed) (nowMilli : Int) (hl : l.id ≠ []) (hlt : ∀ l' ∈ l :: lines, ∀ s ∈ l'.slots, s < 16384) :
    (cm.mergeNode seed nowMilli l).InOrder ∧ (cm.mergeNode seed nowMilli l).FitsLines lines := by
  obtain ⟨hm, ho⟩ := h.mergeNode seed nowMilli hl (hlt l (by simp)) fun s hs => (hf l (by simp) s hs).1
  refine ⟨hm, fun l' hl' s hs => ⟨fun q hq => ?_, fun l'' hl'' => (hf l' (by simp [hl']) s hs).2 l'' (by simp [hl''])⟩⟩
  obtain ⟨hold, hp⟩ := hf l' (by simp [hl']) s hs
  rcases ho s (hlt l' (by simp [hl']) s hs) q hq with ⟨hme, hid⟩ | ⟨q', hq', hid⟩
  · rw [hid]
    exact hp l (by simp) hme
  · rw [hid]
    exact hold q' hq'

theorem InOrder.parseAndMergeNodesText {text : Bytes} (h : cm.InOrder) (hf : cm.FitsLines (nodeLines text)) (seed : NodeSeed)
    (nowMilli : Int) : (cm.parseAndMergeNodesText seed nowMilli text).InOrder := by
  unfold ClusterManager.parseAndMergeNodesText
  unfold nodeLines at hf
  generalize splitByte 10 text = lines at *
  induction lines generalizing cm with
  | nil => exact h
  | cons line lines ih =>
    rcases mergeLine_cases seed nowMilli cm line with ⟨hn, ep, hep⟩ | ⟨l, hl, hm⟩
    · rw [List.filterMap_cons_none hn] at hf
      rw [List.foldl_cons, hep]
      exact ih (h.sameTables (.of_eq rfl rfl rfl rfl rfl rfl)) hf
    · rw [List.filterMap_cons_some hl] at hf
      rw [List.foldl_cons, hm]
      have hlt : ∀ l' ∈ l :: lines.filterMap nodeLine, ∀ s ∈ l'.slots, s < 16384 := by
        intro l' hl'
        rcases List.mem_cons.1 hl' with rfl | hl'
        · exact (nodeLine_spec hl).2
        · obtain ⟨line', -, hli⟩ := List.mem_filterMap.1 hl'
          exact (nodeLine_spec hli).2
      obtain ⟨h', hfi⟩ := hf.mergeNode h seed nowMilli (nodeLine_spec hl).1 hlt
      exact ih h' hfi

/-! ### The heartbeat -/

theorem sameTables_elevate {a' : Audit} {q : Nat} (h : a.elevate q = .ok a') : SameTables a.cm a'.cm := by
  unfold Audit.elevate at h
  dsimp only at h
  split at h
  · have ha := logID_bind h
    cases ha
    exact .setNode a.cm q (f := fun n => { n with fail := true, pFail := false }) (fun _ => rfl) (fun _ => rfl) fun _ => rfl
  · cases h
    exact .refl _

theorem sameTables_markPFail (cm : ClusterManager) (r : Readings) (q : Nat) : SameTables cm (cm.markPFail r q) :=
  (SameTables.setNode cm q (f := fun n => { n with pFail := true, linkState := "disconnected" })
    (fun _ => rfl) (fun _ => rfl) fun _ => rfl).trans (.of_eq rfl rfl rfl rfl rfl rfl)

theorem Audit.count_cm (a : Audit) (q : Nat) : (a.count q).cm = a.cm := by
  unfold Audit.count
  split <;> rfl

theorem sameTables_visit {a' : Audit} {q : Nat} (h : a.visit r q = .ok a') : SameTables a.cm a'.cm := by
  unfold Audit.visit at h
  dsimp only at h
  rw [← a.count_cm q]
  split_ifs at h
  · cases h
    exact .refl _
  · exact (sameTables_markPFail _ r q).trans (sameTables_elevate (logID_bind h))
  · exact sameTables_elevate h

theorem sameTables_audit (h : cm.audit r = .ok a) : SameTables cm a.cm := by
  have ha : ∀ (l : List Nat) (b : Audit), l.foldlM (Audit.visit r) b = .ok a → SameTables b.cm a.cm := by
    intro l
    induction l with
    | nil =>
      intro b hb
      cases hb
      exact .refl _
    | cons q l ih =>
      intro b hb
      rw [List.foldlM_cons] at hb
      obtain ⟨b', hb', hb⟩ := Except.bind_eq_ok hb
      exact (sameTables_visit hb').trans (ih b' hb)
  exact ha _ _ h

theorem sameTables_heartbeatStep {ω : Env} {x : Heartbeat × ClusterManager} (h : cm.heartbeatStep ω = .ok x) : SameTables cm x.2 := by
  obtain ⟨a, ha, h⟩ := Except.bind_eq_ok h
  cases h
  exact sameTables_audit ha

theorem sameTables_startElection {x : Option (Election × BusPacket) × ClusterManager}
    (h : cm.startElection failedMasterID = .ok x) : SameTables cm x.2 := by
  unfold startElection at h
  split at h
  · cases h
    exact .refl cm
  · have hx := logID_bind (logID_bind h)
    cases hx
    exact .of_eq rfl rfl rfl rfl rfl rfl

/-! ### Runs -/

theorem InOrder.reset (h : cm.InOrder) : cm.reset.InOrder := by
  have hl : ∀ k q, cm.reset.nodes.lookup k = some q ↔ k = cm.selfNode.id ∧ q = cm.self := fun _ _ => lookup_insert_empty
  have hh : cm.reset.heap cm.self = { cm.selfNode with slots := ∅ } :=
    (heap_setNode cm cm.self (fun n => { n with slots := ∅ }) cm.self).trans (if_pos rfl)
  have hid : cm.reset.selfNode.id = cm.selfNode.id := by
    change (cm.reset.heap cm.self).id = _
    rw [hh]
  refine ⟨⟨?_, fun k q hq => ?_, fun k q hq => ?_, hid ▸ h.tabled.named⟩, fun s hs q => ?_⟩
  · rw [hid]
    exact (hl _ _).2 ⟨rfl, rfl⟩
  · obtain ⟨rfl, rfl⟩ := (hl k q).1 hq
    exact hid
  · obtain ⟨rfl, rfl⟩ := (hl k q).1 hq
    exact h.tabled.lt_next h.tabled.knownSelf
  · constructor
    · nofun
    · rintro ⟨⟨k, hk⟩, hm⟩
      obtain ⟨rfl, rfl⟩ := (hl k q).1 hk
      rw [hh] at hm
      cases hm

theorem inOrder_loneManager (seed : NodeSeed) (nowMilli : Int) (ip : Bytes) (port busPort : Int) :
    (loneManager seed nowMilli ip port busPort).InOrder := by
  have hl : ∀ k q, (loneManager seed nowMilli ip port busPort).nodes.lookup k = some q ↔ k = generateNodeID seed ∧ q = 0 :=
    fun _ _ => lookup_insert_empty
  refine ⟨⟨(hl _ _).2 ⟨rfl, rfl⟩, fun k q hq => ?_, fun k q hq => ?_, ?_⟩, fun s hs q => ?_⟩
  · exact ((hl k q).1 hq).1.symm
  · rw [((hl k q).1 hq).2]
    exact Nat.zero_lt_one
  · obtain ⟨bytes, hlen⟩ := seed
    cases bytes with
    | nil => cases hlen
    | cons c bytes => nofun
  · constructor
    · nofun
    · rintro ⟨-, hm⟩
      cases hm

/-- The operation brings no node into the table with a slot that is bound to another one, and no sender without an ID. -/
def Fits (cm : ClusterManager) : ClusterOp → Prop
  | .addNode node => cm.FitsTable node
  | .processPacket _ _ p => p.senderID ≠ []
  | .merge _ _ text => cm.FitsLines (nodeLines text)
  | _ => True

theorem InOrder.getD (h : cm.InOrder) {x : Except Bytes ClusterManager} (hx : ∀ {cm'}, x = .ok cm' → cm'.InOrder) :
    (x.toOption.getD cm).InOrder := by
  cases x with
  | error _ => exact h
  | ok cm' => exact hx rfl

theorem ok_of_step {x : Except Stop (α × ClusterManager)} (h : x.toOption.map Prod.snd = some cm') :
    ∃ a, x = .ok (a, cm') := by
  cases x with
  | error _ => cases h
  | ok y =>
    cases h
    exact ⟨y.1, rfl⟩

theorem InOrder.step {op : ClusterOp} (hf : cm.Fits op) (h : cm.InOrder) (hstep : ClusterManager.step op cm = some cm') : cm'.InOrder := by
  cases op with
  | addSlots slots =>
    cases hstep
    exact h.getD h.addSlots
  | assignSlotsToNode nodeID slots =>
    cases hstep
    exact h.assignSlotsToNode nodeID slots
  | delSlots slots =>
    cases hstep
    exact h.getD h.delSlots
  | setSlot slot sub target =>
    cases hstep
    exact h.getD h.setSlot
  | addNode node =>
    cases hstep
    exact h.addNode hf
  | removeNode nodeID =>
    cases hstep
    exact h.getD h.removeNode
  | replicate masterID =>
    cases hstep
    exact h.getD h.replicate
  | reset =>
    cases hstep
    exact h.reset
  | processPacket r seed p =>
    obtain ⟨resp, hok⟩ := ok_of_step hstep
    exact h.processPacket hf hok
  | promoteReplica r failedMasterID =>
    obtain ⟨ann, hok⟩ := ok_of_step hstep
    exact h.promoteReplica hok
  | merge seed nowMilli text =>
    cases hstep
    exact h.parseAndMergeNodesText hf seed nowMilli
  | heartbeatStep ω =>
    obtain ⟨beat, hok⟩ := ok_of_step hstep
    exact h.sameTables (sameTables_heartbeatStep hok)
  | startElection failedMasterID =>
    obtain ⟨e, hok⟩ := ok_of_step hstep
    exact h.sameTables (sameTables_startElection hok)

/-- In a run whose operations all fit, a slot is bound to a node just if the node is known and has its bit set,
and no two known nodes have a slot. -/
theorem slot_table_consistent (seed : NodeSeed) (nowMilli : Int) (ip : Bytes) (port busPort : Int) (ops : List ClusterOp)
    (hf : Machine.Along ClusterManager.step Fits ops (loneManager seed nowMilli ip port busPort))
    (hr : Machine.run ClusterManager.step ops (loneManager seed nowMilli ip port busPort) = some cm) (hs : s < 16384) :
    (∀ q, cm.slotMap s = some q ↔ cm.Known q ∧ s ∈ (cm.heap q).slots) ∧
      ∀ q q', cm.Known q → cm.Known q' → s ∈ (cm.heap q).slots → s ∈ (cm.heap q').slots → q = q' := by
  have h : cm.InOrder := hf.run InOrder.step (inOrder_loneManager seed nowMilli ip port busPort) hr
  exact ⟨h.consistent s hs, fun q q' hq hq' => h.consistent.unique hs hq hq'⟩

def zeroSeed : NodeSeed := ⟨List.replicate 20 0, rfl⟩

def zeroManager : ClusterManager := loneManager zeroSeed 0 [] 7379 0

def peerWithSlot (slot : Nat) : ClusterNode where
  id := "peer"
  ip := "127.0.0.1"
  port := 7380
  busPort := 17380
  role := .master
  slots := {slot}

theorem slot_table_consistent_two : Machine.Along ClusterManager.step Fits [.addSlots [0], .addNode (peerWithSlot 1)] zeroManager ∧
    ∃ cm, Machine.run ClusterManager.step [.addSlots [0], .addNode (peerWithSlot 1)] zeroManager = some cm ∧
      ∀ q, cm.slotMap 1 = some q ↔ cm.Known q ∧ 1 ∈ (cm.heap q).slots := by
  have hf : Machine.Along ClusterManager.step Fits [.addSlots [0], .addNode (peerWithSlot 1)] zeroManager := by
    refine ⟨trivial, fun cm₁ h₁ => ?_⟩
    cases h₁
    refine ⟨⟨by decide, fun s _ hs => ⟨rfl, fun q hq => ?_⟩, fun q hq => ?_⟩, fun _ _ => trivial⟩
    · rw [Finset.mem_singleton.1 hs] at hq
      cases hq
    · cases hq
  exact ⟨hf, _, rfl, (slot_table_consistent _ _ _ _ _ _ hf rfl (by decide)).1⟩

/-- A node that comes with a slot of this node is bound to it, and the bit of this node stays. -/
theorem slot_bound_elsewhere : ∃ cm, Machine.run ClusterManager.step [.addSlots [0], .addNode (peerWithSlot 0)] zeroManager = some cm ∧
    cm.slotMap 0 = some 1 ∧ cm.nodes.lookup (cm.heap 1).id = some 1 ∧
    cm.nodes.lookup cm.selfNode.id = some cm.self ∧ cm.self ≠ 1 ∧ 0 ∈ cm.selfNode.slots :=
  ⟨_, rfl, rfl, rfl, by decide, by decide, by decide⟩

end ClusterManager

end VortexKV
