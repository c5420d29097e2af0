import VortexKV.Proofs.TableRuns
import VortexKV.Proofs.SlotRanges

/-!
# The owners of slots

`owners_are_masters`: in every run whose operations bind slots to masters only, an owner is a master in this node's view, and
its line gives the slot. A replica that was promoted stays a slave in the view of its peers.
-/

namespace VortexKV

open List Finmap

variable {slots : List Nat} {l : NodeLine}

namespace ClusterManager

variable {cm cm' : ClusterManager} {p q q' s j : Nat}

/-! ### Owners -/

/-- The node itself has an ID and no other key, and the heap has room. -/
structure Rooted (cm : ClusterManager) : Prop where
  named : cm.selfNode.id ≠ []
  alone : ∀ k, cm.nodes.lookup k = some cm.self → k = cm.selfNode.id
  self_lt : cm.self < cm.next
  fresh : ∀ k q, cm.nodes.lookup k = some q → q < cm.next

/-- A node that `SlotMap` names has the slot and is a master. -/
structure Owned (cm : ClusterManager) : Prop where
  rooted : cm.Rooted
  owner : ∀ s q, cm.slotMap s = some q → s ∈ (cm.heap q).slots ∧ (cm.heap q).role = .master ∧ q < cm.next

theorem Rooted.congr (h : cm.Rooted) (hs : cm'.self = cm.self) (hnodes : cm'.nodes = cm.nodes) (hn : cm'.next = cm.next)
    (hi : ∀ q, (cm'.heap q).id = (cm.heap q).id) : cm'.Rooted := by
  have hid : cm'.selfNode.id = cm.selfNode.id := by
    rw [selfNode, hs, hi]
    rfl
  refine ⟨hid ▸ h.named, fun k hk => ?_, ?_, fun k q hq => ?_⟩
  · rw [hnodes, hs] at hk
    rw [hid]
    exact h.alone k hk
  · rw [hs, hn]
    exact h.self_lt
  · rw [hn]
    exact h.fresh k q (hnodes ▸ hq)

theorem Owned.sameTables (h : cm.Owned) (hs : SameTables cm cm') : cm'.Owned := by
  refine ⟨h.rooted.congr hs.self hs.nodes hs.next hs.id, fun s q hq => ?_⟩
  rw [hs.slots, hs.role, hs.next]
  exact h.owner s q (hs.slotMap ▸ hq)

theorem Rooted.slotsOnly (h : cm.Rooted) (hs : SlotsOnly cm cm') : cm'.Rooted := h.congr hs.self hs.nodes hs.next hs.id

theorem Owned.gain (h : cm.Owned) (hr : (cm.heap q).role = .master) (hlt : q < cm.next) (s : Nat) : (cm.gainSlot q s).Owned := by
  have hs := slotsOnly_gain cm q s
  refine ⟨h.rooted.slotsOnly hs, fun j q' hq' => ?_⟩
  rw [slotMap_gain] at hq'
  rw [mem_gain, hs.role, hs.next]
  split at hq'
  · rename_i hj
    cases hq'
    exact ⟨.inr ⟨rfl, hj⟩, hr, hlt⟩
  · obtain ⟨hm, hre⟩ := h.owner j q' hq'
    exact ⟨.inl hm, hre⟩

theorem Owned.move (h : cm.Owned) (hr : (cm.heap q).role = .master) (hlt : q < cm.next) (p s : Nat) :
    ((cm.loseSlot p s).gainSlot q s).Owned := by
  have hs := (slotsOnly_lose cm p s).trans (slotsOnly_gain (cm.loseSlot p s) q s)
  refine ⟨h.rooted.slotsOnly hs, fun j q' hq' => ?_⟩
  rw [slotMap_gain] at hq'
  rw [mem_gain, mem_lose, hs.role, hs.next]
  split at hq'
  · rename_i hj
    cases hq'
    exact ⟨.inr ⟨rfl, hj⟩, hr, hlt⟩
  · rename_i hj
    obtain ⟨hm, hre⟩ := h.owner j q' hq'
    exact ⟨.inl ⟨hm, fun hl => hj hl.2⟩, hre⟩

theorem Owned.gains (h : cm.Owned) (hr : (cm.heap q).role = .master) (hlt : q < cm.next) (l : List Nat) :
    (l.foldl (fun cm s => cm.gainSlot q s) cm).Owned := by
  induction l generalizing cm with
  | nil => exact h
  | cons s l ih =>
    have hs := slotsOnly_gain cm q s
    exact ih (h.gain hr hlt s) ((hs.role q).trans hr) (hs.next ▸ hlt)

theorem Owned.addSlots (h : cm.Owned) (hr : slots = [] ∨ cm.selfNode.role = .master)
    (hok : cm.addSlots slots = .ok cm') : cm'.Owned := by
  obtain ⟨rfl, -⟩ := addSlots_ok hok
  rw [foldl_gain_self]
  rcases hr with rfl | hr
  · exact h
  · exact h.gains hr h.rooted.self_lt slots

theorem Owned.give (h : cm.Owned) (hr : (cm.heap q).role = .master) (hlt : q < cm.next) (s : Nat) : (cm.giveSlot q s).Owned := by
  unfold giveSlot
  split
  · split
    · exact h.move hr hlt _ s
    · exact h.gain hr hlt s
  · exact h.gain hr hlt s

theorem Owned.assignSlotsToNode (h : cm.Owned) {nodeID : Bytes}
    (hr : slots = [] ∨ ∀ q, cm.nodes.lookup nodeID = some q → (cm.heap q).role = .master) : (cm.assignSlotsToNode nodeID slots).2.Owned := by
  have hl : ∀ (slots : List Nat) (cm : ClusterManager), cm.Owned → ∀ q, (cm.heap q).role = .master → q < cm.next →
      (cm.assignLoop q slots).2.Owned := by
    intro slots
    induction slots with
    | nil => exact fun cm h _ _ _ => h
    | cons s slots ih =>
      intro cm h q hr hlt
      unfold assignLoop
      split
      · exact h
      · have hs := slotsOnly_give cm q s
        exact ih _ (h.give hr hlt s) q ((hs.role q).trans hr) (hs.next ▸ hlt)
  unfold ClusterManager.assignSlotsToNode
  cases hq : cm.nodes.lookup nodeID with
  | none => exact h
  | some q =>
    rcases hr with rfl | hr
    · exact h
    · exact hl slots cm h q (hr q hq) (h.rooted.fresh nodeID q hq)

theorem Owned.unbind (h : cm.Owned) (hro : cm'.Rooted) (hn : cm'.next = cm.next)
    (hma : ∀ s q, cm'.slotMap s = some q → cm.slotMap s = some q ∧
      ((s ∈ (cm.heap q).slots → s ∈ (cm'.heap q).slots) ∧ (cm'.heap q).role = (cm.heap q).role)) : cm'.Owned := by
  refine ⟨hro, fun s q hq => ?_⟩
  obtain ⟨hold, hs, hr⟩ := hma s q hq
  obtain ⟨hme, hm, hlt⟩ := h.owner s q hold
  exact ⟨hs hme, hr.trans hm, hn ▸ hlt⟩

theorem Owned.free (h : cm.Owned) (p s : Nat) : (cm.freeSlot p s).Owned := by
  have hs := slotsOnly_free cm p s
  refine h.unbind (h.rooted.slotsOnly hs) hs.next fun j q hq => ?_
  change Function.update cm.slotMap s none j = some q at hq
  rw [Function.update_apply] at hq
  split at hq
  · cases hq
  · rename_i hj
    exact ⟨hq, fun hm => mem_lose.2 ⟨hm, fun hl => hj hl.2⟩, hs.role q⟩

theorem Owned.delSlots (h : cm.Owned) (hok : cm.delSlots slots = .ok cm') : cm'.Owned := by
  obtain ⟨rfl, -⟩ := delSlots_ok hok
  exact foldlRecOn slots _ h fun cm h s _ => h.free cm.self s

theorem Owned.setSlot (h : cm.Owned) {slot : Nat} {sub target : Bytes}
    (hr : sub = lit "NODE" → ∀ q, cm.nodes.lookup target = some q → (cm.heap q).role = .master)
    (hok : cm.setSlot slot sub target = .ok cm') : cm'.Owned := by
  obtain ⟨-, hs | ⟨hn, q, hq, hs⟩⟩ := setSlot_ok hok
  · exact h.sameTables hs
  · exact (h.give (hr hn q hq) (h.rooted.fresh target q hq) slot).sameTables hs

/-! ### Nodes that come and go -/

theorem Rooted.enter (h : cm.Rooted) (k : Bytes) (node : ClusterNode) : (cm.enter k node).Rooted := by
  have hs : (cm.enter k node).selfNode = cm.selfNode := by
    rw [selfNode, heap_enter]
    exact if_neg h.self_lt.ne
  refine ⟨hs ▸ h.named, fun k' hk' => ?_, Nat.lt_succ_of_lt h.self_lt, fun k' q hq => ?_⟩
  · rw [lookup_enter] at hk'
    split at hk'
    · exact absurd (Option.some.inj hk').symm h.self_lt.ne
    · rw [hs]
      exact h.alone k' hk'
  · rw [lookup_enter] at hq
    split at hq
    · cases hq
      exact Nat.lt_succ_self _
    · exact Nat.lt_succ_of_lt (h.fresh k' q hq)

theorem Owned.enter (h : cm.Owned) (k : Bytes) (node : ClusterNode) : (cm.enter k node).Owned := by
  refine ⟨h.rooted.enter k node, fun s q hq => ?_⟩
  obtain ⟨hm, hr, hlt⟩ := h.owner s q hq
  rw [heap_enter, if_neg hlt.ne]
  exact ⟨hm, hr, Nat.lt_succ_of_lt hlt⟩

theorem Owned.addNode (h : cm.Owned) (node : ClusterNode) : (cm.addNode node).Owned := by
  have he := h.enter node.id node
  refine ⟨he.rooted.congr rfl rfl rfl fun _ => rfl, fun s q hq => ?_⟩
  change (if node.role = .master ∧ s ∈ node.slots then some cm.next else cm.slotMap s) = some q at hq
  split at hq
  · rename_i hm
    cases hq
    have hn : (cm.addNode node).heap cm.next = node := (heap_enter cm node.id node cm.next).trans (if_pos rfl)
    rw [hn]
    exact ⟨hm.2, hm.1, Nat.lt_succ_self _⟩
  · exact he.owner s q hq

theorem Owned.removeNode (h : cm.Owned) {nodeID : Bytes} (hok : cm.removeNode nodeID = .ok cm') : cm'.Owned := by
  obtain ⟨-, target, -, rfl⟩ := removeNode_ok hok
  refine h.unbind ⟨h.rooted.named, fun k hk => h.rooted.alone k (lookup_erase_some.1 hk).2, h.rooted.self_lt,
    fun k q hk => h.rooted.fresh k q (lookup_erase_some.1 hk).2⟩ rfl fun s q hq => ?_
  dsimp only at hq
  split at hq
  · cases hq
  · exact ⟨hq, fun hm => hm, rfl⟩

theorem Owned.setSelf (h : cm.Owned) {f : ClusterNode → ClusterNode} {slotMap : Nat → Option Nat} (hid : (f cm.selfNode).id = cm.selfNode.id)
    (hs : ∀ s, slotMap s = some cm.self → s ∈ (f cm.selfNode).slots ∧ (f cm.selfNode).role = .master)
    (hma : ∀ s q, slotMap s = some q → q = cm.self ∨ cm.slotMap s = some q) :
    Owned { cm.setNode cm.self f with slotMap := slotMap } := by
  have hi : ∀ q, ((cm.setNode cm.self f).heap q).id = (cm.heap q).id := by
    intro q
    rw [heap_setNode]
    split
    · rename_i hq
      subst hq
      exact hid
    · rfl
  refine ⟨h.rooted.congr rfl rfl rfl hi, fun s q hq => ?_⟩
  rw [heap_setNode]
  split
  · rename_i heq
    subst heq
    obtain ⟨hm, hr⟩ := hs s hq
    exact ⟨hm, hr, h.rooted.self_lt⟩
  · rename_i hne
    exact h.owner s q ((hma s q hq).resolve_left hne)

theorem Owned.replicate (h : cm.Owned) {masterID : Bytes} (hok : cm.replicate masterID = .ok cm') : cm'.Owned := by
  obtain rfl := replicate_ok hok
  refine h.setSelf (f := fun n => { n with slots := ∅, role := .slave, masterID := masterID }) rfl (fun s hs => ?_) fun s q hs => ?_
  · -- what was bound to this node has its bit, and is unbound
    split at hs
    · cases hs
    · rename_i hk
      exact absurd ⟨(h.owner s cm.self hs).1, hs⟩ hk
  · split at hs
    · cases hs
    · exact .inr hs

theorem Owned.reset (h : cm.Owned) : cm.reset.Owned := by
  have hse : Owned { cm.setNode cm.self (fun n => { n with slots := ∅ }) with slotMap := fun _ => none } :=
    h.setSelf rfl (fun s hs => by cases hs) fun s q hs => by cases hs
  have hl : ∀ {k q}, cm.reset.nodes.lookup k = some q → k = cm.selfNode.id ∧ q = cm.self := lookup_insert_empty.1
  have hid : cm.reset.selfNode.id = cm.selfNode.id := by
    change ((cm.setNode cm.self fun n => { n with slots := ∅ }).heap cm.self).id = _
    rw [heap_setNode, if_pos rfl]
    rfl
  refine ⟨⟨hse.rooted.named, fun k hk => hid ▸ (hl hk).1, h.rooted.self_lt, fun k q hk => ?_⟩, hse.owner⟩
  rw [(hl hk).2]
  exact h.rooted.self_lt

/-! ### Packets and promotion -/

/-- A packet that claims slots comes from a node that is a master in this node's view, or enters the table as one. -/
def FromMaster (cm : ClusterManager) (p : BusPacket) : Prop :=
  p.flags.master = false ∨ p.slots = ∅ ∨
    match cm.nodes.lookup p.senderID with
    | some q => (cm.heap q).role = .master
    | none => p.flags.slave = false

theorem Owned.syncSlots (h : cm.Owned) {p : BusPacket} (hr : p.slots = ∅ ∨ (cm.heap q).role = .master) (hlt : q < cm.next) :
    (cm.syncSlots q p).Owned := by
  unfold ClusterManager.syncSlots
  generalize List.range 16384 = l
  induction l generalizing cm with
  | nil => exact h
  | cons s l ih =>
    have hs := slotsOnly_claim cm q p s
    refine ih ?_ (hr.imp_right fun hr => (hs.role q).trans hr) (hs.next ▸ hlt)
    unfold claimSlot
    split
    · rename_i hm
      have hr := hr.resolve_left (Finset.ne_empty_of_mem hm)
      split
      · exact h.gain hr hlt s
      · split_ifs
        · exact h
        · exact h
        · exact h.move hr hlt _ s
    · exact h

theorem Owned.receive (h : cm.Owned) (r : Readings) (seed : NodeSeed) {p : BusPacket} (hp : cm.FromMaster p) : (cm.receive r seed p).Owned := by
  have hr : (cm.registerSender r seed p).2.Owned ∧ (cm.registerSender r seed p).1 < (cm.registerSender r seed p).2.next ∧
      (p.flags.master = false ∨ p.slots = ∅ ∨ ((cm.registerSender r seed p).2.heap (cm.registerSender r seed p).1).role = .master) := by
    unfold FromMaster at hp
    unfold registerSender
    cases hq : cm.nodes.lookup p.senderID with
    | some q =>
      rw [hq] at hp
      exact ⟨h, h.rooted.fresh _ q hq, hp⟩
    | none =>
      rw [hq] at hp
      refine ⟨h.enter _ _, Nat.lt_succ_self _, hp.imp_right (Or.imp_right fun hs => ?_)⟩
      rw [heap_enter, if_pos rfl, hs]
      rfl
  obtain ⟨hr, hlt, hm⟩ := hr
  have hg := sameTables_greet (cm.registerSender r seed p).2 r p (cm.registerSender r seed p).1
  rw [receive_eq]
  split
  · rename_i hf
    refine (hr.sameTables hg).syncSlots ?_ (hg.next ▸ hlt)
    rw [hg.role]
    exact hm.resolve_left (by simp [hf])
  · exact hr.sameTables hg

theorem Owned.promoted (h : cm.Owned) (failedMasterID : Bytes) : (cm.promoted failedMasterID).Owned := by
  have ha : ∀ (l : List Nat) (cm : ClusterManager), cm.Owned → cm.selfNode.role = .master →
      (l.foldl (takeOver failedMasterID) cm).Owned := by
    intro l
    induction l with
    | nil => exact fun cm h _ => h
    | cons s l ih =>
      intro cm h hr
      have ht : (takeOver failedMasterID cm s).Owned ∧ SlotsOnly cm (takeOver failedMasterID cm s) := by
        unfold takeOver
        split
        · split_ifs
          · exact ⟨h.move hr h.rooted.self_lt _ s, (slotsOnly_lose _ _ _).trans (slotsOnly_gain _ _ _)⟩
          · exact ⟨h.gain hr h.rooted.self_lt s, slotsOnly_gain _ _ _⟩
          · exact ⟨h, .refl cm⟩
        · split_ifs
          · exact ⟨h.gain hr h.rooted.self_lt s, slotsOnly_gain _ _ _⟩
          · exact ⟨h, .refl cm⟩
      refine ih _ ht.1 ?_
      rw [selfNode, ht.2.self, ht.2.role]
      exact hr
  unfold ClusterManager.promoted
  refine ha _ _ (h.setSelf (f := fun n => { n with role := .master, masterID := "-" }) rfl (fun s hs => ⟨(h.owner s _ hs).1, rfl⟩) fun s q hs => .inr hs) ?_
  rw [selfNode, heap_setNode]
  exact congrArg ClusterNode.role (if_pos rfl)

/-! ### Texts -/

def lineTarget (cm : ClusterManager) (l : NodeLine) : Option Nat :=
  if l.id = cm.selfNode.id then some cm.self else cm.nodes.lookup l.id

/-- A line that gives slots is about a node that is a master in this view or is new, and no line of the text says
otherwise; a line that makes this node a slave finds no slot bound to it. -/
structure MasterLines (cm : ClusterManager) (lines : List NodeLine) : Prop where
  target : ∀ l ∈ lines, l.slots ≠ [] → ∀ q, cm.lineTarget l = some q → (cm.heap q).role = .master
  agree : ∀ l ∈ lines, l.slots ≠ [] → ∀ l' ∈ lines, l'.id = l.id → l'.role = .master
  demoted : ∀ l ∈ lines, l.myself = true → l.id = cm.selfNode.id → l.role ≠ .master → ∀ s, cm.slotMap s ≠ some cm.self

theorem lineTarget_congr (hs : cm'.self = cm.self) (hnodes : cm'.nodes = cm.nodes) (hid : cm'.selfNode.id = cm.selfNode.id)
    (l : NodeLine) : cm'.lineTarget l = cm.lineTarget l := by
  unfold lineTarget
  rw [hs, hnodes, hid]

theorem Rooted.eq_self (h : cm.Rooted) (ht : cm.lineTarget l = some cm.self) : l.id = cm.selfNode.id := by
  unfold lineTarget at ht
  split at ht
  · assumption
  · exact h.alone l.id ht

structure Lined (cm : ClusterManager) (l : NodeLine) (q : Nat) (cm' : ClusterManager) : Prop where
  owned : cm'.Owned
  self : cm'.self = cm.self
  selfID : cm'.selfNode.id = cm.selfNode.id
  slotMap : cm'.slotMap = cm.slotMap
  target : cm'.lineTarget l = some q
  role : ∀ l' : NodeLine, (∀ q, cm.lineTarget l' = some q → (cm.heap q).role = .master) → (l'.id = l.id → l.role = .master) →
    ∀ q, cm'.lineTarget l' = some q → (cm'.heap q).role = .master

theorem Lined.refl (h : cm.Owned) (ht : cm.lineTarget l = some q) : Lined cm l q cm :=
  ⟨h, rfl, rfl, rfl, ht, fun _ hl' _ => hl'⟩

theorem Owned.linePeer (h : cm.Owned) (seed : NodeSeed) (nowMilli : Int) (hne : l.id ≠ cm.selfNode.id) :
    Lined cm l (cm.linePeer seed nowMilli l).1 (cm.linePeer seed nowMilli l).2 := by
  have hk : Lined cm l (cm.knownNode seed nowMilli l.id l.ip l.port l.busPort l.role).1
      (cm.knownNode seed nowMilli l.id l.ip l.port l.busPort l.role).2 := by
    unfold knownNode
    cases hq : cm.nodes.lookup l.id with
    | some q => exact .refl h ((if_neg hne).trans hq)
    | none =>
      have hs : (cm.enter l.id (newNode seed nowMilli l.id l.ip l.port l.busPort l.role)).selfNode = cm.selfNode := by
        rw [selfNode, heap_enter]
        exact if_neg h.rooted.self_lt.ne
      refine ⟨h.enter _ _, rfl, congrArg ClusterNode.id hs, rfl, ?_, fun l' hl' ha q hq' => ?_⟩
      · unfold lineTarget
        rw [hs, if_neg hne, lookup_enter, if_pos rfl]
      · unfold lineTarget at hq'
        rw [hs, lookup_enter] at hq'
        rw [heap_enter]
        split_ifs at hq' with hl hli
        · cases hq'
          exact (congrArg ClusterNode.role (if_neg h.rooted.self_lt.ne)).trans (hl' _ (if_pos hl))
        · cases hq'
          rw [if_pos rfl]
          exact ha hli
        · rw [if_neg (h.rooted.fresh _ q hq').ne]
          exact hl' q ((if_neg hl).trans hq')
  unfold ClusterManager.linePeer
  generalize cm.knownNode seed nowMilli l.id l.ip l.port l.busPort l.role = x at *
  obtain ⟨q, cm₁⟩ := x
  have hset : SameTables cm₁ (cm₁.setNode q fun n => { n with masterID := l.masterID, epoch := l.epoch, linkState := l.linkState }) :=
    .setNode cm₁ q (fun _ => rfl) (fun _ => rfl) fun _ => rfl
  have hid : _ = cm₁.selfNode.id := hset.id cm₁.self
  have ht := lineTarget_congr hset.self hset.nodes hid
  refine ⟨hk.owned.sameTables hset, hk.self, hid.trans hk.selfID, hk.slotMap, (ht l).trans hk.target, ?_⟩
  intro l' hl' ha q' hq'
  rw [hset.role]
  exact hk.role l' hl' ha q' ((ht l') ▸ hq')

theorem Owned.lineSelf (h : cm.Owned) (hl : cm.selfNode.id = l.id)
    (hd : l.role ≠ .master → ∀ s, cm.slotMap s ≠ some cm.self) : Lined cm l cm.self (cm.lineSelf l) := by
  have hh : ∀ q, ((cm.lineSelf l).heap q).role = if q = cm.self then l.role else (cm.heap q).role := by
    intro q
    unfold ClusterManager.lineSelf
    rw [heap_setNode]
    split <;> rfl
  have hid : (cm.lineSelf l).selfNode.id = cm.selfNode.id := by
    unfold ClusterManager.lineSelf
    rw [selfNode, heap_setNode]
    exact (congrArg ClusterNode.id (if_pos rfl)).trans hl.symm
  have ht : ∀ l', (cm.lineSelf l).lineTarget l' = cm.lineTarget l' := lineTarget_congr rfl rfl hid
  refine ⟨?_, rfl, hid, rfl, (ht l).trans (if_pos hl.symm), fun l' hl' ha q hq => ?_⟩
  · refine h.setSelf (f := fun n => { n with
        id := l.id, ip := l.ip, port := l.port, busPort := l.busPort, role := l.role, masterID := l.masterID
        epoch := l.epoch, linkState := l.linkState }) hl.symm (fun s hs => ⟨(h.owner s _ hs).1, ?_⟩) fun s q hs => .inr hs
    by_contra hr
    exact hd hr s hs
  · rw [ht] at hq
    rw [hh]
    split
    · rename_i hse
      subst hse
      exact ha ((h.rooted.eq_self hq).trans hl)
    · exact hl' q hq

theorem Owned.lineNode (h : cm.Owned) (seed : NodeSeed) (nowMilli : Int)
    (hd : l.myself = true → l.id = cm.selfNode.id → l.role ≠ .master → ∀ s, cm.slotMap s ≠ some cm.self) :
    Lined cm l (cm.lineNode seed nowMilli l).1 (cm.lineNode seed nowMilli l).2 := by
  unfold ClusterManager.lineNode
  split_ifs with hm hs hs
  · have heq := hs.resolve_left h.rooted.named
    exact h.lineSelf heq (hd hm heq.symm)
  · exact h.linePeer seed nowMilli fun heq => hs (.inr heq.symm)
  · exact .refl h (if_pos hs)
  · exact h.linePeer seed nowMilli hs

theorem MasterLines.mergeNode {lines : List NodeLine} (h : cm.Owned) (hln : cm.MasterLines (l :: lines))
    (seed : NodeSeed) (nowMilli : Int) : (cm.mergeNode seed nowMilli l).Owned ∧ (cm.mergeNode seed nowMilli l).MasterLines lines := by
  have hli := h.lineNode seed nowMilli (hln.demoted l (by simp))
  have hma := fun l' hl' hs => hli.role l' (hln.target l' hl' hs) fun hid => hln.agree l' hl' hs l (by simp) hid.symm
  unfold ClusterManager.mergeNode
  generalize cm.lineNode seed nowMilli l = x at *
  obtain ⟨q, cm₁⟩ := x
  dsimp only at *
  have hs := slotsOnly_gains l.slots q cm₁
  have hta := lineTarget_congr hs.self hs.nodes hs.selfID
  refine ⟨?_, fun l' hl' hne q' hq' => ?_, fun l' hl' hne l'' hl'' => hln.agree l' (by simp [hl']) hne l'' (by simp [hl'']),
    fun l' hl' hmy hid hr s hm => ?_⟩
  · by_cases hne : l.slots = []
    · rw [hne]
      exact hli.owned
    · have hlt : q < cm₁.next := by
        have ht := hli.target
        unfold lineTarget at ht
        split at ht
        · exact Option.some.inj ht ▸ hli.owned.rooted.self_lt
        · exact hli.owned.rooted.fresh _ q ht
      exact hli.owned.gains (hma l (by simp) hne q hli.target) hlt l.slots
  · rw [hs.role]
    exact hma l' (by simp [hl']) hne q' ((hta l') ▸ hq')
  · rw [slotMap_gains, hs.self] at hm
    rw [hs.selfID, hli.selfID] at hid
    split at hm
    · -- the line gave slots to this node, so that no line makes it a slave
      rename_i hme
      have hl := hli.owned.rooted.eq_self (hli.target.trans hm)
      exact hr (hln.agree l (by simp) (ne_nil_of_mem hme) l' (by simp [hl']) (hid.trans (hl.trans hli.selfID).symm))
    · rw [hli.slotMap, hli.self] at hm
      exact hln.demoted l' (by simp [hl']) hmy hid hr s hm

theorem Owned.parseAndMergeNodesText {text : Bytes} (h : cm.Owned) (hli : cm.MasterLines (nodeLines text)) (seed : NodeSeed)
    (nowMilli : Int) : (cm.parseAndMergeNodesText seed nowMilli text).Owned := by
  unfold ClusterManager.parseAndMergeNodesText
  unfold nodeLines at hli
  generalize splitByte 10 text = lines at *
  induction lines generalizing cm with
  | nil => exact h
  | cons line lines ih =>
    rcases mergeLine_cases seed nowMilli cm line with ⟨hn, ep, hep⟩ | ⟨l, hl, hm⟩
    · rw [filterMap_cons_none hn] at hli
      rw [foldl_cons, hep]
      exact ih (h.sameTables (.of_eq rfl rfl rfl rfl rfl rfl)) ⟨hli.target, hli.agree, hli.demoted⟩
    · rw [filterMap_cons_some hl] at hli
      rw [foldl_cons, hm]
      obtain ⟨h', hln⟩ := hli.mergeNode h seed nowMilli
      exact ih h' hln

/-! ### Runs -/

theorem owned_loneManager (seed : NodeSeed) (nowMilli : Int) (ip : Bytes) (port busPort : Int) :
    (loneManager seed nowMilli ip port busPort).Owned := by
  have h := (inOrder_loneManager seed nowMilli ip port busPort).tabled
  refine ⟨⟨h.named, fun k hk => (h.keys k _ hk).symm, Nat.zero_lt_one, h.fresh⟩, ?_⟩
  nofun

/-- The operation binds slots to masters only, and makes no owner a slave. -/
def BindsMasters (cm : ClusterManager) : ClusterOp → Prop
  | .addSlots slots => slots = [] ∨ cm.selfNode.role = .master
  | .assignSlotsToNode nodeID slots => slots = [] ∨ ∀ q, cm.nodes.lookup nodeID = some q → (cm.heap q).role = .master
  | .setSlot _ sub target => sub = lit "NODE" → ∀ q, cm.nodes.lookup target = some q → (cm.heap q).role = .master
  | .processPacket _ _ p => cm.FromMaster p
  | .merge _ _ text => cm.MasterLines (nodeLines text)
  | _ => True

theorem Owned.getD (h : cm.Owned) {x : Except Bytes ClusterManager} (hx : ∀ {cm'}, x = .ok cm' → cm'.Owned) : (x.toOption.getD cm).Owned := by
  cases x with
  | error _ => exact h
  | ok cm' => exact hx rfl

theorem Owned.step {op : ClusterOp} (hop : cm.BindsMasters op) (h : cm.Owned) (hstep : ClusterManager.step op cm = some cm') : cm'.Owned := by
  cases op with
  | addSlots slots =>
    cases hstep
    exact h.getD (h.addSlots hop)
  | assignSlotsToNode nodeID slots =>
    cases hstep
    exact h.assignSlotsToNode hop
  | delSlots slots =>
    cases hstep
    exact h.getD h.delSlots
  | setSlot slot sub target =>
    cases hstep
    exact h.getD (h.setSlot hop)
  | addNode node =>
    cases hstep
    exact h.addNode node
  | removeNode nodeID =>
    cases hstep
    exact h.getD h.removeNode
  | replicate masterID =>
    cases hstep
    exact h.getD h.replicate
  | reset =>
    cases hstep
    exact h.reset
  | processPacket r seed p =>
    obtain ⟨resp, hok⟩ := ok_of_step hstep
    exact (h.receive r seed hop).sameTables (sameTables_processPacket hok)
  | promoteReplica r failedMasterID =>
    obtain ⟨ann, hok⟩ := ok_of_step hstep
    rcases promoteReplica_cases hok with heq | ⟨-, heq⟩
    · exact (Prod.mk.inj heq).2 ▸ h
    · exact (Prod.mk.inj heq).2 ▸ h.promoted failedMasterID
  | merge seed nowMilli text =>
    cases hstep
    exact h.parseAndMergeNodesText hop seed nowMilli
  | heartbeatStep ω =>
    obtain ⟨beat, hok⟩ := ok_of_step hstep
    exact h.sameTables (sameTables_heartbeatStep hok)
  | startElection failedMasterID =>
    obtain ⟨e, hok⟩ := ok_of_step hstep
    exact h.sameTables (sameTables_startElection hok)

def LineGives (line : Bytes) (s : Nat) : Prop := ∃ ranges l, lit " " ++ ranges <:+ line ∧ parseSlotRanges ranges = some l ∧ s ∈ l

theorem lineGives_master {n : ClusterNode} (hr : n.role = .master) (hs : s < 16384) (hm : s ∈ n.slots) (isMyself : Bool) :
    LineGives (n.formatNodeLine isMyself) s := by
  have hl := (ClusterNode.mem_slotsList hs).2 hm
  have hst : n.slotStr = joinBytes (lit " ") n.slotTexts := by
    unfold ClusterNode.slotStr
    rw [if_pos hr, n.slotRangesString_eq]
  have hp := n.parseSlotRanges_text
  rw [← hst] at hp
  refine ⟨n.slotStr, n.slotsList, ?_, hp, hl⟩
  have hne : n.slotStr ≠ [] := by
    intro hn
    rw [hn] at hp
    have he : some n.slotsList = some [] := hp.symm.trans rfl
    rw [Option.some.inj he] at hl
    cases hl
  unfold ClusterNode.formatNodeLine
  rw [if_pos hne, append_assoc]
  exact suffix_append _ _

theorem joinBytes_append (sep t : Bytes) (ts : List Bytes) :
    joinBytes sep (t :: ts) ++ sep = (t :: ts).flatMap (· ++ sep) := by
  induction ts generalizing t with
  | nil => simp [joinBytes]
  | cons u ts ih =>
    rw [joinBytes_cons, append_assoc, append_assoc, ih u]
    simp

theorem saveConfig_eq (cm : ClusterManager) :
    cm.saveConfig = cm.formatNodes ++ (lit "vars currentEpoch " ++ formatUint cm.currentEpoch ++ lit " lastVoteEpoch 0\n") := by
  unfold saveConfig formatNodes nodeTexts
  rw [joinBytes_append]

def Shown (cm : ClusterManager) (q : Nat) : Prop := q = cm.self ∨ ∃ k ≠ cm.selfNode.id, cm.nodes.lookup k = some q

theorem Shown.line (h : cm.Shown q) : ∃ isMyself, (cm.heap q).formatNodeLine isMyself ∈ cm.nodeTexts := by
  rcases h with rfl | ⟨k, hne, hk⟩
  · exact ⟨true, mem_cons_self⟩
  · refine ⟨false, mem_cons_of_mem _ (mem_filterMap.2 ⟨k, mem_filter.2 ⟨?_, by simpa using hne⟩, by rw [hk]; rfl⟩)⟩
    exact mem_sortedKeys.2 (lookup_isSome.1 (by rw [hk]; rfl))

theorem infix_flatMap {t : Bytes} {ts : List Bytes} (ht : t ∈ ts) (sep : Bytes) : t ++ sep <:+: ts.flatMap (· ++ sep) := by
  obtain ⟨before, after, rfl⟩ := append_of_mem ht
  refine ⟨before.flatMap (· ++ sep), after.flatMap (· ++ sep), ?_⟩
  simp

/-- In a run whose operations bind slots to masters only, an owner is a master, and its line of `CLUSTER NODES` and of
the configuration file gives the slot. -/
theorem owners_are_masters (seed : NodeSeed) (nowMilli : Int) (ip : Bytes) (port busPort : Int) (ops : List ClusterOp)
    (ho : Machine.Along ClusterManager.step BindsMasters ops (loneManager seed nowMilli ip port busPort))
    (hru : Machine.run ClusterManager.step ops (loneManager seed nowMilli ip port busPort) = some cm)
    (hs : s < 16384) (hq : cm.slotMap s = some q) :
    (cm.heap q).role = .master ∧ (cm.Shown q → ∃ isMyself, LineGives ((cm.heap q).formatNodeLine isMyself) s ∧
      (cm.heap q).formatNodeLine isMyself ++ lit "\n" <:+: cm.formatNodes ∧
      (cm.heap q).formatNodeLine isMyself ++ lit "\n" <:+: cm.saveConfig) := by
  have h : cm.Owned := ho.run Owned.step (owned_loneManager seed nowMilli ip port busPort) hru
  obtain ⟨hm, hr, -⟩ := h.owner s q hq
  refine ⟨hr, fun hsh => ?_⟩
  obtain ⟨isMyself, hl⟩ := hsh.line
  have hi : (cm.heap q).formatNodeLine isMyself ++ lit "\n" <:+: cm.formatNodes := by
    have := infix_flatMap hl (lit "\n")
    unfold formatNodes
    unfold nodeTexts at this ⊢
    rwa [joinBytes_append]
  refine ⟨isMyself, lineGives_master hr hs hm isMyself, hi, ?_⟩
  rw [saveConfig_eq]
  exact hi.trans (prefix_append _ _).isInfix

theorem owners_are_masters_self : Machine.Along ClusterManager.step BindsMasters [.addSlots [0]] zeroManager ∧
    ∃ cm, Machine.run ClusterManager.step [.addSlots [0]] zeroManager = some cm ∧ cm.slotMap 0 = some 0 ∧ (cm.heap 0).role = .master := by
  have ho : Machine.Along ClusterManager.step BindsMasters [.addSlots [0]] zeroManager := ⟨.inr rfl, fun _ _ => trivial⟩
  exact ⟨ho, _, rfl, rfl, (owners_are_masters (s := 0) _ _ _ _ _ _ ho rfl (by decide) rfl).1⟩

def replicaPong : BusPacket where
  type := .pong
  epoch := 1
  senderID := "replica1"
  senderIP := "127.0.0.1"
  port := 7381
  busPort := 17381
  flags := { slave := true }

def promotedPong : BusPacket := { replicaPong with epoch := 2, flags := { master := true }, slots := {0} }

/-- A node that knew the replica binds the slot to it, has it as a slave and drops the slot from its line. -/
theorem promoted_stays_slave : ∃ cm, Machine.run ClusterManager.step
      [.processPacket (.plain 0) ⟨List.replicate 20 0, rfl⟩ replicaPong, .processPacket (.plain 0) ⟨List.replicate 20 0, rfl⟩ promotedPong]
      zeroManager = some cm ∧
    cm.slotMap 0 = some 1 ∧ (cm.heap 1).id = lit "replica1" ∧ (cm.heap 1).role = .slave ∧ (cm.heap 1).slotStr = [] := by
  have hstep : ∀ (p : BusPacket) (cm : ClusterManager), p.type = .pong → p.gossip = [] →
      ClusterManager.step (.processPacket (.plain 0) ⟨List.replicate 20 0, rfl⟩ p) cm =
        some (cm.receive (.plain 0) ⟨List.replicate 20 0, rfl⟩ p) := by
    intro p cm hp hg
    rw [ClusterManager.step, processPacket_pong cm _ _ hp hg]
    rfl
  refine ⟨(zeroManager.receive (.plain 0) ⟨List.replicate 20 0, rfl⟩ replicaPong).receive (.plain 0) ⟨List.replicate 20 0, rfl⟩ promotedPong, ?_, ?_⟩
  · rw [Machine.run, hstep _ _ rfl rfl, Option.bind_some, Machine.run, hstep _ _ rfl rfl, Option.bind_some, Machine.run]
  · rw [receive_eq, if_pos (show promotedPong.flags.master = true from rfl), syncSlots_singleton (s := 0) _ _ rfl (by decide)]
    exact ⟨rfl, rfl, rfl, rfl⟩

end ClusterManager

end VortexKV
