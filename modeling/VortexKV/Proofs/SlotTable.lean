import VortexKV.Gossip
import VortexKV.ClusterConfig
import VortexKV.Machine

/-!
# The slot table and the bits of the nodes

Who owns a slot is kept twice, in `SlotMap` and in the `Slots` of the nodes. The operations that bind a slot to a node of
the table keep the two in agreement (`Consistent.gain`, `Consistent.move`).
-/

namespace VortexKV

namespace ClusterManager

variable {cm cm' cm'' : ClusterManager} {p q q' s j : Nat}

/-! ### What an operation on a slot leaves alone -/

theorem heap_setNode (cm : ClusterManager) (p : Nat) (f : ClusterNode → ClusterNode) (q : Nat) :
    (cm.setNode p f).heap q = if q = p then f (cm.heap q) else cm.heap q := by
  unfold setNode
  dsimp only
  rw [Function.update_apply]
  split
  · rename_i h
    rw [h]
  · rfl

structure SlotsOnly (cm cm' : ClusterManager) : Prop where
  rest : cm' = { cm with heap := cm'.heap, slotMap := cm'.slotMap }
  node : ∀ q, cm'.heap q = { cm.heap q with slots := (cm'.heap q).slots }

namespace SlotsOnly

theorem refl (cm : ClusterManager) : SlotsOnly cm cm := ⟨rfl, fun _ => rfl⟩

theorem trans (h : SlotsOnly cm cm') (h' : SlotsOnly cm' cm'') : SlotsOnly cm cm'' := by
  refine ⟨?_, fun q => ?_⟩
  · rw [h'.rest, h.rest]
  · rw [h'.node q, h.node q]

theorem id (h : SlotsOnly cm cm') (q : Nat) : (cm'.heap q).id = (cm.heap q).id := by rw [h.node q]
theorem role (h : SlotsOnly cm cm') (q : Nat) : (cm'.heap q).role = (cm.heap q).role := by rw [h.node q]
theorem self (h : SlotsOnly cm cm') : cm'.self = cm.self := by rw [h.rest]
theorem nodes (h : SlotsOnly cm cm') : cm'.nodes = cm.nodes := by rw [h.rest]
theorem next (h : SlotsOnly cm cm') : cm'.next = cm.next := by rw [h.rest]
theorem epoch (h : SlotsOnly cm cm') : cm'.currentEpoch = cm.currentEpoch := by rw [h.rest]

theorem selfID (h : SlotsOnly cm cm') : cm'.selfNode.id = cm.selfNode.id := by
  rw [selfNode, h.self, h.id]
  rfl

theorem foldl {α : Type} {f : ClusterManager → α → ClusterManager} (hf : ∀ cm a, SlotsOnly cm (f cm a)) (l : List α)
    (cm : ClusterManager) : SlotsOnly cm (l.foldl f cm) := by
  induction l generalizing cm with
  | nil => exact refl cm
  | cons a l ih => exact (hf cm a).trans (ih _)

end SlotsOnly

/-- The managers have the same tables, and their nodes the same IDs, roles and slots. -/
structure SameTables (cm cm' : ClusterManager) : Prop where
  enabled : cm'.enabled = cm.enabled
  self : cm'.self = cm.self
  nodes : cm'.nodes = cm.nodes
  next : cm'.next = cm.next
  slotMap : cm'.slotMap = cm.slotMap
  id : ∀ q, (cm'.heap q).id = (cm.heap q).id
  role : ∀ q, (cm'.heap q).role = (cm.heap q).role
  slots : ∀ q, (cm'.heap q).slots = (cm.heap q).slots

namespace SameTables

theorem refl (cm : ClusterManager) : SameTables cm cm := ⟨rfl, rfl, rfl, rfl, rfl, fun _ => rfl, fun _ => rfl, fun _ => rfl⟩

theorem trans (h : SameTables cm cm') (h' : SameTables cm' cm'') : SameTables cm cm'' :=
  ⟨h'.enabled.trans h.enabled, h'.self.trans h.self, h'.nodes.trans h.nodes, h'.next.trans h.next, h'.slotMap.trans h.slotMap,
    fun q => (h'.id q).trans (h.id q), fun q => (h'.role q).trans (h.role q), fun q => (h'.slots q).trans (h.slots q)⟩

theorem foldl {α : Type} {f : ClusterManager → α → ClusterManager} (hf : ∀ cm a, SameTables cm (f cm a)) (l : List α)
    (cm : ClusterManager) : SameTables cm (l.foldl f cm) := by
  induction l generalizing cm with
  | nil => exact refl cm
  | cons a l ih => exact (hf cm a).trans (ih _)

theorem setNode (cm : ClusterManager) (p : Nat) {f : ClusterNode → ClusterNode} (hid : ∀ n, (f n).id = n.id)
    (hr : ∀ n, (f n).role = n.role) (hs : ∀ n, (f n).slots = n.slots) : SameTables cm (cm.setNode p f) := by
  refine ⟨rfl, rfl, rfl, rfl, rfl, fun q => ?_, fun q => ?_, fun q => ?_⟩ <;> rw [heap_setNode] <;> split
  · exact hid _
  · rfl
  · exact hr _
  · rfl
  · exact hs _
  · rfl

theorem of_eq (he : cm'.enabled = cm.enabled) (hs : cm'.self = cm.self) (hnodes : cm'.nodes = cm.nodes) (hn : cm'.next = cm.next)
    (hm : cm'.slotMap = cm.slotMap) (hh : cm'.heap = cm.heap) : SameTables cm cm' :=
  ⟨he, hs, hnodes, hn, hm, fun q => by rw [hh], fun q => by rw [hh], fun q => by rw [hh]⟩

end SameTables

theorem heap_gain (cm : ClusterManager) (p s q : Nat) : (cm.gainSlot p s).heap q =
    if q = p then { cm.heap q with slots := insert s (cm.heap q).slots } else cm.heap q :=
  heap_setNode cm p (fun n => { n with slots := insert s n.slots }) q

theorem slotsOnly_lose (cm : ClusterManager) (p s : Nat) : SlotsOnly cm (cm.loseSlot p s) := by
  refine ⟨rfl, fun q => ?_⟩
  rw [loseSlot, heap_setNode]
  split <;> rfl

theorem slotsOnly_gain (cm : ClusterManager) (p s : Nat) : SlotsOnly cm (cm.gainSlot p s) := by
  refine ⟨rfl, fun q => ?_⟩
  rw [heap_gain]
  split <;> rfl

theorem mem_lose : j ∈ ((cm.loseSlot p s).heap q).slots ↔ j ∈ (cm.heap q).slots ∧ ¬ (q = p ∧ j = s) := by
  rw [loseSlot, heap_setNode]
  split
  · rw [Finset.mem_erase]
    tauto
  · tauto

theorem mem_gain : j ∈ ((cm.gainSlot p s).heap q).slots ↔ j ∈ (cm.heap q).slots ∨ q = p ∧ j = s := by
  rw [heap_gain]
  split
  · rw [Finset.mem_insert]
    tauto
  · tauto

theorem slotMap_gain (cm : ClusterManager) (p s j : Nat) :
    (cm.gainSlot p s).slotMap j = if j = s then some p else cm.slotMap j := Function.update_apply _ _ _ _

@[simp] theorem slotMap_lose (cm : ClusterManager) (p s : Nat) : (cm.loseSlot p s).slotMap = cm.slotMap := rfl

/-! ### The table -/

def Known (cm : ClusterManager) (q : Nat) : Prop := ∃ k, cm.nodes.lookup k = some q

/-- Every node is listed under its ID, the node itself among them, and the heap has room. -/
structure Tabled (cm : ClusterManager) : Prop where
  self : cm.nodes.lookup cm.selfNode.id = some cm.self
  keys : ∀ k q, cm.nodes.lookup k = some q → (cm.heap q).id = k
  fresh : ∀ k q, cm.nodes.lookup k = some q → q < cm.next
  named : cm.selfNode.id ≠ []

/-- `SlotMap` and the bits of the known nodes say the same. -/
def Consistent (cm : ClusterManager) : Prop :=
  ∀ s, s < 16384 → ∀ q, cm.slotMap s = some q ↔ cm.Known q ∧ s ∈ (cm.heap q).slots

theorem Tabled.knownSelf (h : cm.Tabled) : cm.Known cm.self := ⟨_, h.self⟩

theorem Tabled.eq_of_id (h : cm.Tabled) (hq : cm.Known q) (hq' : cm.Known q') (hid : (cm.heap q).id = (cm.heap q').id) : q = q' := by
  obtain ⟨k, hk⟩ := hq
  obtain ⟨k', hk'⟩ := hq'
  rw [h.keys k q hk, h.keys k' q' hk'] at hid
  subst hid
  exact Option.some.inj (hk.symm.trans hk')

theorem Tabled.congr (h : cm.Tabled) (hs : cm'.self = cm.self) (hnodes : cm'.nodes = cm.nodes) (hn : cm'.next = cm.next)
    (hi : ∀ q, (cm'.heap q).id = (cm.heap q).id) : cm'.Tabled := by
  have hid : cm'.selfNode.id = cm.selfNode.id := by
    rw [selfNode, hs, hi]
    rfl
  refine ⟨?_, fun k q hq => ?_, fun k q hq => ?_, hid ▸ h.named⟩
  · rw [hid, hnodes, hs]
    exact h.self
  · rw [hi]
    exact h.keys k q (hnodes ▸ hq)
  · rw [hn]
    exact h.fresh k q (hnodes ▸ hq)

theorem Tabled.slotsOnly (h : cm.Tabled) (hs : SlotsOnly cm cm') : cm'.Tabled := h.congr hs.self hs.nodes hs.next hs.id

theorem known_congr (hnodes : cm'.nodes = cm.nodes) : cm'.Known q ↔ cm.Known q := by rw [Known, hnodes]; rfl

theorem Consistent.congr (h : cm.Consistent) (hnodes : cm'.nodes = cm.nodes) (hm : cm'.slotMap = cm.slotMap)
    (hsl : ∀ q, (cm'.heap q).slots = (cm.heap q).slots) : cm'.Consistent := by
  intro s hs q
  rw [hm, known_congr hnodes, hsl]
  exact h s hs q

theorem Consistent.unique (h : cm.Consistent) (hs : s < 16384) (hq : cm.Known q) (hq' : cm.Known q')
    (hsq : s ∈ (cm.heap q).slots) (hs' : s ∈ (cm.heap q').slots) : q = q' :=
  Option.some.inj (((h s hs q).2 ⟨hq, hsq⟩).symm.trans ((h s hs q').2 ⟨hq', hs'⟩))

theorem Consistent.gain (h : cm.Consistent) (hq : cm.Known q) (hs : ∀ q', cm.slotMap s = some q' → q' = q) :
    (cm.gainSlot q s).Consistent := by
  intro j hj q'
  rw [slotMap_gain, mem_gain, known_congr (slotsOnly_gain cm q s).nodes]
  by_cases hjs : j = s
  · subst hjs
    rw [if_pos rfl, Option.some.injEq]
    constructor
    · rintro rfl
      exact ⟨hq, .inr ⟨rfl, rfl⟩⟩
    · rintro ⟨hk, hm | ⟨rfl, -⟩⟩
      · exact (hs q' ((h j hj q').2 ⟨hk, hm⟩)).symm
      · rfl
  · rw [if_neg hjs, h j hj q']
    tauto

theorem Consistent.move (h : cm.Consistent) (hq : cm.Known q) (hp : cm.slotMap s = some p) :
    ((cm.loseSlot p s).gainSlot q s).Consistent := by
  intro j hj q'
  rw [slotMap_gain, mem_gain, mem_lose, known_congr (slotsOnly_gain _ q s).nodes, known_congr (slotsOnly_lose cm p s).nodes]
  by_cases hjs : j = s
  · subst hjs
    rw [if_pos rfl, Option.some.injEq]
    constructor
    · rintro rfl
      exact ⟨hq, .inr ⟨rfl, rfl⟩⟩
    · rintro ⟨hk, ⟨hm, hn⟩ | ⟨rfl, -⟩⟩
      · exact absurd ⟨Option.some.inj (((h j hj q').2 ⟨hk, hm⟩).symm.trans hp), rfl⟩ hn
      · rfl
  · rw [if_neg hjs, slotMap_lose, h j hj q']
    tauto

theorem slotsOnly_give (cm : ClusterManager) (q s : Nat) : SlotsOnly cm (cm.giveSlot q s) := by
  unfold giveSlot
  split
  · split
    · exact (slotsOnly_lose _ _ _).trans (slotsOnly_gain _ _ _)
    · exact slotsOnly_gain _ _ _
  · exact slotsOnly_gain _ _ _

theorem Consistent.give (h : cm.Consistent) (ht : cm.Tabled) (hq : cm.Known q) (hs : s < 16384) : (cm.giveSlot q s).Consistent := by
  unfold giveSlot
  split
  · rename_i owner ho
    split
    · exact h.move hq ho
    · rename_i heq
      refine h.gain hq fun q' hq' => ?_
      have hk := ((h s hs q').1 hq').1
      cases ho.symm.trans hq'
      exact ht.eq_of_id hk hq (by simpa using heq)
  · rename_i hn
    refine h.gain hq fun q' hq' => ?_
    rw [hn] at hq'
    cases hq'

/-! ### What an operation that succeeds has done -/

def freeSlot (cm : ClusterManager) (p s : Nat) : ClusterManager :=
  { cm.loseSlot p s with slotMap := Function.update cm.slotMap s none }

section

variable {slots : List Nat} {slot : Nat} {sub id : Bytes}

theorem addSlots_ok (hok : cm.addSlots slots = .ok cm') : cm' = slots.foldl (fun cm s => cm.gainSlot cm.self s) cm ∧
    ∀ s ∈ slots, s < 16384 ∧ ∀ q, cm.slotMap s = some q → (cm.heap q).id = cm.selfNode.id := by
  unfold addSlots at hok
  split at hok
  · cases hok
  rename_i hn
  cases hok
  refine ⟨rfl, fun s hs => ?_⟩
  have hc := List.findSome?_eq_none_iff.1 hn s hs
  split at hc
  · cases hc
  rename_i hlt
  refine ⟨by omega, fun q hq => ?_⟩
  rw [getSlotOwner, if_neg hlt, hq] at hc
  simpa using hc

theorem delSlots_ok (hok : cm.delSlots slots = .ok cm') : cm' = slots.foldl (fun cm s => cm.freeSlot cm.self s) cm ∧
    ∀ s ∈ slots, s < 16384 ∧ ∀ q, cm.slotMap s = some q → (cm.heap q).id = cm.selfNode.id := by
  unfold delSlots at hok
  split at hok
  · cases hok
  rename_i hn
  cases hok
  refine ⟨rfl, fun s hs => ?_⟩
  have hc := List.findSome?_eq_none_iff.1 hn s hs
  split at hc
  · cases hc
  rename_i hlt
  refine ⟨by omega, fun q hq => ?_⟩
  rw [getSlotOwner, if_neg hlt, hq] at hc
  simpa using hc

theorem setSlot_ok (hok : cm.setSlot slot sub id = .ok cm') : slot < 16384 ∧
    (SameTables cm cm' ∨ sub = lit "NODE" ∧ ∃ q, cm.nodes.lookup id = some q ∧ SameTables (cm.giveSlot q slot) cm') := by
  unfold setSlot at hok
  split at hok
  · cases hok
  refine ⟨by omega, ?_⟩
  split at hok
  · rename_i hn
    split at hok
    · cases hok
    · rename_i q hq
      cases hok
      exact .inr ⟨hn, q, hq, .of_eq rfl rfl rfl rfl rfl rfl⟩
  · split_ifs at hok <;> cases hok <;> exact .inl (.of_eq rfl rfl rfl rfl rfl rfl)

theorem removeNode_ok (hok : cm.removeNode id = .ok cm') : id ≠ cm.selfNode.id ∧ ∃ target, cm.nodes.lookup id = some target ∧ cm' = { cm with
    slotMap := fun s => if s ∈ (cm.heap target).slots ∧ cm.slotMap s = some target then none else cm.slotMap s
    nodes := cm.nodes.erase id } := by
  unfold removeNode at hok
  split at hok
  · cases hok
  rename_i hne
  split at hok
  · cases hok
  · rename_i target hq
    cases hok
    exact ⟨hne, target, hq, rfl⟩

theorem replicate_ok (hok : cm.replicate id = .ok cm') : cm' = {
    cm.setNode cm.self (fun n => { n with slots := ∅, role := .slave, masterID := id }) with
    slotMap := fun s => if s ∈ cm.selfNode.slots ∧ cm.slotMap s = some cm.self then none else cm.slotMap s } := by
  unfold replicate at hok
  split at hok
  · cases hok
  split at hok
  · cases hok
  split at hok <;> cases hok
  rfl

end

theorem lookup_erase_some {k k' : Bytes} {m : GoMap Nat} : (m.erase k).lookup k' = some q ↔ k' ≠ k ∧ m.lookup k' = some q := by
  by_cases hk : k' = k
  · subst hk
    simp [Finmap.lookup_erase]
  · simp [hk, Finmap.lookup_erase_ne hk]

theorem lookup_insert_empty {k k' : Bytes} : ((∅ : GoMap Nat).insert k p).lookup k' = some q ↔ k' = k ∧ q = p := by
  by_cases hk : k' = k
  · rw [hk, Finmap.lookup_insert, Option.some.injEq]
    tauto
  · rw [Finmap.lookup_insert_of_ne _ hk]
    simp [hk]

structure InOrder (cm : ClusterManager) : Prop where
  tabled : cm.Tabled
  consistent : cm.Consistent

theorem InOrder.gains {l : List Nat} (h : cm.InOrder) (hq : cm.Known q) (hl : ∀ s ∈ l, ∀ q', cm.slotMap s = some q' → q' = q) :
    (l.foldl (fun cm s => cm.gainSlot q s) cm).InOrder := by
  induction l generalizing cm with
  | nil => exact h
  | cons s l ih =>
    have hs := slotsOnly_gain cm q s
    refine ih ⟨h.tabled.slotsOnly hs, h.consistent.gain hq (hl s (by simp))⟩ ((known_congr hs.nodes).2 hq) fun j hj q' hq' => ?_
    rw [slotMap_gain] at hq'
    split at hq'
    · exact (Option.some.inj hq').symm
    · exact hl j (by simp [hj]) q' hq'

theorem InOrder.eq_self (h : cm.InOrder) (hs : s < 16384) (hq : cm.slotMap s = some q) (hid : (cm.heap q).id = cm.selfNode.id) :
    q = cm.self := h.tabled.eq_of_id ((h.consistent s hs q).1 hq).1 h.tabled.knownSelf hid

theorem foldl_gain_self (l : List Nat) (cm : ClusterManager) :
    l.foldl (fun cm s => cm.gainSlot cm.self s) cm = l.foldl (fun cm' s => cm'.gainSlot cm.self s) cm := by
  induction l generalizing cm with
  | nil => rfl
  | cons s l ih => exact (ih (cm.gainSlot cm.self s)).trans rfl

theorem InOrder.addSlots {slots : List Nat} (h : cm.InOrder) (hok : cm.addSlots slots = .ok cm') : cm'.InOrder := by
  obtain ⟨rfl, how⟩ := addSlots_ok hok
  rw [foldl_gain_self]
  exact h.gains h.tabled.knownSelf fun s hs q hq => h.eq_self (how s hs).1 hq ((how s hs).2 q hq)

theorem InOrder.assignLoop {slots : List Nat} (h : cm.InOrder) (hq : cm.Known q) : (cm.assignLoop q slots).2.InOrder := by
  induction slots generalizing cm with
  | nil => exact h
  | cons s slots ih =>
    unfold ClusterManager.assignLoop
    split
    · exact h
    · have hs := slotsOnly_give cm q s
      exact ih ⟨h.tabled.slotsOnly hs, h.consistent.give h.tabled hq (by omega)⟩ ((known_congr hs.nodes).2 hq)

theorem InOrder.assignSlotsToNode (h : cm.InOrder) (nodeID : Bytes) (slots : List Nat) : (cm.assignSlotsToNode nodeID slots).2.InOrder := by
  unfold ClusterManager.assignSlotsToNode
  cases hq : cm.nodes.lookup nodeID with
  | none => exact h
  | some q => exact h.assignLoop ⟨nodeID, hq⟩

theorem Consistent.free (h : cm.Consistent) (hs : ∀ q, cm.slotMap s = some q → q = p) : (cm.freeSlot p s).Consistent := by
  intro j hj q
  change Function.update cm.slotMap s none j = some q ↔ cm.Known q ∧ j ∈ ((cm.loseSlot p s).heap q).slots
  rw [mem_lose, Function.update_apply]
  by_cases hjs : j = s
  · subst hjs
    rw [if_pos rfl]
    constructor
    · nofun
    · rintro ⟨hk, hm, hn⟩
      exact absurd ⟨hs q ((h j hj q).2 ⟨hk, hm⟩), rfl⟩ hn
  · rw [if_neg hjs, h j hj q]
    tauto

theorem slotsOnly_free (cm : ClusterManager) (p s : Nat) : SlotsOnly cm (cm.freeSlot p s) :=
  ⟨rfl, (slotsOnly_lose cm p s).node⟩

theorem InOrder.frees {l : List Nat} (h : cm.InOrder) (hl : ∀ s ∈ l, ∀ q, cm.slotMap s = some q → q = cm.self) :
    (l.foldl (fun cm s => cm.freeSlot cm.self s) cm).InOrder := by
  induction l generalizing cm with
  | nil => exact h
  | cons s l ih =>
    have hs := slotsOnly_free cm cm.self s
    refine ih ⟨h.tabled.slotsOnly hs, h.consistent.free (hl s (by simp))⟩ fun j hj q hq => ?_
    change Function.update cm.slotMap s none j = some q at hq
    rw [Function.update_apply] at hq
    split at hq
    · cases hq
    · exact hl j (by simp [hj]) q hq

theorem InOrder.delSlots {slots : List Nat} (h : cm.InOrder) (hok : cm.delSlots slots = .ok cm') : cm'.InOrder := by
  obtain ⟨rfl, how⟩ := delSlots_ok hok
  exact h.frees fun s hs q hq => h.eq_self (how s hs).1 hq ((how s hs).2 q hq)

theorem InOrder.sameTables (h : cm.InOrder) (hs : SameTables cm cm') : cm'.InOrder :=
  ⟨h.tabled.congr hs.self hs.nodes hs.next hs.id, h.consistent.congr hs.nodes hs.slotMap hs.slots⟩

theorem InOrder.setSlot {slot : Nat} {sub target : Bytes} (h : cm.InOrder) (hok : cm.setSlot slot sub target = .ok cm') : cm'.InOrder := by
  obtain ⟨hlt, hs | ⟨-, q, hq, hs⟩⟩ := setSlot_ok hok
  · exact h.sameTables hs
  · have hg : (cm.giveSlot q slot).InOrder :=
      ⟨h.tabled.slotsOnly (slotsOnly_give cm q slot), h.consistent.give h.tabled ⟨target, hq⟩ hlt⟩
    exact hg.sameTables hs

theorem InOrder.removeNode {nodeID : Bytes} (h : cm.InOrder) (hok : cm.removeNode nodeID = .ok cm') : cm'.InOrder := by
  obtain ⟨hne, target, hq, rfl⟩ := removeNode_ok hok
  refine ⟨⟨?_, fun k q hk => ?_, fun k q hk => ?_, h.tabled.named⟩, fun s hs q => ?_⟩
  · exact lookup_erase_some.2 ⟨Ne.symm hne, h.tabled.self⟩
  · exact h.tabled.keys k q (lookup_erase_some.1 hk).2
  · exact h.tabled.fresh k q (lookup_erase_some.1 hk).2
  · -- the nodes that stay are not the one removed
    have hst : Known { cm with
        slotMap := fun s => if s ∈ (cm.heap target).slots ∧ cm.slotMap s = some target then none else cm.slotMap s
        nodes := cm.nodes.erase nodeID } q ↔ cm.Known q ∧ q ≠ target := by
      constructor
      · rintro ⟨k, hk⟩
        obtain ⟨hkn, hk'⟩ := lookup_erase_some.1 hk
        refine ⟨⟨k, hk'⟩, ?_⟩
        rintro rfl
        exact hkn ((h.tabled.keys k q hk').symm.trans (h.tabled.keys nodeID q hq))
      · rintro ⟨⟨k, hk⟩, hqt⟩
        refine ⟨k, lookup_erase_some.2 ⟨?_, hk⟩⟩
        rintro rfl
        exact hqt (Option.some.inj (hk.symm.trans hq))
    rw [hst]
    dsimp only
    have hc := h.consistent s hs
    split
    · rename_i hcu
      constructor
      · nofun
      · rintro ⟨⟨hk, hqt⟩, hm⟩
        exact absurd (Option.some.inj (((hc q).2 ⟨hk, hm⟩).symm.trans hcu.2)) hqt
    · rename_i hke
      rw [hc q]
      constructor
      · rintro ⟨hk, hm⟩
        refine ⟨⟨hk, ?_⟩, hm⟩
        rintro rfl
        exact hke ⟨hm, (hc q).2 ⟨hk, hm⟩⟩
      · rintro ⟨⟨hk, -⟩, hm⟩
        exact ⟨hk, hm⟩

theorem InOrder.replicate {masterID : Bytes} (h : cm.InOrder) (hok : cm.replicate masterID = .ok cm') : cm'.InOrder := by
  obtain rfl := replicate_ok hok
  have hh : ∀ q, (cm.setNode cm.self fun n => { n with slots := ∅, role := .slave, masterID := masterID }).heap q =
      if q = cm.self then { cm.heap q with slots := ∅, role := .slave, masterID := masterID } else cm.heap q :=
    heap_setNode cm cm.self _
  refine ⟨h.tabled.congr rfl rfl rfl fun q => ?_, fun s hs q => ?_⟩
  · refine (congrArg ClusterNode.id (hh q)).trans ?_
    split <;> rfl
  · have hc := h.consistent s hs
    change (if s ∈ cm.selfNode.slots ∧ cm.slotMap s = some cm.self then none else cm.slotMap s) = some q ↔
      cm.Known q ∧ s ∈ ((cm.setNode cm.self fun n => { n with slots := ∅, role := .slave, masterID := masterID }).heap q).slots
    rw [hh]
    by_cases hse : q = cm.self
    · rw [if_pos hse]
      constructor
      · intro hm
        split at hm
        · cases hm
        · rename_i hke
          subst hse
          exact absurd ⟨((hc _).1 hm).2, hm⟩ hke
      · rintro ⟨-, hme⟩
        simp at hme
    · rw [if_neg hse]
      split
      · rename_i hcu
        constructor
        · nofun
        · intro hk
          exact absurd (Option.some.inj (((hc q).2 hk).symm.trans hcu.2)) hse
      · exact hc q

end ClusterManager

end VortexKV
