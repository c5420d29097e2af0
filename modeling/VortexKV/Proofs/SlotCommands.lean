import VortexKV.ClusterConfig
import VortexKV.Resp

/-!
# Slot commands and the report of the slots

A slot command that fails changes nothing, except that `AssignSlotsToNode` keeps what it has assigned before a slot out of
range. The blocks of `FormatSlots` are the runs of slots with one owner.
-/

namespace VortexKV

namespace ClusterManager

open List Function

variable {cm : ClusterManager} {target slot n : Nat} {slots : List Nat} {blocks : List SlotRangeBlock}

/-! ### Failing commands -/

inductive SlotCall
  | addSlots (slots : List Nat)
  | assignSlotsToNode (nodeID : Bytes) (slots : List Nat)
  | delSlots (slots : List Nat)
  | setSlot (slot : Nat) (sub targetNodeID : Bytes)
  | replicate (masterID : Bytes)

def SlotCall.run (cm : ClusterManager) : SlotCall → Option Bytes × ClusterManager
  | addSlots slots => of (cm.addSlots slots)
  | assignSlotsToNode nodeID slots => cm.assignSlotsToNode nodeID slots
  | delSlots slots => of (cm.delSlots slots)
  | setSlot slot sub targetNodeID => of (cm.setSlot slot sub targetNodeID)
  | replicate masterID => of (cm.replicate masterID)
where
  of : Except Bytes ClusterManager → Option Bytes × ClusterManager
    | .error e => (some e, cm)
    | .ok cm' => (none, cm')

def SameSlots (cm cm' : ClusterManager) : Prop :=
  cm'.slotMap = cm.slotMap ∧ (∀ p, (cm'.heap p).slots = (cm.heap p).slots ∧ (cm'.heap p).role = (cm.heap p).role) ∧
    cm'.migratingSlots = cm.migratingSlots ∧ cm'.importingSlots = cm.importingSlots

def Has (cm : ClusterManager) (target slot : Nat) : Prop := cm.slotMap slot = some target ∧ slot ∈ (cm.heap target).slots

/-- If `AssignSlotsToNode` meets a slot out of range, the node has all slots before it already. -/
def SlotCall.Settled (cm : ClusterManager) : SlotCall → Prop
  | assignSlotsToNode nodeID slots => ∀ target, cm.nodes.lookup nodeID = some target → (∃ s ∈ slots, s ≥ 16384) →
      ∀ s ∈ slots.takeWhile (· < 16384), cm.Has target s
  | _ => True

theorem SameSlots.refl (cm : ClusterManager) : cm.SameSlots cm := ⟨rfl, fun _ => ⟨rfl, rfl⟩, rfl, rfl⟩

theorem SameSlots.has {cm' : ClusterManager} (h : cm.SameSlots cm') (has : cm'.Has target slot) : cm.Has target slot := by
  obtain ⟨hm, hh, -⟩ := h
  rwa [Has, hm, (hh target).1] at has

theorem giveSlot_of_has (h : cm.Has target slot) : cm.giveSlot target slot = cm := by
  obtain ⟨hm, hme⟩ := h
  have hu : update cm.slotMap slot (some target) = cm.slotMap := by rw [← hm, update_eq_self]
  simp [giveSlot, gainSlot, setNode, hm, hu, Finset.insert_eq_of_mem hme]

theorem has_giveSlot : (cm.giveSlot target slot).Has target slot := by
  simp [giveSlot, Has, gainSlot, setNode]

theorem Has.giveSlot {s : Nat} (h : cm.Has target s) (slot : Nat) : (cm.giveSlot target slot).Has target s := by
  by_cases hs : s = slot
  · rw [hs]
    exact has_giveSlot
  obtain ⟨hma, hm⟩ := h
  unfold ClusterManager.giveSlot
  split
  · split
    next owner _ hid =>
      -- An owner that loses the slot is another node.
      have hne : target ≠ owner := fun he => hid (he ▸ rfl)
      simp [Has, gainSlot, loseSlot, setNode, hs, hma, hm, hne]
    · simp [Has, gainSlot, setNode, hs, hma, hm]
  · simp [Has, gainSlot, setNode, hs, hma, hm]

theorem Has.assignLoop (h : cm.Has target slot) (slots : List Nat) : (cm.assignLoop target slots).2.Has target slot := by
  induction slots generalizing cm with
  | nil => exact h
  | cons s slots ih =>
    rw [ClusterManager.assignLoop]
    split
    · exact h
    · exact ih (h.giveSlot s)

theorem has_assignLoop : ∀ s ∈ slots.takeWhile (· < 16384), (cm.assignLoop target slots).2.Has target s := by
  induction slots generalizing cm with
  | nil => simp
  | cons slot slots ih =>
    intro s hs
    by_cases hsl : slot < 16384
    · rw [ClusterManager.assignLoop, if_neg (by omega)]
      rw [takeWhile_cons_of_pos (by simpa), mem_cons] at hs
      obtain rfl | hs := hs
      · exact has_giveSlot.assignLoop slots
      · exact ih s hs
    · simp [takeWhile_cons_of_neg, hsl] at hs

theorem assignLoop_of_has (h : ∀ s ∈ slots.takeWhile (· < 16384), cm.Has target s) : (cm.assignLoop target slots).2 = cm := by
  induction slots with
  | nil => rfl
  | cons slot slots ih =>
    rw [ClusterManager.assignLoop]
    split
    · rfl
    next hsl =>
      rw [takeWhile_cons_of_pos (by simpa using hsl)] at h
      rw [giveSlot_of_has (h slot mem_cons_self)]
      exact ih fun s hs => h s (mem_cons_of_mem _ hs)

theorem assignLoop_isSome : (cm.assignLoop target slots).1.isSome ↔ ∃ s ∈ slots, s ≥ 16384 := by
  induction slots generalizing cm with
  | nil => simp [ClusterManager.assignLoop]
  | cons slot slots ih =>
    rw [ClusterManager.assignLoop]
    split
    next hs => simp [hs]
    next hs => simp [ih, hs]

theorem SlotCall.of_unchanged (r : Except Bytes ClusterManager) (h : (run.of cm r).1.isSome) : (run.of cm r).2 = cm := by
  cases r with
  | error e => rfl
  | ok cm' => simp [run.of] at h

/-- A slot command that returns an error leaves the tables as they were, unless it is an `AssignSlotsToNode` that has taken a slot
before it meets one out of range. -/
theorem slot_call_atomic_iff (cm : ClusterManager) (call : SlotCall) :
    ((call.run cm).1.isSome → cm.SameSlots (call.run cm).2) ↔ call.Settled cm := by
  cases call with
  | assignSlotsToNode nodeID slots =>
    simp only [SlotCall.run, SlotCall.Settled, assignSlotsToNode]
    cases hl : cm.nodes.lookup nodeID with
    | none => simpa using SameSlots.refl cm
    | some target =>
      simp only [Option.some.injEq, forall_eq', assignLoop_isSome]
      refine forall_congr' fun _ => ⟨fun h s hs => h.has (has_assignLoop s hs), fun h => ?_⟩
      rw [assignLoop_of_has h]
      exact .refl cm
  | _ =>
    refine iff_of_true (fun h => ?_) trivial
    rw [SlotCall.run, SlotCall.of_unchanged _ h]
    exact .refl cm

/-- Slot 1 stays assigned when slot 16384 is refused. -/
theorem assign_half_done : ∃ (cm : ClusterManager) (call : SlotCall),
    (call.run cm).1.isSome ∧ ¬cm.SameSlots (call.run cm).2 := by
  let cm := loneManager ⟨List.replicate 20 0, rfl⟩ 0 [] 7379 0
  refine ⟨cm, .assignSlotsToNode cm.selfNode.id [1, 16384], ?_⟩
  have hr : SlotCall.run cm (.assignSlotsToNode cm.selfNode.id [1, 16384]) = cm.assignLoop 0 [1, 16384] := by
    simp [SlotCall.run, assignSlotsToNode, cm, loneManager, selfNode]
  rw [hr]
  refine ⟨assignLoop_isSome.mpr ⟨16384, by simp⟩, fun h => ?_⟩
  obtain ⟨hm, -⟩ := h.has (has_assignLoop 1 (by simp))
  cases hm

/-! ### The report -/

def nodeInfo (cm : ClusterManager) (p : Nat) : Value :=
  .ofArray [.bulkString (cm.heap p).ip, .integer (cm.heap p).port, .bulkString (cm.heap p).id]

/-- `FormatSlots`, with the nodes in the order in which the loop over the node table meets them. -/
def formatSlots (cm : ClusterManager) (order : List Nat) : Value :=
  .ofArray (cm.slotBlocks.map fun b => .ofArray ([.integer b.start, .integer b.stop, cm.nodeInfo b.master] ++
    (order.filter fun p => (cm.heap p).role = .slave ∧ (cm.heap p).masterID ≠ [] ∧ (cm.heap p).masterID ≠ lit "-" ∧
      (cm.heap p).masterID = (cm.heap b.master).id).map cm.nodeInfo))

/-- The blocks describe the slots below `n`. -/
structure Report (cm : ClusterManager) (n : Nat) (blocks : List SlotRangeBlock) : Prop where
  bounds : ∀ b ∈ blocks, b.start ≤ b.stop ∧ b.stop < n
  owned : ∀ b ∈ blocks, ∀ s, b.start ≤ s → s ≤ b.stop → cm.ownerID s = some (cm.heap b.master).id
  covered : ∀ s < n, cm.ownerID s ≠ none → ∃ b ∈ blocks, b.start ≤ s ∧ s ≤ b.stop
  apart : blocks.Pairwise fun b b' => b.stop < b'.start ∧ (b.stop + 1 = b'.start → (cm.heap b.master).id ≠ (cm.heap b'.master).id)

theorem Report.skip (h : cm.Report n blocks) (hn : cm.slotMap n = none) : cm.Report (n + 1) blocks where
  bounds b hb := ⟨(h.bounds b hb).1, (h.bounds b hb).2.trans n.lt_succ_self⟩
  owned := h.owned
  apart := h.apart
  covered s hs howner := by
    obtain hs | rfl := Nat.lt_succ_iff_lt_or_eq.mp hs
    · exact h.covered s hs howner
    · simp [ownerID, hn] at howner

theorem Report.start (h : cm.Report n blocks) {owner : Nat} (hn : cm.slotMap n = some owner)
    (hl : ∀ b ∈ blocks, b.stop + 1 = n → (cm.heap b.master).id ≠ (cm.heap owner).id) :
    cm.Report (n + 1) (blocks ++ [⟨n, n, owner⟩]) where
  bounds b hb := by
    obtain hb | rfl := (mem_append.mp hb).imp_right mem_singleton.mp
    · exact ⟨(h.bounds b hb).1, (h.bounds b hb).2.trans n.lt_succ_self⟩
    · simp
  owned b hb s hstart hstop := by
    obtain hb | rfl := (mem_append.mp hb).imp_right mem_singleton.mp
    · exact h.owned b hb s hstart hstop
    · obtain rfl : s = n := le_antisymm hstop hstart
      simp [ownerID, hn]
  apart := by
    refine pairwise_append.mpr ⟨h.apart, pairwise_singleton .., fun b hb b' hb' => ?_⟩
    rw [mem_singleton.mp hb']
    exact ⟨(h.bounds b hb).2, hl b hb⟩
  covered s hs howner := by
    obtain hs | rfl := Nat.lt_succ_iff_lt_or_eq.mp hs
    · obtain ⟨b, hb, hbs⟩ := h.covered s hs howner
      exact ⟨b, mem_append_left _ hb, hbs⟩
    · exact ⟨_, mem_append_right _ (mem_singleton_self _), le_rfl, le_rfl⟩

theorem Report.extend {b : SlotRangeBlock} {owner : Nat} (h : cm.Report n (blocks ++ [b])) (hn : cm.slotMap n = some owner)
    (hid : (cm.heap b.master).id = (cm.heap owner).id) (hst : b.stop + 1 = n) :
    cm.Report (n + 1) (blocks ++ [{ b with stop := n }]) where
  bounds c hc := by
    obtain hc | rfl := (mem_append.mp hc).imp_right mem_singleton.mp
    · have hb := h.bounds c (mem_append_left _ hc)
      exact ⟨hb.1, hb.2.trans n.lt_succ_self⟩
    · have hb := (h.bounds b (by simp)).1
      exact ⟨by grind, n.lt_succ_self⟩
  owned c hc s hstart hs := by
    obtain hc | rfl := (mem_append.mp hc).imp_right mem_singleton.mp
    · exact h.owned c (mem_append_left _ hc) s hstart hs
    · obtain hs | rfl := Nat.lt_or_eq_of_le hs
      · exact h.owned b (by simp) s hstart (by grind)
      · simp [ownerID, hn, hid]
  apart := by
    obtain ⟨ha, -, hl⟩ := pairwise_append.mp h.apart
    refine pairwise_append.mpr ⟨ha, pairwise_singleton .., fun c hc c' hc' => ?_⟩
    rw [mem_singleton.mp hc']
    exact hl c hc b (by simp)
  covered s hs howner := by
    obtain hs | rfl := Nat.lt_succ_iff_lt_or_eq.mp hs
    · obtain ⟨c, hc, hcs⟩ := h.covered s hs howner
      obtain hc | rfl := (mem_append.mp hc).imp_right mem_singleton.mp
      · exact ⟨c, mem_append_left _ hc, hcs⟩
      · exact ⟨_, mem_append_right _ (mem_singleton_self _), hcs.1, hs.le⟩
    · have hb := (h.bounds b (by simp)).1
      exact ⟨_, mem_append_right _ (mem_singleton_self _), by grind, le_rfl⟩

/-- What holds before the turn of slot `n`: the open block ends right before it, and without one no block does. -/
structure Scanned (cm : ClusterManager) (n : Nat) (acc : List SlotRangeBlock × Option SlotRangeBlock) : Prop where
  report : cm.Report n (acc.1 ++ acc.2.toList)
  current : ∀ b ∈ acc.2, b.stop + 1 = n
  closed : acc.2 = none → ∀ b ∈ acc.1, b.stop + 1 < n

theorem Scanned.blockStep {acc : List SlotRangeBlock × Option SlotRangeBlock} (h : cm.Scanned n acc) :
    cm.Scanned (n + 1) (cm.blockStep acc n) := by
  obtain ⟨blocks, current⟩ := acc
  obtain ⟨hr, hcu, hcl⟩ := h
  cases hn : cm.slotMap n with
  | none =>
    have hsk := hr.skip hn
    simp only [ClusterManager.blockStep, hn]
    refine ⟨by simpa using hsk, by simp, fun _ b hb => ?_⟩
    have := (hr.bounds b hb).2
    omega
  | some owner =>
    cases current with
    | none =>
      have hst := (append_nil blocks ▸ hr).start hn fun b hb heq => absurd (hcl rfl b hb) (by omega)
      simp only [ClusterManager.blockStep, hn]
      exact ⟨hst, by simp, by simp⟩
    | some b =>
      have hso := hcu b rfl
      simp only [ClusterManager.blockStep, hn]
      split
      next hs => exact ⟨hr.extend hn hs.1 hso, by simp, by simp⟩
      next hs =>
        refine ⟨hr.start hn fun c hc heq => ?_, by simp, by simp⟩
        obtain hc | rfl := (mem_append.mp hc).imp_right mem_singleton.mp
        · -- A finished block ends before the open one starts.
          have ha := (pairwise_append.mp hr.apart).2.2 c hc b (by simp)
          have hbo := hr.bounds b (by simp)
          omega
        · exact fun hid => hs ⟨hid, heq⟩

theorem scanned_range (cm : ClusterManager) (n : Nat) : cm.Scanned n ((range n).foldl cm.blockStep ([], none)) := by
  induction n with
  | zero => exact ⟨⟨by simp, by simp, by simp, by simp⟩, by simp, by simp⟩
  | succ n ih =>
    rw [range_succ, foldl_concat]
    exact ih.blockStep

/-- The blocks of `CLUSTER SLOTS` are in order and disjoint, cover the assigned slots and no others, name the owner of their slots, and
two that touch have different owners. -/
theorem format_slots_blocks (cm : ClusterManager) (order : List Nat) : ∃ blocks : List SlotRangeBlock,
    cm.Report 16384 blocks ∧ (cm.formatSlots order).array.map (fun entry => entry.array.take 3) =
      blocks.map fun b => [.integer b.start, .integer b.stop, cm.nodeInfo b.master] := by
  have hs := cm.scanned_range 16384
  refine ⟨cm.slotBlocks, hs.report, ?_⟩
  simp [formatSlots, Value.ofArray]

end ClusterManager

end VortexKV
