import VortexKV.Proofs.NewerClaims

/-!
# Slots that somebody claims

`slots_not_orphaned`: over a network that delivers any packet ever sent, to anybody, a slot that a node claims stays claimed,
if a node only ever cedes a slot to a sender that still claims it. Nothing in the code sees to that.
-/

namespace VortexKV

open Function Option

namespace ClusterManager

variable {cm cm' : ClusterManager} {s j : Nat}

/-! ### When a node cedes a slot -/

/-- The node claims a slot and will not cede it to the sender. -/
structure Retains (cm : ClusterManager) (sender : Nat) (p : BusPacket) (s : Nat) : Prop where
  mem : s ∈ cm.selfNode.slots
  keep : cm.slotMap s = some cm.self → s ∈ p.slots → cm.selfNode.id ≠ (cm.heap sender).id → cm.currentEpoch > p.epoch

theorem Retains.claim {sender : Nat} {p : BusPacket} (h : Retains cm sender p s) (j : Nat) : Retains (claimSlot sender p cm j) sender p s := by
  have hs := slotsOnly_claim cm sender p j
  refine ⟨?_, fun hm hme hne => ?_⟩
  · rw [selfNode, hs.self]
    have hse := h.mem
    unfold claimSlot
    split
    · rename_i hj
      split
      · exact mem_gain.2 (.inl hse)
      · rename_i owner ho
        split_ifs with hsa hp
        · exact hse
        · exact hse
        · refine mem_gain.2 (.inl (mem_lose.2 ⟨hse, ?_⟩))
          rintro ⟨how, rfl⟩
          subst how
          exact hp ⟨rfl, h.keep ho hj hsa⟩
    · exact hse
  · rw [hs.selfID, hs.id] at hne
    rw [hs.epoch]
    rw [slotMap_claim, hs.self] at hm
    split at hm
    · rcases newOwner_cases hm with hold | rfl
      · exact h.keep hold hme hne
      · exact absurd rfl hne
    · exact h.keep hm hme hne

theorem Retains.syncSlots {sender : Nat} {p : BusPacket} (h : Retains cm sender p s) : s ∈ (cm.syncSlots sender p).selfNode.slots := by
  unfold ClusterManager.syncSlots
  generalize List.range 16384 = l
  induction l generalizing cm with
  | nil => exact h.mem
  | cons j l ih => exact ih (h.claim j)

theorem SameTables.selfSlots (h : SameTables cm cm') : cm'.selfNode.slots = cm.selfNode.slots := by
  rw [selfNode, h.self, h.slots]
  rfl

theorem Allocated.retains (h : cm.Allocated) (r : Readings) (seed : NodeSeed) {p : BusPacket} (hs : s ∈ cm.selfNode.slots)
    (hk : cm.slotMap s = some cm.self → ¬ cm.Moves seed p s cm.self) : s ∈ (cm.receive r seed p).selfNode.slots := by
  have hr := h.registerSender r seed p
  rw [receive_eq]
  generalize cm.registerSender r seed p = x at *
  obtain ⟨sender, cm₁⟩ := x
  have hg := sameTables_greet cm₁ r p sender
  have hse : cm₁.selfNode = cm.selfNode := by
    rw [selfNode, hr.self, hr.heap _ h.self]
    rfl
  have hme : s ∈ (cm₁.greet r p sender).selfNode.slots := by
    rw [hg.selfSlots, hse]
    exact hs
  split
  · rename_i hm
    have hid : (cm₁.greet r p sender).selfNode.id = cm.selfNode.id := by
      rw [selfNode, hg.self, hg.id]
      exact congrArg ClusterNode.id hse
    have hre : Retains (cm₁.greet r p sender) sender p s := by
      refine ⟨hme, fun hma hp hne => ?_⟩
      rw [hg.slotMap, hg.self, hr.slotMap, hr.self] at hma
      rw [hid, hg.id, hr.id] at hne
      rw [epoch_greet, hr.epoch]
      by_contra he
      exact hk hma ⟨hm, hp, hne, fun hpr => he hpr.2⟩
    exact Retains.syncSlots hre
  · exact hme

theorem Allocated.addSlots (h : cm.Allocated) {slots : List Nat} (hok : cm.addSlots slots = .ok cm') :
    cm'.Allocated ∧ cm.selfNode.slots ⊆ cm'.selfNode.slots := by
  obtain ⟨rfl, -⟩ := addSlots_ok hok
  rw [foldl_gain_self]
  have hs := slotsOnly_gains slots cm.self cm
  refine ⟨h.congr hs.self hs.nodes hs.next fun s q hq => ?_, ?_⟩
  · rw [slotMap_gains] at hq
    split at hq
    · cases hq
      exact .inr h.self
    · exact .inl hq
  · intro s hm
    rw [selfNode, hs.self]
    exact (mem_gains slots cm.self cm).2 (.inl hm)

end ClusterManager

/-! ### The network -/

structure Network (ι : Type) where
  nodes : ι → ClusterManager
  allocated : ∀ i, (nodes i).Allocated
  sent : List BusPacket

inductive NetEvent (ι : Type)
  | addSlots (i : ι) (slots : List Nat)
  | heartbeat (i : ι) (ω : Env)
  /-- The `k`-th packet that was sent reaches a node. -/
  | deliver (i : ι) (k : Nat) (r : Readings) (seed : NodeSeed)

namespace Network

variable {ι : Type} [DecidableEq ι] {net net' : Network ι} {i : ι} {s : Nat}

def set (net : Network ι) (i : ι) (cm : ClusterManager) (h : cm.Allocated) (packets : List BusPacket) : Network ι where
  nodes := Function.update net.nodes i cm
  allocated j := by
    rw [update_apply]
    split
    · exact h
    · exact net.allocated j
  sent := net.sent ++ packets

def addSlots (net : Network ι) (i : ι) (slots : List Nat) : Network ι :=
  match h : (net.nodes i).addSlots slots with
  | .ok cm => net.set i cm ((net.allocated i).addSlots h).1 []
  | .error _ => net

def heartbeat (net : Network ι) (i : ι) (ω : Env) : Option (Network ι) :=
  match h : (net.nodes i).heartbeatStep ω with
  | .ok x => some (net.set i x.2 ((net.allocated i).sameTables (ClusterManager.sameTables_heartbeatStep h)) [x.1.ping])
  | .error _ => none

def deliver (net : Network ι) (i : ι) (p : BusPacket) (r : Readings) (seed : NodeSeed) : Option (Network ι) :=
  match h : (net.nodes i).processPacket r seed p with
  | .ok x => some (net.set i x.2 ((net.allocated i).processPacket h) x.1.toList)
  | .error _ => none

def step : NetEvent ι → Network ι → Option (Network ι)
  | .addSlots i slots, net => some (net.addSlots i slots)
  | .heartbeat i ω, net => net.heartbeat i ω
  | .deliver i k r seed, net => (net.sent[k]?).bind fun p => net.deliver i p r seed

def Claimed (net : Network ι) (s : Nat) : Prop := ∃ i, s ∈ (net.nodes i).selfNode.slots

/-- A node that cedes a slot cedes it to a sender that still claims it. -/
def Cedes (net : Network ι) : NetEvent ι → Prop
  | .deliver i k _ seed => ∀ p, net.sent[k]? = some p → ∀ s, (net.nodes i).slotMap s = some (net.nodes i).self →
      (net.nodes i).Moves seed p s (net.nodes i).self →
      ∃ j ≠ i, (net.nodes j).selfNode.id = p.senderID ∧ s ∈ (net.nodes j).selfNode.slots
  | _ => True

theorem nodes_set (net : Network ι) (i : ι) (cm : ClusterManager) (h : cm.Allocated) (packets : List BusPacket) (j : ι) :
    (net.set i cm h packets).nodes j = if j = i then cm else net.nodes j := update_apply _ _ _ _

theorem Claimed.set (hc : net.Claimed s) {cm : ClusterManager} (h : cm.Allocated) (packets : List BusPacket)
    (hk : s ∈ (net.nodes i).selfNode.slots → s ∈ cm.selfNode.slots ∨ ∃ j ≠ i, s ∈ (net.nodes j).selfNode.slots) :
    (net.set i cm h packets).Claimed s := by
  have ho : (∃ j ≠ i, s ∈ (net.nodes j).selfNode.slots) → (net.set i cm h packets).Claimed s := by
    rintro ⟨j, hne, hj⟩
    exact ⟨j, by rwa [nodes_set, if_neg hne]⟩
  obtain ⟨j, hj⟩ := hc
  by_cases hji : j = i
  · subst hji
    rcases hk hj with hm | hm
    · exact ⟨j, by rwa [nodes_set, if_pos rfl]⟩
    · exact ho hm
  · exact ho ⟨j, hji, hj⟩

theorem Claimed.addSlots (hc : net.Claimed s) (i : ι) (slots : List Nat) : (net.addSlots i slots).Claimed s := by
  unfold Network.addSlots
  split
  · rename_i cm hok
    exact hc.set _ _ fun hm => .inl (((net.allocated i).addSlots hok).2 hm)
  · exact hc

theorem Claimed.heartbeat (hc : net.Claimed s) {ω : Env} (hstep : net.heartbeat i ω = some net') : net'.Claimed s := by
  unfold Network.heartbeat at hstep
  split at hstep
  · rename_i x hok
    cases hstep
    refine hc.set _ _ fun hm => .inl ?_
    rw [(ClusterManager.sameTables_heartbeatStep hok).selfSlots]
    exact hm
  · cases hstep

theorem Claimed.deliver (hc : net.Claimed s) {p : BusPacket} {r : Readings} {seed : NodeSeed} (hstep : net.deliver i p r seed = some net')
    (hev : (net.nodes i).slotMap s = some (net.nodes i).self → (net.nodes i).Moves seed p s (net.nodes i).self →
      ∃ j ≠ i, (net.nodes j).selfNode.id = p.senderID ∧ s ∈ (net.nodes j).selfNode.slots) : net'.Claimed s := by
  unfold Network.deliver at hstep
  split at hstep
  · rename_i x hok
    cases hstep
    refine hc.set _ _ fun hme => ?_
    by_cases hce : (net.nodes i).slotMap s = some (net.nodes i).self ∧ (net.nodes i).Moves seed p s (net.nodes i).self
    · obtain ⟨j, hne, -, hj⟩ := hev hce.1 hce.2
      exact .inr ⟨j, hne, hj⟩
    · left
      rw [(ClusterManager.sameTables_processPacket hok).selfSlots]
      exact (net.allocated i).retains r seed hme fun hma hm => hce ⟨hma, hm⟩
  · cases hstep

theorem Claimed.step {ev : NetEvent ι} (hev : net.Cedes ev) (hc : net.Claimed s) (hstep : Network.step ev net = some net') : net'.Claimed s := by
  cases ev with
  | addSlots i slots =>
    cases hstep
    exact hc.addSlots i slots
  | heartbeat i ω => exact hc.heartbeat hstep
  | deliver i k r seed =>
    obtain ⟨p, hp, hstep⟩ := bind_eq_some_iff.1 hstep
    exact hc.deliver hstep (hev p hp s)

def twinSeed (i : Bool) : NodeSeed := ⟨List.replicate 20 (if i then 1 else 0), by simp⟩

end Network

end VortexKV
