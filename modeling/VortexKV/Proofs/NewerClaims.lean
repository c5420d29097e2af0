import VortexKV.Proofs.TableRuns

/-!
# Claims and their epochs

`newer_claims_win`: no slot goes from its owner to a sender with a lower epoch, just if every packet that claims a slot of a
third node has an epoch not below that owner's claim. `ProcessPacket` compares epochs only for its own slots.
-/

namespace VortexKV

open List

namespace ClusterManager

variable {cm cm' : ClusterManager} {q q' s j : Nat}

/-! ### What becomes of a slot -/

structure Allocated (cm : ClusterManager) : Prop where
  self : cm.self < cm.next
  nodes : ∀ k q, cm.nodes.lookup k = some q → q < cm.next
  slots : ∀ s q, cm.slotMap s = some q → q < cm.next

def newOwner (cm : ClusterManager) (sender : Nat) (p : BusPacket) (s : Nat) : Option Nat :=
  if s ∈ p.slots then
    match cm.slotMap s with
    | none => some sender
    | some owner =>
      if (cm.heap owner).id = (cm.heap sender).id ∨ (cm.heap owner).id = cm.selfNode.id ∧ cm.currentEpoch > p.epoch then some owner
      else some sender
  else cm.slotMap s

theorem slotMap_claim (cm : ClusterManager) (sender : Nat) (p : BusPacket) (j s : Nat) :
    (claimSlot sender p cm j).slotMap s = if s = j then cm.newOwner sender p s else cm.slotMap s := by
  by_cases hsj : s = j
  · subst hsj
    rw [if_pos rfl]
    unfold claimSlot newOwner
    split
    · cases hm : cm.slotMap s with
      | none =>
        rw [slotMap_gain, if_pos rfl]
      | some owner =>
        dsimp only
        by_cases hs : (cm.heap owner).id = (cm.heap sender).id
        · rw [if_pos hs, if_pos (.inl hs), hm]
        · by_cases hse : (cm.heap owner).id = cm.selfNode.id ∧ cm.currentEpoch > p.epoch
          · rw [if_neg hs, if_pos hse, if_pos (.inr hse), hm]
          · rw [if_neg hs, if_neg hse, if_neg (not_or.2 ⟨hs, hse⟩), slotMap_gain, if_pos rfl]
    · rfl
  · rw [if_neg hsj]
    unfold claimSlot
    split
    · split
      · rw [slotMap_gain, if_neg hsj]
      · split_ifs
        · rfl
        · rfl
        · rw [slotMap_gain, if_neg hsj, slotMap_lose]
    · rfl

theorem newOwner_congr (h : SlotsOnly cm cm') (hm : cm'.slotMap s = cm.slotMap s) (sender : Nat) (p : BusPacket) :
    cm'.newOwner sender p s = cm.newOwner sender p s := by
  unfold newOwner
  rw [hm, h.selfID, h.epoch]
  simp only [h.id]

theorem slotMap_claims {l : List Nat} (hl : l.Nodup) (cm : ClusterManager) (sender : Nat) (p : BusPacket) (s : Nat) :
    (l.foldl (claimSlot sender p) cm).slotMap s = if s ∈ l then cm.newOwner sender p s else cm.slotMap s := by
  induction l generalizing cm with
  | nil => rfl
  | cons j l ih =>
    obtain ⟨hj, hl⟩ := nodup_cons.1 hl
    have hc := slotMap_claim cm sender p j s
    rw [foldl_cons, ih hl, hc]
    by_cases hsj : s = j
    · subst hsj
      rw [if_neg hj, if_pos rfl, if_pos (by simp)]
    · rw [if_neg hsj] at hc
      rw [newOwner_congr (slotsOnly_claim cm sender p j) hc, if_neg hsj]
      simp [hsj]

theorem slotMap_syncSlots (cm : ClusterManager) (sender : Nat) (p : BusPacket) (hs : s < 16384) :
    (cm.syncSlots sender p).slotMap s = cm.newOwner sender p s := by
  unfold syncSlots
  rw [slotMap_claims nodup_range, if_pos (mem_range.2 hs)]

/-! ### The node of the sender -/

def senderNodeID (cm : ClusterManager) (seed : NodeSeed) (p : BusPacket) : Bytes :=
  match cm.nodes.lookup p.senderID with
  | some q => (cm.heap q).id
  | none => if p.senderID = [] then generateNodeID seed else p.senderID

structure Registered (cm : ClusterManager) (id : Bytes) (q : Nat) (cm' : ClusterManager) : Prop where
  allocated : cm'.Allocated
  id : (cm'.heap q).id = id
  heap : ∀ q', q' < cm.next → cm'.heap q' = cm.heap q'
  self : cm'.self = cm.self
  slotMap : cm'.slotMap = cm.slotMap
  epoch : cm'.currentEpoch = cm.currentEpoch
  lt : q < cm'.next

theorem Allocated.registerSender (h : cm.Allocated) (r : Readings) (seed : NodeSeed) (p : BusPacket) :
    Registered cm (cm.senderNodeID seed p) (cm.registerSender r seed p).1 (cm.registerSender r seed p).2 := by
  unfold senderNodeID ClusterManager.registerSender
  cases hq : cm.nodes.lookup p.senderID with
  | some q => exact ⟨h, rfl, fun _ _ => rfl, rfl, rfl, rfl, h.nodes _ q hq⟩
  | none =>
    refine ⟨⟨Nat.lt_succ_of_lt h.self, fun k q hk => ?_, fun s q hs => Nat.lt_succ_of_lt (h.slots s q hs)⟩, ?_, fun q' hq' => ?_, rfl, rfl, rfl,
      Nat.lt_succ_self _⟩
    · rw [lookup_enter] at hk
      split at hk
      · cases hk
        exact Nat.lt_succ_self _
      · exact Nat.lt_succ_of_lt (h.nodes k q hk)
    · rw [heap_enter, if_pos rfl]
      rfl
    · rw [heap_enter, if_neg hq'.ne]

theorem epoch_greet (cm : ClusterManager) (r : Readings) (p : BusPacket) (sender : Nat) :
    (cm.greet r p sender).currentEpoch > p.epoch ↔ cm.currentEpoch > p.epoch := by
  unfold greet
  dsimp only
  split
  · rename_i h
    exact ⟨fun h' => absurd h' (lt_irrefl _), fun h' => absurd h' (not_lt_of_gt h)⟩
  · rfl

def Moves (cm : ClusterManager) (seed : NodeSeed) (p : BusPacket) (s owner : Nat) : Prop :=
  p.flags.master = true ∧ s ∈ p.slots ∧ (cm.heap owner).id ≠ cm.senderNodeID seed p ∧
    ¬ ((cm.heap owner).id = cm.selfNode.id ∧ cm.currentEpoch > p.epoch)

theorem Allocated.moves (h : cm.Allocated) (r : Readings) (seed : NodeSeed) (p : BusPacket) (hs : s < 16384) (hq : cm.slotMap s = some q) :
    ((cm.receive r seed p).slotMap s = some q ∧ ¬ cm.Moves seed p s q) ∨
      ((cm.receive r seed p).slotMap s = some (cm.registerSender r seed p).1 ∧ (cm.registerSender r seed p).1 ≠ q ∧ cm.Moves seed p s q) := by
  have hr := h.registerSender r seed p
  rw [receive_eq]
  generalize cm.registerSender r seed p = x at *
  obtain ⟨sender, cm₁⟩ := x
  have hg := sameTables_greet cm₁ r p sender
  have hma : (cm₁.greet r p sender).slotMap s = some q := by rw [hg.slotMap, hr.slotMap, hq]
  have hqi : ((cm₁.greet r p sender).heap q).id = (cm.heap q).id := by rw [hg.id, hr.heap q (h.slots s q hq)]
  have hsl : (cm₁.greet r p sender).selfNode.id = cm.selfNode.id := by
    rw [selfNode, hg.id, hg.self, hr.self, hr.heap _ h.self]
    rfl
  have hse : ((cm₁.greet r p sender).heap sender).id = cm.senderNodeID seed p := by rw [hg.id, hr.id]
  have he : (cm₁.greet r p sender).currentEpoch > p.epoch ↔ cm.currentEpoch > p.epoch := by rw [epoch_greet, hr.epoch]
  unfold Moves
  by_cases hm : p.flags.master = true
  · rw [if_pos hm, slotMap_syncSlots _ _ _ hs]
    unfold newOwner
    rw [hma]
    by_cases hme : s ∈ p.slots
    · rw [if_pos hme]
      simp only [hqi, hsl, hse, he]
      split
      · left
        tauto
      · rename_i hn
        refine .inr ⟨rfl, ?_, by tauto⟩
        rintro rfl
        exact hn (.inl (hqi.symm.trans hse))
    · rw [if_neg hme]
      left
      tauto
  · rw [if_neg hm]
    left
    tauto

theorem Allocated.congr (h : cm.Allocated) (hse : cm'.self = cm.self) (hnodes : cm'.nodes = cm.nodes) (hn : cm'.next = cm.next)
    (hsl : ∀ s q, cm'.slotMap s = some q → cm.slotMap s = some q ∨ q < cm.next) : cm'.Allocated := by
  refine ⟨by rw [hse, hn]; exact h.self, fun k q hk => ?_, fun s q hs => ?_⟩
  · rw [hn]
    exact h.nodes k q (hnodes ▸ hk)
  · rw [hn]
    exact (hsl s q hs).elim (h.slots s q) fun hlt => hlt

theorem Allocated.sameTables (h : cm.Allocated) (hs : SameTables cm cm') : cm'.Allocated :=
  h.congr hs.self hs.nodes hs.next fun _ _ hq => .inl (hs.slotMap ▸ hq)

theorem newOwner_cases {sender : Nat} {p : BusPacket} (h : cm.newOwner sender p s = some q) : cm.slotMap s = some q ∨ q = sender := by
  unfold newOwner at h
  split at h
  · split at h
    · exact .inr (Option.some.inj h).symm
    · rename_i owner ho
      split at h
      · exact .inl (ho.trans h)
      · exact .inr (Option.some.inj h).symm
  · exact .inl h

theorem Allocated.syncSlots (h : cm.Allocated) {sender : Nat} (hlt : sender < cm.next) (p : BusPacket) : (cm.syncSlots sender p).Allocated := by
  unfold ClusterManager.syncSlots
  have hs : SlotsOnly cm ((List.range 16384).foldl (claimSlot sender p) cm) := .foldl (fun cm s => slotsOnly_claim cm sender p s) _ cm
  refine h.congr hs.self hs.nodes hs.next fun s q hq => ?_
  rw [slotMap_claims nodup_range] at hq
  split at hq
  · rcases newOwner_cases hq with hq | rfl
    · exact .inl hq
    · exact .inr hlt
  · exact .inl hq

theorem Allocated.receive (h : cm.Allocated) (r : Readings) (seed : NodeSeed) (p : BusPacket) : (cm.receive r seed p).Allocated := by
  have hr := h.registerSender r seed p
  have hg := sameTables_greet (cm.registerSender r seed p).2 r p (cm.registerSender r seed p).1
  rw [receive_eq]
  split
  · exact (hr.allocated.sameTables hg).syncSlots (hg.next ▸ hr.lt) p
  · exact hr.allocated.sameTables hg

theorem Allocated.processPacket (h : cm.Allocated) {r : Readings} {seed : NodeSeed} {p : BusPacket} {x : Option BusPacket × ClusterManager}
    (hok : cm.processPacket r seed p = .ok x) : x.2.Allocated :=
  (h.receive r seed p).sameTables (sameTables_processPacket hok)

end ClusterManager

/-! ### Packets one after the other -/

structure Incoming where
  r : Readings
  seed : NodeSeed
  p : BusPacket

/-- The manager of a node, and the highest epoch with which each node has claimed each slot. -/
structure Claims where
  cm : ClusterManager
  allocated : cm.Allocated
  claimed : Nat → Nat → Nat

namespace Claims

variable {c c' : Claims} {q s : Nat}

/-- A packet with the master flag claims the slots of its bitmap for the node of its sender. -/
def claim (c : Claims) (ev : Incoming) : Nat → Nat → Nat := fun q s =>
  if q = (c.cm.registerSender ev.r ev.seed ev.p).1 ∧ ev.p.flags.master = true ∧ s ∈ ev.p.slots then max (c.claimed q s) ev.p.epoch
  else c.claimed q s

def step (ev : Incoming) (c : Claims) : Option Claims :=
  match h : c.cm.processPacket ev.r ev.seed ev.p with
  | .ok x => some ⟨x.2, c.allocated.processPacket h, c.claim ev⟩
  | .error _ => none

/-- The highest epoch of an owner's claim; for the node itself, its own epoch. -/
def rank (c : Claims) (q s : Nat) : Nat := if (c.cm.heap q).id = c.cm.selfNode.id then c.cm.currentEpoch else c.claimed q s

/-- No slot goes from its owner to a sender with a lower epoch. After `receive` the slot table stays as it is. -/
def NewerWins (c : Claims) (ev : Incoming) : Prop :=
  ∀ s, s < 16384 → ∀ q q', c.cm.slotMap s = some q → (c.cm.receive ev.r ev.seed ev.p).slotMap s = some q' → q' ≠ q → c.rank q s ≤ ev.p.epoch

/-- A packet that claims a slot of a third node has an epoch that is not below the owner's claim. -/
def UpToDate (c : Claims) (ev : Incoming) : Prop :=
  ev.p.flags.master = true → ∀ s ∈ ev.p.slots, s < 16384 → ∀ q, c.cm.slotMap s = some q →
    (c.cm.heap q).id ≠ c.cm.selfNode.id → (c.cm.heap q).id ≠ c.cm.senderNodeID ev.seed ev.p → c.claimed q s ≤ ev.p.epoch

theorem newerWins_iff (c : Claims) (ev : Incoming) : c.NewerWins ev ↔ c.UpToDate ev := by
  constructor
  · intro h hm s hme hs q hq hse ho
    have hmo : c.cm.Moves ev.seed ev.p s q := ⟨hm, hme, ho, fun hp => hse hp.1⟩
    rcases c.allocated.moves ev.r ev.seed ev.p hs hq with ⟨-, hn⟩ | ⟨hma, hne, -⟩
    · exact absurd hmo hn
    · have hr := h s hs q _ hq hma hne
      unfold rank at hr
      rwa [if_neg hse] at hr
  · intro h s hs q q' hq hq' hne
    rcases c.allocated.moves ev.r ev.seed ev.p hs hq with ⟨hma, -⟩ | ⟨-, -, hm, hme, ho, he⟩
    · cases hma.symm.trans hq'
      exact absurd rfl hne
    · unfold rank
      split
      · rename_i hse
        exact not_lt.1 fun hlt => he ⟨hse, hlt⟩
      · rename_i hse
        exact h hm s hme hs q hq hse ho

/-- In a sequence of packets newer claims win, just if every packet is up to date. -/
theorem newer_claims_win (c : Claims) (evs : List Incoming) :
    Machine.Along step NewerWins evs c ↔ Machine.Along step UpToDate evs c := by
  have hP : NewerWins = UpToDate := by
    funext c ev
    exact propext (newerWins_iff c ev)
  rw [hP]

def after (c : Claims) (ev : Incoming) : Claims := ⟨c.cm.receive ev.r ev.seed ev.p, c.allocated.receive ev.r ev.seed ev.p, c.claim ev⟩

theorem after_cm (c : Claims) (ev : Incoming) : (c.after ev).cm = c.cm.receive ev.r ev.seed ev.p := rfl
theorem after_claimed (c : Claims) (ev : Incoming) : (c.after ev).claimed = c.claim ev := rfl

theorem step_pong (c : Claims) {ev : Incoming} (hp : ev.p.type = .pong) (hg : ev.p.gossip = []) : step ev c = some (c.after ev) := by
  have hok := c.cm.processPacket_pong ev.r ev.seed hp hg
  unfold step
  split
  · rename_i x hx
    cases hok.symm.trans hx
    rfl
  · rename_i e hx
    cases hok.symm.trans hx

def slotPong (senderID : Bytes) (epoch : Nat) : Incoming where
  r := .plain 0
  seed := ClusterManager.zeroSeed
  p := { type := .pong, epoch, senderID, senderIP := "127.0.0.1", port := 7380, busPort := 17380, flags := { master := true }, slots := {0} }

/-- What such a heartbeat does: of its loop over the slots, slot 0 is left. -/
def slotPonged (cm : ClusterManager) (id : Bytes) (epoch : Nat) : ClusterManager :=
  let sender := cm.registerSender (slotPong id epoch).r (slotPong id epoch).seed (slotPong id epoch).p
  ClusterManager.claimSlot sender.1 (slotPong id epoch).p (sender.2.greet (slotPong id epoch).r (slotPong id epoch).p sender.1) 0

theorem cm_after (c : Claims) (id : Bytes) (epoch : Nat) : (c.after (slotPong id epoch)).cm = slotPonged c.cm id epoch := by
  unfold slotPonged
  rw [after_cm, ClusterManager.receive_eq, if_pos (show (slotPong id epoch).p.flags.master = true from rfl),
    ClusterManager.syncSlots_singleton (s := 0) _ _ rfl (by decide)]

def zeroClaims : Claims where
  cm := ClusterManager.zeroManager
  allocated := ⟨Nat.zero_lt_one, (ClusterManager.inOrder_loneManager _ _ _ _ _).tabled.fresh, by nofun⟩
  claimed _ _ := 0

/-- A master that comes back takes its slot from the replica that was promoted in a later epoch. -/
theorem old_master_takes_back : ∃ c, Machine.run step [slotPong (lit "master01") 1, slotPong (lit "replica1") 2] zeroClaims = some c ∧
    c.cm.slotMap 0 = some 2 ∧ (c.cm.heap 2).id = lit "replica1" ∧ c.rank 2 0 = 2 ∧
    (c.after (slotPong (lit "master01") 1)).cm.slotMap 0 = some 1 ∧ ¬ c.NewerWins (slotPong (lit "master01") 1) := by
  refine ⟨(zeroClaims.after (slotPong (lit "master01") 1)).after (slotPong (lit "replica1") 2), ?_, ?_⟩
  · rw [Machine.run, step_pong _ rfl rfl, Option.bind_some, Machine.run, step_pong _ rfl rfl, Option.bind_some, Machine.run]
  · have hm : ((zeroClaims.after (slotPong (lit "master01") 1)).after (slotPong (lit "replica1") 2)).cm.slotMap 0 = some 2 := by
      rw [cm_after, cm_after]
      rfl
    have hb : (((zeroClaims.after (slotPong (lit "master01") 1)).after (slotPong (lit "replica1") 2)).after
        (slotPong (lit "master01") 1)).cm.slotMap 0 = some 1 := by
      rw [cm_after, cm_after, cm_after]
      rfl
    have hr : ((zeroClaims.after (slotPong (lit "master01") 1)).after (slotPong (lit "replica1") 2)).rank 2 0 = 2 := by
      simp only [rank, after_claimed, claim, cm_after]
      rfl
    refine ⟨hm, ?_, hr, hb, fun h => ?_⟩
    · rw [cm_after, cm_after]
      rfl
    · rw [after_cm] at hb
      have hle := h 0 (by decide) 2 1 hm hb (by decide)
      rw [hr] at hle
      exact absurd hle (by decide)

end Claims

end VortexKV
