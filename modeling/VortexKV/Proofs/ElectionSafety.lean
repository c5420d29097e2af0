import VortexKV.Proofs.Rights
import VortexKV.Proofs.Votes

/-!
# Elections

`one_promotion_per_epoch`: in one epoch at most one replica is promoted, if every winner has the votes of more than half of
the nodes that vote. The code asks for less: the candidate's own vote, and a majority of the masters it believes alive.
-/

namespace VortexKV

open List Option

variable {r : Readings} {seed : NodeSeed} {p : BusPacket} {x : Option BusPacket × ClusterManager} {failedMasterID : Bytes}
  {cm : ClusterManager}

namespace ClusterManager

variable {cm cm' : ClusterManager}

/-! ### What an operation of the bus leaves of a node -/

structure SameNode (cm cm' : ClusterManager) : Prop where
  allocated : cm'.Allocated
  id : cm'.selfNode.id = cm.selfNode.id
  vote : cm.lastVoteEpoch ≤ cm'.lastVoteEpoch

theorem SameTables.sameNode (hs : SameTables cm cm') (h : cm.Allocated) (hv : cm'.lastVoteEpoch = cm.lastVoteEpoch) : SameNode cm cm' := by
  refine ⟨h.sameTables hs, ?_, hv.ge⟩
  rw [selfNode, hs.self, hs.id]
  rfl

theorem Allocated.selfID_processPacket (h : cm.Allocated)
    (hok : cm.processPacket r seed p = .ok x) : x.2.selfNode.id = cm.selfNode.id := by
  obtain ⟨-, hse, hid⟩ := h.ids_receive r seed p
  have hs := sameTables_processPacket hok
  rw [selfNode, hs.self, hs.id, hse, hid _ h.self]
  rfl

theorem role_receive (cm : ClusterManager) (h : cm.Allocated) (r : Readings) (seed : NodeSeed) (p : BusPacket) :
    (cm.receive r seed p).selfNode.role = cm.selfNode.role := by
  have hre := h.registerSender r seed p
  rw [receive_eq]
  generalize cm.registerSender r seed p = x at *
  obtain ⟨sender, cm₁⟩ := x
  have hg := sameTables_greet cm₁ r p sender
  have hr : (cm₁.greet r p sender).selfNode.role = cm.selfNode.role := by
    rw [selfNode, hg.self, hg.role, hre.self, hre.heap _ h.self]
    rfl
  split
  · have hs : SlotsOnly (cm₁.greet r p sender) ((cm₁.greet r p sender).syncSlots sender p) := by
      unfold ClusterManager.syncSlots
      exact .foldl (fun cm s => slotsOnly_claim cm sender p s) _ _
    rw [selfNode, hs.self, hs.role]
    exact hr
  · exact hr

theorem Allocated.votes_processPacket (h : cm.Allocated)
    (hok : cm.processPacket r seed p = .ok x) : SameNode cm x.2 ∧
      ∀ ack ∈ x.1, ack.type = .failoverAuthAck → cm.selfNode.role = .master ∧ cm.lastVoteEpoch < ack.reqEpoch ∧ ack.reqEpoch ≤ x.2.lastVoteEpoch := by
  have hid := h.selfID_processPacket hok
  have hal := h.processPacket hok
  rcases epochs_processPacket hok with ⟨hno, he⟩ | ⟨hr, -, hv, hx, he⟩
  · exact ⟨⟨hal, hid, (Prod.mk.inj he).2.ge⟩, fun ack ha ht => absurd ht (hno ack ha)⟩
  · have hl := (Prod.mk.inj he).2
    rw [cm.role_receive h r seed p] at hr
    refine ⟨⟨hal, hid, hl ▸ hv.le⟩, ?_⟩
    rw [hx]
    rintro _ ⟨⟩ -
    exact ⟨hr, hv, hl.ge⟩

theorem Allocated.addNode (h : cm.Allocated) (node : ClusterNode) : (cm.addNode node).Allocated := by
  refine ⟨Nat.lt_succ_of_lt h.self, fun k q hq => ?_, fun s q hq => ?_⟩
  · by_cases hk : k = node.id
    · rw [hk] at hq
      cases (Finmap.lookup_insert _).symm.trans hq
      exact Nat.lt_succ_self _
    · exact Nat.lt_succ_of_lt (h.nodes k q ((Finmap.lookup_insert_of_ne _ hk).symm.trans hq))
  · unfold ClusterManager.addNode at hq
    dsimp only at hq
    split at hq
    · cases hq
      exact Nat.lt_succ_self _
    · exact Nat.lt_succ_of_lt (h.slots s q hq)

theorem epochs_heartbeatStep {ω : Env} {x : Heartbeat × ClusterManager} (hok : cm.heartbeatStep ω = .ok x) : x.2.epochs = cm.epochs := by
  have he : ∀ {a a' : Audit} {q : Nat}, a.elevate q = .ok a' → a'.cm.epochs = a.cm.epochs := by
    intro a a' q h
    unfold Audit.elevate at h
    dsimp only at h
    split at h
    · have ha := logID_bind h
      cases ha
      rfl
    · cases h
      rfl
  have hv : ∀ {a a' : Audit} {r : Readings} {q : Nat}, a.visit r q = .ok a' → a'.cm.epochs = a.cm.epochs := by
    intro a a' r q h
    unfold Audit.visit at h
    dsimp only at h
    rw [← a.count_cm q]
    split_ifs at h
    · cases h
      rfl
    · have hm := he (logID_bind h)
      exact hm
    · exact he h
  have hal : ∀ {a : Audit} {r : Readings} (l : List Nat) (b : Audit), l.foldlM (Audit.visit r) b = .ok a → a.cm.epochs = b.cm.epochs := by
    intro a r l
    induction l with
    | nil =>
      intro b hb
      cases hb
      rfl
    | cons q l ih =>
      intro b hb
      rw [foldlM_cons] at hb
      obtain ⟨b', hb', hb⟩ := Except.bind_eq_ok hb
      exact (ih b' hb).trans (hv hb')
  obtain ⟨a, ha, hx⟩ := Except.bind_eq_ok hok
  cases hx
  exact hal _ _ ha

theorem Allocated.sameNode_heartbeat (h : cm.Allocated) {ω : Env} {x : Heartbeat × ClusterManager} (hok : cm.heartbeatStep ω = .ok x) : SameNode cm x.2 :=
  (sameTables_heartbeatStep hok).sameNode h (Prod.mk.inj (epochs_heartbeatStep hok)).2

theorem Allocated.sameNode_startElection (h : cm.Allocated) {x : Option (Election × BusPacket) × ClusterManager}
    (hok : cm.startElection failedMasterID = .ok x) : SameNode cm x.2 ∧ ∀ y ∈ x.1, y.1.candidate = cm.selfNode.id := by
  have hs := sameTables_startElection hok
  unfold startElection at hok
  split at hok
  · cases hok
    exact ⟨hs.sameNode h rfl, nofun⟩
  · have hx := logID_bind (logID_bind hok)
    cases hx
    refine ⟨hs.sameNode h rfl, ?_⟩
    rintro _ ⟨⟩
    rfl

theorem slotsOnly_takeOver (failedMasterID : Bytes) (cm : ClusterManager) (s : Nat) : SlotsOnly cm (takeOver failedMasterID cm s) := by
  unfold takeOver
  split
  · split_ifs
    · exact (slotsOnly_lose _ _ _).trans (slotsOnly_gain _ _ _)
    · exact slotsOnly_gain _ _ _
    · exact .refl cm
  · split_ifs
    · exact slotsOnly_gain _ _ _
    · exact .refl cm

theorem epochs_promoted (cm : ClusterManager) (failedMasterID : Bytes) : (cm.promoted failedMasterID).epochs = cm.epochs := by
  unfold promoted
  exact epochs_foldl (fun cm s => (slotsOnly_takeOver failedMasterID cm s).epochs) _ _

theorem Allocated.sameNode_promoteReplica (h : cm.Allocated)
    (hok : cm.promoteReplica r failedMasterID = .ok x) : SameNode cm x.2 := by
  rcases promoteReplica_cases hok with heq | ⟨-, heq⟩
  · rw [heq]
    exact ⟨h, rfl, le_rfl⟩
  · rw [heq]
    have hh : Holds (fun _ => True) cm (cm.promoted failedMasterID) := h.holds_promoted failedMasterID
    refine ⟨hh.allocated, ?_, (Prod.mk.inj (cm.epochs_promoted failedMasterID)).2.ge⟩
    unfold promoted
    rw [(SlotsOnly.foldl (slotsOnly_takeOver failedMasterID) _ _).selfID, selfNode, heap_setNode]
    split <;> rfl

end ClusterManager

/-! ### The cluster -/

/-- The nodes of a cluster, each with an ID of its own, and the traffic of their elections. -/
structure Failover (ι : Type) where
  nodes : ι → ClusterManager
  allocated : ∀ i, (nodes i).Allocated
  named : Function.Injective fun i => (nodes i).selfNode.id
  responses : List (ι × BusPacket)
  elections : List (ι × ClusterManager.Election)
  promotions : List (ι × ClusterManager.Election)

inductive FailoverEvent (ι : Type)
  | packet (i : ι) (r : Readings) (seed : NodeSeed) (p : BusPacket)
  | heartbeat (i : ι) (ω : Env)
  | start (i : ι) (failedMasterID : Bytes)
  /-- An election ends: the candidate has read the responses at these places, one on each connection. -/
  | finish (k : Nat) (answers : Finset Nat) (r : Readings)

namespace Failover

variable {ι : Type} [DecidableEq ι] {f f' : Failover ι} {i j : ι} {M : Finset ι}

def set (f : Failover ι) (i : ι) (cm : ClusterManager) (h : (f.nodes i).SameNode cm) : Failover ι :=
  { f with
    nodes := Function.update f.nodes i cm
    allocated := fun j => by
      rw [Function.update_apply]
      split
      · exact h.allocated
      · exact f.allocated j
    named := fun j k heq => by
      have hid : ∀ j, (Function.update f.nodes i cm j).selfNode.id = (f.nodes j).selfNode.id := by
        intro j
        rw [Function.update_apply]
        split
        · rename_i hj
          rw [hj, h.id]
        · rfl
      exact f.named ((hid j).symm.trans (heq.trans (hid k))) }

def packet (f : Failover ι) (i : ι) (r : Readings) (seed : NodeSeed) (p : BusPacket) : Option (Failover ι) :=
  match h : (f.nodes i).processPacket r seed p with
  | .ok x => some { f.set i x.2 ((f.allocated i).votes_processPacket h).1 with responses := f.responses ++ x.1.toList.map (i, ·) }
  | .error _ => none

def heartbeat (f : Failover ι) (i : ι) (ω : Env) : Option (Failover ι) :=
  match h : (f.nodes i).heartbeatStep ω with
  | .ok x => some (f.set i x.2 ((f.allocated i).sameNode_heartbeat h))
  | .error _ => none

def start (f : Failover ι) (i : ι) (failedMasterID : Bytes) : Option (Failover ι) :=
  match h : (f.nodes i).startElection failedMasterID with
  | .ok x => some { f.set i x.2 ((f.allocated i).sameNode_startElection h).1 with
      elections := f.elections ++ x.1.toList.map fun y => (i, y.1) }
  | .error _ => none

def counted (f : Failover ι) (e : ClusterManager.Election) (answers : Finset Nat) : Finset Nat :=
  answers.filter fun k => (f.responses[k]?).any fun x => e.Counts x.2

/-- `PromoteReplica`, which does nothing to a node that is a master by now. -/
def promote (f : Failover ι) (i : ι) (e : ClusterManager.Election) (r : Readings) : Option (Failover ι) :=
  match h : (f.nodes i).promoteReplica r e.failedMaster with
  | .ok x => some { f.set i x.2 ((f.allocated i).sameNode_promoteReplica h) with
      promotions := if (f.nodes i).selfNode.role = .master then f.promotions else (i, e) :: f.promotions }
  | .error _ => none

def finish (f : Failover ι) (k : Nat) (answers : Finset Nat) (r : Readings) : Option (Failover ι) :=
  (f.elections[k]?).bind fun (i, e) => if e.Won (f.counted e answers).card then f.promote i e r else some f

def step : FailoverEvent ι → Failover ι → Option (Failover ι)
  | .packet i r seed p, f => f.packet i r seed p
  | .heartbeat i ω, f => f.heartbeat i ω
  | .start i failedMasterID, f => f.start i failedMasterID
  | .finish k answers r, f => f.finish k answers r

/-- The voters are among `M`, and a candidate wins only with the votes of more than half of them. -/
def Quorate (M : Finset ι) (f : Failover ι) : FailoverEvent ι → Prop
  | .packet i _ _ _ => (f.nodes i).selfNode.role = .master → i ∈ M
  | .finish k answers _ => ∀ i e, f.elections[k]? = some (i, e) → e.Won (f.counted e answers).card → M.card < 2 * (f.counted e answers).card
  | _ => True

/-! ### Votes and promotions -/

structure Sound (M : Finset ι) (f : Failover ι) : Prop where
  voted : ∀ {k : Nat} {i : ι} {p : BusPacket}, f.responses[k]? = some (i, p) → p.type = .failoverAuthAck →
    i ∈ M ∧ p.reqEpoch ≤ (f.nodes i).lastVoteEpoch
  once : ∀ {k k' : Nat} {i : ι} {p p' : BusPacket}, f.responses[k]? = some (i, p) → f.responses[k']? = some (i, p') →
    p.type = .failoverAuthAck → p'.type = .failoverAuthAck → p.reqEpoch = p'.reqEpoch → k = k'
  candidate : ∀ {i : ι} {e : ClusterManager.Election}, (i, e) ∈ f.elections → e.candidate = (f.nodes i).selfNode.id
  quorum : ∀ {i : ι} {e : ClusterManager.Election}, (i, e) ∈ f.promotions → e.candidate = (f.nodes i).selfNode.id ∧
    ∃ Q ⊆ M, M.card < 2 * Q.card ∧ ∀ j ∈ Q, ∃ (k : Nat) (p : BusPacket), f.responses[k]? = some (j, p) ∧ e.Counts p

omit [DecidableEq ι] in
theorem Sound.extend (h : f.Sound M) {new : List (ι × BusPacket)} (hid : ∀ j, (f'.nodes j).selfNode.id = (f.nodes j).selfNode.id)
    (hv : ∀ j, (f.nodes j).lastVoteEpoch ≤ (f'.nodes j).lastVoteEpoch) (hr : f'.responses = f.responses ++ new) (ho : new.length ≤ 1)
    (hn : ∀ x ∈ new, x.2.type = .failoverAuthAck →
      x.1 ∈ M ∧ (f.nodes x.1).lastVoteEpoch < x.2.reqEpoch ∧ x.2.reqEpoch ≤ (f'.nodes x.1).lastVoteEpoch)
    (hel : f'.elections = f.elections) (hpr : f'.promotions = f.promotions) : f'.Sound M := by
  have hold : ∀ {k : Nat} {x : ι × BusPacket}, f.responses[k]? = some x → f'.responses[k]? = some x := by
    intro k x hx
    rw [hr, List.getElem?_append_left (List.getElem?_eq_some_iff.1 hx).1]
    exact hx
  -- a response is an old one, or the one that was added
  have hc : ∀ {k : Nat} {x : ι × BusPacket}, f'.responses[k]? = some x → f.responses[k]? = some x ∨ k = f.responses.length ∧ x ∈ new := by
    intro k x hx
    rw [hr] at hx
    by_cases hk : k < f.responses.length
    · exact .inl ((List.getElem?_append_left hk).symm.trans hx)
    · rw [List.getElem?_append_right (by omega)] at hx
      have hlt := (List.getElem?_eq_some_iff.1 hx).1
      exact .inr ⟨by omega, mem_of_getElem? hx⟩
  refine ⟨fun hk hp => ?_, fun {k k' i p p'} hk hk' hp hp' heq => ?_, fun hm => ?_, fun hm => ?_⟩
  · rcases hc hk with hk | ⟨-, hm⟩
    · exact ⟨(h.voted hk hp).1, (h.voted hk hp).2.trans (hv _)⟩
    · exact ⟨(hn _ hm hp).1, (hn _ hm hp).2.2⟩
  · -- a new vote is for an epoch above those of the old ones
    have hl : ∀ {k : Nat} {p p' : BusPacket}, f.responses[k]? = some (i, p) → (i, p') ∈ new → p.type = .failoverAuthAck →
        p'.type = .failoverAuthAck → p.reqEpoch ≠ p'.reqEpoch := fun hk hm hp hp' =>
      ((h.voted hk hp).2.trans_lt (hn _ hm hp').2.1).ne
    rcases hc hk with hk | ⟨hlen, hm⟩ <;> rcases hc hk' with hk' | ⟨hle, hme⟩
    · exact h.once hk hk' hp hp' heq
    · exact absurd heq (hl hk hme hp hp')
    · exact absurd heq.symm (hl hk' hm hp' hp)
    · exact hlen.trans hle.symm
  · rw [hel] at hm
    rw [hid]
    exact h.candidate hm
  · rw [hpr] at hm
    obtain ⟨hca, Q, hQ, hcr, ha⟩ := h.quorum hm
    refine ⟨(hid _).symm ▸ hca, Q, hQ, hcr, fun j hj => ?_⟩
    obtain ⟨k, p, hk, hco⟩ := ha j hj
    exact ⟨k, p, hold hk, hco⟩

theorem nodes_set (f : Failover ι) (i : ι) (h : (f.nodes i).SameNode cm) (j : ι) :
    (f.set i cm h).nodes j = if j = i then cm else f.nodes j := Function.update_apply _ _ _ _

theorem id_set (f : Failover ι) (i : ι) (h : (f.nodes i).SameNode cm) (j : ι) :
    ((f.set i cm h).nodes j).selfNode.id = (f.nodes j).selfNode.id := by
  rw [nodes_set]
  split
  · rename_i hj
    rw [hj, h.id]
  · rfl

theorem vote_set (f : Failover ι) (i : ι) (h : (f.nodes i).SameNode cm) (j : ι) :
    (f.nodes j).lastVoteEpoch ≤ ((f.set i cm h).nodes j).lastVoteEpoch := by
  rw [nodes_set]
  split
  · rename_i hj
    rw [hj]
    exact h.vote
  · exact le_rfl

theorem Sound.set (h : f.Sound M) (i : ι) (hcm : (f.nodes i).SameNode cm) : (f.set i cm hcm).Sound M :=
  h.extend (id_set f i hcm) (vote_set f i hcm) (append_nil _).symm (Nat.zero_le _) (fun _ hx => nomatch hx) rfl rfl

theorem Sound.packet (h : f.Sound M) (hM : (f.nodes i).selfNode.role = .master → i ∈ M)
    (hstep : f.packet i r seed p = some f') : f'.Sound M := by
  unfold Failover.packet at hstep
  split at hstep
  · rename_i x hok
    cases hstep
    obtain ⟨hs, ha⟩ := (f.allocated i).votes_processPacket hok
    refine h.extend (id_set f i hs) (vote_set f i hs) rfl ?_ (fun y hy ht => ?_) rfl rfl
    · rw [length_map]
      exact length_toList_le
    · obtain ⟨ack, hm, rfl⟩ := mem_map.1 hy
      obtain ⟨hr, hlt, hle⟩ := ha ack (mem_toList.1 hm) ht
      refine ⟨hM hr, hlt, ?_⟩
      rw [nodes_set, if_pos rfl]
      exact hle
  · cases hstep

theorem Sound.start (h : f.Sound M) (hstep : f.start i failedMasterID = some f') : f'.Sound M := by
  unfold Failover.start at hstep
  split at hstep
  · rename_i x hok
    cases hstep
    obtain ⟨hs, hc⟩ := (f.allocated i).sameNode_startElection hok
    have hset := h.set i hs
    refine ⟨hset.voted, hset.once, fun hm => ?_, hset.quorum⟩
    rcases mem_append.1 hm with hm | hm
    · exact hset.candidate hm
    · obtain ⟨y, hy, heq⟩ := mem_map.1 hm
      cases heq
      exact (hc y (mem_toList.1 hy)).trans (id_set f i hs i).symm
  · cases hstep

theorem Sound.voters (h : f.Sound M) (e : ClusterManager.Election) (answers : Finset Nat) :
    ∃ Q ⊆ M, Q.card = (f.counted e answers).card ∧ ∀ j ∈ Q, ∃ (k : Nat) (p : BusPacket), f.responses[k]? = some (j, p) ∧ e.Counts p := by
  have hr : ∀ k ∈ f.counted e answers, ∃ j p, f.responses[k]? = some (j, p) ∧ e.Counts p := by
    intro k hk
    obtain ⟨-, ha⟩ := Finset.mem_filter.1 hk
    obtain ⟨x, hx, hc⟩ := (any_eq_true _ _).1 ha
    exact ⟨x.1, x.2, hx, of_decide_eq_true hc⟩
  choose voter ballot hvoter using hr
  refine ⟨(f.counted e answers).attach.image (fun k => voter k.1 k.2), fun j hj => ?_, ?_, fun j hj => ?_⟩
  · obtain ⟨k, -, rfl⟩ := Finset.mem_image.1 hj
    obtain ⟨hget, hc⟩ := hvoter k.1 k.2
    exact (h.voted hget hc.1).1
  · rw [Finset.card_image_of_injective, Finset.card_attach]
    intro k k' heq
    obtain ⟨hget, hc⟩ := hvoter k.1 k.2
    obtain ⟨hg, hco⟩ := hvoter k'.1 k'.2
    dsimp only at heq
    rw [← heq] at hg
    exact Subtype.ext (h.once hget hg hc.1 hco.1 (hc.2.2.trans hco.2.2.symm))
  · obtain ⟨k, -, rfl⟩ := Finset.mem_image.1 hj
    exact ⟨k, ballot k.1 k.2, hvoter k.1 k.2⟩

theorem Sound.finish (h : f.Sound M) {k : Nat} {answers : Finset Nat}
    (hM : ∀ i e, f.elections[k]? = some (i, e) → e.Won (f.counted e answers).card → M.card < 2 * (f.counted e answers).card)
    (hstep : f.finish k answers r = some f') : f'.Sound M := by
  obtain ⟨⟨i, e⟩, hget, hstep⟩ := bind_eq_some_iff.1 hstep
  dsimp only at hstep
  split at hstep
  · rename_i hw
    unfold promote at hstep
    split at hstep
    · rename_i x hok
      cases hstep
      have hs := (f.allocated i).sameNode_promoteReplica hok
      have hset := h.set i hs
      refine ⟨hset.voted, hset.once, hset.candidate, fun hm => ?_⟩
      split at hm
      · exact hset.quorum hm
      · rcases mem_cons.1 hm with heq | hm
        · cases heq
          obtain ⟨Q, hQ, hc, ha⟩ := hset.voters e answers
          exact ⟨hset.candidate (mem_of_getElem? hget), Q, hQ, hc ▸ hM i e hget hw, ha⟩
        · exact hset.quorum hm
    · cases hstep
  · cases hstep
    exact h

theorem Sound.step {ev : FailoverEvent ι} (hev : f.Quorate M ev) (h : f.Sound M) (hstep : Failover.step ev f = some f') : f'.Sound M := by
  cases ev with
  | packet i r seed p => exact h.packet hev hstep
  | heartbeat i ω =>
    rw [Failover.step] at hstep
    unfold heartbeat at hstep
    split at hstep
    · cases hstep
      exact h.set i _
    · cases hstep
  | start i failedMasterID => exact h.start hstep
  | finish k answers r => exact h.finish hev hstep

/-- In a run whose winners have the votes of more than half of the voters, at most one replica is promoted in an epoch. -/
theorem one_promotion_per_epoch (M : Finset ι) (evs : List (FailoverEvent ι)) (hn : f.responses = [] ∧ f.elections = [] ∧ f.promotions = [])
    (hev : Machine.Along step (Quorate M) evs f) (hru : Machine.run step evs f = some f') {e e' : ClusterManager.Election}
    (hi : (i, e) ∈ f'.promotions) (hj : (j, e') ∈ f'.promotions) (he : e.epoch = e'.epoch) : i = j := by
  have hs : f.Sound M := by
    obtain ⟨hr, hel, hp⟩ := hn
    refine ⟨fun hk => ?_, fun hk => ?_, fun hm => ?_, fun hm => ?_⟩
    · rw [hr] at hk
      cases hk
    · rw [hr] at hk
      cases hk
    · rw [hel] at hm
      cases hm
    · rw [hp] at hm
      cases hm
  have hstep : ∀ {f : Failover ι} {ev : FailoverEvent ι} {f' : Failover ι}, f.Quorate M ev → f.Sound M → step ev f = some f' → f'.Sound M :=
    fun hev h hstep => h.step hev hstep
  have h : f'.Sound M := hev.run hstep hs hru
  obtain ⟨hca, Q, hQ, hcd, hal⟩ := h.quorum hi
  obtain ⟨hc, Q', hQ', hcr, ha⟩ := h.quorum hj
  -- a voter of both has voted once in this epoch
  obtain ⟨v, hv⟩ := Finset.inter_nonempty_of_card_lt_card_add_card hQ hQ' (by omega)
  obtain ⟨hv, hv'⟩ := Finset.mem_inter.1 hv
  obtain ⟨k, p, hk, htp, hta, hrq⟩ := hal v hv
  obtain ⟨k', p', hk', hty, ht, hre⟩ := ha v hv'
  obtain rfl := h.once hk hk' htp hty (by rw [hrq, hre, he])
  cases hk.symm.trans hk'
  exact f'.named (hca.symm.trans (hta.symm.trans (ht.trans hc)))

def masterNode (id : Bytes) (fail : Bool) : ClusterNode := { id, ip := "127.0.0.1", port := 7380, busPort := 17380, role := .master, fail }

def member (role : NodeRole) (i : Bool) : ClusterManager :=
  (((loneManager (Network.twinSeed i) 0 [] 7379 0).addNode (masterNode (lit "master01") true)).addNode
    (masterNode (lit "master02") false)).setNode 0 fun n => { n with role }

theorem allocated_member (role : NodeRole) (i : Bool) : (member role i).Allocated := by
  have hl := ClusterManager.inOrder_loneManager ⟨List.replicate 20 (if i then 1 else 0), by simp⟩ 0 [] 7379 0
  have h : (loneManager (Network.twinSeed i) 0 [] 7379 0).Allocated := ⟨Nat.zero_lt_one, hl.tabled.fresh, nofun⟩
  have hnodes := (h.addNode (masterNode (lit "master01") true)).addNode (masterNode (lit "master02") false)
  exact ⟨hnodes.self, hnodes.nodes, hnodes.slots⟩

def bid (i : Bool) : ClusterManager.Election := ⟨(member .slave i).selfNode.id, lit "master01", 2, 1⟩

def pair (role : Bool → NodeRole) : Failover Bool where
  nodes i := member (role i) i
  allocated i := allocated_member (role i) i
  named := by
    have hid : ∀ (role : NodeRole) (i : Bool), (member role i).selfNode.id = (member .slave i).selfNode.id := fun role i => rfl
    intro i j heq
    dsimp only at heq
    rw [hid, hid (role j)] at heq
    revert heq
    revert i j
    decide +kernel
  responses := []
  elections := []
  promotions := []

def voteRequest : BusPacket :=
  { type := .failoverAuthReq, epoch := 2, senderID := (member .slave false).selfNode.id, senderIP := [], port := 7379, busPort := 17379,
    targetNodeID := "master01", reqEpoch := 2 }

def electionRun : List (FailoverEvent Bool) :=
  [.start false (lit "master01"), .packet true (.plain 0) ⟨List.replicate 20 2, rfl⟩ voteRequest, .finish 0 {0} (.plain 0)]

def voterAndReplica : Failover Bool := pair fun i => if i then .master else .slave

theorem one_promotion_per_epoch_voter : Machine.Along step (Quorate {true}) electionRun voterAndReplica ∧
    ∃ f, Machine.run step electionRun voterAndReplica = some f ∧
      ∃ e, (false, e) ∈ f.promotions ∧ ∀ j e', (j, e') ∈ f.promotions → e.epoch = e'.epoch → false = j := by
  have hv : (Machine.run step (electionRun.take 2) voterAndReplica).map (fun f => (f.elections.length, f.elections.all fun x => 1 < 2 * (f.counted x.2 {0}).card)) =
      some (1, true) := by
    decide +kernel
  have hp : (Machine.run step electionRun voterAndReplica).map (fun f => f.promotions.map Prod.fst) = some [false] := by
    decide +kernel
  have hev : Machine.Along step (Quorate {true}) electionRun voterAndReplica := by
    refine ⟨trivial, fun f₁ h₁ => ⟨fun _ => Finset.mem_singleton_self _, fun f₂ h₂ => ⟨fun i e hget _ => ?_, fun _ _ => trivial⟩⟩⟩
    have hr : Machine.run step (electionRun.take 2) voterAndReplica = some f₂ := by
      change (step _ _).bind _ = _
      rw [h₁]
      change (step _ _).bind _ = _
      rw [h₂]
      rfl
    rw [hr] at hv
    have ha := congrArg Prod.snd (Option.some.inj hv)
    exact of_decide_eq_true (all_eq_true.1 ha (i, e) (mem_of_getElem? hget))
  obtain ⟨f, hr, hf⟩ := map_eq_some_iff.1 hp
  obtain ⟨⟨i, e⟩, hm, rfl⟩ := mem_map.1 (hf ▸ mem_singleton_self false)
  exact ⟨hev, f, hr, e, hm, fun j e' hj he => one_promotion_per_epoch {true} electionRun ⟨rfl, rfl, rfl⟩ hev hr hm hj he⟩

/-- Two replicas of the failed master run for one epoch. A single master is alive for them, so their own votes suffice. -/
theorem promoted_twice : ∃ f, Machine.run step
      [.start false (lit "master01"), .start true (lit "master01"), .finish 0 ∅ (.plain 0), .finish 1 ∅ (.plain 0)] (pair fun _ => .slave) = some f ∧
    (false, bid false) ∈ f.promotions ∧ (true, bid true) ∈ f.promotions ∧
    (bid false).epoch = (bid true).epoch ∧ (bid false).failedMaster = (bid true).failedMaster := by
  have hp : (Machine.run step
      [.start false (lit "master01"), .start true (lit "master01"), .finish 0 ∅ (.plain 0), .finish 1 ∅ (.plain 0)] (pair fun _ => .slave)).map
      promotions = some [(true, bid true), (false, bid false)] := by
    decide +kernel
  obtain ⟨f, hr, hf⟩ := map_eq_some_iff.1 hp
  refine ⟨f, hr, ?_, ?_, rfl, rfl⟩
  · rw [hf]
    exact .tail _ (.head _)
  · rw [hf]
    exact .head _

end Failover

end VortexKV
