import VortexKV.Proofs.TableRuns

/-!
# Failure detection

`fail_by_majority`: a heartbeat elevates a node to FAIL only if more than half of the known masters report it, in a run in
which every heartbeat meets the suspected nodes after the masters. The code counts the masters in the loop that uses the
count, takes reports of any sender and withdraws none.
-/

namespace VortexKV

open List Finmap

namespace ClusterManager

variable {cm cm' : ClusterManager} {q : Nat}

def masters (cm : ClusterManager) : Finset Bytes :=
  cm.nodes.keys.filter fun k => (cm.nodes.lookup k).map (fun q => (cm.heap q).role) = some .master

theorem countP_nodeList (cm : ClusterManager) (r : Readings) :
    (cm.nodeList r.shuffle).countP (fun q => (cm.heap q).role = .master) = cm.masters.card := by
  have hl : (cm.nodeList r.shuffle).countP (fun q => (cm.heap q).role = .master) =
      ((sortedKeys cm.nodes).filter fun k => (cm.nodes.lookup k).map (fun q => (cm.heap q).role) = some .master).length := by
    unfold nodeList
    rw [countP_filterMap, countP_eq_length_filter, ((r.shuffle_perm _).filter _).length_eq]
    congr 1
    refine filter_congr fun k _ => ?_
    cases cm.nodes.lookup k <;> simp
  have hc : ((sortedKeys cm.nodes : Multiset Bytes).filter fun k => (cm.nodes.lookup k).map (fun q => (cm.heap q).role) = some .master).card =
      cm.masters.card := by
    rw [sortedKeys, coe_sortedList]
    rfl
  rw [hl, ← hc]
  rfl

end ClusterManager

/-- The manager of a node, and which nodes each peer reported as PFAIL when it was last heard of. -/
structure Detector where
  cm : ClusterManager
  reporting : Bytes → Bytes → Bool

inductive DetectorEvent
  | packet (r : Readings) (seed : NodeSeed) (p : BusPacket)
  | heartbeat (ω : Env)

namespace Detector

variable {c c' : Detector} {q : Nat} {r : Readings}

def gossips (p : BusPacket) (target : Bytes) : Bool := p.gossip.any fun g => g.nodeID = target ∧ g.flags.fail = false ∧ g.flags.pFail = true

/-- A PING or PONG is the latest word of its sender on every node. -/
def heard (c : Detector) (p : BusPacket) : Bytes → Bytes → Bool :=
  if p.type = .ping ∨ p.type = .pong then Function.update c.reporting p.senderID (gossips p) else c.reporting

/-- `ProcessPacket` and `heartbeatStep`; a panic ends the run. -/
def step : DetectorEvent → Detector → Option Detector
  | .packet r seed p, c => (c.cm.processPacket r seed p).toOption.map fun x => ⟨x.2, c.heard p⟩
  | .heartbeat ω, c => (c.cm.heartbeatStep ω).toOption.map fun x => ⟨x.2, c.reporting⟩

/-- The node itself takes a node for PFAIL: it did before, or it does not hear from it. -/
def Suspects (c : Detector) (r : Readings) (q : Nat) : Prop := (c.cm.heap q).pFail = true ∨ c.cm.timedOut r.nowMilli (c.cm.heap q) = true

instance (c : Detector) (r : Readings) (q : Nat) : Decidable (c.Suspects r q) := inferInstanceAs (Decidable (_ ∨ _))

def Reports (c : Detector) (r : Readings) (q : Nat) (k : Bytes) : Prop :=
  if k = c.cm.selfNode.id then c.Suspects r q else c.reporting k (c.cm.heap q).id = true

instance (c : Detector) (r : Readings) (q : Nat) (k : Bytes) : Decidable (c.Reports r q k) := inferInstanceAs (Decidable (ite _ _ _))

def Majority (c : Detector) (r : Readings) (q : Nat) : Prop := c.cm.masters.card < 2 * (c.cm.masters.filter (c.Reports r q)).card

instance (c : Detector) (r : Readings) (q : Nat) : Decidable (c.Majority r q) := inferInstanceAs (Decidable (_ < _))

def FailsByMajority (c : Detector) : DetectorEvent → Prop
  | .packet _ _ _ => True
  | .heartbeat ω => ∀ x, c.cm.heartbeatStep ω = .ok x → ∀ q, (c.cm.heap q).fail = false → (x.2.heap q).fail = true → c.Majority (ω.sub 0 []) q

/-- The heartbeat meets no master after a node that it suspects; the node itself is a master, and so is whoever has
reported the node, who still does. -/
def Sound (c : Detector) (r : Readings) : Prop :=
  ∀ before q after, c.cm.nodeList r.shuffle = before ++ q :: after → (c.cm.heap q).id ≠ c.cm.selfNode.id → (c.cm.heap q).fail = false →
    c.Suspects r q → (∀ q' ∈ after, (c.cm.heap q').role ≠ .master) ∧ c.cm.selfNode.id ∈ c.cm.masters ∧
      ∀ k ∈ c.cm.reports (c.cm.heap q).id, k ≠ c.cm.selfNode.id → k ∈ c.cm.masters ∧ c.reporting k (c.cm.heap q).id = true

def Steady (c : Detector) : DetectorEvent → Prop
  | .packet _ _ _ => True
  | .heartbeat ω => c.Sound (ω.sub 0 [])

structure Audited (c : Detector) (r : Readings) (seen : List Nat) (a : ClusterManager.Audit) : Prop where
  same : ClusterManager.SameTables c.cm a.cm
  timedOut : ∀ q, a.cm.timedOut r.nowMilli (a.cm.heap q) = c.cm.timedOut r.nowMilli (c.cm.heap q)
  count : a.totalMasters = seen.countP fun q => (c.cm.heap q).role = .master
  reports : ∀ id k, k ∈ a.cm.reports id → k ∈ c.cm.reports id ∨ k = c.cm.selfNode.id
  suspects : ∀ q, (a.cm.heap q).pFail = true → c.Suspects r q
  failed : ∀ q, (c.cm.heap q).fail = true → (a.cm.heap q).fail = true
  elevated : ∀ q, (c.cm.heap q).fail = false → (a.cm.heap q).fail = true → c.Majority r q

namespace Audited

variable {seen after : List Nat} {a a' : ClusterManager.Audit}

theorem selfID (h : Audited c r seen a) : a.cm.selfNode.id = c.cm.selfNode.id := by
  rw [ClusterManager.selfNode, h.same.self, h.same.id]
  rfl

theorem count_next (h : Audited c r seen a) (q : Nat) : Audited c r (seen ++ [q]) (a.count q) := by
  have hc : (a.count q).totalMasters = (seen ++ [q]).countP fun q => (c.cm.heap q).role = .master := by
    rw [countP_append, ← h.count]
    unfold ClusterManager.Audit.count
    rw [h.same.role]
    split
    · rename_i hr
      simp [hr]
    · rename_i hr
      simp [hr]
  have hcm := a.count_cm q
  refine ⟨?_, ?_, hc, ?_, ?_, ?_, ?_⟩ <;> rw [hcm]
  · exact h.same
  · exact h.timedOut
  · exact h.reports
  · exact h.suspects
  · exact h.failed
  · exact h.elevated

theorem markPFail (h : Audited c r seen a) (hq : a.cm.timedOut r.nowMilli (a.cm.heap q) = true) :
    Audited c r seen { a with cm := a.cm.markPFail r q } := by
  have hh : ∀ q', (a.cm.markPFail r q).heap q' =
      if q' = q then { a.cm.heap q' with pFail := true, linkState := "disconnected" } else a.cm.heap q' :=
    ClusterManager.heap_setNode a.cm q fun n => { n with pFail := true, linkState := "disconnected" }
  refine ⟨h.same.trans (ClusterManager.sameTables_markPFail a.cm r q), fun q' => ?_, h.count, fun id k hk => ?_, fun q' hp => ?_, fun q' hf => ?_,
    fun q' hf hf' => ?_⟩
  · rw [← h.timedOut q', hh]
    split <;> rfl
  · change k ∈ ((a.cm.failReports.insert (a.cm.heap q).id ((a.cm.reports (a.cm.heap q).id).insert a.cm.selfNode.id r.now)).lookup id).getD ∅ at hk
    by_cases hid : id = (a.cm.heap q).id
    · rw [hid, lookup_insert, Option.getD_some, mem_insert, h.selfID, ← hid] at hk
      rcases hk with rfl | hk
      · exact .inr rfl
      · exact h.reports id k hk
    · rw [lookup_insert_of_ne _ hid] at hk
      exact h.reports id k hk
  · rw [hh] at hp
    split at hp
    · rename_i heq
      subst heq
      exact .inr ((h.timedOut q').symm.trans hq)
    · exact h.suspects q' hp
  · rw [hh]
    split <;> exact h.failed q' hf
  · rw [hh] at hf'
    split at hf' <;> exact h.elevated q' hf hf'

theorem majority (h : Audited c r (seen ++ [q]) a) (hso : c.Sound r) (hl : c.cm.nodeList r.shuffle = seen ++ q :: after)
    (hse : (c.cm.heap q).id ≠ c.cm.selfNode.id) (hf : (c.cm.heap q).fail = false) (hp : (a.cm.heap q).pFail = true)
    (ht : mapLen (a.cm.reports (a.cm.heap q).id) > a.totalMasters / 2) : c.Majority r q := by
  have hs := h.suspects q hp
  obtain ⟨hla, hm, hr⟩ := hso seen q after hl hse hf hs
  have hto : a.totalMasters = c.cm.masters.card := by
    have hn : after.countP (fun q => (c.cm.heap q).role = .master) = 0 :=
      countP_eq_zero.2 fun q' hq' => by simpa using hla q' hq'
    rw [← c.cm.countP_nodeList r, hl, append_cons, countP_append, hn, Nat.add_zero]
    exact h.count
  have hsu : (a.cm.reports (a.cm.heap q).id).keys ⊆ c.cm.masters.filter (c.Reports r q) := by
    intro k hk
    rw [Finset.mem_filter]
    unfold Reports
    rw [Finmap.mem_keys, h.same.id] at hk
    by_cases hks : k = c.cm.selfNode.id
    · rw [if_pos hks]
      exact ⟨hks ▸ hm, hs⟩
    · rw [if_neg hks]
      exact hr k ((h.reports _ k hk).resolve_right hks) hks
  have hc := Finset.card_le_card hsu
  unfold Majority
  unfold mapLen at ht
  omega

theorem elevate (h : Audited c r (seen ++ [q]) a) (hs : c.Sound r) (hl : c.cm.nodeList r.shuffle = seen ++ q :: after)
    (hse : (c.cm.heap q).id ≠ c.cm.selfNode.id) (hok : a.elevate q = .ok a') : Audited c r (seen ++ [q]) a' := by
  have hsa := ClusterManager.sameTables_elevate hok
  unfold ClusterManager.Audit.elevate at hok
  dsimp only at hok
  split at hok
  · rename_i ht
    obtain ⟨hp, hf, -, hlen⟩ := ht
    have ha := ClusterManager.logID_bind hok
    cases ha
    have hh : ∀ q', (a.cm.setNode q fun n => { n with fail := true, pFail := false }).heap q' =
        if q' = q then { a.cm.heap q' with fail := true, pFail := false } else a.cm.heap q' := ClusterManager.heap_setNode a.cm q _
    have hfa : (c.cm.heap q).fail = false := by
      by_contra hne
      rw [h.failed q (by simpa using hne)] at hf
      cases hf
    refine ⟨h.same.trans hsa, fun q' => ?_, h.count, h.reports, fun q' hp' => ?_, fun q' hf' => ?_, fun q' hf' hf'' => ?_⟩
    · rw [← h.timedOut q']
      rw [hh]
      split <;> rfl
    · rw [hh] at hp'
      split at hp'
      · cases hp'
      · exact h.suspects q' hp'
    · rw [hh]
      split
      · rfl
      · exact h.failed q' hf'
    · rw [hh] at hf''
      split at hf''
      · rename_i heq
        subst heq
        exact h.majority hs hl hse hfa hp hlen
      · exact h.elevated q' hf' hf''
  · cases hok
    exact h

theorem visit (h : Audited c r seen a) (hs : c.Sound r) (hl : c.cm.nodeList r.shuffle = seen ++ q :: after)
    (hok : a.visit r q = .ok a') : Audited c r (seen ++ [q]) a' := by
  have hc := h.count_next q
  unfold ClusterManager.Audit.visit at hok
  dsimp only at hok
  rw [a.count_cm q, h.same.id, h.selfID] at hok
  split_ifs at hok with hse ht
  · cases hok
    exact hc
  · have hm := hc.markPFail (q := q) (by rw [a.count_cm q]; exact ht.1)
    rw [a.count_cm q] at hm
    exact hm.elevate hs hl hse (ClusterManager.logID_bind hok)
  · exact hc.elevate hs hl hse hok

theorem audit (hs : c.Sound r) (hok : c.cm.audit r = .ok a) : Audited c r (c.cm.nodeList r.shuffle) a := by
  have ha : ∀ (after seen : List Nat) (b : ClusterManager.Audit), c.cm.nodeList r.shuffle = seen ++ after → Audited c r seen b →
      after.foldlM (ClusterManager.Audit.visit r) b = .ok a → Audited c r (c.cm.nodeList r.shuffle) a := by
    intro after
    induction after with
    | nil =>
      intro seen b hl hb hfo
      cases hfo
      rw [hl, append_nil]
      exact hb
    | cons q after ih =>
      intro seen b hl hb hfo
      rw [foldlM_cons] at hfo
      obtain ⟨b', hb', hfo⟩ := Except.bind_eq_ok hfo
      exact ih (seen ++ [q]) b' (by rw [hl, append_assoc]; rfl) (hb.visit hs hl hb') hfo
  refine ha _ [] ⟨c.cm, 0, []⟩ rfl ⟨.refl _, fun _ => rfl, rfl, fun _ _ hk => .inl hk, fun q hp => .inl hp, fun _ hf => hf, fun q hf hf' => ?_⟩ hok
  rw [hf] at hf'
  cases hf'

end Audited

theorem Steady.failsByMajority {ev : DetectorEvent} (h : c.Steady ev) : c.FailsByMajority ev := by
  cases ev with
  | packet r seed p => trivial
  | heartbeat ω =>
    intro x hx q hf hf'
    obtain ⟨a, ha, hx⟩ := Except.bind_eq_ok hx
    cases hx
    exact (Audited.audit h ha).elevated q hf hf'

/-- In a history whose heartbeats are all sound, a node is elevated to FAIL only by a majority of the masters. -/
theorem fail_by_majority (c : Detector) (evs : List DetectorEvent) (h : Machine.Along step Steady evs c) :
    Machine.Along step FailsByMajority evs c := by
  induction evs generalizing c with
  | nil => trivial
  | cons ev evs ih => exact ⟨h.1.failsByMajority, fun c' hc' => ih c' (h.2 c' hc')⟩

def masterPeer (id : Bytes) (pongRecv : Int) : ClusterNode :=
  { id, ip := "127.0.0.1", port := 7380, busPort := 17380, role := .master, pongRecv }

def reportedPeer : Detector where
  cm := { (ClusterManager.zeroManager.addNode (masterPeer (lit "master01") 10000)).addNode (masterPeer (lit "master02") 0) with
    failReports := (∅ : GoMap (GoMap Int)).insert (lit "master02") ((∅ : GoMap Int).insert (lit "master01") 0) }
  reporting k target := k = lit "master01" ∧ target = lit "master02"

theorem fail_by_majority_two : Machine.Along step Steady [.heartbeat (.plain 10000)] reportedPeer ∧
    ∃ x, reportedPeer.cm.heartbeatStep (.plain 10000) = .ok x ∧ (x.2.heap 2).fail = true ∧ reportedPeer.Majority (.plain 10000) 2 := by
  have hs : Machine.Along step Steady [.heartbeat (.plain 10000)] reportedPeer := by
    refine ⟨fun before q after hl hse hf hsu => ?_, fun _ _ => trivial⟩
    change [0, 1, 2] = _ at hl
    rcases before with _ | ⟨a, _ | ⟨b, _ | ⟨d, before⟩⟩⟩
    · cases hl
      exact absurd rfl hse
    · cases hl
      exact absurd hsu (by decide)
    · cases hl
      refine ⟨by simp, by decide, fun k hk _ => ?_⟩
      have hk' : k ∈ (∅ : GoMap Int).insert (lit "master01") 0 := hk
      rw [mem_insert] at hk'
      rcases hk' with rfl | hk'
      · exact ⟨by decide, by decide⟩
      · cases hk'
    · simp at hl
  exact ⟨hs, _, rfl, by decide, (fail_by_majority reportedPeer _ hs).1 _ rfl 2 (by decide) (by decide)⟩

def firstPeer : Detector where
  cm := (ClusterManager.zeroManager.addNode (masterPeer (lit "!master1") 0)).addNode (masterPeer (lit "master02") 10000)
  reporting _ _ := false

/-- The first master is elevated to FAIL on the word of one master out of three. -/
theorem failed_by_one : ∃ x, firstPeer.cm.heartbeatStep (.plain 10000) = .ok x ∧
    (firstPeer.cm.heap 1).fail = false ∧ (x.2.heap 1).fail = true ∧ firstPeer.cm.masters.card = 3 ∧
    ¬ firstPeer.Majority (.plain 10000) 1 :=
  ⟨_, rfl, by decide, by decide, by decide, by decide⟩

end Detector

end VortexKV
