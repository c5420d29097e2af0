import VortexKV.Env

/-!
# The cluster bus

`internal/cluster/gossip.go`, with the packets of `bus.go`: the processing of a packet, the heartbeat and its
failure detection, and the two halves of a failover election, before and after the votes. A log line that prints
the first eight bytes of a shorter node ID panics. Each loop over the node table has readings of its own.
-/

namespace VortexKV

inductive PacketType
  | ping
  | pong
  | fail
  | failoverAuthReq
  | failoverAuthAck
  | unknown
deriving DecidableEq, Repr

structure BusFlags where
  master : Bool := false
  slave : Bool := false
  pFail : Bool := false
  fail : Bool := false
deriving DecidableEq

structure GossipEntry where
  nodeID : Bytes
  ip : Bytes
  port : Nat
  busPort : Nat
  flags : BusFlags
  pingSent : Int
  pongRecv : Int
deriving DecidableEq

structure BusPacket where
  type : PacketType
  epoch : Nat
  senderID : Bytes
  senderIP : Bytes
  port : Nat
  busPort : Nat
  flags : BusFlags := {}
  slots : Finset Nat := ∅
  gossip : List GossipEntry := []
  targetNodeID : Bytes := []
  reqEpoch : Nat := 0
deriving DecidableEq

/-! ### The bytes of a packet -/

/-- `io.ReadFull` of `n` bytes, and what is left. -/
def readBus (n : Nat) (s : Bytes) : Except Bytes (Bytes × Bytes) :=
  if n ≤ s.length then .ok (s.take n, s.drop n) else .error (if s = [] then lit "EOF" else lit "unexpected EOF")

def field (buf : Bytes) (start stop : Nat) : Bytes := (buf.take stop).drop start

/-- `strings.TrimRight(s, "\x00")` of the field. -/
def textField (buf : Bytes) (start stop : Nat) : Bytes := ((field buf start stop).reverse.dropWhile (· = 0)).reverse

def numField (buf : Bytes) (start stop : Nat) : Nat := (field buf start stop).foldl (fun n c => 256 * n + c.toNat) 0

def packetType : Nat → PacketType
  | 1 => .ping
  | 2 => .pong
  | 3 => .fail
  | 4 => .failoverAuthReq
  | 5 => .failoverAuthAck
  | _ => .unknown

def busFlags (n : Nat) : BusFlags := ⟨n.testBit 0, n.testBit 1, n.testBit 2, n.testBit 3⟩

def bitmapToSlots (bm : Bytes) : Finset Nat := (Finset.range 16384).filter fun i => (bm.getD (i / 8) 0).toNat.testBit (i % 8)

def readGossip (buf : Bytes) : GossipEntry where
  nodeID := textField buf 0 40
  ip := textField buf 40 56
  port := numField buf 56 58
  busPort := numField buf 58 60
  flags := busFlags (numField buf 60 62)
  pingSent := wrap64 (numField buf 62 70)
  pongRecv := wrap64 (numField buf 70 78)

def readPacket (s : Bytes) : Except Bytes (BusPacket × Bytes) := do
  let (hdr, s) ← readBus 2174 s
  if hdr.take 4 ≠ lit "VBUS" then .error "ERR invalid cluster bus magic bytes"
  else do
    let gossipCount := numField hdr 2172 2174
    let (buf, s) ← if gossipCount > 0 then readBus (gossipCount * 78) s else .ok ([], s)
    .ok (
      { type := packetType (numField hdr 4 5)
        epoch := numField hdr 6 14
        senderID := textField hdr 14 54
        senderIP := textField hdr 54 70
        port := numField hdr 70 72
        busPort := numField hdr 72 74
        flags := busFlags (numField hdr 74 76)
        slots := bitmapToSlots (field hdr 76 2124)
        gossip := (List.range gossipCount).map fun i => readGossip (buf.drop (i * 78))
        targetNodeID := textField hdr 2124 2164
        reqEpoch := numField hdr 2164 2172 }, s)

def toUint16 (n : Int) : Nat := (n % 2 ^ 16).toNat

/-- `id[:8]` in a log line. -/
def logID (id : Bytes) : Except Stop Unit := if id.length < 8 then .error .panic else .ok ()

def roleFlags (role : NodeRole) : BusFlags := { master := role = .master, slave := role ≠ .master }

namespace ClusterManager

variable (cm : ClusterManager)

/-! ### Packets -/

def gossipEntry (n : ClusterNode) : GossipEntry where
  nodeID := n.id
  ip := n.ip
  port := toUint16 n.port
  busPort := toUint16 n.busPort
  flags := { roleFlags n.role with fail := n.fail, pFail := !n.fail && n.pFail }
  pingSent := n.pingSent
  pongRecv := n.pongRecv

/-- The nodes of the table, in the order of a loop over it. -/
def nodeList (shuffle : List Bytes → List Bytes) : List Nat := (shuffle (sortedKeys cm.nodes)).filterMap cm.nodes.lookup

/-- `buildSelfPacketLocked`. -/
def buildSelfPacket (r : Readings) (type : PacketType) : BusPacket where
  type := type
  epoch := cm.currentEpoch
  senderID := cm.selfNode.id
  senderIP := cm.selfNode.ip
  port := toUint16 cm.selfNode.port
  busPort := toUint16 cm.selfNode.busPort
  flags := roleFlags cm.selfNode.role
  slots := cm.selfNode.slots
  gossip := (((cm.nodeList r.shuffle).map cm.heap).filter (·.id ≠ cm.selfNode.id)).map gossipEntry

/-- The node of the sender, registered if it is new. -/
def registerSender (r : Readings) (seed : NodeSeed) (p : BusPacket) : Nat × ClusterManager :=
  match cm.nodes.lookup p.senderID with
  | some q => (q, cm)
  | none =>
    let role := if p.flags.slave then .slave else .master
    (cm.next, cm.enter p.senderID (newNode seed r.nowMilli p.senderID p.senderIP p.port p.busPort role))

def claimSlot (sender : Nat) (p : BusPacket) (cm : ClusterManager) (slot : Nat) : ClusterManager :=
  if slot ∈ p.slots then
    match cm.slotMap slot with
    | none => cm.gainSlot sender slot
    | some owner =>
      if (cm.heap owner).id = (cm.heap sender).id then cm
      else if (cm.heap owner).id = cm.selfNode.id ∧ cm.currentEpoch > p.epoch then cm
      else (cm.loseSlot owner slot).gainSlot sender slot
  else cm

@[irreducible] def syncSlots (sender : Nat) (p : BusPacket) : ClusterManager := (List.range 16384).foldl (claimSlot sender p) cm

def processGossipEntry (now : Int) (reporterID : Bytes) (cm : ClusterManager) (g : GossipEntry) : ClusterManager :=
  if g.nodeID = cm.selfNode.id then cm
  else if g.flags.fail then
    match cm.nodes.lookup g.nodeID with
    | some q => cm.setNode q fun n => { n with fail := true, pFail := false, linkState := "disconnected" }
    | none => cm
  else if g.flags.pFail then
    { cm with failReports :=
        cm.failReports.insert g.nodeID (((cm.failReports.lookup g.nodeID).getD ∅).insert reporterID now) }
  else cm

def processGossipEntries (now : Int) (gossip : List GossipEntry) (reporterID : Bytes) : ClusterManager :=
  gossip.foldl (processGossipEntry now reporterID) cm

/-- What a node notes about the sender of a packet, and the epoch that it takes over. -/
def greet (r : Readings) (p : BusPacket) (sender : Nat) : ClusterManager :=
  let cm := cm.setNode sender fun n => { n with pongRecv := r.nowMilli, pFail := false, fail := false, linkState := "connected" }
  if p.epoch > cm.currentEpoch then { cm with currentEpoch := p.epoch } else cm

/-- The steps of `ProcessPacket` before it comes to the type. -/
def receive (r : Readings) (seed : NodeSeed) (p : BusPacket) : ClusterManager :=
  let (sender, cm) := cm.registerSender r seed p
  let cm := cm.greet r p sender
  if p.flags.master then cm.syncSlots sender p else cm

def Grants (p : BusPacket) : Prop :=
  cm.selfNode.role = .master ∧ p.reqEpoch ≥ cm.currentEpoch ∧ p.reqEpoch > cm.lastVoteEpoch ∧
    ∃ q, cm.nodes.lookup p.targetNodeID = some q ∧ (cm.heap q).fail = true

instance (p : BusPacket) : Decidable (cm.Grants p) :=
  haveI : Decidable (∃ q, cm.nodes.lookup p.targetNodeID = some q ∧ (cm.heap q).fail = true) :=
    match h : cm.nodes.lookup p.targetNodeID with
    | none => isFalse fun ⟨_, hq, _⟩ => by cases hq
    | some q => if hf : (cm.heap q).fail = true then isTrue ⟨q, rfl, hf⟩
        else isFalse fun ⟨_, hq, hf'⟩ => by cases hq; exact hf hf'
  inferInstanceAs (Decidable (_ ∧ _))

def ack (p : BusPacket) : BusPacket where
  type := .failoverAuthAck
  epoch := p.reqEpoch
  senderID := cm.selfNode.id
  senderIP := cm.selfNode.ip
  port := toUint16 cm.selfNode.port
  busPort := toUint16 cm.selfNode.busPort
  targetNodeID := p.senderID
  reqEpoch := p.reqEpoch

/-- `ProcessPacket`: the response, if any. -/
def processPacket (r : Readings) (seed : NodeSeed) (p : BusPacket) : Except Stop (Option BusPacket × ClusterManager) :=
  let cm := cm.receive r seed p
  match p.type with
  | .ping =>
    let cm := cm.processGossipEntries r.now p.gossip p.senderID
    .ok (some (cm.buildSelfPacket r .pong), cm)
  | .pong => .ok (none, cm.processGossipEntries r.now p.gossip p.senderID)
  | .fail => match cm.nodes.lookup p.targetNodeID with
    | none => .ok (none, cm)
    | some q =>
      if (cm.heap q).id = cm.selfNode.id then .ok (none, cm)
      else do
        logID p.senderID
        logID (cm.heap q).id
        .ok (none, cm.setNode q fun n => { n with fail := true, pFail := false, linkState := "disconnected" })
  | .failoverAuthReq =>
    if cm.Grants p then do
      logID p.senderID
      .ok (some (cm.ack p), { cm with lastVoteEpoch := p.reqEpoch, currentEpoch := p.reqEpoch })
    else .ok (none, cm)
  | _ => .ok (none, cm)

/-! ### The heartbeat -/

/-- `time.Duration(now-n.PongRecv) * time.Millisecond` is beyond the node timeout. -/
def timedOut (nowMilli : Int) (n : ClusterNode) : Bool :=
  wrap64 (wrap64 (nowMilli - n.pongRecv) * 1000000) > cm.nodeTimeout

def reports (id : Bytes) : GoMap Int := (cm.failReports.lookup id).getD ∅

/-- The loop of `heartbeatStep` over the node table: the masters seen so far, and the nodes elevated to FAIL. -/
structure Audit where
  cm : ClusterManager
  totalMasters : Nat
  failed : List Bytes

/-- A node that does not answer is marked PFAIL, and this is reported. -/
def markPFail (r : Readings) (q : Nat) : ClusterManager :=
  { cm.setNode q (fun n => { n with pFail := true, linkState := "disconnected" }) with
    failReports := cm.failReports.insert (cm.heap q).id ((cm.reports (cm.heap q).id).insert cm.selfNode.id r.now) }

def Audit.elevate (a : Audit) (q : Nat) : Except Stop Audit :=
  let n := a.cm.heap q
  if n.pFail = true ∧ n.fail = false ∧ a.totalMasters > 0 ∧ mapLen (a.cm.reports n.id) > a.totalMasters / 2 then do
    logID n.id
    .ok { a with cm := a.cm.setNode q fun n => { n with fail := true, pFail := false }, failed := a.failed ++ [n.id] }
  else .ok a

def Audit.count (a : Audit) (q : Nat) : Audit :=
  if (a.cm.heap q).role = .master then { a with totalMasters := a.totalMasters + 1 } else a

def Audit.visit (r : Readings) (a : Audit) (q : Nat) : Except Stop Audit :=
  let n := a.cm.heap q
  let a := a.count q
  if n.id = a.cm.selfNode.id then .ok a
  else if a.cm.timedOut r.nowMilli n = true ∧ n.pFail = false ∧ n.fail = false then do
    logID n.id
    Audit.elevate { a with cm := a.cm.markPFail r q } q
  else a.elevate q

def audit (r : Readings) : Except Stop Audit := (cm.nodeList r.shuffle).foldlM (Audit.visit r) ⟨cm, 0, []⟩

def failedMaster : Option Bytes :=
  if cm.selfNode.role = .slave ∧ cm.selfNode.masterID ≠ [] ∧ cm.selfNode.masterID ≠ lit "-" then
    match cm.nodes.lookup cm.selfNode.masterID with
    | some q => if (cm.heap q).fail then some (cm.heap q).id else none
    | none => none
  else none

/-- What a heartbeat sends: FAIL for some nodes, PING to the peers, and whether it starts an election. -/
structure Heartbeat where
  failed : List Bytes
  peers : List Bytes
  ping : BusPacket
  failover : Option Bytes

def heartbeatStep (ω : Env) : Except Stop (Heartbeat × ClusterManager) := do
  let a ← cm.audit (ω.sub 0 [])
  let peers := (((a.cm.nodeList (ω.sub 1 []).shuffle).map a.cm.heap).filter fun n => n.id ≠ a.cm.selfNode.id ∧ n.fail = false).map (·.id)
  .ok (⟨a.failed, peers, a.cm.buildSelfPacket (ω.sub 2 []) .ping, a.cm.failedMaster⟩, a.cm)

/-! ### Elections -/

structure Election where
  candidate : Bytes
  failedMaster : Bytes
  epoch : Nat
  totalMasters : Nat
deriving DecidableEq

def aliveMasters : List Nat := (cm.nodeList id).filter fun q => (cm.heap q).role = .master ∧ (cm.heap q).fail = false

/-- `RunFailoverElection` up to the requests. -/
def startElection (failedMasterID : Bytes) : Except Stop (Option (Election × BusPacket) × ClusterManager) :=
  if cm.selfNode.role ≠ .slave then .ok (none, cm)
  else
    let epoch := (cm.currentEpoch + 1) % 2 ^ 64
    let cm := { cm with currentEpoch := epoch }
    do
      logID cm.selfNode.id
      logID failedMasterID
      .ok (some (⟨cm.selfNode.id, failedMasterID, epoch, cm.aliveMasters.length⟩,
        { type := .failoverAuthReq
          epoch := epoch
          senderID := cm.selfNode.id
          senderIP := cm.selfNode.ip
          port := toUint16 cm.selfNode.port
          busPort := toUint16 cm.selfNode.busPort
          targetNodeID := failedMasterID
          reqEpoch := epoch }), cm)

/-- The answers that `RunFailoverElection` counts as votes. -/
def Election.Counts (e : Election) (p : BusPacket) : Prop :=
  p.type = .failoverAuthAck ∧ p.targetNodeID = e.candidate ∧ p.reqEpoch = e.epoch

instance (e : Election) (p : BusPacket) : Decidable (e.Counts p) := inferInstanceAs (Decidable (_ ∧ _))

/-- The candidate's own vote and the answers are enough. -/
def Election.Won (e : Election) (answers : Nat) : Prop := 1 + answers ≥ e.totalMasters / 2 + 1

instance (e : Election) (answers : Nat) : Decidable (e.Won answers) := inferInstanceAs (Decidable (_ ≥ _))

/-- A slot that `PromoteReplica` may take over. -/
def takeOver (failedMasterID : Bytes) (cm : ClusterManager) (slot : Nat) : ClusterManager :=
  match cm.nodes.lookup failedMasterID with
  | some q =>
    if slot ∈ (cm.heap q).slots then (cm.loseSlot q slot).gainSlot cm.self slot
    else if (cm.slotMap slot).map (fun o => (cm.heap o).id) = some failedMasterID then cm.gainSlot cm.self slot
    else cm
  | none => if (cm.slotMap slot).map (fun o => (cm.heap o).id) = some failedMasterID then cm.gainSlot cm.self slot else cm

/-- The manager that `PromoteReplica` leaves: a master, with the slots of the failed one. -/
@[irreducible] def promoted (failedMasterID : Bytes) : ClusterManager :=
  (List.range 16384).foldl (takeOver failedMasterID) (cm.setNode cm.self fun n => { n with role := .master, masterID := "-" })

/-- `PromoteReplica`: the announcement, if the node was a replica. -/
def promoteReplica (r : Readings) (failedMasterID : Bytes) : Except Stop (Option BusPacket × ClusterManager) :=
  if cm.selfNode.role = .master then .ok (none, cm)
  else do
    logID cm.selfNode.id
    .ok (some ((cm.promoted failedMasterID).buildSelfPacket r .pong), cm.promoted failedMasterID)

end ClusterManager

end VortexKV
