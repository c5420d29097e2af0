import VortexKV.Datastruct
import Mathlib.Data.Finset.Image

/-!
# Hash slots and the cluster's slot table

`internal/cluster/crc16.go`, `node.go` and the slot operations of `cluster.go`. A node is reached through
a pointer, as in the code: the node table, the slot table and `self` name nodes of one heap, so that an
update made through one of them is seen through the others.
-/

namespace VortexKV

def crc16Table : List UInt16 := [
    0x0000, 0x1021, 0x2042, 0x3063, 0x4084, 0x50a5, 0x60c6, 0x70e7, 0x8108, 0x9129, 0xa14a, 0xb16b,
    0xc18c, 0xd1ad, 0xe1ce, 0xf1ef, 0x1231, 0x0210, 0x3273, 0x2252, 0x52b5, 0x4294, 0x72f7, 0x62d6,
    0x9339, 0x8318, 0xb37b, 0xa35a, 0xd3bd, 0xc39c, 0xf3ff, 0xe3de, 0x2462, 0x3443, 0x0420, 0x1401,
    0x64e6, 0x74c7, 0x44a4, 0x5485, 0xa56a, 0xb54b, 0x8528, 0x9509, 0xe5ee, 0xf5cf, 0xc5ac, 0xd58d,
    0x3653, 0x2672, 0x1611, 0x0630, 0x76d7, 0x66f6, 0x5695, 0x46b4, 0xb75b, 0xa77a, 0x9719, 0x8738,
    0xf7df, 0xe7fe, 0xd79d, 0xc7bc, 0x48c4, 0x58e5, 0x6886, 0x78a7, 0x0840, 0x1861, 0x2802, 0x3823,
    0xc9cc, 0xd9ed, 0xe98e, 0xf9af, 0x8948, 0x9969, 0xa90a, 0xb92b, 0x5af5, 0x4ad4, 0x7ab7, 0x6a96,
    0x1a71, 0x0a50, 0x3a33, 0x2a12, 0xdbfd, 0xcbdc, 0xfbbf, 0xeb9e, 0x9b79, 0x8b58, 0xbb3b, 0xab1a,
    0x6ca6, 0x7c87, 0x4ce4, 0x5cc5, 0x2c22, 0x3c03, 0x0c60, 0x1c41, 0xedae, 0xfd8f, 0xcdec, 0xddcd,
    0xad2a, 0xbd0b, 0x8d68, 0x9d49, 0x7e97, 0x6eb6, 0x5ed5, 0x4ef4, 0x3e13, 0x2e32, 0x1e51, 0x0e70,
    0xff9f, 0xefbe, 0xdfdd, 0xcffc, 0xbf1b, 0xaf3a, 0x9f59, 0x8f78, 0x9188, 0x81a9, 0xb1ca, 0xa1eb,
    0xd10c, 0xc12d, 0xf14e, 0xe16f, 0x1080, 0x00a1, 0x30c2, 0x20e3, 0x5004, 0x4025, 0x7046, 0x6067,
    0x83b9, 0x9398, 0xa3fb, 0xb3da, 0xc33d, 0xd31c, 0xe37f, 0xf35e, 0x02b1, 0x1290, 0x22f3, 0x32d2,
    0x4235, 0x5214, 0x6277, 0x7256, 0xb5ea, 0xa5cb, 0x95a8, 0x8589, 0xf56e, 0xe54f, 0xd52c, 0xc50d,
    0x34e2, 0x24c3, 0x14a0, 0x0481, 0x7466, 0x6447, 0x5424, 0x4405, 0xa7db, 0xb7fa, 0x8799, 0x97b8,
    0xe75f, 0xf77e, 0xc71d, 0xd73c, 0x26d3, 0x36f2, 0x0691, 0x16b0, 0x6657, 0x7676, 0x4615, 0x5634,
    0xd94c, 0xc96d, 0xf90e, 0xe92f, 0x99c8, 0x89e9, 0xb98a, 0xa9ab, 0x5844, 0x4865, 0x7806, 0x6827,
    0x18c0, 0x08e1, 0x3882, 0x28a3, 0xcb7d, 0xdb5c, 0xeb3f, 0xfb1e, 0x8bf9, 0x9bd8, 0xabbb, 0xbb9a,
    0x4a75, 0x5a54, 0x6a37, 0x7a16, 0x0af1, 0x1ad0, 0x2ab3, 0x3a92, 0xfd2e, 0xed0f, 0xdd6c, 0xcd4d,
    0xbdaa, 0xad8b, 0x9de8, 0x8dc9, 0x7c26, 0x6c07, 0x5c64, 0x4c45, 0x3ca2, 0x2c83, 0x1ce0, 0x0cc1,
    0xef1f, 0xff3e, 0xcf5d, 0xdf7c, 0xaf9b, 0xbfba, 0x8fd9, 0x9ff8, 0x6e17, 0x7e36, 0x4e55, 0x5e74,
    0x2e93, 0x3eb2, 0x0ed1, 0x1ef0
  ]

def crc16 (data : Bytes) : UInt16 :=
  data.foldl (fun crc b => (crc <<< 8) ^^^ crc16Table.getD (((crc >>> 8) ^^^ b.toUInt16) &&& 0x00FF).toNat 0) 0

/-- The bytes before and after the first `c`. -/
def cutAt (c : UInt8) : Bytes → Option (Bytes × Bytes)
  | [] => none
  | x :: s => if x = c then some ([], s) else (cutAt c s).map fun p => (x :: p.1, p.2)

theorem cutAt_append {c : UInt8} {s : Bytes} (h : c ∉ s) (t : Bytes) : cutAt c (s ++ c :: t) = some (s, t) := by
  induction s with
  | nil => exact if_pos rfl
  | cons x s ih =>
    rw [List.mem_cons, not_or] at h
    rw [List.cons_append, cutAt, if_neg (Ne.symm h.1), ih h.2]
    rfl

theorem eq_of_cutAt {c : UInt8} {s a b : Bytes} (h : cutAt c s = some (a, b)) : s = a ++ c :: b ∧ c ∉ a := by
  induction s generalizing a with
  | nil => cases h
  | cons x s ih =>
    unfold cutAt at h
    split at h
    · cases h
      simp_all
    · rename_i hx
      obtain ⟨p, hp, he⟩ := Option.map_eq_some_iff.1 h
      cases he
      obtain ⟨rfl, hc⟩ := ih hp
      exact ⟨rfl, List.not_mem_cons_of_ne_of_not_mem (Ne.symm hx) hc⟩

def extractHashTag (key : Bytes) : Bytes :=
  match cutAt 123 key with
  | none => key
  | some (_, rest) => match cutAt 125 rest with
    | none => key
    | some (tag, _) => if tag = [] then key else tag

def keySlot (key : Bytes) : Nat := (crc16 (extractHashTag key) &&& 0x3FFF).toNat

theorem keySlot_lt (k : Bytes) : keySlot k < 16384 := by
  unfold keySlot
  rw [UInt16.toNat_and]
  exact Nat.lt_of_le_of_lt Nat.and_le_right (by decide)

inductive NodeRole
  | master
  | slave
deriving DecidableEq, Repr

structure ClusterNode where
  id : Bytes
  ip : Bytes
  port : Int
  busPort : Int
  role : NodeRole
  masterID : Bytes := "-"
  slots : Finset Nat := ∅
  epoch : Nat := 1
  linkState : Bytes := "connected"
  pingSent : Int := 0
  pongRecv : Int := 0
  pFail : Bool := false
  fail : Bool := false
deriving DecidableEq

structure ClusterManager where
  enabled : Bool
  self : Nat
  heap : Nat → ClusterNode
  nodes : GoMap Nat
  slotMap : Nat → Option Nat
  currentEpoch : Nat
  lastVoteEpoch : Nat
  migratingSlots : Nat → Option Bytes
  importingSlots : Nat → Option Bytes
  /-- The nodes that reported a node as possibly failing, with the times -/
  failReports : GoMap (GoMap Int)
  nodeTimeout : Int
  /-- The first address of the heap that is not in use -/
  next : Nat

/-! ### New nodes -/

/-- The bytes that `GenerateNodeID` reads from the random source. -/
structure NodeSeed where
  bytes : Bytes
  length_bytes : bytes.length = 20

/-- A digit of `hex.EncodeToString`. -/
def hexDigit (n : Nat) : UInt8 := (if n < 10 then 48 + n else 87 + n).toUInt8

def hexEncode (s : Bytes) : Bytes := s.flatMap fun c => [hexDigit (c.toNat / 16), hexDigit (c.toNat % 16)]

def generateNodeID (seed : NodeSeed) : Bytes := hexEncode seed.bytes

/-- `NewNode`, at a clock reading in milliseconds. -/
def newNode (seed : NodeSeed) (nowMilli : Int) (id ip : Bytes) (port busPort : Int) (role : NodeRole) : ClusterNode where
  id := if id = [] then generateNodeID seed else id
  ip := if ip = [] then "127.0.0.1" else ip
  port := port
  busPort := if busPort ≤ 0 then port + 10000 else busPort
  role := role
  pongRecv := nowMilli

namespace ClusterManager

variable (cm : ClusterManager)

def selfNode : ClusterNode := cm.heap cm.self

def getSlotOwner (slot : Nat) : Option ClusterNode :=
  if slot ≥ 16384 then none else (cm.slotMap slot).map cm.heap

/-- The ID of the owner of a slot. -/
def ownerID (s : Nat) : Option Bytes := (cm.slotMap s).map fun q => (cm.heap q).id

def setNode (p : Nat) (f : ClusterNode → ClusterNode) : ClusterManager :=
  { cm with heap := Function.update cm.heap p (f (cm.heap p)) }

def gainSlot (p slot : Nat) : ClusterManager :=
  { cm.setNode p (fun n => { n with slots := insert slot n.slots }) with
    slotMap := Function.update cm.slotMap slot (some p) }

def loseSlot (p slot : Nat) : ClusterManager :=
  cm.setNode p fun n => { n with slots := n.slots.erase slot }

def addSlots (slots : List Nat) : Except Bytes ClusterManager :=
  match slots.findSome? fun s =>
      if s ≥ 16384 then some (lit "ERR slot out of range: " ++ formatUint s)
      else match cm.getSlotOwner s with
        | some o => if o.id ≠ cm.selfNode.id then
            some (lit "ERR slot " ++ formatUint s ++ lit " is already busy by node " ++ o.id) else none
        | none => none with
  | some e => .error e
  | none => .ok (slots.foldl (fun cm s => cm.gainSlot cm.self s) cm)

/-- A slot bound to a node, taken from its owner. -/
def giveSlot (target slot : Nat) : ClusterManager :=
  (match cm.slotMap slot with
    | some owner => if (cm.heap owner).id ≠ (cm.heap target).id then cm.loseSlot owner slot else cm
    | none => cm).gainSlot target slot

/-- The loop of `AssignSlotsToNode`; what was assigned before an error stays. -/
def assignLoop (target : Nat) (cm : ClusterManager) : List Nat → Option Bytes × ClusterManager
  | [] => (none, cm)
  | s :: slots => if s ≥ 16384 then (some (lit "ERR slot out of range: " ++ formatUint s), cm)
      else assignLoop target (cm.giveSlot target s) slots

def assignSlotsToNode (nodeID : Bytes) (slots : List Nat) : Option Bytes × ClusterManager :=
  match cm.nodes.lookup nodeID with
  | none => (some (lit "ERR unknown node " ++ nodeID), cm)
  | some target => cm.assignLoop target slots

def delSlots (slots : List Nat) : Except Bytes ClusterManager :=
  match slots.findSome? fun s =>
      if s ≥ 16384 then some (lit "ERR slot out of range: " ++ formatUint s)
      else if (cm.getSlotOwner s).map (·.id) ≠ some cm.selfNode.id then
        some (lit "ERR slot " ++ formatUint s ++ lit " is not owned by this node")
      else none with
  | some e => .error e
  | none => .ok (slots.foldl (fun cm s =>
      { cm.loseSlot cm.self s with slotMap := Function.update cm.slotMap s none }) cm)

/-- `SetSlot`, on the upper-case subcommand. -/
def setSlot (slot : Nat) (sub targetNodeID : Bytes) : Except Bytes ClusterManager :=
  let unknown : Bytes := lit "ERR I don't know about node " ++ targetNodeID
  let settled (cm : ClusterManager) : ClusterManager :=
    { cm with
      migratingSlots := Function.update cm.migratingSlots slot none
      importingSlots := Function.update cm.importingSlots slot none }
  if slot ≥ 16384 then .error (lit "ERR slot out of range: " ++ formatUint slot)
  else if sub = lit "NODE" then
    match cm.nodes.lookup targetNodeID with
    | none => .error unknown
    | some target =>
      let cm := match cm.slotMap slot with
        | some owner => if (cm.heap owner).id ≠ (cm.heap target).id then cm.loseSlot owner slot else cm
        | none => cm
      .ok (settled (cm.gainSlot target slot))
  else if sub = lit "MIGRATING" then
    if (cm.getSlotOwner slot).map (·.id) ≠ some cm.selfNode.id then
      .error (lit "ERR slot " ++ formatUint slot ++ lit " is not owned by this node")
    else if targetNodeID ∉ cm.nodes then .error unknown
    else .ok { cm with migratingSlots := Function.update cm.migratingSlots slot (some targetNodeID) }
  else if sub = lit "IMPORTING" then
    if targetNodeID ∉ cm.nodes then .error unknown
    else .ok { cm with importingSlots := Function.update cm.importingSlots slot (some targetNodeID) }
  else if sub = lit "STABLE" then .ok (settled cm)
  else .error "ERR Invalid CLUSTER SETSLOT action or number of arguments"

def alloc (node : ClusterNode) : ClusterManager :=
  { cm with heap := Function.update cm.heap cm.next node, next := cm.next + 1 }

def enter (k : Bytes) (node : ClusterNode) : ClusterManager := { cm.alloc node with nodes := cm.nodes.insert k cm.next }

/-- `AddNode`, of a node that is new on the heap. -/
def addNode (node : ClusterNode) : ClusterManager :=
  { cm.enter node.id node with
    slotMap := fun s => if node.role = .master ∧ s ∈ node.slots then some cm.next else cm.slotMap s }

def removeNode (nodeID : Bytes) : Except Bytes ClusterManager :=
  if nodeID = cm.selfNode.id then .error "ERR cannot remove self node from cluster"
  else match cm.nodes.lookup nodeID with
    | none => .error (lit "ERR unknown node " ++ nodeID)
    | some target => .ok { cm with
        slotMap := fun s =>
          if s ∈ (cm.heap target).slots ∧ cm.slotMap s = some target then none else cm.slotMap s
        nodes := cm.nodes.erase nodeID }

def replicate (masterID : Bytes) : Except Bytes ClusterManager :=
  if masterID = cm.selfNode.id then .error "ERR cannot replicate self"
  else match cm.nodes.lookup masterID with
    | none => .error (lit "ERR unknown node " ++ masterID)
    | some master =>
      if (cm.heap master).role ≠ .master then .error "ERR target node is not a master"
      else
        let owned := cm.selfNode.slots
        .ok { cm.setNode cm.self (fun n => { n with slots := ∅, role := .slave, masterID := masterID }) with
          slotMap := fun s => if s ∈ owned ∧ cm.slotMap s = some cm.self then none else cm.slotMap s }

/-! ### CLUSTER SLOTS -/

structure SlotRangeBlock where
  start : Nat
  stop : Nat
  master : Nat

/-- A turn of the loop of `FormatSlots`, with the blocks so far and `currentBlock`. -/
def blockStep (acc : List SlotRangeBlock × Option SlotRangeBlock) (i : Nat) : List SlotRangeBlock × Option SlotRangeBlock :=
  match cm.slotMap i, acc with
  | none, (blocks, current) => (blocks ++ current.toList, none)
  | some owner, (blocks, none) => (blocks, some ⟨i, i, owner⟩)
  | some owner, (blocks, some b) =>
    if (cm.heap b.master).id = (cm.heap owner).id ∧ b.stop + 1 = i then (blocks, some { b with stop := i })
    else (blocks ++ [b], some ⟨i, i, owner⟩)

def slotBlocks : List SlotRangeBlock :=
  let acc := (List.range 16384).foldl cm.blockStep ([], none)
  acc.1 ++ acc.2.toList

/-- `CLUSTER RESET`. -/
def reset : ClusterManager :=
  { cm.setNode cm.self (fun n => { n with slots := ∅ }) with
    slotMap := fun _ => none
    nodes := (∅ : GoMap Nat).insert cm.selfNode.id cm.self }

end ClusterManager

end VortexKV
