import VortexKV.Cluster

/-!
# Rebalance plans and bootstrap topology

`ComputeRebalancePlan` of `internal/cluster/rebalancer.go` and the planning functions of `internal/operator/controller.go`.
-/

namespace VortexKV

structure MasterNodeInfo where
  id : Bytes
  ip : Bytes
  port : Int
  slots : List Nat

structure SlotMove where
  slot : Nat
  fromNodeID : Bytes
  fromAddr : Bytes
  toNodeID : Bytes
  toAddr : Bytes

structure RebalancePlan where
  totalSlotsToMove : Nat
  moves : List SlotMove
  initialCounts : GoMap Nat
  finalCounts : GoMap Int

namespace Rebalance

def addr (m : MasterNodeInfo) : Bytes := m.ip ++ lit ":" ++ formatInt m.port

def slotMove (d r : MasterNodeInfo) (slot : Nat) : SlotMove := ⟨slot, d.id, addr d, r.id, addr r⟩

/-- A map from the IDs, filled in the order of the list, whose first element has index `i`. -/
def countMap {β : Type} (f : MasterNodeInfo → Nat → β) : Nat → List MasterNodeInfo → GoMap β → GoMap β
  | _, [], c => c
  | i, m :: ms, c => countMap f (i + 1) ms (c.insert m.id (f m i))

/-- The donors with what they give, from the end of their slots. -/
def donors (cur tgt : Bytes → Nat) (ms : List MasterNodeInfo) : List (MasterNodeInfo × List Nat) :=
  ms.filterMap fun m =>
    if cur m.id > tgt m.id then some (m, m.slots.drop (m.slots.length - (cur m.id - tgt m.id))) else none

/-- The receivers with what they need. -/
def receivers (cur tgt : Bytes → Nat) (ms : List MasterNodeInfo) : List (MasterNodeInfo × Nat) :=
  ms.filterMap fun m => if cur m.id < tgt m.id then some (m, tgt m.id - cur m.id) else none

/-- The loop for a receiver over the donors from `dIdx` on; with the donors that are left. -/
def serve (r : MasterNodeInfo) : Nat → List (MasterNodeInfo × List Nat) → List SlotMove × List (MasterNodeInfo × List Nat)
  | _, [] => ([], [])
  | needed, (d, avail) :: ds =>
    if needed = 0 then ([], (d, avail) :: ds)
    else
      let take := min needed avail.length
      let moves := (avail.take take).map (slotMove d r)
      -- A donor that is left with something has given all that was needed.
      if avail.drop take = [] then
        let (more, ds) := serve r (needed - take) ds
        (moves ++ more, ds)
      else (moves, (d, avail.drop take) :: ds)

def serveAll : List (MasterNodeInfo × Nat) → List (MasterNodeInfo × List Nat) → List SlotMove
  | [], _ => []
  | (r, needed) :: rs, ds => (serve r needed ds).1 ++ serveAll rs (serve r needed ds).2

def transfers (cur tgt : Bytes → Nat) (ms : List MasterNodeInfo) : List SlotMove :=
  serveAll (receivers cur tgt ms) (donors cur tgt ms)

/-- The updates of `finalCounts` at a move. -/
def recount (c : GoMap Int) (mv : SlotMove) : GoMap Int :=
  let c := c.insert mv.fromNodeID ((c.lookup mv.fromNodeID).getD 0 - 1)
  c.insert mv.toNodeID ((c.lookup mv.toNodeID).getD 0 + 1)

def sorted (masters : List MasterNodeInfo) : List MasterNodeInfo := masters.insertionSort fun a b => bytesLe a.id b.id

/-- The share of the master with index `i` among `n`. -/
def share (n i : Nat) : Nat := 16384 / n + if i < 16384 % n then 1 else 0

def initialCounts (ms : List MasterNodeInfo) : GoMap Nat := countMap (fun m _ => m.slots.length) 0 ms ∅

def targetCounts (ms : List MasterNodeInfo) : GoMap Nat := countMap (fun _ => share ms.length) 0 ms ∅

/-- The moves for masters in the order in which the targets are given out. -/
def movesOf (ms : List MasterNodeInfo) : List SlotMove :=
  transfers (fun k => ((initialCounts ms).lookup k).getD 0) (fun k => ((targetCounts ms).lookup k).getD 0) ms

def computeRebalancePlan (masters : List MasterNodeInfo) : Except Bytes RebalancePlan :=
  if masters.length < 2 then .error "rebalance requires at least 2 master nodes"
  else
    let ms := sorted masters
    .ok ⟨(movesOf ms).length, movesOf ms, initialCounts ms, (movesOf ms).foldl recount (countMap (fun m _ => m.slots.length) 0 ms ∅)⟩

end Rebalance

/-! ### The operator -/

structure NodeRoleAssignment where
  podIndex : Nat
  podName : Bytes
  role : NodeRole
  masterPod : Bytes := []
  slots : List Nat := []
  slotRanges : Bytes := []

structure BootstrapPlan where
  clusterName : Bytes
  totalPods : Int
  masters : List NodeRoleAssignment
  replicas : List NodeRoleAssignment

namespace Operator

open Rebalance

def calculateTotalPods (masters replicasPerMaster : Int) : Int := wrap64 (masters * wrap64 (1 + replicasPerMaster))

/-- The loop of `PartitionSlots` over the masters from `i` on, with the `uint16` counter. -/
def partitionLoop (mastersCount : Nat) : Nat → Nat → Nat → List (List Nat)
  | _, 0, _ => []
  | i, n + 1, currentSlot =>
    let count := share mastersCount i
    (List.range count).map (fun j => (currentSlot + j) % 2 ^ 16) ::
      partitionLoop mastersCount (i + 1) n ((currentSlot + count) % 2 ^ 16)

def partitionSlots (mastersCount : Int) : List (List Nat) :=
  if mastersCount ≤ 0 then [] else partitionLoop mastersCount.toNat 0 mastersCount.toNat 0

def podName (cluster : Bytes) (i : Nat) : Bytes := cluster ++ lit "-" ++ formatUint i

def slotRange (slots : List Nat) : Bytes :=
  match slots.head?, slots.getLast? with
  | some a, some b => formatUint a ++ lit "-" ++ formatUint b
  | _, _ => []

/-- `PlanBootstrap`; `none` is the panic of `make` at a negative size. -/
def planBootstrap (cluster : Bytes) (masters replicasPerMaster : Int) : Option BootstrapPlan :=
  let totalPods := calculateTotalPods masters replicasPerMaster
  if masters < 0 ∨ wrap64 (totalPods - masters) < 0 then none
  else
    let assigned := (partitionSlots masters).mapIdx fun i slots =>
      { podIndex := i, podName := podName cluster i, role := .master, slots := slots, slotRanges := slotRange slots }
    some
      { clusterName := cluster
        totalPods := totalPods
        masters := assigned
        replicas := (List.range (totalPods - masters).toNat).map fun k =>
          { podIndex := masters.toNat + k
            podName := podName cluster (masters.toNat + k)
            role := .slave
            masterPod := (assigned[k % masters.toNat]?.map (·.podName)).getD [] } }

end Operator

end VortexKV
