import VortexKV.Gossip
import VortexKV.ClusterConfig
import VortexKV.Machine

/-!
# The operations on a cluster manager

What may happen to the manager of a node: the commands of `CLUSTER`, the packets and heartbeats of the bus, the
promotion, and a text that is merged (`CLUSTER MEET` merges the answer of the peer). A command that fails leaves what
it had done until then; a panic ends the run.
-/

namespace VortexKV

inductive ClusterOp
  | addSlots (slots : List Nat)
  | assignSlotsToNode (nodeID : Bytes) (slots : List Nat)
  | delSlots (slots : List Nat)
  | setSlot (slot : Nat) (sub targetNodeID : Bytes)
  | addNode (node : ClusterNode)
  | removeNode (nodeID : Bytes)
  | replicate (masterID : Bytes)
  | reset
  | processPacket (r : Readings) (seed : NodeSeed) (p : BusPacket)
  | promoteReplica (r : Readings) (failedMasterID : Bytes)
  | merge (seed : NodeSeed) (nowMilli : Int) (text : Bytes)
  | heartbeatStep (ω : Env)
  | startElection (failedMasterID : Bytes)

namespace ClusterManager

def step : ClusterOp → ClusterManager → Option ClusterManager
  | .addSlots slots, cm => some ((cm.addSlots slots).toOption.getD cm)
  | .assignSlotsToNode nodeID slots, cm => some (cm.assignSlotsToNode nodeID slots).2
  | .delSlots slots, cm => some ((cm.delSlots slots).toOption.getD cm)
  | .setSlot slot sub target, cm => some ((cm.setSlot slot sub target).toOption.getD cm)
  | .addNode node, cm => some (cm.addNode node)
  | .removeNode nodeID, cm => some ((cm.removeNode nodeID).toOption.getD cm)
  | .replicate masterID, cm => some ((cm.replicate masterID).toOption.getD cm)
  | .reset, cm => some cm.reset
  | .processPacket r seed p, cm => (cm.processPacket r seed p).toOption.map Prod.snd
  | .promoteReplica r failedMasterID, cm => (cm.promoteReplica r failedMasterID).toOption.map Prod.snd
  | .merge seed nowMilli text, cm => some (cm.parseAndMergeNodesText seed nowMilli text)
  | .heartbeatStep ω, cm => (cm.heartbeatStep ω).toOption.map Prod.snd
  | .startElection failedMasterID, cm => (cm.startElection failedMasterID).toOption.map Prod.snd

end ClusterManager

end VortexKV
