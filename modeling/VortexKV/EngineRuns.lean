import VortexKV.Trace
import VortexKV.ClusterRuns

/-!
# Runs of an engine and the transactions in them

Clients send commands, and between them the cluster bus changes the slot table: packets arrive, heartbeats and
elections run, a replica is promoted. An `Exec` is a transaction that starts; `ClientEvent.execs` lists those of a
command, the ones that scripts run for the empty connection ID among them.
-/

namespace VortexKV

inductive BusEvent
  | packet (r : Readings) (seed : NodeSeed) (p : BusPacket)
  | heartbeat (ω : Env)
  | election (failedMasterID : Bytes)
  | promotion (r : Readings) (failedMasterID : Bytes)

def BusEvent.op : BusEvent → ClusterOp
  | packet r seed p => .processPacket r seed p
  | heartbeat ω => .heartbeatStep ω
  | election failedMasterID => .startElection failedMasterID
  | promotion r failedMasterID => .promoteReplica r failedMasterID

inductive EngineEvent
  | client (ev : ClientEvent)
  | bus (ev : BusEvent)

section

variable (rt : Runtime)

def EngineEvent.step : EngineEvent → Engine → Option Engine
  | client ev, e => (ev.step rt e).toOption
  | bus ev, e => match e.cluster with
    | none => some e
    | some cm => (ClusterManager.step ev.op cm).map fun cm => { e with cluster := some cm }

/-! ### Transactions -/

/-- A transaction that starts: the engine that `EXEC` finds, the connection and its session. -/
structure Exec where
  engine : Engine
  connID : Bytes
  session : Nat

def Exec.queue (x : Exec) : List Command := (x.engine.sessions x.session).txQueue

def dispatchExecs (scriptExecs : Env → LuaProg → Engine → List Exec) (ω : Env) (e : Engine) (cmd : Bytes) (args : List Bytes) :
    List Exec :=
  match scriptOf rt (ω []) e cmd args with
  | some (prog, start) => scriptExecs ω prog start
  | none => []

def queueExecs (scripts : Scripts) (scriptExecs : Env → LuaProg → Engine → List Exec) (ω : Env) (connID : Bytes) :
    Nat → List Command → Engine → List Exec
  | _, [], _ => []
  | i, c :: queue, e =>
    (match c with
      | [] => []
      | name :: args => dispatchExecs rt scriptExecs (ω.sub i) e (toUpper rt.unicode name) args) ++
    match runQueued rt scripts (ω.sub i) e connID c with
    | .error _ => []
    | .ok (_, e) => queueExecs scripts scriptExecs ω connID (i + 1) queue e

def sessionExecs (scripts : Scripts) (scriptExecs : Env → LuaProg → Engine → List Exec) (ω : Env) (e : Engine) (p : Nat)
    (connID : Bytes) : Command → List Exec
  | [] => []
  | name :: args =>
    let cmd := toUpperFast rt.unicode name
    match guards rt e (e.sessions p) connID cmd args with
    | .ok none =>
      if (e.sessions p).inMulti then
        if cmd = lit "EXEC" ∧ (e.sessions p).txAborted = false then
          ⟨e, connID, p⟩ :: queueExecs rt scripts scriptExecs ω connID 0 (e.sessions p).txQueue (closeTransaction e p).2.2
        else []
      else dispatchExecs rt scriptExecs ω e cmd args
    | _ => []

def callsExecs (ω : Env) : Nat → LuaProg → Engine → List Exec
  | _, .done _, _ => []
  | i, .call args next, e =>
    sessionExecs rt noScripts (fun _ _ _ => []) (ω.sub i) (e.getClientSession []).2 (e.getClientSession []).1 [] args ++
    match executeCommand rt noScripts (ω.sub i) e [] args with
    | .error _ => []
    | .ok (v, e) => callsExecs ω (i + 1) (next v) e

def luaExecs : Env → LuaProg → Engine → List Exec := fun ω prog e => callsExecs rt ω 0 prog (e.setCancel true)

def ClientEvent.execs : ClientEvent → Engine → List Exec
  | command own ω args, e =>
    sessionExecs rt (luaScripts rt) (luaExecs rt) ω (e.getClientSession own).2 (e.getClientSession own).1 own args
  | disconnect _, _ => []

def EngineEvent.execs : EngineEvent → Engine → List Exec
  | client ev, e => ev.execs rt e
  | bus _, _ => []

end

end VortexKV
