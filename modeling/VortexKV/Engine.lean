import VortexKV.Acl
import VortexKV.Aof
import VortexKV.DataCmd

/-!
# The engine's state

`Engine` and the objects it reaches: client sessions (by pointer, since a connection keeps the pointer it
was given while `dispatch` looks its session up by connection ID), the replication manager with the
command channel of each replica, the RDB snapshot, scripts and WebAssembly functions.
-/

namespace VortexKV

structure ClientSession where
  authenticated : Bool
  username : Bytes
  inMulti : Bool := false
  txQueue : List Command := []
  watchedKeys : Finset Bytes := ∅
  txAborted : Bool := false
deriving DecidableEq

inductive ReplRole
  | master
  | replica
deriving DecidableEq, Repr

structure ReplicaClient where
  id : Bytes
  cmdChan : List Bytes
deriving DecidableEq

def cmdChanCap : Nat := 1000

structure Replication where
  role : ReplRole := .master
  readOnly : Bool := false
  masterOffset : Int := 0
  masterHost : Bytes := []
  masterPort : Int := 0
  replicas : List ReplicaClient := []
deriving DecidableEq

namespace Replication

/-- `Broadcast`: a channel that is full loses the command. -/
def broadcast (args : Command) (rm : Replication) : Replication :=
  if rm.role ≠ .master ∨ rm.replicas = [] then rm
  else
    let payload := serializeCommand args
    { rm with
      masterOffset := rm.masterOffset + payload.length
      replicas := rm.replicas.map fun rep =>
        if rep.cmdChan.length < cmdChanCap then { rep with cmdChan := rep.cmdChan ++ [payload] } else rep }

def promoteToMaster (rm : Replication) : Replication :=
  if rm.role = .master then rm
  else { rm with role := .master, readOnly := false, masterHost := [], masterPort := 0 }

def connectToMaster (host : Bytes) (port : Int) (rm : Replication) : Replication :=
  { rm with role := .replica, readOnly := true, masterHost := host, masterPort := port }

end Replication

inductive RDBValue
  | string (s : Bytes)
  | list (items : List Bytes)
  | set (members : List Bytes)
  | hash (fields : GoMap Bytes)
  | zset (items : List ScoredMember)
  | stream (items : List (Bytes × GoMap Bytes))
  | vector (dim : Nat) (vectors : GoMap (List UInt32))
deriving DecidableEq

structure RDBEntry where
  key : Bytes
  value : RDBValue
  expiresAt : Int
deriving DecidableEq

/-- The RDB file by its entries, and the manager's state. -/
structure RDBManager where
  file : Option (List RDBEntry)
  lastSave : Int
  bgInProgress : Bool := false
deriving DecidableEq

/-- The script cache, and whether a script runs that `SCRIPT KILL` can cancel. -/
structure LuaManager where
  scripts : GoMap Bytes := ∅
  activeCancel : Bool := false
deriving DecidableEq

structure WasmFunction where
  bytecode : Bytes
  loadedAt : Int
  callCount : Int
deriving DecidableEq

structure Engine where
  ks : Keyspace
  aof : Option Bytes
  rdb : Option RDBManager
  acl : Option ACLManager
  lua : Option LuaManager
  wasm : Option (GoMap WasmFunction)
  repl : Option Replication
  cluster : Option ClusterManager
  password : Bytes
  maxMemory : Nat
  evictionPolicy : Bytes
  memCheckCounter : Nat
  watchedCount : Int
  sessions : Nat → ClientSession
  nextSession : Nat
  clientSessions : GoMap Nat

/-- The connection IDs that the server gives to its own callers. -/
def replicaStream : Bytes := "replica_stream"

def aofReplay : Bytes := "aof_replay"

namespace Engine

variable (e : Engine)

def setSession (p : Nat) (f : ClientSession → ClientSession) : Engine :=
  { e with sessions := Function.update e.sessions p (f (e.sessions p)) }

/-- `GetClientSession`: the pointer to the session of a connection ID. -/
def getClientSession (connID : Bytes) : Nat × Engine :=
  match e.clientSessions.lookup connID with
  | some p => (p, e)
  | none =>
    let session : ClientSession :=
      { authenticated := e.password = [] ∨ connID = replicaStream ∨ connID = aofReplay ∨ connID = []
        username := "default" }
    (e.nextSession, { e with
      sessions := Function.update e.sessions e.nextSession session
      nextSession := e.nextSession + 1
      clientSessions := e.clientSessions.insert connID e.nextSession })

def clearClientSession (connID : Bytes) : Engine :=
  match e.clientSessions.lookup connID with
  | none => e
  | some p => { e with
      watchedCount := if (e.sessions p).watchedKeys = ∅ then e.watchedCount else e.watchedCount - 1
      clientSessions := e.clientSessions.erase connID }

/-- A session stops watching, which `UNWATCH`, `DISCARD` and `EXEC` do. -/
def unwatch (p : Nat) : Engine :=
  if (e.sessions p).watchedKeys = ∅ then e
  else { e.setSession p (fun s => { s with watchedKeys := ∅ }) with watchedCount := e.watchedCount - 1 }

def touchWatchedKey (key : Bytes) : Engine :=
  if e.watchedCount ≤ 0 then e
  else { e with sessions := fun p =>
    if key ∈ (e.sessions p).watchedKeys ∧ ∃ id ∈ e.clientSessions.keys, e.clientSessions.lookup id = some p
    then { e.sessions p with txAborted := true } else e.sessions p }

def touchWatchedKeys (keys : List Bytes) : Engine := keys.foldl touchWatchedKey e

/-- `AOF.WriteCommand` and `Broadcast`. -/
def persist (connID : Bytes) (args : Command) : Engine :=
  { e with
    aof := e.aof.map (writeCommand · args)
    repl := if connID = replicaStream then e.repl else e.repl.map (Replication.broadcast args) }

end Engine

/-! ### The keys and the kind of a command -/

def writeCommandNames : List Bytes :=
  ["SET", "MSET", "DEL", "EXPIRE", "PEXPIREAT", "EXPIREAT", "PERSIST",
    "INCR", "INCRBY", "DECR", "DECRBY", "APPEND",
    "HSET", "HMSET", "HDEL", "HINCRBY",
    "LPUSH", "RPUSH", "LPOP", "RPOP", "LSET", "LTRIM",
    "SADD", "SREM", "SPOP",
    "ZADD", "ZREM", "ZINCRBY", "ZREMRANGEBYSCORE",
    "VADD", "VDEL", "FLUSHDB", "FLUSHALL", "XADD", "XDEL", "XTRIM", "XGROUP", "XACK"]

def isWriteCommand (cmd : Bytes) : Bool := cmd ∈ writeCommandNames

def keylessCommands : List Bytes :=
  ["AUTH", "PING", "ECHO", "QUIT", "COMMAND", "CLIENT", "SELECT", "INFO", "DBSIZE",
    "TIME", "SLOWLOG", "MULTI", "EXEC", "DISCARD", "WATCH", "UNWATCH", "BGREWRITEAOF", "ACL",
    "FLUSHDB", "FLUSHALL", "CONFIG", "SHUTDOWN", "PUBSUB", "SUBSCRIBE", "UNSUBSCRIBE", "PSUBSCRIBE",
    "PUNSUBSCRIBE", "SAVE", "BGSAVE", "LASTSAVE", "CLUSTER", "REPLICAOF", "SLAVEOF", "REPLCONF", "ROLE",
    "SCRIPT", "WASM"]

/-- The keys and the remaining arguments of a script call. Two more than a count near the largest integer
is negative, so the bounds check passes and the slice panics. -/
def scriptKeys (numKeys : Int) (rest : List Bytes) : Except Stop (Option (List Bytes × List Bytes)) :=
  if (rest.length : Int) + 2 < wrap64 (2 + numKeys) then .ok none
  else if (rest.length : Int) < numKeys then .error .panic
  else .ok (some (rest.take numKeys.toNat, rest.drop numKeys.toNat))

def evenPositions : List Bytes → List Bytes
  | k :: _ :: rest => k :: evenPositions rest
  | [k] => [k]
  | [] => []

def extractCommandKeys (cmd : Bytes) (args : List Bytes) : Except Stop (List Bytes) :=
  match args with
  | [] => .ok []
  | a :: args =>
    if cmd ∈ keylessCommands then .ok []
    else if cmd = lit "EVAL" ∨ cmd = lit "EVALSHA" then
      match args with
      | [] => .ok []
      | n :: rest => match parseInt64 n with
        | none => .ok []
        | some numKeys =>
          if numKeys ≤ 0 then .ok []
          else (scriptKeys numKeys rest).map fun p => (p.map Prod.fst).getD []
    else if cmd = lit "MGET" ∨ cmd = lit "DEL" ∨ cmd = lit "EXISTS" then .ok (a :: args)
    else if cmd = lit "MSET" then .ok (evenPositions (a :: args))
    else .ok [a]

end VortexKV
