import VortexKV.Dispatch

/-!
# The executor

`ExecuteCommandWithSession`: the guards in their order, transaction buffering, dispatch, and what follows a
write (watchers, the memory check, the log and the replicas). A script calls back into the executor with
the empty connection ID; a script that starts another one waits for a lock that its own caller holds, so
the inner executor has no scripts (`noScripts`).
-/

namespace VortexKV

abbrev Executed := Except Stop (Value × Engine)

abbrev Scripts := Env → LuaProg → Engine → Executed

section

variable (rt : Runtime)

/-! ### Guards -/

/-- The connection IDs of the server's own callers, which most guards let through. -/
def internalConn (connID : Bytes) : Bool := connID = replicaStream ∨ connID = aofReplay ∨ connID = []

def aclGuard (e : Engine) (session : ClientSession) (connID cmd : Bytes) (args : List Bytes) :
    Except Stop (Option Value) :=
  match e.acl with
  | none => .ok none
  | some acl =>
    if session.authenticated ∧ cmd ≠ lit "AUTH" ∧ cmd ≠ lit "QUIT" ∧ !internalConn connID then
      (extractCommandKeys cmd args).map fun keys =>
        (acl.refusal rt session.username cmd keys).map fun reason => .error (lit "NOPERM " ++ reason)
    else .ok none

/-- The slot ownership check for the keys of a command. -/
def slotGuard (cm : ClusterManager) : List Bytes → Option Value
  | [] => none
  | key :: keys =>
    let slot := keySlot key
    if keys.any (keySlot · ≠ slot) then
      some (.error "CROSSSLOT Keys in request don't hash to the same slot")
    else match cm.getSlotOwner slot with
      | none => some (.error (lit "CLUSTERDOWN Hash slot " ++ formatUint slot ++ lit " not served"))
      | some owner =>
        if owner.id ≠ cm.selfNode.id then
          some (.error (lit "MOVED " ++ formatUint slot ++ lit " " ++ owner.ip ++ lit ":" ++
            formatInt owner.port))
        else none

def clusterGuard (e : Engine) (connID cmd : Bytes) (args : List Bytes) : Except Stop (Option Value) :=
  match e.cluster with
  | none => .ok none
  | some cm =>
    if cm.enabled ∧ !internalConn connID then (extractCommandKeys cmd args).map (slotGuard cm)
    else .ok none

/-- The checks before a command is buffered or run, in order: the error reply of the first that fails. -/
def guards (e : Engine) (session : ClientSession) (connID cmd : Bytes) (args : List Bytes) :
    Except Stop (Option Value) :=
  if e.password ≠ [] ∧ !session.authenticated ∧ !internalConn connID ∧ cmd ≠ lit "AUTH" ∧ cmd ≠ lit "QUIT" then
    .ok (some (.error "NOAUTH Authentication required."))
  else
    match aclGuard rt e session connID cmd args with
    | .error s => .error s
    | .ok (some v) => .ok (some v)
    | .ok none =>
      if (e.repl.map (·.readOnly) = some true) ∧ connID ≠ replicaStream ∧ connID ≠ aofReplay ∧
          isWriteCommand cmd then
        .ok (some (.error "READONLY You can't write against a read only replica."))
      else clusterGuard e connID cmd args

/-! ### After a write -/

def touchKeys (e : Engine) (cmd : Bytes) (args : List Bytes) (isWrite : Bool) : Except Stop Engine :=
  if isWrite ∧ e.watchedCount > 0 then (extractCommandKeys cmd args).map e.touchWatchedKeys else .ok e

/-- The eviction loop: whether the memory in use is still above the limit, and the keyspace. Reading `i` of
the memory figures is the one at the head of round `i`. -/
def evictLoop (ω : Env) (maxMemory : Nat) : Nat → Nat → Keyspace → Bool × Keyspace
  | 0, i, ks => (maxMemory < (ω []).alloc i, ks)
  | rounds + 1, i, ks =>
    if maxMemory < (ω []).alloc i then
      let (evicted, ks) := ks.evictLRU (ω.sub i []).shuffle 50
      if evicted = 0 then (true, ks) else evictLoop ω maxMemory rounds (i + 1) ks
    else (false, ks)

/-- The memory check: whether the command is refused after it ran. -/
def memoryCheck (ω : Env) (e : Engine) (isWrite : Bool) : Bool × Engine :=
  if !isWrite ∨ e.maxMemory = 0 then (false, e)
  else
    let e := { e with memCheckCounter := e.memCheckCounter + 1 }
    if e.memCheckCounter % 2048 ≠ 0 ∨ (ω []).alloc 0 ≤ e.maxMemory then (false, e)
    else if e.evictionPolicy = lit "allkeys-lru" then
      let (refused, ks) := evictLoop ω e.maxMemory 5 0 e.ks
      (refused, { e with ks := ks })
    else (true, e)

def oom : Value := .error "OOM command not allowed when used memory > 'maxmemory'"

def runCommand (scripts : Scripts) (ω : Env) (e : Engine) (connID : Bytes) (name : Bytes) (args : List Bytes)
    (cmd : Bytes) : Executed :=
  match dispatch rt (ω []) (scripts ω) e connID cmd args with
  | .error s => .error s
  | .ok (v, isWrite, e) =>
    match touchKeys e cmd args isWrite with
    | .error s => .error s
    | .ok e =>
      let (refused, e) := memoryCheck ω e isWrite
      if refused then .ok (oom, e)
      else .ok (v, if isWrite then e.persist connID (name :: args) else e)

/-! ### Transactions -/

/-- One queued command of `executeTransaction`. An empty one is skipped and leaves the zero value. -/
def runQueued (scripts : Scripts) (ω : Env) (e : Engine) (connID : Bytes) : Command → Executed
  | [] => .ok ({ type := 0 }, e)
  | name :: args =>
    let cmd := toUpper rt.unicode name
    match dispatch rt (ω []) (scripts ω) e connID cmd args with
    | .error s => .error s
    | .ok (v, isWrite, e) =>
      let e := if isWrite then e.persist connID (name :: args) else e
      (touchKeys e cmd args isWrite).map fun e => (v, e)

/-- The loop over the queue; `i` numbers the commands for their readings. -/
def runQueue (scripts : Scripts) (ω : Env) (connID : Bytes) : Nat → List Command → Engine →
    Except Stop (List Value × Engine)
  | _, [], e => .ok ([], e)
  | i, c :: queue, e =>
    match runQueued rt scripts (ω.sub i) e connID c with
    | .error s => .error s
    | .ok (v, e) => (runQueue scripts ω connID (i + 1) queue e).map fun (vs, e) => (v :: vs, e)

/-- The session is taken out of its transaction: its queue, and whether it was aborted. -/
def closeTransaction (e : Engine) (p : Nat) : List Command × Bool × Engine :=
  ((e.sessions p).txQueue, (e.sessions p).txAborted,
    (e.unwatch p).setSession p fun s => { s with inMulti := false, txQueue := [], txAborted := false })

def executeTransaction (scripts : Scripts) (ω : Env) (e : Engine) (connID : Bytes) (p : Nat) : Executed :=
  let (queue, aborted, e) := closeTransaction e p
  if aborted then .ok (.nil, e)
  else (runQueue rt scripts ω connID 0 queue e).map fun (vs, e) => (.ofArray vs, e)

def bufferCommand (scripts : Scripts) (ω : Env) (e : Engine) (connID : Bytes) (p : Nat) (cmd : Bytes)
    (args : Command) : Executed :=
  if cmd = lit "EXEC" then executeTransaction rt scripts ω e connID p
  else if cmd = lit "DISCARD" then .ok (ok, (closeTransaction e p).2.2)
  else if cmd = lit "MULTI" then .ok (.error "ERR MULTI calls can not be nested", e)
  else .ok (.simpleString "QUEUED", e.setSession p fun s => { s with txQueue := s.txQueue ++ [args] })

/-! ### The entry points -/

/-- `ExecuteCommandWithSession` for a session pointer. -/
def executeCommandWithSession (scripts : Scripts) (ω : Env) (e : Engine) (p : Nat) (connID : Bytes) :
    Command → Executed
  | [] => .ok (.error "ERR empty command", e)
  | name :: args =>
    let cmd := toUpperFast rt.unicode name
    match guards rt e (e.sessions p) connID cmd args with
    | .error s => .error s
    | .ok (some v) => .ok (v, e)
    | .ok none =>
      if (e.sessions p).inMulti then bufferCommand rt scripts ω e connID p cmd (name :: args)
      else runCommand rt scripts ω e connID name args cmd

def executeCommand (scripts : Scripts) (ω : Env) (e : Engine) (connID : Bytes) (args : Command) : Executed :=
  let (p, e) := e.getClientSession connID
  executeCommandWithSession rt scripts ω e p connID args

/-! ### Scripts -/

/-- A script started by a script never gets the lock. -/
def noScripts : Scripts := fun _ _ _ => .error .hang

/-- The calls of a script, each executed for the empty connection ID. -/
def runCalls (ω : Env) : Nat → LuaProg → Engine → Executed
  | _, .done v, e => .ok (v, e)
  | i, .call args next, e =>
    match executeCommand rt noScripts (ω.sub i) e [] args with
    | .error s => .error s
    | .ok (v, e) => runCalls ω (i + 1) (next v) e

def Engine.setCancel (e : Engine) (running : Bool) : Engine :=
  { e with lua := e.lua.map fun m => { m with activeCancel := running } }

/-- `runScript`, for the calls a script makes. -/
def luaScripts : Scripts := fun ω prog e =>
  (runCalls rt ω 0 prog (e.setCancel true)).map fun (v, e) => (v, e.setCancel false)

def execute (ω : Env) (e : Engine) (p : Nat) (connID : Bytes) (args : Command) : Executed :=
  executeCommandWithSession rt (luaScripts rt) ω e p connID args

/-! ### Clients -/

/-- What the clients of an engine do: commands, one at a time, and disconnects. -/
inductive ClientEvent
  | command (own : Bytes) (ω : Env) (args : Command)
  | disconnect (own : Bytes)

def ClientEvent.step : ClientEvent → Engine → Except Stop Engine
  | command own ω args, e => (executeCommand rt (luaScripts rt) ω e own args).map Prod.snd
  | disconnect own, e => .ok (e.clearClientSession own)

def runClients : List ClientEvent → Engine → Except Stop Engine
  | [], e => .ok e
  | ev :: evs, e => (ev.step rt e).bind (runClients evs)

/-! ### Start -/

/-- The engine that replays the log: no file, no replication, no cluster. -/
def replayEngine (ks : Keyspace) : Engine where
  ks := ks
  aof := none
  rdb := none
  acl := some (ACLManager.new [])
  lua := some {}
  wasm := some ∅
  repl := none
  cluster := none
  password := []
  maxMemory := 0
  evictionPolicy := []
  memCheckCounter := 0
  watchedCount := 0
  sessions := fun _ => { authenticated := false, username := [] }
  nextSession := 0
  clientSessions := ∅

def replayCommands (ω : Env) : Nat → List Command → Engine → Except Stop Engine
  | _, [], e => .ok e
  | i, c :: cs, e =>
    match executeCommand rt (luaScripts rt) (ω.sub i) e aofReplay c with
    | .error s => .error s
    | .ok (_, e) => replayCommands ω (i + 1) cs e

/-- `NewEngine` with both files configured, for the entries of the RDB file and the bytes of the log. -/
def newEngine (ω : Env) (rdbFile : Option (List RDBEntry)) (aofFile : Bytes) : Except Stop Engine :=
  let ks := (rdbFile.elim id (loadRDB rt (ω []))) Keyspace.empty
  (replayCommands rt ω 0 (replay aofFile) (replayEngine ks)).map fun e =>
    { e with
      aof := some (openAOF aofFile)
      rdb := some ⟨rdbFile, (ω []).now / 1000000000, false⟩
      repl := some {}
      evictionPolicy := "allkeys-lru"
      watchedCount := 0
      sessions := fun _ => { authenticated := false, username := [] }
      nextSession := 0
      clientSessions := ∅ }

end

end VortexKV
