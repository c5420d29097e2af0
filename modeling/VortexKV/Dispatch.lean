import VortexKV.Rdb

/-!
# Dispatch

`Engine.dispatch`: one command, already past the guards. Data commands run their `Action` on the keyspace;
the others work on sessions, scripts, replication, the cluster and persistence. `scripts` runs a Lua
program; it is a parameter because a script calls back into the executor (`Executor`).
-/

namespace VortexKV

open KeyedStore

inductive Cmd
  | data (c : DataCmd)
  | auth | acl | multi | exec | discard | watch | unwatch | bgrewriteaof | ping | echo | command | config
  | eval | evalsha | script | wasm | client | select | replicaof | replconf | role | cluster
  | save | bgsave | lastsave | info | time | slowlog | publish
  | unknown
deriving DecidableEq, Repr

def commandTable : List (String × Cmd) := [
  ("AUTH", .auth), ("ACL", .acl), ("MULTI", .multi), ("EXEC", .exec), ("DISCARD", .discard),
  ("WATCH", .watch), ("UNWATCH", .unwatch), ("BGREWRITEAOF", .bgrewriteaof), ("PING", .ping),
  ("ECHO", .echo), ("COMMAND", .command), ("CONFIG", .config), ("EVAL", .eval), ("EVALSHA", .evalsha),
  ("SCRIPT", .script), ("WASM", .wasm), ("CLIENT", .client), ("SELECT", .select),
  ("REPLICAOF", .replicaof), ("SLAVEOF", .replicaof), ("REPLCONF", .replconf), ("ROLE", .role),
  ("CLUSTER", .cluster), ("SAVE", .save), ("BGSAVE", .bgsave), ("LASTSAVE", .lastsave), ("INFO", .info),
  ("TIME", .time), ("SLOWLOG", .slowlog), ("PUBLISH", .publish),
  ("SET", .data .set), ("GET", .data .get), ("MSET", .data .mset), ("MGET", .data .mget),
  ("DEL", .data .del), ("EXISTS", .data .exists), ("TYPE", .data .type), ("INCR", .data .incr),
  ("DECR", .data .decr), ("INCRBY", .data .incrby), ("DECRBY", .data .decrby), ("APPEND", .data .append),
  ("STRLEN", .data .strlen), ("SETNX", .data .setnx), ("SETEX", .data .setex), ("PSETEX", .data .psetex),
  ("EXPIRE", .data .expire), ("PEXPIRE", .data .pexpire), ("TTL", .data .ttl), ("PTTL", .data .pttl),
  ("PERSIST", .data .persist), ("KEYS", .data .keys), ("DBSIZE", .data .dbsize),
  ("FLUSHDB", .data .flushdb), ("FLUSHALL", .data .flushall),
  ("HSET", .data .hset), ("HGET", .data .hget), ("HMSET", .data .hmset), ("HMGET", .data .hmget),
  ("HDEL", .data .hdel), ("HEXISTS", .data .hexists), ("HLEN", .data .hlen), ("HKEYS", .data .hkeys),
  ("HVALS", .data .hvals), ("HGETALL", .data .hgetall), ("HINCRBY", .data .hincrby),
  ("LPUSH", .data .lpush), ("RPUSH", .data .rpush), ("LPOP", .data .lpop), ("RPOP", .data .rpop),
  ("LRANGE", .data .lrange), ("LLEN", .data .llen), ("LINDEX", .data .lindex),
  ("SADD", .data .sadd), ("SREM", .data .srem), ("SMEMBERS", .data .smembers),
  ("SISMEMBER", .data .sismember), ("SCARD", .data .scard),
  ("ZADD", .data .zadd), ("ZSCORE", .data .zscore), ("ZRANK", .data .zrank), ("ZRANGE", .data .zrange),
  ("ZREVRANGE", .data .zrevrange), ("ZREM", .data .zrem), ("ZCARD", .data .zcard),
  ("XADD", .data .xadd), ("XRANGE", .data .xrange), ("XREVRANGE", .data .xrevrange), ("XLEN", .data .xlen),
  ("XDEL", .data .xdel), ("XTRIM", .data .xtrim), ("XREAD", .data .xread), ("XGROUP", .data .xgroup),
  ("XREADGROUP", .data .xreadgroup), ("XACK", .data .xack), ("XPENDING", .data .xpending),
  ("XINFO", .data .xinfo),
  ("VADD", .data .vadd), ("VDEL", .data .vdel), ("VSEARCH", .data .vsearch), ("VSIM", .data .vsim),
  ("VINFO", .data .vinfo)]

def Cmd.ofName (name : Bytes) : Cmd := (commandTable.find? (lit ·.1 = name)).elim .unknown Prod.snd

/-- The result of a dispatch: the reply, the `isWrite` flag and the engine. -/
abbrev Dispatched := Except Stop (Value × Bool × Engine)

def Engine.replies (e : Engine) (v : Value) : Dispatched := .ok (v, false, e)

def Engine.errs (e : Engine) (msg : Bytes) : Dispatched := e.replies (.error msg)

def wrongArgsText (cmd : Bytes) : Bytes :=
  lit "ERR wrong number of arguments for '" ++ cmd ++ lit "' command"

variable (rt : Runtime) (r : Readings)

/-! ### Connections and sessions -/

def ACLManager.syncDefault (acl : ACLManager) (password : Bytes) : ACLManager :=
  match acl.lookup (lit "default") with
  | some d => if d.password ≠ password then setUser acl { d with password := password } else acl
  | none => acl

def cmdAuth (e : Engine) (connID : Bytes) : List Bytes → Dispatched
  | [] => e.errs (wrongArgsText "auth")
  | a :: rest =>
    let username := if rest = [] then lit "default" else a
    let password := rest.headD a
    let login (e : Engine) (name : Bytes) : Dispatched :=
      let (p, e) := e.getClientSession connID
      (e.setSession p fun s => { s with authenticated := true, username := name }).replies ok
    match e.acl with
    | some acl =>
      let acl := if username = lit "default" then acl.syncDefault e.password else acl
      match acl.authenticate username password with
      | some user => login { e with acl := some acl } user.username
      | none => Engine.errs { e with acl := some acl } "ERR invalid password"
    | none =>
      if e.password = [] ∨ password = e.password then login e username else e.errs "ERR invalid password"

def aclReply (acl : ACLManager) (sub : Bytes) (args : List Bytes) : Option Value :=
  if sub = lit "USERS" then some (bulks (r.shuffle (sortedKeys acl)))
  else if sub = lit "LIST" then
    some (bulks (((r.shuffle (sortedKeys acl)).filterMap acl.lookup).map ACLManager.listLine))
  else if sub = lit "GETUSER" then
    match args with
    | [] => some (.error (wrongArgsText "acl getuser"))
    | name :: _ => match acl.lookup name with
      | none => some .nil
      | some u => some (.ofArray [.bulkString "flags",
          bulks ((if u.enabled then lit "on" else lit "off") :: if u.isAdmin then [lit "admin"] else []),
          .bulkString "keys", bulks u.keyPatterns])
  else none

def handleACLCommand (e : Engine) (connID : Bytes) : List Bytes → Dispatched
  | [] => e.errs (wrongArgsText "acl")
  | sub :: args =>
    match e.acl with
    | none => e.errs "ERR ACL subsystem unavailable"
    | some acl =>
      let sub := toUpper rt.unicode sub
      let (p, e) := e.getClientSession connID
      let caller := ACLManager.orDefault (e.sessions p).username
      if sub = lit "WHOAMI" then e.replies (.bulkString caller)
      else if (acl.lookup caller).map (·.isAdmin) ≠ some true then
        e.errs (lit "NOPERM administrative command 'ACL " ++ sub ++ lit "' not allowed for user '" ++ caller ++
          lit "'")
      else match aclReply r acl sub args with
        | some v => e.replies v
        | none =>
          if sub = lit "SETUSER" then match args with
            | [] => e.errs (wrongArgsText "acl setuser")
            | name :: toks =>
              let user := toks.foldl ACLManager.applyToken ((acl.lookup name).getD { username := name })
              Engine.replies { e with acl := some (ACLManager.setUser acl user) } ok
          else if sub = lit "DELUSER" then match args with
            | [] => e.errs (wrongArgsText "acl deluser")
            | name :: _ =>
              Engine.replies { e with acl := some (ACLManager.deleteUser acl name).2 }
                (.integer (if (ACLManager.deleteUser acl name).1 then 1 else 0))
          else e.errs (lit "ERR unknown ACL subcommand '" ++ sub ++ lit "'")

def cmdMulti (e : Engine) (connID : Bytes) : Dispatched :=
  let (p, e) := e.getClientSession connID
  (e.setSession p fun s => { s with inMulti := true, txQueue := [] }).replies ok

def cmdWatch (e : Engine) (connID : Bytes) (args : List Bytes) : Dispatched :=
  let (p, e) := e.getClientSession connID
  if (e.sessions p).inMulti then e.errs "ERR WATCH inside MULTI is not allowed"
  else if args = [] then e.errs (wrongArgsText "watch")
  else
    let count := if (e.sessions p).watchedKeys = ∅ then e.watchedCount + 1 else e.watchedCount
    Engine.replies { e.setSession p (fun s => { s with watchedKeys := s.watchedKeys ∪ args.toFinset }) with
      watchedCount := count } ok

def cmdUnwatch (e : Engine) (connID : Bytes) : Dispatched :=
  let (p, e) := e.getClientSession connID
  ((e.unwatch p).setSession p fun s => { s with txAborted := false }).replies ok

def cmdConfig (args : List Bytes) : Value :=
  match args with
  | sub :: param :: _ =>
    if toUpper rt.unicode sub = lit "GET" then
      let param := toLower rt.unicode param
      bulks [if param = lit "*" then "save" else param, ""]
    else if toUpper rt.unicode sub = lit "SET" ∨ toUpper rt.unicode sub = lit "RESETSTAT" then ok
    else .ofArray []
  | [sub] => if toUpper rt.unicode sub = lit "RESETSTAT" then ok else .ofArray []
  | [] => .ofArray []

/-! ### Scripts -/

/-- The part of `Eval` and `EvalSha` that both have: the keys, and the run. -/
def runScript (scripts : LuaProg → Engine → Except Stop (Value × Engine)) (e : Engine) (script numKeys : Bytes)
    (rest : List Bytes) (start : Engine) : Dispatched :=
  match parseInt64 numKeys with
  | none => e.errs notInteger
  | some n =>
    if n < 0 then e.errs notInteger
    else match scriptKeys n rest with
      | .error s => .error s
      | .ok none => e.errs "ERR Number of keys can't be greater than number of args"
      | .ok (some (keys, argv)) =>
        match scripts (r.lua script keys argv) start with
        | .error s => .error s
        | .ok (v, e) => e.replies v

def LuaManager.load (m : LuaManager) (script : Bytes) : LuaManager :=
  { m with scripts := m.scripts.insert (toLower rt.unicode (rt.sha1hex script)) script }

def cmdEval (scripts : LuaProg → Engine → Except Stop (Value × Engine)) (e : Engine) (args : List Bytes) :
    Dispatched :=
  match e.lua with
  | none => e.errs "ERR Lua engine not initialized"
  | some m => match args with
    | script :: n :: rest => runScript r scripts e script n rest { e with lua := some (m.load rt script) }
    | _ => e.errs (wrongArgsText "eval")

def cmdEvalSha (scripts : LuaProg → Engine → Except Stop (Value × Engine)) (e : Engine) (args : List Bytes) :
    Dispatched :=
  match e.lua with
  | none => e.errs "ERR Lua engine not initialized"
  | some m => match args with
    | sha :: n :: rest => match m.scripts.lookup (toLower rt.unicode (toLower rt.unicode sha)) with
      | none => e.errs "NOSCRIPT No matching script. Please use EVAL."
      | some script => runScript r scripts e script n rest e
    | _ => e.errs (wrongArgsText "evalsha")

def scriptCommand (e : Engine) (args : List Bytes) : Dispatched :=
  match e.lua with
  | none => e.errs "ERR Lua engine not initialized"
  | some m => match args with
    | [] => e.errs (wrongArgsText "script")
    | sub :: args =>
      let sub := toUpper rt.unicode sub
      if sub = lit "LOAD" then match args with
        | [script] => Engine.replies { e with lua := some (m.load rt script) }
            (.bulkString (toLower rt.unicode (rt.sha1hex script)))
        | _ => e.errs (wrongArgsText "script|load")
      else if sub = lit "EXISTS" then
        if args = [] then e.errs (wrongArgsText "script|exists")
        else e.replies (.ofArray (args.map fun sha =>
          .integer (if toLower rt.unicode sha ∈ m.scripts then 1 else 0)))
      else if sub = lit "FLUSH" then Engine.replies { e with lua := some { m with scripts := ∅ } } ok
      else if sub = lit "KILL" then
        if m.activeCancel then Engine.replies { e with lua := some { m with activeCancel := false } } ok
        else e.errs "NOTBUSY No scripts in execution."
      else e.errs (lit "ERR Unknown SCRIPT subcommand or wrong # of args for '" ++ sub ++ lit "'")

/-- The host functions: they read and change the keyspace directly. -/
def runWasm (now : Int) : WasmProg → Keyspace → Value × Keyspace
  | .done v, ks => (v, ks)
  | .get key next, ks =>
    let (d, ks) := (KsProg.get key).run (ksStep now) ks
    runWasm now (next (d.bind fun d => d.1.string?)) ks
  | .set key val next, ks => runWasm now next ((KsProg.set key (.string val) 0).run (ksStep now) ks).2
  | .del key next, ks => runWasm now next (ks.delete [key]).2

def wasmLoad (e : Engine) (fns : GoMap WasmFunction) : List Bytes → Dispatched
  | name :: payload :: _ =>
    let hex := payload.length > 8 ∧ ((lit "0061736d").isPrefixOf payload ∨ (lit "0x").isPrefixOf payload)
    let clean := if (lit "0x").isPrefixOf payload then payload.drop 2 else payload
    match (if hex then rt.hexDecode clean else .ok payload) with
    | .error msg => e.errs (lit "ERR invalid hex bytecode: " ++ msg)
    | .ok code => match rt.wasmCompile code with
      | some msg => e.errs (lit "ERR failed to compile Wasm module: " ++ msg)
      | none => Engine.replies { e with wasm := some (fns.insert name ⟨code, r.now, 0⟩) } ok
  | _ => e.errs (wrongArgsText "wasm load")

def wasmCall (e : Engine) (fns : GoMap WasmFunction) : List Bytes → Dispatched
  | name :: params => match fns.lookup name with
    | none => e.errs (lit "ERR Wasm function '" ++ name ++ lit "' not found")
    | some fn =>
      let prog := r.wasm fn.bytecode name (params.map fun a => (parseInt64 a).getD 0)
      let (v, ks) := runWasm r.fastNow prog e.ks
      Engine.replies { e with
        ks := ks
        wasm := some (fns.insert name { fn with callCount := fn.callCount + 1 }) } v
  | [] => e.errs (wrongArgsText "wasm call")

def handleWasm (e : Engine) (args : List Bytes) : Dispatched :=
  match e.wasm with
  | none => e.errs "ERR WebAssembly runtime unavailable"
  | some fns => match args with
    | [] => e.errs (wrongArgsText "wasm")
    | sub :: args =>
      let sub := toUpper rt.unicode sub
      if sub = lit "LOAD" then wasmLoad rt r e fns args
      else if sub = lit "CALL" then wasmCall r e fns args
      else if sub = lit "LIST" then
        e.replies (.ofArray ((r.shuffle (sortedKeys fns)).filterMap fun name => (fns.lookup name).map fun fn =>
          table [("name", .bulkString name), ("bytes", .integer fn.bytecode.length),
            ("calls", .integer fn.callCount), ("loaded_at", .integer (fn.loadedAt / 1000000000))]))
      else if sub = lit "DELETE" then match args with
        | [] => e.errs (wrongArgsText "wasm delete")
        | name :: _ => Engine.replies { e with wasm := some (fns.erase name) }
            (.integer (if name ∈ fns then 1 else 0))
      else e.errs (lit "ERR unknown WASM subcommand '" ++ sub ++ lit "'")

/-! ### Replication and persistence -/

def cmdReplicaOf (e : Engine) : List Bytes → Dispatched
  | host :: port :: _ =>
    if toUpper rt.unicode host = lit "NO" ∧ toUpper rt.unicode port = lit "ONE" then
      Engine.replies { e with repl := e.repl.map Replication.promoteToMaster } ok
    else match parseInt64 port with
      | none => e.errs "ERR invalid port"
      | some port => Engine.replies { e with repl := e.repl.map (Replication.connectToMaster host port) } ok
  | _ => e.errs (wrongArgsText "replicaof")

def roleReply (repl : Option Replication) : Value :=
  let master (offset : Int) : Value := .ofArray [.bulkString "master", .integer offset, .ofArray []]
  match repl with
  | none => master 0
  | some rm =>
    if rm.role = .master then master rm.masterOffset
    else .ofArray [.bulkString "slave", .bulkString rm.masterHost, .integer rm.masterPort, .bulkString "up",
      .integer rm.masterOffset]

/-- `RDBManager.Save` of the present keyspace: the file is replaced unless writing it fails. -/
def RDBManager.save (ks : Keyspace) (m : RDBManager) : RDBManager :=
  match r.saveError with
  | some _ => m
  | none => { m with file := some ((dumpAllRDBEntries r ks).map RDBEntry.stored), lastSave := r.now / 1000000000 }

def cmdSave (e : Engine) : Dispatched :=
  match e.rdb with
  | none => e.errs "ERR RDB persistence not configured"
  | some m => match r.saveError with
    | some msg => e.errs (lit "ERR " ++ msg)
    | none => Engine.replies { e with rdb := some (m.save r e.ks) } ok

/-- `BGSAVE` starts a save that takes its snapshot later (`finishBgSave`). -/
def cmdBgSave (e : Engine) : Dispatched :=
  match e.rdb with
  | none => e.errs "ERR RDB persistence not configured"
  | some m =>
    if m.bgInProgress then e.errs "ERR Background save already in progress"
    else Engine.replies { e with rdb := some { m with bgInProgress := true } }
      (.simpleString "Background saving started")

/-- The goroutine of `BgSave`. -/
def finishBgSave (e : Engine) : Engine :=
  { e with rdb := e.rdb.map fun m =>
      if m.bgInProgress then { m.save r e.ks with bgInProgress := false } else m }

/-- `GenerateRedisInfo`. -/
def redisInfo (totalKeys : Int) : Bytes :=
  r.info ++ lit "db0:keys=" ++ formatInt totalKeys ++ lit ",expires=0,avg_ttl=0\r\n"

def infoReply (e : Engine) (args : List Bytes) : Value :=
  match e.repl with
  | none => .bulkString (redisInfo r e.ks.count)
  | some _ =>
    if args.head?.map (toLower rt.unicode) = some (lit "replication") then .bulkString r.replicationInfo
    else .bulkString (redisInfo r e.ks.count ++ CRLF ++ r.replicationInfo)

def slowlogReply (args : List Bytes) : Value :=
  let sub := args.head?.map (toUpper rt.unicode)
  if sub = some (lit "LEN") then .integer r.slowLogs.length
  else if sub = some (lit "RESET") then ok
  else .ofArray r.slowLogs

/-! ### Cluster -/

def clusterDisabled : Bytes := "ERR This instance has cluster support disabled"

def parseSlot (arg : Bytes) : Except Bytes Nat :=
  match parseInt64 arg with
  | some s => if 0 ≤ s ∧ s < 16384 then .ok s.toNat
    else .error (lit "ERR Invalid or out of range slot '" ++ arg ++ lit "'")
  | none => .error (lit "ERR Invalid or out of range slot '" ++ arg ++ lit "'")

def parseSlots : List Bytes → Except Bytes (List Nat)
  | [] => .ok []
  | a :: rest => match parseSlot a with
    | .error m => .error m
    | .ok s => (parseSlots rest).map (s :: ·)

/-- The keys of a slot, in the order `Keys("*")` lists them. -/
def keysInSlot (slot : Nat) (ks : Keyspace) : List Bytes :=
  (ks.keys r.shuffle rt.pathMatch r.nowMilli "*").filter (keySlot · = slot)

def changeCluster (e : Engine) (x : Except Bytes ClusterManager) : Dispatched :=
  match x with
  | .error m => e.errs m
  | .ok cm => Engine.replies { e with cluster := some cm } ok

inductive ClusterSub
  | keyslot | nodes | slots | info | myid | meet | addslots | delslots | setslot | replicate | forget
  | countkeysinslot | getkeysinslot | saveconfig | reset
deriving DecidableEq, Repr

def clusterTable : List (String × ClusterSub) := [
  ("KEYSLOT", .keyslot), ("NODES", .nodes), ("SLOTS", .slots), ("INFO", .info), ("MYID", .myid),
  ("MEET", .meet), ("ADDSLOTS", .addslots), ("DELSLOTS", .delslots), ("SETSLOT", .setslot),
  ("REPLICATE", .replicate), ("FORGET", .forget), ("COUNTKEYSINSLOT", .countkeysinslot),
  ("GETKEYSINSLOT", .getkeysinslot), ("SAVECONFIG", .saveconfig), ("RESET", .reset)]

def ClusterSub.ofName (name : Bytes) : Option ClusterSub := (clusterTable.find? (lit ·.1 = name)).map Prod.snd

def clusterCommand (e : Engine) (cm : ClusterManager) (args : List Bytes) : ClusterSub → Dispatched
  | .nodes => e.replies (.bulkString r.clusterNodes)
  | .slots => e.replies r.clusterSlots
  | .info => e.replies (.bulkString r.clusterInfo)
  | .meet => match args with
    | ip :: port :: opts => match parseInt64 port with
      | none => e.errs "ERR invalid port"
      | some port =>
        let busPort := (opts.head?.bind parseInt64).getD (wrap64 (port + 10000))
        changeCluster e ((r.meet cm ip port busPort).mapError (lit "ERR " ++ ·))
    | _ => e.errs (wrongArgsText "cluster meet")
  | .addslots => if args = [] then e.errs (wrongArgsText "cluster addslots")
    else changeCluster e ((parseSlots args).bind cm.addSlots)
  | .delslots => if args = [] then e.errs (wrongArgsText "cluster delslots")
    else changeCluster e ((parseSlots args).bind cm.delSlots)
  | .setslot => match args with
    | slot :: action :: opts => changeCluster e ((parseSlot slot).bind fun slot =>
        cm.setSlot slot (toUpper rt.unicode (toUpper rt.unicode action)) (opts.headD []))
    | _ => e.errs (wrongArgsText "cluster setslot")
  | .replicate => match args with
    | id :: _ => changeCluster e (cm.replicate id)
    | [] => e.errs (wrongArgsText "cluster replicate")
  | .forget => match args with
    | id :: _ => changeCluster e (cm.removeNode id)
    | [] => e.errs (wrongArgsText "cluster forget")
  | .saveconfig => match r.saveConfigError with
    | some msg => e.errs (lit "ERR " ++ msg)
    | none => e.replies ok
  | .reset => changeCluster e (.ok cm.reset)
  -- `MYID`; the subcommands that do without the cluster state do not come here
  | _ => e.replies (.bulkString cm.selfNode.id)

def handleClusterCommand (e : Engine) : List Bytes → Dispatched
  | [] => e.errs (wrongArgsText "cluster")
  | sub :: args =>
    match ClusterSub.ofName (toUpper rt.unicode sub) with
    | none => e.errs (lit "ERR unknown subcommand '" ++ toUpper rt.unicode sub ++ lit "'. Try CLUSTER HELP.")
    | some .keyslot => match args with
      | key :: _ => e.replies (.integer (keySlot key))
      | [] => e.errs (wrongArgsText "cluster keyslot")
    | some .countkeysinslot => match args with
      | slot :: _ => match parseSlot slot with
        | .error m => e.errs m
        | .ok slot => e.replies (.integer (keysInSlot rt r slot e.ks).length)
      | [] => e.errs (wrongArgsText "cluster countkeysinslot")
    | some .getkeysinslot => match args with
      | slot :: n :: _ => match parseSlot slot, parseInt64 n with
        | .error m, _ => e.errs m
        | .ok _, none => e.errs notInteger
        | .ok slot, some n =>
          if n < 0 then e.errs notInteger
          -- the bound is checked after a key is added, so at least one is listed
          else e.replies (bulks ((keysInSlot rt r slot e.ks).take (max 1 n.toNat)))
      | _ => e.errs (wrongArgsText "cluster getkeysinslot")
    | some sub => match e.cluster with
      | none => e.errs clusterDisabled
      | some cm => clusterCommand rt r e cm args sub

/-! ### The switch -/

/-- `Engine.dispatch` on a command name in upper case. -/
def dispatch (scripts : LuaProg → Engine → Except Stop (Value × Engine)) (e : Engine) (connID cmd : Bytes)
    (args : List Bytes) : Dispatched :=
  match Cmd.ofName cmd with
  | .data c =>
    let (out, ks) := (c.action rt r args).run r.fastNow e.ks
    out.map fun (v, w) => (v, w, { e with ks := ks })
  | .auth => cmdAuth e connID args
  | .acl => handleACLCommand rt r e connID args
  | .multi => cmdMulti e connID
  | .exec => e.errs "ERR EXEC without MULTI"
  | .discard => e.errs "ERR DISCARD without MULTI"
  | .watch => cmdWatch e connID args
  | .unwatch => cmdUnwatch e connID
  | .bgrewriteaof => e.replies (.simpleString "Background append only file rewriting started")
  | .ping => e.replies (match args with
    | [] => .simpleString "PONG"
    | a :: _ => .bulkString a)
  | .echo => match args with
    | [] => e.errs (wrongArgsText "echo")
    | a :: _ => e.replies (.bulkString a)
  | .command => e.replies (.ofArray [])
  | .config => e.replies (cmdConfig rt args)
  | .eval => cmdEval rt r scripts e args
  | .evalsha => cmdEvalSha rt r scripts e args
  | .script => scriptCommand rt e args
  | .wasm => handleWasm rt r e args
  | .client => e.replies ok
  | .select => e.replies ok
  | .replicaof => cmdReplicaOf rt e args
  | .replconf => e.replies ok
  | .role => e.replies (roleReply e.repl)
  | .cluster => handleClusterCommand rt r e args
  | .save => cmdSave r e
  | .bgsave => cmdBgSave e
  | .lastsave => e.replies (.integer (e.rdb.elim 0 RDBManager.lastSave))
  | .info => e.replies (infoReply rt r e args)
  | .time => e.replies (bulks [formatInt (r.now / 1000000000), formatInt (r.now % 1000000000 / 1000)])
  | .slowlog => e.replies (slowlogReply rt r args)
  | .publish => match args with
    | _ :: _ :: _ => e.replies (.integer r.published)
    | _ => e.errs (wrongArgsText "publish")
  | .unknown => e.errs (lit "ERR unknown command '" ++ cmd ++ lit "'")

theorem dispatch_data (scripts : LuaProg → Engine → Except Stop (Value × Engine)) (e : Engine) (connID : Bytes)
    (args : List Bytes) {cmd : Bytes} {c : DataCmd} (h : Cmd.ofName cmd = .data c) :
    dispatch rt r scripts e connID cmd args =
      ((c.action rt r args).run r.fastNow e.ks).1.map fun (v, w) =>
        (v, w, { e with ks := ((c.action rt r args).run r.fastNow e.ks).2 }) := by
  unfold dispatch
  rw [h]

end VortexKV
