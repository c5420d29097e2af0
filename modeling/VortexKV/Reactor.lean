import VortexKV.Executor

/-!
# The reactor server

`internal/reactor`: how a worker answers a command, with its shortcuts, and how connections come and go. `closeConn` first
takes the connection out and then clears its session; an accept can fall in between, so these are two steps.
-/

namespace VortexKV

/-! ### Serialisation of replies -/

def respOK : Bytes := lit "+OK" ++ CRLF

def respPONG : Bytes := lit "+PONG" ++ CRLF

def respNull : Bytes := lit "$-1" ++ CRLF

def respZero : Bytes := lit ":0" ++ CRLF

def respOne : Bytes := lit ":1" ++ CRLF

/-- The length of a bulk string, with the shortcuts for one and two digits. -/
def appendLen (n : Nat) : Bytes :=
  if n < 10 then [(48 + n).toUInt8]
  else if n < 100 then [(48 + n / 10).toUInt8, (48 + n % 10).toUInt8]
  else formatUint n

def appendBulkString (s : Bytes) : Bytes := 36 :: (appendLen s.length ++ CRLF ++ s ++ CRLF)

mutual

def appendValue : Value → Bytes
  | ⟨type, str, num, bulk, array, _, null⟩ =>
    if null then (if type = 42 then lit "*-1" ++ CRLF else respNull)
    else if type = 43 then
      if str = lit "OK" then respOK else if str = lit "PONG" then respPONG else 43 :: (str ++ CRLF)
    else if type = 45 then 45 :: (str ++ CRLF)
    else if type = 58 then
      if 0 ≤ num ∧ num < 10 then [58, (48 + num.toNat).toUInt8] ++ CRLF else 58 :: (formatInt num ++ CRLF)
    else if type = 36 then
      if bulk.getD [] ≠ [] then appendBulkString (bulk.getD []) else appendBulkString str
    else if type = 42 then 42 :: (formatUint array.length ++ CRLF ++ appendValues array)
    else if str ≠ [] then 43 :: (str ++ CRLF)
    else respOK

def appendValues : List Value → Bytes
  | [] => []
  | v :: vs => appendValue v ++ appendValues vs

end

/-! ### Executing a command -/

/-- The bytes of a short name in lower case, packed in little-endian order. -/
def packCmd (s : Bytes) : UInt32 := s.foldr (fun b acc => (b ||| 0x20).toUInt32 ||| (acc <<< 8)) 0

def asCmd3 (s : Bytes) : UInt32 := if s.length = 3 then packCmd s else 0

def asCmd4 (s : Bytes) : UInt32 := if s.length = 4 then packCmd s else 0

def cmdGetCode : UInt32 := packCmd "get"
def cmdSetCode : UInt32 := packCmd "set"
def cmdDelCode : UInt32 := packCmd "del"
def cmdPingCode : UInt32 := packCmd "ping"
def cmdQuitCode : UInt32 := packCmd "quit"
def cmdIncrCode : UInt32 := packCmd "incr"
def cmdDecrCode : UInt32 := packCmd "decr"

/-- What a command appends to the output buffer and the engine after it. -/
abbrev Appended := Except Stop (Bytes × Engine)

variable (rt : Runtime)

/-- `AppendValue` of `ExecuteCommandWithSession`. -/
def slowPath (ω : Env) (e : Engine) (p : Nat) (connID : Bytes) (args : Command) : Appended :=
  (execute rt ω e p connID args).map fun (v, e) => (appendValue v, e)

def isSimpleSession (e : Engine) (p : Nat) : Bool :=
  !(e.sessions p).inMulti && (e.sessions p).watchedKeys = ∅ && e.password = [] &&
    e.cluster.map (·.enabled) ≠ some true && e.repl.map (·.readOnly) ≠ some true

def fastWrites (e : Engine) (p : Nat) : Bool :=
  isSimpleSession e p && e.aof = none && e.repl = none && e.maxMemory = 0 && e.watchedCount = 0

/-- The shortcut for `GET`; a value of another type goes to the executor. -/
def fastGet (ω : Env) (e : Engine) (p : Nat) (connID name key : Bytes) : Appended :=
  match (KsProg.get key).run (ksStep (ω []).fastNow) e.ks with
  | (none, ks) => .ok (respNull, { e with ks := ks })
  | (some (.string s, _), ks) => .ok (appendBulkString s, { e with ks := ks })
  | (some _, ks) => slowPath rt ω { e with ks := ks } p connID [name, key]

def fastDel (e : Engine) (key : Bytes) : Appended :=
  .ok (if (e.ks.delete [key]).1 > 0 then respOne else respZero, { e with ks := (e.ks.delete [key]).2 })

/-- The shortcut for `INCR` and `DECR`; after an error the executor runs the command again. -/
def fastIncr (ω : Env) (e : Engine) (p : Nat) (connID name key : Bytes) (delta : Int) : Appended :=
  match (KsProg.incrBy key delta).run (ksStep (ω []).fastNow) e.ks with
  | (.ok n, ks) => .ok (58 :: (formatInt n ++ CRLF), { e with ks := ks })
  | (.error _, ks) => slowPath rt ω { e with ks := ks } p connID [name, key]

def fastSet (ω : Env) (e : Engine) (key val : Bytes) : Appended :=
  .ok (respOK, { e with ks := e.ks.setString (ω []).fastNow key val })

def isQuit (args : Command) : Bool := args.head?.map asCmd4 = some cmdQuitCode

/-- `EpollWorker.executeCommand`; after `QUIT` the server closes the connection (`Server.command`). -/
def fastPath (ω : Env) (e : Engine) (p : Nat) (connID : Bytes) (args : Command) : Appended :=
  if isQuit args then .ok (respOK, e)
  else match args with
  | [] => .ok ([], e)
  | [name] =>
    if asCmd4 name = cmdPingCode then .ok (respPONG, e) else slowPath rt ω e p connID args
  | [name, key] =>
    if asCmd3 name = cmdGetCode ∧ isSimpleSession e p then fastGet rt ω e p connID name key
    else if asCmd3 name = cmdDelCode ∧ isSimpleSession e p ∧ e.aof = none ∧ e.repl = none ∧
        e.watchedCount = 0 then fastDel e key
    else if asCmd4 name = cmdPingCode then .ok (appendBulkString key, e)
    else if asCmd4 name = cmdIncrCode ∧ fastWrites e p then fastIncr rt ω e p connID name key 1
    else if asCmd4 name = cmdDecrCode ∧ fastWrites e p then fastIncr rt ω e p connID name key (-1)
    else slowPath rt ω e p connID args
  | [name, key, val] =>
    if asCmd3 name = cmdSetCode ∧ fastWrites e p then fastSet ω e key val
    else slowPath rt ω e p connID args
  | _ => slowPath rt ω e p connID args

/-! ### Connections -/

structure Connection where
  id : Bytes
  session : Nat
  closed : Bool := false
deriving DecidableEq

/-- The server: `conns` are the connections not yet cleared, each under a number of its own. -/
structure Server where
  engine : Engine
  maxClients : Int
  connCount : Int := 0
  conns : Nat → Option Connection := fun _ => none
  accepted : Nat := 0

namespace Server

variable (s : Server)

def connName (n : Int) : Bytes := lit "conn-" ++ formatInt n

/-- One round of `acceptConns`. -/
def accept : Server :=
  if s.maxClients > 0 ∧ s.connCount ≥ s.maxClients then s
  else
    let id := connName (s.connCount + 1)
    let (p, e) := s.engine.getClientSession id
    { s with
      engine := e
      connCount := s.connCount + 1
      conns := Function.update s.conns s.accepted (some ⟨id, p, false⟩)
      accepted := s.accepted + 1 }

/-- The first half of `closeConn`. -/
def close (c : Nat) : Server :=
  match s.conns c with
  | none => s
  | some conn =>
    if conn.closed then s
    else { s with
      connCount := s.connCount - 1
      conns := Function.update s.conns c (some { conn with closed := true }) }

/-- The second half of `closeConn`. -/
def clear (c : Nat) : Server :=
  match s.conns c with
  | none => s
  | some conn =>
    if conn.closed then { s with
      engine := s.engine.clearClientSession conn.id
      conns := Function.update s.conns c none }
    else s

def command (c : Nat) (ω : Env) (args : Command) : Except Stop Server :=
  match s.conns c with
  | none => .ok s
  | some conn =>
    if conn.closed then .ok s
    else if isQuit args then .ok (s.close c)
    else (fastPath rt ω s.engine conn.session conn.id args).map fun (_, e) => { s with engine := e }

end Server

inductive ServerEvent
  | accept
  | close (c : Nat)
  | clear (c : Nat)
  | command (c : Nat) (ω : Env) (args : Command)

def Server.step (s : Server) : ServerEvent → Except Stop Server
  | .accept => .ok s.accept
  | .close c => .ok (s.close c)
  | .clear c => .ok (s.clear c)
  | .command c ω args => s.command rt c ω args

def Server.run : List ServerEvent → Server → Except Stop Server
  | [], s => .ok s
  | ev :: evs, s => match s.step rt ev with
    | .error stop => .error stop
    | .ok s => run evs s

end VortexKV
