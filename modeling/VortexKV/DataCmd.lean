import VortexKV.StreamCommands

/-!
# The vector commands and the table of data commands

`DataCmd.action` sends each command name of `Engine.dispatch` that concerns the keyspace to what it does.
-/

namespace VortexKV

open KeyedStore

/-! ### Vectors -/

section Vectors

variable (rt : Runtime) (r : Readings)

/-- The floats of a vector, or the position of the first argument that is none, counted from `i`. -/
def parseVector : Nat → List Bytes → Except Nat (List UInt32)
  | _, [] => .ok []
  | i, a :: rest => match rt.parseFloat32 a with
    | none => .error i
    | some x => (parseVector (i + 1) rest).map (x :: ·)

def dimensionMismatch : Bytes := "ERR vector dimension mismatch"

/-- The part of `handleVAdd` after the index is found or created. -/
def vaddTo (key id : Bytes) (vec : List UInt32) (v : VectorIndex) : KsProg Outcome :=
  match v.add id vec with
  | none => pure (fails dimensionMismatch)
  | some v => do
    KsProg.put key (.vector v)
    pure (wrote ok)

def handleVAdd : List Bytes → KsProg Outcome
  | key :: id :: f :: fs => match parseVector rt 1 (f :: fs) with
    | .error i => pure (fails (lit "ERR invalid float in vector at position " ++ formatUint i))
    | .ok vec => do
      match ← KsProg.get key with
      | none => do
        KsProg.set key (.vector (.new vec.length)) 0
        vaddTo key id vec (.new vec.length)
      | some (d, _) => match d.vector? with
        | none => pure (fails wrongType)
        | some v => vaddTo key id vec v
  | _ => pure (fails "ERR wrong number of arguments for 'vadd' command: VADD key id f1 f2 ...")

def handleVDel : List Bytes → KsProg Outcome
  | key :: id :: ids => withValue Datum.vector? key (reply (.integer 0)) fun v => do
      KsProg.put key (.vector (v.delete (id :: ids)).2)
      pure (wrote (.integer (v.delete (id :: ids)).1))
  | _ => pure (wrongArgs "vdel")

def handleVInfo : List Bytes → KsProg Outcome
  | [] => pure (wrongArgs "vinfo")
  | key :: _ => withValue Datum.vector? key (fails "ERR no such vector index or key is not vector") fun v =>
      pure (reply (bulks (((lit "dimension", formatUint v.dimension) ::
        (lit "count", formatUint (mapLen v.vectors)) :: r.vectorInfo v).flatMap fun p => [p.1, p.2])))

/-- The query of `VSEARCH` and the `EF` count at its end (0 without one). -/
def searchQuery (args : List Bytes) : List Bytes × Int :=
  match args.reverse with
  | n :: a :: rest =>
    if toUpper rt.unicode a = lit "EF" then
      match parseInt64 n with
      | some ef => if ef > 0 then (rest.reverse, ef) else (args, 0)
      | none => (args, 0)
    else (args, 0)
  | _ => (args, 0)

def handleVSearch : List Bytes → KsProg Outcome
  | key :: k :: metric :: f :: fs => match parseInt64 k with
    | none => pure (fails "ERR invalid top_k")
    | some topK =>
      if topK ≤ 0 then pure (fails "ERR invalid top_k")
      else match parseVector rt 1 (searchQuery rt (f :: fs)).1 with
        | .error i => pure (fails (lit "ERR invalid float in query vector at position " ++ formatUint i))
        | .ok query => withValue Datum.vector? key (reply (.ofArray [])) fun v =>
            if 0 < v.dimension ∧ query.length ≠ v.dimension then pure (fails dimensionMismatch)
            else pure (reply (.ofArray ((r.vectorSearch v query topK (toLower rt.unicode metric)
              (searchQuery rt (f :: fs)).2).map fun p => bulks [p.1, p.2])))
  | _ => pure (fails
      "ERR wrong number of arguments for 'vsearch': VSEARCH key top_k metric f1 f2 ... [EF count]")

def handleVSim : List Bytes → KsProg Outcome
  | key :: id1 :: id2 :: opts => withValue Datum.vector? key (reply .nil) fun v =>
      match v.vectors.lookup id1, v.vectors.lookup id2 with
      | some v1, some v2 =>
        let metric := (opts.head?.map (toLower rt.unicode)).getD "cosine"
        pure (reply (.bulkString
          (rt.vectorScore (metric = lit "l2" || metric = lit "euclidean") v1 v2)))
      | _, _ => pure (fails "ERR one or both vectors not found")
  | _ => pure (fails "ERR wrong number of arguments for 'vsim': VSIM key id1 id2 [metric]")

end Vectors

/-! ### The table of data commands -/

inductive DataCmd
  | set | get | mset | mget | del | exists | type | incr | decr | incrby | decrby | append | strlen
  | setnx | setex | psetex | expire | pexpire | ttl | pttl | persist | keys | dbsize | flushdb | flushall
  | hset | hget | hmset | hmget | hdel | hexists | hlen | hkeys | hvals | hgetall | hincrby
  | lpush | rpush | lpop | rpop | lrange | llen | lindex | sadd | srem | smembers | sismember | scard
  | zadd | zscore | zrank | zrange | zrevrange | zrem | zcard
  | xadd | xrange | xrevrange | xlen | xdel | xtrim | xread | xgroup | xreadgroup | xack | xpending | xinfo
  | vadd | vdel | vsearch | vsim | vinfo
deriving DecidableEq, Repr

/-- What a data command does: a program over the entries of its keys, or one of the operations on the
whole keyspace. -/
inductive Action
  | prog (p : KsProg Outcome)
  | delete (keys : List Bytes)
  | flush
  | inspect (f : Keyspace → Value)

def Action.run (now : Int) : Action → Keyspace → Outcome × Keyspace
  | prog p, ks => p.run (ksStep now) ks
  | delete keys, ks => (wrote (.integer (ks.delete keys).1), (ks.delete keys).2)
  | flush, _ => (wrote ok, Keyspace.flushDB)
  | inspect f, ks => (reply (f ks), ks)

def DataCmd.action (rt : Runtime) (r : Readings) (args : List Bytes) : DataCmd → Action
  | set => .prog (handleSet rt r args)
  | get => .prog (cmdGet args)
  | mset => .prog (cmdMSet args)
  | mget => .prog (cmdMGet args)
  | del => if args = [] then .prog (pure (wrongArgs "del")) else .delete args
  | «exists» => .prog (cmdExists args)
  | type => .prog (cmdType args)
  | incr => .prog (handleIncrBy 1 args)
  | decr => .prog (handleIncrBy (-1) args)
  | incrby => .prog (cmdIncrByArg "incrby" 1 args)
  | decrby => .prog (cmdIncrByArg "decrby" (-1) args)
  | append => .prog (cmdAppend args)
  | strlen => .prog (cmdStrlen args)
  | setnx => .prog (cmdSetNX args)
  | setex => .prog (cmdSetExpiring r "setex" 1000 args)
  | psetex => .prog (cmdSetExpiring r "psetex" 1 args)
  | expire => .prog (cmdExpire "expire" 1000 args)
  | pexpire => .prog (cmdExpire "pexpire" 1 args)
  | ttl => .prog (cmdTTL r "ttl" 1000 args)
  | pttl => .prog (cmdTTL r "pttl" 1 args)
  | persist => .prog (cmdPersist args)
  | keys => .inspect fun ks =>
      bulks (ks.keys r.shuffle rt.pathMatch r.nowMilli (args.headD "*"))
  | dbsize => .inspect fun ks => .integer ks.count
  | flushdb => .flush
  | flushall => .flush
  | hset => .prog (handleHSet args)
  | hget => .prog (cmdHGet args)
  | hmset => .prog (handleHMSet args)
  | hmget => .prog (cmdHMGet args)
  | hdel => .prog (cmdHDel args)
  | hexists => .prog (cmdHExists args)
  | hlen => .prog (cmdHLen args)
  | hkeys => .prog (cmdHKeys r args)
  | hvals => .prog (cmdHVals r args)
  | hgetall => .prog (cmdHGetAll r args)
  | hincrby => .prog (cmdHIncrBy args)
  | lpush => .prog (cmdPush "lpush" GoList.lPush args)
  | rpush => .prog (cmdPush "rpush" GoList.rPush args)
  | lpop => .prog (cmdPop "lpop" GoList.lPop args)
  | rpop => .prog (cmdPop "rpop" GoList.rPop args)
  | lrange => .prog (cmdLRange args)
  | llen => .prog (cmdLLen args)
  | lindex => .prog (cmdLIndex args)
  | sadd => .prog (cmdSAdd args)
  | srem => .prog (cmdSRem args)
  | smembers => .prog (cmdSMembers r args)
  | sismember => .prog (cmdSIsMember args)
  | scard => .prog (cmdSCard args)
  | zadd => .prog (handleZAdd rt r args)
  | zscore => .prog (cmdZScore rt args)
  | zrank => .prog (cmdZRank r args)
  | zrange => .prog (handleZRange rt false args)
  | zrevrange => .prog (handleZRange rt true args)
  | zrem => .prog (cmdZRem r args)
  | zcard => .prog (cmdZCard args)
  | xadd => .prog (handleXAdd rt r args)
  | xrange => .prog (handleXRange rt "xrange" Stream.range args)
  | xrevrange => .prog (handleXRange rt "xrevrange" Stream.revRange args)
  | xlen => .prog (cmdXLen args)
  | xdel => .prog (handleXDel args)
  | xtrim => .prog (handleXTrim rt args)
  | xread => .prog (handleXRead rt args)
  | xgroup => .prog (handleXGroup rt args)
  | xreadgroup => .prog (handleXReadGroup rt r args)
  | xack => .prog (handleXAck args)
  | xpending => .prog (handleXPending rt r args)
  | xinfo => .prog (handleXInfo rt r args)
  | vadd => .prog (handleVAdd rt args)
  | vdel => .prog (handleVDel args)
  | vsearch => .prog (handleVSearch rt r args)
  | vsim => .prog (handleVSim rt args)
  | vinfo => .prog (handleVInfo r args)

end VortexKV
