import VortexKV.Env

/-!
# The data commands

One definition per branch of `Engine.dispatch` that reads or writes the keyspace, and its helper where
the code has one (`handleSet`, `handleZAdd`, ...); the stream commands are in `StreamCommands`. A
command gets its arguments without the name and is a program over the entries of the keys it names; its
outcome is the reply and the `isWrite` flag.
-/

namespace VortexKV

open KeyedStore

/-- A reply with the `isWrite` flag, or no return. -/
abbrev Outcome := Except Stop (Value × Bool)

def reply (v : Value) : Outcome := .ok (v, false)

def wrote (v : Value) : Outcome := .ok (v, true)

def fails (msg : Bytes) : Outcome := reply (.error msg)

def wrongArgs (cmd : Bytes) : Outcome :=
  fails (lit "ERR wrong number of arguments for '" ++ cmd ++ lit "' command")

def ok : Value := .simpleString "OK"

def bulks (l : List Bytes) : Value := .ofArray (l.map .bulkString)

/-- `Get`, then a value of one type; `dflt` when the key is missing or holds another type. -/
def withValue {α : Type} (as : Datum → Option α) (key : Bytes) (dflt : Outcome) (f : α → KsProg Outcome) :
    KsProg Outcome := do
  match ← KsProg.get key with
  | none => pure dflt
  | some (d, _) => match as d with
    | none => pure dflt
    | some a => f a

/-- `GetOrCreate`, then a value of one type. -/
def withNewValue {α : Type} (as : Datum → Option α) (key : Bytes) (new : Datum) (f : α → KsProg Outcome) :
    KsProg Outcome := do
  match as (← KsProg.getOrCreate key new) with
  | none => pure (fails wrongType)
  | some a => f a

/-! ### Keys and strings -/

section Strings

variable (rt : Runtime) (r : Readings)

/-- The option loop of `handleSet`: the time to live in milliseconds, `NX` and `XX`. -/
def setOptions : List Bytes → Int → Bool → Bool → Except Bytes (Int × Bool × Bool)
  | [], ttl, nx, xx => .ok (ttl, nx, xx)
  | a :: rest, ttl, nx, xx =>
    let opt := toUpper rt.unicode a
    if opt = lit "EX" ∨ opt = lit "PX" then
      match rest with
      | [] => .error "ERR syntax error"
      | v :: rest => match parseInt64 v with
        | none => .error notInteger
        | some n =>
          if n ≤ 0 then .error notInteger
          else setOptions rest (if opt = lit "EX" then wrap64 (n * 1000) else n) nx xx
    else if opt = lit "NX" then setOptions rest ttl true xx
    else if opt = lit "XX" then setOptions rest ttl nx true
    else setOptions rest ttl nx xx

def handleSet : List Bytes → KsProg Outcome
  | key :: val :: opts =>
    match setOptions rt opts 0 false false with
    | .error e => pure (fails e)
    | .ok (ttl, nx, xx) => do
      let expiresAt := if ttl > 0 then wrap64 (r.fastNow + ttl) else 0
      let store : KsProg Outcome := do
        KsProg.set key (.string val) expiresAt
        pure (wrote ok)
      if nx || xx then
        let found := (← KsProg.get key).isSome
        if (nx && found) || (xx && !found) then pure (reply .nil) else store
      else store
  | _ => pure (wrongArgs "set")

def cmdGet : List Bytes → KsProg Outcome
  | [] => pure (wrongArgs "get")
  | key :: _ => do
    match ← KsProg.get key with
    | none => pure (reply .nil)
    | some (d, _) => match d.string? with
      | none => pure (fails wrongType)
      | some s => pure (reply (.bulkString s))

def setPairs : List Bytes → KsProg Outcome
  | k :: v :: rest => do
    KsProg.set k (.string v) 0
    setPairs rest
  | _ => pure (wrote ok)

def cmdMSet (args : List Bytes) : KsProg Outcome :=
  if args.length < 2 ∨ args.length % 2 ≠ 0 then pure (wrongArgs "mset") else setPairs args

def getStrings : List Bytes → KsProg (List Value)
  | [] => pure []
  | k :: ks => do
    let v := match ← KsProg.get k with
      | some (.string s, _) => .bulkString s
      | _ => .nil
    return v :: (← getStrings ks)

def cmdMGet (args : List Bytes) : KsProg Outcome :=
  if args = [] then pure (wrongArgs "mget")
  else do return reply (.ofArray (← getStrings args))

def countExisting : List Bytes → KsProg Nat
  | [] => pure 0
  | k :: ks => do
    let found := (← KsProg.get k).isSome
    let n ← countExisting ks
    return if found then n + 1 else n

def cmdExists (args : List Bytes) : KsProg Outcome :=
  if args = [] then pure (wrongArgs "exists")
  else do return reply (.integer (← countExisting args))

def cmdType : List Bytes → KsProg Outcome
  | [] => pure (wrongArgs "type")
  | key :: _ => do
    match ← KsProg.get key with
    | none => pure (reply (.simpleString "none"))
    | some (d, _) => pure (reply (.simpleString d.type))

def handleIncrBy (delta : Int) : List Bytes → KsProg Outcome
  | [] => pure (fails "ERR wrong number of arguments for incr/decr command")
  | key :: _ => do
    match ← KsProg.incrBy key delta with
    | .error e => pure (fails e)
    | .ok n => pure (wrote (.integer n))

/-- `INCRBY` and `DECRBY`: the amount is the second argument, with a sign. -/
def cmdIncrByArg (name : Bytes) (sign : Int) : List Bytes → KsProg Outcome
  | key :: n :: _ => match parseInt64 n with
    | none => pure (fails notInteger)
    | some n => handleIncrBy (wrap64 (sign * n)) [key]
  | _ => pure (wrongArgs name)

def cmdAppend : List Bytes → KsProg Outcome
  | key :: val :: _ => do
    match ← KsProg.append key val with
    | .error e => pure (fails e)
    | .ok n => pure (wrote (.integer n))
  | _ => pure (wrongArgs "append")

def cmdStrlen : List Bytes → KsProg Outcome
  | [] => pure (wrongArgs "strlen")
  | key :: _ => do
    match ← KsProg.get key with
    | none => pure (reply (.integer 0))
    | some (d, _) => match d.string? with
      | none => pure (fails wrongType)
      | some s => pure (reply (.integer s.length))

def cmdSetNX : List Bytes → KsProg Outcome
  | key :: val :: _ => do
    if ← KsProg.setNX key (.string val) then pure (wrote (.integer 1)) else pure (reply (.integer 0))
  | _ => pure (wrongArgs "setnx")

/-- `SETEX` and `PSETEX`: `unit` is the number of milliseconds the argument counts. -/
def cmdSetExpiring (name : Bytes) (unit : Int) : List Bytes → KsProg Outcome
  | key :: n :: val :: _ => match parseInt64 n with
    | none => pure (fails (lit "ERR invalid expire time in '" ++ name ++ lit "' command"))
    | some n =>
      if n ≤ 0 then pure (fails (lit "ERR invalid expire time in '" ++ name ++ lit "' command"))
      else do
        KsProg.set key (.string val) (wrap64 (r.nowMilli + wrap64 (n * unit)))
        pure (wrote ok)
  | _ => pure (wrongArgs name)

def cmdExpire (name : Bytes) (unit : Int) : List Bytes → KsProg Outcome
  | key :: n :: _ => match parseInt64 n with
    | none => pure (fails notInteger)
    | some n => do
      if ← KsProg.expire key (wrap64 (n * unit)) then pure (wrote (.integer 1))
      else pure (reply (.integer 0))
  | _ => pure (wrongArgs name)

/-- `TTL` and `PTTL`: what is left, in units of `unit` milliseconds. -/
def cmdTTL (name : Bytes) (unit : Int) : List Bytes → KsProg Outcome
  | [] => pure (wrongArgs name)
  | key :: _ => do
    match ← KsProg.get key with
    | none => pure (reply (.integer (-2)))
    | some (_, expiresAt) =>
      let remaining := wrap64 (expiresAt - r.fastNow)
      pure (reply (.integer (if expiresAt = 0 then -1 else if remaining ≤ 0 then -2 else remaining / unit)))

def cmdPersist : List Bytes → KsProg Outcome
  | [] => pure (wrongArgs "persist")
  | key :: _ => do
    if ← KsProg.persist key then pure (wrote (.integer 1)) else pure (reply (.integer 0))

end Strings

/-! ### Hashes -/

section Hashes

variable (r : Readings)

def handleHSet : List Bytes → KsProg Outcome
  | key :: pairs =>
    if pairs.length < 2 ∨ pairs.length % 2 ≠ 0 then pure (wrongArgs "hset")
    else withNewValue Datum.hash? key (.hash ∅) fun h => do
      KsProg.put key (.hash (Hash.setPairs pairs h).2)
      pure (wrote (.integer (Hash.setPairs pairs h).1))
  | [] => pure (wrongArgs "hset")

def handleHMSet : List Bytes → KsProg Outcome
  | key :: pairs =>
    if pairs.length < 2 ∨ pairs.length % 2 ≠ 0 then pure (wrongArgs "hmset")
    else withNewValue Datum.hash? key (.hash ∅) fun h => do
      KsProg.put key (.hash (Hash.mset (Hash.ofPairs pairs ∅) h))
      pure (wrote ok)
  | [] => pure (wrongArgs "hmset")

def bulkOrNil : Option Bytes → Value
  | none => .nil
  | some s => .bulkString s

def cmdHGet : List Bytes → KsProg Outcome
  | key :: field :: _ => do
    match ← KsProg.get key with
    | none => pure (reply .nil)
    | some (d, _) => match d.hash? with
      | none => pure (fails wrongType)
      | some h => pure (reply (bulkOrNil (h.lookup field)))
  | _ => pure (wrongArgs "hget")

def cmdHMGet : List Bytes → KsProg Outcome
  | key :: f :: fs =>
    withValue Datum.hash? key (reply (.ofArray ((f :: fs).map fun _ => .nil))) fun h =>
      pure (reply (.ofArray ((f :: fs).map fun f => bulkOrNil (h.lookup f))))
  | _ => pure (wrongArgs "hmget")

def cmdHDel : List Bytes → KsProg Outcome
  | key :: f :: fs => withValue Datum.hash? key (reply (.integer 0)) fun h => do
      KsProg.put key (.hash (Hash.del (f :: fs) h).2)
      pure (wrote (.integer (Hash.del (f :: fs) h).1))
  | _ => pure (wrongArgs "hdel")

def cmdHExists : List Bytes → KsProg Outcome
  | key :: field :: _ => withValue Datum.hash? key (reply (.integer 0)) fun h =>
      pure (reply (.integer (if field ∈ h then 1 else 0)))
  | _ => pure (wrongArgs "hexists")

/-- The reads of a whole hash: `HLEN`, `HKEYS`, `HVALS`, `HGETALL`. -/
def readHash (name : Bytes) (dflt : Value) (f : GoMap Bytes → Value) : List Bytes → KsProg Outcome
  | [] => pure (wrongArgs name)
  | key :: _ => withValue Datum.hash? key (reply dflt) fun h => pure (reply (f h))

def cmdHLen : List Bytes → KsProg Outcome := readHash "hlen" (.integer 0) fun h => .integer (mapLen h)

def cmdHKeys : List Bytes → KsProg Outcome :=
  readHash "hkeys" (.ofArray []) fun h => bulks (r.shuffle (sortedKeys h))

def cmdHVals : List Bytes → KsProg Outcome :=
  readHash "hvals" (.ofArray []) fun h => bulks ((r.shuffle (sortedKeys h)).filterMap h.lookup)

def cmdHGetAll : List Bytes → KsProg Outcome :=
  readHash "hgetall" (.ofArray []) fun h =>
    bulks ((r.shuffle (sortedKeys h)).flatMap fun f => [f, (h.lookup f).getD []])

def cmdHIncrBy : List Bytes → KsProg Outcome
  | key :: field :: n :: _ => match parseInt64 n with
    | none => pure (fails notInteger)
    | some delta => withNewValue Datum.hash? key (.hash ∅) fun h =>
        match Hash.incrBy field delta h with
        | none => pure (fails "ERR hash value is not an integer")
        | some (n, h) => do
          KsProg.put key (.hash h)
          pure (wrote (.integer n))
  | _ => pure (wrongArgs "hincrby")

end Hashes

/-! ### Lists and sets -/

section ListsAndSets

variable (r : Readings)

def cmdPush (name : Bytes) (push : List Bytes → List Bytes → List Bytes) : List Bytes → KsProg Outcome
  | key :: v :: vs => withNewValue Datum.list? key (.list []) fun l => do
      KsProg.put key (.list (push (v :: vs) l))
      pure (wrote (.integer (push (v :: vs) l).length))
  | _ => pure (wrongArgs name)

def cmdPop (name : Bytes) (pop : Int → List Bytes → Except Stop (Option (List Bytes) × List Bytes)) :
    List Bytes → KsProg Outcome
  | [] => pure (wrongArgs name)
  | key :: opts => withValue Datum.list? key (reply .nil) fun l =>
      match (match opts with
        | [] => some 1
        | n :: _ => parseInt64 n) with
      | none => pure (fails notInteger)
      | some count => match pop count l with
        | .error e => pure (.error e)
        | .ok (none, _) => pure (reply .nil)
        | .ok (some items, rest) => do
          KsProg.put key (.list rest)
          pure (wrote (if opts = [] then bulkOrNil items.head? else bulks items))

def cmdLRange : List Bytes → KsProg Outcome
  | key :: a :: b :: _ => withValue Datum.list? key (reply (.ofArray [])) fun l =>
      match parseInt64 a, parseInt64 b with
      | some start, some stop => pure (reply (bulks (GoList.range start stop l)))
      | _, _ => pure (fails notInteger)
  | _ => pure (wrongArgs "lrange")

def cmdLLen : List Bytes → KsProg Outcome
  | [] => pure (wrongArgs "llen")
  | key :: _ => withValue Datum.list? key (reply (.integer 0)) fun l => pure (reply (.integer l.length))

def cmdLIndex : List Bytes → KsProg Outcome
  | key :: i :: _ => withValue Datum.list? key (reply .nil) fun l =>
      match parseInt64 i with
      | none => pure (fails notInteger)
      | some i => pure (reply (bulkOrNil (GoList.index i l)))
  | _ => pure (wrongArgs "lindex")

def cmdSAdd : List Bytes → KsProg Outcome
  | key :: m :: ms => withNewValue Datum.set? key (.set ∅) fun s => do
      KsProg.put key (.set (GoSet.add (m :: ms) s).2)
      pure (wrote (.integer (GoSet.add (m :: ms) s).1))
  | _ => pure (wrongArgs "sadd")

def cmdSRem : List Bytes → KsProg Outcome
  | key :: m :: ms => withValue Datum.set? key (reply (.integer 0)) fun s => do
      KsProg.put key (.set (GoSet.rem (m :: ms) s).2)
      pure (wrote (.integer (GoSet.rem (m :: ms) s).1))
  | _ => pure (wrongArgs "srem")

def cmdSMembers : List Bytes → KsProg Outcome
  | [] => pure (wrongArgs "smembers")
  | key :: _ => withValue Datum.set? key (reply (.ofArray [])) fun s =>
      pure (reply (bulks (r.shuffle (sortedList s))))

def cmdSIsMember : List Bytes → KsProg Outcome
  | key :: m :: _ => withValue Datum.set? key (reply (.integer 0)) fun s =>
      pure (reply (.integer (if m ∈ s then 1 else 0)))
  | _ => pure (wrongArgs "sismember")

def cmdSCard : List Bytes → KsProg Outcome
  | [] => pure (wrongArgs "scard")
  | key :: _ => withValue Datum.set? key (reply (.integer 0)) fun s => pure (reply (.integer s.card))

end ListsAndSets

/-! ### Sorted sets -/

section SortedSets

variable (rt : Runtime) (r : Readings)

/-- The loop of `handleZAdd`: whether it ran to its end, how many members are new, and the set, which
keeps what was inserted before a score that is no number. -/
def zaddLoop : List Bytes → SkipList → Bool × Nat × SkipList
  | score :: member :: rest, z =>
    match rt.parseFloat score with
    | none => (false, 0, z)
    | some x =>
      let (done, n, z') := zaddLoop rest (z.insert r.near x member)
      (done, if member ∈ z.dict then n else n + 1, z')
  | _, z => (true, 0, z)

def handleZAdd : List Bytes → KsProg Outcome
  | key :: pairs =>
    if pairs.length < 2 ∨ pairs.length % 2 ≠ 0 then pure (wrongArgs "zadd")
    else withNewValue Datum.zset? key (.zset .new) fun z => do
      let (done, n, z) := zaddLoop rt r pairs z
      KsProg.put key (.zset z)
      pure (if done then wrote (.integer n) else fails "ERR value is not a valid float")
  | [] => pure (wrongArgs "zadd")

def cmdZScore : List Bytes → KsProg Outcome
  | key :: m :: _ => withValue Datum.zset? key (reply .nil) fun z =>
      pure (reply (bulkOrNil ((z.getScore m).map rt.formatFloat)))
  | _ => pure (wrongArgs "zscore")

def cmdZRank : List Bytes → KsProg Outcome
  | key :: m :: _ => withValue Datum.zset? key (reply .nil) fun z =>
      let rank := z.getRank r.rankEarly r.rankNear m
      pure (reply (if rank < 0 then .nil else .integer rank))
  | _ => pure (wrongArgs "zrank")

def handleZRange (reverse : Bool) : List Bytes → KsProg Outcome
  | key :: a :: b :: opts => withValue Datum.zset? key (reply (.ofArray [])) fun z =>
      match parseInt64 a, parseInt64 b with
      | some start, some stop =>
        let withScores := opts.head?.map (toUpper rt.unicode) = some (lit "WITHSCORES")
        pure (reply (bulks ((z.range start stop reverse).flatMap fun n =>
          if withScores then [n.member, rt.formatFloat n.score] else [n.member])))
      | _, _ => pure (fails notInteger)
  | _ => pure (wrongArgs "zrange")

def cmdZRem : List Bytes → KsProg Outcome
  | key :: m :: ms => withValue Datum.zset? key (reply (.integer 0)) fun z => do
      KsProg.put key (.zset (z.deleteAll r.near (m :: ms)).2)
      pure (wrote (.integer (z.deleteAll r.near (m :: ms)).1))
  | _ => pure (wrongArgs "zrem")

def cmdZCard : List Bytes → KsProg Outcome
  | [] => pure (wrongArgs "zcard")
  | key :: _ => withValue Datum.zset? key (reply (.integer 0)) fun z => pure (reply (.integer z.nodes.length))

end SortedSets

end VortexKV
