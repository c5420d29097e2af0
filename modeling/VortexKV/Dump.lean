import VortexKV.Executor

/-!
# The full resynchronization

`DumpAllCommands`, which writes a keyspace as commands, and the execution of a sequence of commands for one of
the server's own connections. Every loop over a Go map has readings of its own: `ω.sub i` belongs to shard `i`,
`(ω.sub i).sub j` to the `j`-th key of the shard, and the readings below that to the entries of a stream.
-/

namespace VortexKV

section

variable (rt : Runtime)

def pairArgs (shuffle : List Bytes → List Bytes) (m : GoMap Bytes) : List Bytes :=
  (shuffle (sortedKeys m)).flatMap fun f => [f, (m.lookup f).getD []]

def scoreArgs (items : List ScoredMember) : List Bytes := items.flatMap fun it => [rt.formatFloat it.score, it.member]

def dumpArgs (name k : Bytes) (args : List Bytes) : List Command := if args = [] then [] else [name :: k :: args]

/-- The commands of `DumpAllCommands` for the value under a key. -/
def Datum.dump (ω : Env) (k : Bytes) : Datum → List Command
  | string s => [["SET", k, s]]
  | hash h => dumpArgs "HSET" k (pairArgs (ω []).shuffle h)
  | list l => dumpArgs "RPUSH" k (GoList.range 0 (-1) l)
  | set s => dumpArgs "SADD" k ((ω []).shuffle (sortedList s))
  | zset z => dumpArgs "ZADD" k (scoreArgs rt (z.range 0 (-1) false))
  | vector v => ((ω []).shuffle (sortedKeys v.vectors)).map fun id =>
      "VADD" :: k :: id :: ((v.vectors.lookup id).getD []).map rt.formatFloat32
  | stream s => (s.range "-" "+" 0).zipIdx.map fun (e, i) => "XADD" :: k :: e.id :: pairArgs (ω.sub i []).shuffle e.fields

/-- The commands for an entry, at clock time `now`. -/
def dumpEntry (ω : Env) (now : Int) (k : Bytes) (e : Entry) : List Command :=
  if e.isExpired now then []
  else e.value.dump rt ω k ++ if e.expiresAt > 0 then [[lit "PEXPIREAT", k, formatInt e.expiresAt]] else []

/-- The part of `DumpAllCommands` under the lock of shard `i`. -/
def dumpShard (ω : Env) (now : Int) (ks : Keyspace) (i : Nat) : List Command :=
  (ks.shardKeys (ω.sub i []).shuffle i).zipIdx.flatMap fun (k, j) =>
    (ks.entries.lookup k).elim [] (dumpEntry rt ((ω.sub i).sub j) now k)

def dumpAllCommands (ω : Env) (ks : Keyspace) : List Command :=
  (List.range 256).flatMap (dumpShard rt ω (ω []).nowMilli ks)

/-- Commands executed one after the other for a connection ID; command `i` has the readings `ω.sub i`. -/
def applyCommands (own : Bytes) (ω : Env) : Nat → List Command → Engine → Except Stop Engine
  | _, [], e => .ok e
  | i, c :: cs, e =>
    match executeCommand rt (luaScripts rt) (ω.sub i) e own c with
    | .error s => .error s
    | .ok (_, e) => applyCommands own ω (i + 1) cs e

end

end VortexKV
