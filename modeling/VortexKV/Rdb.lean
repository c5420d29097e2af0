import VortexKV.Engine

/-!
# Snapshots

What `SAVE` writes (`dumpAllRDBEntries`) and what `NewEngine` makes of it (`restoreRDBEntry`). The file is
its entries as they are read back: the byte format keeps keys, values and positive expiry times.
-/

namespace VortexKV

open KeyedStore

def Datum.toRDB (r : Readings) : Datum → RDBValue
  | string s => .string s
  | hash h => .hash h
  | list l => .list l
  | set s => .set (r.shuffle (sortedList s))
  | zset z => .zset (z.range 0 (-1) false)
  | stream s => .stream ((s.range "-" "+" 0).map fun e => (e.id, e.fields))
  | vector v => .vector v.dimension v.vectors

/-- `dumpAllRDBEntries`, at clock time `r`. -/
def dumpAllRDBEntries (r : Readings) (ks : Keyspace) : List RDBEntry :=
  (List.range 256).flatMap fun i => (ks.shardKeys r.shuffle i).filterMap fun k =>
    match ks.entries.lookup k with
    | none => none
    | some e =>
      if e.isExpired r.nowMilli then none
      else some ⟨k, e.value.toRDB r, e.expiresAt⟩

/-- The entry as it is read back from the file: an expiry time that is not positive is none. -/
def RDBEntry.stored (en : RDBEntry) : RDBEntry := { en with expiresAt := if en.expiresAt > 0 then en.expiresAt else 0 }

variable (rt : Runtime) (r : Readings)

/-- The value `restoreRDBEntry` rebuilds. A stream's field order is that of a loop over the field map. -/
def RDBValue.toDatum : RDBValue → Datum
  | string s => .string s
  | list items => .list (items.foldl (fun l x => GoList.rPush [x] l) [])
  | set members => .set (members.foldl (fun s m => (GoSet.add [m] s).2) ∅)
  | hash fields => .hash fields
  | zset items => .zset (items.foldl (fun z it => z.insert r.near it.score it.member) .new)
  | stream items => .stream (items.foldl (fun s it =>
      match s.add rt.quote r.now it.1 it.2 (r.shuffle (sortedKeys it.2)) with
      | .ok (_, s) => s
      | .error _ => s) .new)
  | vector dim vectors => .vector ((r.shuffle (sortedKeys vectors)).foldl (fun v id =>
      ((vectors.lookup id).bind fun vec => v.add id vec).getD v) (.new dim))

def restoreRDBEntry (ks : Keyspace) (en : RDBEntry) : Keyspace :=
  ((KsProg.set en.key (en.value.toDatum rt r) en.expiresAt).run (ksStep r.fastNow) ks).2

/-- `LoadRDB` into a keyspace: entries that expired meanwhile are left out. -/
def loadRDB (file : List RDBEntry) (ks : Keyspace) : Keyspace :=
  (file.filter fun en => !(en.expiresAt > 0 && en.expiresAt ≤ r.nowMilli)).foldl (restoreRDBEntry rt r) ks

end VortexKV
