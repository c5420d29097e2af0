import VortexKV.KeyedStore
import VortexKV.Stream

/-!
# The keyspace

`internal/engine/keyspace.go`. The shards split one map by a hash of the key; it is kept whole here, with the counter of
keys that the code updates by hand. The operations that change one entry under a shard's lock are those of a program
(`KsOp`, `ksStep`).
-/

namespace VortexKV

open KeyedStore

inductive Datum
  | string (s : Bytes)
  | hash (h : GoMap Bytes)
  | list (l : List Bytes)
  | set (s : Finset Bytes)
  | zset (z : SkipList)
  | stream (s : Stream)
  | vector (v : VectorIndex)
deriving DecidableEq

/-- `EntryType`. -/
def Datum.type : Datum → Bytes
  | string _ => "string"
  | hash _ => "hash"
  | list _ => "list"
  | set _ => "set"
  | zset _ => "zset"
  | stream _ => "stream"
  | vector _ => "vector"

namespace Datum

def string? : Datum → Option Bytes
  | string s => some s
  | _ => none

def hash? : Datum → Option (GoMap Bytes)
  | hash h => some h
  | _ => none

def list? : Datum → Option (List Bytes)
  | list l => some l
  | _ => none

def set? : Datum → Option (Finset Bytes)
  | set s => some s
  | _ => none

def zset? : Datum → Option SkipList
  | zset z => some z
  | _ => none

def stream? : Datum → Option Stream
  | stream s => some s
  | _ => none

def vector? : Datum → Option VectorIndex
  | vector v => some v
  | _ => none

end Datum

structure Entry where
  value : Datum
  expiresAt : Int
  lastAccessedAt : Int
deriving DecidableEq

def Entry.isExpired (e : Entry) (nowMilli : Int) : Bool := e.expiresAt > 0 && e.expiresAt ≤ nowMilli

theorem isExpired_mono {e : Entry} {t now : Int} (hn : t ≤ now) (h : e.isExpired t = true) : e.isExpired now = true := by
  simp only [Entry.isExpired, Bool.and_eq_true, decide_eq_true_eq] at h ⊢
  omega

abbrev Keyspace := Store Bytes Entry

def Keyspace.empty : Keyspace := ⟨∅, 0⟩

/-! ### Operations on one entry -/

inductive KsOp
  | get
  | set (value : Datum) (expiresAt : Int)
  | setNX (value : Datum)
  | incrBy (delta : Int)
  | append (val : Bytes)
  | getOrCreate (new : Datum)
  | expire (ttlMillis : Int)
  | persist
  | put (v : Datum)

def KsOp.Ret : KsOp → Type
  | get => Option (Datum × Int)
  | set .. => Unit
  | setNX _ => Bool
  | incrBy _ => Except Bytes Int
  | append _ => Except Bytes Int
  | getOrCreate _ => Datum
  | expire _ => Bool
  | persist => Bool
  | put _ => Unit

abbrev Ks : Interface := ⟨KsOp, KsOp.Ret⟩

def wrongType : Bytes := "WRONGTYPE Operation against a key holding the wrong kind of value"

def notInteger : Bytes := "ERR value is not an integer or out of range"

/-- The cell with an expired entry removed, and the change of the key count. -/
def dropExpired (now : Int) : Option Entry → Option Entry × Int
  | none => (none, 0)
  | some e => if e.isExpired now then (none, -1) else (some e, 0)

/-- What the keyspace methods do to an entry at clock time `now` (`FastNowMilli`). -/
def ksStep (now : Int) : Semantics Ks Entry
  | .get, c =>
    match dropExpired now c with
    | (none, d) => (none, none, d)
    | (some e, d) => (some (e.value, e.expiresAt), some e, d)
  | .set v exp, c => ((), some ⟨v, exp, now⟩, if c.isSome then 0 else 1)
  | .setNX v, c =>
    match dropExpired now c with
    | (none, d) => (true, some ⟨v, 0, now⟩, d + 1)
    | (some e, d) => (false, some e, d)
  | .incrBy delta, c =>
    match dropExpired now c with
    | (none, d) => (.ok (wrap64 (0 + delta)), some ⟨.string (formatInt (wrap64 (0 + delta))), 0, now⟩, d + 1)
    | (some e, d) =>
      match e.value with
      | .string s => match parseInt64 s with
        | none => (.error notInteger, some e, d)
        | some n => (.ok (wrap64 (n + delta)),
            some { e with value := .string (formatInt (wrap64 (n + delta))), lastAccessedAt := now }, d)
      | _ => (.error wrongType, some e, d)
  | .append val, c =>
    match dropExpired now c with
    | (none, d) => (.ok val.length, some ⟨.string val, 0, now⟩, d + 1)
    | (some e, d) =>
      match e.value with
      | .string s => (.ok (s ++ val).length, some { e with value := .string (s ++ val), lastAccessedAt := now }, d)
      | _ => (.error wrongType, some e, d)
  | .getOrCreate new, c =>
    match dropExpired now c with
    | (none, d) => (new, some ⟨new, 0, now⟩, d + 1)
    | (some e, d) => (e.value, some { e with lastAccessedAt := now }, d)
  | .expire ttl, c =>
    match dropExpired now c with
    | (none, d) => (false, none, d)
    | (some e, d) => (true, some { e with expiresAt := wrap64 (now + ttl) }, d)
  | .persist, c =>
    match dropExpired now c with
    | (none, d) => (false, none, d)
    | (some e, d) => if e.expiresAt = 0 then (false, some e, d) else (true, some { e with expiresAt := 0 }, d)
  | .put v, c => ((), c.map fun e => { e with value := v }, 0)

abbrev KsProg := Prog Ks Bytes

namespace KsProg

def get (k : Bytes) : KsProg (Option (Datum × Int)) := Prog.op (I := Ks) k KsOp.get
def set (k : Bytes) (v : Datum) (expiresAt : Int) : KsProg Unit := Prog.op (I := Ks) k (KsOp.set v expiresAt)
def setNX (k : Bytes) (v : Datum) : KsProg Bool := Prog.op (I := Ks) k (KsOp.setNX v)
def incrBy (k : Bytes) (delta : Int) : KsProg (Except Bytes Int) := Prog.op (I := Ks) k (KsOp.incrBy delta)
def append (k val : Bytes) : KsProg (Except Bytes Int) := Prog.op (I := Ks) k (KsOp.append val)
def getOrCreate (k : Bytes) (new : Datum) : KsProg Datum := Prog.op (I := Ks) k (KsOp.getOrCreate new)
def expire (k : Bytes) (ttlMillis : Int) : KsProg Bool := Prog.op (I := Ks) k (KsOp.expire ttlMillis)
def persist (k : Bytes) : KsProg Bool := Prog.op (I := Ks) k KsOp.persist

/-- The data structure that a previous call returned has changed to `v`, through its pointer. -/
def put (k : Bytes) (v : Datum) : KsProg Unit := Prog.op (I := Ks) k (KsOp.put v)

end KsProg

theorem dropExpired_some {now : Int} {c : Option Entry} {en : Entry} {d : Int}
    (h : dropExpired now c = (some en, d)) : c = some en ∧ d = 0 := by
  cases c with
  | none => simp [dropExpired] at h
  | some e =>
    simp only [dropExpired] at h
    split at h <;> simp_all

theorem run_get (now : Int) (k : Bytes) (ks : Keyspace) :
    (KsProg.get k).run (ksStep now) ks =
      ((dropExpired now (ks.entries.lookup k)).1.map fun e => (e.value, e.expiresAt),
        ks.put k (dropExpired now (ks.entries.lookup k)).1 (dropExpired now (ks.entries.lookup k)).2) := by
  change (((ksStep now KsOp.get (ks.entries.lookup k)).1 : Option (Datum × Int)), _) = _
  simp only [ksStep]
  rcases dropExpired now (ks.entries.lookup k) with ⟨_ | e, d⟩ <;> rfl

theorem run_set (now : Int) (k : Bytes) (v : Datum) (exp : Int) (ks : Keyspace) :
    (KsProg.set k v exp).run (ksStep now) ks =
      ((), ks.put k (some ⟨v, exp, now⟩) (if (ks.entries.lookup k).isSome then 0 else 1)) := rfl

/-- The result of `IncrBy` on a live value, `none` where it is an error. -/
def Datum.integer? (d : Datum) : Option Int := d.string?.bind parseInt64

theorem run_incrBy (now : Int) (k : Bytes) (delta : Int) (ks : Keyspace) :
    (KsProg.incrBy k delta).run (ksStep now) ks =
      match dropExpired now (ks.entries.lookup k) with
      | (none, d) => (.ok (wrap64 (0 + delta)),
          ks.put k (some ⟨.string (formatInt (wrap64 (0 + delta))), 0, now⟩) (d + 1))
      | (some e, d) => match e.value.integer? with
        | none => (.error (if e.value.string?.isSome then notInteger else wrongType), ks.put k (some e) d)
        | some n => (.ok (wrap64 (n + delta)), ks.put k
            (some { e with value := .string (formatInt (wrap64 (n + delta))), lastAccessedAt := now }) d) := by
  change (((ksStep now (.incrBy delta) (ks.entries.lookup k)).1 : Except Bytes Int), _) = _
  simp only [ksStep]
  rcases dropExpired now (ks.entries.lookup k) with ⟨_ | ⟨v, exp, acc⟩, d⟩
  · rfl
  · rcases v with s | _ | _ | _ | _ | _ | _
    · dsimp only [Datum.integer?, Datum.string?, Option.bind_some]
      cases parseInt64 s <;> rfl
    all_goals rfl

/-! ### Operations on the whole keyspace -/

namespace Keyspace

/-- `SetString`: the update in place of a string entry, or a new entry; the counter goes up for a new
entry even when it replaces one of another type. -/
def setString (now : Int) (key val : Bytes) (ks : Keyspace) : Keyspace :=
  match ks.entries.lookup key with
  | some ⟨.string _, _, _⟩ => ks.put key (some ⟨.string val, 0, now⟩) 0
  | _ => ks.put key (some ⟨.string val, 0, now⟩) 1

def delete : List Bytes → Keyspace → Nat × Keyspace
  | [], ks => (0, ks)
  | k :: keys, ks =>
    if k ∈ ks.entries then ((delete keys (ks.put k none (-1))).1 + 1, (delete keys (ks.put k none (-1))).2)
    else delete keys ks

def flushDB : Keyspace := empty

def fnv1a (s : Bytes) : UInt64 :=
  s.foldl (fun hash b => (hash ^^^ b.toUInt64) * 1099511628211) 14695981039346656037

def shardOf (key : Bytes) : Nat := (fnv1a key &&& 255).toNat

variable (shuffle : List Bytes → List Bytes)

/-- The keys of shard `i` in the order a loop over its map takes. -/
def shardKeys (i : Nat) (ks : Keyspace) : List Bytes :=
  shuffle ((sortedKeys ks.entries).filter (shardOf · = i))

/-- Whether `Keys` lists `k` for the pattern. -/
def matchesPattern (pathMatch : Bytes → Bytes → Option Bool) (pattern k : Bytes) : Bool :=
  pattern = lit "*" || pattern = [] || pathMatch pattern k = some true ||
    (42 ∈ pattern && (if pattern.getLast? = some 42 then pattern.dropLast else pattern).isPrefixOf k)

/-- `Keys`, at clock time `now` in milliseconds. -/
def keys (pathMatch : Bytes → Bytes → Option Bool) (now : Int) (pattern : Bytes) (ks : Keyspace) : List Bytes :=
  (List.range 256).flatMap fun i => (shardKeys shuffle i ks).filter fun k =>
    match ks.entries.lookup k with
    | none => false
    | some e => !e.isExpired now && matchesPattern pathMatch pattern k

/-- One pass of the exchange sort of `EvictLRU`: the least recent candidate and the others. -/
def sortPass (age : Bytes → Int) : Bytes → List Bytes → Bytes × List Bytes
  | x, [] => (x, [])
  | x, y :: ys =>
    if age y < age x then ((sortPass age y ys).1, x :: (sortPass age y ys).2)
    else ((sortPass age x ys).1, y :: (sortPass age x ys).2)

def sortByAge (age : Bytes → Int) : Nat → List Bytes → List Bytes
  | 0, _ => []
  | _, [] => []
  | n + 1, x :: xs => (sortPass age x xs).1 :: sortByAge age n (sortPass age x xs).2

/-- The candidates of `EvictLRU`: up to ten keys of each shard, until there are `3 * target`. -/
def candidates (target : Nat) (ks : Keyspace) : List Bytes :=
  (List.range 256).foldl
    (fun cs i => if cs.length < target * 3 then cs ++ (shardKeys shuffle i ks).take 10 else cs) []

/-- `EvictLRU` for a positive target. -/
def evictLRU (target : Nat) (ks : Keyspace) : Nat × Keyspace :=
  let cs := candidates shuffle target ks
  let age k := (ks.entries.lookup k).elim 0 Entry.lastAccessedAt
  delete ((sortByAge age cs.length cs).take target) ks

/-- One round of the reaper's loop over a shard. -/
def reapEntry (now : Int) (ks : Keyspace) (k : Bytes) : Keyspace :=
  match ks.entries.lookup k with
  | none => ks
  | some e => if e.isExpired now then ks.put k none (-1) else ks

/-- What the reaper does in shard `i`: it looks at up to twenty entries. -/
def reapShard (now : Int) (i : Nat) (ks : Keyspace) : Keyspace :=
  ((shardKeys shuffle i ks).take 20).foldl (reapEntry now) ks

/-- One pass of `activeExpirationReaper`, over sixteen shards picked at random. -/
def reaperPass (orders : Fin 16 → List Bytes → List Bytes) (picks : Fin 16 → Fin 256) (now : Int) (ks : Keyspace) :
    Keyspace :=
  (List.finRange 16).foldl (fun ks s => reapShard (orders s) now (picks s) ks) ks

theorem evictLRU_eq (target : Nat) (ks : Keyspace) : ∃ keys, evictLRU shuffle target ks = delete keys ks := ⟨_, rfl⟩

end Keyspace

section

variable {ks : Keyspace} {k : Bytes} {i : Nat}

theorem mem_shardKeys {σ : List Bytes → List Bytes} (hσ : ∀ l, (σ l).Perm l) :
    k ∈ ks.shardKeys σ i ↔ k ∈ ks.entries ∧ Keyspace.shardOf k = i := by
  rw [Keyspace.shardKeys, (hσ _).mem_iff, List.mem_filter, mem_sortedKeys, decide_eq_true_eq]

theorem shardOf_lt (k : Bytes) : Keyspace.shardOf k < 256 := by
  rw [Keyspace.shardOf, UInt64.toNat_and]
  exact Nat.lt_succ_of_le Nat.and_le_right

theorem nodup_shardKeys {σ : Nat → List Bytes → List Bytes} (hσ : ∀ i l, (σ i l).Perm l) :
    ((List.range 256).flatMap fun i => ks.shardKeys (σ i) i).Nodup := by
  rw [List.nodup_flatMap]
  refine ⟨fun i _ => ?_, ?_⟩
  · exact (hσ i _).nodup_iff.2 ((nodup_sortedList _).filter _)
  · refine List.nodup_range.imp fun {i j} hij k hi hj => hij ?_
    exact ((mem_shardKeys (hσ i)).1 hi).2.symm.trans ((mem_shardKeys (hσ j)).1 hj).2

end

end VortexKV
