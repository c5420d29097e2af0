import VortexKV.DataCmd
import VortexKV.Threads

/-!
# Containers behind pointers

`Keyspace.Get`, `Set` and `GetOrCreate` hand out the entry and not a copy, so here an entry (`Slot`) points to its container
in a heap. The commands that create a container on a missing key are threads (`Creation.code`): each keyspace operation
and each locked operation on a container is one action.
-/

namespace VortexKV

open KeyedStore Threads

structure Slot where
  ref : Nat
  expiresAt : Int
  lastAccessedAt : Int
deriving DecidableEq

def Slot.isExpired (sl : Slot) (nowMilli : Int) : Bool := sl.expiresAt > 0 && sl.expiresAt ≤ nowMilli

structure Heap where
  slots : Store Bytes Slot
  objects : List Datum

namespace Heap

def empty : Heap := ⟨⟨∅, 0⟩, []⟩

/-- The entry under the key, with an expired one removed, and the change of the key count. -/
def live (now : Int) (k : Bytes) (h : Heap) : Option Slot × Int :=
  match h.slots.entries.lookup k with
  | none => (none, 0)
  | some sl => if sl.isExpired now then (none, -1) else (some sl, 0)

def get (k : Bytes) (now : Int) (h : Heap) : Option (Nat × Bytes) × Heap :=
  ((h.live now k).1.bind fun sl => h.objects[sl.ref]?.map fun d => (sl.ref, d.type),
    { h with slots := h.slots.put k (h.live now k).1 (h.live now k).2 })

/-- `Keyspace.Set` with a new container and no expiry time. -/
def set (k : Bytes) (new : Datum) (now : Int) (h : Heap) : Nat × Heap :=
  (h.objects.length, {
    slots := h.slots.put k (some ⟨h.objects.length, 0, now⟩) (if (h.slots.entries.lookup k).isSome then 0 else 1)
    objects := h.objects ++ [new] })

def getOrCreate (k : Bytes) (new : Datum) (now : Int) (h : Heap) : (Nat × Bytes) × Heap :=
  match (h.live now k).1.bind fun sl => h.objects[sl.ref]?.map fun d => (sl, d.type) with
  | some (sl, type) => ((sl.ref, type), { h with slots := h.slots.put k (some { sl with lastAccessedAt := now }) (h.live now k).2 })
  | none => ((h.objects.length, new.type), {
      slots := h.slots.put k (some ⟨h.objects.length, 0, now⟩) ((h.live now k).2 + 1)
      objects := h.objects ++ [new] })

def update {α : Type} (ref : Nat) (f : Datum → α × Datum) (dflt : α) (h : Heap) : α × Heap :=
  match h.objects[ref]? with
  | none => (dflt, h)
  | some d => ((f d).1, { h with objects := h.objects.set ref (f d).2 })

end Heap

abbrev HeapCode := Code Int Heap Outcome

/-- `Get`, and `Set` of a new container when there is none. -/
def getThenSet (k : Bytes) (new : Datum) (f : Nat → HeapCode) : HeapCode := do
  match ← Code.atomic (Heap.get k) with
  | none => do
    let ref ← Code.atomic (Heap.set k new)
    f ref
  | some (ref, type) => if type ≠ new.type then pure (fails wrongType) else f ref

/-- `GetOrCreate`, then the check of the type. -/
def getOrCreate (k : Bytes) (new : Datum) (f : Nat → HeapCode) : HeapCode := do
  let (ref, type) ← Code.atomic (Heap.getOrCreate k new)
  if type ≠ new.type then pure (fails wrongType) else f ref

def onType {α β : Type} (as : Datum → Option α) (f : α → β × Datum) (dflt : β) (d : Datum) : β × Datum :=
  match as d with
  | none => (dflt, d)
  | some a => f a

def locked {α β : Type} (as : Datum → Option α) (ref : Nat) (f : α → β × Datum) (dflt : β) : Code Int Heap β :=
  Code.atomic fun _ => Heap.update ref (onType as f dflt) dflt

/-! ### The commands -/

/-- A command that creates its container, after its arguments have been checked. -/
inductive Creation
  | xadd (id : Bytes) (fields : List Bytes) (maxlen : Int)
  | vadd (id : Bytes) (vec : List UInt32)
  | push (left : Bool) (v : Bytes) (vs : List Bytes)
  | sadd (m : Bytes) (ms : List Bytes)
  | hset (pairs : List Bytes)
  | zadd (pairs : List Bytes)
  | xgroup (group id : Bytes)

section Commands

variable (rt : Runtime) (r : Readings)

def addEntry (id : Bytes) (fields : List Bytes) (s : Stream) : Except Bytes Bytes × Datum :=
  match s.add rt.quote r.now id (Hash.ofPairs fields ∅) (fieldOrder fields) with
  | .error e => (.error e, .stream s)
  | .ok (assigned, s) => (.ok assigned, .stream s)

def xaddOn (id : Bytes) (fields : List Bytes) (maxlen : Int) (ref : Nat) : HeapCode := do
  match ← locked Datum.stream? ref (addEntry rt r id fields) (.error []) with
  | .error e => pure (fails e)
  | .ok assigned =>
    if maxlen ≥ 0 then do
      let _ ← locked Datum.stream? ref (fun s => ((s.trim maxlen).1, .stream (s.trim maxlen).2)) 0
      pure (wrote (.bulkString assigned))
    else pure (wrote (.bulkString assigned))

def addVector (id : Bytes) (vec : List UInt32) (v : VectorIndex) : Bool × Datum :=
  match v.add id vec with
  | none => (false, .vector v)
  | some v => (true, .vector v)

def vaddOn (id : Bytes) (vec : List UInt32) (ref : Nat) : HeapCode := do
  let added ← locked Datum.vector? ref (addVector id vec) false
  pure (if added then wrote ok else fails dimensionMismatch)

def pushAll (left : Bool) (values l : List Bytes) : List Bytes :=
  if left then GoList.lPush values l else GoList.rPush values l

def pushOn (left : Bool) (v : Bytes) (vs : List Bytes) (ref : Nat) : HeapCode := do
  let length ← locked Datum.list? ref (fun l => ((pushAll left (v :: vs) l).length, .list (pushAll left (v :: vs) l))) 0
  pure (wrote (.integer length))

def saddOn (m : Bytes) (ms : List Bytes) (ref : Nat) : HeapCode := do
  let added ← locked Datum.set? ref (fun s => ((GoSet.add (m :: ms) s).1, .set (GoSet.add (m :: ms) s).2)) 0
  pure (wrote (.integer added))

/-- One `Hash.Set` for each pair; `n` fields were new so far. -/
def hsetOn (ref : Nat) : Nat → List Bytes → HeapCode
  | n, f :: v :: rest => do
    let added ← locked Datum.hash? ref (fun h => ((Hash.set f v h).1, .hash (Hash.set f v h).2)) 0
    hsetOn ref (n + added) rest
  | n, _ => pure (wrote (.integer n))

/-- `GetScore` and `Insert` for each pair. -/
def zaddOn (ref : Nat) : Nat → List Bytes → HeapCode
  | n, score :: member :: rest =>
    match rt.parseFloat score with
    | none => pure (fails "ERR value is not a valid float")
    | some x => do
      let found ← locked Datum.zset? ref (fun z => (decide (member ∈ z.dict), .zset z)) false
      let _ ← locked Datum.zset? ref (fun z => ((), .zset (z.insert r.near x member))) ()
      zaddOn ref (if found then n else n + 1) rest
  | n, _ => pure (wrote (.integer n))

def addGroup (group id : Bytes) (s : Stream) : Except Bytes Unit × Datum :=
  match s.createGroup group id with
  | .error e => (.error e, .stream s)
  | .ok s => (.ok (), .stream s)

def xgroupOn (group id : Bytes) (ref : Nat) : HeapCode := do
  match ← locked Datum.stream? ref (addGroup group id) (.error []) with
  | .error e => pure (fails e)
  | .ok _ => pure (wrote ok)

namespace Creation

def new : Creation → Datum
  | xadd .. => .stream .new
  | vadd _ vec => .vector (.new vec.length)
  | push .. => .list []
  | sadd .. => .set ∅
  | hset _ => .hash ∅
  | zadd _ => .zset .new
  | xgroup .. => .stream .new

/-- Whether it looks for the key and stores the container in two operations. -/
def splits : Creation → Bool
  | xadd .. | vadd .. | xgroup .. => true
  | _ => false

def on : Creation → Nat → HeapCode
  | xadd id fields maxlen, ref => xaddOn rt r id fields maxlen ref
  | vadd id vec, ref => vaddOn id vec ref
  | push left v vs, ref => pushOn left v vs ref
  | sadd m ms, ref => saddOn m ms ref
  | hset pairs, ref => hsetOn ref 0 pairs
  | zadd pairs, ref => zaddOn rt r ref 0 pairs
  | xgroup group id, ref => xgroupOn group id ref

def code (k : Bytes) (c : Creation) : HeapCode :=
  if c.splits then getThenSet k c.new (c.on rt r) else getOrCreate k c.new (c.on rt r)

end Creation

end Commands

/-- A client's command on the key, with its arguments after the key. -/
inductive CreateCommand (rt : Runtime)
  | xadd (args : List Bytes)
  | vadd (args : List Bytes)
  | lpush (args : List Bytes)
  | rpush (args : List Bytes)
  | sadd (args : List Bytes)
  | hset (args : List Bytes)
  | zadd (args : List Bytes)
  | xgroup (group id opt : Bytes) (opts : List Bytes) (mkstream : toUpper rt.unicode opt = lit "MKSTREAM")

namespace CreateCommand

variable {rt : Runtime}

def argsMessage (cmd : Bytes) : Bytes := lit "ERR wrong number of arguments for '" ++ cmd ++ lit "' command"

/-- The checks of the arguments, before the key is looked up. -/
def plan : CreateCommand rt → Except Bytes Creation
  | xadd args =>
    if args.length < 3 then .error (argsMessage "xadd")
    else match xaddMaxlen rt args with
      | .error e => .error e
      | .ok (maxlen, id :: fields) =>
        if fields = [] ∨ fields.length % 2 ≠ 0 then .error (argsMessage "xadd")
        else .ok (.xadd id fields maxlen)
      | .ok (_, []) => .error (argsMessage "xadd")
  | vadd args => match args with
    | id :: f :: fs => match parseVector rt 1 (f :: fs) with
      | .error i => .error (lit "ERR invalid float in vector at position " ++ formatUint i)
      | .ok vec => .ok (.vadd id vec)
    | _ => .error "ERR wrong number of arguments for 'vadd' command: VADD key id f1 f2 ..."
  | lpush args => match args with
    | v :: vs => .ok (.push true v vs)
    | [] => .error (argsMessage "lpush")
  | rpush args => match args with
    | v :: vs => .ok (.push false v vs)
    | [] => .error (argsMessage "rpush")
  | sadd args => match args with
    | m :: ms => .ok (.sadd m ms)
    | [] => .error (argsMessage "sadd")
  | hset args =>
    if args.length < 2 ∨ args.length % 2 ≠ 0 then .error (argsMessage "hset")
    else .ok (.hset args)
  | zadd args =>
    if args.length < 2 ∨ args.length % 2 ≠ 0 then .error (argsMessage "zadd")
    else .ok (.zadd args)
  | xgroup group id _ _ _ => .ok (.xgroup group id)

def code (r : Readings) (k : Bytes) (c : CreateCommand rt) : HeapCode :=
  match c.plan with
  | .error e => pure (fails e)
  | .ok p => p.code rt r k

end CreateCommand

end VortexKV
