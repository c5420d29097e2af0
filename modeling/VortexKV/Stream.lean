import VortexKV.Datastruct

/-!
# Streams and consumer groups

`internal/datastruct/stream.go`. Times are those of `time.Now`, in nanoseconds. In the code a group's
and a consumer's record of a pending entry are one object as long as the group names that consumer as
the owner, so a redelivery updates both (`redeliver`).
-/

namespace VortexKV

structure StreamID where
  millis : Nat
  seq : Nat
deriving DecidableEq, Repr

namespace StreamID

def toBytes (s : StreamID) : Bytes := formatUint s.millis ++ 45 :: formatUint s.seq

def next (s : StreamID) : StreamID := ⟨s.millis, (s.seq + 1) % 2 ^ 64⟩

end StreamID

def splitDash : Bytes → List Bytes
  | [] => [[]]
  | c :: s =>
    if c = 45 then [] :: splitDash s
    else match splitDash s with
      | [] => [[c]]
      | p :: ps => (c :: p) :: ps

/-- Whether `ParseUint` stops at an overflow rather than at a byte that is no digit. -/
def uintOverflows (n : Nat) : Bytes → Bool
  | [] => false
  | c :: s => match digitVal c with
    | none => false
    | some d => if 2 ^ 64 ≤ 10 * n + d then true else uintOverflows (10 * n + d) s

def parseUintError (quote : Bytes → Bytes) (s : Bytes) : Bytes :=
  lit "strconv.ParseUint: parsing " ++ quote s ++
    if uintOverflows 0 s then lit ": value out of range" else lit ": invalid syntax"

def parseStreamID (quote : Bytes → Bytes) (id : Bytes) : Except Bytes StreamID :=
  match splitDash id with
  | [m] => match parseUint64 m with
    | none => .error "invalid stream id format"
    | some m => .ok ⟨m, 0⟩
  | [m, s] => match parseUint64 m with
    | none => .error (parseUintError quote m)
    | some m => match parseUint64 s with
      | none => .error (parseUintError quote s)
      | some s => .ok ⟨m, s⟩
  | _ => .error "invalid stream id format"

def compareStreamIDs (id1 id2 : Bytes) : Int :=
  if id1 = id2 then 0
  else if id1 = lit "-" ∨ id2 = lit "+" then -1
  else if id1 = lit "+" ∨ id2 = lit "-" then 1
  else match parseStreamID id id1, parseStreamID id id2 with
    | .ok s1, .ok s2 =>
      if s1.millis < s2.millis then -1
      else if s1.millis > s2.millis then 1
      else if s1.seq < s2.seq then -1
      else if s1.seq > s2.seq then 1
      else 0
    | _, _ => if bytesLt id1 id2 then -1 else 1

structure StreamEntry where
  id : Bytes
  fields : GoMap Bytes
  order : List Bytes
deriving DecidableEq

structure PendingEntry where
  id : Bytes
  consumerName : Bytes
  deliveryTime : Int
  deliveryCount : Int
deriving DecidableEq

structure Consumer where
  name : Bytes
  seenTime : Int
  pel : GoMap PendingEntry
deriving DecidableEq

structure ConsumerGroup where
  name : Bytes
  lastDeliveredID : Bytes
  consumers : GoMap Consumer
  pel : GoMap PendingEntry
deriving DecidableEq

structure Stream where
  entries : List StreamEntry
  lastID : StreamID
  groups : GoMap ConsumerGroup
deriving DecidableEq

def errInvalidStreamID : Bytes :=
  "ERR The ID specified in XADD is equal or smaller than the target stream top item"

def errGroupExists : Bytes := "BUSYGROUP Consumer Group name already exists"

def errGroupNotFound : Bytes := "NOGROUP No such consumer group for key name"

namespace Stream

def new : Stream := ⟨[], ⟨0, 0⟩, ∅⟩

/-- The ID `Stream.Add` gives to an entry. -/
def assignID (quote : Bytes → Bytes) (now : Int) (idStr : Bytes) (s : Stream) : Except Bytes StreamID :=
  if idStr = lit "*" then
    let nowMilli := (now / 1000000 % 2 ^ 64).toNat
    .ok (if nowMilli > s.lastID.millis then ⟨nowMilli, 0⟩ else s.lastID.next)
  else if lit "-*" <:+ idStr then
    let pre := idStr.dropLast.dropLast
    match parseUint64 pre with
    | none => .error (parseUintError quote pre)
    | some m =>
      if m < s.lastID.millis then .error errInvalidStreamID
      else if m = s.lastID.millis then .ok s.lastID.next
      else .ok ⟨m, 0⟩
  else
    match parseStreamID quote idStr with
    | .error e => .error e
    | .ok p =>
      if s.entries ≠ [] ∧ (p.millis < s.lastID.millis ∨ (p.millis = s.lastID.millis ∧ p.seq ≤ s.lastID.seq))
      then .error errInvalidStreamID
      else .ok p

def add (quote : Bytes → Bytes) (now : Int) (idStr : Bytes) (fields : GoMap Bytes) (order : List Bytes)
    (s : Stream) : Except Bytes (Bytes × Stream) :=
  match assignID quote now idStr s with
  | .error e => .error e
  | .ok sid => .ok (sid.toBytes,
      { s with lastID := sid, entries := s.entries ++ [⟨sid.toBytes, fields, order⟩] })

def lastIDText (s : Stream) : Bytes := if s.entries = [] then "0-0" else s.lastID.toBytes

/-- The loop of `Range`, `RevRange` and `Read`: skip, stop or take each entry; `room` is how many more
are wanted, `none` for no bound. -/
def scan (skip stop : StreamEntry → Bool) : Option Nat → List StreamEntry → List StreamEntry
  | _, [] => []
  | room, e :: es =>
    if skip e then scan skip stop room es
    else if stop e then []
    else match room with
      | none => e :: scan skip stop none es
      | some 0 => [e]
      | some 1 => [e]
      | some (n + 2) => e :: scan skip stop (some (n + 1)) es

def room (count : Int) : Option Nat := if count > 0 then some count.toNat else none

def below (start : Bytes) (e : StreamEntry) : Bool :=
  start ≠ lit "-" ∧ start ≠ [] ∧ compareStreamIDs e.id start < 0

def above (stop : Bytes) (e : StreamEntry) : Bool :=
  stop ≠ lit "+" ∧ stop ≠ [] ∧ compareStreamIDs e.id stop > 0

def range (start stop : Bytes) (count : Int) (s : Stream) : List StreamEntry :=
  scan (below start) (above stop) (room count) s.entries

def revRange (stop start : Bytes) (count : Int) (s : Stream) : List StreamEntry :=
  scan (above stop) (below start) (room count) s.entries.reverse

def read (lastID : Bytes) (count : Int) (s : Stream) : List StreamEntry :=
  scan (fun e => compareStreamIDs e.id lastID ≤ 0) (fun _ => false) (room count) s.entries

def delete (ids : List Bytes) (s : Stream) : Nat × Stream :=
  ((s.entries.filter (·.id ∈ ids)).length, { s with entries := s.entries.filter (·.id ∉ ids) })

def trim (maxlen : Int) (s : Stream) : Int × Stream :=
  if s.entries.length ≤ maxlen ∨ maxlen < 0 then (0, s)
  else (s.entries.length - maxlen,
    { s with entries := s.entries.drop (s.entries.length - maxlen.toNat) })

/-! ### Consumer groups -/

/-- The ID that `$` stands for in group commands. -/
def dollarID (id : Bytes) (s : Stream) : Bytes := if id = lit "$" then s.lastIDText else id

def createGroup (name startID : Bytes) (s : Stream) : Except Bytes Stream :=
  if name ∈ s.groups then .error errGroupExists
  else .ok { s with groups := s.groups.insert name ⟨name, s.dollarID startID, ∅, ∅⟩ }

def destroyGroup (name : Bytes) (s : Stream) : Bool × Stream :=
  if name ∈ s.groups then (true, { s with groups := s.groups.erase name }) else (false, s)

def setGroupID (name id : Bytes) (s : Stream) : Except Bytes Stream :=
  match s.groups.lookup name with
  | none => .error errGroupNotFound
  | some g => .ok { s with groups := s.groups.insert name { g with lastDeliveredID := s.dollarID id } }

def eraseAll {β : Type} (ids : List Bytes) (m : GoMap β) : GoMap β := ids.foldl (fun m id => m.erase id) m

def deleteConsumer (group consumer : Bytes) (s : Stream) : Nat × Stream :=
  match s.groups.lookup group with
  | none => (0, s)
  | some g => match g.consumers.lookup consumer with
    | none => (0, s)
    | some c =>
      let g := { g with pel := eraseAll (sortedKeys c.pel) g.pel, consumers := g.consumers.erase consumer }
      (mapLen c.pel, { s with groups := s.groups.insert group g })

def deliver (now : Int) (noAck : Bool) : Option Nat → List StreamEntry → ConsumerGroup → Consumer →
    List StreamEntry × ConsumerGroup × Consumer
  | _, [], g, c => ([], g, c)
  | room, e :: es, g, c =>
    if compareStreamIDs e.id g.lastDeliveredID > 0 then
      let pe : PendingEntry := ⟨e.id, c.name, now, 1⟩
      let g := { g with lastDeliveredID := e.id, pel := if noAck then g.pel else g.pel.insert e.id pe }
      let c := { c with pel := if noAck then c.pel else c.pel.insert e.id pe }
      match room with
      | none => let (es, g, c) := deliver now noAck none es g c; (e :: es, g, c)
      | some 0 => ([e], g, c)
      | some 1 => ([e], g, c)
      | some (n + 2) => let (es, g, c) := deliver now noAck (some (n + 1)) es g c; (e :: es, g, c)
    else deliver now noAck room es g c

/-- The entry's last occurrence: the loop that fills `entryMap` overwrites earlier ones. -/
def findEntry (entries : List StreamEntry) (id : Bytes) : Option StreamEntry :=
  entries.reverse.find? (·.id = id)

def redeliver (entries : List StreamEntry) (now : Int) (noAck : Bool) : Option Nat → List Bytes →
    ConsumerGroup → Consumer → List StreamEntry × ConsumerGroup × Consumer
  | _, [], g, c => ([], g, c)
  | room, pid :: pids, g, c =>
    match findEntry entries pid with
    | none => redeliver entries now noAck room pids g c
    | some e =>
      let again (pe : PendingEntry) : PendingEntry :=
        { pe with deliveryCount := pe.deliveryCount + 1, deliveryTime := now }
      let update (m : GoMap PendingEntry) : GoMap PendingEntry :=
        match m.lookup pid with
        | some pe => if pe.consumerName = c.name then m.insert pid (again pe) else m
        | none => m
      let g := if noAck then g else { g with pel := update g.pel }
      let c := if noAck then c else { c with pel := update c.pel }
      match room with
      | none => let (es, g, c) := redeliver entries now noAck none pids g c; (e :: es, g, c)
      | some 0 => ([e], g, c)
      | some 1 => ([e], g, c)
      | some (n + 2) =>
        let (es, g, c) := redeliver entries now noAck (some (n + 1)) pids g c; (e :: es, g, c)

def idLe (a b : Bytes) : Bool := compareStreamIDs b a ≥ 0

def readGroup (now : Int) (group consumer id : Bytes) (count : Int) (noAck : Bool) (s : Stream) :
    Except Bytes (List StreamEntry × Stream) :=
  match s.groups.lookup group with
  | none => .error errGroupNotFound
  | some g =>
    let c : Consumer := { (g.consumers.lookup consumer).getD ⟨consumer, now, ∅⟩ with seenTime := now }
    let (es, g, c) :=
      if id = lit ">" then deliver now noAck (room count) s.entries g c
      else
        let pids := (sortedKeys c.pel).filter fun pid => compareStreamIDs pid id ≥ 0
        redeliver s.entries now noAck (room count) (pids.insertionSort fun a b => idLe a b) g c
    .ok (es, { s with groups := s.groups.insert group { g with consumers := g.consumers.insert consumer c } })

def ackLoop : List Bytes → ConsumerGroup → Nat × ConsumerGroup
  | [], g => (0, g)
  | id :: ids, g =>
    match g.pel.lookup id with
    | none => ackLoop ids g
    | some pe =>
      let consumers := match g.consumers.lookup pe.consumerName with
        | none => g.consumers
        | some c => g.consumers.insert pe.consumerName { c with pel := c.pel.erase id }
      let (n, g) := ackLoop ids { g with pel := g.pel.erase id, consumers := consumers }
      (n + 1, g)

def ack (group : Bytes) (ids : List Bytes) (s : Stream) : Nat × Stream :=
  match s.groups.lookup group with
  | none => (0, s)
  | some g => ((ackLoop ids g).1, { s with groups := s.groups.insert group (ackLoop ids g).2 })

end Stream

end VortexKV
