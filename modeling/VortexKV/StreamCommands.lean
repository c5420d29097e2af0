import VortexKV.Commands

/-!
# The stream commands

The branches of `Engine.dispatch` on streams and consumer groups. A read with `BLOCK` that finds nothing
polls: run alone, as a command is here, it finds nothing until its time is over, and without a time limit
it does not return.
-/

namespace VortexKV

open KeyedStore

variable (rt : Runtime) (r : Readings)

/-- The `MAXLEN` clause of `XADD`: the bound (-1 without one) and the arguments after it. -/
def xaddMaxlen : List Bytes → Except Bytes (Int × List Bytes)
  | a :: rest =>
    if toUpper rt.unicode a = lit "MAXLEN" then
      match (if rest.head? = some (lit "~") then rest.tail else rest) with
      | [] => .error "ERR syntax error"
      | n :: rest => match parseInt64 n with
        | none => .error notInteger
        | some n => .ok (n, rest)
    else .ok (-1, a :: rest)
  | [] => .ok (-1, [])

def fieldOrder : List Bytes → List Bytes
  | f :: _ :: rest => f :: fieldOrder rest
  | _ => []

/-- The part of `handleXAdd` after the stream is found or created. -/
def xaddTo (key id : Bytes) (fields : List Bytes) (maxlen : Int) (s : Stream) : KsProg Outcome :=
  match s.add rt.quote r.now id (Hash.ofPairs fields ∅) (fieldOrder fields) with
  | .error e => pure (fails e)
  | .ok (assigned, s) => do
    KsProg.put key (.stream (if maxlen ≥ 0 then (s.trim maxlen).2 else s))
    pure (wrote (.bulkString assigned))

def handleXAdd : List Bytes → KsProg Outcome
  | key :: rest =>
    if rest.length < 3 then pure (wrongArgs "xadd")
    else match xaddMaxlen rt rest with
      | .error e => pure (fails e)
      | .ok (maxlen, id :: fields) =>
        if fields = [] ∨ fields.length % 2 ≠ 0 then pure (wrongArgs "xadd")
        else do
          match ← KsProg.get key with
          | none => do
            KsProg.set key (.stream .new) 0
            xaddTo rt r key id fields maxlen .new
          | some (d, _) => match d.stream? with
            | none => pure (fails wrongType)
            | some s => xaddTo rt r key id fields maxlen s
      | .ok (_, []) => pure (wrongArgs "xadd")
  | [] => pure (wrongArgs "xadd")

def entryValue (e : StreamEntry) : Value :=
  .ofArray [.bulkString e.id, bulks (e.order.flatMap fun f => [f, (e.fields.lookup f).getD []])]

def rangeCount : List Bytes → Int
  | a :: n :: _ => if toUpper rt.unicode a = lit "COUNT" then (parseInt64 n).getD (-1) else -1
  | _ => -1

/-- `handleXRange` and `handleXRevRange`. -/
def handleXRange (name : Bytes) (range : Bytes → Bytes → Int → Stream → List StreamEntry) :
    List Bytes → KsProg Outcome
  | key :: a :: b :: opts => withValue Datum.stream? key (reply (.ofArray [])) fun s =>
      pure (reply (.ofArray ((range a b (rangeCount rt opts) s).map entryValue)))
  | _ => pure (wrongArgs name)

def cmdXLen : List Bytes → KsProg Outcome
  | [] => pure (wrongArgs "xlen")
  | key :: _ => withValue Datum.stream? key (reply (.integer 0)) fun s =>
      pure (reply (.integer s.entries.length))

def handleXDel : List Bytes → KsProg Outcome
  | key :: id :: ids => withValue Datum.stream? key (reply (.integer 0)) fun s => do
      KsProg.put key (.stream (s.delete (id :: ids)).2)
      pure (wrote (.integer (s.delete (id :: ids)).1))
  | _ => pure (wrongArgs "xdel")

def handleXTrim : List Bytes → KsProg Outcome
  | key :: m :: a :: opts =>
    if toUpper rt.unicode m ≠ lit "MAXLEN" then pure (fails "ERR syntax error, expected MAXLEN")
    else match (if a = lit "~" then opts.head? else some a) with
      | none => pure (fails "ERR syntax error")
      | some n => match parseInt64 n with
        | none => pure (fails notInteger)
        | some n => withValue Datum.stream? key (reply (.integer 0)) fun s => do
            KsProg.put key (.stream (s.trim n).2)
            pure (wrote (.integer (s.trim n).1))
  | _ => pure (wrongArgs "xtrim")

/-- The option loop of `XREAD` and `XREADGROUP`: count, block time, `NOACK` and what follows `STREAMS`;
`none` when there is no `STREAMS`. -/
def readOptions (group : Bool) : List Bytes → Int → Int → Bool → Option (Int × Int × Bool × List Bytes)
  | [], _, _, _ => none
  | a :: rest, count, block, noAck =>
    let upper := toUpper rt.unicode a
    if upper = lit "STREAMS" then some (count, block, noAck, rest)
    else if upper = lit "COUNT" then
      match rest with
      | [] => none
      | n :: rest => readOptions group rest ((parseInt64 n).getD count) block noAck
    else if upper = lit "BLOCK" then
      match rest with
      | [] => none
      | n :: rest => readOptions group rest count ((parseInt64 n).getD block) noAck
    else readOptions group rest count block (noAck || (group && upper = lit "NOACK"))

/-- The streams and IDs of a read: the first half of the arguments with the second half. -/
def streamPairs (args : List Bytes) : Option (List (Bytes × Bytes)) :=
  if args.length < 2 ∨ args.length % 2 ≠ 0 then none
  else some ((args.take (args.length / 2)).zip (args.drop (args.length / 2)))

def resolveIDs : List (Bytes × Bytes) → KsProg (List (Bytes × Bytes))
  | [] => pure []
  | (k, id) :: rest => do
    let id ← if id = lit "$" then do
        match ← KsProg.get k with
        | some (.stream s, _) => pure s.lastIDText
        | _ => pure "0-0"
      else pure id
    return (k, id) :: (← resolveIDs rest)

def readStreams (count : Int) : List (Bytes × Bytes) → KsProg (List Value)
  | [] => pure []
  | (k, id) :: rest => do
    let here := match ← KsProg.get k with
      | some (.stream s, _) => s.read id count
      | _ => []
    let later ← readStreams count rest
    return if here = [] then later
      else .ofArray [.bulkString k, .ofArray (here.map entryValue)] :: later

/-- What a read with results `vs` returns. With none, a blocking read polls until its time is over;
alone, it finds nothing, and without a time limit it never returns. -/
def readReply (block : Int) (vs : List Value) : Outcome :=
  if vs ≠ [] then reply (.ofArray vs)
  else if block = 0 then .error .hang
  else reply .nullArray

def handleXRead (args : List Bytes) : KsProg Outcome :=
  match readOptions rt false args (-1) (-1) false with
  | none => pure (fails "ERR syntax error, missing STREAMS in 'xread'")
  | some (count, block, _, rest) => match streamPairs rest with
    | none => pure (fails
        "ERR Unbalanced XREAD list of streams: for each stream key an ID must be specified")
    | some pairs => do
      let pairs ← resolveIDs pairs
      return readReply block (← readStreams count pairs)

def noSuchKeyForCreate : Bytes := lit "ERR The XGROUP subcommand requires the key to exist. " ++
  lit "Note that for CREATE you can specify MKSTREAM to create an empty stream automatically."

/-- The part of `XGROUP CREATE` after the stream is found or created. -/
def createGroupIn (key group id : Bytes) (s : Stream) : KsProg Outcome :=
  match s.createGroup group id with
  | .error e => pure (fails e)
  | .ok s => do
    KsProg.put key (.stream s)
    pure (wrote ok)

def xgroupCreate : List Bytes → KsProg Outcome
  | key :: group :: id :: opts => do
    match ← KsProg.get key with
    | none =>
      if opts.head?.map (toUpper rt.unicode) ≠ some (lit "MKSTREAM") then pure (fails noSuchKeyForCreate)
      else do
        KsProg.set key (.stream .new) 0
        createGroupIn key group id .new
    | some (d, _) => match d.stream? with
      | none => pure (fails wrongType)
      | some s => createGroupIn key group id s
  | _ => pure (wrongArgs "xgroup create")

def xgroupDestroy : List Bytes → KsProg Outcome
  | key :: group :: _ => withValue Datum.stream? key (reply (.integer 0)) fun s =>
      if (s.destroyGroup group).1 then do
        KsProg.put key (.stream (s.destroyGroup group).2)
        pure (wrote (.integer 1))
      else pure (reply (.integer 0))
  | _ => pure (wrongArgs "xgroup destroy")

def xgroupSetID : List Bytes → KsProg Outcome
  | key :: group :: id :: _ => withValue Datum.stream? key (fails "ERR no such key") fun s =>
      match s.setGroupID group id with
      | .error e => pure (fails e)
      | .ok s => do
        KsProg.put key (.stream s)
        pure (wrote ok)
  | _ => pure (wrongArgs "xgroup setid")

def xgroupDelConsumer : List Bytes → KsProg Outcome
  | key :: group :: consumer :: _ => withValue Datum.stream? key (reply (.integer 0)) fun s => do
      KsProg.put key (.stream (s.deleteConsumer group consumer).2)
      pure (wrote (.integer (s.deleteConsumer group consumer).1))
  | _ => pure (wrongArgs "xgroup delconsumer")

def handleXGroup : List Bytes → KsProg Outcome
  | sub :: a :: args =>
    let sub := toUpper rt.unicode sub
    if sub = lit "CREATE" then xgroupCreate rt (a :: args)
    else if sub = lit "DESTROY" then xgroupDestroy (a :: args)
    else if sub = lit "SETID" then xgroupSetID (a :: args)
    else if sub = lit "DELCONSUMER" then xgroupDelConsumer (a :: args)
    else pure (fails (lit "ERR unknown XGROUP subcommand '" ++ sub ++ lit "'"))
  | _ => pure (wrongArgs "xgroup")

/-- `readOnce` of `handleXReadGroup`: an error stops the loop, with the streams before it changed. -/
def readGroupStreams (group consumer : Bytes) (count : Int) (noAck : Bool) :
    List (Bytes × Bytes) → KsProg (Except Bytes (List Value))
  | [] => pure (.ok [])
  | (k, id) :: rest => do
    match ← KsProg.get k with
    | some (.stream s, _) => match s.readGroup r.now group consumer id count noAck with
      | .error e => pure (.error e)
      | .ok (here, s) => do
        KsProg.put k (.stream s)
        match ← readGroupStreams group consumer count noAck rest with
        | .error e => pure (.error e)
        | .ok later => pure (.ok (if here = [] then later
            else .ofArray [.bulkString k, .ofArray (here.map entryValue)] :: later))
    | _ => readGroupStreams group consumer count noAck rest

def handleXReadGroup : List Bytes → KsProg Outcome
  | g :: group :: consumer :: opts =>
    if opts.length < 3 ∨ toUpper rt.unicode g ≠ lit "GROUP" then
      pure (fails "ERR syntax error, expected XREADGROUP GROUP <group> <consumer> ...")
    else match readOptions rt true opts (-1) (-1) false with
      | none => pure (fails "ERR syntax error, missing STREAMS in 'xreadgroup'")
      | some (count, block, noAck, rest) => match streamPairs rest with
        | none => pure (fails "ERR Unbalanced XREADGROUP list of streams")
        | some pairs => do
          match ← readGroupStreams r group consumer count noAck pairs with
          | .error e => pure (fails e)
          | .ok vs => pure (readReply block vs)
  | _ => pure (fails "ERR syntax error, expected XREADGROUP GROUP <group> <consumer> ...")

def handleXAck : List Bytes → KsProg Outcome
  | key :: group :: id :: ids => withValue Datum.stream? key (reply (.integer 0)) fun s => do
      KsProg.put key (.stream (s.ack group (id :: ids)).2)
      pure (wrote (.integer (s.ack group (id :: ids)).1))
  | _ => pure (wrongArgs "xack")

/-- The reply of `XPENDING key group`, over the group's pending entries in map order. -/
def pendingSummary (g : ConsumerGroup) : Value :=
  if g.pel = ∅ then .ofArray [.integer 0, .nil, .nil, .nil]
  else
    let ids := r.shuffle (sortedKeys g.pel)
    let minID := ids.foldl (fun m id => if m = [] ∨ compareStreamIDs id m < 0 then id else m) []
    let maxID := ids.foldl (fun m id => if m = [] ∨ compareStreamIDs id m > 0 then id else m) []
    let owners := ids.filterMap fun id => (g.pel.lookup id).map (·.consumerName)
    .ofArray [.integer (mapLen g.pel), .bulkString minID, .bulkString maxID,
      .ofArray ((r.shuffle (sortedList owners.toFinset)).map fun c =>
        .ofArray [.bulkString c, .integer (owners.count c)])]

def pendingDetailed (start stop : Bytes) (count : Int) (consumer : Bytes) (minIdle : Int) (g : ConsumerGroup) :
    List PendingEntry :=
  let all := ((sortedKeys g.pel).filterMap g.pel.lookup).filter fun pe =>
    !(consumer ≠ [] && pe.consumerName ≠ consumer) &&
    !(start ≠ lit "-" && start ≠ [] && compareStreamIDs pe.id start < 0) &&
    !(stop ≠ lit "+" && stop ≠ [] && compareStreamIDs pe.id stop > 0) &&
    !(minIdle > 0 && r.now - pe.deliveryTime < minIdle)
  let sorted := all.insertionSort fun a b => Stream.idLe a.id b.id
  if count > 0 then sorted.take count.toNat else sorted

/-- The `IDLE` clause of `XPENDING`: the duration in nanoseconds and the arguments after it. -/
def pendingIdle : List Bytes → Except Bytes (Int × List Bytes)
  | a :: rest =>
    if toUpper rt.unicode a = lit "IDLE" then
      match rest with
      | [] => .error "ERR syntax error"
      | ms :: rest => match parseInt64 ms with
        | none => .error notInteger
        | some ms => .ok (wrap64 (ms * 1000000), rest)
    else .ok (0, a :: rest)
  | [] => .ok (0, [])

def handleXPending : List Bytes → KsProg Outcome
  | key :: group :: opts => withValue Datum.stream? key (fails "ERR no such key") fun s =>
      let found (f : ConsumerGroup → Outcome) : KsProg Outcome :=
        pure ((s.groups.lookup group).elim (fails errGroupNotFound) f)
      if opts = [] then found fun g => reply (pendingSummary r g)
      else match pendingIdle rt opts with
        | .error e => pure (fails e)
        | .ok (minIdle, start :: stop :: n :: rest) => match parseInt64 n with
          | none => pure (fails notInteger)
          | some count => found fun g =>
              reply (.ofArray ((pendingDetailed r start stop count (rest.headD []) minIdle g).map fun pe =>
                .ofArray [.bulkString pe.id, .bulkString pe.consumerName,
                  .integer (max 0 ((r.now - pe.deliveryTime).tdiv 1000000)), .integer pe.deliveryCount]))
        | .ok _ => pure (fails "ERR wrong number of arguments for 'xpending' detailed command")
  | _ => pure (wrongArgs "xpending")

def table (l : List (String × Value)) : Value := .ofArray (l.flatMap fun p => [.bulkString p.1, p.2])

def xinfoStream (s : Stream) : Value :=
  let last := if s.entries = [] then .nil else .bulkString s.lastIDText
  table [("length", .integer s.entries.length), ("radix-tree-keys", .integer s.entries.length),
    ("radix-tree-nodes", .integer 1), ("last-generated-id", last), ("groups", .integer (mapLen s.groups)),
    ("first-entry", bulkOrNil (s.entries.head?.map (·.id))), ("last-entry", last)]

def xinfoGroups (s : Stream) : Value :=
  .ofArray (((r.shuffle (sortedKeys s.groups)).filterMap s.groups.lookup).map fun g =>
    table [("name", .bulkString g.name), ("consumers", .integer (mapLen g.consumers)),
      ("pending", .integer (mapLen g.pel)), ("last-delivered-id", .bulkString g.lastDeliveredID)])

def xinfoConsumers (g : ConsumerGroup) : Value :=
  .ofArray (((r.shuffle (sortedKeys g.consumers)).filterMap g.consumers.lookup).map fun c =>
    table [("name", .bulkString c.name), ("pending", .integer (mapLen c.pel)),
      ("idle", .integer ((r.now - c.seenTime).tdiv 1000000))])

def handleXInfo : List Bytes → KsProg Outcome
  | sub :: key :: args => withValue Datum.stream? key (fails "ERR no such key") fun s =>
      let sub := toUpper rt.unicode sub
      if sub = lit "STREAM" then pure (reply (xinfoStream s))
      else if sub = lit "GROUPS" then pure (reply (xinfoGroups r s))
      else if sub = lit "CONSUMERS" then match args with
        | [] => pure (wrongArgs "xinfo consumers")
        | group :: _ => pure (match s.groups.lookup group with
          | none => fails errGroupNotFound
          | some g => reply (xinfoConsumers r g))
      else pure (fails (lit "ERR unknown XINFO subcommand '" ++ sub ++ lit "'"))
  | _ => pure (wrongArgs "xinfo")

end VortexKV
