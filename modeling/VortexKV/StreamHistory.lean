import VortexKV.Stream
import VortexKV.Machine

/-!
# Histories of a stream

The calls on one stream, with what a history has to remember of them: the IDs that `Add` returned, for each
group those that were added since it was created, and the entries that `ReadGroup` handed out for `>`.
-/

namespace VortexKV

inductive StreamCall
  | add (now : Int) (id : Bytes) (fields : GoMap Bytes) (order : List Bytes)
  | delete (ids : List Bytes)
  | trim (maxlen : Int)
  | createGroup (name startID : Bytes)
  | readGroup (now : Int) (group consumer id : Bytes) (count : Int) (noAck : Bool)
  | ack (group : Bytes) (ids : List Bytes)
  | deleteConsumer (group consumer : Bytes)

/-- An entry that `ReadGroup` returned for `>`. -/
structure Handout where
  group : Bytes
  consumer : Bytes
  id : Bytes
deriving DecidableEq

structure StreamHistory where
  stream : Stream
  returned : List Bytes
  since : Bytes → List Bytes
  handouts : List Handout

namespace StreamHistory

def new : StreamHistory := ⟨.new, [], fun _ => [], []⟩

def handedOut (h : StreamHistory) (group : Bytes) : List Bytes := (h.handouts.filter (·.group = group)).map (·.id)

/-- A call; one that fails leaves everything as it is. -/
def call (quote : Bytes → Bytes) (h : StreamHistory) : StreamCall → StreamHistory
  | .add now id fields order => match h.stream.add quote now id fields order with
    | .error _ => h
    | .ok (id, s) => { h with stream := s, returned := h.returned ++ [id], since := fun g => h.since g ++ [id] }
  | .delete ids => { h with stream := (h.stream.delete ids).2 }
  | .trim maxlen => { h with stream := (h.stream.trim maxlen).2 }
  | .createGroup name startID => match h.stream.createGroup name startID with
    | .error _ => h
    | .ok s => { h with stream := s, since := Function.update h.since name [] }
  | .readGroup now group consumer id count noAck => match h.stream.readGroup now group consumer id count noAck with
    | .error _ => h
    | .ok (es, s) => { h with
        stream := s
        handouts := h.handouts ++ if id = lit ">" then es.map fun e => ⟨group, consumer, e.id⟩ else [] }
  | .ack group ids => { h with stream := (h.stream.ack group ids).2 }
  | .deleteConsumer group consumer => { h with stream := (h.stream.deleteConsumer group consumer).2 }

def step (quote : Bytes → Bytes) (c : StreamCall) (h : StreamHistory) : Option StreamHistory := some (h.call quote c)

def calls (quote : Bytes → Bytes) (cs : List StreamCall) (h : StreamHistory) : StreamHistory := cs.foldl (call quote) h

theorem run_step (quote : Bytes → Bytes) (cs : List StreamCall) (h : StreamHistory) :
    Machine.run (step quote) cs h = some (calls quote cs h) := by
  induction cs generalizing h with
  | nil => rfl
  | cons c cs ih => exact ih _

end StreamHistory

/-- The calls on a stream with `SetGroupID` among them. -/
inductive GroupCall
  | call (c : StreamCall)
  | setGroupID (name id : Bytes)

def GroupCall.step (quote : Bytes → Bytes) : GroupCall → StreamHistory → Option StreamHistory
  | .call c, h => some (h.call quote c)
  | .setGroupID name id, h => some (match h.stream.setGroupID name id with
    | .error _ => h
    | .ok s => { h with stream := s })

end VortexKV
