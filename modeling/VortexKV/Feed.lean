import VortexKV.Engine
import VortexKV.Machine

/-!
# The replication feed

`Broadcast` and the serving loop of `HandlePSync`, as steps that interleave. Calls of `Broadcast` run side by side, and
replicas come and go between them. A send to a full channel does nothing.
-/

namespace VortexKV

open List

/-- A call of `Broadcast`, with the replicas that it has not come to. -/
structure BroadcastCall where
  payload : Bytes
  rest : List Bytes
deriving DecidableEq

inductive FeedItem
  | payload (p : Bytes)
  | ping
deriving DecidableEq

structure Feed where
  rm : Replication
  calls : List BroadcastCall := []
  /-- What each replica's loop has written since it registered -/
  written : Bytes → List FeedItem := fun _ => []
  /-- The payloads that calls of `Broadcast` had for each replica since it registered -/
  offered : Bytes → List Bytes := fun _ => []

namespace Replication

variable (rm : Replication)

def ids : List Bytes := rm.replicas.map (·.id)

def chan (id : Bytes) : List Bytes := ((rm.replicas.find? (·.id = id)).map (·.cmdChan)).getD []

def mapChan (id : Bytes) (f : List Bytes → List Bytes) : Replication :=
  { rm with replicas := rm.replicas.map fun rep => if rep.id = id then { rep with cmdChan := f rep.cmdChan } else rep }

def offer (payload : Bytes) (chan : List Bytes) : List Bytes :=
  if chan.length < cmdChanCap then chan ++ [payload] else chan

end Replication

inductive FeedEvent
  | register (id : Bytes)
  | begin (args : Command) (order : List Bytes)
  | send (call : Nat)
  | write (id : Bytes)
  | heartbeat (id : Bytes)
  | close (id : Bytes)
  | connectToMaster (host : Bytes) (port : Int)
  | promoteToMaster

namespace Feed

variable (f : Feed)

def wrote (id : Bytes) (item : FeedItem) : Feed :=
  { f with written := Function.update f.written id (f.written id ++ [item]) }

def payloads (id : Bytes) : List Bytes := (f.written id).filterMap fun
  | .payload p => some p
  | .ping => none

def step : FeedEvent → Feed → Option Feed
  -- the write lock: no call of `Broadcast` is under way
  | .register id, f =>
    if f.calls = [] ∧ id ∉ f.rm.ids then some { f with
      rm := { f.rm with replicas := f.rm.replicas ++ [⟨id, []⟩] }
      written := Function.update f.written id []
      offered := Function.update f.offered id [] }
    else none
  | .begin args order, f =>
    if f.rm.role ≠ .master ∨ f.rm.replicas = [] then some f
    else if order.Perm f.rm.ids then some { f with
      rm := { f.rm with masterOffset := f.rm.masterOffset + (serializeCommand args).length }
      calls := f.calls ++ [⟨serializeCommand args, order⟩] }
    else none
  | .send i, f => match f.calls[i]? with
    | some ⟨p, id :: rest⟩ => some { f with
        rm := f.rm.mapChan id (Replication.offer p)
        calls := if rest = [] then f.calls.eraseIdx i else f.calls.set i ⟨p, rest⟩
        offered := Function.update f.offered id (f.offered id ++ [p]) }
    | _ => none
  | .write id, f => match f.rm.chan id with
    | p :: _ => some (wrote { f with rm := f.rm.mapChan id List.tail } id (.payload p))
    | [] => none
  | .heartbeat id, f => if id ∈ f.rm.ids then some (f.wrote id .ping) else none
  | .close id, f =>
    if f.calls = [] then some { f with rm := { f.rm with replicas := f.rm.replicas.filter (·.id ≠ id) } } else none
  | .connectToMaster host port, f =>
    if f.calls = [] then some { f with rm := f.rm.connectToMaster host port } else none
  | .promoteToMaster, f => if f.calls = [] then some { f with rm := f.rm.promoteToMaster } else none

end Feed

/-! ### Channels -/

namespace Replication

variable {rm : Replication} {id : Bytes}

theorem chan_mapChan (h : id ∈ rm.ids) (id' : Bytes) (f : List Bytes → List Bytes) :
    (rm.mapChan id' f).chan id = if id = id' then f (rm.chan id) else rm.chan id := by
  unfold chan mapChan ids at *
  generalize rm.replicas = reps at h
  induction reps with
  | nil => cases h
  | cons rep reps ih =>
    by_cases hr : rep.id = id
    · by_cases hid : id = id'
      · subst hid
        simp [hr]
      · simp [hr, hid]
    · have hm : id ∈ reps.map (·.id) := by
        rcases mem_cons.1 h with heq | hm
        · exact absurd heq.symm hr
        · exact hm
      have hid : (if rep.id = id' then { rep with cmdChan := f rep.cmdChan } else rep).id ≠ id := by
        split <;> exact hr
      simp only [map_cons, List.find?_cons, hid, hr, decide_false]
      exact ih hm

@[simp] theorem ids_mapChan (id' : Bytes) (f : List Bytes → List Bytes) : (rm.mapChan id' f).ids = rm.ids := by
  simp only [ids, mapChan, map_map]
  refine map_congr_left fun rep _ => ?_
  simp only [Function.comp]
  split <;> rfl

end Replication

/-! ### A call on its own -/

end VortexKV
