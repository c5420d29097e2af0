import VortexKV.Proofs.DataEffects

/-!
# The contents of a keyspace

`Keyspace.content` is what is stored under a key, without the time of the last access: the value and the expiry
time. The lemmas say what the operations on one entry, and the commands made of them, leave there.
-/

namespace VortexKV

open KeyedStore Prog

variable {key id : Bytes} {rt : Runtime}

def cellContent (c : Option Entry) : Option (Datum × Int) := c.map fun e => (e.value, e.expiresAt)

def Keyspace.content (ks : Keyspace) (k : Bytes) : Option (Datum × Int) := cellContent (ks.entries.lookup k)

theorem content_put (ks : Keyspace) (key : Bytes) (c : Option Entry) (d : Int) (k : Bytes) :
    Keyspace.content (ks.put key c d) k = if k = key then cellContent c else ks.content k := by
  unfold Keyspace.content
  split
  · rename_i h
    rw [h, Store.lookup_put]
  · rename_i h
    rw [Store.lookup_put_ne _ h]

theorem content_run_get (now : Int) (ks : Keyspace) (key k : Bytes) :
    Keyspace.content ((KsProg.get key).run (ksStep now) ks).2 k =
      if k = key then ks.view now key else ks.content k := by
  rw [run_get, content_put]
  rfl

theorem content_run_put (now : Int) (ks : Keyspace) (key : Bytes) (v : Datum) (k : Bytes) :
    Keyspace.content ((KsProg.put key v).run (ksStep now) ks).2 k =
      if k = key then (ks.content key).map fun x => (v, x.2) else ks.content k := by
  change Keyspace.content (ks.put key _ 0) k = _
  rw [content_put]
  unfold Keyspace.content cellContent
  rw [Option.map_map, Option.map_map]
  rfl

theorem content_run_set (now : Int) (ks : Keyspace) (key : Bytes) (v : Datum) (x : Int) (k : Bytes) :
    Keyspace.content ((KsProg.set key v x).run (ksStep now) ks).2 k =
      if k = key then some (v, x) else ks.content k := by
  rw [run_set, content_put]
  rfl

theorem content_run_getOrCreate (now : Int) (ks : Keyspace) (key : Bytes) (new : Datum) :
    ((KsProg.getOrCreate key new).run (ksStep now) ks).1 = ((ks.view now key).getD (new, 0)).1 ∧
      ∀ k, Keyspace.content ((KsProg.getOrCreate key new).run (ksStep now) ks).2 k =
        if k = key then some ((ks.view now key).getD (new, 0)) else ks.content k := by
  have hc : (ksStep now (.getOrCreate new) (ks.entries.lookup key)).1 = ((ks.view now key).getD (new, 0)).1 ∧
      cellContent (ksStep now (.getOrCreate new) (ks.entries.lookup key)).2.1 =
        some ((ks.view now key).getD (new, 0)) := by
    unfold Keyspace.view liveCell
    simp only [ksStep]
    rcases dropExpired now (ks.entries.lookup key) with ⟨_ | e, d⟩ <;> exact ⟨rfl, rfl⟩
  refine ⟨hc.1, fun k => ?_⟩
  change Keyspace.content (ks.put key (ksStep now (.getOrCreate new) (ks.entries.lookup key)).2.1
    (ksStep now (.getOrCreate new) (ks.entries.lookup key)).2.2) k = _
  rw [content_put, hc.2]

/-! ### Commands on the value of one key -/

def edit {α : Type} (as : Datum → Option α) (g : α → Datum) (x : Datum × Int) : Datum × Int := ((as x.1).elim x.1 g, x.2)

theorem content_withNewValue {α : Type} (now : Int) (ks : Keyspace) {as : Datum → Option α} {new : Datum}
    {f : α → KsProg Outcome} (g : α → Datum) (hf : ∀ a, ∃ out, f a = (KsProg.put key (g a) >>= fun _ => pure out)) (k : Bytes) :
    Keyspace.content ((withNewValue as key new f).run (ksStep now) ks).2 k =
      if k = key then some (edit as g ((ks.view now key).getD (new, 0))) else ks.content k := by
  obtain ⟨hv, hc⟩ := content_run_getOrCreate now ks key new
  rw [withNewValue, run_bind, hv]
  cases ha : as ((ks.view now key).getD (new, 0)).1 with
  | none =>
    rw [run_pure, hc, edit, ha]
    rfl
  | some a =>
    obtain ⟨out, ho⟩ := hf a
    dsimp only
    rw [ho, run_bind, run_pure, content_run_put, hc, hc, if_pos rfl, edit, ha]
    split <;> rfl

/-- The stream after `XADD`, trimmed if `maxlen` is not negative, and as it was if the ID is refused. -/
def Stream.added (quote : Bytes → Bytes) (now : Int) (id : Bytes) (fields : List Bytes) (maxlen : Int) (s : Stream) : Stream :=
  match s.add quote now id (Hash.ofPairs fields ∅) (fieldOrder fields) with
  | .error _ => s
  | .ok (_, s) => if maxlen ≥ 0 then (s.trim maxlen).2 else s

theorem content_xaddTo {r : Readings} {now : Int} {ks : Keyspace} {fields : List Bytes}
    {maxlen : Int} {s : Stream} {x : Int} (h : ks.content key = some (.stream s, x)) (k : Bytes) :
    Keyspace.content ((xaddTo rt r key id fields maxlen s).run (ksStep now) ks).2 k =
      if k = key then some (.stream (s.added rt.quote r.now id fields maxlen), x) else ks.content k := by
  unfold xaddTo Stream.added
  cases s.add rt.quote r.now id (Hash.ofPairs fields ∅) (fieldOrder fields) with
  | error e =>
    change ks.content k = _
    split
    · rename_i hk
      rw [hk, h]
    · rfl
  | ok p =>
    rw [run_bind, run_pure, content_run_put, h]
    rfl

theorem content_handleXAdd {r : Readings} (now : Int) (ks : Keyspace) (key : Bytes) {rest fields : List Bytes}
    {maxlen : Int} (hlen : ¬ rest.length < 3) (hm : xaddMaxlen rt rest = .ok (maxlen, id :: fields))
    (hf : ¬ (fields = [] ∨ fields.length % 2 ≠ 0)) (k : Bytes) :
    Keyspace.content ((handleXAdd rt r (key :: rest)).run (ksStep now) ks).2 k =
      if k = key then some (edit Datum.stream? (fun s => .stream (s.added rt.quote r.now id fields maxlen))
        ((ks.view now key).getD (.stream .new, 0))) else ks.content k := by
  have hget := content_run_get now ks key
  rw [handleXAdd, if_neg hlen, hm]
  dsimp only
  rw [if_neg hf, run_get_bind]
  rcases hv : ks.view now key with _ | ⟨d, x⟩
  · have hset := content_run_set now ((KsProg.get key).run (ksStep now) ks).2 key (.stream .new) 0
    rw [run_bind, content_xaddTo ((hset key).trans (if_pos rfl)), hset, hget]
    split <;> rfl
  · have hk : Keyspace.content ((KsProg.get key).run (ksStep now) ks).2 key = some (d, x) := by
      rw [hget, if_pos rfl, hv]
    dsimp only [Option.getD_some, edit]
    cases hd : d.stream? with
    | none =>
      rw [run_pure, hget, hv]
      rfl
    | some s =>
      have hs : d = .stream s := by cases d <;> cases hd; rfl
      rw [content_xaddTo (hs ▸ hk), hget]
      split <;> rfl

def VectorIndex.added (id : Bytes) (vec : List UInt32) (v : VectorIndex) : VectorIndex := (v.add id vec).getD v

theorem content_vaddTo {now : Int} {ks : Keyspace} {vec : List UInt32} {v : VectorIndex} {x : Int}
    (h : ks.content key = some (.vector v, x)) (k : Bytes) :
    Keyspace.content ((vaddTo key id vec v).run (ksStep now) ks).2 k =
      if k = key then some (.vector (v.added id vec), x) else ks.content k := by
  unfold vaddTo VectorIndex.added
  cases v.add id vec with
  | none =>
    change ks.content k = _
    split
    · rename_i hk
      rw [hk, h]
      rfl
    · rfl
  | some v' =>
    rw [run_bind, run_pure, content_run_put, h]
    rfl

theorem content_vadd (now : Int) (ks : Keyspace) {f : Bytes} {fs : List Bytes} {vec : List UInt32}
    (hve : parseVector rt 1 (f :: fs) = .ok vec) (k : Bytes) :
    Keyspace.content ((handleVAdd rt (key :: id :: f :: fs)).run (ksStep now) ks).2 k =
      if k = key then some (edit Datum.vector? (fun v => .vector (v.added id vec))
        ((ks.view now key).getD (.vector (.new vec.length), 0))) else ks.content k := by
  have hget := content_run_get now ks key
  rw [handleVAdd, hve]
  rw [run_get_bind]
  rcases hvi : ks.view now key with _ | ⟨d, x⟩
  · have hset := content_run_set now ((KsProg.get key).run (ksStep now) ks).2 key (.vector (.new vec.length)) 0
    rw [run_bind, content_vaddTo ((hset key).trans (if_pos rfl)), hset, hget]
    split <;> rfl
  · have hk : Keyspace.content ((KsProg.get key).run (ksStep now) ks).2 key = some (d, x) := by
      rw [hget, if_pos rfl, hvi]
    dsimp only [Option.getD_some, edit]
    cases hd : d.vector? with
    | none =>
      rw [run_pure, hget, hvi]
      rfl
    | some v =>
      have hv : d = .vector v := by cases d <;> cases hd; rfl
      rw [content_vaddTo (hv ▸ hk), hget]
      split <;> rfl

end VortexKV
