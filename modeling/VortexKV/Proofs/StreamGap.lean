import VortexKV.Feed

/-!
# The replication stream

As long as no send finds the channel of a replica full, what its loop has written and what its channel holds
are together what `Broadcast` had for it (`Feed.NoGap`), so the stream has no gap (`stream_contiguous`). A
send to a full channel is lost, and the sends after it are not (`stream_gap`).
-/

namespace VortexKV

open List Option

namespace Feed

variable {f f' : Feed} {id : Bytes} {ev : FeedEvent}

def Fits (id : Bytes) (f : Feed) (ev : FeedEvent) : Prop :=
  ∀ i p rest, ev = .send i → f.calls[i]? = some ⟨p, id :: rest⟩ → (f.rm.chan id).length < cmdChanCap

/-- What was written and what waits is what was offered; calls under way go to registered replicas. -/
structure NoGap (id : Bytes) (f : Feed) : Prop where
  calls : ∀ c ∈ f.calls, ∀ id' ∈ c.rest, id' ∈ f.rm.ids
  feed : id ∈ f.rm.ids → f.payloads id ++ f.rm.chan id = f.offered id

theorem payloads_wrote (f : Feed) (id id' : Bytes) (item : FeedItem) :
    (f.wrote id' item).payloads id = f.payloads id ++
      if id = id' then (match item with
        | .payload p => [p]
        | .ping => []) else [] := by
  unfold payloads wrote
  by_cases h : id = id'
  · subst h
    cases item <;> simp
  · simp [h]

theorem NoGap.step (h : f.NoGap id) (hfi : f.Fits id ev) (hstep : step ev f = some f') : f'.NoGap id := by
  cases ev with
  | register id' =>
    simp only [Feed.step, ite_none_right_eq_some, Option.some.injEq] at hstep
    obtain ⟨⟨hca, hd⟩, rfl⟩ := hstep
    refine ⟨fun c hc => by simp [hca] at hc, fun hid => ?_⟩
    by_cases heq : id = id'
    · subst heq
      have hch : Replication.chan { f.rm with replicas := f.rm.replicas ++ [⟨id, []⟩] } id = [] := by
        have hn : f.rm.replicas.find? (·.id = id) = none := by
          rw [List.find?_eq_none]
          intro rep hr heq
          exact hd (mem_map.2 ⟨rep, hr, of_decide_eq_true heq⟩)
        simp [Replication.chan, List.find?_append, hn]
      simp [payloads, hch]
    · have hid : id ∈ f.rm.ids := by simpa [Replication.ids, heq] using hid
      have hch : Replication.chan { f.rm with replicas := f.rm.replicas ++ [⟨id', []⟩] } id = f.rm.chan id := by
        simp [Replication.chan, List.find?_append, Ne.symm heq]
      rw [hch]
      simpa [payloads, heq] using h.feed hid
  | begin args order =>
    simp only [Feed.step] at hstep
    split_ifs at hstep with hro hp
    · cases hstep
      exact h
    · cases hstep
      refine ⟨fun c hc id' hd => ?_, h.feed⟩
      rcases mem_append.1 hc with hc | hc
      · exact h.calls c hc id' hd
      · obtain rfl := mem_singleton.1 hc
        exact hp.mem_iff.1 hd
  | send i =>
    simp only [Feed.step] at hstep
    split at hstep
    · rename_i p id' rest hcl
      cases hstep
      have hm := h.calls _ (mem_of_getElem? hcl)
      refine ⟨fun c hc id'' hi => ?_, fun hid => ?_⟩
      · rw [Replication.ids_mapChan]
        split_ifs at hc
        · exact h.calls c (mem_of_mem_eraseIdx hc) id'' hi
        · rcases mem_or_eq_of_mem_set hc with hc | rfl
          · exact h.calls c hc id'' hi
          · exact hm id'' (mem_cons_of_mem _ hi)
      · have hid : id ∈ f.rm.ids := by simpa using hid
        have hf := h.feed hid
        change f.payloads id ++ (f.rm.mapChan id' (Replication.offer p)).chan id =
          Function.update f.offered id' (f.offered id' ++ [p]) id
        rw [Replication.chan_mapChan hid]
        by_cases heq : id = id'
        · subst heq
          rw [if_pos rfl, Replication.offer, if_pos (hfi i p rest rfl hcl), Function.update_self, ← hf,
            append_assoc]
        · rw [if_neg heq, Function.update_of_ne heq, hf]
    · cases hstep
  | write id' =>
    simp only [Feed.step] at hstep
    split at hstep
    · rename_i p ps hch
      cases hstep
      have his : (f.rm.mapChan id' List.tail).ids = f.rm.ids := Replication.ids_mapChan id' List.tail
      refine ⟨fun c hc id'' hi => ?_, fun hid => ?_⟩
      · exact his.symm ▸ h.calls c hc id'' hi
      · have hid : id ∈ f.rm.ids := his ▸ hid
        rw [payloads_wrote]
        change f.payloads id ++ _ ++ (f.rm.mapChan id' List.tail).chan id = f.offered id
        rw [Replication.chan_mapChan hid, ← h.feed hid]
        by_cases heq : id = id'
        · subst heq
          simp [hch]
        · simp [heq]
    · cases hstep
  | heartbeat id' =>
    simp only [Feed.step, ite_none_right_eq_some, Option.some.injEq] at hstep
    obtain ⟨-, rfl⟩ := hstep
    refine ⟨h.calls, fun hid => ?_⟩
    change (f.wrote id' .ping).payloads id ++ f.rm.chan id = f.offered id
    rw [payloads_wrote]
    simpa using h.feed hid
  | close id' =>
    simp only [Feed.step, ite_none_right_eq_some, Option.some.injEq] at hstep
    obtain ⟨hca, rfl⟩ := hstep
    refine ⟨fun c hc => by simp [hca] at hc, fun hid => ?_⟩
    have hm : id ∈ f.rm.ids ∧ id ≠ id' := by
      obtain ⟨rep, hr, rfl⟩ := mem_map.1 hid
      obtain ⟨hr, hne⟩ := mem_filter.1 hr
      exact ⟨mem_map_of_mem hr, of_decide_eq_true hne⟩
    have hch : Replication.chan { f.rm with replicas := f.rm.replicas.filter (·.id ≠ id') } id = f.rm.chan id := by
      unfold Replication.chan
      rw [List.find?_filter]
      congr 3
      funext rep
      by_cases hr : rep.id = id
      · simp [hr, hm.2]
      · simp [hr]
    rw [hch]
    exact h.feed hm.1
  | connectToMaster host port =>
    simp only [Feed.step, ite_none_right_eq_some, Option.some.injEq] at hstep
    obtain ⟨-, rfl⟩ := hstep
    exact ⟨h.calls, h.feed⟩
  | promoteToMaster =>
    simp only [Feed.step, ite_none_right_eq_some, Option.some.injEq] at hstep
    obtain ⟨-, rfl⟩ := hstep
    unfold Replication.promoteToMaster
    split <;> exact ⟨h.calls, h.feed⟩

end Feed

def Feed.start (rm : Replication) : Feed := { rm := { rm with replicas := [] } }

/-- As long as the replica's channel is not full when a payload comes for it, the payloads written to it are a
prefix of those that came, and the rest waits in the channel. -/
theorem stream_contiguous {rm : Replication} {id : Bytes} {evs : List FeedEvent} {f : Feed}
    (hfi : Machine.Along Feed.step (Feed.Fits id) evs (.start rm)) (hr : Machine.run Feed.step evs (.start rm) = some f)
    (hid : id ∈ f.rm.ids) : f.payloads id <+: f.offered id ∧ f.offered id = f.payloads id ++ f.rm.chan id := by
  have hs : (Feed.start rm).NoGap id := ⟨fun c hc => absurd hc not_mem_nil, fun hid => absurd hid not_mem_nil⟩
  have hf := (hfi.run (fun hP hi hstep => hi.step hP hstep) hs hr).feed hid
  exact ⟨⟨_, hf⟩, hf.symm⟩

/-! ### One replica -/

def loneFeed (chan : List Bytes) (offset : Int) (written : List FeedItem) (offered : List Bytes) : Feed where
  rm := { masterOffset := offset, replicas := [⟨"replica_1", chan⟩] }
  written := Function.update (fun _ => []) "replica_1" written
  offered := Function.update (fun _ => []) "replica_1" offered

def broadcastTo (args : Command) : List FeedEvent := [.begin args ["replica_1"], .send 0]

section

variable {chan offered : List Bytes} {offset : Int} {written : List FeedItem}

theorem run_broadcastTo (args : Command) :
    Machine.run Feed.step (broadcastTo args) (loneFeed chan offset written offered) =
      some (loneFeed (Replication.offer (serializeCommand args) chan) (offset + (serializeCommand args).length) written
        (offered ++ [serializeCommand args])) := by
  simp [broadcastTo, Machine.run, Feed.step, loneFeed, Replication.ids, Replication.mapChan]

theorem run_fill (chan : List Bytes) (offset : Int) (written : List FeedItem) (offered : List Bytes) (args : Command) (n : Nat)
    (h : chan.length + n ≤ cmdChanCap) : ∃ offset',
    Machine.run Feed.step (List.replicate n (broadcastTo args)).flatten (loneFeed chan offset written offered) =
      some (loneFeed (chan ++ List.replicate n (serializeCommand args)) offset' written
        (offered ++ List.replicate n (serializeCommand args))) := by
  induction n generalizing chan offset offered with
  | zero => exact ⟨offset, by simp [Machine.run]⟩
  | succ n ih =>
    have ho : Replication.offer (serializeCommand args) chan = chan ++ [serializeCommand args] :=
      if_pos (by omega)
    obtain ⟨offset', hr⟩ := ih (chan ++ [serializeCommand args]) (offset + (serializeCommand args).length)
      (offered ++ [serializeCommand args]) (by simp only [length_append, length_singleton]; omega)
    refine ⟨offset', ?_⟩
    rw [replicate_succ, flatten_cons, Machine.run_append, run_broadcastTo, ho, bind_some, hr]
    simp [replicate_succ]

theorem run_drain : Machine.run Feed.step (List.replicate chan.length (.write "replica_1")) (loneFeed chan offset written offered) =
    some (loneFeed [] offset (written ++ chan.map .payload) offered) := by
  induction chan generalizing written with
  | nil => simp [Machine.run]
  | cons p chan ih =>
    have hw : Feed.step (.write "replica_1") (loneFeed (p :: chan) offset written offered) =
        some (loneFeed chan offset (written ++ [.payload p]) offered) := by
      simp [Feed.step, Feed.wrote, loneFeed, Replication.chan, Replication.mapChan]
    rw [length_cons, replicate_succ, Machine.run, hw, bind_some, ih]
    simp

end

theorem start_register :
    Feed.step (.register "replica_1") (.start {}) = some (loneFeed [] 0 [] []) := by
  simp [Feed.step, Feed.start, loneFeed, Replication.ids]

def shortRun : List FeedEvent :=
  [.register "replica_1", .begin ["SET", "k", "v"] ["replica_1"], .send 0, .write "replica_1"]

theorem stream_contiguous_one : ∃ f, Machine.run Feed.step shortRun (.start {}) = some f ∧
    f.payloads "replica_1" = [serializeCommand ["SET", "k", "v"]] ∧ f.payloads "replica_1" <+: f.offered "replica_1" := by
  obtain ⟨f, hr⟩ : ∃ f, Machine.run Feed.step shortRun (.start {}) = some f := ⟨_, rfl⟩
  refine ⟨f, hr, ?_, (stream_contiguous ?_ hr ?_).1⟩
  · cases hr
    decide
  · refine ⟨nofun, fun f₁ h₁ => ⟨nofun, fun f₂ h₂ => ⟨fun i p rest _ _ => ?_, fun f₃ _ => ⟨nofun, fun _ _ => trivial⟩⟩⟩⟩
    cases h₁
    cases h₂
    decide
  · cases hr
    decide

/-- The channel is full when the second command comes: it is lost, and the third one is delivered. -/
theorem stream_gap : ∃ evs f, Machine.run Feed.step evs (.start {}) = some f ∧ lit "replica_1" ∈ f.rm.ids ∧
    ¬ f.payloads "replica_1" <+: f.offered "replica_1" := by
  obtain ⟨n, hn⟩ : ∃ n, cmdChanCap = n + 1 := ⟨999, rfl⟩
  generalize hp : serializeCommand ["SET", "k", "1"] = p
  generalize hq : serializeCommand ["SET", "k", "2"] = q
  generalize hr : serializeCommand ["SET", "k", "3"] = r
  have hqr : q ≠ r := by
    rw [← hq, ← hr]
    decide
  have hl : Replication.offer q (List.replicate (n + 1) p) = List.replicate (n + 1) p := if_neg (by simp [hn])
  have hro : Replication.offer r (List.replicate n p) = List.replicate n p ++ [r] := if_pos (by simp [hn])
  obtain ⟨offset, hf⟩ := run_fill [] 0 [] [] ["SET", "k", "1"] (n + 1)
    (by simp [hn])
  have hw : ∀ {offset written offered}, Feed.step (.write "replica_1")
      (loneFeed (List.replicate (n + 1) p) offset written offered) =
        some (loneFeed (List.replicate n p) offset (written ++ [.payload p]) offered) := by
    intro offset written offered
    simp [Feed.step, Feed.wrote, loneFeed, Replication.chan, Replication.mapChan, replicate_succ]
  have hru : ∃ offset', Machine.run Feed.step (.register "replica_1" ::
      ((List.replicate (n + 1) (broadcastTo ["SET", "k", "1"])).flatten ++ (broadcastTo ["SET", "k", "2"] ++
        (.write "replica_1" :: (broadcastTo ["SET", "k", "3"] ++
          List.replicate (List.replicate n p ++ [r]).length (.write "replica_1")))))) (.start {}) =
      some (loneFeed [] offset' ([.payload p] ++ (List.replicate n p ++ [r]).map .payload)
        (List.replicate (n + 1) p ++ [q] ++ [r])) := by
    refine ⟨offset + q.length + r.length, ?_⟩
    rw [Machine.run, start_register, bind_some, Machine.run_append, hf, bind_some, Machine.run_append,
      run_broadcastTo, bind_some, hp, hq, nil_append, hl, Machine.run, hw, bind_some,
      Machine.run_append, run_broadcastTo, bind_some, hr, hro, run_drain]
    rfl
  obtain ⟨offset', hru⟩ := hru
  refine ⟨_, _, hru, mem_singleton.2 rfl, ?_⟩
  have hpa : (loneFeed [] offset' ([.payload p] ++ (List.replicate n p ++ [r]).map .payload)
      (List.replicate (n + 1) p ++ [q] ++ [r])).payloads "replica_1" = List.replicate (n + 1) p ++ [r] := by
    simp [Feed.payloads, loneFeed, replicate_succ]
  have ho : (loneFeed [] offset' ([.payload p] ++ (List.replicate n p ++ [r]).map .payload)
      (List.replicate (n + 1) p ++ [q] ++ [r])).offered "replica_1" = List.replicate (n + 1) p ++ [q, r] := by
    simp [loneFeed]
  rw [hpa, ho, prefix_append_right_inj, cons_prefix_cons]
  exact fun h => hqr h.1.symm

end VortexKV
