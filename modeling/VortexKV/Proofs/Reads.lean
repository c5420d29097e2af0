import VortexKV.Proofs.DataEffects

/-!
# The commands that only read

A read (`DataCmd.isRead`) changes no entry and is not flagged as a write (`read_action`).
-/

namespace VortexKV

open KeyedStore Prog

def Outcome.Unflagged (o : Outcome) : Prop := ∀ v w, o = .ok (v, w) → w = false

/-- The program reads keys of `P`, changes nothing and does not say that it has. -/
def Looks (P : Bytes → Prop) (p : KsProg Outcome) : Prop := Reads P p ∧ p.Returns Outcome.Unflagged

section

variable {P : Bytes → Prop} {k : Bytes} {α : Type}

theorem unflagged_reply (v : Value) : (reply v).Unflagged := by
  intro v' w h
  cases h
  rfl

theorem looks_reply (v : Value) : Looks P (pure (reply v)) := ⟨reads_pure _, unflagged_reply v⟩

theorem looks_fails (msg : Bytes) : Looks P (pure (fails msg)) := ⟨reads_pure _, unflagged_reply _⟩

theorem looks_wrongArgs (cmd : Bytes) : Looks P (pure (wrongArgs cmd)) := ⟨reads_pure _, unflagged_reply _⟩

theorem looks_get {f : Option (Datum × Int) → KsProg Outcome} (hk : P k) (hf : ∀ x, Looks P (f x)) :
    Looks P (KsProg.get k >>= f) :=
  ⟨reads_get hk fun x => (hf x).1, returns_op (I := Ks) fun x => (hf x).2⟩

theorem Looks.bind {Q : α → Prop} {p : KsProg α} {f : α → KsProg Outcome} (hp : Reads P p) (hQ : p.Returns Q)
    (hf : ∀ a, Q a → Looks P (f a)) : Looks P (p >>= f) :=
  ⟨hp.bind_returns hQ fun a ha => (hf a ha).1, hQ.bind fun a ha => (hf a ha).2⟩

theorem looks_withValue {as : Datum → Option α} {dflt : Outcome} {f : α → KsProg Outcome} (hk : P k)
    (hd : Looks P (pure dflt)) (hf : ∀ a, Looks P (f a)) : Looks P (withValue as k dflt f) := by
  rw [withValue_eq]
  exact looks_get hk fun _ => forall_elim hd hf _

end

theorem unflagged_readReply (block : Int) (vs : List Value) : (readReply block vs).Unflagged := by
  unfold readReply
  split_ifs
  · exact unflagged_reply _
  · exact nofun
  · exact unflagged_reply _

theorem looks_handleXRead (rt : Runtime) (args : List Bytes) :
    Looks (· ∈ readKeys rt false args) (handleXRead rt args) := by
  refine ⟨reads_handleXRead rt args, ?_⟩
  unfold handleXRead
  rcases readOptions rt false args (-1) (-1) false with _ | ⟨count, block, noAck, rest⟩
  · exact unflagged_reply _
  dsimp only
  rcases streamPairs rest with _ | pairs
  · exact unflagged_reply _
  exact (returns_true _).bind fun _ _ => (returns_true _).bind fun vs _ => unflagged_readReply block vs

theorem looks_handleXInfo (rt : Runtime) (r : Readings) (args : List Bytes) :
    Looks (FirstKey args.tail) (handleXInfo rt r args) := by
  unfold handleXInfo
  split
  · refine looks_withValue firstKey_cons (looks_fails _) fun s => ?_
    dsimp only
    repeat' first
      | exact looks_reply _
      | exact looks_wrongArgs _
      | exact looks_fails _
      | split
  · exact looks_wrongArgs _

theorem looks_handleXPending (rt : Runtime) (r : Readings) (args : List Bytes) :
    Looks (FirstKey args) (handleXPending rt r args) := by
  have hf : ∀ (g : Option ConsumerGroup) (f : ConsumerGroup → Value),
      Looks (FirstKey args) (pure (g.elim (fails errGroupNotFound) fun g => reply (f g))) := by
    intro g f
    cases g with
    | none => exact looks_fails _
    | some g => exact looks_reply _
  unfold handleXPending
  split
  · refine looks_withValue firstKey_cons (looks_fails _) fun s => ?_
    repeat' first
      | exact hf _ _
      | exact looks_fails _
      | split
  · exact looks_wrongArgs _

theorem unflagged_handleXReadGroup (rt : Runtime) (r : Readings) (args : List Bytes) :
    (handleXReadGroup rt r args).Returns Outcome.Unflagged := by
  unfold handleXReadGroup
  split
  · split
    · exact unflagged_reply _
    split
    · exact unflagged_reply _
    split
    · exact unflagged_reply _
    refine (returns_true _).bind fun vs _ => ?_
    rcases vs with err | vs
    · exact unflagged_reply _
    · exact unflagged_readReply _ vs
  · exact unflagged_reply _

def DataCmd.isRead : DataCmd → Bool
  | get | mget | «exists» | type | strlen | ttl | pttl | keys | dbsize | hget | hmget | hexists | hlen | hkeys | hvals
  | hgetall | lrange | llen | lindex | smembers | sismember | scard | zscore | zrank | zrange | zrevrange | zcard
  | xrange | xrevrange | xlen | xread | xpending | xinfo | vsearch | vsim | vinfo => true
  | _ => false

theorem looks_action (rt : Runtime) (r : Readings) (args : List Bytes) {c : DataCmd} (hc : c.isRead = true)
    (hk : c ≠ .keys) (hs : c ≠ .dbsize) : ∃ p, c.action rt r args = .prog p ∧ Looks (c.Uses rt args) p := by
  cases c
  case keys => exact absurd rfl hk
  case dbsize => exact absurd rfl hs
  all_goals first
    | cases hc; done
    | refine ⟨_, rfl, ?_⟩
  case mget =>
    unfold cmdMGet
    split
    · exact looks_wrongArgs _
    · exact .bind (reads_getStrings fun _ h => h) (returns_true _) fun _ _ => looks_reply _
  case «exists» =>
    unfold cmdExists
    split
    · exact looks_wrongArgs _
    · exact .bind (reads_countExisting fun _ h => h) (returns_true _) fun _ _ => looks_reply _
  case xread => exact looks_handleXRead rt args
  case xinfo => exact looks_handleXInfo rt r args
  case xpending => exact looks_handleXPending rt r args
  all_goals
    change Looks (FirstKey args) _
    first
      | unfold cmdGet | unfold cmdType | unfold cmdStrlen | unfold cmdTTL | unfold cmdHGet | unfold cmdHMGet
      | unfold cmdHExists | unfold cmdHLen readHash | unfold cmdHKeys readHash | unfold cmdHVals readHash
      | unfold cmdHGetAll readHash | unfold cmdLRange | unfold cmdLLen | unfold cmdLIndex | unfold cmdSMembers
      | unfold cmdSIsMember | unfold cmdSCard | unfold cmdZScore | unfold cmdZRank | unfold handleZRange | unfold cmdZCard
      | unfold handleXRange | unfold cmdXLen | unfold handleVInfo | unfold handleVSearch | unfold handleVSim
    repeat' first
      | with_reducible exact looks_reply _
      | with_reducible exact looks_fails _
      | with_reducible exact looks_wrongArgs _
      | with_reducible refine looks_withValue ?_ ?_ ?_
      | with_reducible refine looks_get ?_ ?_
      | with_reducible intro _
      | with_reducible exact firstKey_cons
      | split

theorem read_action (rt : Runtime) (r : Readings) (args : List Bytes) {c : DataCmd} (hc : c.isRead = true) (now : Int)
    (ks : Keyspace) :
    (∀ k, Keyspace.view now ((c.action rt r args).run now ks).2 k = ks.view now k) ∧
      ((c.action rt r args).run now ks).1.Unflagged := by
  by_cases hk : c = .keys
  · subst hk
    exact ⟨fun _ => rfl, unflagged_reply _⟩
  by_cases hs : c = .dbsize
  · subst hs
    exact ⟨fun _ => rfl, unflagged_reply _⟩
  obtain ⟨p, hp, hl⟩ := looks_action rt r args hc hk hs
  rw [hp]
  exact ⟨hl.1.view now ks, hl.2.run (S := ksStep now) ks⟩

end VortexKV
