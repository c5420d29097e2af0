import VortexKV.Proofs.DataEffects

/-!
# What a data command returns

A data command that is flagged as a write does not reply with an error, and it always returns, but for a pop of
a negative number of elements, which panics, and a read that blocks without a time limit (`orderly_action`).
-/

namespace VortexKV

open KeyedStore Prog

variable {stops : Stop → Prop}

def Value.isError (v : Value) : Bool := v.type = 45

@[simp] theorem isError_ofArray (l : List Value) : (Value.ofArray l).isError = false := rfl

@[simp] theorem isError_bulkOrNil (x : Option Bytes) : (bulkOrNil x).isError = false := by cases x <;> rfl

/-- A write does not reply with an error, and only the given stops happen. -/
def Outcome.Orderly (stops : Stop → Prop) : Outcome → Prop
  | .ok (v, w) => w = true → v.isError = false
  | .error s => stops s

abbrev Orderly (stops : Stop → Prop) : KsProg Outcome → Prop := Prog.Returns (Outcome.Orderly stops)

theorem orderly_reply (v : Value) : Orderly stops (pure (reply v)) := nofun

theorem orderly_fails (msg : Bytes) : Orderly stops (pure (fails msg)) := nofun

theorem orderly_wrongArgs (cmd : Bytes) : Orderly stops (pure (wrongArgs cmd)) := nofun

theorem orderly_wrote {v : Value} (h : v.isError = false) : Orderly stops (pure (wrote v)) := fun _ => h

/-! ### The commands -/

def popsNegative : List Bytes → Bool
  | _ :: n :: _ => (parseInt64 n).any (· < 0)
  | _ => false

def blocksForever (rt : Runtime) (group : Bool) (args : List Bytes) : Bool :=
  (readOptions rt group args (-1) (-1) false).any (·.2.1 = 0)

def DataCmd.Stops (rt : Runtime) (args : List Bytes) : DataCmd → Stop → Prop
  | lpop, .panic | rpop, .panic => popsNegative args = true
  | xread, .hang => blocksForever rt false args = true
  | xreadgroup, .hang => blocksForever rt true (args.drop 3) = true
  | _, _ => False

theorem orderly_cmdPop {name : Bytes}
    {pop : Int → List Bytes → Except Stop (Option (List Bytes) × List Bytes)} {args : List Bytes}
    (hpo : ∀ count l s, pop count l = .error s → s = .panic ∧ count < 0)
    (hs : popsNegative args = true → stops .panic) : Orderly stops (cmdPop name pop args) := by
  rcases args with _ | ⟨key, opts⟩
  · exact orderly_wrongArgs _
  refine returns_withValue (orderly_reply _) fun l => ?_
  split
  · exact orderly_fails _
  rename_i count hc
  split
  · rename_i s hp
    obtain ⟨rfl, hne⟩ := hpo count l s hp
    refine hs ?_
    rcases opts with _ | ⟨n, opts⟩
    · cases hc
      omega
    · have hn : parseInt64 n = some count := hc
      simp [popsNegative, hn, hne]
  · exact orderly_reply _
  · refine returns_op (I := Ks) fun _ => orderly_wrote ?_
    split <;> simp [bulks]

theorem lPop_error {count : Int} {l : List Bytes} {s : Stop} (h : GoList.lPop count l = .error s) :
    s = .panic ∧ count < 0 := by
  simp only [GoList.lPop] at h
  split_ifs at h with _ hn
  cases h
  exact ⟨rfl, by omega⟩

theorem rPop_error {count : Int} {l : List Bytes} {s : Stop} (h : GoList.rPop count l = .error s) :
    s = .panic ∧ count < 0 := by
  simp only [GoList.rPop] at h
  split_ifs at h with _ hn
  cases h
  exact ⟨rfl, by omega⟩

theorem orderly_readReply {block : Int} (hs : block = 0 → stops .hang) (vs : List Value) :
    Orderly stops (pure (readReply block vs)) := by
  unfold readReply
  split_ifs with _ hb
  · exact orderly_reply _
  · exact hs hb
  · exact orderly_reply _

theorem orderly_handleXRead (rt : Runtime) (args : List Bytes) :
    Orderly (DataCmd.xread.Stops rt args) (handleXRead rt args) := by
  unfold handleXRead
  rcases ho : readOptions rt false args (-1) (-1) false with _ | ⟨count, block, noAck, rest⟩
  · exact orderly_fails _
  dsimp only
  split
  · exact orderly_fails _
  · refine (returns_true _).bind fun pairs _ => (returns_true _).bind fun vs _ => ?_
    exact orderly_readReply (fun hb => by simp [DataCmd.Stops, blocksForever, ho, hb]) vs

theorem orderly_handleXReadGroup (rt : Runtime) (r : Readings) (args : List Bytes) :
    Orderly (DataCmd.xreadgroup.Stops rt args) (handleXReadGroup rt r args) := by
  unfold handleXReadGroup
  split
  · rename_i g group consumer opts
    split
    · exact orderly_fails _
    rcases ho : readOptions rt true opts (-1) (-1) false with _ | ⟨count, block, noAck, rest⟩
    · exact orderly_fails _
    dsimp only
    split
    · exact orderly_fails _
    refine (returns_true _).bind fun vs _ => ?_
    rcases vs with err | vs
    · exact orderly_fails _
    · exact orderly_readReply (fun hb => by simp [DataCmd.Stops, blocksForever, ho, hb]) vs
  · exact orderly_fails _

theorem orderly_setPairs (args : List Bytes) : Orderly stops (setPairs args) := by
  induction args using setPairs.induct with
  | case1 k v rest ih => exact returns_op (I := Ks) fun _ => ih
  | case2 args ha =>
    unfold setPairs
    split
    · exact absurd rfl (ha _ _ _)
    · exact orderly_wrote rfl

theorem orderly_handleXPending (rt : Runtime) (r : Readings) (args : List Bytes) :
    Orderly stops (handleXPending rt r args) := by
  unfold handleXPending
  split
  · refine returns_withValue (orderly_fails _) fun s => ?_
    have hf : ∀ (x : Option ConsumerGroup) (f : ConsumerGroup → Value),
        Orderly stops (pure (x.elim (fails errGroupNotFound) fun g => reply (f g))) := by
      rintro (_ | g) f
      · exact orderly_fails _
      · exact orderly_reply _
    repeat' first
      | exact orderly_fails _
      | exact hf _ _
      | split
  · exact orderly_wrongArgs _

theorem orderly_handleXGroup (rt : Runtime) (args : List Bytes) :
    Orderly stops (handleXGroup rt args) := by
  have hc : ∀ key group id s, Orderly stops (createGroupIn key group id s) := by
    intro key group id s
    unfold createGroupIn
    split
    · exact orderly_fails _
    · exact returns_op (I := Ks) fun _ => orderly_wrote rfl
  unfold handleXGroup xgroupCreate xgroupDestroy xgroupSetID xgroupDelConsumer
  repeat' first
    | with_reducible exact orderly_fails _
    | with_reducible exact orderly_reply _
    | with_reducible exact orderly_wrongArgs _
    | with_reducible exact orderly_wrote rfl
    | with_reducible exact hc _ _ _ _
    | with_reducible refine returns_withValue ?_ ?_
    | with_reducible intro _
    | dsimp only
    | refine returns_op (I := Ks) ?_
    | split

theorem orderly_action (rt : Runtime) (r : Readings) (args : List Bytes) (c : DataCmd) (now : Int) (ks : Keyspace) :
    ((c.action rt r args).run now ks).1.Orderly (c.Stops rt args) := by
  cases c
  case del =>
    simp only [DataCmd.action]
    split
    · rintro ⟨⟩
    · exact fun _ => rfl
  case keys => rintro ⟨⟩
  case dbsize => rintro ⟨⟩
  case flushdb => exact fun _ => rfl
  case flushall => exact fun _ => rfl
  all_goals refine Prog.Returns.run (S := ksStep now) (Q := Outcome.Orderly _) ?_ ks
  case lpop => exact orderly_cmdPop (fun _ _ _ => lPop_error) fun h => h
  case rpop => exact orderly_cmdPop (fun _ _ _ => rPop_error) fun h => h
  case xread => exact orderly_handleXRead rt args
  case xreadgroup => exact orderly_handleXReadGroup rt r args
  case xgroup => exact orderly_handleXGroup rt args
  case xpending => exact orderly_handleXPending rt r args
  case mset =>
    unfold cmdMSet
    split
    · exact orderly_wrongArgs _
    · exact orderly_setPairs args
  case mget =>
    unfold cmdMGet
    split
    · exact orderly_wrongArgs _
    · exact (returns_true _).bind fun _ _ => orderly_reply _
  case «exists» =>
    unfold cmdExists
    split
    · exact orderly_wrongArgs _
    · exact (returns_true _).bind fun _ _ => orderly_reply _
  case zadd =>
    unfold handleZAdd
    split
    · split
      · exact orderly_wrongArgs _
      · refine returns_withNewValue (orderly_fails _) fun z => returns_op (I := Ks) fun _ => ?_
        split
        · exact orderly_wrote rfl
        · exact orderly_fails _
    · exact orderly_wrongArgs _
  all_goals
    first
      | unfold handleSet | unfold cmdGet | unfold cmdType | unfold handleIncrBy | unfold cmdIncrByArg handleIncrBy
      | unfold cmdAppend | unfold cmdStrlen | unfold cmdSetNX | unfold cmdSetExpiring | unfold cmdExpire | unfold cmdTTL
      | unfold cmdPersist | unfold handleHSet | unfold handleHMSet | unfold cmdHGet | unfold cmdHMGet | unfold cmdHDel
      | unfold cmdHExists | unfold cmdHLen readHash | unfold cmdHKeys readHash | unfold cmdHVals readHash
      | unfold cmdHGetAll readHash | unfold cmdHIncrBy | unfold cmdPush | unfold cmdLRange
      | unfold cmdLLen | unfold cmdLIndex | unfold cmdSAdd | unfold cmdSRem | unfold cmdSMembers | unfold cmdSIsMember
      | unfold cmdSCard | unfold cmdZScore | unfold cmdZRank | unfold handleZRange | unfold cmdZRem | unfold cmdZCard
      | unfold handleXAdd xaddTo | unfold handleXRange | unfold cmdXLen | unfold handleXDel | unfold handleXTrim
      | unfold handleXAck | unfold handleXInfo | unfold handleVAdd vaddTo
      | unfold handleVDel | unfold handleVInfo | unfold handleVSearch | unfold handleVSim
    repeat' first
      | with_reducible exact orderly_reply _
      | with_reducible exact orderly_fails _
      | with_reducible exact orderly_wrongArgs _
      | with_reducible exact orderly_wrote rfl
      | with_reducible refine returns_withValue ?_ ?_
      | with_reducible refine returns_withNewValue (orderly_fails _) ?_
      | with_reducible intro _
      | dsimp only
      | split
      | refine returns_op (I := Ks) ?_

end VortexKV
