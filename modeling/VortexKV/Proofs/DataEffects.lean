import VortexKV.Engine

/-!
# What a data command changes

A command only touches the entries of its keys (`DataCmd.footprint`), and if it changes one, as a reader sees it
(`Keyspace.view`), its `isWrite` flag is set. `ZADD`, `XADD` and `XREADGROUP` may break the second rule (`Unlogged`).
-/

namespace VortexKV

open KeyedStore List Prog

variable {now : Int} {ks : Keyspace} {k : Bytes} {P : Bytes → Prop} {p q : KsProg Outcome} {args : List Bytes}

/-- The value and expiry time of a cell at a time, if it is live. -/
def liveCell (now : Int) (c : Option Entry) : Option (Datum × Int) :=
  (dropExpired now c).1.map fun e => (e.value, e.expiresAt)

def Keyspace.view (now : Int) (ks : Keyspace) (k : Bytes) : Option (Datum × Int) :=
  liveCell now (ks.entries.lookup k)

def KsOp.quiet : (o : KsOp) → o.Ret → Bool
  | get, _ => true
  | set .., _ => false
  | setNX _, done => !(done : Bool)
  | incrBy _, x => match (x : Except Bytes Int) with
    | .ok _ => false
    | .error _ => true
  | append _, x => match (x : Except Bytes Int) with
    | .ok _ => false
    | .error _ => true
  | getOrCreate new, d => (fun d : Datum => decide (d ≠ new)) d
  | expire _, done => !(done : Bool)
  | persist, done => !(done : Bool)
  | put _, _ => false

def Outcome.Flagged (o : Outcome) : Prop := ∀ v w, o = .ok (v, w) → w = true

/-- The program only touches keys of `P` and its flag owns up to its changes. -/
abbrev Honest (P : Bytes → Prop) : Bool → KsProg Outcome → Prop :=
  Prog.Accounts P KsOp.quiet Outcome.Flagged

theorem dropExpired_dropExpired (now : Int) (c : Option Entry) :
    (dropExpired now (dropExpired now c).1).1 = (dropExpired now c).1 := by
  cases c with
  | none => rfl
  | some e => by_cases h : e.isExpired now <;> simp [dropExpired, h]

theorem liveCell_later {later : Int} (h : now ≤ later) (c : Option Entry) :
    liveCell later c = (liveCell now c).filter fun x => !(x.2 > 0 && x.2 ≤ later) := by
  unfold liveCell dropExpired
  cases c with
  | none => rfl
  | some en =>
    dsimp only [Entry.isExpired]
    by_cases hp : en.expiresAt > 0
    · by_cases hn : en.expiresAt ≤ now
      · have hl : en.expiresAt ≤ later := hn.trans h
        simp [hp, hn, hl]
      · by_cases hl : en.expiresAt ≤ later <;> simp [hp, hn, hl, Option.filter]
    · simp [hp, Option.filter]

theorem view_later {later : Int} (h : now ≤ later) {ks' : Keyspace}
    (hk : ks'.view now k = ks.view now k) : ks'.view later k = ks.view later k := by
  unfold Keyspace.view at *
  rw [liveCell_later h, hk, ← liveCell_later h]

theorem quiet_view (now : Int) (o : KsOp) (c : Option Entry) (h : o.quiet (ksStep now o c).1 = true) :
    liveCell now (ksStep now o c).2.1 = liveCell now c := by
  unfold liveCell
  have hd := dropExpired_dropExpired now c
  have hl : ∀ {e d}, dropExpired now c = (some e, d) → e.isExpired now = false := by
    intro e d he
    obtain ⟨rfl, -⟩ := dropExpired_some he
    by_contra hex
    simp only [dropExpired, Bool.not_eq_false] at he hex
    simp [hex] at he
  cases o with
  | set v exp => cases h
  | put v => cases h
  | get =>
    simp only [ksStep]
    rcases hc : dropExpired now c with ⟨_ | e, d⟩ <;> simp_all
  | setNX v =>
    simp only [ksStep] at h ⊢
    rcases hc : dropExpired now c with ⟨_ | e, d⟩ <;> simp_all [KsOp.quiet]
  | incrBy delta =>
    simp only [ksStep] at h ⊢
    rcases hc : dropExpired now c with ⟨_ | e, d⟩
    · simp [hc, KsOp.quiet] at h
    · simp only [hc] at h hd ⊢
      split at h
      · split at h
        · simp_all
        · simp [KsOp.quiet] at h
      · simp_all
  | append val =>
    simp only [ksStep] at h ⊢
    rcases hc : dropExpired now c with ⟨_ | e, d⟩
    · simp [hc, KsOp.quiet] at h
    · simp only [hc] at h hd ⊢
      split at h
      · simp [KsOp.quiet] at h
      · simp_all
  | getOrCreate new =>
    simp only [ksStep] at h ⊢
    rcases hc : dropExpired now c with ⟨_ | e, d⟩
    · simp [hc, KsOp.quiet] at h
    · have hex : Entry.isExpired { e with lastAccessedAt := now } now = false :=
        (hl hc : e.isExpired now = false)
      simp [dropExpired, hex]
  | expire ttl =>
    simp only [ksStep] at h ⊢
    rcases hc : dropExpired now c with ⟨_ | e, d⟩ <;> simp_all [KsOp.quiet]
  | persist =>
    simp only [ksStep] at h ⊢
    rcases hc : dropExpired now c with ⟨_ | e, d⟩
    · simp_all
    · simp only [hc] at h hd ⊢
      split at h
      · simp_all
      · simp [KsOp.quiet] at h

theorem Honest.view_ne (h : Honest P false p) (now : Int) (ks : Keyspace) (hk : Keyspace.view now (p.run (ksStep now) ks).2 k ≠ ks.view now k) :
    P k ∧ (p.run (ksStep now) ks).1.Flagged :=
  (run_accounts (V := liveCell now) (quiet_view now) h ks).2 k hk

/-- The program reads keys of `P` and changes nothing. -/
abbrev Reads {α : Type} (P : Bytes → Prop) : KsProg α → Prop := Prog.Accounts P KsOp.quiet (fun _ => False) false

/-! ### Honest steps -/

section

variable {P : Bytes → Prop} {b : Bool} {k : Bytes} {α : Type}

theorem honest_reply (v : Value) : Honest P false (pure (reply v)) := nofun

theorem honest_fails (msg : Bytes) : Honest P false (pure (fails msg)) := nofun

theorem honest_wrongArgs (cmd : Bytes) : Honest P false (pure (wrongArgs cmd)) := nofun

theorem honest_stop (s : Stop) : Honest P b (pure (.error s)) := fun _ _ _ h => nomatch h

theorem honest_wrote (v : Value) : Honest P b (pure (wrote v)) := by
  intro _ v' w h
  cases h
  rfl

theorem honest_get {f : Option (Datum × Int) → KsProg Outcome} (hk : P k) (hf : ∀ x, Honest P b (f x)) :
    Honest P b (KsProg.get k >>= f) :=
  accounts_op (I := Ks) hk .get fun x => show Honest P (b || false) (f x) from (Bool.or_false b).symm ▸ hf x

theorem honest_set {f : Unit → KsProg Outcome} (hk : P k) (v : Datum) (exp : Int) (hf : Honest P true (f ())) :
    Honest P b (KsProg.set k v exp >>= f) :=
  accounts_op (I := Ks) hk (.set v exp) fun _ =>
    show Honest P (b || true) (f ()) from (Bool.or_true b).symm ▸ hf

theorem honest_put {f : Unit → KsProg Outcome} (hk : P k) (v : Datum) (hf : Honest P true (f ())) :
    Honest P b (KsProg.put k v >>= f) :=
  accounts_op (I := Ks) hk (.put v) fun _ =>
    show Honest P (b || true) (f ()) from (Bool.or_true b).symm ▸ hf

theorem honest_flag (hp : Honest P true p) (hq : Honest P b q) (done : Bool) : Honest P (b || !!done) (if done then p else q) := by
  cases done with
  | true => simpa using hp
  | false => simpa using hq

theorem honest_setNX (hk : P k) (v : Datum) (hp : Honest P true p) (hq : Honest P b q) :
    Honest P b (KsProg.setNX k v >>= fun done => if done then p else q) :=
  accounts_op (I := Ks) hk (.setNX v) (honest_flag hp hq)

theorem honest_expire (hk : P k) (ttl : Int) (hp : Honest P true p) (hq : Honest P b q) :
    Honest P b (KsProg.expire k ttl >>= fun done => if done then p else q) :=
  accounts_op (I := Ks) hk (.expire ttl) (honest_flag hp hq)

theorem honest_persist (hk : P k) (hp : Honest P true p) (hq : Honest P b q) :
    Honest P b (KsProg.persist k >>= fun done => if done then p else q) :=
  accounts_op (I := Ks) hk .persist (honest_flag hp hq)

theorem honest_incrBy {f : Except Bytes Int → KsProg Outcome} (hk : P k) (delta : Int)
    (ht : ∀ n, Honest P true (f (.ok n))) (hf : ∀ e, Honest P b (f (.error e))) :
    Honest P b (KsProg.incrBy k delta >>= f) :=
  accounts_op (I := Ks) hk (.incrBy delta) fun
    | .ok n => show Honest P (b || true) (f (.ok n)) from (Bool.or_true b).symm ▸ ht n
    | .error e => show Honest P (b || false) (f (.error e)) from (Bool.or_false b).symm ▸ hf e

theorem honest_append {f : Except Bytes Int → KsProg Outcome} (hk : P k) (val : Bytes)
    (ht : ∀ n, Honest P true (f (.ok n))) (hf : ∀ e, Honest P b (f (.error e))) :
    Honest P b (KsProg.append k val >>= f) :=
  accounts_op (I := Ks) hk (.append val) fun
    | .ok n => show Honest P (b || true) (f (.ok n)) from (Bool.or_true b).symm ▸ ht n
    | .error e => show Honest P (b || false) (f (.error e)) from (Bool.or_false b).symm ▸ hf e

theorem reads_get {f : Option (Datum × Int) → KsProg α} (hk : P k) (hf : ∀ x, Reads P (f x)) :
    Reads P (KsProg.get k >>= f) := accounts_op (I := Ks) hk .get hf

theorem reads_pure (a : α) : Reads P (pure a) := nofun

theorem Reads.bind_returns {β : Type} {Q : α → Prop} {p : KsProg α} {f : α → KsProg β} (hp : Reads P p)
    (hQ : p.Returns Q) (hf : ∀ a, Q a → Reads P (f a)) : Reads P (p >>= f) := Prog.Accounts.bind_quiet hp hQ hf

theorem Reads.bind {β : Type} {p : KsProg α} {f : α → KsProg β} (hp : Reads P p) (hf : ∀ a, Reads P (f a)) :
    Reads P (p >>= f) := hp.bind_returns (returns_true p) fun a _ => hf a

theorem Reads.view {p : KsProg α} (h : Reads P p) (now : Int) (ks : Keyspace) (k : Bytes) :
    Keyspace.view now (p.run (ksStep now) ks).2 k = ks.view now k := by
  by_contra hk
  exact ((run_accounts (V := liveCell now) (quiet_view now) h ks).2 k hk).2

theorem Reads.honest {Q : α → Prop} {p : KsProg α} {f : α → KsProg Outcome} (hp : Reads P p) (hQ : p.Returns Q)
    (hf : ∀ a, Q a → Honest P false (f a)) : Honest P false (p >>= f) := Prog.Accounts.bind_quiet hp hQ hf

theorem withValue_eq (as : Datum → Option α) (dflt : Outcome) (f : α → KsProg Outcome) :
    withValue as k dflt f = KsProg.get k >>= fun x => (x.bind fun x => as x.1).elim (pure dflt) f := by
  unfold withValue
  congr
  funext x
  rcases x with _ | ⟨d, t⟩
  · rfl
  · cases h : as d <;> simp [h]

theorem forall_elim {C : KsProg Outcome → Prop} {q : KsProg Outcome} {f : α → KsProg Outcome} (hq : C q) (hf : ∀ a, C (f a))
    (x : Option α) : C (x.elim q f) := by
  cases x with
  | none => exact hq
  | some a => exact hf a

theorem honest_withValue {as : Datum → Option α} {dflt : Outcome} {f : α → KsProg Outcome} (hk : P k)
    (hd : Honest P b (pure dflt)) (hf : ∀ a, Honest P b (f a)) : Honest P b (withValue as k dflt f) := by
  rw [withValue_eq]
  exact honest_get hk fun _ => forall_elim hd hf _

theorem returns_withValue {Q : Outcome → Prop} {as : Datum → Option α} {dflt : Outcome} {f : α → KsProg Outcome}
    (hd : (pure dflt : KsProg Outcome).Returns Q) (hf : ∀ a, (f a).Returns Q) : (withValue as k dflt f).Returns Q := by
  rw [withValue_eq]
  exact returns_op (I := Ks) fun _ => forall_elim hd hf _

theorem returns_withNewValue {Q : Outcome → Prop} {as : Datum → Option α} {new : Datum} {f : α → KsProg Outcome}
    (hw : (pure (fails wrongType) : KsProg Outcome).Returns Q) (hf : ∀ a, (f a).Returns Q) : (withNewValue as k new f).Returns Q := by
  refine returns_op (I := Ks) (fun d : Datum => ?_)
  cases as d with
  | none => exact hw
  | some a => exact hf a

theorem honest_withNewValue {as : Datum → Option α} {new : Datum} {f : α → KsProg Outcome} {a : α} (hk : P k)
    (hn : as new = some a) (ha : Honest P true (f a)) (hf : ∀ a, Honest P false (f a)) :
    Honest P false (withNewValue as k new f) := by
  refine accounts_op (I := Ks) hk (.getOrCreate new) (fun d : Datum => ?_)
  change Honest P (false || !decide (d ≠ new)) _
  by_cases hd : d = new
  · subst hd
    simpa [hn] using ha
  · simp only [hd, ne_eq, not_false_eq_true, decide_true, Bool.not_true, Bool.or_false]
    cases as d with
    | none => exact honest_fails _
    | some a => exact hf a

end

/-! ### The commands -/

def FirstKey (args : List Bytes) (k : Bytes) : Prop := args.head? = some k

theorem firstKey_cons : FirstKey (k :: args) k := rfl

theorem honest_handleSet (rt : Runtime) (r : Readings) (args : List Bytes) :
    Honest (FirstKey args) false (handleSet rt r args) := by
  unfold handleSet
  split
  · split
    · exact honest_fails _
    · rename_i key val opts _ ttl nx xx _
      have hs : ∀ exp, Honest (FirstKey (key :: val :: opts)) false
          (KsProg.set key (.string val) exp >>= fun _ => pure (wrote ok)) := fun exp =>
        honest_set firstKey_cons _ _ (honest_wrote _)
      dsimp only
      split
      · refine honest_get firstKey_cons fun x => ?_
        split
        · exact honest_reply _
        · exact hs _
      · exact hs _
  · exact honest_wrongArgs _

theorem honest_cmdHIncrBy (args : List Bytes) :
    Honest (FirstKey args) false (cmdHIncrBy args) := by
  unfold cmdHIncrBy
  split
  · split
    · exact honest_fails _
    · refine honest_withNewValue firstKey_cons rfl ?_ fun h => ?_
      · -- a field of a new hash counts from zero, so this cannot fail
        exact honest_put firstKey_cons _ (honest_wrote _)
      · split
        · exact honest_fails _
        · exact honest_put firstKey_cons _ (honest_wrote _)
  · exact honest_wrongArgs _

theorem honest_handleXPending (rt : Runtime) (r : Readings) (args : List Bytes) :
    Honest (FirstKey args) false (handleXPending rt r args) := by
  unfold handleXPending
  split
  · refine honest_withValue firstKey_cons (honest_fails _) fun s => ?_
    repeat' first
      | exact honest_fails _
      | exact (nofun : false = true → _)
      | split
  · exact honest_wrongArgs _

theorem honest_handleVAdd (rt : Runtime) (args : List Bytes) :
    Honest (FirstKey args) false (handleVAdd rt args) := by
  unfold handleVAdd
  split
  · split
    · exact honest_fails _
    · rename_i key id f fs _ vec _
      refine honest_get firstKey_cons fun x => ?_
      split
      · -- a new index has the dimension of the vector
        have ha : (VectorIndex.new vec.length).add id vec = some ⟨_, _⟩ := if_neg fun h => h.2 rfl
        refine honest_set firstKey_cons _ _ ?_
        simp only [vaddTo, ha]
        exact honest_put firstKey_cons _ (honest_wrote _)
      · split
        · exact honest_fails _
        · unfold vaddTo
          split
          · exact honest_fails _
          · exact honest_put firstKey_cons _ (honest_wrote _)
  · exact honest_fails _

/-- The commands on one key, given by the first argument, that own up to their changes. -/
def DataCmd.isPlain : DataCmd → Bool
  | mset | mget | del | «exists» | keys | dbsize | flushdb | flushall | zadd | xadd | xread | xgroup | xreadgroup
  | xinfo => false
  | _ => true

theorem honest_plain (rt : Runtime) (r : Readings) (args : List Bytes) (c : DataCmd) (hc : c.isPlain = true) :
    ∃ p, c.action rt r args = .prog p ∧ Honest (FirstKey args) false p := by
  cases c
  all_goals first
    | cases hc; done
    | refine ⟨_, rfl, ?_⟩
  case set => exact honest_handleSet rt r args
  case hincrby => exact honest_cmdHIncrBy args
  case xpending => exact honest_handleXPending rt r args
  case vadd => exact honest_handleVAdd rt args
  all_goals
    first
      | unfold cmdGet | unfold cmdType | unfold handleIncrBy | unfold cmdIncrByArg handleIncrBy
      | unfold cmdAppend | unfold cmdStrlen | unfold cmdSetNX | unfold cmdSetExpiring | unfold cmdExpire | unfold cmdTTL
      | unfold cmdPersist | unfold handleHSet | unfold handleHMSet | unfold cmdHGet | unfold cmdHMGet | unfold cmdHDel
      | unfold cmdHExists | unfold cmdHLen readHash | unfold cmdHKeys readHash | unfold cmdHVals readHash
      | unfold cmdHGetAll readHash | unfold cmdPush | unfold cmdPop | unfold cmdLRange
      | unfold cmdLLen | unfold cmdLIndex | unfold cmdSAdd | unfold cmdSRem | unfold cmdSMembers | unfold cmdSIsMember
      | unfold cmdSCard | unfold cmdZScore | unfold cmdZRank | unfold handleZRange | unfold cmdZRem | unfold cmdZCard
      | unfold handleXRange | unfold cmdXLen | unfold handleXDel | unfold handleXTrim | unfold handleXAck
      | unfold handleVDel | unfold handleVInfo | unfold handleVSearch | unfold handleVSim
    repeat' first
      | with_reducible exact honest_wrote _
      | with_reducible exact honest_reply _
      | with_reducible exact honest_fails _
      | with_reducible exact honest_wrongArgs _
      | with_reducible exact honest_stop _
      | with_reducible refine honest_withValue ?_ ?_ ?_
      | with_reducible refine honest_get ?_ ?_
      | with_reducible refine honest_put ?_ _ ?_
      | with_reducible refine honest_set ?_ _ _ ?_
      | with_reducible refine honest_setNX ?_ _ ?_ ?_
      | with_reducible refine honest_expire ?_ _ ?_ ?_
      | with_reducible refine honest_persist ?_ ?_ ?_
      | with_reducible refine honest_incrBy ?_ _ ?_ ?_
      | with_reducible refine honest_append ?_ _ ?_ ?_
      | with_reducible refine honest_withNewValue ?_ rfl ?_ ?_
      | with_reducible intro _
      | with_reducible exact firstKey_cons
      | split

theorem honest_setPairs (h : ∀ k ∈ evenPositions args, P k) (b : Bool) :
    Honest P b (setPairs args) := by
  induction args using setPairs.induct generalizing b with
  | case1 k v rest ih =>
    refine honest_set (h k (by simp [evenPositions])) _ _ (ih (fun k' hk' => h k' ?_) true)
    simp [evenPositions, hk']
  | case2 args ha =>
    unfold setPairs
    split
    · exact absurd rfl (ha _ _ _)
    · exact honest_wrote _

theorem honest_cmdMSet (args : List Bytes) : Honest (· ∈ evenPositions args) false (cmdMSet args) := by
  unfold cmdMSet
  split
  · exact honest_wrongArgs _
  · exact honest_setPairs (fun _ h => h) false

theorem reads_getStrings (h : ∀ k ∈ args, P k) :
    Reads P (getStrings args) := by
  induction args with
  | nil => exact reads_pure _
  | cons k ks ih =>
    refine reads_get (h k (by simp)) fun x => ?_
    exact (ih fun k' hk' => h k' (by simp [hk'])).bind fun vs => reads_pure _

theorem reads_countExisting (h : ∀ k ∈ args, P k) :
    Reads P (countExisting args) := by
  induction args with
  | nil => exact reads_pure _
  | cons k ks ih =>
    refine reads_get (h k (by simp)) fun x => ?_
    exact (ih fun k' hk' => h k' (by simp [hk'])).bind fun n => reads_pure _

theorem honest_cmdMGet (args : List Bytes) : Honest (· ∈ args) false (cmdMGet args) := by
  unfold cmdMGet
  split
  · exact honest_wrongArgs _
  · exact (reads_getStrings fun _ h => h).honest (returns_true _) fun _ _ => honest_reply _

theorem honest_cmdExists (args : List Bytes) : Honest (· ∈ args) false (cmdExists args) := by
  unfold cmdExists
  split
  · exact honest_wrongArgs _
  · exact (reads_countExisting fun _ h => h).honest (returns_true _) fun _ _ => honest_reply _

theorem reads_resolveIDs {pairs : List (Bytes × Bytes)} (h : ∀ x ∈ pairs, P x.1) :
    Reads P (resolveIDs pairs) := by
  induction pairs with
  | nil => exact reads_pure _
  | cons x rest ih =>
    obtain ⟨k, id⟩ := x
    have hr := ih fun x hx => h x (by simp [hx])
    simp only [resolveIDs]
    have hid : ∀ id', Reads P (resolveIDs rest >>= fun rest => pure ((k, id') :: rest)) := fun id' =>
      hr.bind fun _ => reads_pure _
    split
    · refine reads_get (h (k, id) (by simp)) fun d => ?_
      split
      · exact hid _
      · exact hid _
    · exact hid id

theorem reads_readStreams (count : Int) {pairs : List (Bytes × Bytes)} (h : ∀ x ∈ pairs, P x.1) :
    Reads P (readStreams count pairs) := by
  induction pairs with
  | nil => exact reads_pure _
  | cons x rest ih =>
    refine reads_get (h x (by simp)) fun d => ?_
    exact (ih fun x' hx' => h x' (by simp [hx'])).bind fun vs => reads_pure _

def readKeys (rt : Runtime) (group : Bool) (args : List Bytes) : List Bytes :=
  match readOptions rt group args (-1) (-1) false with
  | none => []
  | some (_, _, _, rest) => ((streamPairs rest).getD []).map Prod.fst

theorem returns_resolveIDs (pairs : List (Bytes × Bytes)) :
    (resolveIDs pairs).Returns fun ps => ps.map Prod.fst = pairs.map Prod.fst := by
  induction pairs with
  | nil => rfl
  | cons x rest ih =>
    obtain ⟨k, id⟩ := x
    have hid : ∀ id', (resolveIDs rest >>= fun rest => (pure ((k, id') :: rest) : KsProg _)).Returns
        fun ps => ps.map Prod.fst = ((k, id) :: rest).map Prod.fst := fun id' =>
      ih.bind fun ps hps => congrArg (k :: ·) hps
    simp only [resolveIDs]
    split
    · refine returns_op (I := Ks) (fun d : Option (Datum × Int) => ?_)
      split
      · exact hid _
      · exact hid _
    · exact hid id

theorem reads_handleXRead (rt : Runtime) (args : List Bytes) :
    Reads (· ∈ readKeys rt false args) (handleXRead rt args) := by
  unfold handleXRead readKeys
  rcases readOptions rt false args (-1) (-1) false with _ | ⟨count, block, noAck, rest⟩
  · exact reads_pure _
  dsimp only
  rcases streamPairs rest with _ | pairs
  · exact reads_pure _
  have hme : ∀ x ∈ pairs, x.1 ∈ ((some pairs).getD []).map Prod.fst := fun x hx => mem_map_of_mem hx
  refine (reads_resolveIDs hme).bind_returns (returns_resolveIDs pairs) fun pairs' hp => ?_
  have hm : ∀ x ∈ pairs', x.1 ∈ ((some pairs).getD []).map Prod.fst := fun x hx => by
    rw [Option.getD_some, ← hp]
    exact mem_map_of_mem hx
  refine (reads_readStreams _ hm).bind fun vs => ?_
  unfold readReply
  split_ifs <;> exact reads_pure _

theorem honest_createGroupIn {key : Bytes} (hk : P key) (group id : Bytes) (s : Stream) :
    Honest P false (createGroupIn key group id s) := by
  unfold createGroupIn
  split
  · exact honest_fails _
  · exact honest_put hk _ (honest_wrote _)

theorem honest_xgroupCreate (rt : Runtime) (args : List Bytes) :
    Honest (FirstKey args) false (xgroupCreate rt args) := by
  unfold xgroupCreate
  split
  · refine honest_get firstKey_cons fun x => ?_
    split
    · split
      · exact honest_fails _
      · -- a new stream has no groups yet
        refine honest_set firstKey_cons _ _ ?_
        exact honest_put firstKey_cons _ (honest_wrote _)
    · split
      · exact honest_fails _
      · exact honest_createGroupIn firstKey_cons _ _ _
  · exact honest_wrongArgs _

theorem honest_xgroupDestroy (args : List Bytes) : Honest (FirstKey args) false (xgroupDestroy args) := by
  unfold xgroupDestroy
  split
  · refine honest_withValue firstKey_cons (honest_reply _) fun s => ?_
    split
    · exact honest_put firstKey_cons _ (honest_wrote _)
    · exact honest_reply _
  · exact honest_wrongArgs _

theorem honest_xgroupSetID (args : List Bytes) : Honest (FirstKey args) false (xgroupSetID args) := by
  unfold xgroupSetID
  split
  · refine honest_withValue firstKey_cons (honest_fails _) fun s => ?_
    split
    · exact honest_fails _
    · exact honest_put firstKey_cons _ (honest_wrote _)
  · exact honest_wrongArgs _

theorem honest_xgroupDelConsumer (args : List Bytes) : Honest (FirstKey args) false (xgroupDelConsumer args) := by
  unfold xgroupDelConsumer
  split
  · exact honest_withValue firstKey_cons (honest_reply _) fun s => honest_put firstKey_cons _ (honest_wrote _)
  · exact honest_wrongArgs _

theorem honest_handleXGroup (rt : Runtime) (args : List Bytes) :
    Honest (FirstKey args.tail) false (handleXGroup rt args) := by
  unfold handleXGroup
  split
  · dsimp only
    split
    · exact honest_xgroupCreate rt _
    split
    · exact honest_xgroupDestroy _
    split
    · exact honest_xgroupSetID _
    split
    · exact honest_xgroupDelConsumer _
    · exact honest_fails _
  · exact honest_wrongArgs _

theorem reads_handleXInfo (rt : Runtime) (r : Readings) (args : List Bytes) :
    Reads (FirstKey args.tail) (handleXInfo rt r args) := by
  unfold handleXInfo
  split
  · refine reads_get firstKey_cons fun d => ?_
    repeat' first
      | exact reads_pure _
      | split
      | dsimp only
  · exact reads_pure _

/-! ### The commands that may change an entry without a flag -/

def scoresParse (rt : Runtime) : List Bytes → Bool
  | score :: _ :: rest => (rt.parseFloat score).isSome && scoresParse rt rest
  | _ => true

theorem zaddLoop_done (rt : Runtime) (r : Readings) (pairs : List Bytes) (z : SkipList) :
    (zaddLoop rt r pairs z).1 = scoresParse rt pairs := by
  induction pairs using scoresParse.induct generalizing z with
  | case1 score member rest ih =>
    simp only [scoresParse, zaddLoop]
    cases rt.parseFloat score with
    | none => rfl
    | some x => exact ih _
  | case2 pairs hp =>
    rcases pairs with _ | ⟨score, _ | ⟨member, rest⟩⟩
    · rfl
    · rfl
    · exact absurd rfl (hp _ _ _)

theorem honest_handleZAdd {rt : Runtime} (r : Readings) (h : scoresParse rt args.tail = true) :
    Honest (FirstKey args) false (handleZAdd rt r args) := by
  unfold handleZAdd
  split
  · rename_i key pairs
    split
    · exact honest_wrongArgs _
    · have hr : ∀ b z, Honest (FirstKey (key :: pairs)) b (do
          KsProg.put key (.zset (zaddLoop rt r pairs z).2.2)
          pure (if (zaddLoop rt r pairs z).1 then wrote (.integer (zaddLoop rt r pairs z).2.1)
            else fails "ERR value is not a valid float")) := by
        intro b z
        have hd : (zaddLoop rt r pairs z).1 = true := (zaddLoop_done rt r pairs z).trans h
        rcases hz : zaddLoop rt r pairs z with ⟨done, n, z'⟩
        rw [hz] at hd
        cases hd
        exact honest_put firstKey_cons _ (honest_wrote _)
      exact honest_withNewValue firstKey_cons rfl (hr true _) fun z => hr false z
  · exact honest_wrongArgs _

/-- An ID that `XADD` takes for the first entry of a stream. -/
def idAccepted (quote : Bytes → Bytes) (id : Bytes) : Bool :=
  if id = lit "*" then true
  else if lit "-*" <:+ id then (parseUint64 id.dropLast.dropLast).isSome
  else match parseStreamID quote id with
    | .ok _ => true
    | .error _ => false

def xaddID (rt : Runtime) : List Bytes → Option Bytes
  | _ :: rest => match xaddMaxlen rt rest with
    | .ok (_, id :: _) => some id
    | _ => none
  | [] => none

theorem isOk_add_new (quote : Bytes → Bytes) (now : Int) (id : Bytes) (fields : GoMap Bytes) (order : List Bytes) :
    (Stream.new.add quote now id fields order).isOk = idAccepted quote id := by
  have ha : (Stream.new.add quote now id fields order).isOk = (Stream.new.assignID quote now id).isOk := by
    rw [Stream.add]
    cases Stream.new.assignID quote now id <;> rfl
  rw [ha]
  unfold Stream.assignID idAccepted
  by_cases hs : id = lit "*"
  · rw [if_pos hs, if_pos hs]
    rfl
  rw [if_neg hs, if_neg hs]
  by_cases hsu : lit "-*" <:+ id
  · rw [if_pos hsu, if_pos hsu]
    dsimp only
    cases parseUint64 id.dropLast.dropLast with
    | none => rfl
    | some m =>
      dsimp only
      rw [if_neg (by simp [Stream.new])]
      split <;> rfl
  · rw [if_neg hsu, if_neg hsu]
    cases parseStreamID quote id with
    | error e => rfl
    | ok p =>
      dsimp only
      rw [if_neg fun hc => hc.1 rfl]
      rfl

theorem view_run_get (now : Int) (k : Bytes) (ks : Keyspace) (k' : Bytes) :
    Keyspace.view now ((KsProg.get k).run (ksStep now) ks).2 k' = ks.view now k' := by
  rw [run_get]
  unfold Keyspace.view liveCell
  by_cases hk : k' = k
  · subst hk
    rw [Store.lookup_put, dropExpired_dropExpired]
  · rw [Store.lookup_put_ne _ hk]

theorem run_get_bind {α : Type} (now : Int) (k : Bytes) (f : Option (Datum × Int) → KsProg α) (ks : Keyspace) :
    (KsProg.get k >>= f).run (ksStep now) ks =
      (f (ks.view now k)).run (ksStep now) ((KsProg.get k).run (ksStep now) ks).2 := by
  rw [run_bind, show ((KsProg.get k).run (ksStep now) ks).1 = ks.view now k by rw [run_get]; rfl]

theorem Honest.view_ne_get {f : Option (Datum × Int) → KsProg Outcome} (hf : Honest P false (f (ks.view now k))) {k' : Bytes}
    (hk' : Keyspace.view now ((KsProg.get k >>= f).run (ksStep now) ks).2 k' ≠ ks.view now k') :
    P k' ∧ ((KsProg.get k >>= f).run (ksStep now) ks).1.Flagged := by
  rw [run_get_bind] at hk' ⊢
  exact hf.view_ne now _ (by rwa [view_run_get])

/-- `XADD` on an absent key with an ID that no stream takes leaves an empty stream behind; otherwise it is
honest. -/
theorem handleXAdd_view_ne (rt : Runtime) (r : Readings)
    (h : ∀ key id, args.head? = some key → xaddID rt args = some id → ks.view now key = none →
      idAccepted rt.quote id = true)
    (hk : Keyspace.view now ((handleXAdd rt r args).run (ksStep now) ks).2 k ≠ ks.view now k) :
    FirstKey args k ∧ ((handleXAdd rt r args).run (ksStep now) ks).1.Flagged := by
  have hto : ∀ {b key id fields maxlen s}, (b = false ∨ (s.add rt.quote r.now id (Hash.ofPairs fields ∅)
      (fieldOrder fields)).isOk = true) → FirstKey args key → Honest (FirstKey args) b (xaddTo rt r key id fields maxlen s) := by
    intro b key id fields maxlen s hb hke
    unfold xaddTo
    split
    · rename_i ha
      rcases hb with rfl | hok
      · exact honest_fails _
      · rw [ha] at hok; cases hok
    · exact honest_put hke _ (honest_wrote _)
  rcases args with _ | ⟨key, rest⟩
  · exact (honest_wrongArgs _).view_ne now ks hk
  simp only [handleXAdd] at hk ⊢
  by_cases hlen : rest.length < 3
  · rw [if_pos hlen] at hk ⊢
    exact (honest_wrongArgs _).view_ne now ks hk
  rw [if_neg hlen] at hk ⊢
  rcases hm : xaddMaxlen rt rest with e | ⟨maxlen, _ | ⟨id, fields⟩⟩
  · simp only [hm] at hk ⊢
    exact (honest_fails _).view_ne now ks hk
  · simp only [hm] at hk ⊢
    exact (honest_wrongArgs _).view_ne now ks hk
  simp only [hm] at hk ⊢
  by_cases hf : fields = [] ∨ fields.length % 2 ≠ 0
  · rw [if_pos hf] at hk ⊢
    exact (honest_wrongArgs _).view_ne now ks hk
  rw [if_neg hf] at hk ⊢
  refine Honest.view_ne_get ?_ hk
  cases hv : ks.view now key with
  | none =>
    have hid : idAccepted rt.quote id = true := h key id rfl (by simp [xaddID, hm]) hv
    exact honest_set firstKey_cons _ _ (hto (.inr ((isOk_add_new ..).trans hid)) firstKey_cons)
  | some x =>
    dsimp only
    split
    · exact honest_fails _
    · exact hto (.inl rfl) firstKey_cons

theorem view_readGroupStreams (r : Readings) (now : Int) (group consumer : Bytes) (count : Int) (noAck : Bool)
    (pairs : List (Bytes × Bytes)) (ks : Keyspace)
    (h : ∀ x ∈ pairs, ∀ s t, ks.view now x.1 = some (.stream s, t) → s.groups.lookup group = none)
    (k : Bytes) :
    Keyspace.view now ((readGroupStreams r group consumer count noAck pairs).run (ksStep now) ks).2 k =
      ks.view now k := by
  induction pairs generalizing ks with
  | nil => rfl
  | cons x rest ih =>
    obtain ⟨k', id⟩ := x
    have hr := ih ((KsProg.get k').run (ksStep now) ks).2 fun x hx s t hs =>
      h x (by simp [hx]) s t (by rwa [view_run_get] at hs)
    rw [view_run_get] at hr
    simp only [readGroupStreams]
    rw [run_get_bind]
    rcases hv : ks.view now k' with _ | ⟨d, t⟩
    · exact hr
    · cases d with
      | stream s =>
        have hg := h (k', id) (by simp) s t hv
        simp only [Stream.readGroup, hg]
        exact view_run_get now k' ks k
      | _ => exact hr

theorem handleXReadGroup_view (rt : Runtime) (r : Readings)
    (h : ∀ k ∈ readKeys rt true (args.drop 3), ∀ s t group, args[1]? = some group →
      ks.view now k = some (.stream s, t) → s.groups.lookup group = none) (k : Bytes) :
    Keyspace.view now ((handleXReadGroup rt r args).run (ksStep now) ks).2 k = ks.view now k := by
  unfold handleXReadGroup
  split
  · rename_i g group consumer opts
    unfold readKeys at h
    simp only [drop_succ_cons, drop_zero] at h
    split
    · rfl
    rcases ho : readOptions rt true opts (-1) (-1) false with _ | ⟨count, block, noAck, rest⟩
    · rfl
    rcases hp : streamPairs rest with _ | pairs
    · simp only [hp]; rfl
    simp only [ho, hp, Option.getD_some] at h ⊢
    have hv := view_readGroupStreams r now group consumer count noAck pairs ks
      (fun x hx s t hs => h x.1 (mem_map_of_mem hx) s t group rfl hs) k
    rw [run_bind]
    generalize (readGroupStreams r group consumer count noAck pairs).run (ksStep now) ks = x at hv ⊢
    obtain ⟨_ | _, ks'⟩ := x
    · exact hv
    · exact hv
  · rfl

/-! ### All data commands -/

def DataCmd.Uses (rt : Runtime) (args : List Bytes) : DataCmd → Bytes → Prop
  | mset => (· ∈ evenPositions args)
  | mget | del | «exists» => (· ∈ args)
  | xread => (· ∈ readKeys rt false args)
  | xreadgroup => (· ∈ readKeys rt true (args.drop 3))
  | xgroup | xinfo => FirstKey args.tail
  | keys | dbsize | flushdb | flushall => fun _ => True
  | _ => FirstKey args

def DataCmd.Changes (rt : Runtime) (args : List Bytes) (c : DataCmd) (k : Bytes) : Prop :=
  match c with
  | keys | dbsize | xread | xreadgroup | xinfo => False
  | c => c.Uses rt args k

/-- A command that may change the keyspace and not be flagged as a write. -/
def DataCmd.Unlogged (rt : Runtime) (now : Int) (ks : Keyspace) (args : List Bytes) : DataCmd → Prop
  | zadd => scoresParse rt args.tail = false
  | xadd => ∃ key id, args.head? = some key ∧ xaddID rt args = some id ∧ Keyspace.view now ks key = none ∧
      idAccepted rt.quote id = false
  | xreadgroup => ∃ k ∈ readKeys rt true (args.drop 3), ∃ s t group, args[1]? = some group ∧
      Keyspace.view now ks k = some (.stream s, t) ∧ s.groups.lookup group ≠ none
  | _ => False

theorem view_delete_ne {keys : List Bytes}
    (h : Keyspace.view now (ks.delete keys).2 k ≠ ks.view now k) : k ∈ keys := by
  induction keys generalizing ks with
  | nil => exact absurd rfl h
  | cons k' keys ih =>
    unfold Keyspace.delete at h
    by_cases hk : k = k'
    · simp [hk]
    · split at h
      · have hp : Keyspace.view now (ks.put k' none (-1)) k = ks.view now k := by
          unfold Keyspace.view
          rw [Store.lookup_put_ne _ hk]
        rw [← hp] at h
        exact mem_cons_of_mem _ (ih h)
      · exact mem_cons_of_mem _ (ih h)

/-- What a data command changes lies under its keys and is flagged. -/
theorem data_view_ne {rt : Runtime} {r : Readings} {c : DataCmd}
    (h : ¬ c.Unlogged rt r.fastNow ks args)
    (hk : Keyspace.view r.fastNow ((c.action rt r args).run r.fastNow ks).2 k ≠ ks.view r.fastNow k) :
    c.Changes rt args k ∧ ((c.action rt r args).run r.fastNow ks).1.Flagged := by
  by_cases hc : c.isPlain = true
  · obtain ⟨p, hp, hh⟩ := honest_plain rt r args c hc
    rw [hp] at hk ⊢
    have := hh.view_ne r.fastNow ks hk
    cases c <;> first | exact this | cases hc
  cases c
  case mset => exact (honest_cmdMSet args).view_ne _ ks hk
  case mget => exact (honest_cmdMGet args).view_ne _ ks hk
  case «exists» => exact (honest_cmdExists args).view_ne _ ks hk
  case del =>
    simp only [DataCmd.action] at hk ⊢
    by_cases ha : args = []
    · rw [if_pos ha] at hk
      exact absurd rfl hk
    · rw [if_neg ha] at hk ⊢
      exact ⟨view_delete_ne hk, fun v w h => by cases h; rfl⟩
  case keys => exact absurd rfl hk
  case dbsize => exact absurd rfl hk
  case flushdb => exact ⟨trivial, fun v w h => by cases h; rfl⟩
  case flushall => exact ⟨trivial, fun v w h => by cases h; rfl⟩
  case zadd => exact (honest_handleZAdd r (by simpa [DataCmd.Unlogged] using h)).view_ne _ ks hk
  case xadd =>
    refine handleXAdd_view_ne rt r (fun key id hke hid hv => ?_) hk
    by_contra hno
    exact h ⟨key, id, hke, hid, hv, by simpa using hno⟩
  case xread => exact absurd ((reads_handleXRead rt args).view _ ks k) hk
  case xgroup => exact (honest_handleXGroup rt args).view_ne _ ks hk
  case xinfo => exact absurd ((reads_handleXInfo rt r args).view _ ks k) hk
  case xreadgroup =>
    refine absurd (handleXReadGroup_view rt r (fun k hk s t group hg hv => ?_) k) hk
    by_contra hno
    exact h ⟨k, hk, s, t, group, hg, hv, hno⟩
  all_goals exact absurd rfl hc

end VortexKV
