import VortexKV.Proofs.Access
import VortexKV.Proofs.Footprint

/-!
# The keys of a command

`extractCommandKeys` is what the ACL and the slot checks know of a command; `DispatchEvent.touched` lists the keys it reads
or writes. `keys_extracted`: for which commands and inputs (`DispatchEvent.Declared`) the first has the second.
-/

namespace VortexKV

open KeyedStore List Prog

/-! ### The keys that are touched -/

def wasmTouched (now : Int) : WasmProg → Keyspace → List Bytes
  | .done _, _ => []
  | .get key next, ks =>
    let (d, ks) := (KsProg.get key).run (ksStep now) ks
    key :: wasmTouched now (next (d.bind fun d => d.1.string?)) ks
  | .set key val next, ks => key :: wasmTouched now next ((KsProg.set key (.string val) 0).run (ksStep now) ks).2
  | .del key next, ks => key :: wasmTouched now next (ks.delete [key]).2

def DataCmd.touched (rt : Runtime) (r : Readings) (args : List Bytes) (ks : Keyspace) (c : DataCmd) : List Bytes :=
  match c with
  | keys | flushdb | flushall => sortedKeys ks.entries
  | dbsize => []
  | del => args
  | c => match c.action rt r args with
    | .prog p => p.touched (ksStep r.fastNow) ks
    | _ => []

/-- Whether `CLUSTER` with these arguments goes through the keyspace for the keys of a slot. -/
def listsSlot (rt : Runtime) (args : List Bytes) : Bool :=
  match args with
  | sub :: slot :: opts =>
    (parseSlot slot).isOk && match ClusterSub.ofName (toUpper rt.unicode sub), opts with
      | some .countkeysinslot, _ => true
      | some .getkeysinslot, n :: _ => (parseInt64 n).any (0 ≤ ·)
      | _, _ => false
  | _ => false

def DispatchEvent.touched (rt : Runtime) (d : DispatchEvent) : List Bytes :=
  match Cmd.ofName d.cmd with
  | .data c => c.touched rt (d.env []) d.args d.before.ks
  | .wasm => (wasmProg rt (d.env []) d.before d.args).elim [] fun prog =>
      wasmTouched (d.env []).fastNow prog d.before.ks
  | .cluster => if listsSlot rt d.args then sortedKeys d.before.ks.entries else []
  | .save => if d.before.rdb.isSome then sortedKeys d.before.ks.entries else []
  | _ => []

/-- The key is one that `extractCommandKeys` finds. -/
def Extracted (cmd : Bytes) (args : List Bytes) (k : Bytes) : Prop :=
  ∃ keys, extractCommandKeys cmd args = .ok keys ∧ k ∈ keys

/-! ### The keys that the arguments name -/

def DataCmd.reaches (rt : Runtime) (r : Readings) (args : List Bytes) (c : DataCmd) : Bool :=
  match c.action rt r args with
  | .prog p => p.isCall
  | _ => true

def lacksGroup (now : Int) (ks : Keyspace) (group k : Bytes) : Bool :=
  match Keyspace.view now ks k with
  | some (.stream s, _) => (s.groups.lookup group).isNone
  | _ => false

/-- The streams that a read for a group gets to: it stops at the first without the group. -/
def readUntil (now : Int) (ks : Keyspace) (group : Bytes) : List Bytes → List Bytes
  | [] => []
  | k :: rest => k :: if lacksGroup now ks group k then [] else readUntil now ks group rest

def groupReadKeys (rt : Runtime) (now : Int) (ks : Keyspace) : List Bytes → List Bytes
  | g :: group :: _ :: opts =>
    if toUpper rt.unicode g = lit "GROUP" then readUntil now ks group (readKeys rt true opts) else []
  | _ => []

/-- The keys of a command, from its arguments and the keyspace. -/
def DataCmd.Names (rt : Runtime) (r : Readings) (args : List Bytes) (ks : Keyspace) (c : DataCmd) (k : Bytes) : Prop :=
  match c with
  | keys | flushdb | flushall => k ∈ ks.entries
  | dbsize => False
  | del | mget | «exists» => k ∈ args
  | mset => args.length % 2 = 0 ∧ k ∈ evenPositions args
  | xread => k ∈ readKeys rt false args
  | xreadgroup => k ∈ groupReadKeys rt r.fastNow ks args
  | xgroup | xinfo => c.reaches rt r args = true ∧ args.tail.head? = some k
  | c => c.reaches rt r args = true ∧ args.head? = some k

section

variable {rt : Runtime} {r : Readings} {args : List Bytes} {ks : Keyspace} {now : Int} {k : Bytes}

theorem touched_setPairs (hlen : args.length % 2 = 0) : (setPairs args).touched (ksStep now) ks = evenPositions args := by
  induction args using setPairs.induct generalizing ks with
  | case1 k v rest ih =>
    rw [setPairs, touched_bind, evenPositions, ih (by simp only [length_cons] at hlen; omega)]
    rfl
  | case2 args hne =>
    rcases args with _ | ⟨a, _ | ⟨b, rest⟩⟩
    · rfl
    · cases hlen
    · exact absurd rfl (hne a b rest)

theorem mem_touched_mset : k ∈ DataCmd.mset.touched rt r args ks ↔ DataCmd.mset.Names rt r args ks k := by
  change k ∈ (cmdMSet args).touched (ksStep r.fastNow) ks ↔ args.length % 2 = 0 ∧ k ∈ evenPositions args
  unfold cmdMSet
  by_cases hlen : args.length % 2 = 0
  · rcases args with _ | ⟨a, _ | ⟨b, rest⟩⟩
    · simp [evenPositions]
    · cases hlen
    · rw [if_neg (by simpa using hlen), touched_setPairs hlen]
      simp only [hlen, true_and]
  · simp [hlen]

theorem touched_getStrings : (getStrings args).touched (ksStep now) ks = args := by
  induction args generalizing ks with
  | nil => rfl
  | cons k args ih => simp only [getStrings, touched_bind, ih, touched_pure, append_nil]; rfl

theorem touched_countExisting : (countExisting args).touched (ksStep now) ks = args := by
  induction args generalizing ks with
  | nil => rfl
  | cons k args ih => simp only [countExisting, touched_bind, ih, touched_pure, append_nil]; rfl

theorem touched_cmdMGet : (cmdMGet args).touched (ksStep now) ks = args := by
  unfold cmdMGet
  split
  · rename_i h
    rw [h]
    rfl
  · simp only [touched_bind, touched_getStrings, touched_pure, append_nil]

theorem touched_cmdExists : (cmdExists args).touched (ksStep now) ks = args := by
  unfold cmdExists
  split
  · rename_i h
    rw [h]
    rfl
  · simp only [touched_bind, touched_countExisting, touched_pure, append_nil]

theorem touched_readStreams (count : Int) (pairs : List (Bytes × Bytes)) :
    (readStreams count pairs).touched (ksStep now) ks = pairs.map Prod.fst := by
  induction pairs generalizing ks with
  | nil => rfl
  | cons x pairs ih => simp only [readStreams, touched_bind, ih, touched_pure, append_nil]; rfl

theorem mem_touched_handleXRead : k ∈ (handleXRead rt args).touched (ksStep now) ks ↔ k ∈ readKeys rt false args := by
  refine ⟨fun hk => (reads_handleXRead rt args).within.touched ks k hk, ?_⟩
  unfold readKeys handleXRead
  rcases readOptions rt false args (-1) (-1) false with _ | ⟨count, block, noAck, rest⟩
  · exact fun hk => absurd hk not_mem_nil
  dsimp only
  rcases streamPairs rest with _ | pairs
  · exact fun hk => absurd hk not_mem_nil
  intro hk
  simp only [touched_bind, touched_readStreams, (returns_resolveIDs pairs).run, mem_append]
  exact .inr (.inl hk)

/-! ### Reading for a group -/

theorem readUntil_congr {ks' : Keyspace} {group : Bytes}
    (h : ∀ k, lacksGroup now ks' group k = lacksGroup now ks group k) (keys : List Bytes) :
    readUntil now ks' group keys = readUntil now ks group keys := by
  induction keys with
  | nil => rfl
  | cons k keys ih => rw [readUntil, readUntil, h, ih]

theorem view_run_put (now : Int) (k : Bytes) (v : Datum) (ks : Keyspace) (k' : Bytes) :
    Keyspace.view now ((KsProg.put k v).run (ksStep now) ks).2 k' =
      if k' = k then (ks.view now k).map fun x => (v, x.2) else ks.view now k' := by
  change liveCell now ((ks.put k _ 0).entries.lookup k') = _
  split
  · rename_i h
    subst h
    rw [Store.lookup_put]
    unfold Keyspace.view liveCell
    rcases ks.entries.lookup k' with _ | ⟨d, exp, acc⟩
    · rfl
    · have he : Entry.isExpired ⟨v, exp, acc⟩ now = Entry.isExpired ⟨d, exp, acc⟩ now := rfl
      simp only [Option.map_some, dropExpired, he]
      cases Entry.isExpired ⟨d, exp, acc⟩ now <;> rfl
  · rename_i h
    rw [Store.lookup_put_ne _ h]
    rfl

theorem lacksGroup_run_get (now : Int) (ks : Keyspace) (group k k' : Bytes) :
    lacksGroup now ((KsProg.get k).run (ksStep now) ks).2 group k' = lacksGroup now ks group k' := by
  unfold lacksGroup
  rw [view_run_get]

theorem lacksGroup_run_put {group consumer id : Bytes} {count : Int} {noAck : Bool} {s s' : Stream} {t : Int}
    {es : List StreamEntry} (hv : ks.view now k = some (.stream s, t))
    (hr : s.readGroup r.now group consumer id count noAck = .ok (es, s')) (k' : Bytes) :
    lacksGroup now ((KsProg.put k (.stream s')).run (ksStep now) ks).2 group k' = lacksGroup now ks group k' := by
  unfold lacksGroup
  rw [view_run_put]
  by_cases h : k' = k
  · subst h
    unfold Stream.readGroup at hr
    split at hr
    · cases hr
    · rename_i g hg
      injection hr with hr
      injection hr with _ hs'
      simp only [if_true, hv, Option.map_some, ← hs', hg, Finmap.lookup_insert, Option.isNone_some]
  · rw [if_neg h]

theorem touched_get_bind {α : Type} (f : Option (Datum × Int) → KsProg α) :
    (KsProg.get k >>= f).touched (ksStep now) ks =
      k :: (f (ks.view now k)).touched (ksStep now) ((KsProg.get k).run (ksStep now) ks).2 := by
  rw [touched_bind, show ((KsProg.get k).run (ksStep now) ks).1 = ks.view now k by rw [run_get]; rfl]
  rfl

theorem mem_touched_readGroupStreams (group consumer : Bytes) (count : Int) (noAck : Bool)
    (pairs : List (Bytes × Bytes)) (k' : Bytes) :
    k' ∈ (readGroupStreams r group consumer count noAck pairs).touched (ksStep now) ks ↔
      k' ∈ readUntil now ks group (pairs.map Prod.fst) := by
  induction pairs generalizing ks with
  | nil => rfl
  | cons x rest ih =>
    obtain ⟨k, id⟩ := x
    have hl := fun k' => lacksGroup_run_get now ks group k k'
    have hget := readUntil_congr hl (rest.map Prod.fst)
    simp only [readGroupStreams, touched_get_bind, map_cons, readUntil, mem_cons]
    rcases hv : ks.view now k with _ | ⟨d, t⟩
    · simp only [lacksGroup, hv, Bool.false_eq_true, if_false, ih, hget]
    cases d with
    | stream s =>
      rcases hr : s.readGroup r.now group consumer id count noAck with err | ⟨es, s'⟩
      · have hl : lacksGroup now ks group k = true := by
          simp only [lacksGroup, hv]
          unfold Stream.readGroup at hr
          split at hr
          · rename_i h
            rw [h]
            rfl
          · cases hr
        simp [hl, hr]
      · have hl : lacksGroup now ks group k = false := by
          simp only [lacksGroup, hv]
          unfold Stream.readGroup at hr
          split at hr
          · cases hr
          · rename_i h
            rw [h]
            rfl
        have hvi : Keyspace.view now ((KsProg.get k).run (ksStep now) ks).2 k = some (.stream s, t) := by
          rw [view_run_get, hv]
        have hp := readUntil_congr (lacksGroup_run_put hvi hr) (rest.map Prod.fst)
        simp only [hl, hr, Bool.false_eq_true, if_false]
        rw [touched_bind, touched_bind_isCall _ fun x => by cases x <;> rfl, mem_append, ih, hp, hget,
          show (KsProg.put k (.stream s')).touched (ksStep now) _ = [k] from rfl, mem_singleton, or_self_left]
    | _ => simp only [lacksGroup, hv, Bool.false_eq_true, if_false, ih, hget]

theorem length_readOptions {group : Bool} {opts : List Bytes} {count block : Int} {noAck : Bool}
    {x : Int × Int × Bool × List Bytes} (h : readOptions rt group opts count block noAck = some x) :
    x.2.2.2.length < opts.length := by
  fun_induction readOptions rt group opts count block noAck with
  | case1 => cases h
  | case2 count block noAck a rest =>
    cases h
    exact Nat.lt_succ_self _
  | case3 => cases h
  | case4 count block noAck a upper hs hc n rest ih =>
    have := ih h
    simp only [length_cons]
    omega
  | case5 => cases h
  | case6 count block noAck a upper hs hc hb n rest ih =>
    have := ih h
    simp only [length_cons]
    omega
  | case7 count block noAck a rest upper hs hc hb ih => exact (ih h).trans (Nat.lt_succ_self _)

theorem mem_touched_handleXReadGroup :
    k ∈ (handleXReadGroup rt r args).touched (ksStep now) ks ↔ k ∈ groupReadKeys rt now ks args := by
  rcases args with _ | ⟨g, _ | ⟨group, _ | ⟨consumer, opts⟩⟩⟩
  · rfl
  · rfl
  · rfl
  simp only [handleXReadGroup, groupReadKeys]
  by_cases hg : toUpper rt.unicode g = lit "GROUP"
  · rw [if_pos hg]
    unfold readKeys
    rcases ho : readOptions rt true opts (-1) (-1) false with _ | ⟨count, block, noAck, rest⟩
    · split <;> rfl
    dsimp only
    by_cases hlen : opts.length < 3
    · have hr : rest.length < 2 := by
        have := length_readOptions ho
        dsimp only at this
        omega
      rw [if_pos (.inl hlen), streamPairs, if_pos (.inl hr)]
      rfl
    rw [if_neg (by simp [hg, hlen])]
    rcases streamPairs rest with _ | pairs
    · rfl
    dsimp only
    rw [touched_bind_isCall _ fun x => by cases x <;> rfl, mem_touched_readGroupStreams]
    rfl
  · rw [if_neg hg, if_pos (.inr hg)]
    rfl

/-! ### One command -/

theorem mem_touched_keyed {c : DataCmd} {x : Option Bytes} (hc : c.keyed = true) (hd : c ≠ .del)
    (hu : c.Uses rt args = (x = some ·)) (hk : c.Names rt r args ks k ↔ c.reaches rt r args = true ∧ x = some k)
    (ht : c.touched rt r args ks = match c.action rt r args with
      | .prog p => p.touched (ksStep r.fastNow) ks
      | _ => []) : k ∈ c.touched rt r args ks ↔ c.Names rt r args ks k := by
  obtain ⟨p, hp, hw⟩ := within_action rt r args hc hd
  rw [hu] at hw
  rw [hk, ht, DataCmd.reaches, hp]
  exact hw.mem_touched ks k

theorem DataCmd.mem_touched (c : DataCmd) : k ∈ c.touched rt r args ks ↔ c.Names rt r args ks k := by
  cases c
  case keys | flushdb | flushall => exact mem_sortedKeys
  case dbsize => exact ⟨fun h => absurd h not_mem_nil, False.elim⟩
  case del => rfl
  case mset => exact mem_touched_mset
  case mget => exact (congrArg (k ∈ ·) touched_cmdMGet).to_iff
  case «exists» => exact (congrArg (k ∈ ·) touched_cmdExists).to_iff
  case xread => exact mem_touched_handleXRead
  case xreadgroup => exact mem_touched_handleXReadGroup
  all_goals exact mem_touched_keyed rfl (by decide) rfl Iff.rfl rfl

theorem extracted_data {cmd : Bytes} {c : DataCmd} (h : Cmd.ofName cmd = .data c) :
    Extracted cmd args k ↔ k ∈ c.extracted args := by
  unfold Extracted
  rw [extractCommandKeys_data h]
  exact ⟨fun ⟨_, h₁, h₂⟩ => by cases h₁; exact h₂, fun h => ⟨_, rfl, h⟩⟩

theorem not_extracted {cmd : Bytes} (args : List Bytes) (k : Bytes) (h : cmd ∈ keylessCommands) : ¬ Extracted cmd args k := by
  rintro ⟨keys, hkeys, hk⟩
  unfold extractCommandKeys at hkeys
  cases args with
  | nil => cases hkeys; cases hk
  | cons a args =>
    simp only [if_pos h] at hkeys
    cases hkeys
    cases hk

/-- The inputs for which the keys that a command names are found. -/
def DataCmd.Declared (rt : Runtime) (r : Readings) (args : List Bytes) (ks : Keyspace) (c : DataCmd) : Prop :=
  match c with
  | keys => ∀ k ∈ ks.entries, args.head? = some k
  | flushdb | flushall => ∀ k, k ∉ ks.entries
  | xread => ∀ k ∈ readKeys rt false args, args.head? = some k
  | xreadgroup => ∀ k ∈ groupReadKeys rt r.fastNow ks args, args.head? = some k
  | xgroup | xinfo => c.reaches rt r args = true → ∀ k, args.tail.head? = some k → args.head? = some k
  | _ => True

theorem DataCmd.declared_iff (c : DataCmd) :
    (∀ k, c.Names rt r args ks k → k ∈ c.extracted args) ↔ c.Declared rt r args ks := by
  have hf : ∀ k, k ∈ args.head?.toList ↔ args.head? = some k := fun k => Option.mem_toList
  cases c
  case keys | xread | xreadgroup => exact forall_congr' fun k => imp_congr_right fun _ => hf k
  case flushdb | flushall => exact forall_congr' fun k => imp_congr_right fun _ => by simp [extracted]
  case xgroup | xinfo =>
    exact ⟨fun h hr k hk => (hf k).1 (h k ⟨hr, hk⟩), fun h k hk => (hf k).2 (h hk.1 k hk.2)⟩
  case dbsize => exact ⟨fun _ => trivial, fun _ _ h => h.elim⟩
  case del | mget | «exists» => exact ⟨fun _ => trivial, fun _ _ h => h⟩
  case mset => exact ⟨fun _ => trivial, fun _ _ h => h.2⟩
  all_goals exact ⟨fun _ => trivial, fun _ k hk => (hf k).2 hk.2⟩

end

namespace DispatchEvent

variable (rt : Runtime) (d : DispatchEvent)

def Names (k : Bytes) : Prop :=
  match Cmd.ofName d.cmd with
  | .data c => c.Names rt (d.env []) d.args d.before.ks k
  | .wasm => ∃ prog, wasmProg rt (d.env []) d.before d.args = some prog ∧
      k ∈ wasmTouched (d.env []).fastNow prog d.before.ks
  | .cluster => listsSlot rt d.args = true ∧ k ∈ d.before.ks.entries
  | .save => d.before.rdb.isSome = true ∧ k ∈ d.before.ks.entries
  | _ => False

def Declared : Prop :=
  match Cmd.ofName d.cmd with
  | .data c => c.Declared rt (d.env []) d.args d.before.ks
  | .wasm => ∀ prog, wasmProg rt (d.env []) d.before d.args = some prog → ∃ v, prog = .done v
  | .cluster => listsSlot rt d.args = true → ∀ k, k ∉ d.before.ks.entries
  | .save => d.before.rdb.isSome = true → ∀ k, k ∉ d.before.ks.entries
  | _ => True

theorem mem_touched (k : Bytes) : k ∈ d.touched rt ↔ d.Names rt k := by
  unfold touched Names
  cases hc : Cmd.ofName d.cmd with
  | data c => exact c.mem_touched
  | wasm => cases wasmProg rt (d.env []) d.before d.args <;> simp
  | cluster | save =>
    dsimp only
    split
    · rename_i h
      simp only [h, true_and, mem_sortedKeys]
    · rename_i h
      simp [h]
  | _ => exact iff_of_false not_mem_nil id

theorem keyless {cmd : Bytes} (h : Cmd.ofName cmd = .wasm ∨ Cmd.ofName cmd = .cluster ∨ Cmd.ofName cmd = .save) :
    cmd ∈ keylessCommands := by
  have ht : commandTable.all (fun x => match x.2 with
    | .wasm | .cluster | .save => decide (lit x.1 ∈ keylessCommands)
    | _ => true) = true := by decide
  rcases h with h | h | h <;>
  · obtain ⟨s, hs, rfl⟩ := Cmd.ofName_mem h (by simp)
    exact of_decide_eq_true (all_eq_true.1 ht _ hs)

/-- What a dispatch touches is found exactly if it is `Declared`. -/
theorem declared_iff : (∀ k ∈ d.touched rt, Extracted d.cmd d.args k) ↔ d.Declared rt := by
  have hna : (∀ k ∈ d.touched rt, Extracted d.cmd d.args k) ↔ ∀ k, d.Names rt k → Extracted d.cmd d.args k :=
    forall_congr' fun k => imp_congr_left (d.mem_touched rt k)
  rw [hna]
  unfold Names Declared
  cases hc : Cmd.ofName d.cmd with
  | data c => 
    refine Iff.trans (forall_congr' fun k => imp_congr_right fun _ => extracted_data hc) c.declared_iff
  | wasm =>
    have hn := fun k => not_extracted d.args k (keyless (.inl hc))
    simp only [hn, imp_false, not_exists, not_and]
    refine ⟨fun h prog hp => ?_, fun h k prog hp hk => ?_⟩
    · cases prog with
      | done v => exact ⟨v, rfl⟩
      | get key | set key | del key => exact absurd mem_cons_self (h key _ hp)
    · obtain ⟨v, rfl⟩ := h prog hp
      cases hk
  | cluster =>
    have hn := fun k => not_extracted d.args k (keyless (.inr (.inl hc)))
    simp only [hn, imp_false, not_and]
    exact ⟨fun h hl k => h k hl, fun h k hl => h hl k⟩
  | save =>
    have hn := fun k => not_extracted d.args k (keyless (.inr (.inr hc)))
    simp only [hn, imp_false, not_and]
    exact ⟨fun h hl k => h k hl, fun h k hl => h hl k⟩
  | _ => exact ⟨fun _ => trivial, fun _ _ h => h.elim⟩

end DispatchEvent

/-! ### Guards -/

def ACLManager.Admits (rt : Runtime) (acl : ACLManager) (username k : Bytes) : Prop :=
  ∃ user, acl.lookup (orDefault username) = some user ∧ matchesAnyPattern rt k user.keyPatterns = true

def ClusterManager.Serves (cm : ClusterManager) (k : Bytes) : Prop :=
  ∃ owner, cm.getSlotOwner (keySlot k) = some owner ∧ owner.id = cm.selfNode.id

section

variable {rt : Runtime} {e : Engine} {s : ClientSession} {own cmd k : Bytes} {args keys : List Bytes}

theorem admits_of_refusal {acl : ACLManager} {username : Bytes} (h : acl.refusal rt username cmd keys = none)
    (hk : k ∈ keys) : acl.Admits rt username k := by
  unfold ACLManager.refusal at h
  dsimp only at h
  split at h
  · cases h
  rename_i user hu
  split_ifs at h
  rw [Option.map_eq_none_iff, List.find?_eq_none] at h
  exact ⟨user, hu, by simpa using h k hk⟩

theorem serves_of_slotGuard {cm : ClusterManager} (h : slotGuard cm keys = none) (hk : k ∈ keys) : cm.Serves k := by
  rcases keys with _ | ⟨key, keys⟩
  · cases hk
  simp only [slotGuard] at h
  split at h
  · cases h
  rename_i hs
  have hsl : keySlot k = keySlot key := by
    rcases mem_cons.1 hk with rfl | hk
    · rfl
    · simp only [any_eq_true, decide_eq_true_eq, not_exists, not_and, not_not] at hs
      exact hs k hk
  split at h
  · cases h
  rename_i owner ho
  split_ifs at h with hid
  exact ⟨owner, by rw [hsl, ho], not_not.1 hid⟩

theorem Passed.extracted (h : Passed rt e s own cmd args) (ho : internalConn own = false) (hk : Extracted cmd args k) :
    (∀ acl, e.acl = some acl → s.authenticated = true → acl.Admits rt s.username k) ∧
      ∀ cm, e.cluster = some cm → cm.enabled = true → cm.Serves k := by
  obtain ⟨keys, hkeys, hm⟩ := hk
  have hne : ∀ {x}, x ∈ keylessCommands → cmd ≠ x := by
    rintro x hx rfl
    exact not_extracted _ _ hx ⟨keys, hkeys, hm⟩
  refine ⟨fun acl ha hs => ?_, fun cm hcm hen => ?_⟩
  · have hg := h.acl
    simp only [aclGuard, ha] at hg
    rw [if_pos ⟨hs, hne (by decide), hne (by decide), by simp [ho]⟩, hkeys] at hg
    have hr : acl.refusal rt s.username cmd keys = none := by simpa [Except.map] using hg
    exact admits_of_refusal hr hm
  · have hg := h.cluster
    simp only [clusterGuard, hcm] at hg
    rw [if_pos ⟨hen, by simp [ho]⟩, hkeys] at hg
    exact serves_of_slotGuard (by simpa [Except.map] using hg) hm

end

/-! ### The keys of a command -/

section

variable (rt : Runtime) (ω : Env) (e : Engine) (own cmd name : Bytes) (args : List Bytes) (checked : Bool)

def KeysFound : Prop :=
  ∀ d ∈ dispatchTrace rt (luaTrace rt) ω e own cmd name args checked, ∀ k ∈ d.touched rt, Extracted cmd args k

/-- The inputs for which this is so. For a script, every key that its calls name is one of its keys. -/
def KeysDeclared : Prop :=
  match scriptOf rt (ω []) e cmd args with
  | none => DispatchEvent.Declared rt ⟨ω, e, own, cmd, name, args, checked⟩
  | some (prog, start) => ∀ d ∈ luaTrace rt ω prog start, ∀ k, d.Names rt k → Extracted cmd args k

/-- The keys that a command touches are found exactly if they are declared; then the guards that the command
went past, now or when it was queued, have checked them. -/
theorem keys_extracted :
    (KeysFound rt ω e own cmd name args checked ↔ KeysDeclared rt ω e own cmd name args checked) ∧
    (KeysDeclared rt ω e own cmd name args checked → internalConn own = false →
      ∀ d ∈ dispatchTrace rt (luaTrace rt) ω e own cmd name args checked, ∀ k ∈ d.touched rt,
      ∀ (e₀ : Engine) (s : ClientSession), guards rt e₀ s own cmd args = .ok none →
        (∀ acl, e₀.acl = some acl → s.authenticated = true → acl.Admits rt s.username k) ∧
        ∀ cm, e₀.cluster = some cm → cm.enabled = true → cm.Serves k) := by
  have hi : KeysFound rt ω e own cmd name args checked ↔ KeysDeclared rt ω e own cmd name args checked := by
    unfold KeysFound KeysDeclared dispatchTrace
    cases scriptOf rt (ω []) e cmd args with
    | none => simpa using DispatchEvent.declared_iff rt ⟨ω, e, own, cmd, name, args, checked⟩
    | some x => exact forall₂_congr fun d _ => forall_congr' fun k => imp_congr_left (d.mem_touched rt k)
  exact ⟨hi, fun hde ho d hd k hk e₀ s hg =>
    (guards_passed hg).extracted ho (hi.2 hde d hd k hk)⟩

end

def restrictedEngine : Engine :=
  { replayEngine ⟨Finmap.singleton "s" ⟨.stream ⟨[⟨"1-1", ∅, []⟩], ⟨1, 1⟩, ∅⟩, 0, 0⟩, 1⟩ with
    acl := some (ACLManager.setUser (ACLManager.new []) { username := "alice", keyPatterns := ["a*"] })
    sessions := fun _ => { authenticated := true, username := "alice" }
    nextSession := 1
    clientSessions := Finmap.singleton "conn-1" 0 }

theorem keys_extracted_get : ∃ acl, restrictedEngine.acl = some acl ∧ acl.Admits .plain "alice" "a1" :=
  have hg : guards .plain restrictedEngine (restrictedEngine.sessions 0) "conn-1" "GET" ["a1"] = .ok none := rfl
  have hd : KeysDeclared .plain (.plain 0) restrictedEngine "conn-1" "GET" "GET" ["a1"] true := trivial
  ⟨_, rfl, ((keys_extracted .plain (.plain 0) restrictedEngine "conn-1" "GET" "GET" ["a1"] true).2 hd (by decide)
    ⟨.plain 0, restrictedEngine, "conn-1", "GET", "GET", ["a1"], true⟩ (mem_singleton.2 rfl) "a1"
    (by decide) restrictedEngine (restrictedEngine.sessions 0) hg).1 _ rfl rfl⟩

/-- `XREAD` skips the words it does not know before `STREAMS`, and the first of them is taken for its key. -/
theorem xread_unfound :
    guards .plain restrictedEngine (restrictedEngine.sessions 0) "conn-1" "XREAD" ["a1", "STREAMS", "s", "0"] = .ok none ∧
    (∀ acl, restrictedEngine.acl = some acl → ¬ acl.Admits .plain "alice" "s") ∧
    (∃ e', executeCommand .plain (luaScripts .plain) (.plain 0) restrictedEngine "conn-1"
      ["XREAD", "a1", "STREAMS", "s", "0"] =
        .ok (.ofArray [.ofArray [.bulkString "s", .ofArray [.ofArray [.bulkString "1-1", .ofArray []]]]], e')) ∧
    ¬ KeysFound .plain (.plain 0) restrictedEngine "conn-1" "XREAD" "XREAD" ["a1", "STREAMS", "s", "0"] true := by
  refine ⟨rfl, ?_, ⟨_, rfl⟩, fun h => ?_⟩
  · rintro acl hacl ⟨user, hus, hm⟩
    cases hacl
    have hu : (ACLManager.setUser (ACLManager.new []) { username := "alice", keyPatterns := ["a*"] }).lookup
        (ACLManager.orDefault "alice") = some { username := "alice", keyPatterns := ["a*"] } := rfl
    obtain rfl := Option.some.inj (hu.symm.trans hus)
    exact absurd hm (by decide)
  · obtain ⟨keys, hkeys, hme⟩ := h ⟨.plain 0, restrictedEngine, "conn-1", "XREAD", "XREAD", ["a1", "STREAMS", "s", "0"], true⟩
      (mem_singleton.2 rfl) "s" (by decide)
    cases hkeys
    exact absurd hme (by decide)

end VortexKV
