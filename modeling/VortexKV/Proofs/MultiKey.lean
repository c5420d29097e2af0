import VortexKV.Commands
import VortexKV.Threads

/-!
# MSET and MGET among other clients

`MSET` and `MGET` make one keyspace operation for each key. `Atomic`: there is an order of the `MSET`s such that each reply
of `MGET` shows the keys after the first few of them. This is so when no command has more than one operation or nobody
writes (`calm_turn`), and for `MSET`s alone with one key or one client (`settled_turn`); otherwise a schedule breaks it.
-/

namespace VortexKV

open KeyedStore Threads List Function

/-- A client's `MSET` or `MGET` on the keys of `S`, in any order and with repetitions. -/
structure MultiKey (S : Finset Bytes) where
  isSet : Bool
  keys : List Bytes
  covers : keys.toFinset = S

def msetArgs : List Bytes → (Nat → Bytes) → List Bytes
  | [], _ => []
  | k :: keys, v => k :: v 0 :: msetArgs keys fun n => v (n + 1)

def MultiKey.program {S : Finset Bytes} (c : MultiKey S) (v : Nat → Bytes) : KsProg Outcome :=
  if c.isSet then cmdMSet (msetArgs c.keys v) else cmdMGet c.keys

def seen (now : Int) (ks : Keyspace) (k : Bytes) : Value :=
  match (dropExpired now (ks.entries.lookup k)).1 with
  | some ⟨.string s, _, _⟩ => .bulkString s
  | _ => .nil

/-! ### The actions of one command -/

section Codes

variable {keys : List Bytes} {v : Nat → Bytes} {now : Int} {ks : Keyspace} {k : Bytes}

def setCode (keys : List Bytes) (v : Nat → Bytes) : Code Int Keyspace Outcome :=
  ofProg ksStep (setPairs (msetArgs keys v))

def getCode (acc : List Value) (keys : List Bytes) : Code Int Keyspace Outcome :=
  ofProg ksStep (getStrings keys >>= fun items => pure (reply (.ofArray (acc ++ items))))

theorem setCode_cons_ne (v : Nat → Bytes) (o : Outcome) : setCode (k :: keys) v ≠ .ret o := nofun

@[simp] theorem next_setCode : (setCode (k :: keys) v).next now ks = setCode keys fun n => v (n + 1) := rfl

@[simp] theorem effect_setCode : (setCode (k :: keys) v).effect now ks =
    ks.put k (some ⟨.string (v 0), 0, now⟩) (if (ks.entries.lookup k).isSome then 0 else 1) := rfl

@[simp] theorem getCode_nil (acc : List Value) : getCode acc [] = .ret (reply (.ofArray acc)) :=
  congrArg (fun items => Code.ret (reply (.ofArray items))) (append_nil acc)

theorem getCode_cons_ne (acc : List Value) (o : Outcome) : getCode acc (k :: keys) ≠ .ret o := nofun

def item : Option (Datum × Int) → Value
  | some (.string s, _) => .bulkString s
  | _ => .nil

theorem item_get (now : Int) (ks : Keyspace) (k : Bytes) :
    item (ksStep now .get (ks.entries.lookup k)).1 = seen now ks k := by
  simp only [ksStep, seen]
  rcases dropExpired now (ks.entries.lookup k) with ⟨_ | ⟨d, exp, acc⟩, n⟩
  · rfl
  · cases d <;> rfl

theorem getStrings_cons (acc : List Value) (k : Bytes) (keys : List Bytes) :
    (getStrings (k :: keys) >>= fun items => pure (reply (.ofArray (acc ++ items)))) =
      (KsProg.get k >>= fun d => getStrings keys >>= fun items => pure (reply (.ofArray (acc ++ [item d] ++ items)))) := by
  have hc : getStrings (k :: keys) = (KsProg.get k >>= fun d => getStrings keys >>= fun items => pure (item d :: items)) := by
    refine congrArg _ (funext fun d => ?_)
    rcases d with _ | ⟨d, exp⟩
    · rfl
    · cases d <;> rfl
  rw [hc, Prog.bind_assoc]
  refine congrArg _ (funext fun d => ?_)
  rw [Prog.bind_assoc]
  refine congrArg _ (funext fun items => ?_)
  rw [append_assoc]
  rfl

theorem next_getCode (acc : List Value) :
    (getCode acc (k :: keys)).next now ks = getCode (acc ++ [seen now ks k]) keys := by
  rw [getCode, getStrings_cons, ← item_get]
  rfl

theorem effect_getCode (acc : List Value) : (getCode acc (k :: keys)).effect now ks =
    ks.put k (dropExpired now (ks.entries.lookup k)).1 (dropExpired now (ks.entries.lookup k)).2 := by
  rw [getCode, getStrings_cons]
  exact congrArg Prod.snd (run_get now k ks)

theorem bulkString_ne_nil (b : Bytes) : Value.bulkString b ≠ .nil := fun h => Bool.noConfusion (congrArg Value.null h)

theorem bulkString_injective {b b' : Bytes} (h : Value.bulkString b = .bulkString b') : b = b' :=
  Option.some.inj (congrArg Value.bulk h)

theorem seen_put_dropExpired (now : Int) (ks : Keyspace) (k k' : Bytes) (d : Int) :
    seen now (ks.put k (dropExpired now (ks.entries.lookup k)).1 d) k' = seen now ks k' := by
  by_cases hk : k' = k
  · subst hk
    rw [seen, Store.lookup_put, seen]
    cases hc : ks.entries.lookup k' with
    | none => rfl
    | some e =>
      by_cases he : e.isExpired now = true
      · simp [dropExpired, he]
      · simp [dropExpired, he]
  · rw [seen, Store.lookup_put_ne ks hk, seen]

theorem alone_getCode (acc : List Value) (keys : List Bytes) (ks : Keyspace) :
    ((getCode acc keys).alone now ks).1 = reply (.ofArray (acc ++ keys.map (seen now ks))) := by
  induction keys generalizing acc ks with
  | nil => rw [getCode_nil, map_nil, append_nil]; rfl
  | cons k keys ih =>
    have hs := funext fun k' => seen_put_dropExpired now ks k k' (dropExpired now (ks.entries.lookup k)).2
    rw [Code.alone_next, next_getCode, ih, effect_getCode, hs, map_cons, append_assoc, singleton_append]

/-! ### What a whole MSET leaves -/

def lastValue : List Bytes → (Nat → Bytes) → Bytes → Option Bytes
  | [], _, _ => none
  | k :: keys, v, x => (lastValue keys (fun n => v (n + 1)) x).or (if x = k then some (v 0) else none)

theorem lookup_alone_setCode (keys : List Bytes) (v : Nat → Bytes) (ks : Keyspace) (x : Bytes) :
    ((setCode keys v).alone now ks).2.entries.lookup x =
      ((lastValue keys v x).map fun b => ⟨.string b, 0, now⟩).or (ks.entries.lookup x) := by
  induction keys generalizing v ks with
  | nil => rfl
  | cons k keys ih =>
    rw [Code.alone_next, next_setCode, ih, effect_setCode, lastValue]
    by_cases hx : x = k
    · subst hx
      rw [Store.lookup_put, if_pos rfl]
      cases lastValue keys (fun n => v (n + 1)) x <;> rfl
    · rw [Store.lookup_put_ne ks hx, if_neg hx, Option.or_none]

theorem lastValue_of_notMem (v : Nat → Bytes) (h : k ∉ keys) : lastValue keys v k = none := by
  induction keys generalizing v with
  | nil => rfl
  | cons k' keys ih =>
    rw [mem_cons, not_or] at h
    rw [lastValue, ih _ h.2, if_neg h.1]
    rfl

theorem alone_setCode_fst (keys : List Bytes) (v : Nat → Bytes) (ks : Keyspace) :
    ((setCode keys v).alone now ks).1 = wrote ok := by
  induction keys generalizing v ks with
  | nil => rfl
  | cons k keys ih => rw [Code.alone_next, next_setCode, ih]

theorem exists_lastValue (v : Nat → Bytes) (h : k ∈ keys) : ∃ n < keys.length, lastValue keys v k = some (v n) := by
  induction keys generalizing v with
  | nil => cases h
  | cons k' keys ih =>
    by_cases hk : k ∈ keys
    · obtain ⟨n, hn, hl⟩ := ih (fun n => v (n + 1)) hk
      exact ⟨n + 1, Nat.succ_lt_succ hn, by rw [lastValue, hl]; rfl⟩
    · obtain rfl : k = k' := (mem_cons.1 h).resolve_right hk
      exact ⟨0, Nat.succ_pos _, by rw [lastValue, lastValue_of_notMem _ hk, if_pos rfl]; rfl⟩

theorem lastValue_concat (keys : List Bytes) (k : Bytes) (v : Nat → Bytes) (x : Bytes) :
    lastValue (keys ++ [k]) v x = if x = k then some (v keys.length) else lastValue keys v x := by
  induction keys generalizing v with
  | nil =>
    simp only [nil_append, lastValue, Option.none_or, length_nil]
  | cons k' keys ih =>
    rw [cons_append, lastValue, ih]
    by_cases hx : x = k
    · simp only [if_pos hx, length_cons]
      rfl
    · simp only [if_neg hx]
      rfl

end Codes

section

variable {ι : Type} {S : Finset Bytes} (cs : ι → MultiKey S) (vals : ι → Nat → Bytes)

def clients (ks : Keyspace) : System ι Int Keyspace Outcome := ⟨fun i => ofProg ksStep ((cs i).program (vals i)), ks⟩

def afterSets (order : List ι) (ks : Keyspace) : Keyspace :=
  order.foldl (fun ks i => (((cs i).program (vals i)).run (ksStep 0) ks).2) ks

def stored (ks : Keyspace) (k : Bytes) : Option (Datum × Int) := (ks.entries.lookup k).map fun e => (e.value, e.expiresAt)

variable {cs vals} {i : ι} {k : Bytes} {ks : Keyspace} {order : List ι}

theorem MultiKey.mem_keys (c : MultiKey S) : k ∈ c.keys ↔ k ∈ S := by
  rw [← mem_toFinset, c.covers]

theorem MultiKey.keys_ne_nil (c : MultiKey S) (hS : S.Nonempty) : c.keys ≠ [] := by
  obtain ⟨k, hk⟩ := hS
  exact ne_nil_of_mem (c.mem_keys.2 hk)

theorem length_msetArgs (keys : List Bytes) (v : Nat → Bytes) : (msetArgs keys v).length = 2 * keys.length := by
  induction keys generalizing v with
  | nil => rfl
  | cons k keys ih =>
    simp only [msetArgs, length_cons, ih]
    omega

theorem MultiKey.code_set {c : MultiKey S} (v : Nat → Bytes) (hset : c.isSet = true) (hne : c.keys ≠ []) :
    ofProg ksStep (c.program v) = setCode c.keys v := by
  have hlen : ¬ ((msetArgs c.keys v).length < 2 ∨ (msetArgs c.keys v).length % 2 ≠ 0) := by
    have := length_pos_iff.2 hne
    rw [length_msetArgs]
    omega
  rw [MultiKey.program, if_pos hset, cmdMSet, if_neg hlen]
  rfl

theorem MultiKey.code_get {c : MultiKey S} (v : Nat → Bytes) (hget : c.isSet = false) (hne : c.keys ≠ []) :
    ofProg ksStep (c.program v) = getCode [] c.keys := by
  rw [MultiKey.program, if_neg (by simp [hget]), cmdMGet, if_neg hne]
  rfl

theorem afterSets_concat (order : List ι) (i : ι) (ks : Keyspace) :
    afterSets cs vals (order ++ [i]) ks = (((cs i).program (vals i)).run (ksStep 0) (afterSets cs vals order ks)).2 := by
  simp [afterSets, foldl_append]

theorem lookup_afterSets_concat (hset : (cs i).isSet = true) (hk : k ∈ S) (order : List ι) (ks : Keyspace) :
    (afterSets cs vals (order ++ [i]) ks).entries.lookup k =
      (lastValue (cs i).keys (vals i) k).map fun b => ⟨.string b, 0, 0⟩ := by
  have hm := (cs i).mem_keys.2 hk
  obtain ⟨n, -, hn⟩ := exists_lastValue (vals i) hm
  rw [afterSets_concat, ← alone_ofProg, MultiKey.code_set _ hset (ne_nil_of_mem hm), lookup_alone_setCode, hn]
  rfl

theorem seen_of_lookup {now : Int} {e : Entry} (h : ks.entries.lookup k = some e) (he : e.expiresAt = 0) {b : Bytes}
    (hv : e.value = .string b) : seen now ks k = .bulkString b := by
  obtain ⟨v, exp, acc⟩ := e
  obtain rfl : exp = 0 := he
  obtain rfl : v = .string b := hv
  rw [seen, h]
  rfl

theorem seen_of_none {now : Int} (h : ks.entries.lookup k = none) : seen now ks k = .nil := by
  rw [seen, h]
  rfl

theorem MultiKey.lookup_alone (c : MultiKey S) (hset : c.isSet = true) (hk : k ∈ S) (v : Nat → Bytes) (now : Int)
    (ks : Keyspace) : ∃ n, ((ofProg ksStep (c.program v)).alone now ks).2.entries.lookup k = some ⟨.string (v n), 0, now⟩ := by
  have hm := c.mem_keys.2 hk
  obtain ⟨n, -, hn⟩ := exists_lastValue v hm
  rw [MultiKey.code_set _ hset (ne_nil_of_mem hm)]
  exact ⟨n, by rw [lookup_alone_setCode, hn]; rfl⟩

end

section Runs

variable {ι : Type} [DecidableEq ι] {S : Finset Bytes} (cs : ι → MultiKey S) (vals : ι → Nat → Bytes)

/-- After the schedule, all is as if the `MSET`s had run in the given order. A key of an `MGET` is seen at one of
the clock readings of the schedule. -/
structure Atomic (ks : Keyspace) (sched : List (ι × Int)) (order : List ι) : Prop where
  nodup : order.Nodup
  begun : ∀ i ∈ order, (cs i).isSet = true ∧ i ∈ sched.map Prod.fst
  replies : ∀ i items, (cs i).isSet = false → ((clients cs vals ks).run sched).threads i = .ret (reply (.ofArray items)) →
    ∃ n, List.Forall₂ (fun k v => ∃ now ∈ sched.map Prod.snd, v = seen now (afterSets cs vals (order.take n) ks) k)
      (cs i).keys items
  whole : (∀ i ∈ sched.map Prod.fst, (cs i).isSet = true → ∃ o, ((clients cs vals ks).run sched).threads i = .ret o) →
    (∀ i, (cs i).isSet = true → ((clients cs vals ks).run sched).threads i = .ret (wrote ok) → i ∈ order) ∧
    (order ≠ [] → ∀ k ∈ S, stored ((clients cs vals ks).run sched).shared k = stored (afterSets cs vals order ks) k)

variable {cs vals} {i : ι} {k : Bytes} {ks : Keyspace} {order : List ι} {sched : List (ι × Int)}
  {s : System ι Int Keyspace Outcome} {now : Int}

/-! ### Reads and writes of one operation -/

/-- The cell holds what the other does, or nothing where the other has expired at some reading of the clock. -/
def Worn (clock : List Int) (c c' : Option Entry) : Prop :=
  c.map (fun e => (e.value, e.expiresAt)) = c'.map (fun e => (e.value, e.expiresAt)) ∨
    c = none ∧ ∃ e, c' = some e ∧ ∃ now ∈ clock, e.isExpired now = true

theorem Worn.dropExpired {clock : List Int} {c c' : Option Entry} (h : Worn clock c c') (hn : now ∈ clock) :
    Worn clock (dropExpired now c).1 c' := by
  cases c with
  | none => exact h
  | some e =>
    by_cases he : e.isExpired now = true
    · obtain ⟨e', rfl, heq⟩ : ∃ e', c' = some e' ∧ (e.value, e.expiresAt) = (e'.value, e'.expiresAt) := by
        rcases h with h | ⟨h, -⟩
        · cases c' with
          | none => cases h
          | some e' => exact ⟨e', rfl, Option.some.inj h⟩
        · cases h
      rw [VortexKV.dropExpired, if_pos he]
      refine .inr ⟨rfl, e', rfl, now, hn, ?_⟩
      rw [Entry.isExpired, ← (Prod.mk.inj heq).2]
      exact he
    · rw [VortexKV.dropExpired, if_neg he]
      exact h

theorem seen_congr {ks ks' : Keyspace} (h : (ks.entries.lookup k).map (fun e => (e.value, e.expiresAt)) =
    (ks'.entries.lookup k).map (fun e => (e.value, e.expiresAt))) : seen now ks k = seen now ks' k := by
  rw [seen, seen]
  cases hc : ks.entries.lookup k with
  | none =>
    rw [hc] at h
    rw [Option.map_eq_none_iff.1 h.symm]
  | some e =>
    cases hc' : ks'.entries.lookup k with
    | none => rw [hc, hc'] at h; cases h
    | some e' =>
      rw [hc, hc'] at h
      obtain ⟨v, exp, acc⟩ := e
      obtain ⟨v', exp', acc'⟩ := e'
      obtain ⟨rfl, rfl⟩ := Prod.mk.inj (Option.some.inj h)
      by_cases hx : Entry.isExpired ⟨v, exp, acc⟩ now = true
      · rw [dropExpired, dropExpired, if_pos hx, if_pos (show Entry.isExpired ⟨v, exp, acc'⟩ now = true from hx)]
      · rw [dropExpired, dropExpired, if_neg hx, if_neg (show ¬ Entry.isExpired ⟨v, exp, acc'⟩ now = true from hx)]
        cases v <;> rfl

theorem Worn.seen {clock : List Int} {ks ks' : Keyspace} (h : Worn clock (ks.entries.lookup k) (ks'.entries.lookup k))
    (hnw : now ∈ clock) : ∃ now' ∈ clock, seen now ks k = seen now' ks' k := by
  rcases h with h | ⟨hn, e, he, now', hno, hex⟩
  · exact ⟨now, hnw, seen_congr h⟩
  · refine ⟨now', hno, ?_⟩
    rw [seen_of_none hn, VortexKV.seen, he, VortexKV.dropExpired, if_pos hex]

variable (cs vals ks sched) in
/-- The commands so far took effect in one operation each, or nothing was written. -/
structure Calm (s : System ι Int Keyspace Outcome) (order : List ι) : Prop where
  nodup : order.Nodup
  begun : ∀ i ∈ order, (cs i).isSet = true ∧ i ∈ sched.map Prod.fst
  sets : ∀ i, (cs i).isSet = true →
    (i ∉ order ∧ s.threads i = setCode (cs i).keys (vals i)) ∨ (i ∈ order ∧ s.threads i = .ret (wrote ok))
  gets : ∀ i, (cs i).isSet = false → ∃ done rest acc n, (cs i).keys = done ++ rest ∧ s.threads i = getCode acc rest ∧
    n ≤ order.length ∧
    List.Forall₂ (fun k v => ∃ now ∈ sched.map Prod.snd, v = seen now (afterSets cs vals (order.take n) ks) k) done acc
  cells : ∀ k, Worn (sched.map Prod.snd) (s.shared.entries.lookup k) ((afterSets cs vals order ks).entries.lookup k)

theorem calm_set (h : Calm cs vals ks sched s order) (hset : (cs i).isSet = true) (hkeys : (cs i).keys = [k])
    (hi : i ∉ order) (hp : (i, now) ∈ sched) : Calm cs vals ks sched (s.turn (i, now)) (order ++ [i]) := by
  have ht : s.threads i = setCode [k] (vals i) := by
    rcases h.sets i hset with ⟨-, hs⟩ | ⟨hme, -⟩
    · rw [hs, hkeys]
    · exact absurd hme hi
  have hse : (s.turn (i, now)).threads i = .ret (wrote ok) := by rw [System.turn_threads_self, ht]; rfl
  have hsh : (s.turn (i, now)).shared =
      s.shared.put k (some ⟨.string (vals i 0), 0, now⟩) (if (s.shared.entries.lookup k).isSome then 0 else 1) := by
    simp only [System.turn, ht, effect_setCode]
  refine ⟨?_, ?_, ?_, ?_, ?_⟩
  · rw [← concat_eq_append]
    exact h.nodup.concat hi
  · intro j hj
    rcases mem_append.1 hj with hj | hj
    · exact h.begun j hj
    · rw [mem_singleton.1 hj]
      exact ⟨hset, mem_map_of_mem hp⟩
  · intro j hj
    by_cases hji : j = i
    · rw [hji]
      exact .inr ⟨mem_append_right _ (mem_singleton_self i), hse⟩
    · rw [System.turn_threads_ne s hji]
      rcases h.sets j hj with ⟨hme, hs⟩ | ⟨hme, hs⟩
      · refine .inl ⟨fun hm => ?_, hs⟩
        rcases mem_append.1 hm with hm | hm
        · exact hme hm
        · exact hji (mem_singleton.1 hm)
      · exact .inr ⟨mem_append_left _ hme, hs⟩
  · intro j hj
    have hji : j ≠ i := fun hji => by rw [hji, hset] at hj; cases hj
    obtain ⟨done, rest, acc, n, hsp, hs, hn, hr⟩ := h.gets j hj
    refine ⟨done, rest, acc, n, hsp, by rw [System.turn_threads_ne s hji, hs], ?_, ?_⟩
    · rw [length_append]
      omega
    · rw [take_append_of_le_length hn]
      exact hr
  · intro x
    have ha : (afterSets cs vals (order ++ [i]) ks).entries.lookup x =
        ((lastValue [k] (vals i) x).map fun b => ⟨.string b, 0, 0⟩).or ((afterSets cs vals order ks).entries.lookup x) := by
      rw [afterSets_concat, ← alone_ofProg, MultiKey.code_set _ hset (by simp [hkeys]), hkeys, lookup_alone_setCode]
    rw [hsh, ha]
    by_cases hx : x = k
    · rw [hx, Store.lookup_put]
      simp only [lastValue, if_true]
      exact .inl rfl
    · rw [Store.lookup_put_ne s.shared hx]
      simp only [lastValue, if_neg hx]
      exact h.cells x

theorem calm_get (h : Calm cs vals ks sched s order) (hget : (cs i).isSet = false)
    (hH : (∀ i, (cs i).isSet = false) ∨ ∀ i, (cs i).keys.length ≤ 1) (hp : (i, now) ∈ sched) :
    Calm cs vals ks sched (s.turn (i, now)) order := by
  obtain ⟨done, rest, acc, n, hs, ht, hn, hr⟩ := h.gets i hget
  cases rest with
  | nil =>
    rw [getCode_nil] at ht
    rw [System.turn_ret ht]
    exact h
  | cons k rest =>
    have hc : now ∈ sched.map Prod.snd := mem_map_of_mem hp
    have hsh : (s.turn (i, now)).shared = s.shared.put k (dropExpired now (s.shared.entries.lookup k)).1
        (dropExpired now (s.shared.entries.lookup k)).2 := by
      simp only [System.turn, ht, effect_getCode]
    -- What was read before was read after the same `MSET`s.
    have hb : List.Forall₂ (fun k v => ∃ now ∈ sched.map Prod.snd,
        v = seen now (afterSets cs vals (order.take order.length) ks) k) done acc := by
      rcases hH with hH | hH
      · have hni : order = [] := eq_nil_iff_forall_not_mem.2 fun j hj => by
          have := (h.begun j hj).1
          rw [hH j] at this
          cases this
        subst hni
        rwa [take_nil] at hr ⊢
      · have hlen := hH i
        rw [hs, length_append, length_cons] at hlen
        obtain rfl : done = [] := length_eq_zero_iff.1 (by omega)
        cases hr
        exact .nil
    refine ⟨h.nodup, h.begun, fun j hj => ?_, fun j hj => ?_, fun x => ?_⟩
    · have hji : j ≠ i := fun hji => by rw [hji, hget] at hj; cases hj
      rw [System.turn_threads_ne s hji]
      exact h.sets j hj
    · by_cases hji : j = i
      · subst hji
        obtain ⟨now', hno, hse⟩ := (h.cells k).seen hc
        refine ⟨done ++ [k], rest, acc ++ [seen now s.shared k], order.length, by simp [hs], ?_, le_refl _, ?_⟩
        · rw [System.turn_threads_self, ht, next_getCode]
        · refine rel_append hb (.cons ⟨now', hno, ?_⟩ .nil)
          rw [take_length, hse]
      · rw [System.turn_threads_ne s hji]
        exact h.gets j hj
    · rw [hsh]
      by_cases hx : x = k
      · rw [hx, Store.lookup_put]
        exact (h.cells k).dropExpired hc
      · rw [Store.lookup_put_ne s.shared hx]
        exact h.cells x

theorem calm_turn (hS : S.Nonempty) (hH : (∀ i, (cs i).isSet = false) ∨ ∀ i, (cs i).keys.length ≤ 1)
    (hp : (i, now) ∈ sched) (h : ∃ order, Calm cs vals ks sched s order) :
    ∃ order, Calm cs vals ks sched (s.turn (i, now)) order := by
  obtain ⟨order, h⟩ := h
  by_cases hset : (cs i).isSet = true
  swap
  · exact ⟨order, calm_get h (by simpa using hset) hH hp⟩
  rcases h.sets i hset with ⟨hi, -⟩ | ⟨-, hs⟩
  swap
  · exact ⟨order, by rw [System.turn_ret hs]; exact h⟩
  obtain ⟨k, hk⟩ := hS
  have hlen : (cs i).keys.length ≤ 1 := by
    rcases hH with hH | hH
    · rw [hH i] at hset
      cases hset
    · exact hH i
  have hm := (cs i).mem_keys.2 hk
  have hkeys : (cs i).keys = [k] := by
    obtain ⟨x, hx⟩ := length_eq_one_iff.1 (Nat.le_antisymm hlen (length_pos_of_mem hm))
    rw [hx] at hm ⊢
    rw [mem_singleton.1 hm]
  exact ⟨_, calm_set h hset hkeys hi hp⟩

theorem Calm.atomic (hS : S.Nonempty) (h : Calm cs vals ks sched ((clients cs vals ks).run sched) order) :
    Atomic cs vals ks sched order := by
  refine ⟨h.nodup, h.begun, fun i items hget hi => ?_, fun _ => ⟨fun i hset hd => ?_, fun hne k hk => ?_⟩⟩
  · obtain ⟨done, rest, acc, n, hsp, ht, -, hr⟩ := h.gets i hget
    rw [ht] at hi
    cases rest with
    | cons k rest => exact absurd hi (getCode_cons_ne acc _)
    | nil =>
      rw [getCode_nil] at hi
      have ha : acc = items := congrArg Value.array (Prod.mk.inj (Except.ok.inj (Code.ret.inj hi))).1
      rw [append_nil] at hsp
      rw [hsp, ← ha]
      exact ⟨n, hr⟩
  · rcases h.sets i hset with ⟨-, hs⟩ | ⟨hm, -⟩
    · obtain ⟨k, keys, hkeys⟩ := exists_cons_of_ne_nil ((cs i).keys_ne_nil hS)
      rw [hs, hkeys] at hd
      exact absurd hd (setCode_cons_ne _ _)
    · exact hm
  · rcases h.cells k with heq | ⟨-, e, he, now, -, hex⟩
    · exact heq
    · obtain ⟨order', j, rfl⟩ := (eq_nil_or_concat order).resolve_left hne
      rw [concat_eq_append, lookup_afterSets_concat (h.begun j (by simp)).1 hk] at he
      obtain ⟨b, -, rfl⟩ := Option.map_eq_some_iff.1 he
      cases hex

/-! ### MSETs alone -/

variable (cs vals sched) in
/-- Every `MSET` has written a first part of its pairs. Either one is under way, or the keys are as the last one
that finished has left them. -/
structure Settled (s : System ι Int Keyspace Outcome) (order : List ι) : Prop where
  nodup : order.Nodup
  begun : ∀ i ∈ order, i ∈ sched.map Prod.fst
  parts : ∀ i, ∃ done rest, (cs i).keys = done ++ rest ∧ s.threads i = setCode rest (fun n => vals i (done.length + n)) ∧
    (rest = [] ↔ i ∈ order) ∧
    (Subsingleton ι → ∀ k b, lastValue done (vals i) k = some b → stored s.shared k = some (.string b, 0))
  last : (∃ i ∈ sched.map Prod.fst, ∀ o, s.threads i ≠ .ret o) ∨ order = [] ∨ ∃ order' i, order = order' ++ [i] ∧
    ∀ k ∈ S, stored s.shared k = (lastValue (cs i).keys (vals i) k).map fun b => (.string b, 0)

theorem settled_turn (hH : Subsingleton ι ∨ S.card ≤ 1) (hp : (i, now) ∈ sched) (h : Settled cs vals sched s order) :
    ∃ order, Settled cs vals sched (s.turn (i, now)) order := by
  obtain ⟨done, rest, hsp, ht, hfi, hw⟩ := h.parts i
  cases rest with
  | nil => exact ⟨order, by rw [System.turn_ret ht]; exact h⟩
  | cons k rest =>
    have hi : i ∉ order := fun hm => by cases hfi.2 hm
    have hse : (s.turn (i, now)).threads i = setCode rest fun n => vals i ((done ++ [k]).length + n) := by
      rw [System.turn_threads_self, ht, next_setCode]
      refine congrArg (setCode rest) (funext fun n => ?_)
      rw [length_append, length_singleton, Nat.add_assoc, Nat.add_comm 1 n]
    have hst : ∀ x, stored (s.turn (i, now)).shared x =
        if x = k then some (.string (vals i done.length), 0) else stored s.shared x := by
      intro x
      simp only [System.turn, ht, effect_setCode, stored]
      by_cases hx : x = k
      · rw [hx, Store.lookup_put, if_pos rfl]
        rfl
      · rw [Store.lookup_put_ne _ hx, if_neg hx]
    have hd : Subsingleton ι → ∀ x b, lastValue (done ++ [k]) (vals i) x = some b →
        stored (s.turn (i, now)).shared x = some (.string b, 0) := by
      intro ho x b hb
      rw [lastValue_concat] at hb
      rw [hst]
      by_cases hx : x = k
      · rw [if_pos hx] at hb ⊢
        rw [Option.some.inj hb]
      · rw [if_neg hx] at hb ⊢
        exact hw ho x b hb
    have hs : (cs i).keys = (done ++ [k]) ++ rest := by rw [hsp, append_assoc, singleton_append]
    -- The others are where they were.
    have hot : ∀ j ≠ i, ∃ done rest, (cs j).keys = done ++ rest ∧
        (s.turn (i, now)).threads j = setCode rest (fun n => vals j (done.length + n)) ∧ (rest = [] ↔ j ∈ order) ∧
        (Subsingleton ι → ∀ k b, lastValue done (vals j) k = some b → stored (s.turn (i, now)).shared k = some (.string b, 0)) := by
      intro j hji
      obtain ⟨done', rest', hs, hth, hf, -⟩ := h.parts j
      exact ⟨done', rest', hs, by rw [System.turn_threads_ne s hji, hth], hf, fun ho => absurd (ho.elim j i) hji⟩
    cases rest with
    | cons k' rest =>
      refine ⟨order, h.nodup, h.begun, fun j => ?_, .inl ⟨i, mem_map_of_mem hp, fun o => ?_⟩⟩
      · by_cases hji : j = i
        · subst hji
          exact ⟨_, _, hs, hse, ⟨by rintro ⟨⟩, fun hm => absurd hm hi⟩, hd⟩
        · exact hot j hji
      · rw [hse]
        exact setCode_cons_ne _ o
    | nil =>
      rw [append_nil] at hs
      refine ⟨order ++ [i], ?_, ?_, fun j => ?_, .inr (.inr ⟨order, i, rfl, fun x hx => ?_⟩)⟩
      · rw [← concat_eq_append]
        exact h.nodup.concat hi
      · intro j hj
        rcases mem_append.1 hj with hj | hj
        · exact h.begun j hj
        · rw [mem_singleton.1 hj]
          exact mem_map_of_mem hp
      · by_cases hji : j = i
        · subst hji
          exact ⟨_, [], by rw [hs, append_nil], hse, by simp, hd⟩
        · obtain ⟨done', rest', h₁, h₂, h₃, h₄⟩ := hot j hji
          exact ⟨done', rest', h₁, h₂, by simp [h₃, hji], h₄⟩
      · have hm := (cs i).mem_keys.2 hx
        obtain ⟨n, -, hn⟩ := exists_lastValue (vals i) hm
        rw [hn]
        rcases hH with ho | hc
        · rw [hs] at hn
          exact hd ho x _ hn
        · have hxk : x = k := Finset.card_le_one.1 hc x hx k ((cs i).mem_keys.1 (by rw [hs]; simp))
          rw [hs, lastValue_concat, if_pos hxk] at hn
          rw [hst, if_pos hxk, Option.some.inj hn]
          rfl

theorem Settled.atomic (hset : ∀ i, (cs i).isSet = true)
    (h : Settled cs vals sched ((clients cs vals ks).run sched) order) : Atomic cs vals ks sched order := by
  refine ⟨h.nodup, fun i hi => ⟨hset i, h.begun i hi⟩, fun i items hget => ?_, fun hq => ⟨fun i _ hd => ?_, fun hne k hk => ?_⟩⟩
  · rw [hset i] at hget
    cases hget
  · obtain ⟨done, rest, -, ht, hf, -⟩ := h.parts i
    cases rest with
    | nil => exact hf.1 rfl
    | cons k rest =>
      rw [ht] at hd
      exact absurd hd (setCode_cons_ne _ _)
  · rcases h.last with ⟨i, hi, hr⟩ | hn | ⟨order', i, rfl, hl⟩
    · obtain ⟨o, ho⟩ := hq i hi (hset i)
      exact absurd ho (hr o)
    · exact absurd hn hne
    · rw [hl k hk, stored, lookup_afterSets_concat (hset i) hk, Option.map_map]
      rfl

theorem atomic_of_empty (hS : S = ∅) : Atomic cs vals ks sched [] := by
  have hkeys : ∀ i, (cs i).keys = [] := fun i => toFinset_eq_empty_iff _ |>.1 ((cs i).covers.trans hS)
  have hr : (clients cs vals ks).run sched = clients cs vals ks := by
    refine System.run_inv (J := fun s => s = clients cs vals ks) (P := fun _ => True) ?_ (fun _ _ => trivial) rfl
    rintro s i now - rfl
    have ht : ∃ o, (clients cs vals ks).threads i = .ret o := by
      simp only [clients, MultiKey.program, hkeys i]
      split <;> exact ⟨_, rfl⟩
    obtain ⟨o, ho⟩ := ht
    exact System.turn_ret ho now
  refine ⟨nodup_nil, nofun, fun i items hget hi => ?_, fun _ => ⟨fun i hset hd => ?_, fun h => absurd rfl h⟩⟩
  · rw [hr] at hi
    simp only [clients, MultiKey.program, hkeys i, hget] at hi
    cases hi
  · rw [hr] at hd
    simp only [clients, MultiKey.program, hkeys i, hset] at hd
    cases hd

/-! ### Schedules that show a part -/

theorem Atomic.seen_take (h : Atomic cs vals ks sched order) (n : Nat) : order.take n = [] ∨ ∃ l ∈ order, ∀ k ∈ S,
    ∀ now b, lastValue (cs l).keys (vals l) k = some b → seen now (afterSets cs vals (order.take n) ks) k = .bulkString b := by
  rcases eq_nil_or_concat (order.take n) with hn | ⟨order', l, hl⟩
  · exact .inl hn
  · rw [concat_eq_append] at hl
    have hm : l ∈ order := mem_of_mem_take (by rw [hl]; simp)
    refine .inr ⟨l, hm, fun k hk now b hb => ?_⟩
    have hlo : (afterSets cs vals (order.take n) ks).entries.lookup k = some ⟨.string b, 0, 0⟩ := by
      rw [hl, lookup_afterSets_concat (h.begun l hm).1 hk, hb]
      rfl
    exact seen_of_lookup hlo rfl rfl

theorem exists_two {keys : List Bytes} (h : 2 ≤ keys.length) : ∃ k k' rest, keys = k :: k' :: rest := by
  rcases keys with _ | ⟨k, _ | ⟨k', rest⟩⟩
  · simp at h
  · simp at h
  · exact ⟨k, k', rest, rfl⟩

theorem torn_read {i j : ι} (hi : (cs i).isSet = true) (hj : (cs j).isSet = false) (hlen : 2 ≤ (cs j).keys.length) :
    ∃ vals sched, ∀ order, ¬ Atomic cs vals .empty sched order := by
  have hij : i ≠ j := fun h => by rw [h, hj] at hi; cases hi
  obtain ⟨k, k', keys, hkeys⟩ := exists_two hlen
  have hkS : k ∈ S := (cs j).mem_keys.1 (by simp [hkeys])
  have hk : k' ∈ S := (cs j).mem_keys.1 (by simp [hkeys])
  let vals : ι → Nat → Bytes := fun _ _ => "2"
  let s₁ := (clients cs vals .empty).turn (j, 0)
  have hj' : s₁.threads j = getCode [.nil] (k' :: keys) := by
    rw [System.turn_threads_self]
    simp only [clients]
    rw [MultiKey.code_get _ hj (by simp [hkeys]), hkeys, next_getCode]
    rfl
  have hi' : s₁.threads i = ofProg ksStep ((cs i).program (vals i)) := System.turn_threads_ne _ hij 0
  obtain ⟨n, hn⟩ := s₁.run_alone i 0
  let s₂ := s₁.run (List.replicate n (i, 0))
  have hj₂ : s₂.threads j = getCode [.nil] (k' :: keys) := by
    simp only [s₂, hn]
    rw [update_of_ne hij.symm, hj']
  have hse : seen 0 s₂.shared k' = .bulkString "2" := by
    obtain ⟨m, hm⟩ := (cs i).lookup_alone hi hk (vals i) 0 s₁.shared
    simp only [s₂, hn, hi']
    exact seen_of_lookup hm rfl rfl
  obtain ⟨m, hm⟩ := s₂.run_alone j 0
  refine ⟨vals, (j, 0) :: (List.replicate n (i, 0) ++ List.replicate m (j, 0)), fun order h => ?_⟩
  have ht : ((clients cs vals .empty).run
      ((j, 0) :: (List.replicate n (i, 0) ++ List.replicate m (j, 0)))).threads j =
        .ret (reply (.ofArray (.nil :: .bulkString "2" :: keys.map (seen 0 s₂.shared)))) := by
    rw [System.run_cons, System.run_append]
    rw [hm]
    dsimp only
    rw [update_self, hj₂, alone_getCode, map_cons, hse]
    rfl
  obtain ⟨p, hp⟩ := h.replies j _ hj ht
  rw [hkeys] at hp
  obtain ⟨⟨now, -, hf⟩, hp⟩ := forall₂_cons.1 hp
  obtain ⟨⟨now', -, hs⟩, -⟩ := forall₂_cons.1 hp
  rcases h.seen_take p with hni | ⟨l, -, hl⟩
  · rw [hni, seen_of_none rfl] at hs
    exact bulkString_ne_nil _ hs
  · obtain ⟨q, -, hq⟩ := exists_lastValue (vals l) ((cs l).mem_keys.2 hkS)
    rw [hl k hkS now _ hq] at hf
    exact bulkString_ne_nil _ hf.symm

theorem half_read {i j : ι} (hi : (cs i).isSet = true) (hj : (cs j).isSet = false) (hc : S.card ≤ 1)
    (hlen : 2 ≤ (cs i).keys.length) : ∃ vals sched, ∀ order, ¬ Atomic cs vals .empty sched order := by
  have hij : i ≠ j := fun h => by rw [h, hj] at hi; cases hi
  obtain ⟨k, k', keys, hkeys⟩ := exists_two hlen
  have hkS : k ∈ S := (cs i).mem_keys.1 (by simp [hkeys])
  obtain rfl : k' = k := Finset.card_le_one.1 hc k' ((cs i).mem_keys.1 (by simp [hkeys])) k hkS
  let vals : ι → Nat → Bytes := fun l n => if l = i ∧ n = 0 then "1" else "2"
  have hla : ∀ l, lastValue (cs l).keys (vals l) k' = some "2" := by
    intro l
    by_cases hl : l = i
    · subst hl
      obtain ⟨n, -, hn⟩ := exists_lastValue (fun n => vals l (n + 1)) (mem_cons_self (a := k') (l := keys))
      rw [hkeys, lastValue, hn]
      simp [vals]
    · obtain ⟨n, -, hn⟩ := exists_lastValue (vals l) ((cs l).mem_keys.2 hkS)
      rw [hn]
      simp [vals, hl]
  let s₁ := (clients cs vals .empty).turn (i, 0)
  have hj' : s₁.threads j = getCode [] (cs j).keys := by
    rw [System.turn_threads_ne _ hij.symm]
    exact MultiKey.code_get _ hj ((cs j).keys_ne_nil ⟨k', hkS⟩)
  have hse : seen 0 s₁.shared k' = .bulkString "1" := by
    have hs : s₁.shared = Store.put Keyspace.empty k' (some ⟨.string (vals i 0), 0, 0⟩) 1 := by
      simp only [s₁, System.turn, clients]
      rw [MultiKey.code_set _ hi (by simp [hkeys]), hkeys, effect_setCode]
      rfl
    rw [hs]
    refine seen_of_lookup (Store.lookup_put ..) rfl ?_
    simp [vals]
  obtain ⟨x, rest, hx⟩ := exists_cons_of_ne_nil ((cs j).keys_ne_nil ⟨k', hkS⟩)
  have hxk : x = k' := Finset.card_le_one.1 hc x ((cs j).mem_keys.1 (by simp [hx])) k' hkS
  obtain ⟨m, hm⟩ := s₁.run_alone j 0
  refine ⟨vals, (i, 0) :: List.replicate m (j, 0), fun order h => ?_⟩
  have ht : ((clients cs vals .empty).run ((i, 0) :: List.replicate m (j, 0))).threads j =
      .ret (reply (.ofArray (.bulkString "1" :: rest.map (seen 0 s₁.shared)))) := by
    rw [System.run_cons]
    rw [hm]
    dsimp only
    rw [update_self, hj', alone_getCode, nil_append, hx, map_cons, hxk, hse]
  obtain ⟨p, hp⟩ := h.replies j _ hj ht
  rw [hx, hxk] at hp
  obtain ⟨⟨now, -, hf⟩, -⟩ := forall₂_cons.1 hp
  rcases h.seen_take p with hni | ⟨l, -, hl⟩
  · rw [hni, seen_of_none rfl] at hf
    exact bulkString_ne_nil _ hf
  · rw [hl k' hkS now _ (hla l)] at hf
    exact absurd (bulkString_injective hf) (by decide)

theorem run_part (now : Int) {i : ι} {done rest : List Bytes} {v : Nat → Bytes} (h : s.threads i = setCode (done ++ rest) v) :
    ∃ ks', s.run (List.replicate done.length (i, now)) =
      ⟨Function.update s.threads i (setCode rest fun n => v (done.length + n)), ks'⟩ := by
  induction done generalizing s v with
  | nil =>
    refine ⟨s.shared, ?_⟩
    simp only [length_nil, Nat.zero_add, nil_append] at h ⊢
    rw [← h, update_eq_self]
    rfl
  | cons k done ih =>
    have ht : (s.turn (i, now)).threads i = setCode (done ++ rest) fun n => v (n + 1) := by
      rw [System.turn_threads_self, h]
      rfl
    obtain ⟨ks', hk⟩ := ih ht
    refine ⟨ks', ?_⟩
    rw [length_cons, replicate_succ, System.run_cons, hk]
    simp only [System.turn, update_idem]
    refine congrArg (fun code => System.mk (Function.update s.threads i code) ks') ?_
    refine congrArg (setCode rest) (funext fun n => congrArg v ?_)
    omega

theorem mixture {i j : ι} (hij : i ≠ j) (hset : ∀ i, (cs i).isSet = true) (hc : 1 < S.card) :
    ∃ vals sched, ∀ order, ¬ Atomic cs vals .empty sched order := by
  obtain ⟨x, hx, y, hy, hxy⟩ := Finset.one_lt_card.1 hc
  obtain ⟨keys, k, hkeys⟩ := (eq_nil_or_concat (cs i).keys).resolve_left ((cs i).keys_ne_nil ⟨x, hx⟩)
  rw [concat_eq_append] at hkeys
  have hkS : k ∈ S := (cs i).mem_keys.1 (by simp [hkeys])
  obtain ⟨y, hy, hyk⟩ : ∃ y ∈ S, y ≠ k := by
    by_cases hxk : x = k
    · exact ⟨y, hy, fun hyk => hxy (hxk.trans hyk.symm)⟩
    · exact ⟨x, hx, hxk⟩
  let vals : ι → Nat → Bytes := fun l _ => if l = i then "1" else "2"
  have hla : ∀ l, ∀ x ∈ S, lastValue (cs l).keys (vals l) x = some (vals l 0) := by
    intro l x hx
    obtain ⟨n, -, hn⟩ := exists_lastValue (vals l) ((cs l).mem_keys.2 hx)
    exact hn
  have hi : (clients cs vals .empty).threads i = setCode (keys ++ [k]) (vals i) := by
    rw [← hkeys]
    exact MultiKey.code_set _ (hset i) ((cs i).keys_ne_nil ⟨k, hkS⟩)
  -- Client `i` writes all pairs but the last, client `j` runs, client `i` writes its last pair.
  obtain ⟨ks₁, h₁⟩ := run_part 0 hi
  let s₁ : System ι Int Keyspace Outcome :=
    ⟨Function.update (clients cs vals .empty).threads i (setCode [k] fun n => vals i (keys.length + n)), ks₁⟩
  have hj' : s₁.threads j = ofProg ksStep ((cs j).program (vals j)) := update_of_ne hij.symm ..
  have hne : (cs j).keys ≠ [] := (cs j).keys_ne_nil ⟨k, hkS⟩
  obtain ⟨n, h₂⟩ := s₁.run_alone j 0
  obtain ⟨m, hm⟩ := (cs j).lookup_alone (hset j) hy (vals j) 0 ks₁
  rw [hj'] at h₂
  generalize hk : ((ofProg ksStep ((cs j).program (vals j))).alone 0 s₁.shared).2 = ks₂ at h₂
  have hou : ((ofProg ksStep ((cs j).program (vals j))).alone 0 s₁.shared).1 = wrote ok := by
    rw [MultiKey.code_set _ (hset j) hne, alone_setCode_fst]
  have hy' : ks₂.entries.lookup y = some ⟨.string (vals j m), 0, 0⟩ := by rw [← hk]; exact hm
  let sched := List.replicate keys.length (i, (0 : Int)) ++ (List.replicate n (j, 0) ++ [(i, 0)])
  have hr : (clients cs vals .empty).run sched =
      System.turn ⟨Function.update s₁.threads j (.ret (wrote ok)), ks₂⟩ (i, 0) := by
    rw [System.run_append, h₁, System.run_append]
    change (s₁.run (List.replicate n (j, 0))).turn (i, 0) = _
    rw [h₂, hou]
  have hi' : Function.update s₁.threads j (.ret (wrote ok)) i = setCode [k] fun n => vals i (keys.length + n) := by
    rw [update_of_ne hij]
    exact update_self ..
  have hi₃ : ((clients cs vals .empty).run sched).threads i = .ret (wrote ok) := by
    rw [hr, System.turn_threads_self]
    dsimp only
    rw [hi']
    rfl
  have hj : ((clients cs vals .empty).run sched).threads j = .ret (wrote ok) := by
    rw [hr, System.turn_threads_ne _ hij.symm]
    exact update_self ..
  have hsh : ((clients cs vals .empty).run sched).shared =
      ks₂.put k (some ⟨.string "1", 0, 0⟩) (if (ks₂.entries.lookup k).isSome then 0 else 1) := by
    rw [hr]
    simp only [System.turn, hi', effect_setCode, vals, if_true]
  refine ⟨vals, sched, fun order h => ?_⟩
  obtain ⟨hf, hs⟩ := h.whole fun l hl _ => by
    have hl' : l = i ∨ l = j := by
      simp only [sched, map_append, mem_append, map_replicate, mem_replicate, map_cons,
        map_nil, mem_singleton] at hl
      rcases hl with ⟨-, hl⟩ | ⟨-, hl⟩ | hl
      · exact .inl hl
      · exact .inr hl
      · exact .inl hl
    rcases hl' with rfl | rfl
    · exact ⟨_, hi₃⟩
    · exact ⟨_, hj⟩
  have ho : order ≠ [] := ne_nil_of_mem (hf i (hset i) hi₃)
  obtain ⟨order', l, hl⟩ := (eq_nil_or_concat order).resolve_left ho
  rw [concat_eq_append] at hl
  have ha : ∀ x ∈ S, stored (afterSets cs vals order .empty) x = some (.string (vals l 0), 0) := by
    intro x hx
    rw [hl, stored, lookup_afterSets_concat (hset l) hx, hla l x hx]
    rfl
  have hon : vals l 0 = "1" := by
    have := hs ho k hkS
    rw [ha k hkS, hsh, stored, Store.lookup_put] at this
    simpa using this.symm
  have ht : vals l 0 = "2" := by
    have := hs ho y hy
    rw [ha y hy, hsh, stored, Store.lookup_put_ne _ hyk, hy'] at this
    simpa [vals, hij.symm] using this.symm
  exact absurd (hon.symm.trans ht) (by decide)

/-- Commands on the same keys are atomic, whatever their values, the keyspace before them and the schedule, exactly when
nobody writes, there is only one client, or there is only one key and either nobody reads or all commands name it
once. -/
theorem mset_atomic_iff (cs : ι → MultiKey S) :
    (∀ vals ks sched, ∃ order, Atomic cs vals ks sched order) ↔
      (∀ i, (cs i).isSet = false) ∨ Subsingleton ι ∨
        S.card ≤ 1 ∧ ((∀ i, (cs i).isSet = true) ∨ ∀ i, (cs i).keys.length ≤ 1) := by
  constructor
  · intro h
    by_contra hcn
    obtain ⟨hw, hm, hkeys⟩ : (¬ ∀ i, (cs i).isSet = false) ∧ ¬ Subsingleton ι ∧
        ¬ (S.card ≤ 1 ∧ ((∀ i, (cs i).isSet = true) ∨ ∀ i, (cs i).keys.length ≤ 1)) := by
      simpa only [not_or] using hcn
    have hno : ¬ ∃ vals sched, ∀ order, ¬ Atomic cs vals .empty sched order := by
      rintro ⟨vals, sched, ha⟩
      obtain ⟨order, hor⟩ := h vals .empty sched
      exact ha order hor
    obtain ⟨i, hi⟩ := not_forall.1 hw
    replace hi : (cs i).isSet = true := by simpa using hi
    by_cases ha : ∀ j, (cs j).isSet = true
    · -- Only `MSET`s: there are two clients and two keys.
      have hc : 1 < S.card := by
        by_contra hc
        exact hkeys ⟨not_lt.1 hc, .inl ha⟩
      obtain ⟨j, hij⟩ : ∃ j, i ≠ j := by
        by_contra ho
        exact hm ⟨fun a b => (not_not.1 (not_exists.1 ho a)).symm.trans (not_not.1 (not_exists.1 ho b))⟩
      exact hno (mixture hij ha hc)
    · obtain ⟨j, hj⟩ := not_forall.1 ha
      replace hj : (cs j).isSet = false := by simpa using hj
      by_cases hlen : 2 ≤ (cs j).keys.length
      · exact hno (torn_read hi hj hlen)
      · have hc : S.card ≤ 1 := by
          have := (cs j).keys.toFinset_card_le
          rw [(cs j).covers] at this
          omega
        obtain ⟨l, hl⟩ := not_forall.1 (not_or.1 (not_and.1 hkeys hc)).2
        rw [not_le] at hl
        by_cases hset : (cs l).isSet = true
        · exact hno (half_read hset hj hc hl)
        · exact hno (torn_read hi (by simpa using hset) hl)
  · intro hco vals ks sched
    rcases Finset.eq_empty_or_nonempty S with hS | hS
    · exact ⟨[], atomic_of_empty hS⟩
    have hca : ((∀ i, (cs i).isSet = false) ∨ ∀ i, (cs i).keys.length ≤ 1) → ∃ order, Atomic cs vals ks sched order := by
      intro hH
      obtain ⟨order, h⟩ := System.run_inv (J := fun s => ∃ order, Calm cs vals ks sched s order) (P := (· ∈ sched))
        (c := clients cs vals ks) (fun s i now hp h => calm_turn hS hH hp h) (fun _ hp => hp) ⟨[], nodup_nil, forall_mem_nil _,
          fun i hset => .inl ⟨not_mem_nil, MultiKey.code_set _ hset ((cs i).keys_ne_nil hS)⟩,
          fun i hget => ⟨[], (cs i).keys, [], 0, rfl, MultiKey.code_get _ hget ((cs i).keys_ne_nil hS), le_refl _, .nil⟩,
          fun _ => .inl rfl⟩
      exact ⟨order, h.atomic hS⟩
    have hs : (Subsingleton ι ∨ S.card ≤ 1) → (∀ i, (cs i).isSet = true) → ∃ order, Atomic cs vals ks sched order := by
      intro hH hset
      obtain ⟨order, h⟩ := System.run_inv (J := fun s => ∃ order, Settled cs vals sched s order) (P := (· ∈ sched))
        (c := clients cs vals ks) (fun s i now hp h => h.elim fun _ h => settled_turn hH hp h) (fun _ hp => hp) ⟨[], nodup_nil, forall_mem_nil _,
          fun i => ⟨[], (cs i).keys, rfl, (MultiKey.code_set _ (hset i) ((cs i).keys_ne_nil hS)).trans
            (congrArg _ (funext fun n => congrArg _ (Nat.zero_add n).symm)),
            by simpa using (cs i).keys_ne_nil hS, by rintro _ _ _ ⟨⟩⟩,
          .inr (.inl rfl)⟩
      exact ⟨order, h.atomic hset⟩
    rcases hco with hr | ho | ⟨hc, hset | hlen⟩
    · exact hca (.inl hr)
    · by_cases ha : ∀ i, (cs i).isSet = true
      · exact hs (.inl ho) ha
      · obtain ⟨i, hi⟩ := not_forall.1 ha
        exact hca (.inl fun j => by rw [ho.elim j i]; simpa using hi)
    · exact hs (.inr hc) hset
    · exact hca (.inr hlen)

/-- `MSET a 1 b 1`, with `MGET a b` after its first pair: the reply is neither that before nor that after it. -/
theorem mget_sees_half :
    let cs : Bool → MultiKey {lit "a", lit "b"} := fun isSet => ⟨isSet, ["a", "b"], rfl⟩
    let sched := [(true, 0), (false, 0), (false, 0), (true, 0)]
    let s := (clients cs (fun _ _ => "1") .empty).run sched
    s.threads true = .ret (wrote ok) ∧ s.threads false = .ret (reply (.ofArray [.bulkString "1", .nil])) ∧
      ∀ order, ¬ Atomic cs (fun _ _ => "1") .empty sched order := by
  intro cs sched s
  have hr : s.threads false = .ret (reply (.ofArray [.bulkString "1", .nil])) := by with_unfolding_all rfl
  refine ⟨by with_unfolding_all rfl, hr, fun order h => ?_⟩
  obtain ⟨n, hn⟩ := h.replies false _ rfl hr
  obtain ⟨⟨now, -, ha⟩, hn⟩ := forall₂_cons.1 hn
  obtain ⟨⟨now', -, hb⟩, -⟩ := forall₂_cons.1 hn
  rcases h.seen_take n with hni | ⟨l, -, hl⟩
  · rw [hni, seen_of_none rfl] at ha
    exact bulkString_ne_nil _ ha
  · rw [hl (lit "b") (by simp) now' (lit "1") rfl] at hb
    exact bulkString_ne_nil _ hb.symm

end Runs

end VortexKV
