import VortexKV.Proofs.Content
import VortexKV.Proofs.Footprint
import VortexKV.Proofs.Reads

/-!
# Commands that look before they write

The commands that change a value in place (`DataCmd.isUpdate`) first find out whether their key is there
(`careful_action`), so the clock matters only through which entries have expired (`Careful.sim`, `Careful.expiry`,
`Careful.fresh`).
-/

namespace VortexKV

open KeyedStore

variable {x : Int} {k : Bytes} {p : KsProg Outcome} {ks : Keyspace}

/-! ### The protocol -/

inductive Known
  | unknown
  | live
  | absent
deriving DecidableEq

/-- A new entry only where there is none, without a time to live; a change in place only where there is one. -/
def careful : Prog.Protocol Ks Known where
  allowed
    | .set _ exp, t => exp = 0 ∧ t = .absent
    | .put _, t => t = .live
    | .expire _, _ => False
    | .persist, _ => False
    | _, _ => True
  next
    | .get, found, _ => if Option.isSome (α := Datum × Int) found then .live else .absent
    | _, _, _ => .live

abbrev Careful (k : Bytes) : Known → KsProg Outcome → Prop :=
  Prog.Follows careful k fun t out => t = .unknown → out.Unflagged

section

variable {k : Bytes} {t : Known} {p : KsProg Outcome} {α : Type}

theorem careful_reply (v : Value) : Careful k t (pure (reply v)) := fun _ => unflagged_reply v

theorem careful_fails (msg : Bytes) : Careful k t (pure (fails msg)) := careful_reply _

theorem careful_wrongArgs (cmd : Bytes) : Careful k t (pure (wrongArgs cmd)) := careful_reply _

theorem careful_stop (s : Stop) : Careful k t (pure (.error s)) := fun _ => nofun

theorem careful_wrote (v : Value) : Careful k .live (pure (wrote v)) := nofun

theorem careful_get {f : Option (Datum × Int) → KsProg Outcome} (hn : Careful k .absent (f none))
    (hs : ∀ x, Careful k .live (f (some x))) : Careful k t (KsProg.get k >>= f) := by
  refine ⟨rfl, trivial, fun x : Option (Datum × Int) => ?_⟩
  cases x with
  | none => exact hn
  | some x => exact hs x

theorem careful_put {f : Unit → KsProg Outcome} (v : Datum) (hf : Careful k .live (f ())) :
    Careful k .live (KsProg.put k v >>= f) := ⟨rfl, rfl, fun _ => hf⟩

theorem careful_set {f : Unit → KsProg Outcome} (v : Datum) (hf : Careful k .live (f ())) :
    Careful k .absent (KsProg.set k v 0 >>= f) := ⟨rfl, ⟨rfl, rfl⟩, fun _ => hf⟩

theorem careful_setNX {f : Bool → KsProg Outcome} (v : Datum) (hf : ∀ x, Careful k .live (f x)) :
    Careful k t (KsProg.setNX k v >>= f) := ⟨rfl, trivial, hf⟩

theorem careful_incrBy {f : Except Bytes Int → KsProg Outcome} (delta : Int) (hf : ∀ x, Careful k .live (f x)) :
    Careful k t (KsProg.incrBy k delta >>= f) := ⟨rfl, trivial, hf⟩

theorem careful_append {f : Except Bytes Int → KsProg Outcome} (val : Bytes) (hf : ∀ x, Careful k .live (f x)) :
    Careful k t (KsProg.append k val >>= f) := ⟨rfl, trivial, hf⟩

theorem careful_withValue {as : Datum → Option α} {v : Value} {f : α → KsProg Outcome} (hf : ∀ a, Careful k .live (f a)) :
    Careful k t (withValue as k (reply v) f) := by
  refine careful_get (careful_reply v) fun x => ?_
  dsimp only
  cases as x.1 with
  | none => exact careful_reply v
  | some a => exact hf a

theorem careful_withNewValue {as : Datum → Option α} {new : Datum} {f : α → KsProg Outcome}
    (hf : ∀ a, Careful k .live (f a)) : Careful k t (withNewValue as k new f) := by
  refine ⟨rfl, trivial, fun d : Datum => ?_⟩
  change Careful k .live _
  dsimp only [Prog.bind]
  cases as d with
  | none => exact careful_fails _
  | some a => exact hf a

end

/-! ### The commands -/

def DataCmd.isUpdate : DataCmd → Bool
  | incr | decr | incrby | decrby | append | setnx | hset | hmset | hdel | hincrby | lpush | rpush | lpop | rpop | sadd
  | srem | zadd | zrem | xadd | xdel | xtrim | xgroup | xack | vadd | vdel => true
  | _ => false

def DataCmd.key (args : List Bytes) : DataCmd → Bytes
  | xgroup => args.tail.headD []
  | _ => args.headD []

theorem careful_handleIncrBy (delta : Int) (args : List Bytes) :
    Careful (args.headD []) .unknown (handleIncrBy delta args) := by
  cases args with
  | nil => exact careful_fails _
  | cons key args =>
    refine careful_incrBy delta fun x => ?_
    cases x with
    | error e => exact careful_fails _
    | ok n => exact careful_wrote _

theorem careful_cmdIncrByArg (name : Bytes) (sign : Int) (args : List Bytes) :
    Careful (args.headD []) .unknown (cmdIncrByArg name sign args) := by
  unfold cmdIncrByArg
  split
  · split
    · exact careful_fails _
    · exact careful_handleIncrBy _ [_]
  · exact careful_wrongArgs _

theorem careful_handleXAdd (rt : Runtime) (r : Readings) (args : List Bytes) :
    Careful (args.headD []) .unknown (handleXAdd rt r args) := by
  have hto : ∀ key id fields maxlen s, Careful key .live (xaddTo rt r key id fields maxlen s) := by
    intro key id fields maxlen s
    unfold xaddTo
    split
    · exact careful_fails _
    · exact careful_put _ (careful_wrote _)
  unfold handleXAdd
  split
  · split
    · exact careful_wrongArgs _
    split
    · exact careful_fails _
    · split
      · exact careful_wrongArgs _
      · refine careful_get (careful_set _ (hto _ _ _ _ _)) fun x => ?_
        dsimp only
        split
        · exact careful_fails _
        · exact hto _ _ _ _ _
    · exact careful_wrongArgs _
  · exact careful_wrongArgs _

theorem careful_handleVAdd (rt : Runtime) (args : List Bytes) :
    Careful (args.headD []) .unknown (handleVAdd rt args) := by
  have hto : ∀ key id vec v, Careful key .live (vaddTo key id vec v) := by
    intro key id vec v
    unfold vaddTo
    split
    · exact careful_fails _
    · exact careful_put _ (careful_wrote _)
  unfold handleVAdd
  split
  · split
    · exact careful_fails _
    · refine careful_get (careful_set _ (hto _ _ _ _)) fun x => ?_
      dsimp only
      split
      · exact careful_fails _
      · exact hto _ _ _ _
  · exact careful_fails _

theorem careful_handleXGroup (rt : Runtime) (args : List Bytes) :
    Careful (args.tail.headD []) .unknown (handleXGroup rt args) := by
  have hin : ∀ key group id s, Careful key .live (createGroupIn key group id s) := by
    intro key group id s
    unfold createGroupIn
    split
    · exact careful_fails _
    · exact careful_put _ (careful_wrote _)
  unfold handleXGroup
  split
  · dsimp only [List.tail_cons, List.headD_cons]
    split_ifs
    · unfold xgroupCreate
      split
      · rename_i key' group id opts heq
        cases heq
        refine careful_get ?_ fun x => ?_
        · dsimp only
          split
          · exact careful_fails _
          · exact careful_set _ (hin _ _ _ _)
        · dsimp only
          split
          · exact careful_fails _
          · exact hin _ _ _ _
      · exact careful_wrongArgs _
    · unfold xgroupDestroy
      split
      · rename_i heq
        cases heq
        refine careful_withValue fun s => ?_
        split
        · exact careful_put _ (careful_wrote _)
        · exact careful_reply _
      · exact careful_wrongArgs _
    · unfold xgroupSetID
      split
      · rename_i heq
        cases heq
        refine careful_withValue fun s => ?_
        split
        · exact careful_fails _
        · exact careful_put _ (careful_wrote _)
      · exact careful_wrongArgs _
    · unfold xgroupDelConsumer
      split
      · rename_i heq
        cases heq
        exact careful_withValue fun s => careful_put _ (careful_wrote _)
      · exact careful_wrongArgs _
    · exact careful_fails _
  · exact careful_wrongArgs _

theorem careful_action (rt : Runtime) (r : Readings) (args : List Bytes) {c : DataCmd} (hc : c.isUpdate = true) :
    ∃ p, c.action rt r args = .prog p ∧ Careful (c.key args) .unknown p := by
  cases c
  all_goals first
    | cases hc; done
    | refine ⟨_, rfl, ?_⟩
  case incr | decr => exact careful_handleIncrBy _ args
  case incrby | decrby => exact careful_cmdIncrByArg _ _ args
  case xadd => exact careful_handleXAdd rt r args
  case vadd => exact careful_handleVAdd rt args
  case xgroup => exact careful_handleXGroup rt args
  all_goals
    change Careful (args.headD []) .unknown _
    first
      | unfold cmdAppend | unfold cmdSetNX | unfold handleHSet
      | unfold handleHMSet | unfold cmdHDel | unfold cmdHIncrBy | unfold cmdPush | unfold cmdPop | unfold cmdSAdd
      | unfold cmdSRem | unfold handleZAdd | unfold cmdZRem | unfold handleXDel | unfold handleXTrim | unfold handleXAck
      | unfold handleVDel
    repeat' first
      | dsimp only [List.headD_cons]
      | with_reducible exact careful_wrote _
      | with_reducible exact careful_reply _
      | with_reducible exact careful_fails _
      | with_reducible exact careful_wrongArgs _
      | with_reducible exact careful_stop _
      | with_reducible refine careful_withValue ?_
      | with_reducible refine careful_withNewValue ?_
      | with_reducible refine careful_put _ ?_
      | with_reducible refine careful_setNX _ ?_
      | with_reducible refine careful_incrBy _ ?_
      | with_reducible refine careful_append _ ?_
      | with_reducible intro _
      | split

/-! ### Two clocks -/

section

variable {now now' : Int} {c c' : Option Entry} {t : Known}

theorem liveCell_cases (now : Int) (c : Option Entry) :
    (liveCell now c = none ∧ ∃ d, dropExpired now c = (none, d)) ∨
      ∃ e : Entry, c = some e ∧ e.isExpired now = false ∧ dropExpired now c = (some e, 0) ∧
        liveCell now c = some (e.value, e.expiresAt) := by
  cases c with
  | none => exact .inl ⟨rfl, 0, rfl⟩
  | some e =>
    cases he : e.isExpired now with
    | true => exact .inl ⟨by simp [liveCell, dropExpired, he], -1, by simp [dropExpired, he]⟩
    | false => exact .inr ⟨e, rfl, he, by simp [dropExpired, he], by simp [liveCell, dropExpired, he]⟩

/-- The cells hold the same, and are live at their clocks both or neither; `t` is right about them. -/
structure Agree (now now' : Int) (t : Known) (c c' : Option Entry) : Prop where
  content : cellContent c = cellContent c'
  live : liveCell now c = liveCell now' c'
  known : (t = .live → liveCell now c ≠ none) ∧ (t = .absent → c = none)

theorem agree_live {v : Datum} {a a' : Int} (h : Entry.isExpired ⟨v, x, a⟩ now = false)
    (h' : Entry.isExpired ⟨v, x, a'⟩ now' = false) : Agree now now' .live (some ⟨v, x, a⟩) (some ⟨v, x, a'⟩) :=
  ⟨rfl, by simp [liveCell, dropExpired, h, h'], by simp [liveCell, dropExpired, h]⟩

theorem agree_new (v : Datum) (a a' : Int) : Agree now now' .live (some ⟨v, 0, a⟩) (some ⟨v, 0, a'⟩) :=
  agree_live rfl rfl

theorem agree_absent : Agree now now' .absent none none := ⟨rfl, rfl, nofun, fun _ => rfl⟩

theorem Agree.step (o : KsOp) (ha : careful.allowed o t) (h : Agree now now' t c c') :
    (ksStep now o c).1 = (ksStep now' o c').1 ∧
      Agree now now' (careful.next o (ksStep now o c).1 t) (ksStep now o c).2.1 (ksStep now' o c').2.1 := by
  cases o with
  | expire ttl => exact ha.elim
  | persist => exact ha.elim
  | set v exp =>
    obtain ⟨rfl, -⟩ := ha
    exact ⟨rfl, agree_new v now now'⟩
  | put v =>
    rcases liveCell_cases now c with ⟨hno, -⟩ | ⟨e, rfl, he, -, hli⟩
    · exact absurd hno (h.known.1 ha)
    rcases liveCell_cases now' c' with ⟨hn, -⟩ | ⟨e', rfl, he', -, hl⟩
    · exact absurd (h.live.trans hn) (h.known.1 ha)
    obtain ⟨v₀, x, a⟩ := e
    obtain ⟨v₀', x', a'⟩ := e'
    obtain ⟨-, rfl⟩ : v₀ = v₀' ∧ x = x' := by simpa [cellContent] using h.content
    exact ⟨rfl, agree_live he he'⟩
  | get | setNX v | incrBy delta | append val | getOrCreate new =>
    rcases liveCell_cases now c with ⟨hno, d, hdr⟩ | ⟨⟨v, x, a⟩, rfl, he, hdr, hli⟩
    · rcases liveCell_cases now' c' with ⟨hn, d', hd⟩ | ⟨e', rfl, he', -, hl⟩
      · simp only [ksStep, hdr, hd]
        first
          | exact ⟨rfl, agree_new _ now now'⟩
          | exact ⟨rfl, agree_absent⟩
      · rw [h.live, hl] at hno
        cases hno
    · rcases liveCell_cases now' c' with ⟨hn, -⟩ | ⟨⟨v', x', a'⟩, rfl, he', hd, hl⟩
      · rw [← h.live, hli] at hn
        cases hn
      · obtain ⟨rfl, rfl⟩ : v = v' ∧ x = x' := by simpa [cellContent] using h.content
        simp only [ksStep, hdr, hd]
        repeat' first
          | exact ⟨rfl, agree_live he he'⟩
          | split

theorem Careful.sim (hp : Careful k .unknown p) {ks' : Keyspace}
    (hc : cellContent (ks.entries.lookup k) = cellContent (ks'.entries.lookup k))
    (hl : ks.view now k = ks'.view now' k) :
    (p.run (ksStep now) ks).1 = (p.run (ksStep now') ks').1 ∧
      cellContent ((p.run (ksStep now) ks).2.entries.lookup k) = cellContent ((p.run (ksStep now') ks').2.entries.lookup k) ∧
      Keyspace.view now (p.run (ksStep now) ks).2 k = Keyspace.view now' (p.run (ksStep now') ks').2 k := by
  obtain ⟨hr, t', ha, -⟩ := hp.run_sim (R := Agree now now') (fun o _ _ _ hal h => h.step o hal)
    ⟨hc, hl, nofun, nofun⟩
  exact ⟨hr, ha.content, ha.live⟩

/-! ### Expiry times -/

def Lasting (now x : Int) (t : Known) (c : Option Entry) : Prop :=
  t ≠ .absent ∧ ∃ v a, c = some ⟨v, x, a⟩ ∧ Entry.isExpired ⟨v, x, a⟩ now = false

theorem Lasting.step (o : KsOp) (ha : careful.allowed o t) (h : Lasting now x t c) :
    Lasting now x (careful.next o (ksStep now o c).1 t) (ksStep now o c).2.1 := by
  obtain ⟨ht, v, a, rfl, he⟩ := h
  have hd : dropExpired now (some ⟨v, x, a⟩) = (some ⟨v, x, a⟩, 0) := by simp [dropExpired, he]
  cases o with
  | expire ttl => exact ha.elim
  | persist => exact ha.elim
  | set v exp => exact absurd ha.2 ht
  | put v' => exact ⟨by rintro ⟨⟩, v', a, rfl, he⟩
  | get | setNX v' | incrBy delta | append val | getOrCreate new =>
    simp only [ksStep, hd]
    repeat' first
      | exact ⟨by rintro ⟨⟩, _, _, rfl, he⟩
      | split

theorem Careful.expiry (hp : Careful k .unknown p) {d : Datum}
    (h : ks.view now k = some (d, x)) :
    ∃ d', cellContent ((p.run (ksStep now) ks).2.entries.lookup k) = some (d', x) := by
  rcases liveCell_cases now (ks.entries.lookup k) with ⟨hn, -⟩ | ⟨⟨v, x', a⟩, hc, he, -, hl⟩
  · rw [Keyspace.view, hn] at h
    cases h
  obtain ⟨rfl, rfl⟩ : v = d ∧ x' = x := by simpa [Keyspace.view, hl] using h
  obtain ⟨t', ⟨-, v', a', hce, -⟩, -⟩ := hp.run (J := Lasting now x') (fun o _ _ ha h => h.step o ha)
    ⟨nofun, v, a, hc, he⟩
  exact ⟨v', by rw [hce]; rfl⟩

def Fresh (now : Int) : Known → Option Entry → Prop
  | .unknown, c => liveCell now c = none
  | .live, c => ∃ v a, c = some ⟨v, 0, a⟩
  | .absent, c => c = none

theorem Fresh.step (o : KsOp) (ha : careful.allowed o t) (h : Fresh now t c) :
    Fresh now (careful.next o (ksStep now o c).1 t) (ksStep now o c).2.1 := by
  have hc : (∃ d, dropExpired now c = (none, d)) ∨
      ∃ v a, c = some ⟨v, 0, a⟩ ∧ dropExpired now c = (some ⟨v, 0, a⟩, 0) := by
    cases t with
    | unknown =>
      rcases liveCell_cases now c with ⟨-, hd⟩ | ⟨e, -, -, -, hl⟩
      · exact .inl hd
      · rw [Fresh, hl] at h
        cases h
    | live =>
      obtain ⟨v, a, rfl⟩ := h
      exact .inr ⟨v, a, rfl, rfl⟩
    | absent =>
      obtain rfl := h
      exact .inl ⟨0, rfl⟩
  cases o with
  | expire ttl => exact ha.elim
  | persist => exact ha.elim
  | set v exp =>
    obtain ⟨rfl, -⟩ := ha
    exact ⟨v, now, rfl⟩
  | put v =>
    obtain rfl := ha
    obtain ⟨v', a, rfl⟩ := h
    exact ⟨v, a, rfl⟩
  | get | setNX v' | incrBy delta | append val | getOrCreate new =>
    rcases hc with ⟨d, hd⟩ | ⟨v, a, rfl, hd⟩
    · simp only [ksStep, hd]
      first
        | exact ⟨_, _, rfl⟩
        | exact rfl
    · simp only [ksStep, hd]
      repeat' first
        | exact ⟨_, _, rfl⟩
        | split

theorem careful_next_ne (o : KsOp) (x : o.Ret) (t : Known) : careful.next o x t ≠ .unknown := by
  cases o
  case get =>
    change (if Option.isSome (α := Datum × Int) x then Known.live else .absent) ≠ .unknown
    split <;> nofun
  all_goals nofun

theorem Careful.fresh (hp : Careful k .unknown p) (hca : p.isCall = true) (h : ks.view now k = none) {d : Datum}
    (hc : cellContent ((p.run (ksStep now) ks).2.entries.lookup k) = some (d, x)) : x = 0 := by
  obtain ⟨t', hf, -, hn⟩ := hp.run (J := Fresh now) (fun o _ _ ha h => h.step o ha)
    (s := ks) h
  rcases hn with ⟨-, hr⟩ | ⟨o, r, t₀, rfl⟩
  · rw [hca] at hr
    cases hr
  · cases ht : careful.next o r t₀ with
    | unknown => exact absurd ht (careful_next_ne o r t₀)
    | live =>
      rw [ht] at hf
      obtain ⟨v, a, hce⟩ := hf
      rw [hce] at hc
      cases hc
      rfl
    | absent =>
      rw [ht] at hf
      rw [show _ = none from hf] at hc
      cases hc

end

end VortexKV
