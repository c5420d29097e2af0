import VortexKV.Proofs.Apply
import VortexKV.Proofs.Careful

/-!
# Executing a write again

A logged write is executed again by the replay and by the replicas, at a later time. `DataCmd.Timeless` names the writes
that then do the same to the same keyspace (`write_repeats`).
-/

namespace VortexKV

open KeyedStore List Prog

variable {p : KsProg Outcome} {v : Value} {s : Stream}

def Readings.Later (r r' : Readings) : Prop :=
  ∃ fast now, r.fastNow ≤ fast ∧ r.now ≤ now ∧ r' = { r with fastNow := fast, now := now }

def Untimed (now : Int) (ks : Keyspace) (k : Bytes) : Prop := ∀ d x, Keyspace.view now ks k = some (d, x) → x ≤ 0

/-- The writes that do the same to the same keyspace at any later time. -/
def DataCmd.Timeless (rt : Runtime) (r : Readings) (args : List Bytes) (ks : Keyspace) (c : DataCmd) : Prop :=
  match c with
  | mset | del | flushdb | flushall => True
  | setex | psetex | expire | pexpire => False
  | set => ∀ ttl nx xx, setOptions rt (args.drop 2) 0 false false = .ok (ttl, nx, xx) →
      ttl ≤ 0 ∧ (xx = true → Untimed r.fastNow ks (c.key args))
  | xadd => Untimed r.fastNow ks (c.key args) ∧ (xaddID rt args = some (lit "*") →
      ∃ s x, Keyspace.view r.fastNow ks (c.key args) = some (.stream s, x) ∧ 2 ^ 64 ≤ s.lastID.millis + 1)
  | c => Untimed r.fastNow ks (c.key args)

/-- Executed again at any later time, the command gives the same keyspace. -/
def DataCmd.Repeats (rt : Runtime) (r : Readings) (args : List Bytes) (ks : Keyspace) (c : DataCmd) : Prop :=
  ∀ r', r.Later r' → (∃ x, ((c.action rt r' args).run r'.fastNow ks).1 = .ok x) ∧
    ∀ k, Keyspace.content ((c.action rt r' args).run r'.fastNow ks).2 k =
      Keyspace.content ((c.action rt r args).run r.fastNow ks).2 k

section

variable {rt : Runtime} {r r' : Readings} {args : List Bytes} {ks ks' : Keyspace} {now now' : Int} {k : Bytes} {c : DataCmd}

theorem Readings.Later.fastNow (h : r.Later r') : r.fastNow ≤ r'.fastNow := by
  obtain ⟨fast, now, hf, -, rfl⟩ := h
  exact hf

theorem later_fast {fast : Int} (h : r.fastNow ≤ fast) : r.Later { r with fastNow := fast } :=
  ⟨fast, r.now, h, le_refl _, rfl⟩

theorem later_now {now : Int} (h : r.now ≤ now) : r.Later { r with now := now } := ⟨r.fastNow, now, le_refl _, h, rfl⟩

theorem Readings.Later.refl (r : Readings) : r.Later r := ⟨_, _, le_refl _, le_refl _, rfl⟩

/-! ### Views at two times -/

theorem view_none_mono (h : now ≤ now') (hn : ks.view now k = none) : ks.view now' k = none := by
  unfold Keyspace.view at *
  rw [liveCell_later h, hn]
  rfl

theorem Untimed.view (hu : Untimed now ks k) (h : now ≤ now') : ks.view now' k = ks.view now k := by
  rcases hv : ks.view now k with _ | ⟨d, x⟩
  · exact view_none_mono h hv
  · have hx := hu d x hv
    unfold Keyspace.view at *
    rw [liveCell_later h, hv]
    simp [Option.filter, Int.not_lt.2 hx]

theorem view_expired {d : Datum} {x : Int} (h : ks.view now k = some (d, x)) (hx : 0 < x) (hn : now ≤ now')
    (hle : x ≤ now') : ks.view now' k = none := by
  unfold Keyspace.view at *
  rw [liveCell_later hn, h]
  simp [Option.filter, hx, hle]

theorem wrap64_succ_ne (x : Int) : wrap64 (x + 1) ≠ wrap64 x := by
  unfold wrap64
  rw [Int.bmod_def, Int.bmod_def]
  omega

/-! ### Changes in place -/

theorem Careful.same (hp : Careful k .unknown p) (hc : ∀ k, ks'.content k = ks.content k)
    (hv : ks'.view now' k = ks.view now k) :
    (p.run (ksStep now') ks').1 = (p.run (ksStep now) ks).1 ∧
      ∀ k, Keyspace.content (p.run (ksStep now') ks').2 k = Keyspace.content (p.run (ksStep now) ks).2 k := by
  obtain ⟨hr, hke, -⟩ := hp.sim (hc k) hv
  refine ⟨hr, fun k' => ?_⟩
  by_cases hk : k' = k
  · rw [hk]
    exact hke
  · have hf : ∀ (now : Int) (ks : Keyspace), Keyspace.content (p.run (ksStep now) ks).2 k' = ks.content k' := fun now ks =>
      congrArg cellContent (run_frame hp.within ks hk)
    rw [hf, hf, hc]

theorem Careful.isCall (hp : Careful k .unknown p)
    (hf : (p.run (ksStep now) ks).1 = .ok (v, true)) : p.isCall = true := by
  cases p with
  | ret out => cases hp rfl v true hf
  | call k o next => rfl

theorem zaddLoop_near (h : r'.near = r.near) (pairs : List Bytes) (z : SkipList) :
    zaddLoop rt r' pairs z = zaddLoop rt r pairs z := by
  fun_induction zaddLoop rt r pairs z with
  | case1 score member rest z hs => simp only [zaddLoop, hs]
  | case2 z score member rest x hs done n z' hr ih => simp only [zaddLoop, hs, h, ih, hr]
  | case3 pairs z hp => unfold zaddLoop; split <;> simp_all

theorem update_later (hc : c.isUpdate = true) (hx : c ≠ .xadd) (h : r.Later r') :
    c.action rt r' args = c.action rt r args := by
  obtain ⟨fast, now, -, -, rfl⟩ := h
  cases c
  case xadd => exact absurd rfl hx
  case zadd =>
    have hn : ({ r with fastNow := fast, now := now } : Readings).near = r.near := rfl
    have hl : zaddLoop rt { r with fastNow := fast, now := now } = zaddLoop rt r :=
      funext fun pairs => funext fun z => zaddLoop_near hn pairs z
    simp only [DataCmd.action, handleZAdd, hl]
  all_goals first
    | cases hc; done
    | rfl

theorem Careful.untimed (hp : Careful k .unknown p)
    (hf : (p.run (ksStep now) ks).1 = .ok (v, true))
    (hr : ∀ now', now ≤ now' → Keyspace.content (p.run (ksStep now') ks).2 k = Keyspace.content (p.run (ksStep now) ks).2 k) :
    Untimed now ks k := by
  intro d x hv
  by_contra hx
  have hg := view_expired hv (by omega) (le_max_left now x) (le_max_right now x)
  obtain ⟨d', hc⟩ := hp.expiry hv
  have := hp.fresh (hp.isCall hf) hg ((hr _ (le_max_left now x)).trans hc)
  omega

/-! ### `XADD` -/

theorem assignID_now {quote : Bytes → Bytes} {id : Bytes} (hid : id ≠ lit "*") (n n' : Int) (s : Stream) :
    s.assignID quote n' id = s.assignID quote n id := by
  unfold Stream.assignID
  rw [if_neg hid, if_neg hid]

theorem assignID_last {quote : Bytes → Bytes} (hs : 2 ^ 64 ≤ s.lastID.millis + 1) (id : Bytes) (n n' : Int) :
    s.assignID quote n' id = s.assignID quote n id := by
  by_cases hid : id = lit "*"
  · have hle : ∀ n : Int, ¬ (n / 1000000 % 2 ^ 64).toNat > s.lastID.millis := by
      omega
    simp only [Stream.assignID, if_true, hle, if_false]
  · exact assignID_now hid n n' s

def xaddStream (now : Int) (ks : Keyspace) (key : Bytes) : Option Stream :=
  match Keyspace.view now ks key with
  | none => some .new
  | some (d, _) => d.stream?

theorem run_handleXAdd (h : ∀ id s, xaddID rt args = some id → xaddStream now ks (args.headD []) = some s →
    s.assignID rt.quote r'.now id = s.assignID rt.quote r.now id) :
    (handleXAdd rt r' args).run (ksStep now) ks = (handleXAdd rt r args).run (ksStep now) ks := by
  rcases args with _ | ⟨key, rest⟩
  · rfl
  simp only [handleXAdd]
  split_ifs
  · rfl
  rcases hm : xaddMaxlen rt rest with e | ⟨maxlen, _ | ⟨id, fields⟩⟩
  · rfl
  · rfl
  dsimp only
  split_ifs
  · rfl
  have hto : ∀ s, xaddStream now ks key = some s →
      xaddTo rt r' key id fields maxlen s = xaddTo rt r key id fields maxlen s := by
    intro s hs
    have hid := h id s (by simp [xaddID, hm]) hs
    unfold xaddTo Stream.add
    rw [hid]
  rw [run_get_bind, run_get_bind]
  rcases hv : ks.view now key with _ | ⟨d, x⟩
  · rw [hto .new (by rw [xaddStream, hv])]
  · dsimp only
    rcases hd : d.stream? with _ | s
    · rfl
    · dsimp only
      rw [hto s (by rw [xaddStream, hv]; exact hd)]

theorem lastID_added {id : Bytes} {fields : List Bytes} {maxlen : Int} {sid : StreamID}
    (hs : s.assignID rt.quote r.now id = .ok sid) : (s.added rt.quote r.now id fields maxlen).lastID = sid := by
  unfold Stream.added Stream.add
  rw [hs]
  dsimp only
  split
  · unfold Stream.trim
    split <;> rfl
  · rfl

theorem lastID_handleXAdd (hf : ((handleXAdd rt r args).run (ksStep now) ks).1 = .ok (v, true)) :
    ∃ id s x, xaddID rt args = some id ∧ xaddStream now ks (args.headD []) = some s ∧
      ∀ (r' : Readings) (sid : StreamID), s.assignID rt.quote r'.now id = .ok sid → ∃ s' : Stream, s'.lastID = sid ∧
        Keyspace.content ((handleXAdd rt r' args).run (ksStep now) ks).2 (args.headD []) = some (.stream s', x) := by
  rcases args with _ | ⟨key, rest⟩
  · cases hf
  rw [handleXAdd] at hf
  by_cases hlen : rest.length < 3
  · rw [if_pos hlen] at hf
    cases hf
  rcases hm : xaddMaxlen rt rest with e | ⟨maxlen, _ | ⟨id, fields⟩⟩
  · rw [if_neg hlen, hm] at hf
    cases hf
  · rw [if_neg hlen, hm] at hf
    cases hf
  rw [if_neg hlen, hm] at hf
  dsimp only at hf
  by_cases hfi : fields = [] ∨ fields.length % 2 ≠ 0
  · rw [if_pos hfi] at hf
    cases hf
  rw [if_neg hfi, run_get_bind] at hf
  have hid : xaddID rt (key :: rest) = some id := by simp [xaddID, hm]
  have hc := fun r' : Readings => content_handleXAdd (r := r') now ks key hlen hm hfi key
  simp only [if_true] at hc
  rcases hv : ks.view now key with _ | ⟨d, x⟩
  · rw [hv] at hc
    exact ⟨id, .new, 0, hid, by rw [headD_cons, xaddStream, hv], fun r' sid hs =>
      ⟨_, lastID_added hs, hc r'⟩⟩
  · rw [hv] at hf hc
    rcases hd : d.stream? with _ | s
    · simp only [hd] at hf
      cases hf
    · simp only [Option.getD_some, edit, hd] at hc
      exact ⟨id, s, x, hid, by rw [headD_cons, xaddStream, hv]; exact hd, fun r' sid hs =>
        ⟨_, lastID_added hs, hc r'⟩⟩

theorem assignID_star (quote : Bytes → Bytes) (n : Int) (s : Stream) :
    s.assignID quote n (lit "*") = .ok (if (n / 1000000 % 2 ^ 64).toNat > s.lastID.millis
      then ⟨(n / 1000000 % 2 ^ 64).toNat, 0⟩ else s.lastID.next) := by
  rw [Stream.assignID, if_pos rfl]

theorem exists_later (n : Int) {m : Nat} (hm : m < 2 ^ 64) : ∃ n', n ≤ n' ∧ (n' / 1000000 % 2 ^ 64).toNat = m := by
  refine ⟨1000000 * (2 ^ 64 * n.natAbs + m), ?_, ?_⟩
  · omega
  · omega

theorem last_of_same (quote : Bytes → Bytes) (n : Int)
    (h : ∀ n', n ≤ n' → s.assignID quote n' (lit "*") = s.assignID quote n (lit "*")) : 2 ^ 64 ≤ s.lastID.millis + 1 := by
  by_contra hlt
  obtain ⟨n₁, hn, h₁⟩ := exists_later n (m := 2 ^ 64 - 1) (by omega)
  obtain ⟨n₀, hn', h₀⟩ := exists_later n (m := 0) (by omega)
  have heq := (h n₁ hn).trans (h n₀ hn').symm
  rw [assignID_star, assignID_star, h₁, h₀, if_pos (by omega), if_neg (by omega)] at heq
  have hm : 2 ^ 64 - 1 = s.lastID.millis := congrArg StreamID.millis (Except.ok.inj heq)
  omega

/-! ### The update commands -/

theorem timeless_update (hc : c.isUpdate = true) (hx : c ≠ .xadd) :
    c.Timeless rt r args ks ↔ Untimed r.fastNow ks (c.key args) := by
  cases c
  case xadd => exact absurd rfl hx
  all_goals first
    | cases hc; done
    | rfl

theorem repeats_update (hc : c.isUpdate = true) (hx : c ≠ .xadd)
    (hf : ((c.action rt r args).run r.fastNow ks).1 = .ok (v, true)) :
    c.Repeats rt r args ks ↔ c.Timeless rt r args ks := by
  rw [timeless_update hc hx]
  obtain ⟨p, hp, hca⟩ := careful_action rt r args hc
  have hru : ∀ {r'}, r.Later r' → (c.action rt r' args).run r'.fastNow ks = p.run (ksStep r'.fastNow) ks := fun h => by
    rw [update_later hc hx h, hp]
    rfl
  have hr := hru (Readings.Later.refl r)
  rw [hr] at hf
  constructor
  · intro h
    refine hca.untimed hf fun now' hn => ?_
    have hco := (h _ (later_fast hn)).2 (c.key args)
    rwa [hru (later_fast hn), hr] at hco
  · intro h r' hr'
    obtain ⟨hre, hco⟩ := hca.same (fun _ => rfl) (h.view hr'.fastNow)
    rw [hru hr', hr]
    exact ⟨⟨_, hre.trans hf⟩, hco⟩

theorem repeats_xadd (hf : ((DataCmd.xadd.action rt r args).run r.fastNow ks).1 = .ok (v, true)) :
    DataCmd.xadd.Repeats rt r args ks ↔ DataCmd.xadd.Timeless rt r args ks := by
  have hca := careful_handleXAdd rt r args
  constructor
  · intro h
    refine ⟨hca.untimed hf fun now' hn => (h _ (later_fast hn)).2 _, fun hst => ?_⟩
    obtain ⟨id, s, x, hid, hs, hc⟩ := lastID_handleXAdd hf
    obtain rfl : id = lit "*" := Option.some.inj (hid.symm.trans hst)
    have hl : 2 ^ 64 ≤ s.lastID.millis + 1 := by
      refine last_of_same rt.quote r.now fun n' hn' => ?_
      -- the entries that the two executions leave have the same last ID
      obtain ⟨s₁, h₁, hc'⟩ := hc { r with now := n' } _ (assignID_star rt.quote n' s)
      obtain ⟨s₀, h₀, hc₀⟩ := hc r _ (assignID_star rt.quote r.now s)
      have heq : some (Datum.stream s₁, x) = some (Datum.stream s₀, x) :=
        hc'.symm.trans (((h _ (later_now hn')).2 (args.headD [])).trans hc₀)
      obtain rfl : s₁ = s₀ := by simpa using heq
      rw [assignID_star, assignID_star, ← h₁, h₀]
    unfold xaddStream at hs
    rcases hv : ks.view r.fastNow (args.headD []) with _ | ⟨d, x⟩
    · rw [hv] at hs
      cases hs
      exact absurd hl (by decide)
    · rw [hv] at hs
      cases d
      case stream s' =>
        cases hs
        exact ⟨s, _, hv, hl⟩
      all_goals cases hs
  · rintro ⟨hu, hst⟩ r' hr'
    change Untimed r.fastNow ks (args.headD []) at hu
    obtain ⟨hr, hc⟩ := hca.same (fun _ => rfl) (hu.view hr'.fastNow)
    have hru : (handleXAdd rt r' args).run (ksStep r'.fastNow) ks = (handleXAdd rt r args).run (ksStep r'.fastNow) ks := by
      refine run_handleXAdd fun id s hid hs => ?_
      by_cases hne : id = lit "*"
      · subst hne
        obtain ⟨s', x, hv, hl⟩ := hst hid
        change ks.view r.fastNow (args.headD []) = _ at hv
        have hs' : xaddStream r'.fastNow ks (args.headD []) = some s' := by
          rw [xaddStream, hu.view hr'.fastNow, hv]
          rfl
        obtain rfl : s' = s := Option.some.inj (hs'.symm.trans hs)
        exact assignID_last hl _ _ _
      · exact assignID_now hne _ _ s
    change (∃ x, ((handleXAdd rt r' args).run (ksStep r'.fastNow) ks).1 = .ok x) ∧
      ∀ k, Keyspace.content ((handleXAdd rt r' args).run (ksStep r'.fastNow) ks).2 k = _
    rw [hru]
    exact ⟨⟨_, hr.trans hf⟩, hc⟩

/-! ### The other writes -/

def setStores (now : Int) (ks : Keyspace) (key : Bytes) (nx xx : Bool) : Bool :=
  !((nx && (Keyspace.view now ks key).isSome) || (xx && !(Keyspace.view now ks key).isSome))

def setExpiry (now ttl : Int) : Int := if ttl > 0 then wrap64 (now + ttl) else 0

theorem run_handleSet (r : Readings) (ks : Keyspace) (key val : Bytes) {opts : List Bytes} {ttl : Int} {nx xx : Bool}
    (ho : setOptions rt opts 0 false false = .ok (ttl, nx, xx)) :
    (setStores r.fastNow ks key nx xx = true →
      ((handleSet rt r (key :: val :: opts)).run (ksStep r.fastNow) ks).1 = wrote ok ∧
      ∀ k, Keyspace.content ((handleSet rt r (key :: val :: opts)).run (ksStep r.fastNow) ks).2 k =
        if k = key then some (.string val, setExpiry r.fastNow ttl) else ks.content k) ∧
    (setStores r.fastNow ks key nx xx = false →
      ((handleSet rt r (key :: val :: opts)).run (ksStep r.fastNow) ks).1 = reply .nil ∧
      Keyspace.content ((handleSet rt r (key :: val :: opts)).run (ksStep r.fastNow) ks).2 key =
        ks.view r.fastNow key) := by
  have hget := content_run_get r.fastNow ks key
  have hset : ∀ ks : Keyspace, ∀ k, Keyspace.content ((KsProg.set key (.string val) (setExpiry r.fastNow ttl)).run
      (ksStep r.fastNow) ks).2 k = _ := fun ks k => content_run_set r.fastNow ks key (.string val) (setExpiry r.fastNow ttl) k
  simp only [handleSet, ho, setStores]
  by_cases hor : (nx || xx) = true
  · rw [if_pos hor, run_get_bind]
    constructor
    · intro hs
      rw [Bool.not_eq_true'] at hs
      rw [if_neg (by rw [hs]; exact Bool.false_ne_true), run_bind, run_pure]
      refine ⟨rfl, fun k => (hset _ k).trans ?_⟩
      split
      · rfl
      · rename_i hk
        rw [hget, if_neg hk]
    · intro hs
      rw [Bool.not_eq_false'] at hs
      rw [if_pos hs, run_pure]
      exact ⟨rfl, (hget key).trans (if_pos rfl)⟩
  · obtain ⟨rfl, rfl⟩ : nx = false ∧ xx = false := by simpa using hor
    rw [if_neg hor, run_bind, run_pure]
    exact ⟨fun _ => ⟨rfl, fun k => hset _ k⟩, nofun⟩

theorem repeats_set (hf : ((DataCmd.set.action rt r args).run r.fastNow ks).1 = .ok (v, true)) :
    DataCmd.set.Repeats rt r args ks ↔ DataCmd.set.Timeless rt r args ks := by
  change ((handleSet rt r args).run (ksStep r.fastNow) ks).1 = _ at hf
  rcases args with _ | ⟨key, _ | ⟨val, opts⟩⟩
  · cases hf
  · cases hf
  rcases ho : setOptions rt opts 0 false false with e | ⟨ttl, nx, xx⟩
  · simp only [handleSet, ho] at hf
    cases hf
  have hr := fun r' => run_handleSet r' ks key val ho
  have hst : setStores r.fastNow ks key nx xx = true := by
    by_contra hno
    rw [((hr r).2 (by simpa using hno)).1] at hf
    cases hf
  have hco := ((hr r).1 hst).2
  have ht : DataCmd.set.Timeless rt r (key :: val :: opts) ks ↔ ttl ≤ 0 ∧ (xx = true → Untimed r.fastNow ks key) := by
    refine ⟨fun h => h ttl nx xx ho, fun h ttl' nx' xx' hop => ?_⟩
    obtain ⟨rfl, rfl, rfl⟩ : ttl = ttl' ∧ nx = nx' ∧ xx = xx' := by
      simpa using ho.symm.trans hop
    exact h
  rw [ht]
  -- a later `SET` that does not store finds no entry, so that none is left
  have hl : ∀ {r'}, r.Later r' → setStores r'.fastNow ks key nx xx = false → ks.view r'.fastNow key = none := by
    intro r' hr' hno
    rcases hvi : ks.view r'.fastNow key with _ | x
    · rfl
    · have hve : (ks.view r.fastNow key).isSome = true := by
        rcases hv : ks.view r.fastNow key with _ | y
        · rw [view_none_mono hr'.fastNow hv] at hvi
          cases hvi
        · rfl
      simp only [setStores, hvi, hve, Option.isSome_some, Bool.and_true, Bool.not_true, Bool.and_false, Bool.or_false] at hno hst
      rw [hno] at hst
      cases hst
  constructor
  · intro h
    have ha : ∀ {r'}, r.Later r' → setStores r'.fastNow ks key nx xx = true ∧ setExpiry r'.fastNow ttl = setExpiry r.fastNow ttl := by
      intro r' hr'
      have hc : Keyspace.content ((handleSet rt r' (key :: val :: opts)).run (ksStep r'.fastNow) ks).2 key =
          some (.string val, setExpiry r.fastNow ttl) := ((h r' hr').2 key).trans ((hco key).trans (if_pos rfl))
      rcases hs : setStores r'.fastNow ks key nx xx with _ | _
      · rw [((hr r').2 hs).2, hl hr' hs] at hc
        cases hc
      · rw [((hr r').1 hs).2 key, if_pos rfl] at hc
        exact ⟨rfl, by simpa using hc⟩
    refine ⟨?_, fun hxx d x hvi => ?_⟩
    · by_contra htt
      have hso : r.Later { r with fastNow := r.fastNow + 1 } := later_fast (by omega)
      have hn := (ha hso).2
      simp only [setExpiry, if_pos (Int.not_le.1 htt)] at hn
      rw [show r.fastNow + 1 + ttl = r.fastNow + ttl + 1 by ring] at hn
      exact wrap64_succ_ne _ hn
    · by_contra hx
      have hg := view_expired hvi (by omega) (le_max_left r.fastNow x) (le_max_right r.fastNow x)
      have hs := (ha (later_fast (le_max_left r.fastNow x))).1
      simp [setStores, hg, hxx] at hs
  · rintro ⟨htt, hxx⟩ r' hr'
    have hs : setStores r'.fastNow ks key nx xx = true := by
      rcases hs : setStores r'.fastNow ks key nx xx with _ | _
      · have hnn := hl hr' hs
        have hx' : xx = true := by simpa [setStores, hnn] using hs
        rw [(hxx hx').view hr'.fastNow] at hnn
        simp [setStores, hnn, hx'] at hst
      · rfl
    obtain ⟨hre, hc⟩ := (hr r').1 hs
    refine ⟨⟨_, hre⟩, fun k => (hc k).trans (Eq.trans ?_ (hco k).symm)⟩
    simp only [setExpiry, if_neg (Int.not_lt.2 htt)]

theorem repeats_mset (hf : ((DataCmd.mset.action rt r args).run r.fastNow ks).1 = .ok (v, true)) :
    DataCmd.mset.Repeats rt r args ks := by
  intro r' _
  have hp : ∀ args, (setPairs args).Only fun o => ∃ v, o = KsOp.set v 0 := by
    intro args
    induction args using setPairs.induct with
    | case1 k v rest ih => exact ⟨⟨_, rfl⟩, fun _ => ih⟩
    | case2 args ha =>
      unfold setPairs
      split
      · exact absurd rfl (ha _ _ _)
      · trivial
  have ho : (cmdMSet args).Only fun o => ∃ v, o = KsOp.set v 0 := by
    unfold cmdMSet
    split
    · trivial
    · exact hp args
  have hstep : ∀ (o : KsOp) {c c' : Option Entry}, (∃ v, o = KsOp.set v 0) → cellContent c = cellContent c' →
      (ksStep r'.fastNow o c).1 = (ksStep r.fastNow o c').1 ∧
        cellContent (ksStep r'.fastNow o c).2.1 = cellContent (ksStep r.fastNow o c').2.1 := by
    rintro _ c c' ⟨v, rfl⟩ -
    exact ⟨rfl, rfl⟩
  obtain ⟨hr, hc⟩ := run_sim (R := fun c c' => cellContent c = cellContent c') hstep ho (s := ks) (t := ks)
    fun _ => rfl
  exact ⟨⟨_, hr.trans hf⟩, hc⟩

theorem run_expire (key : Bytes) (ttl : Int) :
    ((KsProg.expire key ttl).run (ksStep now) ks).1 = (ks.view now key).isSome ∧
      Keyspace.content ((KsProg.expire key ttl).run (ksStep now) ks).2 key =
        (ks.view now key).map fun x => (x.1, wrap64 (now + ttl)) := by
  have hr : (KsProg.expire key ttl).run (ksStep now) ks =
      ((ksStep now (.expire ttl) (ks.entries.lookup key)).1, ks.put key _ _) := rfl
  rw [hr, content_put, if_pos rfl, Keyspace.view]
  rcases liveCell_cases now (ks.entries.lookup key) with ⟨hn, d, hd⟩ | ⟨e, -, -, hd, hl⟩
  · simp only [ksStep, hd, hn]
    exact ⟨rfl, rfl⟩
  · simp only [ksStep, hd, hl]
    exact ⟨rfl, rfl⟩

theorem run_persist (key : Bytes) :
    ((KsProg.persist key).run (ksStep now) ks).1 = (ks.view now key).any (·.2 ≠ 0) ∧
      Keyspace.content ((KsProg.persist key).run (ksStep now) ks).2 key =
        (ks.view now key).map fun x => (x.1, 0) := by
  have hr : (KsProg.persist key).run (ksStep now) ks =
      ((ksStep now .persist (ks.entries.lookup key)).1, ks.put key _ _) := rfl
  rw [hr, content_put, if_pos rfl, Keyspace.view]
  rcases liveCell_cases now (ks.entries.lookup key) with ⟨hn, d, hd⟩ | ⟨⟨v, x, a⟩, -, -, hd, hl⟩
  · simp only [ksStep, hd, hn]
    exact ⟨rfl, rfl⟩
  · simp only [ksStep, hd, hl]
    by_cases hx : x = 0
    · rw [if_pos hx]
      simp [cellContent, hx]
    · rw [if_neg hx]
      simp [cellContent, hx]

theorem not_repeats_expire (name : Bytes) (unit : Int)
    (hf : ((cmdExpire name unit args).run (ksStep now) ks).1 = .ok (v, true)) :
    Keyspace.content ((cmdExpire name unit args).run (ksStep (now + 1)) ks).2 (args.headD []) ≠
      Keyspace.content ((cmdExpire name unit args).run (ksStep now) ks).2 (args.headD []) := by
  rcases args with _ | ⟨key, _ | ⟨n, rest⟩⟩
  · cases hf
  · cases hf
  rcases hn : parseInt64 n with _ | n'
  · simp only [cmdExpire, hn] at hf
    cases hf
  simp only [cmdExpire, hn, run_bind] at hf ⊢
  have hp : ∀ (b : Bool) (ks : Keyspace) (now : Int), Prog.run (ksStep now) (if b = true then pure (wrote (.integer 1))
      else pure (reply (.integer 0))) ks = (if b = true then wrote (.integer 1) else reply (.integer 0), ks) := by
    intro b ks now
    cases b <;> rfl
  rw [hp, (run_expire key _).1] at hf
  rw [hp, hp, headD_cons, (run_expire key _).2, (run_expire key _).2]
  rcases hv : ks.view now key with _ | ⟨d, x⟩
  · rw [hv] at hf
    cases hf
  rcases ks.view (now + 1) key with _ | ⟨d', x'⟩
  · nofun
  · intro h
    have hw := congrArg Prod.snd (Option.some.inj h)
    rw [show now + 1 + wrap64 (n' * unit) = now + wrap64 (n' * unit) + 1 by ring] at hw
    exact wrap64_succ_ne _ hw

theorem not_repeats_setex (name : Bytes) (unit : Int)
    (hf : ((cmdSetExpiring r name unit args).run (ksStep now) ks).1 = .ok (v, true)) :
    Keyspace.content ((cmdSetExpiring { r with now := r.now + 1000000 } name unit args).run (ksStep now) ks).2
        (args.headD []) ≠ Keyspace.content ((cmdSetExpiring r name unit args).run (ksStep now) ks).2 (args.headD []) := by
  rcases args with _ | ⟨key, _ | ⟨n, _ | ⟨val, rest⟩⟩⟩
  · cases hf
  · cases hf
  · cases hf
  rcases hn : parseInt64 n with _ | n'
  · simp only [cmdSetExpiring, hn] at hf
    cases hf
  by_cases hp : n' ≤ 0
  · simp only [cmdSetExpiring, hn, if_pos hp] at hf
    cases hf
  simp only [cmdSetExpiring, hn, if_neg hp, run_bind, run_pure, headD_cons, content_run_set, if_true]
  intro h
  have hw := congrArg Prod.snd (Option.some.inj h)
  have hm : Readings.nowMilli { r with now := r.now + 1000000 } = r.nowMilli + 1 := by
    simp only [Readings.nowMilli]
    omega
  rw [hm, show r.nowMilli + 1 + wrap64 (n' * unit) = r.nowMilli + wrap64 (n' * unit) + 1 by ring] at hw
  exact wrap64_succ_ne _ hw

theorem repeats_persist (hf : ((DataCmd.persist.action rt r args).run r.fastNow ks).1 = .ok (v, true)) :
    DataCmd.persist.Repeats rt r args ks ↔ DataCmd.persist.Timeless rt r args ks := by
  change ((cmdPersist args).run (ksStep r.fastNow) ks).1 = _ at hf
  rcases args with _ | ⟨key, rest⟩
  · cases hf
  have hp : ∀ (b : Bool) (ks : Keyspace) (now : Int), Prog.run (ksStep now) (if b = true then pure (wrote (.integer 1))
      else pure (reply (.integer 0))) ks = (if b = true then wrote (.integer 1) else reply (.integer 0), ks) := by
    intro b ks now
    cases b <;> rfl
  have hr : ∀ now, (cmdPersist (key :: rest)).run (ksStep now) ks =
      (if (ks.view now key).any (·.2 ≠ 0) = true then wrote (.integer 1) else reply (.integer 0),
        ((KsProg.persist key).run (ksStep now) ks).2) := by
    intro now
    rw [cmdPersist, run_bind, hp, (run_persist key).1]
  have hke : ∀ now, Keyspace.content ((cmdPersist (key :: rest)).run (ksStep now) ks).2 key =
      (ks.view now key).map fun x => (x.1, 0) := by
    intro now
    rw [hr]
    exact (run_persist key).2
  constructor
  · intro h d x hv
    by_contra hx
    have hg := view_expired hv (by omega) (le_max_left r.fastNow x) (le_max_right r.fastNow x)
    have hc := (h _ (later_fast (le_max_left r.fastNow x))).2 key
    change Keyspace.content ((cmdPersist (key :: rest)).run (ksStep (max r.fastNow x)) ks).2 key =
      Keyspace.content ((cmdPersist (key :: rest)).run (ksStep r.fastNow) ks).2 key at hc
    rw [hke, hke, show ks.view _ key = _ from hg, show ks.view r.fastNow key = _ from hv] at hc
    cases hc
  · intro h r' hr'
    have hv : ks.view r'.fastNow key = ks.view r.fastNow key := h.view hr'.fastNow
    change (∃ x, ((cmdPersist (key :: rest)).run (ksStep r'.fastNow) ks).1 = .ok x) ∧
      ∀ k, Keyspace.content ((cmdPersist (key :: rest)).run (ksStep r'.fastNow) ks).2 k =
        Keyspace.content ((cmdPersist (key :: rest)).run (ksStep r.fastNow) ks).2 k
    refine ⟨⟨(v, true), ?_⟩, fun k => ?_⟩
    · rw [hr] at hf ⊢
      rwa [hv]
    · by_cases hk : k = key
      · rw [hk, hke, hke, hv]
      · have hfr : ∀ now, Keyspace.content ((KsProg.persist key).run (ksStep now) ks).2 k = ks.content k :=
          fun now => congrArg cellContent (run_frame (P := (· = key)) (within_op (I := Ks) rfl _) ks hk)
        rw [hr, hr, hfr, hfr]

/-- A write gives the same keyspace at all later times exactly if it is `Timeless`. -/
theorem repeats_iff (hf : ((c.action rt r args).run r.fastNow ks).1 = .ok (v, true)) :
    c.Repeats rt r args ks ↔ c.Timeless rt r args ks := by
  by_cases hx : c = .xadd
  · subst hx
    exact repeats_xadd hf
  by_cases hu : c.isUpdate = true
  · exact repeats_update hu hx hf
  by_cases hr : c.isRead = true
  · cases (read_action rt r args hr r.fastNow ks).2 v true hf
  have hfa : r.Later { r with fastNow := r.fastNow + 1 } := later_fast (by omega)
  have hn : r.Later { r with now := r.now + 1000000 } := later_now (by omega)
  cases c
  case set => exact repeats_set hf
  case mset => exact ⟨fun _ => trivial, fun _ => repeats_mset hf⟩
  case del =>
    refine ⟨fun _ => trivial, fun _ r' _ => ⟨⟨(v, true), ?_⟩, fun _ => ?_⟩⟩ <;> cases args with
    | nil => cases hf
    | cons key args => first | exact hf | rfl
  case flushdb | flushall => exact ⟨fun _ => trivial, fun _ r' _ => ⟨⟨_, rfl⟩, fun _ => rfl⟩⟩
  case persist => exact repeats_persist hf
  case expire => exact ⟨fun h => not_repeats_expire "expire" 1000 hf ((h _ hfa).2 _), False.elim⟩
  case pexpire => exact ⟨fun h => not_repeats_expire "pexpire" 1 hf ((h _ hfa).2 _), False.elim⟩
  case setex => exact ⟨fun h => not_repeats_setex "setex" 1000 hf ((h _ hn).2 _), False.elim⟩
  case psetex => exact ⟨fun h => not_repeats_setex "psetex" 1 hf ((h _ hn).2 _), False.elim⟩
  case xreadgroup => cases (unflagged_handleXReadGroup rt r args).run (S := ksStep r.fastNow) ks v true hf
  all_goals first
    | exact absurd rfl hr
    | exact absurd rfl hu

end

/-! ### Logged commands -/

namespace DispatchEvent

variable (rt : Runtime) (d : DispatchEvent)

/-- The dispatch is a write that goes to the log and to the replicas, and the engine then is `e'`. -/
def Logs (e' : Engine) : Prop :=
  ∃ v e, d.result rt = .ok (v, true, e) ∧ d.finish true e = .ok e' ∧
    (d.checked = true → (memoryCheck d.env e true).1 = false)

/-- Whoever executes the logged list later, from the keyspace that the dispatch found, gets the keyspace of `e'`. -/
def Repeats (e' : Engine) : Prop :=
  ∀ ω e own, e.Applies own → ¬ MemoryOver ω e → e.ks = d.before.ks → (d.env []).Later (ω []) →
    ∃ v e₁, executeCommand rt (luaScripts rt) ω e own (d.name :: d.args) = .ok (v, e₁) ∧
      ∀ k, Keyspace.content e₁.ks k = Keyspace.content e'.ks k

/-- The command that the logged name stands for does to the keyspace what the dispatched one does at all later
times, and no key has to make room for it. `EXEC` reads the name with `strings.ToUpper`; what only this function
takes for a command name is not known when the list is executed. -/
structure Repeatable (c : DataCmd) : Prop where
  memory : d.checked = true → ¬ MemoryOver d.env d.before
  timeless : d.cmd = toUpperFast rt.unicode d.name → c.Timeless rt (d.env []) d.args d.before.ks
  named : d.cmd ≠ toUpperFast rt.unicode d.name → ∀ k,
    Keyspace.content ((c.action rt (d.env []) d.args).run (d.env []).fastNow d.before.ks).2 k = Keyspace.content d.before.ks k

end DispatchEvent

section

variable {rt : Runtime} {d : DispatchEvent} {e e' : Engine} {name : Bytes}

/-- A name that `ToUpperFast` and `strings.ToUpper` read differently has a byte beyond ASCII, and no command does. -/
theorem toUpperFast_eq (u : Unicode) {s : Bytes} (h : s.any isLower = true ∨ s.all (· < 0x80) = true) : toUpperFast u s = toUpper u s := by
  unfold toUpperFast
  split
  · rfl
  · rename_i hl
    rw [toUpper_ascii u (h.resolve_left hl)]
    refine (map_id s).symm.trans (map_congr_left fun c hc => ?_)
    have hc : isLower c = false := by simpa using fun hc' => hl (any_eq_true.2 ⟨c, hc, hc'⟩)
    simp [upperByte, hc]

theorem table_ascii {x : String × Cmd} (hx : x ∈ commandTable) : (lit x.1).all (· < 0x80) = true := by
  have ht : commandTable.all (fun x => (lit x.1).all (· < 0x80)) = true := by decide
  exact all_eq_true.1 ht x hx

theorem ofName_unfolded (h : toUpper rt.unicode name ≠ toUpperFast rt.unicode name) :
    Cmd.ofName (toUpperFast rt.unicode name) = .unknown := by
  have hl : ¬ name.any isLower = true := fun hl => h (toUpperFast_eq _ (.inl hl)).symm
  have hf : toUpperFast rt.unicode name = name := by rw [toUpperFast, if_neg hl]
  rw [hf]
  by_contra hk
  obtain ⟨s, hs, rfl⟩ := Cmd.ofName_mem rfl hk
  exact h (toUpperFast_eq _ (.inr (table_ascii hs))).symm

theorem DispatchEvent.Logs.data (h : d.Logs rt e') : ∃ c v, Cmd.ofName d.cmd = .data c ∧
    ((c.action rt (d.env []) d.args).run (d.env []).fastNow d.before.ks).1 = .ok (v, true) ∧
    ∃ e, e = { d.before with ks := ((c.action rt (d.env []) d.args).run (d.env []).fastNow d.before.ks).2 } ∧
      d.finish true e = .ok e' ∧ (d.checked = true → (memoryCheck d.env e true).1 = false) := by
  obtain ⟨v, e, hr, hf, hm⟩ := h
  by_cases hd : ∃ c, Cmd.ofName d.cmd = .data c
  · obtain ⟨c, hc⟩ := hd
    obtain ⟨ho, he⟩ := dispatch_data_eq hc hr
    exact ⟨c, v, hc, ho, e, he, hf, hm⟩
  · cases (dispatch_effect (fun c hc => hd ⟨c, hc⟩) hr).write

theorem finish_evicts (hch : d.checked = true) (ho : MemoryOver d.env e) (hm : (memoryCheck d.env e true).1 = false)
    (h : d.finish true e = .ok e') : ∃ k, e'.ks.content k ≠ e.ks.content k := by
  unfold DispatchEvent.finish at h
  rw [if_pos hch] at h
  cases ht : touchKeys e d.cmd d.args true with
  | error stop => rw [ht] at h; cases h
  | ok e₁ =>
    obtain ⟨s, rfl⟩ := touchKeys_eq ht
    obtain ⟨k, hs, hn⟩ := memoryCheck_evicts ho hm
    rw [ht] at h
    simp only [Except.map, memoryCheck_withSessions, hm, Bool.false_eq_true, if_false, if_true] at h
    cases h
    refine ⟨k, fun hc => hs ?_⟩
    change cellContent ((memoryCheck d.env e true).2.ks.entries.lookup k) = cellContent (e.ks.entries.lookup k) at hc
    rw [hn] at hc
    exact Option.map_eq_none_iff.1 hc.symm

end

/-- A write gives the same keyspace whenever it is executed again exactly if it is `Repeatable`. -/
theorem write_repeats {rt : Runtime} {d : DispatchEvent} {e' : Engine}
    (hn : d.cmd = if d.checked then toUpperFast rt.unicode d.name else toUpper rt.unicode d.name) (hlo : d.Logs rt e') :
    ∃ c, Cmd.ofName d.cmd = .data c ∧ (d.Repeats rt e' ↔ d.Repeatable rt c) := by
  obtain ⟨c, v, hc, hf, e, he, hfi, hme⟩ := hlo.data
  refine ⟨c, hc, ?_⟩
  have hov : MemoryOver d.env e ↔ MemoryOver d.env d.before := by rw [he]; rfl
  have hks : (d.checked = true → ¬ MemoryOver d.env d.before) →
      e'.ks = ((c.action rt (d.env []) d.args).run (d.env []).fastNow d.before.ks).2 := by
    intro hm
    rw [(finish_eq (fun hch => mt hov.1 (hm hch)) hfi).1, he]
  have hu : d.cmd ≠ toUpperFast rt.unicode d.name → Cmd.ofName (toUpperFast rt.unicode d.name) = .unknown := by
    intro hne
    split at hn
    · exact absurd hn hne
    · exact ofName_unfolded (hn ▸ hne)
  have ha := applies_replayEngine d.before.ks
  have hr : ∀ ω, ¬ MemoryOver ω (replayEngine d.before.ks) := fun ω => not_memoryOver rfl
  constructor
  · intro h
    have hm : d.checked = true → ¬ MemoryOver d.env d.before := by
      intro hch hb
      obtain ⟨k, hk⟩ := finish_evicts hch (hov.2 hb) (hme hch) hfi
      rw [if_pos hch] at hn
      obtain ⟨v₁, e₁, hex, hco⟩ := h d.env _ _ ha (hr _) rfl (.refl _)
      obtain ⟨v₂, e₂, hee, hs, -⟩ := apply_data (luaScripts rt) ha (hr d.env) (hn ▸ hc) hf
      cases hex.symm.trans hee
      exact hk ((hco k).symm.trans (by rw [hs, he]; rfl))
    refine ⟨hm, fun heq => (repeats_iff hf).1 fun r' hr' => ?_, fun hne k => ?_⟩
    · obtain ⟨v₁, e₁, hex, hco⟩ := h (fun _ => r') _ _ ha (hr _) rfl hr'
      cases ho : ((c.action rt r' d.args).run r'.fastNow d.before.ks).1 with
      | error s => cases hex.symm.trans (apply_data_error ha (heq ▸ hc) ho)
      | ok x =>
        obtain ⟨v₂, e₂, hee, hs, -⟩ := apply_data (luaScripts rt) ha (hr fun _ => r') (heq ▸ hc) ho
        cases hex.symm.trans hee
        refine ⟨⟨x, rfl⟩, fun k => ?_⟩
        rw [← hks hm, ← hco k, hs]
        rfl
    · obtain ⟨v₁, e₁, hex, hco⟩ := h d.env _ _ ha (hr _) rfl (.refl _)
      obtain ⟨v₂, e₂, hee, hs, -⟩ := apply_unknown (luaScripts rt) d.env d.args ha (hu hne)
      cases hex.symm.trans hee
      rw [← hks hm, ← hco k, hs]
      rfl
  · intro h ω e₀ own how hr hsa hl
    rw [hks h.memory]
    by_cases heq : d.cmd = toUpperFast rt.unicode d.name
    · obtain ⟨⟨x, ho⟩, hco⟩ := (repeats_iff hf).2 (h.timeless heq) _ hl
      rw [← hsa] at ho hco
      obtain ⟨v₂, e₂, hex, hs, -⟩ := apply_data (luaScripts rt) how hr (heq ▸ hc) ho
      exact ⟨v₂, e₂, hex, fun k => by rw [hs]; exact (hco k).trans (by rw [hsa])⟩
    · obtain ⟨v₂, e₂, hex, hs, -⟩ := apply_unknown (luaScripts rt) ω d.args how (hu heq)
      exact ⟨v₂, e₂, hex, fun k => by rw [hs, hsa, h.named heq]⟩

def firstPush : DispatchEvent := ⟨.plain 0, loggingEngine, "conn-1", "RPUSH", "RPUSH", ["l", "x"], true⟩

theorem write_repeats_push : ∃ e', firstPush.Logs .plain e' ∧ firstPush.Repeats .plain e' := by
  obtain ⟨e', hl⟩ : ∃ e', firstPush.Logs .plain e' := ⟨_, _, _, rfl, rfl, fun _ => rfl⟩
  obtain ⟨c, hc, hi⟩ := write_repeats (by decide) hl
  have hp : Cmd.ofName firstPush.cmd = .data .rpush := by decide
  cases hc.symm.trans hp
  refine ⟨e', hl, hi.2 ⟨fun _ => not_memoryOver rfl, fun _ => ?_, fun hne => absurd (by decide) hne⟩⟩
  intro d x hv
  cases hv

/-- `SETEX` at time 0 and, from the same keyspace, a second later: another expiry time. -/
theorem setex_repeated :
    ∃ v e' v₁ e₁, execute .plain (.plain 0) loggingEngine 0 "conn-1" ["SETEX", "k", "10", "v"] = .ok (v, e') ∧
      e'.aof = some (serializeCommand ["SETEX", "k", "10", "v"]) ∧
      executeCommand .plain (luaScripts .plain) (.plain 1000) (replayEngine loggingEngine.ks) aofReplay
        ["SETEX", "k", "10", "v"] = .ok (v₁, e₁) ∧
      Keyspace.content e'.ks "k" = some (.string "v", 10000) ∧ Keyspace.content e₁.ks "k" = some (.string "v", 11000) :=
  ⟨_, _, _, _, rfl, rfl, rfl, by decide, by decide⟩

end VortexKV
