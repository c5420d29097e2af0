import VortexKV.Proofs.ErrorEffects

/-!
# Commands that do not return

`LPOP` and `RPOP` panic on a negative count, `EVAL` and `EVALSHA` on a number of keys near the largest integer. Apart from
these a command returns, unless it waits: a read with `BLOCK 0`, or a script that starts a script (`execute_returns`).
-/

namespace VortexKV

open KeyedStore Option

variable {name : Bytes} {scripts : LuaProg → Engine → Except Stop (Value × Engine)}

/-! ### The keys of a script -/

def keysOverflow : List Bytes → Bool
  | _ :: n :: rest => (parseInt64 n).any fun n => 2 ^ 63 ≤ n + 2 ∧ (rest.length : Int) < n
  | _ => false

theorem isOk_scriptKeys {s : Bytes} {n : Int} (hn : parseInt64 s = some n) (rest : List Bytes) :
    (scriptKeys n rest).isOk = true ↔ ¬ (2 ^ 63 ≤ n + 2 ∧ (rest.length : Int) < n) := by
  obtain ⟨hlo, hhi⟩ := parseInt64_range hn
  unfold scriptKeys
  by_cases ho : 2 ^ 63 ≤ n + 2
  · have hw : wrap64 (2 + n) = 2 + n - 2 ^ 64 := by
      unfold wrap64
      rw [Int.bmod_eq_iff (by decide)]
      omega
    rw [if_neg (by omega)]
    split_ifs with hlen
    · exact iff_of_false nofun fun h => h ⟨ho, hlen⟩
    · exact iff_of_true rfl fun h => hlen h.2
  · have hw : wrap64 (2 + n) = 2 + n := by
      unfold wrap64
      rw [Int.bmod_eq_iff (by decide)]
      omega
    rw [hw]
    split_ifs with hl hlen
    · exact iff_of_true rfl fun h => ho h.1
    · omega
    · exact iff_of_true rfl fun h => ho h.1

theorem isOk_map {α β : Type} (f : α → β) (x : Except Stop α) : (x.map f).isOk = x.isOk := by cases x <;> rfl

abbrev isScript (cmd : Bytes) : Prop := cmd = lit "EVAL" ∨ cmd = lit "EVALSHA"

theorem keysOverflow_iff {a n : Bytes} {rest : List Bytes} {k : Int} (hn : parseInt64 n = some k) :
    keysOverflow (a :: n :: rest) = true ↔ 2 ^ 63 ≤ k + 2 ∧ (rest.length : Int) < k := by
  simp only [keysOverflow, hn, any_some, decide_eq_true_eq]

theorem isOk_extractCommandKeys (cmd : Bytes) (args : List Bytes) :
    (extractCommandKeys cmd args).isOk = true ↔ ¬ (isScript cmd ∧ keysOverflow args = true) := by
  unfold extractCommandKeys
  rcases args with _ | ⟨a, args⟩
  · exact iff_of_true rfl nofun
  by_cases hke : cmd ∈ keylessCommands
  · dsimp only
    rw [if_pos hke]
    refine iff_of_true rfl fun h => ?_
    rcases h.1 with rfl | rfl
    · exact absurd hke (by decide)
    · exact absurd hke (by decide)
  dsimp only
  rw [if_neg hke]
  by_cases hs : isScript cmd
  · rw [if_pos hs]
    rcases args with _ | ⟨n, rest⟩
    · exact iff_of_true rfl nofun
    dsimp only
    rcases hn : parseInt64 n with _ | k
    · exact iff_of_true rfl (by simp [keysOverflow, hn])
    dsimp only
    split_ifs with hk
    · refine iff_of_true rfl fun h => ?_
      have := (keysOverflow_iff hn).1 h.2
      omega
    · rw [isOk_map, isOk_scriptKeys hn, keysOverflow_iff hn]
      simp only [hs, true_and]
  · have hne : ¬ (cmd = lit "EVAL" ∨ cmd = lit "EVALSHA") := hs
    rw [if_neg hne]
    refine iff_of_true ?_ fun h => hs h.1
    split_ifs <;> rfl

def keysAsked (e : Engine) (s : ClientSession) (connID : Bytes) : Bool :=
  !internalConn connID && !(e.password ≠ [] && !s.authenticated) &&
    (e.acl.isSome && s.authenticated || e.cluster.any (·.enabled))

section

variable {rt : Runtime} {e : Engine} {s : ClientSession} {connID cmd : Bytes} {args : List Bytes} {stop : Stop}

theorem aclGuard_stops (h : extractCommandKeys cmd args = .error stop) (h₁ : cmd ≠ lit "AUTH") (h₂ : cmd ≠ lit "QUIT") :
    aclGuard rt e s connID cmd args =
      if e.acl.isSome && s.authenticated && !internalConn connID then .error stop else .ok none := by
  unfold aclGuard
  cases e.acl with
  | none => rfl
  | some acl => simp [h, h₁, h₂, Except.map]

theorem clusterGuard_stops (h : extractCommandKeys cmd args = .error stop) :
    clusterGuard e connID cmd args =
      if e.cluster.any (·.enabled) && !internalConn connID then .error stop else .ok none := by
  unfold clusterGuard
  cases e.cluster with
  | none => rfl
  | some cm => simp [h, Except.map]

theorem guards_stop (h : extractCommandKeys cmd args = .error stop) (hc : isScript cmd) :
    (guards rt e s connID cmd args).isOk = !keysAsked e s connID := by
  have hp : cmd ≠ lit "AUTH" ∧ cmd ≠ lit "QUIT" ∧ isWriteCommand cmd = false := by
    rcases hc with rfl | rfl <;> decide
  unfold guards keysAsked
  rw [aclGuard_stops h hp.1 hp.2.1, clusterGuard_stops h]
  generalize e.acl.isSome = acl
  generalize e.cluster.any (·.enabled) = cluster
  by_cases hpa : e.password = [] <;> cases hint : internalConn connID <;> cases ha : s.authenticated <;>
    cases acl <;> cases cluster <;> simp [hpa, hp, Except.isOk, Except.toBool]

theorem isOk_guards (rt : Runtime) (e : Engine) (s : ClientSession) (connID cmd : Bytes) (args : List Bytes) :
    (guards rt e s connID cmd args).isOk = true ↔
      ¬ (keysAsked e s connID = true ∧ isScript cmd ∧ keysOverflow args = true) := by
  have hkeys := isOk_extractCommandKeys cmd args
  rcases hex : extractCommandKeys cmd args with stop | keys
  · have ho : isScript cmd ∧ keysOverflow args = true := by
      by_contra hno
      rw [hex] at hkeys
      exact Bool.false_ne_true (hkeys.2 hno)
    rw [guards_stop hex ho.1]
    simp [ho]
  · rw [hex] at hkeys
    obtain ⟨o, ho⟩ := @guards_returns rt e s connID cmd args keys hex
    rw [ho]
    exact iff_of_true rfl fun h => hkeys.1 rfl h.2

end

/-! ### Data commands -/

/-- A pop of a negative number of elements from a list that has some. -/
def DataCmd.Panics (now : Int) (ks : Keyspace) (args : List Bytes) : DataCmd → Prop
  | lpop | rpop => popsNegative args = true ∧
      ∃ key l t, args.head? = some key ∧ Keyspace.view now ks key = some (.list l, t) ∧ l ≠ []
  | _ => False

def DataCmd.Waits (rt : Runtime) (args : List Bytes) : DataCmd → Prop
  | xread => blocksForever rt false args = true
  | xreadgroup => blocksForever rt true (args.drop 3) = true
  | _ => False

section

variable {rt : Runtime} {r : Readings} {args : List Bytes} {now : Int} {ks : Keyspace}

theorem isOk_lPop (count : Int) (l : List Bytes) : (GoList.lPop count l).isOk = true ↔ ¬ (count < 0 ∧ l ≠ []) := by
  simp only [GoList.lPop]
  split_ifs with hl hn
  · exact iff_of_true rfl fun h => h.2 hl
  · exact iff_of_false (by rintro ⟨⟩) fun h => h ⟨by omega, hl⟩
  · exact iff_of_true rfl fun h => hn (by omega)

theorem isOk_rPop (count : Int) (l : List Bytes) : (GoList.rPop count l).isOk = true ↔ ¬ (count < 0 ∧ l ≠ []) := by
  simp only [GoList.rPop]
  split_ifs with hl hn
  · exact iff_of_true rfl fun h => h.2 hl
  · exact iff_of_false (by rintro ⟨⟩) fun h => h ⟨by omega, hl⟩
  · exact iff_of_true rfl fun h => hn (by omega)

theorem popsNegative_eq (key : Bytes) {opts : List Bytes} {count : Option Int}
    (h : (match opts with
      | [] => some 1
      | n :: _ => parseInt64 n) = count) : popsNegative (key :: opts) = count.any (· < 0) := by
  subst h
  rcases opts with _ | ⟨n, opts⟩ <;> rfl

theorem panics_list {key : Bytes} {opts l : List Bytes} {t : Int} (h : ks.view now key = some (.list l, t)) :
    DataCmd.lpop.Panics now ks (key :: opts) ↔ popsNegative (key :: opts) = true ∧ l ≠ [] := by
  constructor
  · rintro ⟨hn, key', l', t', hk, hv, hl⟩
    cases hk
    rw [h] at hv
    cases hv
    exact ⟨hn, hl⟩
  · rintro ⟨hn, hl⟩
    exact ⟨hn, key, l, t, rfl, h, hl⟩

theorem isOk_cmdPop {pop : Int → List Bytes → Except Stop (Option (List Bytes) × List Bytes)}
    (hpo : ∀ count l, (pop count l).isOk = true ↔ ¬ (count < 0 ∧ l ≠ [])) :
    ((cmdPop name pop args).run (ksStep now) ks).1.isOk = true ↔ ¬ DataCmd.lpop.Panics now ks args := by
  rcases args with _ | ⟨key, opts⟩
  · exact iff_of_true rfl nofun
  have ho : (∀ l t, ks.view now key ≠ some (.list l, t)) → ¬ DataCmd.lpop.Panics now ks (key :: opts) := by
    rintro hno ⟨-, key', l, t, hk, hv, -⟩
    cases hk
    exact hno l t hv
  simp only [cmdPop, withValue, run_get_bind]
  rcases hvi : ks.view now key with _ | ⟨d, t⟩
  · exact iff_of_true rfl (ho fun l t hv => by rw [hvi] at hv; cases hv)
  cases d with
  | list l =>
    rw [panics_list hvi]
    dsimp only [Datum.list?]
    split
    · rename_i hc
      rw [popsNegative_eq key hc]
      exact iff_of_true rfl nofun
    · rename_i count hc
      have hp := hpo count l
      rw [popsNegative_eq key hc, any_some, decide_eq_true_eq, ← hp]
      rcases pop count l with stop | ⟨_ | items, rest⟩
      · exact iff_of_false nofun nofun
      · exact iff_of_true rfl rfl
      · exact iff_of_true rfl rfl
  | _ => exact iff_of_true rfl (ho fun l t hv => by rw [hvi] at hv; cases hv)

theorem isOk_action {c : DataCmd} (hw : ¬ c.Waits rt args) :
    ((c.action rt r args).run now ks).1.isOk = true ↔ ¬ c.Panics now ks args := by
  by_cases hp : c = .lpop ∨ c = .rpop
  · rcases hp with rfl | rfl
    · exact isOk_cmdPop isOk_lPop
    · exact isOk_cmdPop isOk_rPop
  have hpa : ¬ c.Panics now ks args := by
    cases c
    case lpop => exact absurd (.inl rfl) hp
    case rpop => exact absurd (.inr rfl) hp
    all_goals exact id
  refine iff_of_true ?_ hpa
  have ho := orderly_action rt r args c now ks
  rcases hou : ((c.action rt r args).run now ks).1 with stop | x
  · rw [hou] at ho
    exfalso
    cases c
    case lpop => exact hp (.inl rfl)
    case rpop => exact hp (.inr rfl)
    all_goals
      cases stop
      all_goals first
        | exact ho
        | exact hw ho
  · rfl

end

/-! ### Dispatch -/

def dispatchPanics (rt : Runtime) (r : Readings) (e : Engine) (cmd : Bytes) (args : List Bytes) : Prop :=
  match Cmd.ofName cmd with
  | .data c => c.Panics r.fastNow e.ks args
  | .eval => e.lua ≠ none ∧ keysOverflow args = true
  | .evalsha => (∃ m sha, e.lua = some m ∧ args.head? = some sha ∧
      m.scripts.lookup (toLower rt.unicode (toLower rt.unicode sha)) ≠ none) ∧ keysOverflow args = true
  | _ => False

section

variable {rt : Runtime} {r : Readings} {e : Engine} {own cmd : Bytes} {args : List Bytes}

theorem isOk_replies (e : Engine) (v : Value) : (e.replies v).isOk = true := rfl

theorem isOk_changeCluster (e : Engine) (x : Except Bytes ClusterManager) : (changeCluster e x).isOk = true := by
  cases x <;> rfl

theorem isOk_handleClusterCommand : (handleClusterCommand rt r e args).isOk = true := by
  unfold handleClusterCommand
  repeat' first
    | exact isOk_replies _ _
    | split
  unfold clusterCommand
  repeat' first
    | exact isOk_replies _ _
    | exact isOk_changeCluster _ _
    | split

theorem isOk_dispatch_other (hd : ∀ c, Cmd.ofName cmd ≠ .data c) (he : Cmd.ofName cmd ≠ .eval)
    (hs : Cmd.ofName cmd ≠ .evalsha) (scripts : LuaProg → Engine → Except Stop (Value × Engine)) :
    (dispatch rt r scripts e own cmd args).isOk = true := by
  unfold dispatch
  split
  case h_1 c hc => exact absurd hc (hd c)
  all_goals first
    | (rename_i hc; exact absurd hc he)
    | (rename_i hc; exact absurd hc hs)
    | exact isOk_replies _ _
    | exact isOk_handleClusterCommand
    | skip
  all_goals
    first
      | unfold cmdAuth | unfold handleACLCommand | unfold cmdWatch | unfold scriptCommand
      | unfold handleWasm wasmLoad wasmCall | unfold cmdReplicaOf | unfold cmdSave | unfold cmdBgSave | skip
    repeat' first
      | exact isOk_replies _ _
      | split
      | dsimp only

theorem isOk_runScript {script n : Bytes} {rest : List Bytes} (start : Engine) (h : scriptRun r script n rest = none) :
    (runScript r (fun _ _ => .error .hang) e script n rest start).isOk = true ↔
      ¬ keysOverflow (script :: n :: rest) = true := by
  unfold scriptRun at h
  unfold runScript
  rcases hn : parseInt64 n with _ | k
  · exact iff_of_true rfl (by simp [keysOverflow, hn])
  simp only [hn] at h
  dsimp only
  by_cases hk : k < 0
  · rw [if_pos hk]
    refine iff_of_true rfl fun ho => ?_
    have := (keysOverflow_iff hn).1 ho
    omega
  · rw [if_neg hk] at h ⊢
    rw [keysOverflow_iff hn, ← isOk_scriptKeys hn]
    rcases hkeys : scriptKeys k rest with stop | _ | ⟨keys, argv⟩
    · exact Iff.rfl
    · exact iff_of_true rfl rfl
    · rw [hkeys] at h
      cases h

theorem isOk_dispatch (hs : scriptOf rt r e cmd args = none)
    (hw : ∀ c, Cmd.ofName cmd = .data c → ¬ c.Waits rt args) :
    (dispatch rt r (fun _ _ => .error .hang) e own cmd args).isOk = true ↔ ¬ dispatchPanics rt r e cmd args := by
  unfold dispatchPanics
  cases hc : Cmd.ofName cmd with
  | data c =>
    rw [dispatch_data rt r _ _ _ _ hc, isOk_map]
    exact isOk_action (hw c hc)
  | eval =>
    simp only [dispatch, hc, cmdEval]
    simp only [scriptOf, hc] at hs
    rcases hl : e.lua with _ | m
    · exact iff_of_true rfl fun h => h.1 rfl
    rcases args with _ | ⟨script, _ | ⟨n, rest⟩⟩
    · exact iff_of_true rfl (by rintro ⟨-, ⟨⟩⟩)
    · exact iff_of_true rfl (by rintro ⟨-, ⟨⟩⟩)
    · simp only [hl, map_eq_none_iff] at hs
      dsimp only
      rw [isOk_runScript _ hs]
      simp
  | evalsha =>
    simp only [dispatch, hc, cmdEvalSha]
    simp only [scriptOf, hc] at hs
    rcases hl : e.lua with _ | m
    · exact iff_of_true rfl (by rintro ⟨⟨m, sha, hm, -⟩, -⟩; cases hm)
    rcases args with _ | ⟨sha, _ | ⟨n, rest⟩⟩
    · exact iff_of_true rfl (by rintro ⟨-, ⟨⟩⟩)
    · exact iff_of_true rfl (by rintro ⟨-, ⟨⟩⟩)
    · dsimp only
      rcases hsh : m.scripts.lookup (toLower rt.unicode (toLower rt.unicode sha)) with _ | script
      · refine iff_of_true rfl ?_
        rintro ⟨⟨m', sha', hm, hh, hne⟩, -⟩
        cases hm
        cases hh
        exact hne hsh
      · simp only [hl, hsh, bind_some, map_eq_none_iff] at hs
        dsimp only
        rw [isOk_runScript _ hs]
        refine not_congr ⟨fun ho => ⟨⟨m, sha, rfl, rfl, by simp [hsh]⟩, ho⟩, fun h => h.2⟩
  | _ => exact iff_of_true (isOk_dispatch_other (by simp [hc]) (by simp [hc]) (by simp [hc]) _) id

theorem isOk_touchKeys {d : DispatchEvent} {v : Value} {w : Bool} {e₁ : Engine} (h : d.result rt = .ok (v, w, e₁)) (e₂ : Engine) :
    (touchKeys e₂ d.cmd d.args w).isOk = true := by
  unfold touchKeys
  split
  · rename_i hw
    rw [isOk_map, isOk_extractCommandKeys]
    rintro ⟨hc, -⟩
    have hd : ∀ c, Cmd.ofName d.cmd ≠ .data c := by
      rcases hc with hc | hc <;> simp [hc, show Cmd.ofName (lit "EVAL") = .eval by decide,
        show Cmd.ofName (lit "EVALSHA") = .evalsha by decide]
    rw [(dispatch_effect hd h).write] at hw
    cases hw.1
  · rfl

theorem isOk_outcome (d : DispatchEvent) : (d.outcome rt).isOk = (d.result rt).isOk := by
  unfold DispatchEvent.outcome
  rcases hr : d.result rt with stop | ⟨v, w, e₁⟩
  · rfl
  · simp only [Except.bind, isOk_map, DispatchEvent.finish]
    split
    · rw [isOk_map]
      exact isOk_touchKeys hr e₁
    · exact isOk_touchKeys hr _

end

/-! ### Whole commands -/

/-- Whatever the keyspace holds, the dispatch neither panics nor waits; a script may still do so. -/
def SafeArgs (rt : Runtime) (cmd : Bytes) (args : List Bytes) : Prop :=
  match Cmd.ofName cmd with
  | .data c => ∀ s, ¬ c.Stops rt args s
  | .eval | .evalsha => keysOverflow args = false
  | _ => True

def SafeCall (rt : Runtime) : Command → Prop
  | [] => True
  | name :: args => SafeArgs rt (toUpperFast rt.unicode name) args ∧
      Cmd.ofName (toUpperFast rt.unicode name) ∉ [Cmd.eval, .evalsha, .exec]

section

variable {rt : Runtime} {ω : Env} {e : Engine} {own cmd : Bytes} {args : List Bytes} {p : Nat}

theorem SafeArgs.panics (h : SafeArgs rt cmd args) (r : Readings) (e : Engine) : ¬ dispatchPanics rt r e cmd args := by
  unfold SafeArgs at h
  unfold dispatchPanics
  split at h
  · rename_i c hc
    intro hp
    cases c
    case lpop => exact h .panic hp.1
    case rpop => exact h .panic hp.1
    all_goals exact hp
  · simp [h]
  · simp [h]
  · exact id

theorem SafeArgs.waits (h : SafeArgs rt cmd args) {c : DataCmd} (hc : Cmd.ofName cmd = .data c) :
    ¬ c.Waits rt args := by
  simp only [SafeArgs, hc] at h
  intro hw
  cases c
  case xread => exact h .hang hw
  case xreadgroup => exact h .hang hw
  all_goals exact hw

theorem SafeArgs.event {scripts : Scripts} {d : DispatchEvent} (h : SafeArgs rt d.cmd d.args)
    (hs : ∀ prog start, scriptOf rt (d.env []) d.before d.cmd d.args = some (prog, start) → (scripts d.env prog start).isOk = true) :
    (runEvent rt scripts d).isOk = true := by
  unfold runEvent
  rcases hsc : scriptOf rt (d.env []) d.before d.cmd d.args with _ | ⟨prog, start⟩
  · dsimp only
    rw [isOk_outcome]
    exact (isOk_dispatch hsc fun c hc => h.waits hc).2 (h.panics _ _)
  · exact hs prog start hsc

theorem keysAsked_internal (e : Engine) (s : ClientSession) (h : internalConn own = true) : keysAsked e s own = false := by
  simp [keysAsked, h]

theorem isOk_bufferCommand (scripts : Scripts) {args : Command} (h : cmd ≠ lit "EXEC") :
    (bufferCommand rt scripts ω e own p cmd args).isOk = true := by
  unfold bufferCommand
  rw [if_neg h]
  split_ifs <;> rfl

theorem isOk_call {c : Command} (h : SafeCall rt c) : (executeCommand rt noScripts ω e [] c).isOk = true := by
  simp only [executeCommand]
  generalize (e.getClientSession []).2 = e'
  generalize (e.getClientSession []).1 = p
  rcases c with _ | ⟨name, args⟩
  · rfl
  obtain ⟨hs, hcm⟩ := h
  simp only [List.mem_cons, List.not_mem_nil, or_false, not_or] at hcm
  simp only [executeCommandWithSession]
  have hgu := isOk_guards rt e' (e'.sessions p) [] (toUpperFast rt.unicode name) args
  rw [keysAsked_internal e' (e'.sessions p) (by decide : internalConn [] = true)] at hgu
  rcases hg : guards rt e' (e'.sessions p) [] (toUpperFast rt.unicode name) args with stop | _ | v
  · rw [hg] at hgu
    exact absurd (hgu.2 (by simp)) Bool.false_ne_true
  · dsimp only
    split
    · refine isOk_bufferCommand _ fun he => hcm.2.2 ?_
      rw [he]
      decide
    · rw [runCommand_eq]
      exact SafeArgs.event hs fun prog start hsc => absurd (scriptOf_cases hsc).1 (not_or.2 ⟨hcm.1, hcm.2.1⟩)
  · rfl

theorem isOk_runCalls {prog : LuaProg} (h : prog.Calls (SafeCall rt)) (i : Nat) :
    (runCalls rt ω i prog e).isOk = true := by
  induction prog generalizing i e with
  | done v => rfl
  | call args next ih =>
    simp only [runCalls]
    have hc : (executeCommand rt noScripts (ω.sub i) e [] args).isOk = true := isOk_call h.1
    rcases hx : executeCommand rt noScripts (ω.sub i) e [] args with stop | ⟨v, e'⟩
    · rw [hx] at hc
      cases hc
    · exact ih v (h.2 v) (i + 1)

def SafeScripts (rt : Runtime) (ω : Env) : Prop :=
  ∀ path script keys argv, ((ω path).lua script keys argv).Calls (SafeCall rt)

theorem isOk_script (h : SafeScripts rt ω) (path : List Nat) {ω' : Env} {prog : LuaProg} {start start' : Engine}
    (hsc : scriptOf rt (ω path) e cmd args = some (prog, start)) : (luaScripts rt ω' prog start').isOk = true := by
  obtain ⟨-, ⟨script, n, rest, hr⟩, -⟩ := scriptOf_cases hsc
  have hp : ∃ keys argv, prog = (ω path).lua script keys argv := by
    unfold scriptRun at hr
    split at hr
    · cases hr
    split at hr
    · cases hr
    split at hr
    · cases hr
      exact ⟨_, _, rfl⟩
    · cases hr
  obtain ⟨keys, argv, rfl⟩ := hp
  unfold luaScripts
  rw [isOk_map]
  exact isOk_runCalls (h path script keys argv) 0

def SafeQueued (rt : Runtime) : Command → Prop
  | [] => True
  | name :: args => SafeArgs rt (toUpper rt.unicode name) args

theorem isOk_runQueue (hs : SafeScripts rt ω) {queue : List Command} (h : ∀ c ∈ queue, SafeQueued rt c) (i : Nat) :
    (runQueue rt (luaScripts rt) ω own i queue e).isOk = true := by
  induction queue generalizing i e with
  | nil => rfl
  | cons c queue ih =>
    simp only [runQueue]
    have hc : (runQueued rt (luaScripts rt) (ω.sub i) e own c).isOk = true := by
      have hsa := h c (by simp)
      rcases c with _ | ⟨name, args⟩
      · rfl
      · rw [runQueued_eq]
        exact SafeArgs.event hsa fun prog start hsc => isOk_script hs [i] hsc
    rcases hx : runQueued rt (luaScripts rt) (ω.sub i) e own c with stop | ⟨v, e'⟩
    · rw [hx] at hc
      cases hc
    · dsimp only
      rw [isOk_map]
      exact ih (fun c hc => h c (by simp [hc])) (i + 1)

/-- The command, the queue that `EXEC` would run and the scripts only have safe arguments. -/
structure Tame (rt : Runtime) (ω : Env) (e : Engine) (p : Nat) (name : Bytes) (args : List Bytes) : Prop where
  command : SafeArgs rt (toUpperFast rt.unicode name) args
  queue : ∀ c ∈ (e.sessions p).txQueue, SafeQueued rt c
  scripts : SafeScripts rt ω

theorem SafeArgs.keys (h : SafeArgs rt cmd args) (hc : isScript cmd) : keysOverflow args = false := by
  rcases hc with rfl | rfl <;> exact h

theorem Tame.isOk (h : Tame rt ω e p name args) : (execute rt ω e p own (name :: args)).isOk = true := by
  have hgu : (guards rt e (e.sessions p) own (toUpperFast rt.unicode name) args).isOk = true :=
    (isOk_guards ..).2 fun hno => by simp [h.command.keys hno.2.1] at hno
  simp only [execute, executeCommandWithSession]
  rcases hg : guards rt e (e.sessions p) own (toUpperFast rt.unicode name) args with stop | _ | v
  · rw [hg] at hgu
    cases hgu
  · dsimp only
    split
    · by_cases he : toUpperFast rt.unicode name = lit "EXEC"
      · simp only [bufferCommand, if_pos he, executeTransaction]
        split
        · rfl
        · rw [isOk_map]
          exact isOk_runQueue h.scripts h.queue 0
      · exact isOk_bufferCommand _ he
    · rw [runCommand_eq]
      exact SafeArgs.event h.command fun prog start hsc => isOk_script h.scripts [] hsc
  · rfl

end

end VortexKV
