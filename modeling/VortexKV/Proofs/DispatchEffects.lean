import VortexKV.Clients

/-!
# What a dispatch does to the engine

`dispatch_effect`: what a command that is no data command leaves as it is. `dispatch_clients` gives the changes of the
sessions as steps of the table (`ClientSteps`); what follows a write only sets abort flags (`clients_finish`).
-/

namespace VortexKV

variable {cmd : Bytes} {args : List Bytes} {w : Bool} {v : Value}

theorem Cmd.ofName_mem {name : Bytes} {c : Cmd} (h : Cmd.ofName name = c) (hc : c ≠ .unknown) :
    ∃ s, (s, c) ∈ commandTable ∧ lit s = name := by
  unfold Cmd.ofName at h
  cases hf : commandTable.find? (lit ·.1 = name) with
  | none => rw [hf] at h; exact absurd h.symm hc
  | some x =>
    rw [hf] at h
    obtain ⟨s, c'⟩ := x
    obtain rfl : c' = c := h
    exact ⟨s, List.mem_of_find?_eq_some hf, by simpa using List.find?_some hf⟩

theorem Cmd.eq_of_unwatch {name : Bytes} (h : Cmd.ofName name = .unwatch) : name = lit "UNWATCH" := by
  obtain ⟨s, hs, rfl⟩ := Cmd.ofName_mem h (by decide)
  have key : ∀ x ∈ commandTable, x.2 = .unwatch → x.1 = "UNWATCH" := by decide
  exact congrArg lit (key _ hs rfl)

def DataCmd.extracted (args : List Bytes) : DataCmd → List Bytes
  | mget | del | «exists» => args
  | mset => evenPositions args
  | dbsize | flushdb | flushall => []
  | _ => args.head?.toList

def Cmd.onData (P : DataCmd → Bool) : Cmd → Bool
  | data c => P c
  | _ => true

/-- What holds of every data command of the table holds of a data command and its name. -/
theorem of_commandTable {c : DataCmd} {P : Bytes → DataCmd → Bool} (ht : (commandTable.all fun x => x.2.onData (P (lit x.1))) = true)
    (h : Cmd.ofName cmd = .data c) : P cmd c = true := by
  obtain ⟨s, hs, rfl⟩ := Cmd.ofName_mem h (by simp)
  exact List.all_eq_true.1 ht _ hs

theorem extractCommandKeys_data {c : DataCmd} (h : Cmd.ofName cmd = .data c) (args : List Bytes) :
    extractCommandKeys cmd args = .ok (c.extracted args) := by
  have hr := of_commandTable (P := fun cmd c =>
    decide (cmd ∈ keylessCommands) = decide (c ∈ [.dbsize, .flushdb, .flushall]) &&
      !decide (cmd = lit "EVAL" ∨ cmd = lit "EVALSHA") &&
      decide (cmd = lit "MGET" ∨ cmd = lit "DEL" ∨ cmd = lit "EXISTS") = decide (c ∈ [.mget, .del, .exists]) &&
      decide (cmd = lit "MSET") = decide (c = .mset)) (by decide) h
  simp only [Bool.and_eq_true, decide_eq_true_eq, decide_eq_decide, Bool.not_eq_true', decide_eq_false_iff_not] at hr
  obtain ⟨⟨⟨h₁, h₂⟩, h₃⟩, h₄⟩ := hr
  cases args with
  | nil => cases c <;> rfl
  | cons a args =>
    simp only [extractCommandKeys, h₁, h₂, h₃, h₄, if_false]
    cases c <;> rfl

section

variable {own : Bytes} {rel : Prop} {e e' : Engine}

theorem clients_getClientSession (e : Engine) (own : Bytes) (rel : Prop) :
    ClientSteps own rel e.clients (e.getClientSession own).2.clients := by
  unfold Engine.getClientSession
  cases h : e.clientSessions.lookup own with
  | some p => exact .refl
  | none => exact .single (.login (t := e.clients) _ h rfl)

theorem lookup_getClientSession (e : Engine) (own : Bytes) :
    (e.getClientSession own).2.clientSessions.lookup own = some (e.getClientSession own).1 := by
  unfold Engine.getClientSession
  cases h : e.clientSessions.lookup own with
  | some p => exact h
  | none => exact Finmap.lookup_insert _

theorem clients_setSession {p : Nat} (hp : e.clientSessions.lookup own = some p) (f : ClientSession → ClientSession)
    (hw : (f (e.sessions p)).watchedKeys = (e.sessions p).watchedKeys)
    (ha : (f (e.sessions p)).txAborted = (e.sessions p).txAborted) :
    ClientSteps own rel e.clients (e.setSession p f).clients := by
  have hstep : ClientStep own rel e.clients _ := .change (f (e.sessions p)) hp ha hw.symm.subset
  have hwt : Clients.weight (f (e.sessions p)) = Clients.weight (e.sessions p) := by simp [Clients.weight, hw]
  have heq : (e.setSession p f).clients = e.clients.replace p (f (e.sessions p)) := by
    simp only [Engine.clients, Engine.setSession, Clients.replace, hwt, Int.sub_add_cancel]
  rw [heq]
  exact .single hstep

theorem clients_release {p : Nat} (hr : rel) (hp : e.clientSessions.lookup own = some p)
    (f : ClientSession → ClientSession) (hf : ∀ s : ClientSession, s.watchedKeys = ∅ → (f s).watchedKeys = ∅) :
    ClientSteps own rel e.clients ((e.unwatch p).setSession p f).clients := by
  have heq : ∃ s, ((e.unwatch p).setSession p f).clients = e.clients.replace p s := by
    unfold Engine.unwatch
    split
    · rename_i h
      exact ⟨f (e.sessions p), by
        simp [Engine.clients, Engine.setSession, Clients.replace, Clients.weight, h, hf _ h]⟩
    · rename_i h
      have hfw : (f { e.sessions p with watchedKeys := ∅ }).watchedKeys = ∅ := hf _ rfl
      exact ⟨f { e.sessions p with watchedKeys := ∅ }, by
        simp [Engine.clients, Engine.setSession, Clients.replace, Clients.weight, h, hfw]⟩
  obtain ⟨s, hs⟩ := heq
  rw [hs]
  exact .single (.release hr s hp)

theorem clients_touchWatchedKey (e : Engine) (key : Bytes) :
    ClientSteps own rel e.clients (e.touchWatchedKey key).clients := by
  unfold Engine.touchWatchedKey
  split
  · exact .refl
  · exact .single (.touch (t := e.clients) key)

theorem clients_touchWatchedKeys (e : Engine) (keys : List Bytes) :
    ClientSteps own rel e.clients (e.touchWatchedKeys keys).clients := by
  induction keys generalizing e with
  | nil => exact .refl
  | cons key keys ih => exact (clients_touchWatchedKey e key).trans (ih _)

theorem touchKeys_cases (h : touchKeys e cmd args w = .ok e') :
    e' = e ∨ w = true ∧ ∃ keys, extractCommandKeys cmd args = .ok keys ∧ e' = e.touchWatchedKeys keys := by
  unfold touchKeys at h
  split at h
  · rename_i hw
    cases hk : extractCommandKeys cmd args with
    | error s => rw [hk] at h; cases h
    | ok keys =>
      rw [hk] at h
      cases h
      exact .inr ⟨hw.1, keys, rfl, rfl⟩
  · cases h
    exact .inl rfl

theorem sessions_touchWatchedKeys (e : Engine) (keys : List Bytes) :
    ∃ s, e.touchWatchedKeys keys = { e with sessions := s } := by
  induction keys generalizing e with
  | nil => exact ⟨e.sessions, rfl⟩
  | cons k keys ih =>
    obtain ⟨s, hs⟩ : ∃ s, e.touchWatchedKey k = { e with sessions := s } := by
      unfold Engine.touchWatchedKey
      split
      · exact ⟨e.sessions, rfl⟩
      · exact ⟨_, rfl⟩
    obtain ⟨s', hs'⟩ := ih (e.touchWatchedKey k)
    exact ⟨s', hs'.trans (by rw [hs])⟩

theorem touchKeys_eq (h : touchKeys e cmd args w = .ok e') : ∃ s, e' = { e with sessions := s } := by
  rcases touchKeys_cases h with rfl | ⟨-, keys, -, rfl⟩
  · exact ⟨_, rfl⟩
  · exact sessions_touchWatchedKeys e keys

theorem clients_touchKeys (h : touchKeys e cmd args w = .ok e') : ClientSteps own rel e.clients e'.clients := by
  rcases touchKeys_cases h with rfl | ⟨-, keys, -, rfl⟩
  · exact .refl
  · exact clients_touchWatchedKeys e keys

theorem memoryCheck_eq (ω : Env) (e : Engine) (w : Bool) :
    ∃ ks n, (memoryCheck ω e w).2 = { e with ks := ks, memCheckCounter := n } := by
  simp only [memoryCheck]
  split_ifs
  · exact ⟨e.ks, e.memCheckCounter, rfl⟩
  all_goals exact ⟨_, _, rfl⟩

theorem memoryCheck_withSessions (ω : Env) (e : Engine) (s : Nat → ClientSession) (w : Bool) :
    memoryCheck ω { e with sessions := s } w = ((memoryCheck ω e w).1, { (memoryCheck ω e w).2 with sessions := s }) := by
  unfold memoryCheck
  dsimp only
  split_ifs <;> rfl

theorem touchWatchedKeys_persist (e : Engine) (id : Bytes) (c : Command) (keys : List Bytes) :
    (e.persist id c).touchWatchedKeys keys = (e.touchWatchedKeys keys).persist id c := by
  induction keys generalizing e with
  | nil => rfl
  | cons key keys ih =>
    have hs : (e.persist id c).touchWatchedKey key = (e.touchWatchedKey key).persist id c := by
      unfold Engine.touchWatchedKey
      rw [apply_ite (Engine.persist · id c)]
      rfl
    exact (congrArg (·.touchWatchedKeys keys) hs).trans (ih _)

theorem touchKeys_persist (e : Engine) (id : Bytes) (c : Command) (cmd : Bytes) (args : List Bytes) (w : Bool) :
    touchKeys (e.persist id c) cmd args w = (touchKeys e cmd args w).map (·.persist id c) := by
  unfold touchKeys
  rw [apply_ite (Except.map (Engine.persist · id c))]
  cases extractCommandKeys cmd args with
  | error s => rfl
  | ok keys =>
    simp only [Except.map, touchWatchedKeys_persist]
    rfl

/-- After a dispatch the watchers hear of a write, and keys may be evicted before it is written down. -/
theorem finish_cases {d : DispatchEvent} (h : d.finish w e = .ok e') : ∃ e₁, touchKeys e d.cmd d.args w = .ok e₁ ∧
    ∃ ks n, e' = { e₁ with ks := ks, memCheckCounter := n } ∨
      e' = ({ e₁ with ks := ks, memCheckCounter := n } : Engine).persist d.connID (d.name :: d.args) := by
  unfold DispatchEvent.finish at h
  split at h
  · cases ht : touchKeys e d.cmd d.args w with
    | error stop => rw [ht] at h; cases h
    | ok e₁ =>
      obtain ⟨ks, n, hm⟩ := memoryCheck_eq d.env e₁ w
      rw [ht] at h
      simp only [Except.map, Except.ok.injEq, hm] at h
      refine ⟨e₁, rfl, ks, n, ?_⟩
      subst h
      split_ifs
      · exact .inl rfl
      · exact .inr rfl
      · exact .inl rfl
  · split at h
    · rw [touchKeys_persist] at h
      cases ht : touchKeys e d.cmd d.args w with
      | error stop => rw [ht] at h; cases h
      | ok e₁ =>
        rw [ht] at h
        cases h
        exact ⟨e₁, rfl, _, _, .inr rfl⟩
    · exact ⟨e', h, _, _, .inl rfl⟩

theorem finish_touches {d : DispatchEvent} (h : d.finish w e = .ok e') :
    ∃ e₁, touchKeys e d.cmd d.args w = .ok e₁ ∧ e'.clients = e₁.clients := by
  obtain ⟨e₁, ht, ks, n, rfl | rfl⟩ := finish_cases h
  · exact ⟨e₁, ht, rfl⟩
  · exact ⟨e₁, ht, rfl⟩

theorem clients_finish {d : DispatchEvent} (h : d.finish w e = .ok e') :
    ClientSteps own rel e.clients e'.clients := by
  obtain ⟨e₁, ht, hc⟩ := finish_touches h
  rw [hc]
  exact clients_touchKeys ht

end

/-! ### Commands that are no data commands -/

structure Effect (c : Cmd) (e e' : Engine) (w : Bool) : Prop where
  write : w = false
  aof : e'.aof = e.aof
  maxMemory : e'.maxMemory = e.maxMemory
  memCheckCounter : e'.memCheckCounter = e.memCheckCounter
  ks : c ≠ .wasm → e'.ks = e.ks
  repl : c ≠ .replicaof → e'.repl = e.repl
  rdb : c ≠ .save → c ≠ .bgsave → e'.rdb = e.rdb
  cluster : c ≠ .cluster → e'.cluster = e.cluster
  clients : c ≠ .auth → c ≠ .acl → c ≠ .multi → c ≠ .watch → c ≠ .unwatch → e'.clients = e.clients

def Cmd.OnSession (c : Cmd) : Prop := c = .auth ∨ c = .acl ∨ c = .multi ∨ c = .watch ∨ c = .unwatch

section

variable {c : Cmd} {e e' : Engine} {own : Bytes} {args : List Bytes} {rt : Runtime} {r : Readings} {v : Value}
  {w : Bool}

theorem Effect.onSession (hc : c.OnSession) (h : ∃ acl s n m k, e' =
    { e with acl := acl, sessions := s, nextSession := n, clientSessions := m, watchedCount := k }) :
    Effect c e e' false := by
  obtain ⟨acl, s, n, m, k, rfl⟩ := h
  refine ⟨rfl, rfl, rfl, rfl, fun _ => rfl, fun _ => rfl, fun _ _ => rfl, fun _ => rfl, fun h₁ h₂ h₃ h₄ h₅ => ?_⟩
  rcases hc with hc | hc | hc | hc | hc <;> contradiction

theorem getClientSession_eq (e : Engine) (own : Bytes) : ∃ s n m, (e.getClientSession own).2 =
    { e with sessions := s, nextSession := n, clientSessions := m } := by
  unfold Engine.getClientSession
  split
  · exact ⟨_, _, _, rfl⟩
  · exact ⟨_, _, _, rfl⟩

/-- `AUTH` with these arguments succeeds, as the user `name`. -/
def LogsIn (e : Engine) (args : List Bytes) (name : Bytes) : Prop :=
  match args with
  | [] => False
  | a :: rest =>
    let username := if rest = [] then lit "default" else a
    match e.acl with
    | some acl => ∃ user, name = user.username ∧
        (if username = lit "default" then acl.syncDefault e.password else acl).authenticate username (rest.headD a) =
          some user
    | none => name = username ∧ (e.password = [] ∨ rest.headD a = e.password)

def ActsAsAdmin (e : Engine) (own : Bytes) (acl : ACLManager) : Prop :=
  (acl.lookup (ACLManager.orDefault
    ((e.getClientSession own).2.sessions (e.getClientSession own).1).username)).map (·.isAdmin) = some true

inductive AclChange (rt : Runtime) (e : Engine) (own cmd : Bytes) (args : List Bytes) : Option ACLManager → Prop
  | same : AclChange rt e own cmd args e.acl
  | sync {acl : ACLManager} (hacl : e.acl = some acl) (hc : Cmd.ofName cmd = .auth) :
      AclChange rt e own cmd args (some (acl.syncDefault e.password))
  | setUser {acl : ACLManager} {sub name : Bytes} {toks : List Bytes} (hacl : e.acl = some acl)
      (hc : Cmd.ofName cmd = .acl) (hargs : args = sub :: name :: toks)
      (hsub : toUpper rt.unicode sub = lit "SETUSER") (hadmin : ActsAsAdmin e own acl) :
      AclChange rt e own cmd args (some (acl.setUser
        (toks.foldl ACLManager.applyToken ((acl.lookup name).getD { username := name }))))
  | deleteUser {acl : ACLManager} {sub name : Bytes} {rest : List Bytes} (hacl : e.acl = some acl)
      (hc : Cmd.ofName cmd = .acl) (hargs : args = sub :: name :: rest)
      (hsub : toUpper rt.unicode sub = lit "DELUSER") (hadmin : ActsAsAdmin e own acl) :
      AclChange rt e own cmd args (some (acl.deleteUser name).2)

/-- What a command on sessions or users leaves. -/
inductive SessionCommand (rt : Runtime) (e : Engine) (own cmd : Bytes) (args : List Bytes) : Engine → Prop
  | users {acl : Option ACLManager} (h : AclChange rt e own cmd args acl) :
      SessionCommand rt e own cmd args { e with acl := acl }
  | session {acl : Option ACLManager} (h : AclChange rt e own cmd args acl) :
      SessionCommand rt e own cmd args { (e.getClientSession own).2 with acl := acl }
  | login {acl : Option ACLManager} {name : Bytes} (h : AclChange rt e own cmd args acl) (hc : Cmd.ofName cmd = .auth)
      (hl : LogsIn e args name) :
      SessionCommand rt e own cmd args { (e.getClientSession own).2.setSession (e.getClientSession own).1
        fun s => { s with authenticated := true, username := name } with acl := acl }
  | multi : SessionCommand rt e own cmd args ((e.getClientSession own).2.setSession (e.getClientSession own).1
      fun s => { s with inMulti := true, txQueue := [] })
  | watch (ha : args ≠ []) : SessionCommand rt e own cmd args
      { (e.getClientSession own).2.setSession (e.getClientSession own).1
          fun s => { s with watchedKeys := s.watchedKeys ∪ args.toFinset } with
        watchedCount := (e.getClientSession own).2.watchedCount +
          if ((e.getClientSession own).2.sessions (e.getClientSession own).1).watchedKeys = ∅ then 1 else 0 }
  | unwatch (hc : cmd = lit "UNWATCH") : SessionCommand rt e own cmd args
      (((e.getClientSession own).2.unwatch (e.getClientSession own).1).setSession (e.getClientSession own).1
        fun s => { s with txAborted := false })

theorem getClientSession_withAcl (e : Engine) (own : Bytes) (acl : Option ACLManager) :
    ({ e with acl := acl } : Engine).getClientSession own =
      ((e.getClientSession own).1, { (e.getClientSession own).2 with acl := acl }) := by
  unfold Engine.getClientSession
  dsimp only
  split <;> rfl

theorem acl_getClientSession (e : Engine) (own : Bytes) : (e.getClientSession own).2.acl = e.acl := by
  obtain ⟨s, n, m, h⟩ := getClientSession_eq e own
  rw [h]

theorem SessionCommand.same : SessionCommand rt e own cmd args e := .users .same

theorem SessionCommand.asked : SessionCommand rt e own cmd args (e.getClientSession own).2 := by
  have h : SessionCommand rt e own cmd args { (e.getClientSession own).2 with acl := e.acl } := .session .same
  rwa [← acl_getClientSession e own] at h

theorem session_cmdAuth (hc : Cmd.ofName cmd = .auth) (h : cmdAuth e own args = .ok (v, w, e')) :
    w = false ∧ SessionCommand rt e own cmd args e' := by
  cases args with
  | nil => cases h; exact ⟨rfl, .same⟩
  | cons a rest =>
    simp only [cmdAuth, getClientSession_withAcl] at h
    cases ha : e.acl with
    | some acl =>
      simp only [ha] at h
      have hch : AclChange rt e own cmd (a :: rest)
          (some (if (if rest = [] then lit "default" else a) = lit "default" then acl.syncDefault e.password
            else acl)) := by
        by_cases hn : (if rest = [] then lit "default" else a) = lit "default"
        · rw [if_pos hn]
          exact .sync ha hc
        · rw [if_neg hn, ← ha]
          exact .same
      split at h
      · rename_i user hau
        cases h
        exact ⟨rfl, .login hch hc (by simpa only [LogsIn, ha] using ⟨user, rfl, hau⟩)⟩
      · cases h
        exact ⟨rfl, .users hch⟩
    | none =>
      simp only [ha] at h
      split at h
      · rename_i hpa
        cases h
        have hl : LogsIn e (a :: rest) (if rest = [] then lit "default" else a) := by
          simp only [LogsIn, ha, true_and]
          exact hpa
        have hs : SessionCommand rt e own cmd (a :: rest) _ := .login .same hc hl
        rw [← acl_getClientSession e own] at hs
        exact ⟨rfl, hs⟩
      · cases h
        exact ⟨rfl, .same⟩

theorem session_handleACLCommand (hc : Cmd.ofName cmd = .acl) (h : handleACLCommand rt r e own args = .ok (v, w, e')) :
    w = false ∧ SessionCommand rt e own cmd args e' := by
  cases args with
  | nil => cases h; exact ⟨rfl, .same⟩
  | cons sub args =>
    simp only [handleACLCommand] at h
    cases hal : e.acl with
    | none => rw [hal] at h; cases h; exact ⟨rfl, .same⟩
    | some acl =>
      simp only [hal] at h
      split at h
      · cases h; exact ⟨rfl, .asked⟩
      split at h
      · cases h; exact ⟨rfl, .asked⟩
      rename_i ha
      have ha : ActsAsAdmin e own acl := not_not.1 ha
      split at h
      · cases h; exact ⟨rfl, .asked⟩
      split at h
      · rename_i hsu
        cases args with
        | nil => cases h; exact ⟨rfl, .asked⟩
        | cons name toks => cases h; exact ⟨rfl, .session (.setUser hal hc rfl hsu ha)⟩
      split at h
      · rename_i hsu
        cases args with
        | nil => cases h; exact ⟨rfl, .asked⟩
        | cons name rest => cases h; exact ⟨rfl, .session (.deleteUser hal hc rfl hsu ha)⟩
      · cases h; exact ⟨rfl, .asked⟩

theorem dispatch_session {scripts : LuaProg → Engine → Except Stop (Value × Engine)} (hs : (Cmd.ofName cmd).OnSession)
    (h : dispatch rt r scripts e own cmd args = .ok (v, w, e')) : w = false ∧ SessionCommand rt e own cmd args e' := by
  rcases hs with hc | hc | hc | hc | hc
  · exact session_cmdAuth hc (by simpa only [dispatch, hc] using h)
  · exact session_handleACLCommand hc (by simpa only [dispatch, hc] using h)
  · simp only [dispatch, hc, cmdMulti] at h
    cases h
    exact ⟨rfl, .multi⟩
  · simp only [dispatch, hc, cmdWatch] at h
    split at h
    · cases h; exact ⟨rfl, .asked⟩
    split at h
    · cases h; exact ⟨rfl, .asked⟩
    · rename_i ha
      cases h
      refine ⟨rfl, ?_⟩
      convert SessionCommand.watch ha using 2
      split <;> simp
  · simp only [dispatch, hc, cmdUnwatch] at h
    cases h
    exact ⟨rfl, .unwatch (Cmd.eq_of_unwatch hc)⟩

theorem SessionCommand.effect (hc : c.OnSession) (h : SessionCommand rt e own cmd args e') : Effect c e e' false := by
  obtain ⟨s, n, m, hg⟩ := getClientSession_eq e own
  refine .onSession hc ?_
  cases h with
  | users => exact ⟨_, _, _, _, _, rfl⟩
  | unwatch =>
    rw [hg]
    unfold Engine.unwatch
    split <;> exact ⟨_, _, _, _, _, rfl⟩
  | _ =>
    rw [hg]
    exact ⟨_, _, _, _, _, rfl⟩

theorem SessionCommand.clients (h : SessionCommand rt e own cmd args e') :
    ClientSteps own (cmd = lit "UNWATCH") e.clients e'.clients := by
  have hget := clients_getClientSession e own (cmd = lit "UNWATCH")
  have hp := lookup_getClientSession e own
  cases h with
  | users => exact .refl
  | session => exact hget
  | @login _ name => exact hget.trans (clients_setSession hp (fun s => { s with authenticated := true, username := name }) rfl rfl)
  | multi => exact hget.trans (clients_setSession hp _ rfl rfl)
  | watch ha =>
    generalize e.getClientSession own = g at *
    obtain ⟨p, e₁⟩ := g
    have hne : (e₁.sessions p).watchedKeys ∪ args.toFinset ≠ ∅ := by
      cases args with
      | nil => exact absurd rfl ha
      | cons a args => exact Finset.ne_empty_of_mem (a := a) (by simp)
    let s : ClientSession := { e₁.sessions p with
      watchedKeys := (e₁.sessions p).watchedKeys ∪ args.toFinset }
    have hstep : ClientStep own (cmd = lit "UNWATCH") e₁.clients _ := .change s hp rfl Finset.subset_union_left
    refine hget.tail ?_
    convert hstep using 1
    simp only [Engine.clients, Engine.setSession, Clients.replace, Clients.weight, s, if_neg hne]
    congr 1
    by_cases hw : (e₁.sessions p).watchedKeys = ∅ <;> simp [hw]
  | unwatch hc => exact hget.trans (clients_release hc hp _ fun s hs => hs)

def ClusterOnly (e : Engine) (x : Dispatched) : Prop :=
  ∀ v w e', x = .ok (v, w, e') → w = false ∧ ∃ cm, e' = { e with cluster := cm }

theorem clusterOnly_replies (e : Engine) (v : Value) : ClusterOnly e (e.replies v) := by
  rintro _ _ _ ⟨⟩
  exact ⟨rfl, e.cluster, rfl⟩

theorem clusterOnly_errs (e : Engine) (msg : Bytes) : ClusterOnly e (e.errs msg) := clusterOnly_replies e _

theorem clusterOnly_changeCluster (e : Engine) (x : Except Bytes ClusterManager) :
    ClusterOnly e (changeCluster e x) := by
  cases x with
  | error m => exact clusterOnly_errs e m
  | ok cm =>
    rintro _ _ _ ⟨⟩
    exact ⟨rfl, some cm, rfl⟩

theorem clusterOnly_clusterCommand (cm : ClusterManager) (sub : ClusterSub) :
    ClusterOnly e (clusterCommand rt r e cm args sub) := by
  cases sub
  all_goals simp only [clusterCommand]
  all_goals repeat' split
  all_goals first
    | exact clusterOnly_replies e _
    | exact clusterOnly_errs e _
    | exact clusterOnly_changeCluster e _

theorem clusterOnly_handleClusterCommand : ClusterOnly e (handleClusterCommand rt r e args) := by
  cases args with
  | nil => exact clusterOnly_errs e _
  | cons sub args =>
    simp only [handleClusterCommand]
    repeat' split
    all_goals first
      | exact clusterOnly_replies e _
      | exact clusterOnly_errs e _
      | exact clusterOnly_clusterCommand _ _

/-- The engine after a command that works neither on the keyspace alone nor on sessions. -/
structure Elsewhere (c : Cmd) (e e' : Engine) (w : Bool) : Prop where
  write : w = false
  shape : ∃ ks rdb lua wasm repl cluster, e' = { e with
    ks := ks, rdb := rdb, lua := lua, wasm := wasm, repl := repl, cluster := cluster }
  ks : c ≠ .wasm → e'.ks = e.ks
  repl : c ≠ .replicaof → e'.repl = e.repl
  rdb : c ≠ .save → c ≠ .bgsave → e'.rdb = e.rdb
  cluster : c ≠ .cluster → e'.cluster = e.cluster

theorem Elsewhere.refl (c : Cmd) (e : Engine) : Elsewhere c e e false :=
  ⟨rfl, ⟨_, _, _, _, _, _, rfl⟩, fun _ => rfl, fun _ => rfl, fun _ _ => rfl, fun _ => rfl⟩

theorem dispatch_elsewhere (hnd : ∀ c, Cmd.ofName cmd ≠ .data c) (hns : ¬ (Cmd.ofName cmd).OnSession)
    (h : dispatch rt r (fun _ _ => .error .hang) e own cmd args = .ok (v, w, e')) :
    Elsewhere (Cmd.ofName cmd) e e' w := by
  cases hc : Cmd.ofName cmd with
  | data c => exact absurd hc (hnd c)
  | auth | acl | multi | watch | unwatch => exact absurd (by simp [hc, Cmd.OnSession]) hns
  | cluster =>
    obtain ⟨rfl, cm, rfl⟩ := clusterOnly_handleClusterCommand v w e' (by simpa only [dispatch, hc] using h)
    exact ⟨rfl, ⟨_, _, _, _, _, _, rfl⟩, fun _ => rfl, fun _ => rfl, fun _ _ => rfl, fun h => absurd rfl h⟩
  | eval =>
    simp only [dispatch, hc, cmdEval, runScript] at h
    repeat' split at h
    all_goals cases h
    all_goals exact .refl _ _
  | evalsha =>
    simp only [dispatch, hc, cmdEvalSha, runScript] at h
    repeat' split at h
    all_goals cases h
    all_goals exact .refl _ _
  | script =>
    simp only [dispatch, hc, scriptCommand] at h
    repeat' split at h
    all_goals
      cases h
      exact ⟨rfl, ⟨_, _, _, _, _, _, rfl⟩, fun _ => rfl, fun _ => rfl, fun _ _ => rfl, fun _ => rfl⟩
  | wasm =>
    simp only [dispatch, hc, handleWasm, wasmLoad, wasmCall] at h
    repeat' split at h
    all_goals
      cases h
      exact ⟨rfl, ⟨_, _, _, _, _, _, rfl⟩, fun h => absurd rfl h, fun _ => rfl, fun _ _ => rfl, fun _ => rfl⟩
  | replicaof =>
    simp only [dispatch, hc, cmdReplicaOf] at h
    repeat' split at h
    all_goals
      cases h
      exact ⟨rfl, ⟨_, _, _, _, _, _, rfl⟩, fun _ => rfl, fun h => absurd rfl h, fun _ _ => rfl, fun _ => rfl⟩
  | save =>
    simp only [dispatch, hc, cmdSave] at h
    repeat' split at h
    all_goals
      cases h
      exact ⟨rfl, ⟨_, _, _, _, _, _, rfl⟩, fun _ => rfl, fun _ => rfl, fun h => absurd rfl h, fun _ => rfl⟩
  | bgsave =>
    simp only [dispatch, hc, cmdBgSave] at h
    repeat' split at h
    all_goals
      cases h
      exact ⟨rfl, ⟨_, _, _, _, _, _, rfl⟩, fun _ => rfl, fun _ => rfl, fun _ h => absurd rfl h, fun _ => rfl⟩
  | _ =>
    simp only [dispatch, hc] at h
    repeat' split at h
    all_goals
      cases h
      exact .refl _ _

theorem dispatch_effect (hnd : ∀ c, Cmd.ofName cmd ≠ .data c)
    (h : dispatch rt r (fun _ _ => .error .hang) e own cmd args = .ok (v, w, e')) :
    Effect (Cmd.ofName cmd) e e' w := by
  by_cases hns : (Cmd.ofName cmd).OnSession
  · obtain ⟨rfl, hs⟩ := dispatch_session hns h
    exact hs.effect hns
  · obtain ⟨rfl, ⟨_, _, _, _, _, _, rfl⟩, hks, hr, hrd, hcl⟩ := dispatch_elsewhere hnd hns h
    exact ⟨rfl, rfl, rfl, rfl, hks, hr, hrd, hcl, fun _ _ _ _ _ => rfl⟩

/-! ### All commands -/

theorem dispatch_data_eq {d : DataCmd} (hc : Cmd.ofName cmd = .data d)
    {scripts : LuaProg → Engine → Except Stop (Value × Engine)}
    (h : dispatch rt r scripts e own cmd args = .ok (v, w, e')) :
    ((d.action rt r args).run r.fastNow e.ks).1 = .ok (v, w) ∧
      e' = { e with ks := ((d.action rt r args).run r.fastNow e.ks).2 } := by
  rw [dispatch_data rt r _ _ _ _ hc] at h
  cases ho : ((d.action rt r args).run r.fastNow e.ks).1 with
  | error s => rw [ho] at h; cases h
  | ok x =>
    rw [ho] at h
    cases h
    exact ⟨rfl, rfl⟩

theorem dispatch_clients (h : dispatch rt r (fun _ _ => .error .hang) e own cmd args = .ok (v, w, e')) :
    ClientSteps own (cmd = lit "UNWATCH") e.clients e'.clients := by
  by_cases hd : ∃ d, Cmd.ofName cmd = .data d
  · obtain ⟨d, hd⟩ := hd
    rw [(dispatch_data_eq hd h).2]
    exact .refl
  by_cases hns : (Cmd.ofName cmd).OnSession
  · exact (dispatch_session hns h).2.clients
  · obtain ⟨-, ⟨_, _, _, _, _, _, rfl⟩, -⟩ := dispatch_elsewhere (fun d hc => hd ⟨d, hc⟩) hns h
    exact .refl

end

end VortexKV
