import VortexKV.Proofs.Rights
import VortexKV.Proofs.NonInterference

/-!
# Guards and transactions

The guards see a command when it is queued and not when `EXEC` runs it. `exec_guarded`: in a run in which nothing takes
away a right, the master role or a slot that a queued command was accepted for, every transaction runs commands that the
guards would accept at the moment of its `EXEC`. Nothing in the code sees to that.
-/

namespace VortexKV

open List Finmap Function Option

variable {cm : ClusterManager} {cmd name : Bytes} {args : List Bytes} {ω : Env} {i : Nat} {tr : List DispatchEvent} {x : Exec}

/-! ### One command -/

def Engine.Accepts (rt : Runtime) (e : Engine) (s : ClientSession) (own : Bytes) : Command → Prop
  | [] => True
  | name :: args => guards rt e s own (toUpperFast rt.unicode name) args = .ok none

/-- Every command of the transaction passes the guards of the engine that `EXEC` finds. -/
def Exec.Accepted (rt : Runtime) (x : Exec) : Prop :=
  ∀ c ∈ x.queue, x.engine.Accepts rt (x.engine.sessions x.session) x.connID c

section

variable {rt : Runtime} {e e' : Engine} {s s' : ClientSession} {own cmd : Bytes} {args keys : List Bytes} {T : Nat → Prop}

theorem slotGuard_iff {key : Bytes} : slotGuard cm (key :: keys) = none ↔
    (∀ k ∈ keys, keySlot k = keySlot key) ∧ cm.Owns (keySlot key) := by
  have hlt := keySlot_lt key
  simp only [slotGuard, ClusterManager.getSlotOwner, if_neg (not_le.2 hlt), ClusterManager.Owns]
  by_cases hs : ∀ k ∈ keys, keySlot k = keySlot key
  · rw [if_neg (by simpa using hs)]
    cases cm.slotMap (keySlot key) with
    | none => simp
    | some q => simpa using fun _ => hs
  · rw [if_pos (by simpa using hs)]
    simp [hs]

theorem ClusterManager.Holds.slotGuard {cm' : ClusterManager} (h : cm.Holds T cm') (hT : ∀ k ∈ keys, ¬ T (keySlot k))
    (hg : VortexKV.slotGuard cm keys = none) : VortexKV.slotGuard cm' keys = none := by
  cases keys with
  | nil => rfl
  | cons key keys =>
    obtain ⟨hs, ho⟩ := slotGuard_iff.1 hg
    exact slotGuard_iff.2 ⟨hs, h.owns _ (hT key (by simp)) ho⟩

theorem ClusterHolds.clusterGuard (h : ClusterHolds T e e') (ha : ∀ cm, e.cluster = some cm → cm.Allocated)
    (hT : ∀ keys, extractCommandKeys cmd args = .ok keys → ∀ k ∈ keys, ¬ T (keySlot k))
    (hg : VortexKV.clusterGuard e own cmd args = .ok none) : VortexKV.clusterGuard e' own cmd args = .ok none := by
  unfold VortexKV.clusterGuard at hg ⊢
  cases hcm : e.cluster with
  | none => rw [h.absent hcm]
  | some cm =>
    obtain ⟨cm', hc, hh⟩ := h.present cm hcm (ha cm hcm)
    rw [hcm] at hg
    rw [hc]
    dsimp only at hg ⊢
    rw [hh.enabled]
    split_ifs at hg ⊢ with hon
    · cases hk : extractCommandKeys cmd args with
      | error stop => rw [hk] at hg; cases hg
      | ok keys =>
        rw [hk] at hg
        exact congrArg Except.ok (hh.slotGuard (hT keys hk) (Except.ok.inj hg))
    · rfl

theorem UsersWiden.aclGuard (h : UsersWiden rt s.username e e') (hau : s'.authenticated = s.authenticated) (hn : s'.username = s.username)
    (hg : VortexKV.aclGuard rt e s own cmd args = .ok none) : VortexKV.aclGuard rt e' s' own cmd args = .ok none := by
  unfold VortexKV.aclGuard at hg ⊢
  cases ha : e.acl with
  | none => rw [h.absent ha]
  | some acl =>
    obtain ⟨acl', hac, hw⟩ := h.present acl ha
    rw [ha] at hg
    rw [hac]
    rw [hau, hn]
    split_ifs at hg ⊢ with hon
    · cases hk : extractCommandKeys cmd args with
      | error stop => rw [hk] at hg; cases hg
      | ok keys =>
        rw [hk] at hg
        have hno : acl.refusal rt s.username cmd keys = none := map_eq_none_iff.1 (Except.ok.inj hg)
        exact congrArg Except.ok (map_eq_none_iff.2 (hw cmd keys hno))
    · rfl

end

/-! ### Threats -/

/-- A dispatch that may turn the acceptance of a queued command into a refusal. -/
def DispatchEvent.Threatens (rt : Runtime) (d : DispatchEvent) (id : Bytes) (s : ClientSession) (cmd : Bytes) (args : List Bytes) : Prop :=
  d.TurnsReplica rt ∧ isWriteCommand cmd = true ∨ internalConn id = false ∧
    (d.Restricts rt s.username ∨ ∃ keys, extractCommandKeys cmd args = .ok keys ∧ ∃ k ∈ keys, d.Takes rt (keySlot k))

def DispatchEvent.Spares (rt : Runtime) (d : DispatchEvent) (id : Bytes) : Prop :=
  ∀ p name args, d.before.clientSessions.lookup id = some p → name :: args ∈ (d.before.sessions p).txQueue →
    ¬ d.Threatens rt id (d.before.sessions p) (toUpperFast rt.unicode name) args

def BusEvent.Spares (rt : Runtime) (ev : BusEvent) (e : Engine) (id : Bytes) : Prop :=
  ∀ cm p name args keys, e.cluster = some cm → e.clientSessions.lookup id = some p → name :: args ∈ (e.sessions p).txQueue →
    extractCommandKeys (toUpperFast rt.unicode name) args = .ok keys → ∀ k ∈ keys, ¬ ev.Takes cm (keySlot k)

def EngineEvent.Spares (rt : Runtime) (e : Engine) : EngineEvent → Prop
  | client ev => ∀ d ∈ ev.trace rt e, (d.env []).MeetSound ∧ ∀ id, d.Spares rt id
  | bus ev => ∀ id, internalConn id = false → ev.Spares rt e id

/-! ### Queues -/

structure Engine.InOrder (e : Engine) : Prop where
  clients : e.clients.Ok
  acl : ∀ acl, e.acl = some acl → acl.Ok
  cluster : ∀ cm, e.cluster = some cm → cm.Allocated

/-- The guards accept what the connection has queued, and it has queued nothing outside `MULTI`. -/
structure Engine.Tended (rt : Runtime) (id : Bytes) (e : Engine) : Prop where
  accepted : ∀ p, e.clientSessions.lookup id = some p → ∀ c ∈ (e.sessions p).txQueue, e.Accepts rt (e.sessions p) id c
  idle : internalConn id = false → ∀ p, e.clientSessions.lookup id = some p → (e.sessions p).inMulti = false → (e.sessions p).txQueue = []

section

variable {rt : Runtime} {e e' : Engine} {own id : Bytes} {rel : Prop} {p : Nat} {d : DispatchEvent} {T : Nat → Prop}

/-- What the guards read is no stricter for a command than it was. -/
structure Milder (rt : Runtime) (id username cmd : Bytes) (args : List Bytes) (e e' : Engine) : Prop where
  password : e'.password = e.password
  readOnly : isWriteCommand cmd = true → e'.ReadOnly → e.ReadOnly
  users : internalConn id = false → UsersWiden rt username e e'
  cluster : internalConn id = false → ∃ T, ClusterHolds T e e' ∧ ∀ keys, extractCommandKeys cmd args = .ok keys → ∀ k ∈ keys, ¬ T (keySlot k)

theorem Milder.of_eq {username : Bytes} (hpw : e'.password = e.password) (hr : e'.repl = e.repl) (ha : e'.acl = e.acl)
    (hcl : e'.cluster = e.cluster) : Milder rt id username cmd args e e' := by
  refine ⟨hpw, fun _ hro => ?_, fun _ => .of_eq ha, fun _ => ⟨fun _ => False, .of_eq hcl, fun _ _ _ _ h => h⟩⟩
  unfold Engine.ReadOnly at hro ⊢
  rwa [← hr]

theorem Milder.accepts {s s' : ClientSession}
    (h : Milder rt id s.username (toUpperFast rt.unicode name) args e e') (ha : ∀ cm, e.cluster = some cm → cm.Allocated)
    (hl : internalConn id = false → s'.authenticated = s.authenticated ∧ s'.username = s.username)
    (hac : e.Accepts rt s id (name :: args)) : e'.Accepts rt s' id (name :: args) := by
  have hr : ¬ WritesToReplica e' id (toUpperFast rt.unicode name) := by
    rintro ⟨hro, h₁, h₂, hw⟩
    exact (guards_passed hac).replica ⟨h.readOnly hw hro, h₁, h₂, hw⟩
  cases hint : internalConn id with
  | true => exact (guards_callers hint).2 hr
  | false =>
    obtain ⟨hau, hu⟩ := hl hint
    have hp := guards_passed hac
    obtain ⟨T, hh, hT⟩ := h.cluster hint
    refine Passed.guards ⟨?_, (h.users hint).aclGuard hau hu hp.acl, hr, hh.clusterGuard ha hT hp.cluster⟩
    rintro ⟨hpw, hno, hre⟩
    exact hp.login ⟨h.password ▸ hpw, hau ▸ hno, hre⟩

theorem SessionSteps.origin {password : Bytes} {login : Bytes → Prop} {t t' : Clients} {c : Command} (h : SessionSteps password own login t t')
    (hp : t'.clientSessions.lookup id = some p) (hc : c ∈ (t'.sessions p).txQueue) :
    t.clientSessions.lookup id = some p ∧ c ∈ (t.sessions p).txQueue := by
  induction h with
  | refl => exact ⟨hp, hc⟩
  | @tail t₁ t₂ _ hstep ih =>
    refine ih ?_ ?_ <;> cases hstep
    case refine_1.new hne =>
      dsimp only at hp hc
      by_cases hid : id = own
      · rw [hid, lookup_insert] at hp
        cases hp
        rw [update_self] at hc
        cases hc
      · rwa [lookup_insert_of_ne _ hid] at hp
    case refine_2.new hne =>
      dsimp only at hc
      by_cases hn : p = t₁.nextSession
      · rw [hn, update_self] at hc
        cases hc
      · rwa [update_of_ne hn] at hc
    case refine_1.login => exact hp
    case refine_2.login q name hq hl =>
      dsimp only at hc
      by_cases hpq : p = q
      · subst hpq
        rwa [update_self] at hc
      · rwa [update_of_ne hpq] at hc
    case refine_1.keep => exact hp
    case refine_2.keep f n hf =>
      rcases (hf p).txQueue with heq | heq
      · rwa [show (f p).txQueue = (t₁.sessions p).txQueue from heq] at hc
      · rw [show (f p).txQueue = [] from heq] at hc
        cases hc

theorem Engine.Tended.steps {login : Bytes → Prop} (h : e.Tended rt id) (hin : e.InOrder)
    (hs : SessionSteps e.password own login e.clients e'.clients) (hcl : ClientSteps own rel e.clients e'.clients)
    (ho : id = own → internalConn id = true)
    (hmi : ∀ p name args, e.clientSessions.lookup id = some p → name :: args ∈ (e.sessions p).txQueue →
      Milder rt id (e.sessions p).username (toUpperFast rt.unicode name) args e e') : e'.Tended rt id := by
  refine ⟨fun p hp c hc => ?_, fun hint p hp hm => ?_⟩
  · obtain ⟨hp', hc'⟩ := SessionSteps.origin hs hp hc
    cases c with
    | nil => trivial
    | cons name args =>
      refine (hmi p name args hp' hc').accepts hin.cluster (fun hint => ?_) (h.accepted p hp' _ hc')
      have hne : id ≠ own := fun heq => by rw [ho heq] at hint; cases hint
      have hun := (ClientSteps.others hcl hin.clients hne hp').2
      exact ⟨hun.authenticated, hun.username⟩
  · have hne : id ≠ own := fun heq => by rw [ho heq] at hint; cases hint
    refine eq_nil_iff_forall_not_mem.2 fun c hc => ?_
    obtain ⟨hp', hc'⟩ := SessionSteps.origin hs hp hc
    have hun := (ClientSteps.others hcl hin.clients hne hp').2
    have hn : (e.sessions p).txQueue = [] := h.idle hint p hp' (hun.inMulti.symm.trans hm)
    exact absurd (hn ▸ hc') not_mem_nil

theorem Engine.InOrder.event (h : d.before.InOrder) (hl : d.Leads rt e') (hm : (d.env []).MeetSound) : e'.InOrder := by
  refine ⟨hl.clients.ok h.clients, hl.aclOk h.acl, fun cm' hc => ?_⟩
  have hho := hl.clusterHolds hm
  cases hcm : d.before.cluster with
  | none => cases (hho.absent hcm).symm.trans hc
  | some cm =>
    obtain ⟨cm₁, hc', hh⟩ := hho.present cm hcm (h.cluster cm hcm)
    cases hc'.symm.trans hc
    exact hh.allocated

theorem Engine.Tended.event (h : d.before.Tended rt id) (hin : d.before.InOrder) (hl : d.Leads rt e') (hm : (d.env []).MeetSound)
    (hsp : d.Spares rt id) (ho : id = d.connID → internalConn id = true) : e'.Tended rt id := by
  refine h.steps hin hl.access.sessions hl.clients ho fun p name args hp hc => ?_
  have hs := hsp p name args hp hc
  refine ⟨hl.access.password, fun hw hro => hl.notReadOnly (fun ht => hs (.inl ⟨ht, hw⟩)) hro, fun hint => ?_, fun hint => ?_⟩
  · exact hl.usersWiden hin.acl fun hr => hs (.inr ⟨hint, .inl hr⟩)
  · exact ⟨d.Takes rt, hl.clusterHolds hm, fun keys hk k hme ht => hs (.inr ⟨hint, .inr ⟨keys, hk, k, hme, ht⟩⟩)⟩

theorem Move.cluster (h : Move rt own rel e e') : e'.cluster = e.cluster := by
  obtain ⟨_, _, _, _, _, rfl⟩ := h.shape
  rfl

theorem Engine.InOrder.move (h : e.InOrder) (hm : Move rt own rel e e') : e'.InOrder :=
  ⟨hm.silent.clients.ok h.clients, by rw [hm.access.2.1]; exact h.acl, by rw [hm.cluster]; exact h.cluster⟩

theorem Engine.Tended.queue (h : e.Tended rt id) (hin : e.InOrder) (hp : e.clientSessions.lookup own = some p)
    (hg : guards rt e (e.sessions p) own (toUpperFast rt.unicode name) args = .ok none)
    (ho : id = own → internalConn id = false → (e.sessions p).inMulti = true) :
    (e.setSession p fun s => { s with txQueue := s.txQueue ++ [name :: args] }).Tended rt id := by
  have hs : ∀ q, ((e.setSession p fun s => { s with txQueue := s.txQueue ++ [name :: args] }).sessions q) =
      if q = p then { e.sessions p with txQueue := (e.sessions p).txQueue ++ [name :: args] } else e.sessions q := fun q => by
    by_cases hq : q = p
    · subst hq
      rw [if_pos rfl]
      exact update_self ..
    · rw [if_neg hq]
      exact update_of_ne hq ..
  have hold : ∀ {s s' : ClientSession} (c : Command), s'.authenticated = s.authenticated → s'.username = s.username → e.Accepts rt s id c →
      (e.setSession p fun s => { s with txQueue := s.txQueue ++ [name :: args] }).Accepts rt s' id c := by
    intro s s' c ha hu hac
    cases c with
    | nil => trivial
    | cons name args => exact (Milder.of_eq rfl rfl rfl rfl).accepts hin.cluster (fun _ => ⟨ha, hu⟩) hac
  refine ⟨fun q hq c hc => ?_, fun hint q hq hm => ?_⟩
  · rw [hs q] at hc ⊢
    split_ifs at hc ⊢ with hqp
    · subst hqp
      obtain rfl : id = own := hin.clients.inj hq hp
      rcases mem_append.1 hc with hc | hc
      · exact hold c rfl rfl (h.accepted q hq c hc)
      · obtain rfl := mem_singleton.1 hc
        exact hold (name :: args) rfl rfl hg
    · exact hold c rfl rfl (h.accepted q hq c hc)
  · have hqp : q ≠ p := by
      rintro rfl
      rw [hs q, if_pos rfl] at hm
      rw [show (e.sessions q).inMulti = false from hm] at ho
      cases ho (hin.clients.inj hq hp) hint
    rw [hs q, if_neg hqp] at hm ⊢
    exact h.idle hint q hq hm

theorem Engine.Tended.move (h : e.Tended rt id) (hin : e.InOrder) (hm : Move rt own rel e e') (ho : id = own → internalConn id = true) :
    e'.Tended rt id := by
  obtain ⟨hpw, ha, hs⟩ := hm.access
  rcases hs with hs | ⟨p, name, args, hp, hg, rfl⟩
  · exact h.steps hin hs hm.silent.clients ho fun _ _ _ _ _ => .of_eq hpw hm.silent.repl ha hm.cluster
  · refine h.queue hin hp hg fun heq hint => ?_
    rw [ho heq] at hint
    cases hint

/-! ### One client command -/

/-- From `e` to `e'` the engine stays in order, and so do the queues of the connections that are not `own`. -/
def QueuesKept (rt : Runtime) (own : Bytes) (_ : Prop) (e : Engine) (tr : List DispatchEvent) (e' : Engine) : Prop :=
  (∀ d ∈ tr, (d.env []).MeetSound) → e.InOrder → e'.InOrder ∧
    ∀ id, (id = own → internalConn id = true) → (∀ d ∈ tr, d.Spares rt id) → e.Tended rt id → e'.Tended rt id

theorem queues_chains : Chains rt (fun _ => True) (fun _ _ => True) (QueuesKept rt) where
  nil e := fun _ hin => ⟨hin, fun _ _ _ h => h⟩
  trans h h' := fun hme hin => by
    obtain ⟨hn, hk⟩ := h (fun d hd => hme d (by simp [hd])) hin
    obtain ⟨hi, hke⟩ := h' (fun d hd => hme d (by simp [hd])) hn
    exact ⟨hi, fun id ho hs ht => hke id ho (fun d hd => hs d (by simp [hd])) (hk id ho (fun d hd => hs d (by simp [hd])) ht)⟩
  script h := fun hme hin => by
    obtain ⟨hi', hk⟩ := h hme hin
    refine ⟨hi', fun id _ => hk id ?_⟩
    rintro rfl
    rfl
  move hm := fun _ hin => ⟨hin.move hm, fun _ ho _ ht => ht.move hin hm ho⟩
  event hid _ hl := fun hme hin => by
    subst hid
    have hme := hme _ (mem_singleton_self _)
    exact ⟨hin.event hl hme, fun id ho hs ht => ht.event hin hl hme (hs _ (mem_singleton_self _)) ho⟩
  assume h := h trivial
  queued _ _ _ := trivial

structure Engine.Unqueued (own : Bytes) (p : Nat) (e : Engine) : Prop where
  clients : e.clients.Ok
  lookup : e.clientSessions.lookup own = some p
  queue : (e.sessions p).txQueue = []

theorem Engine.Unqueued.tended (h : e.Unqueued own p) : e.Tended rt own := by
  have hp : ∀ q, e.clientSessions.lookup own = some q → (e.sessions q).txQueue = [] := by
    intro q hq
    obtain rfl : p = q := Option.some.inj (h.lookup.symm.trans hq)
    exact h.queue
  refine ⟨fun q hq c hc => ?_, fun _ q hq _ => hp q hq⟩
  rw [hp q hq] at hc
  cases hc

theorem Engine.Unqueued.event {v : Value} (h : d.before.Unqueued own p) (he : own ≠ [])
    (hr : runEvent rt (luaScripts rt) d = .ok (v, e')) : e'.Unqueued own p := by
  rcases runEvent_cases hr with ⟨prog, start, hsc, hs⟩ | ⟨-, ho⟩
  · have hp : Path rt [] True d.before _ e' := .own (silent_scriptOf hsc) (luaScripts_traced hs)
    obtain ⟨hh, hun⟩ := hp.hidden he he ⟨h.clients, h.lookup⟩
    exact ⟨hh.ok, hh.lookup, hun.txQueue.trans h.queue⟩
  · have hl := d.leads_of_outcome ho
    refine ⟨hl.clients.ok h.clients, hl.clients.keeps h.lookup, eq_nil_iff_forall_not_mem.2 fun c hc => ?_⟩
    have hq : c ∈ (d.before.sessions p).txQueue := (SessionSteps.origin hl.access.sessions (hl.clients.keeps h.lookup) hc).2
    exact absurd (h.queue ▸ hq) not_mem_nil

theorem Engine.Unqueued.runQueue {queue : List Command} {vs : List Value} (h : e.Unqueued own p) (he : own ≠ [])
    (hr : VortexKV.runQueue rt (luaScripts rt) ω own i queue e = .ok (vs, e')) : e'.Unqueued own p := by
  induction queue generalizing i e vs with
  | nil =>
    cases hr
    exact h
  | cons c queue ih =>
    obtain ⟨v, vs', e₁, hc, hq, rfl⟩ := runQueue_cons hr
    refine ih ?_ hq
    cases c with
    | nil =>
      cases hc
      exact h
    | cons name args =>
      rw [runQueued_eq] at hc
      exact h.event (d := ⟨ω.sub i, e, own, _, name, args, false⟩) he hc

theorem Engine.Unqueued.close (hin : e.InOrder) (hp : e.clientSessions.lookup own = some p) : (closeTransaction e p).2.2.Unqueued own p := by
  have hs : Silent own True e (closeTransaction e p).2.2 := silent_closeTransaction hp trivial
  refine ⟨hs.clients.ok hin.clients, hs.clients.keeps hp, ?_⟩
  simp only [closeTransaction, Engine.setSession, update_self]

theorem Engine.Tended.command {args : Command} {v : Value} (h : e.Tended rt own) (hin : e.InOrder) (hint : internalConn own = false)
    (hp : e.clientSessions.lookup own = some p) (hr : executeCommandWithSession rt (luaScripts rt) ω e p own args = .ok (v, e')) :
    e'.Tended rt own := by
  have he : own ≠ [] := by
    rintro rfl
    cases hint
  cases session_handles hr with
  | empty | refused | nested => exact h
  | aborted | discard => exact (Engine.Unqueued.close hin hp).tended
  | exec _ _ _ _ hq => exact ((Engine.Unqueued.close hin hp).runQueue he hq).tended
  | queued hg hm => exact h.queue hin hp hg fun _ _ => hm
  | ran _ hm hr =>
    have hun : e.Unqueued own p := ⟨hin.clients, hp, h.idle hint p hp hm⟩
    exact (hun.event (d := ⟨ω, e, own, _, _, _, true⟩) he hr).tended

/-! ### Transactions -/

def SparesScripts (rt : Runtime) (tr : List DispatchEvent) : Prop := ∀ d ∈ tr, (d.env []).MeetSound ∧ d.Spares rt []

theorem SparesScripts.left {tr' : List DispatchEvent} (h : SparesScripts rt (tr ++ tr')) : SparesScripts rt tr := fun d hd => h d (by simp [hd])

theorem SparesScripts.right {tr' : List DispatchEvent} (h : SparesScripts rt (tr ++ tr')) : SparesScripts rt tr' := fun d hd => h d (by simp [hd])

/-- The engine is in order, and so is the queue of the scripts. -/
structure Engine.ScriptsTended (rt : Runtime) (e : Engine) : Prop where
  inOrder : e.InOrder
  tended : e.Tended rt []

theorem Engine.ScriptsTended.kept (h : e.ScriptsTended rt) (hs : SparesScripts rt tr) (hk : QueuesKept rt own rel e tr e') :
    e'.ScriptsTended rt := by
  obtain ⟨hin, hke⟩ := hk (fun d hd => (hs d hd).1) h.inOrder
  exact ⟨hin, hke [] (fun _ => rfl) (fun d hd => (hs d hd).2) h.tended⟩

variable {scripts : Scripts} {scriptTrace : Env → LuaProg → Engine → List DispatchEvent} {scriptExecs : Env → LuaProg → Engine → List Exec} {ω : Env}

def ScriptsAccepted (rt : Runtime) (scriptTrace : Env → LuaProg → Engine → List DispatchEvent) (scriptExecs : Env → LuaProg → Engine → List Exec) : Prop :=
  ∀ {ω prog e}, e.ScriptsTended rt → SparesScripts rt (scriptTrace ω prog e) → ∀ x ∈ scriptExecs ω prog e, x.Accepted rt

theorem dispatchExecs_accepted {checked : Bool} (hx : ScriptsAccepted rt scriptTrace scriptExecs)
    (h : e.ScriptsTended rt) (hs : SparesScripts rt (dispatchTrace rt scriptTrace ω e own cmd name args checked))
    (hme : x ∈ dispatchExecs rt scriptExecs ω e cmd args) : x.Accepted rt := by
  unfold dispatchExecs at hme
  unfold dispatchTrace at hs
  cases hsc : scriptOf rt (ω []) e cmd args with
  | none =>
    rw [hsc] at hme
    cases hme
  | some ps =>
    rw [hsc] at hme hs
    have hm : Move rt own True e ps.2 := .load hsc
    exact hx (h.kept (fun d hd => absurd hd not_mem_nil) (queues_chains.move hm)) hs x hme

theorem queueExecs_accepted {queue : List Command} (hc : ScriptsChained (QueuesKept rt) scripts scriptTrace)
    (hx : ScriptsAccepted rt scriptTrace scriptExecs) (h : e.ScriptsTended rt) (hs : SparesScripts rt (queueTrace rt scripts scriptTrace ω own i queue e))
    (hm : x ∈ queueExecs rt scripts scriptExecs ω own i queue e) : x.Accepted rt := by
  induction queue generalizing i e with
  | nil => cases hm
  | cons c queue ih =>
    rcases mem_append.1 hm with hm | hm
    · cases c with
      | nil => cases hm
      | cons name args => exact dispatchExecs_accepted hx h hs.left hm
    · have hre := hs.right
      cases hr : runQueued rt scripts (ω.sub i) e own c with
      | error stop =>
        rw [hr] at hm
        cases hm
      | ok y =>
        rw [hr] at hm hre
        have hn : y.2.ScriptsTended rt := by
          cases c with
          | nil =>
            cases hr
            exact h
          | cons name args =>
            have hk : QueuesKept rt own True e _ y.2 := runQueued_chain queues_chains hc trivial hr
            exact h.kept hs.left hk
        exact ih hn hre hm

theorem sessionExecs_accepted {args : Command} (hc : ScriptsChained (QueuesKept rt) scripts scriptTrace)
    (hx : ScriptsAccepted rt scriptTrace scriptExecs) (h : e.ScriptsTended rt) (ho : e.Tended rt own) (hp : e.clientSessions.lookup own = some p)
    (hs : SparesScripts rt (sessionTrace rt scripts scriptTrace ω e p own args))
    (hme : x ∈ sessionExecs rt scripts scriptExecs ω e p own args) : x.Accepted rt := by
  cases args with
  | nil => cases hme
  | cons name args =>
    simp only [sessionExecs] at hme
    simp only [sessionTrace] at hs
    split at hme
    · rename_i hg
      rw [hg] at hs
      split_ifs at hme hs with hmu he
      · rcases mem_cons.1 hme with rfl | hme
        · exact ho.accepted p hp
        · have hm : Move rt own True e (closeTransaction e p).2.2 := .close hp trivial
          exact queueExecs_accepted hc hx (h.kept (fun d hd => absurd hd not_mem_nil) (queues_chains.move hm)) hs hme
      · cases hme
      · exact dispatchExecs_accepted hx h hs hme
    · cases hme

theorem callsExecs_accepted {prog : LuaProg} (h : e.ScriptsTended rt) (hs : SparesScripts rt (callsTrace rt ω i prog e))
    (hme : x ∈ callsExecs rt ω i prog e) : x.Accepted rt := by
  induction prog generalizing i e with
  | done v => cases hme
  | call args next ih =>
    simp only [callsExecs] at hme
    simp only [callsTrace] at hs
    have hm : Move rt [] True e (e.getClientSession []).2 := .session e
    have hse : (e.getClientSession []).2.ScriptsTended rt := h.kept (fun d hd => absurd hd not_mem_nil) (queues_chains.move hm)
    rcases mem_append.1 hme with hme | hme
    · exact sessionExecs_accepted noScripts_chained (fun _ _ _ hme => absurd hme not_mem_nil) hse hse.tended
        (lookup_getClientSession e []) hs.left hme
    · have hre := hs.right
      cases hr : executeCommand rt noScripts (ω.sub i) e [] args with
      | error stop =>
        rw [hr] at hme
        cases hme
      | ok y =>
        rw [hr] at hme hre
        exact ih _ (hse.kept hs.left (session_chain queues_chains noScripts_chained (lookup_getClientSession e []) hr)) hre hme

theorem luaExecs_accepted : ScriptsAccepted rt (luaTrace rt) (luaExecs rt) := by
  intro ω prog e h hs x hme
  have hm : Move rt [] True e (e.setCancel true) := .cancel e true
  exact callsExecs_accepted (h.kept (fun d hd => absurd hd not_mem_nil) (queues_chains.move hm)) hs hme

/-! ### Runs -/

structure Engine.AllTended (rt : Runtime) (e : Engine) : Prop where
  inOrder : e.InOrder
  tended : ∀ id, e.Tended rt id

theorem Engine.AllTended.session (h : e.AllTended rt) (own : Bytes) : (e.getClientSession own).2.AllTended rt := by
  have hm : Move rt own True e (e.getClientSession own).2 := .session e
  have hin := h.inOrder.move hm
  refine ⟨hin, fun id => ?_⟩
  by_cases hid : id = own
  · subst hid
    cases hp : e.clientSessions.lookup id with
    | some p =>
      have hs : (e.getClientSession id).2 = e := by
        unfold Engine.getClientSession
        rw [hp]
      rw [hs]
      exact h.tended id
    | none =>
      refine Engine.Unqueued.tended ⟨hin.clients, lookup_getClientSession e id, ?_⟩
      unfold Engine.getClientSession
      rw [hp]
      simp only [update_self]
  · exact (h.tended id).move h.inOrder hm fun heq => absurd heq hid

theorem Engine.AllTended.client {ev : ClientEvent} (h : e.AllTended rt) (hs : EngineEvent.Spares rt e (.client ev)) (hstep : ev.step rt e = .ok e') :
    e'.AllTended rt := by
  cases ev with
  | command own ω args =>
    obtain ⟨v, hr⟩ := step_command hstep
    obtain ⟨hin, hk⟩ := command_chain queues_chains (fun h => h) hr (fun d hd => (hs d hd).1) h.inOrder
    refine ⟨hin, fun id => ?_⟩
    by_cases he : id = own ∧ internalConn id = false
    · obtain ⟨rfl, hint⟩ := he
      have hse := h.session id
      exact (hse.tended id).command hse.inOrder hint (lookup_getClientSession e id) hr
    · refine hk id (fun heq => ?_) (fun d hd => (hs d hd).2 id) (h.tended id)
      simpa [heq] using he
  | disconnect own =>
    cases hstep
    unfold Engine.clearClientSession
    cases hp : e.clientSessions.lookup own with
    | none => exact h
    | some p =>
      have hok := h.inOrder.clients.clear own
      unfold Engine.clearClientSession at hok
      rw [hp] at hok
      have hl : ∀ {id q}, (e.clientSessions.erase own).lookup id = some q → e.clientSessions.lookup id = some q := by
        intro id q hq
        by_cases hid : id = own
        · rw [hid, lookup_erase] at hq
          cases hq
        · rwa [lookup_erase_ne hid] at hq
      refine ⟨⟨hok, h.inOrder.acl, h.inOrder.cluster⟩, fun id => ⟨fun q hq c hc => ?_, fun hint q hq => (h.tended id).idle hint q (hl hq)⟩⟩
      have ha := (h.tended id).accepted q (hl hq) c hc
      cases c with
      | nil => trivial
      | cons name args => exact (Milder.of_eq rfl rfl rfl rfl).accepts h.inOrder.cluster (fun _ => ⟨rfl, rfl⟩) ha

theorem Engine.AllTended.bus {ev : BusEvent} {cm' : ClusterManager} (h : e.AllTended rt) (hs : EngineEvent.Spares rt e (.bus ev))
    (hcm : e.cluster = some cm) (hstep : ClusterManager.step ev.op cm = some cm') : ({ e with cluster := some cm' } : Engine).AllTended rt := by
  have hh := BusEvent.holds (h.inOrder.cluster cm hcm) hstep
  have he : ClusterHolds (fun s => 16384 ≤ s ∨ ev.Takes cm s) e { e with cluster := some cm' } := by
    refine ⟨fun hn => (nomatch hcm.symm.trans hn), fun cm₀ h₀ _ => ⟨cm', rfl, ?_⟩⟩
    cases hcm.symm.trans h₀
    exact hh
  refine ⟨⟨h.inOrder.clients, h.inOrder.acl, ?_⟩, fun id => ⟨fun p hp c hc => ?_, (h.tended id).idle⟩⟩
  · rintro _ ⟨⟩
    exact hh.allocated
  · have ha := (h.tended id).accepted p hp c hc
    cases c with
    | nil => trivial
    | cons name args =>
      refine Milder.accepts (e := e) (s := e.sessions p) ⟨rfl, fun _ hro => hro, fun _ => .of_eq rfl, fun hint => ⟨_, he, fun keys hk k hm => ?_⟩⟩
        h.inOrder.cluster (fun _ => ⟨rfl, rfl⟩) ha
      exact not_or.2 ⟨not_le.2 (keySlot_lt k), hs id hint cm p name args keys hcm hp hc hk k hm⟩

theorem Engine.AllTended.step {ev : EngineEvent} (h : e.AllTended rt) (hs : EngineEvent.Spares rt e ev) (hstep : ev.step rt e = some e') :
    e'.AllTended rt := by
  cases ev with
  | client ev =>
    cases hok : ev.step rt e with
    | error stop =>
      rw [EngineEvent.step, hok] at hstep
      cases hstep
    | ok e₁ =>
      rw [EngineEvent.step, hok] at hstep
      cases hstep
      exact h.client hs hok
  | bus ev =>
    rw [EngineEvent.step] at hstep
    cases hcm : e.cluster with
    | none =>
      rw [hcm] at hstep
      cases hstep
      exact h
    | some cm =>
      rw [hcm] at hstep
      obtain ⟨cm', hc, rfl⟩ := map_eq_some_iff.1 hstep
      exact h.bus hs hcm hc

theorem Engine.AllTended.execs {ev : EngineEvent} (h : e.AllTended rt) (hs : EngineEvent.Spares rt e ev) (hm : x ∈ ev.execs rt e) :
    x.Accepted rt := by
  cases ev with
  | bus ev => cases hm
  | client ev =>
    cases ev with
    | disconnect own => cases hm
    | command own ω args =>
      have hse := h.session own
      exact sessionExecs_accepted (luaScripts_chained queues_chains fun h => h) luaExecs_accepted ⟨hse.inOrder, hse.tended []⟩
        (hse.tended own) (lookup_getClientSession e own) (fun d hd => ⟨(hs d hd).1, (hs d hd).2 []⟩) hm

/-- In a run whose events threaten no queued command, every transaction runs commands that the guards accept at the moment
of its `EXEC`. -/
theorem exec_guarded (hne : e.NoClients) (ha : ∀ acl, e.acl = some acl → acl.Ok) (hc : ∀ cm, e.cluster = some cm → cm.Allocated)
    (evs : List EngineEvent) (hs : Machine.Along (EngineEvent.step rt) (EngineEvent.Spares rt) evs e) :
    Machine.Along (EngineEvent.step rt) (fun e ev => ∀ x ∈ ev.execs rt e, x.Accepted rt) evs e := by
  have hr : ∀ (evs : List EngineEvent) (e : Engine), e.AllTended rt → Machine.Along (EngineEvent.step rt) (EngineEvent.Spares rt) evs e →
      Machine.Along (EngineEvent.step rt) (fun e ev => ∀ x ∈ ev.execs rt e, x.Accepted rt) evs e := by
    intro evs
    induction evs with
    | nil => exact fun _ _ _ => trivial
    | cons ev evs ih =>
      intro e h hs
      exact ⟨fun x hx => h.execs hs.1 hx, fun e' hstep => ih e' (h.step hs.1 hstep) (hs.2 e' hstep)⟩
  refine hr evs e ⟨⟨hne.ok, ha, hc⟩, fun id => ?_⟩ hs
  have hn : e.clientSessions.lookup id = none := by rw [hne.1]; exact lookup_empty id
  exact ⟨fun p hp => (nomatch hn.symm.trans hp), fun _ p hp => (nomatch hn.symm.trans hp)⟩

theorem DispatchEvent.spares_of_cmd (ha : Cmd.ofName d.cmd ≠ .acl) (hr : ¬ d.TurnsReplica rt) (hcl : Cmd.ofName d.cmd ≠ .cluster) (id : Bytes) :
    d.Spares rt id := by
  rintro p name args - - (⟨ht, -⟩ | ⟨-, ⟨hc, -⟩ | ⟨keys, -, k, -, hc, -⟩⟩)
  · exact hr ht
  · exact ha hc
  · exact hcl hc

end

def masterEngine : Engine := { replayEngine .empty with repl := some {} }

def masterAfter (evs : List EngineEvent) : Engine := (Machine.run (EngineEvent.step .plain) evs masterEngine).getD masterEngine

def sends (own : Bytes) (args : Command) : EngineEvent := .client (.command own (.plain 0) args)

def transactionRun (between : EngineEvent) : List EngineEvent :=
  [sends "conn-1" ["MULTI"], sends "conn-1" ["SET", "k", "v"], between, sends "conn-1" ["EXEC"]]

theorem exec_guarded_noOne : Machine.Along (EngineEvent.step .plain) (fun e ev => ∀ x ∈ ev.execs .plain e, x.Accepted .plain)
    (transactionRun (sends "conn-2" ["REPLICAOF", "NO", "ONE"])) masterEngine := by
  have hm : (Readings.plain 0).MeetSound := by
    rintro cm ip port busPort cm' ⟨⟩ h
    exact ⟨h, rfl⟩
  refine exec_guarded ⟨rfl, rfl⟩ ?_ ?_ _ ?_
  · rintro _ ⟨⟩
    exact ACLManager.ok_new _
  · rintro _ ⟨⟩
  refine ⟨fun d hd => ?_, fun e₁ h₁ => ?_⟩
  · obtain rfl := mem_singleton.1 hd
    exact ⟨hm, DispatchEvent.spares_of_cmd (by decide) (fun h => absurd h.1 (by decide)) (by decide)⟩
  obtain rfl : e₁ = masterAfter [sends "conn-1" ["MULTI"]] := Option.some.inj (h₁.symm.trans rfl)
  refine ⟨fun d hd => absurd hd not_mem_nil, fun e₂ h₂ => ?_⟩
  obtain rfl : e₂ = masterAfter [sends "conn-1" ["MULTI"], sends "conn-1" ["SET", "k", "v"]] := Option.some.inj (h₂.symm.trans rfl)
  refine ⟨fun d hd => ?_, fun e₃ h₃ => ⟨fun d hd => ?_, fun _ _ => trivial⟩⟩
  · obtain rfl := mem_singleton.1 hd
    refine ⟨hm, DispatchEvent.spares_of_cmd (by decide) ?_ (by decide)⟩
    rintro ⟨-, host, port, rest, ha, hn⟩
    cases ha
    exact hn (by decide)
  · obtain rfl : e₃ = masterAfter [sends "conn-1" ["MULTI"], sends "conn-1" ["SET", "k", "v"], sends "conn-2" ["REPLICAOF", "NO", "ONE"]] :=
      Option.some.inj (h₃.symm.trans rfl)
    obtain rfl := mem_singleton.1 hd
    exact ⟨hm, DispatchEvent.spares_of_cmd (by decide) (fun h => absurd h.1 (by decide)) (by decide)⟩

/-- A write that was queued on a master is executed on the read-only replica that it has become. -/
theorem exec_on_replica : ∃ e e', Machine.run (EngineEvent.step .plain)
      [sends "conn-1" ["MULTI"], sends "conn-1" ["SET", "k", "v"], sends "conn-2" ["REPLICAOF", "10.0.0.1", "7379"]] masterEngine = some e ∧
    (∃ x ∈ (sends "conn-1" ["EXEC"]).execs .plain e, ¬ x.Accepted .plain) ∧
    EngineEvent.step .plain (sends "conn-1" ["EXEC"]) e = some e' ∧ e'.ReadOnly ∧ Keyspace.view 0 e'.ks "k" = some (.string "v", 0) := by
  refine ⟨_, _, rfl, ⟨_, mem_cons_self, fun ha => ?_⟩, rfl, rfl, by decide⟩
  have hg := ha ["SET", "k", "v"] (by decide)
  exact (guards_passed hg).replica ⟨rfl, by decide, by decide, by decide⟩

end VortexKV
