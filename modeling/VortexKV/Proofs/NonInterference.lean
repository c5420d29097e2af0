import VortexKV.Proofs.Simulation
import VortexKV.Reactor

/-!
# A command does not see another connection's session

Two engines that differ in one session give the same replies to every other connection, and still differ in nothing else
afterwards: the executor reads only the session it is given and the one it looks up, and sets abort flags.
-/

namespace VortexKV

open KeyedStore

def Engine.withSession (q : Nat) (s : ClientSession) (e : Engine) : Engine :=
  { e with sessions := Function.update e.sessions q s }

def SameBut (q : Nat) (e e' : Engine) : Prop := ∃ s, e' = e.withSession q s

/-- The connection `own` has, or would get, another session than `q`. -/
def Apart (q : Nat) (own : Bytes) (e : Engine) : Prop := (e.getClientSession own).1 ≠ q

section

variable {rt : Runtime} {r : Readings} {q p : Nat} {s : ClientSession} {e : Engine} {own : Bytes}

theorem SameBut.refl (q : Nat) (e : Engine) : SameBut q e e :=
  ⟨e.sessions q, by simp [Engine.withSession]⟩

theorem sessions_withSession (hp : p ≠ q) : (e.withSession q s).sessions p = e.sessions p :=
  Function.update_of_ne hp _ _

theorem setSession_withSession (hp : p ≠ q) (f : ClientSession → ClientSession) :
    (e.withSession q s).setSession p f = (e.setSession p f).withSession q s := by
  simp only [Engine.setSession, sessions_withSession hp]
  simp only [Engine.withSession]
  rw [Function.update_comm hp]

theorem getClientSession_withSession (h : Apart q own e) :
    (e.withSession q s).getClientSession own =
      ((e.getClientSession own).1, (e.getClientSession own).2.withSession q s) := by
  unfold Apart at h
  unfold Engine.getClientSession at h ⊢
  rw [show (e.withSession q s).clientSessions = e.clientSessions from rfl]
  cases hl : e.clientSessions.lookup own with
  | some p => rfl
  | none =>
    simp only [hl] at h
    simp only [Engine.withSession]
    rw [Function.update_comm h]
    rfl

theorem unwatch_withSession (hp : p ≠ q) : (e.withSession q s).unwatch p = (e.unwatch p).withSession q s := by
  have hset := setSession_withSession (s := s) (e := e) hp fun s => { s with watchedKeys := ∅ }
  unfold Engine.unwatch
  rw [sessions_withSession hp]
  split
  · rfl
  · rw [hset]; rfl

def liftSession (q : Nat) (s : ClientSession) (x : Dispatched) : Dispatched :=
  x.map fun (v, w, e) => (v, w, e.withSession q s)

theorem cmdAuth_withSession (h : Apart q own e) (args : List Bytes) :
    cmdAuth (e.withSession q s) own args = liftSession q s (cmdAuth e own args) := by
  have hlo : ∀ (acl : Option ACLManager) (name : Bytes),
      ((({ e.withSession q s with acl := acl } : Engine).getClientSession own).2.setSession
        (({ e.withSession q s with acl := acl } : Engine).getClientSession own).1
          fun s => { s with authenticated := true, username := name }) =
      ((({ e with acl := acl } : Engine).getClientSession own).2.setSession
        (({ e with acl := acl } : Engine).getClientSession own).1
          fun s => { s with authenticated := true, username := name }).withSession q s := by
    intro acl name
    have h' : Apart q own { e with acl := acl } := by
      unfold Apart Engine.getClientSession at h ⊢
      cases hl : e.clientSessions.lookup own <;> simpa only [hl] using h
    have hg := getClientSession_withSession (s := s) h'
    rw [show ({ e.withSession q s with acl := acl } : Engine) =
      Engine.withSession q s { e with acl := acl } from rfl, hg]
    exact setSession_withSession h' _
  cases args with
  | nil => rfl
  | cons a rest =>
    simp only [cmdAuth, show (e.withSession q s).acl = e.acl from rfl,
      show (e.withSession q s).password = e.password from rfl]
    cases ha : e.acl with
    | none =>
      dsimp only
      split
      · have := hlo e.acl (if rest = [] then lit "default" else a)
        exact congrArg (fun e => Except.ok (ok, false, e)) this
      · rfl
    | some acl =>
      dsimp only
      split
      · rename_i user _
        exact congrArg (fun e => Except.ok (ok, false, e)) (hlo (some _) user.username)
      · rfl

theorem handleACLCommand_withSession (h : Apart q own e) (args : List Bytes) :
    handleACLCommand rt r (e.withSession q s) own args = liftSession q s (handleACLCommand rt r e own args) := by
  cases args with
  | nil => rfl
  | cons sub args =>
    simp only [handleACLCommand, show (e.withSession q s).acl = e.acl from rfl]
    cases e.acl with
    | none => rfl
    | some acl =>
      rw [getClientSession_withSession h]
      rw [sessions_withSession h]
      repeat' first
        | rfl
        | split

theorem cmdWatch_withSession (h : Apart q own e) (args : List Bytes) :
    cmdWatch (e.withSession q s) own args = liftSession q s (cmdWatch e own args) := by
  simp only [cmdWatch, getClientSession_withSession h, sessions_withSession h, setSession_withSession h]
  repeat' first
    | rfl
    | split

theorem changeCluster_withSession (x : Except Bytes ClusterManager) :
    changeCluster (e.withSession q s) x = liftSession q s (changeCluster e x) := by
  cases x <;> rfl

theorem clusterCommand_withSession (cm : ClusterManager) (args : List Bytes) (sub : ClusterSub) :
    clusterCommand rt r (e.withSession q s) cm args sub = liftSession q s (clusterCommand rt r e cm args sub) := by
  cases sub
  all_goals
    simp only [clusterCommand, changeCluster_withSession]
    repeat' first
      | rfl
      | split

theorem handleClusterCommand_withSession (args : List Bytes) :
    handleClusterCommand rt r (e.withSession q s) args = liftSession q s (handleClusterCommand rt r e args) := by
  cases args with
  | nil => rfl
  | cons sub args =>
    simp only [handleClusterCommand, clusterCommand_withSession,
      show (e.withSession q s).cluster = e.cluster from rfl, show (e.withSession q s).ks = e.ks from rfl]
    repeat' first
      | rfl
      | split

theorem dispatch_withSession (h : Apart q own e) (cmd : Bytes) (args : List Bytes) :
    dispatch rt r (fun _ _ => .error .hang) (e.withSession q s) own cmd args =
      liftSession q s (dispatch rt r (fun _ _ => .error .hang) e own cmd args) := by
  cases hc : Cmd.ofName cmd with
  | data c =>
    rw [dispatch_data rt r _ _ _ _ hc, dispatch_data rt r _ _ _ _ hc]
    change Except.map _ ((c.action rt r args).run r.fastNow e.ks).1 = liftSession q s (Except.map _ _)
    cases ((c.action rt r args).run r.fastNow e.ks).1 <;> rfl
  | auth => simpa only [dispatch, hc] using cmdAuth_withSession h args
  | acl => simpa only [dispatch, hc] using handleACLCommand_withSession h args
  | multi =>
    simp only [dispatch, hc, cmdMulti, getClientSession_withSession h, setSession_withSession h]
    rfl
  | watch => simpa only [dispatch, hc] using cmdWatch_withSession h args
  | unwatch =>
    simp only [dispatch, hc, cmdUnwatch, getClientSession_withSession h, unwatch_withSession h,
      setSession_withSession h]
    rfl
  | eval =>
    simp only [dispatch, hc, cmdEval, show (e.withSession q s).lua = e.lua from rfl, runScript]
    repeat' first
      | rfl
      | split
  | evalsha =>
    simp only [dispatch, hc, cmdEvalSha, show (e.withSession q s).lua = e.lua from rfl, runScript]
    repeat' first
      | rfl
      | split
  | script =>
    simp only [dispatch, hc, scriptCommand, show (e.withSession q s).lua = e.lua from rfl]
    repeat' first
      | rfl
      | split
  | wasm =>
    simp only [dispatch, hc, handleWasm, wasmLoad, wasmCall, show (e.withSession q s).wasm = e.wasm from rfl]
    repeat' first
      | rfl
      | split
  | cluster => simpa only [dispatch, hc] using handleClusterCommand_withSession args
  | _ =>
    simp only [dispatch, hc, cmdReplicaOf, cmdSave, cmdBgSave, show (e.withSession q s).rdb = e.rdb from rfl]
    repeat' first
      | rfl
      | split

/-! ### After a write -/

theorem SameBut.touchWatchedKey {e' : Engine} (h : SameBut q e e') (key : Bytes) :
    SameBut q (e.touchWatchedKey key) (e'.touchWatchedKey key) := by
  obtain ⟨s, rfl⟩ := h
  by_cases hw : e.watchedCount ≤ 0
  · refine ⟨s, ?_⟩
    simp only [Engine.touchWatchedKey, show (e.withSession q s).watchedCount = e.watchedCount from rfl, if_pos hw]
  · refine ⟨((e.withSession q s).touchWatchedKey key).sessions q, ?_⟩
    simp only [Engine.touchWatchedKey, show (e.withSession q s).watchedCount = e.watchedCount from rfl, if_neg hw]
    simp only [Engine.withSession]
    congr 1
    funext p
    by_cases hp : p = q
    · subst hp; simp
    · simp [Function.update_of_ne hp]

theorem SameBut.touchWatchedKeys {e' : Engine} (h : SameBut q e e') (keys : List Bytes) :
    SameBut q (e.touchWatchedKeys keys) (e'.touchWatchedKeys keys) := by
  induction keys generalizing e e' with
  | nil => exact h
  | cons key keys ih => exact ih (h.touchWatchedKey key)

theorem memoryCheck_withSession (ω : Env) (e : Engine) (w : Bool) :
    memoryCheck ω (e.withSession q s) w = ((memoryCheck ω e w).1, (memoryCheck ω e w).2.withSession q s) := by
  simp only [memoryCheck, show (e.withSession q s).maxMemory = e.maxMemory from rfl,
    show (e.withSession q s).memCheckCounter = e.memCheckCounter from rfl,
    show (e.withSession q s).evictionPolicy = e.evictionPolicy from rfl,
    show (e.withSession q s).ks = e.ks from rfl]
  split_ifs <;> rfl

end

/-- The same result on two engines, and engines that again differ in session `q` only. -/
inductive Alike (q : Nat) {α : Type} : Except Stop (α × Engine) → Except Stop (α × Engine) → Prop
  | ok (a : α) {e e' : Engine} (h : SameBut q e e') : Alike q (.ok (a, e)) (.ok (a, e'))
  | error (s : Stop) : Alike q (.error s) (.error s)

section

variable {rt : Runtime} {q p : Nat} {e e' : Engine} {own id : Bytes} {ω : Env} {scripts : Scripts}

theorem Alike.map {α β : Type} {x y : Except Stop (α × Engine)} (h : Alike q x y) (f : α → β) :
    Alike q (x.map fun (a, e) => (f a, e)) (y.map fun (a, e) => (f a, e)) := by
  cases h with
  | ok a h => exact .ok (f a) h
  | error s => exact .error s

/-! ### The executor -/

structure Hidden (id : Bytes) (q : Nat) (e : Engine) : Prop where
  ok : e.clients.Ok
  lookup : e.clientSessions.lookup id = some q

theorem Hidden.apart (h : Hidden id q e) (hid : id ≠ own) : Apart q own e := by
  unfold Apart Engine.getClientSession
  cases hl : e.clientSessions.lookup own with
  | some p => exact fun hpq => hid (h.ok.inj h.lookup (hpq ▸ hl))
  | none => exact fun hq => absurd (h.ok.lt h.lookup) (by simp [Engine.clients, ← hq])

theorem Hidden.steps {rel : Prop} (h : Hidden id q e) (hs : ClientSteps own rel e.clients e'.clients) :
    Hidden id q e' := ⟨hs.ok h.ok, hs.keeps h.lookup⟩

theorem Path.hidden {rel : Prop} {tr : List DispatchEvent} (h : Path rt own rel e tr e') (hid : id ≠ own)
    (hni : id ≠ []) (hh : Hidden id q e) :
    Hidden id q e' ∧ Unaffected (e.sessions q) (e'.sessions q) := by
  induction h with
  | nil e => exact ⟨hh, .of_eq rfl⟩
  | own hs _ ih =>
    have hn := ih (hh.steps hs.clients)
    exact ⟨hn.1, (hs.clients.others hh.ok hid hh.lookup).2.trans hn.2⟩
  | script hs _ ih =>
    have hn := ih (hh.steps hs.clients)
    exact ⟨hn.1, (hs.clients.others hh.ok hni hh.lookup).2.trans hn.2⟩
  | event d hd hl _ ih =>
    have hne : id ≠ d.connID := by
      rcases hd with hd | hd
      · rw [hd]; exact hid
      · rw [hd]; exact hni
    have hn := ih (hh.steps hl.clients)
    exact ⟨hn.1, (hl.clients.others hh.ok hne hh.lookup).2.trans hn.2⟩

theorem closeTransaction_withSession (s : ClientSession) (hp : p ≠ q) :
    closeTransaction (e.withSession q s) p =
      ((closeTransaction e p).1, (closeTransaction e p).2.1, (closeTransaction e p).2.2.withSession q s) := by
  simp only [closeTransaction, sessions_withSession hp, unwatch_withSession hp, setSession_withSession hp]

/-- The connection that runs a command is not the one of session `q`. -/
structure Beside (id : Bytes) (q : Nat) (own : Bytes) (p : Nat) (e : Engine) : Prop where
  hidden : Hidden id q e
  other : id ≠ own
  external : id ≠ []
  lookup : e.clientSessions.lookup own = some p

theorem Beside.ne (h : Beside id q own p e) : p ≠ q := fun hpq => h.other (h.hidden.ok.inj h.hidden.lookup (hpq ▸ h.lookup))

theorem simulation_sameBut (rt : Runtime) (id : Bytes) (q : Nat) :
    Simulation rt (fun _ => True) (fun _ => True) (SameBut q) (Beside id q) where
  sub _ _ := trivial
  path hK hp := ⟨(hp.hidden hK.other hK.external hK.hidden).1, hK.other, hK.external, (hp.keeps hK.hidden.ok).2 hK.lookup⟩
  guards hK h := by
    obtain ⟨s, rfl⟩ := h
    exact ⟨sessions_withSession hK.ne, fun _ _ => rfl⟩
  close {own p e e'} hK h := by
    obtain ⟨s, rfl⟩ := h
    have hc : Silent own True e (closeTransaction e p).2.2 := silent_closeTransaction hK.lookup trivial
    exact ⟨⟨hK.hidden.steps hc.clients, hK.other, hK.external, hc.clients.keeps hK.lookup⟩,
      s, by rw [closeTransaction_withSession s hK.ne]⟩
  setSession f hK h := by
    obtain ⟨s, rfl⟩ := h
    exact ⟨s, setSession_withSession hK.ne f⟩
  opens {own p e e'} hK h := by
    obtain ⟨s, rfl⟩ := h
    have hg : Silent [] True e (e.getClientSession []).2 := silent_getClientSession e
    have hw := getClientSession_withSession (s := s) (hK.hidden.apart hK.external)
    rw [hw]
    exact ⟨rfl, ⟨s, rfl⟩,
      hK.hidden.steps hg.clients, hK.external, hK.external, lookup_getClientSession e []⟩
  lua h := by
    obtain ⟨s, rfl⟩ := h
    exact ⟨rfl, fun _ => ⟨s, rfl⟩⟩
  event {d p e'} hK _ _ h := by
    obtain ⟨s, rfl⟩ := h
    refine outcome_related ?_ (fun h => ⟨?_, h.touchWatchedKeys⟩) ?_ ?_
    · simp only [DispatchEvent.result]
      rw [dispatch_withSession (hK.hidden.apart hK.other)]
      cases dispatch rt (d.env []) (fun _ _ => .error .hang) d.before d.connID d.cmd d.args with
      | error stop => exact .error stop
      | ok x => exact .ok ⟨rfl, rfl, s, rfl⟩
    · obtain ⟨s, rfl⟩ := h
      rfl
    · rintro e _ ⟨s, rfl⟩
      exact ⟨s, rfl⟩
    · rintro _ v w e₁ t _ _ ⟨s, rfl⟩
      rw [memoryCheck_withSession]
      exact ⟨rfl, s, rfl⟩

theorem execute_alike (hid : id ≠ own) (hn : id ≠ []) (hp : e.clientSessions.lookup own = some p)
    (hh : Hidden id q e) (h : SameBut q e e') (args : Command) :
    Alike q (execute rt ω e p own args) (execute rt ω e' p own args) := by
  have hr := (simulation_sameBut rt id q).execute (ω := ω) trivial ⟨hh, hid, hn, hp⟩ h args fun _ _ => trivial
  generalize execute rt ω e p own args = x at hr ⊢
  generalize execute rt ω e' p own args = y at hr ⊢
  cases hr with
  | error s => exact .error s
  | @ok a b hab =>
    obtain ⟨v, e₁⟩ := a
    obtain ⟨v', e₁'⟩ := b
    obtain ⟨rfl, hs⟩ : v = v' ∧ SameBut q e₁ e₁' := hab
    exact .ok v hs

end

end VortexKV
