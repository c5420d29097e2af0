import VortexKV.Proofs.Guards
import VortexKV.Proofs.LogComplete

/-!
# Sessions and users

What a dispatch does to the users and to the sessions' logins and queues (`dispatch_access`): a session is new, logs in by
`AUTH`, or keeps its login; the users change by `AUTH` and by `ACL SETUSER` and `ACL DELUSER` of an admin.
-/

namespace VortexKV

open Function

structure ClientSession.Keeps (s s' : ClientSession) : Prop where
  authenticated : s'.authenticated = s.authenticated
  username : s'.username = s.username
  txQueue : s'.txQueue = s.txQueue ∨ s'.txQueue = []

theorem ClientSession.Keeps.refl (s : ClientSession) : s.Keeps s := ⟨rfl, rfl, .inl rfl⟩

def newSession (password connID : Bytes) : ClientSession :=
  { authenticated := password = [] ∨ connID = replicaStream ∨ connID = aofReplay ∨ connID = []
    username := "default" }

/-- What a command of connection `own` does to the sessions; `login` says as whom it may log in. -/
inductive SessionStep (password own : Bytes) (login : Bytes → Prop) : Clients → Clients → Prop
  | new {t : Clients} (hnew : t.clientSessions.lookup own = none) :
      SessionStep password own login t ⟨Function.update t.sessions t.nextSession (newSession password own),
        t.nextSession + 1, t.clientSessions.insert own t.nextSession, t.watchedCount⟩
  | login {t : Clients} {p : Nat} (name : Bytes) (hp : t.clientSessions.lookup own = some p) (hl : login name) :
      SessionStep password own login t { t with
        sessions := Function.update t.sessions p { t.sessions p with authenticated := true, username := name } }
  | keep {t : Clients} (f : Nat → ClientSession) (n : Int) (hf : ∀ p, (t.sessions p).Keeps (f p)) :
      SessionStep password own login t { t with sessions := f, watchedCount := n }

abbrev SessionSteps (password own : Bytes) (login : Bytes → Prop) : Clients → Clients → Prop :=
  Relation.ReflTransGen (SessionStep password own login)

structure Access (rt : Runtime) (e : Engine) (own cmd : Bytes) (args : List Bytes) (e' : Engine) : Prop where
  password : e'.password = e.password
  acl : AclChange rt e own cmd args e'.acl
  sessions : SessionSteps e.password own (fun name => Cmd.ofName cmd = .auth ∧ LogsIn e args name) e.clients e'.clients

section

variable {rt : Runtime} {r : Readings} {e e' : Engine} {own cmd password : Bytes} {args : List Bytes} {v : Value}
  {w : Bool} {login : Bytes → Prop} {p : Nat}

/-! ### Steps -/

theorem steps_getClientSession (e : Engine) (own : Bytes) (login : Bytes → Prop) :
    SessionSteps e.password own login e.clients (e.getClientSession own).2.clients := by
  unfold Engine.getClientSession
  cases h : e.clientSessions.lookup own with
  | some p => exact .refl
  | none => exact .single (.new (t := e.clients) h)

theorem password_getClientSession (e : Engine) (own : Bytes) : (e.getClientSession own).2.password = e.password := by
  obtain ⟨s, n, m, h⟩ := getClientSession_eq e own
  rw [h]

theorem keeps_update (e : Engine) {s : ClientSession} (hs : (e.sessions p).Keeps s) (q : Nat) :
    (e.sessions q).Keeps (Function.update e.sessions p s q) := by
  by_cases hq : q = p
  · subst hq
    rw [update_self]
    exact hs
  · rw [update_of_ne hq]
    exact .refl _

theorem steps_setSession {f : ClientSession → ClientSession} (hf : (e.sessions p).Keeps (f (e.sessions p))) :
    SessionSteps password own login e.clients (e.setSession p f).clients :=
  .single (.keep (t := e.clients) _ e.watchedCount (keeps_update e hf))

theorem steps_unwatch (e : Engine) (p : Nat) : SessionSteps password own login e.clients (e.unwatch p).clients := by
  unfold Engine.unwatch
  split
  · exact .refl
  · exact .single (.keep (t := e.clients) _ _ (keeps_update e ⟨rfl, rfl, .inl rfl⟩))

theorem steps_touchWatchedKeys (e : Engine) (keys : List Bytes) :
    SessionSteps password own login e.clients (e.touchWatchedKeys keys).clients := by
  induction keys generalizing e with
  | nil => exact .refl
  | cons key keys ih =>
    refine .trans ?_ (ih (e.touchWatchedKey key))
    unfold Engine.touchWatchedKey
    split
    · exact .refl
    · refine .single (.keep (t := e.clients) _ e.watchedCount fun p => ?_)
      dsimp only [Engine.clients]
      split
      · exact ⟨rfl, rfl, .inl rfl⟩
      · exact .refl _

section Steps

variable {t t' : Clients} {P : Command → Prop}

theorem SessionStep.queue (h : SessionStep password own login t t') (hq : ∀ c ∈ (t.sessions p).txQueue, P c) :
    ∀ c ∈ (t'.sessions p).txQueue, P c := by
  cases h with
  | new hn =>
    dsimp only
    by_cases hp : p = t.nextSession
    · rw [hp, update_self]
      exact fun _ hc => absurd hc List.not_mem_nil
    · rw [update_of_ne hp]
      exact hq
  | @login q name hq' hl =>
    dsimp only
    by_cases hp : p = q
    · subst hp
      rw [update_self]
      exact hq
    · rw [update_of_ne hp]
      exact hq
  | keep f n hf =>
    rcases (hf p).txQueue with heq | heq
    · rw [show (f p).txQueue = (t.sessions p).txQueue from heq]
      exact hq
    · rw [show (f p).txQueue = [] from heq]
      exact fun _ hc => absurd hc List.not_mem_nil

theorem SessionSteps.queue (h : SessionSteps password own login t t') (hq : ∀ c ∈ (t.sessions p).txQueue, P c) :
    ∀ c ∈ (t'.sessions p).txQueue, P c := by
  induction h with
  | refl => exact hq
  | tail _ hstep ih => exact hstep.queue ih

/-- The session has the login it had, or it is the connection's own and has logged in. -/
def LoginFrom (own : Bytes) (login : Bytes → Prop) (p : Nat) (t t' : Clients) : Prop :=
  (t'.sessions p).authenticated = (t.sessions p).authenticated ∧ (t'.sessions p).username = (t.sessions p).username ∨
    t'.clientSessions.lookup own = some p ∧ (t'.sessions p).authenticated = true ∧ login (t'.sessions p).username

theorem SessionSteps.loginFrom (h : SessionSteps password own login t t') (hp : p < t.nextSession) :
    p < t'.nextSession ∧ LoginFrom own login p t t' := by
  induction h with
  | refl => exact ⟨hp, .inl ⟨rfl, rfl⟩⟩
  | tail _ hstep ih =>
    obtain ⟨hlt, hlo⟩ := ih
    cases hstep with
    | new hn =>
      refine ⟨Nat.lt_succ_of_lt hlt, ?_⟩
      unfold LoginFrom
      dsimp only
      rw [update_of_ne hlt.ne]
      rcases hlo with hs | ⟨ho, -⟩
      · exact .inl hs
      · rw [ho] at hn
        cases hn
    | @login q name hq hl =>
      refine ⟨hlt, ?_⟩
      by_cases hpq : p = q
      · subst hpq
        refine .inr ⟨hq, ?_⟩
        dsimp only
        rw [update_self]
        exact ⟨rfl, hl⟩
      · unfold LoginFrom
        dsimp only
        rw [update_of_ne hpq]
        exact hlo
    | keep f n hf =>
      refine ⟨hlt, ?_⟩
      rcases hlo with hs | ho
      · exact .inl ⟨(hf p).authenticated.trans hs.1, (hf p).username.trans hs.2⟩
      · refine .inr ⟨ho.1, ?_⟩
        rw [(hf p).authenticated, (hf p).username]
        exact ho.2

end Steps

theorem SessionCommand.access (h : SessionCommand rt e own cmd args e') : Access rt e own cmd args e' := by
  have hget := steps_getClientSession e own fun name => Cmd.ofName cmd = .auth ∧ LogsIn e args name
  have hp := lookup_getClientSession e own
  have hpw := password_getClientSession e own
  have hac : AclChange rt e own cmd args (e.getClientSession own).2.acl := by
    rw [acl_getClientSession]
    exact .same
  cases h with
  | users h => exact ⟨rfl, h, .refl⟩
  | session h => exact ⟨hpw, h, hget⟩
  | login h hc hl => exact ⟨hpw, h, hget.tail (.login (t := (e.getClientSession own).2.clients) _ hp ⟨hc, hl⟩)⟩
  | multi => exact ⟨hpw, hac, hget.trans (steps_setSession ⟨rfl, rfl, .inr rfl⟩)⟩
  | watch =>
    exact ⟨hpw, hac, hget.tail (.keep (t := Engine.clients _) _ _ (keeps_update _ ⟨rfl, rfl, .inl rfl⟩))⟩
  | unwatch =>
    have hu : ∀ (e : Engine) (p : Nat), (e.unwatch p).password = e.password ∧ (e.unwatch p).acl = e.acl := by
      intro e p
      unfold Engine.unwatch
      split <;> exact ⟨rfl, rfl⟩
    refine ⟨(hu _ _).1.trans hpw, ?_, hget.trans ((steps_unwatch _ _).trans (steps_setSession ⟨rfl, rfl, .inl rfl⟩))⟩
    rw [← (hu _ (e.getClientSession own).1).2] at hac
    exact hac

/-! ### All commands -/

theorem dispatch_access (h : dispatch rt r (fun _ _ => .error .hang) e own cmd args = .ok (v, w, e')) :
    Access rt e own cmd args e' := by
  by_cases hd : ∃ c, Cmd.ofName cmd = .data c
  · obtain ⟨c, hc⟩ := hd
    rw [(dispatch_data_eq hc h).2]
    exact ⟨rfl, .same, .refl⟩
  by_cases hns : (Cmd.ofName cmd).OnSession
  · exact (dispatch_session hns h).2.access
  · obtain ⟨-, ⟨_, _, _, _, _, _, rfl⟩, -⟩ := dispatch_elsewhere (fun c hc => hd ⟨c, hc⟩) hns h
    exact ⟨rfl, .same, .refl⟩

theorem access_finish {d : DispatchEvent} (h : d.finish w e = .ok e') :
    e'.password = e.password ∧ e'.acl = e.acl ∧ SessionSteps password own login e.clients e'.clients := by
  obtain ⟨e₁, ht, ks, n, hf⟩ := finish_cases h
  have hs : e₁.password = e.password ∧ e₁.acl = e.acl ∧ SessionSteps password own login e.clients e₁.clients := by
    obtain ⟨s, hs⟩ := touchKeys_eq ht
    refine ⟨by rw [hs], by rw [hs], ?_⟩
    rcases touchKeys_cases ht with rfl | ⟨-, keys, -, rfl⟩
    · exact .refl
    · exact steps_touchWatchedKeys e keys
  rcases hf with rfl | rfl <;> exact hs

theorem DispatchEvent.Leads.access {d : DispatchEvent} (h : d.Leads rt e') :
    Access rt d.before d.connID d.cmd d.args e' := by
  obtain ⟨v, w, e₁, hr, hf⟩ := h
  obtain ⟨hpw, hac, hse⟩ := dispatch_access hr
  obtain ⟨hp, ha, hs⟩ := access_finish hf
  refine ⟨hp.trans hpw, ?_, hse.trans hs⟩
  rw [ha]
  exact hac

/-! ### Moves -/

theorem Move.access {rel : Prop} (h : Move rt own rel e e') : e'.password = e.password ∧ e'.acl = e.acl ∧
    (SessionSteps e.password own (fun _ => False) e.clients e'.clients ∨ ∃ p name args, e.clientSessions.lookup own = some p ∧
      guards rt e (e.sessions p) own (toUpperFast rt.unicode name) args = .ok none ∧
      e' = e.setSession p fun s => { s with txQueue := s.txQueue ++ [name :: args] }) := by
  have hsh : e'.password = e.password ∧ e'.acl = e.acl := by
    obtain ⟨_, _, _, _, _, rfl⟩ := h.shape
    exact ⟨rfl, rfl⟩
  refine ⟨hsh.1, hsh.2, ?_⟩
  cases h with
  | session => exact .inl (steps_getClientSession e own _)
  | close hp hr => exact .inl ((steps_unwatch e _).trans (steps_setSession ⟨rfl, rfl, .inr rfl⟩))
  | queue hp hg => exact .inr ⟨_, _, _, hp, hg, rfl⟩
  | cancel running => exact .inl .refl
  | load h =>
    obtain ⟨-, -, lua, rfl⟩ := scriptOf_cases h
    exact .inl .refl

end

end VortexKV
