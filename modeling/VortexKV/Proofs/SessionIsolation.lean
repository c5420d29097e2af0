import VortexKV.Proofs.NonInterference

/-!
# Isolation of the connections' sessions

The reactor names a connection by the number of open ones and gives it the session of that name. As long as
no connection in use has the name that the next one gets, the names and the sessions of the connections stay
distinct (`Server.Ok`), and then no connection sees or changes another's session.
-/

namespace VortexKV

open Function

section

variable {rt : Runtime} {ω : Env} {e e' : Engine} {p q : Nat} {own id : Bytes} {args : Command}

/-! ### One command of the reactor -/

/-- On every engine that is `e` but for session `q`, the reactor's command `f` writes a keyspace and answers,
or writes a keyspace and goes on to the executor. -/
def Shortcut (rt : Runtime) (ω : Env) (e : Engine) (p q : Nat) (own : Bytes) (args : Command)
    (f : Engine → Appended) : Prop :=
  (∃ out ks, ∀ e', SameBut q e e' → f e' = .ok (out, { e' with ks := ks })) ∨
    ∃ ks, ∀ e', SameBut q e e' → f e' = slowPath rt ω { e' with ks := ks } p own args

theorem shortcut_slowPath : Shortcut rt ω e p q own args fun e => slowPath rt ω e p own args :=
  .inr ⟨e.ks, by rintro e' ⟨s, rfl⟩; rfl⟩

theorem shortcut_ok (out : Bytes) : Shortcut rt ω e p q own args fun e => .ok (out, e) :=
  .inl ⟨out, e.ks, by rintro e' ⟨s, rfl⟩; rfl⟩

theorem shortcut_fastGet (name key : Bytes) :
    Shortcut rt ω e p q own [name, key] fun e => fastGet rt ω e p own name key := by
  rcases hget : (KsProg.get key).run (ksStep (ω []).fastNow) e.ks with ⟨_ | ⟨d, t⟩, ks⟩
  · refine .inl ⟨respNull, ks, ?_⟩
    rintro e' ⟨s, rfl⟩
    simp only [fastGet, show (e.withSession q s).ks = e.ks from rfl, hget]
  · by_cases hd : ∃ b, d = .string b
    · obtain ⟨b, rfl⟩ := hd
      refine .inl ⟨appendBulkString b, ks, ?_⟩
      rintro e' ⟨s, rfl⟩
      simp only [fastGet, show (e.withSession q s).ks = e.ks from rfl, hget]
    · refine .inr ⟨ks, ?_⟩
      rintro e' ⟨s, rfl⟩
      simp only [fastGet, show (e.withSession q s).ks = e.ks from rfl, hget]
      cases d with
      | string b => exact absurd ⟨b, rfl⟩ hd
      | _ => rfl

theorem shortcut_fastIncr (name key : Bytes) (delta : Int) :
    Shortcut rt ω e p q own [name, key] fun e => fastIncr rt ω e p own name key delta := by
  rcases hi : (KsProg.incrBy key delta).run (ksStep (ω []).fastNow) e.ks with ⟨msg | n, ks⟩
  · refine .inr ⟨ks, ?_⟩
    rintro e' ⟨s, rfl⟩
    simp only [fastIncr, show (e.withSession q s).ks = e.ks from rfl, hi]
  · refine .inl ⟨58 :: (formatInt n ++ CRLF), ks, ?_⟩
    rintro e' ⟨s, rfl⟩
    simp only [fastIncr, show (e.withSession q s).ks = e.ks from rfl, hi]

theorem Shortcut.ite {b : Engine → Prop} [DecidablePred b] {f g : Engine → Appended}
    (hb : ∀ s, b (e.withSession q s) ↔ b e) (hf : Shortcut rt ω e p q own args f)
    (hg : Shortcut rt ω e p q own args g) :
    Shortcut rt ω e p q own args fun e => if b e then f e else g e := by
  by_cases h : b e
  · have heq : ∀ e', SameBut q e e' → (if b e' then f e' else g e') = f e' := by
      rintro e' ⟨s, rfl⟩
      rw [if_pos ((hb s).2 h)]
    exact hf.imp (fun ⟨out, ks, hf⟩ => ⟨out, ks, fun e' he => (heq e' he).trans (hf e' he)⟩)
      fun ⟨ks, hf⟩ => ⟨ks, fun e' he => (heq e' he).trans (hf e' he)⟩
  · have heq : ∀ e', SameBut q e e' → (if b e' then f e' else g e') = g e' := by
      rintro e' ⟨s, rfl⟩
      rw [if_neg (fun h' => h ((hb s).1 h'))]
    exact hg.imp (fun ⟨out, ks, hf⟩ => ⟨out, ks, fun e' he => (heq e' he).trans (hf e' he)⟩)
      fun ⟨ks, hf⟩ => ⟨ks, fun e' he => (heq e' he).trans (hf e' he)⟩

theorem isSimpleSession_withSession (hp : p ≠ q) (s : ClientSession) :
    isSimpleSession (e.withSession q s) p = isSimpleSession e p := by
  simp only [isSimpleSession, sessions_withSession hp]
  rfl

theorem shortcut_fastPath (rt : Runtime) (ω : Env) (e : Engine) (own : Bytes) (args : Command) (hp : p ≠ q) :
    Shortcut rt ω e p q own args fun e => fastPath rt ω e p own args := by
  have hs := isSimpleSession_withSession (e := e) hp
  have hw : ∀ s, fastWrites (e.withSession q s) p = fastWrites e p := fun s => by
    simp only [fastWrites, hs s]
    rfl
  unfold fastPath
  split
  · exact shortcut_ok _
  match args with
  | [] => exact shortcut_ok _
  | [name] => exact .ite (fun _ => Iff.rfl) (shortcut_ok _) shortcut_slowPath
  | [name, key] =>
    refine .ite (fun s => by rw [hs]) (shortcut_fastGet name key) ?_
    refine .ite (fun s => by rw [hs]; rfl) ?_ ?_
    · exact .inl ⟨if (e.ks.delete [key]).1 > 0 then respOne else respZero, (e.ks.delete [key]).2,
        by rintro e' ⟨s, rfl⟩; rfl⟩
    refine .ite (fun _ => Iff.rfl) (shortcut_ok _) ?_
    refine .ite (fun s => by rw [hw]) (shortcut_fastIncr name key 1) ?_
    exact .ite (fun s => by rw [hw]) (shortcut_fastIncr name key (-1)) shortcut_slowPath
  | [name, key, val] =>
    refine .ite (fun s => by rw [hw]) ?_ shortcut_slowPath
    exact .inl ⟨respOK, e.ks.setString (ω []).fastNow key val, by rintro e' ⟨s, rfl⟩; rfl⟩
  | _ :: _ :: _ :: _ :: _ => exact shortcut_slowPath

theorem fastPath_alike (hid : id ≠ own) (hn : id ≠ []) (hp : e.clientSessions.lookup own = some p)
    (hh : Hidden id q e) (h : SameBut q e e') :
    Alike q (fastPath rt ω e p own args) (fastPath rt ω e' p own args) := by
  have hpq : p ≠ q := fun hpq => hid (hh.ok.inj hh.lookup (hpq ▸ hp))
  rcases shortcut_fastPath rt ω e own args hpq with ⟨out, ks, hf⟩ | ⟨ks, hf⟩
  · dsimp only at hf
    rw [hf e (.refl q e), hf e' h]
    obtain ⟨s, rfl⟩ := h
    exact .ok out ⟨s, rfl⟩
  · dsimp only at hf
    rw [hf e (.refl q e), hf e' h]
    obtain ⟨s, rfl⟩ := h
    exact (execute_alike (e := { e with ks := ks }) hid hn hp ⟨hh.ok, hh.lookup⟩ ⟨s, rfl⟩ args).map appendValue

theorem fastPath_cases {out : Bytes} (h : fastPath rt ω e p own args = .ok (out, e')) :
    ∃ ks, e' = { e with ks := ks } ∨ ∃ v, execute rt ω { e with ks := ks } p own args = .ok (v, e') := by
  rcases shortcut_fastPath rt ω e own args (Nat.succ_ne_self p).symm with ⟨out, ks, hf⟩ | ⟨ks, hf⟩
  · have hfe : fastPath rt ω e p own args = _ := hf e (.refl _ e)
    rw [h] at hfe
    cases hfe
    exact ⟨ks, .inl rfl⟩
  · have hfe : fastPath rt ω e p own args = _ := hf e (.refl _ e)
    rw [h, slowPath] at hfe
    obtain ⟨⟨v, e₂⟩, hx, heq⟩ := Except.map_eq_ok hfe.symm
    cases heq
    exact ⟨ks, .inr ⟨v, hx⟩⟩

theorem fastPath_clients (hp : e.clientSessions.lookup own = some p) {out : Bytes}
    (h : fastPath rt ω e p own args = .ok (out, e')) :
    ∃ tr e₁, e₁.clients = e.clients ∧ Path rt own True e₁ tr e' := by
  obtain ⟨ks, rfl | ⟨v, hx⟩⟩ := fastPath_cases h
  · exact ⟨[], { e with ks := ks }, rfl, .nil _⟩
  · have hpa := execute_path (e := { e with ks := ks }) hp hx
    exact ⟨_, { e with ks := ks }, rfl, hpa.mono fun _ => trivial⟩

/-! ### The table along a path -/

theorem sessions_getClientSession (own : Bytes) (hq : q < e.nextSession) :
    (e.getClientSession own).2.sessions q = e.sessions q := by
  unfold Engine.getClientSession
  cases e.clientSessions.lookup own with
  | some p => rfl
  | none => exact update_of_ne hq.ne _ _

end

/-! ### The server -/

namespace Server

/-- Every connection has its own name, under which the engine keeps the connection's session. -/
structure Ok (s : Server) : Prop where
  clients : s.engine.clients.Ok
  owns : ∀ {c conn}, s.conns c = some conn → s.engine.clientSessions.lookup conn.id = some conn.session
  named : ∀ {c d conn conn'}, s.conns c = some conn → s.conns d = some conn' → conn.id = conn'.id → c = d
  external : ∀ {c conn}, s.conns c = some conn → conn.id ≠ []

def NameFree (s : Server) (ev : ServerEvent) : Prop :=
  ev = .accept → ∀ c conn, s.conns c = some conn → conn.id ≠ connName (s.connCount + 1)

variable {rt : Runtime} {s s' : Server}

/-- What an event does to the server. -/
inductive Moves (rt : Runtime) (s : Server) : ServerEvent → Server → Prop
  | idle {ev : ServerEvent} : Moves rt s ev s
  | accept : Moves rt s .accept { s with
      engine := (s.engine.getClientSession (connName (s.connCount + 1))).2
      connCount := s.connCount + 1
      conns := Function.update s.conns s.accepted
        (some ⟨connName (s.connCount + 1), (s.engine.getClientSession (connName (s.connCount + 1))).1, false⟩)
      accepted := s.accepted + 1 }
  | close {ev : ServerEvent} {c : Nat} {conn : Connection} (hc : s.conns c = some conn) : Moves rt s ev { s with
      connCount := s.connCount - 1
      conns := Function.update s.conns c (some { conn with closed := true }) }
  | clear {c : Nat} {conn : Connection} (hc : s.conns c = some conn) : Moves rt s (.clear c) { s with
      engine := s.engine.clearClientSession conn.id
      conns := Function.update s.conns c none }
  | command {c : Nat} {ω : Env} {args : Command} {conn : Connection} {out : Bytes} {e' : Engine} (hc : s.conns c = some conn)
      (hx : fastPath rt ω s.engine conn.session conn.id args = .ok (out, e')) : Moves rt s (.command c ω args) { s with engine := e' }

variable {ev : ServerEvent} {c d : Nat} {conn : Connection}

theorem moves_close (c : Nat) : Moves rt s ev (s.close c) := by
  unfold Server.close
  split
  · exact .idle
  · rename_i hc
    split
    · exact .idle
    · exact .close hc

theorem moves_of_step (hs : s.step rt ev = .ok s') : Moves rt s ev s' := by
  cases ev with
  | accept =>
    cases hs
    unfold Server.accept
    split
    · exact .idle
    · exact .accept
  | close c => cases hs; exact moves_close c
  | clear c =>
    cases hs
    unfold Server.clear
    split
    · exact .idle
    · rename_i hc
      split
      · exact .clear hc
      · exact .idle
  | command c ω args =>
    change s.command rt c ω args = .ok s' at hs
    unfold Server.command at hs
    split at hs
    · cases hs; exact .idle
    · rename_i hc
      split at hs
      · cases hs; exact .idle
      split at hs
      · cases hs; exact moves_close c
      · obtain ⟨⟨out, e'⟩, hx, rfl⟩ := Except.map_eq_ok hs
        exact .command hc hx

theorem eq_or_of_update {new : Option Connection} (h : Function.update s.conns d new c = some conn) :
    c = d ∧ new = some conn ∨ c ≠ d ∧ s.conns c = some conn := by
  by_cases hcd : c = d
  · subst hcd
    rw [update_self] at h
    exact .inl ⟨rfl, h⟩
  · rw [update_of_ne hcd] at h
    exact .inr ⟨hcd, h⟩

/-- A connection that an event leaves was there before, or is new. -/
theorem Moves.conns (hm : Moves rt s ev s') (hc : s'.conns c = some conn) :
    (∃ conn₀, s.conns c = some conn₀ ∧ conn₀.id = conn.id ∧ conn₀.session = conn.session) ∨ ev = .accept ∧ c = s.accepted ∧
      c < s'.accepted ∧ conn = ⟨connName (s.connCount + 1), (s.engine.getClientSession (connName (s.connCount + 1))).1, false⟩ := by
  cases hm with
  | idle | command => exact .inl ⟨conn, hc, rfl, rfl⟩
  | accept =>
    rcases eq_or_of_update hc with ⟨rfl, hn⟩ | ⟨-, hc⟩
    · exact .inr ⟨rfl, rfl, Nat.lt_succ_self _, (Option.some.inj hn).symm⟩
    · exact .inl ⟨conn, hc, rfl, rfl⟩
  | close hd =>
    rcases eq_or_of_update hc with ⟨rfl, hn⟩ | ⟨-, hc⟩
    · cases hn
      exact .inl ⟨_, hd, rfl, rfl⟩
    · exact .inl ⟨conn, hc, rfl, rfl⟩
  | clear =>
    rcases eq_or_of_update hc with ⟨-, hn⟩ | ⟨-, hc⟩
    · cases hn
    · exact .inl ⟨conn, hc, rfl, rfl⟩

theorem Ok.step (h : s.Ok) (hf : s.NameFree ev) (hs : s.step rt ev = .ok s') : s'.Ok := by
  have hm := moves_of_step hs
  have hn : ∀ {c d conn conn'}, s'.conns c = some conn → s'.conns d = some conn' → conn.id = conn'.id → c = d := by
    intro c d conn conn' hc hd heq
    rcases hm.conns hc with ⟨_, hc, hid, -⟩ | ⟨rfl, rfl, -, rfl⟩
    · rcases hm.conns hd with ⟨_, hd, hid', -⟩ | ⟨rfl, rfl, -, rfl⟩
      · exact h.named hc hd (hid.trans (heq.trans hid'.symm))
      · exact absurd (hid.trans heq) (hf rfl _ _ hc)
    · rcases hm.conns hd with ⟨_, hd, hid', -⟩ | ⟨-, rfl, -⟩
      · exact absurd (hid'.trans heq.symm) (hf rfl _ _ hd)
      · rfl
  have hext : ∀ {c conn}, s'.conns c = some conn → conn.id ≠ [] := by
    intro c conn hc
    rcases hm.conns hc with ⟨_, hc, hid, -⟩ | ⟨rfl, rfl, -, rfl⟩
    · exact hid ▸ h.external hc
    · simp [connName, lit]
  suffices s'.engine.clients.Ok ∧ ∀ {c conn}, s'.conns c = some conn → s'.engine.clientSessions.lookup conn.id = some conn.session from
    ⟨this.1, this.2, hn, hext⟩
  cases hm with
  | idle => exact ⟨h.clients, h.owns⟩
  | accept =>
    have hget := clients_getClientSession s.engine (connName (s.connCount + 1)) True
    refine ⟨hget.ok h.clients, fun hc => ?_⟩
    rcases eq_or_of_update hc with ⟨-, hn⟩ | ⟨-, hc⟩
    · cases hn
      exact lookup_getClientSession s.engine _
    · exact hget.keeps (h.owns hc)
  | close hd =>
    refine ⟨h.clients, fun hc => ?_⟩
    rcases eq_or_of_update hc with ⟨-, hn⟩ | ⟨-, hc⟩
    · cases hn
      exact (h.owns hd :)
    · exact h.owns hc
  | clear hd =>
    refine ⟨h.clients.clear _, fun hc => ?_⟩
    rcases eq_or_of_update hc with ⟨-, hn⟩ | ⟨hcd, hc⟩
    · cases hn
    · simp only [Engine.clearClientSession, h.owns hd]
      rw [Finmap.lookup_erase_ne fun heq => hcd (h.named hc hd heq)]
      exact h.owns hc
  | command hd hx =>
    obtain ⟨tr, e₁, hcl, hp⟩ := fastPath_clients (h.owns hd) hx
    obtain ⟨hok, hk⟩ := hp.keeps (hcl ▸ h.clients)
    have hm : e₁.clientSessions = s.engine.clientSessions := congrArg Clients.clientSessions hcl
    exact ⟨hok, fun hc => hk (hm ▸ h.owns hc)⟩

/-! ### Isolation -/

/-- What the connections of a server cannot do to each other. -/
structure Isolated (rt : Runtime) (s : Server) : Prop where
  distinct : ∀ {c d conn conn'}, s.conns c = some conn → s.conns d = some conn' → c ≠ d →
    conn.id ≠ conn'.id ∧ conn.session ≠ conn'.session
  /-- No event but its own commands changes the session of `d`. -/
  unaffected : ∀ {ev s' d conn}, s.step rt ev = .ok s' → (∀ ω args, ev ≠ .command d ω args) →
    s.conns d = some conn → Unaffected (s.engine.sessions conn.session) (s'.engine.sessions conn.session)
  /-- What the session of `d` holds is not seen in what a command of `c` answers and does. -/
  unseen : ∀ {c d conn conn'}, s.conns c = some conn → s.conns d = some conn' → c ≠ d → ∀ ω args t,
    Alike conn'.session (fastPath rt ω s.engine conn.session conn.id args)
      (fastPath rt ω (s.engine.withSession conn'.session t) conn.session conn.id args)

theorem Ok.hidden (h : s.Ok) {d : Nat} {conn : Connection} (hd : s.conns d = some conn) :
    Hidden conn.id conn.session s.engine := ⟨h.clients, h.owns hd⟩

theorem sessions_clearClientSession (e : Engine) (id : Bytes) : (e.clearClientSession id).sessions = e.sessions := by
  unfold Engine.clearClientSession
  split <;> rfl

theorem Ok.isolated (h : s.Ok) : s.Isolated rt where
  distinct hc hd hcd := by
    have hid := fun heq => hcd (h.named hc hd heq)
    refine ⟨hid, fun heq => hid (h.clients.inj (h.owns hc) ?_)⟩
    rw [heq]
    exact h.owns hd
  unaffected := by
    intro ev s' d conn hs hev hd
    cases moves_of_step hs with
    | idle | close => exact .of_eq rfl
    | accept => exact .of_eq (sessions_getClientSession _ (h.clients.lt (h.owns hd)))
    | clear => exact .of_eq (congrFun (sessions_clearClientSession _ _) _)
    | command hc hx =>
      obtain ⟨tr, e₁, hcl, hp⟩ := fastPath_clients (h.owns hc) hx
      have hse : e₁.sessions = s.engine.sessions := congrArg Clients.sessions hcl
      have hm : e₁.clientSessions = s.engine.clientSessions := congrArg Clients.clientSessions hcl
      have hh : Hidden conn.id conn.session e₁ := ⟨hcl ▸ h.clients, hm ▸ h.owns hd⟩
      rw [← hse]
      exact (hp.hidden (fun heq => hev _ _ (by rw [h.named hd hc heq])) (h.external hd) hh).2
  unseen hc hd hcd ω args t :=
    fastPath_alike (fun heq => hcd (h.named hd hc heq).symm) (h.external hd) (h.owns hc) (h.hidden hd) ⟨t, rfl⟩

def NamesFree (rt : Runtime) (s : Server) : List ServerEvent → Prop
  | [] => True
  | ev :: evs => s.NameFree ev ∧ ∀ s', s.step rt ev = .ok s' → s'.NamesFree rt evs

theorem run_cons {evs : List ServerEvent} (hs : run rt (ev :: evs) s = .ok s') : ∃ s₁, s.step rt ev = .ok s₁ ∧ run rt evs s₁ = .ok s' := by
  simp only [Server.run] at hs
  split at hs
  · cases hs
  · rename_i s₁ hev
    exact ⟨s₁, hev, hs⟩

theorem Ok.run (evs : List ServerEvent) (h : s.Ok) (hf : s.NamesFree rt evs) (hs : run rt evs s = .ok s') :
    s'.Ok := by
  induction evs generalizing s with
  | nil => cases hs; exact h
  | cons ev evs ih =>
    obtain ⟨s₁, hev, hs⟩ := run_cons hs
    exact ih (h.step hf.1 hev) (hf.2 s₁ hev) hs

end Server

def Server.start (e : Engine) (maxClients : Int) : Server := { engine := e, maxClients := maxClients }

end VortexKV
