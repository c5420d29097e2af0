import VortexKV.Proofs.Access
import VortexKV.Proofs.SessionIsolation

/-!
# Before authentication

On a server with a password, a connection whose session is not authenticated gets answers that do not depend on
the keyspace and leaves it alone, until it sends an `AUTH` that succeeds (`nothing_before_auth`). This rests on
the new connection having a new session, and so on its name being free: `connections_shared` is a run in which
a connection takes over the session of another one.
-/

namespace VortexKV

open Function

variable {ev : ServerEvent}

def GoodAuth (rt : Runtime) (e : Engine) (args : Command) : Prop :=
  ∃ name rest user, args = name :: rest ∧ toUpperFast rt.unicode name = lit "AUTH" ∧ LogsIn e rest user

section

variable {rt : Runtime} {ω : Env} {e e' : Engine} {p : Nat} {own cmd : Bytes} {args : Command}

/-! ### The executor -/

theorem cmdAuth_refused {args : List Bytes} (h : ∀ name, ¬ LogsIn e args name) :
    ∃ msg acl, ∀ ks, cmdAuth { e with ks := ks } own args = .ok (.error msg, false, { e with ks := ks, acl := acl }) := by
  cases args with
  | nil => exact ⟨_, e.acl, fun _ => rfl⟩
  | cons a rest =>
    simp only [LogsIn] at h
    simp only [cmdAuth]
    cases hac : e.acl with
    | some acl =>
      simp only [hac] at h
      refine ⟨"ERR invalid password", some (if (if rest = [] then lit "default" else a) = lit "default" then
        acl.syncDefault e.password else acl), fun ks => ?_⟩
      cases ha : (if (if rest = [] then lit "default" else a) = lit "default" then acl.syncDefault e.password
          else acl).authenticate (if rest = [] then lit "default" else a) (rest.headD a) with
      | some user => exact absurd ⟨user, rfl, ha⟩ (h _)
      | none =>
        dsimp only
        rw [ha]
        rfl
    | none =>
      simp only [hac] at h
      refine ⟨"ERR invalid password", none, fun ks => ?_⟩
      rw [if_neg fun hp => h _ ⟨rfl, hp⟩]
      rfl

theorem guards_open (ha : (e.sessions p).authenticated = false) (hc : cmd = lit "AUTH" ∨ cmd = lit "QUIT")
    (args : List Bytes) (ks : Keyspace) :
    guards rt { e with ks := ks } (e.sessions p) own cmd args = .ok none := by
  have hkeys : ∀ cm : ClusterManager, (extractCommandKeys cmd args).map (slotGuard cm) = .ok none := by
    intro cm
    cases args with
    | nil => rfl
    | cons a args =>
      rcases hc with rfl | rfl <;> rfl
  have hw : isWriteCommand cmd = false := by
    rcases hc with rfl | rfl <;> decide
  refine Passed.guards ⟨?_, aclGuard_unasked (.inl ha), by simp [WritesToReplica, hw], ?_⟩
  · rcases hc with rfl | rfl <;> simp [Unauthenticated]
  unfold clusterGuard
  split
  · rfl
  · split
    · exact hkeys _
    · rfl

theorem execute_unauthenticated (hpw : e.password ≠ []) (ha : (e.sessions p).authenticated = false)
    (hint : internalConn own = false) (hno : ¬ GoodAuth rt e args) :
    ∃ (v : Value) (e₁ : Engine), (e₁.sessions p).authenticated = false ∧
      ∀ ks, execute rt ω { e with ks := ks } p own args = .ok (v, { e₁ with ks := ks }) := by
  cases args with
  | nil => exact ⟨_, e, ha, fun _ => rfl⟩
  | cons name args =>
    by_cases hcm : toUpperFast rt.unicode name = lit "AUTH" ∨ toUpperFast rt.unicode name = lit "QUIT"
    · have hg : ∀ ks, guards rt { e with ks := ks } (e.sessions p) own (toUpperFast rt.unicode name) args = .ok none :=
        guards_open ha hcm args
      by_cases hm : (e.sessions p).inMulti = true
      · -- inside a transaction the command is queued
        refine ⟨.simpleString "QUEUED",
          e.setSession p fun s => { s with txQueue := s.txQueue ++ [name :: args] }, ?_, fun ks => ?_⟩
        · simp [Engine.setSession, ha]
        · simp only [execute, executeCommandWithSession, hg ks, hm, if_true, bufferCommand]
          rcases hcm with hcm | hcm
          · rw [hcm]
            rfl
          · rw [hcm]
            rfl
      · rcases hcm with hcm | hcm
        all_goals rw [hcm] at hg
        · have hc : Cmd.ofName (lit "AUTH") = .auth := by decide
          obtain ⟨msg, acl, hr⟩ := @cmdAuth_refused e own args
            fun user hu => hno ⟨name, args, user, rfl, hcm, hu⟩
          refine ⟨.error msg, { e with acl := acl }, ha, fun ks => ?_⟩
          simp only [execute, executeCommandWithSession, hg ks, hm, runCommand, hcm, dispatch, hc,
            hr ks]
          rfl
        · have hc : Cmd.ofName (lit "QUIT") = .unknown := by decide
          refine ⟨.error (lit "ERR unknown command '" ++ lit "QUIT" ++ lit "'"), e, ha, fun ks => ?_⟩
          simp only [execute, executeCommandWithSession, hg ks, hm, runCommand, hcm, dispatch, hc]
          rfl
    · refine ⟨.error "NOAUTH Authentication required.", e, ha, fun ks => ?_⟩
      have hg : guards rt { e with ks := ks } (e.sessions p) own (toUpperFast rt.unicode name) args =
          .ok (some (.error "NOAUTH Authentication required.")) := by
        unfold guards
        rw [if_pos ⟨hpw, by simp [ha], by simp [hint], fun h => hcm (.inl h), fun h => hcm (.inr h)⟩]
      simp only [execute, executeCommandWithSession, hg]

theorem fastPath_unauthenticated (hpw : e.password ≠ []) (hau : (e.sessions p).authenticated = false)
    (hint : internalConn own = false) (hno : ¬ GoodAuth rt e args) :
    ∃ (out : Bytes) (e₁ : Engine), (e₁.sessions p).authenticated = false ∧
      ∀ ks, fastPath rt ω { e with ks := ks } p own args = .ok (out, { e₁ with ks := ks }) := by
  have hsl : ∃ (out : Bytes) (e₁ : Engine), (e₁.sessions p).authenticated = false ∧
      ∀ ks, slowPath rt ω { e with ks := ks } p own args = .ok (out, { e₁ with ks := ks }) := by
    obtain ⟨v, e₁, ha, he⟩ := execute_unauthenticated (ω := ω) hpw hau hint hno
    refine ⟨appendValue v, e₁, ha, fun ks => ?_⟩
    rw [slowPath, he ks]
    rfl
  have hs : ∀ ks, isSimpleSession { e with ks := ks } p = false := fun ks => by simp [isSimpleSession, hpw]
  have hf : ∀ ks, fastWrites { e with ks := ks } p = false := fun ks => by simp [fastWrites, hs ks]
  by_cases hq : isQuit args = true
  · refine ⟨respOK, e, hau, fun ks => ?_⟩
    unfold fastPath
    rw [if_pos hq]
  rcases args with _ | ⟨name, _ | ⟨key, _ | ⟨val, _ | ⟨a, rest⟩⟩⟩⟩
  · exact ⟨[], e, hau, fun ks => rfl⟩
  · by_cases hp : asCmd4 name = cmdPingCode
    · exact ⟨respPONG, e, hau, fun ks => by simp [fastPath, hq, hp]⟩
    · obtain ⟨out, e₁, ha, h⟩ := hsl
      exact ⟨out, e₁, ha, fun ks => by simp [fastPath, hq, hp, h ks]⟩
  · by_cases hp : asCmd4 name = cmdPingCode
    · exact ⟨appendBulkString key, e, hau, fun ks => by simp [fastPath, hq, hs ks, hp]⟩
    · obtain ⟨out, e₁, ha, h⟩ := hsl
      exact ⟨out, e₁, ha, fun ks => by simp [fastPath, hq, hs ks, hf ks, hp, h ks]⟩
  · obtain ⟨out, e₁, ha, h⟩ := hsl
    exact ⟨out, e₁, ha, fun ks => by simp [fastPath, hq, hf ks, h ks]⟩
  · obtain ⟨out, e₁, ha, h⟩ := hsl
    exact ⟨out, e₁, ha, fun ks => by simp [fastPath, hq, h ks]⟩

/-! ### The server -/

theorem password_chains : Chains rt (fun _ => True) (fun _ _ => True)
    (fun _ _ e _ e' => e'.password = e.password) where
  nil _ := rfl
  trans h h' := h'.trans h
  script h := h
  move hm := hm.access.1
  event _ _ hl := hl.access.password
  assume h := h trivial
  queued _ _ _ := trivial

theorem password_fastPath (hp : e.clientSessions.lookup own = some p) {out : Bytes}
    (h : fastPath rt ω e p own args = .ok (out, e')) : e'.password = e.password := by
  obtain ⟨ks, rfl | ⟨v, hx⟩⟩ := fastPath_cases h
  · rfl
  · exact execute_chain (e := { e with ks := ks }) password_chains (fun h => h) hp hx

theorem ClientSteps.registered {rel : Prop} {t t' : Clients} (h : ClientSteps own rel t t') {id : Bytes}
    (hid : id ∈ t'.clientSessions) : id = own ∨ id ∈ t.clientSessions := by
  induction h with
  | refl => exact .inr hid
  | tail _ hstep ih =>
    cases hstep with
    | login s hn hs => exact (Finmap.mem_insert.1 hid).elim .inl ih
    | change s hp => exact ih hid
    | release hr s hp => exact ih hid
    | touch key => exact ih hid

theorem Path.registered {rel : Prop} {tr : List DispatchEvent} (h : Path rt own rel e tr e') {id : Bytes}
    (hid : id ∈ e'.clientSessions) : id = own ∨ id = [] ∨ id ∈ e.clientSessions := by
  induction h with
  | nil => exact .inr (.inr hid)
  | own hs _ ih =>
    rcases ih hid with h | h | h
    · exact .inl h
    · exact .inr (.inl h)
    · exact (hs.clients.registered h).imp_right .inr
  | script hs _ ih =>
    rcases ih hid with h | h | h
    · exact .inl h
    · exact .inr (.inl h)
    · exact .inr (hs.clients.registered h)
  | event d how hd _ ih =>
    rcases ih hid with h | h | h
    · exact .inl h
    · exact .inr (.inl h)
    · rcases hd.clients.registered h with h | h
      · exact how.elim (fun ho => .inl (h.trans ho)) fun ho => .inr (.inl (h.trans ho))
      · exact .inr (.inr h)

end

namespace Server

/-- Beside `Ok`: connections have numbers below the next one and are no callers of the server's own, and every
session is a connection's or the scripts'. -/
structure Tidy (s : Server) : Prop where
  ok : s.Ok
  numbered : ∀ {c conn}, s.conns c = some conn → c < s.accepted
  external : ∀ {c conn}, s.conns c = some conn → internalConn conn.id = false
  registered : ∀ {id}, id ∈ s.engine.clientSessions → id = [] ∨ ∃ c conn, s.conns c = some conn ∧ conn.id = id

variable {rt : Runtime} {s s' : Server} {c d : Nat} {conn : Connection} {ω : Env} {args : Command}

theorem internalConn_connName (n : Int) : internalConn (connName n) = false := by
  simp [internalConn, connName, replicaStream, aofReplay, lit]

/-! ### Connections keep their sessions -/

theorem Moves.accepted_le (hm : Moves rt s ev s') : s.accepted ≤ s'.accepted := by
  cases hm with
  | accept => exact Nat.le_succ _
  | _ => exact le_refl _

theorem Tidy.step (h : s.Tidy) (hf : s.NameFree ev) (hs : s.step rt ev = .ok s') : s'.Tidy := by
  have hm := moves_of_step hs
  refine ⟨h.ok.step hf hs, fun hc => ?_, fun hc => ?_, fun {id} hid => ?_⟩
  · rcases hm.conns hc with ⟨_, hc, -⟩ | ⟨-, -, hlt, -⟩
    · exact (h.numbered hc).trans_le hm.accepted_le
    · exact hlt
  · rcases hm.conns hc with ⟨_, hc, hid, -⟩ | ⟨-, -, -, rfl⟩
    · exact hid ▸ h.external hc
    · exact internalConn_connName _
  -- the names in the table stay those of connections
  cases hm with
  | idle => exact h.registered hid
  | accept =>
    have hg := clients_getClientSession s.engine (connName (s.connCount + 1)) True
    rcases hg.registered hid with rfl | hid
    · exact .inr ⟨s.accepted, _, update_self _ _ _, rfl⟩
    · refine (h.registered hid).imp_right ?_
      rintro ⟨c, conn, hc, hco⟩
      exact ⟨c, conn, (update_of_ne (h.numbered hc).ne _ _).trans hc, hco⟩
  | @close _ d conn₁ hd =>
    refine (h.registered hid).imp_right ?_
    rintro ⟨c, conn, hc, hco⟩
    by_cases hcd : c = d
    · subst hcd
      obtain rfl := Option.some.inj (hc.symm.trans hd)
      exact ⟨c, _, update_self _ _ _, hco⟩
    · exact ⟨c, conn, (update_of_ne hcd _ _).trans hc, hco⟩
  | @clear d conn₁ hd =>
    simp only [Engine.clearClientSession, h.ok.owns hd] at hid
    obtain ⟨hne, hid⟩ := Finmap.mem_erase.1 hid
    refine (h.registered hid).imp_right ?_
    rintro ⟨c, conn, hc, hco⟩
    have hcd : c ≠ d := by
      rintro rfl
      obtain rfl := Option.some.inj (hc.symm.trans hd)
      exact hne hco.symm
    exact ⟨c, conn, (update_of_ne hcd _ _).trans hc, hco⟩
  | @command c _ _ conn _ _ hc hx =>
    obtain ⟨tr, e₁, hcl, hp⟩ := fastPath_clients (h.ok.owns hc) hx
    rcases hp.registered hid with ho | hn | hid
    · exact .inr ⟨c, conn, hc, ho.symm⟩
    · exact .inl hn
    · rw [show e₁.clientSessions = s.engine.clientSessions from congrArg Clients.clientSessions hcl] at hid
      exact h.registered hid

theorem Tidy.start {e : Engine} (maxClients : Int) (h : e.NoClients) : (Server.start e maxClients).Tidy := by
  refine ⟨⟨h.ok, fun hc => (nomatch hc), fun hc => (nomatch hc), fun hc => (nomatch hc)⟩, fun hc => (nomatch hc),
    fun hc => (nomatch hc), fun {id} hid => ?_⟩
  rw [show (Server.start e maxClients).engine.clientSessions = ∅ from h.1] at hid
  exact absurd hid (Finmap.notMem_empty)

/-! ### Waiting for the password -/

/-- The server has a password and connection `c` has not given it. -/
structure Waiting (s : Server) (c : Nat) : Prop where
  tidy : s.Tidy
  password : s.engine.password ≠ []
  accepted : c < s.accepted
  session : ∀ {conn}, s.conns c = some conn → (s.engine.sessions conn.session).authenticated = false

theorem password_step (h : s.Tidy) (hs : s.step rt ev = .ok s') :
    s'.engine.password = s.engine.password := by
  cases moves_of_step hs with
  | idle | close => rfl
  | accept => exact password_getClientSession _ _
  | clear =>
    unfold Engine.clearClientSession
    split <;> rfl
  | command hc hx => exact password_fastPath (h.ok.owns hc) hx

theorem Waiting.step (h : s.Waiting c) (hf : s.NameFree ev)
    (hno : ∀ ω args, ev = .command c ω args → ¬ GoodAuth rt s.engine args) (hs : s.step rt ev = .ok s') :
    s'.Waiting c := by
  have hm := moves_of_step hs
  refine ⟨h.tidy.step hf hs, ?_, h.accepted.trans_le hm.accepted_le, fun {conn} hc => ?_⟩
  · rw [password_step h.tidy hs]
    exact h.password
  obtain ⟨conn₀, hc', hid, hse⟩ := (hm.conns hc).resolve_right fun hn => h.accepted.ne hn.2.1
  rw [← hse]
  by_cases hev : ∀ ω args, ev ≠ .command c ω args
  · rw [(h.tidy.ok.isolated.unaffected hs hev hc').authenticated]
    exact h.session hc'
  · simp only [not_forall, not_not] at hev
    obtain ⟨ω, args, rfl⟩ := hev
    cases hm with
    | idle | close => exact h.session hc'
    | command ho hx =>
      obtain rfl := Option.some.inj (ho.symm.trans hc')
      obtain ⟨out', e₁, ha, hp⟩ := fastPath_unauthenticated (ω := ω) h.password (h.session ho)
        (h.tidy.external ho) (hno ω args rfl)
      have hsa := (hp s.engine.ks).symm.trans hx
      cases hsa
      exact ha

def NoLogin (rt : Runtime) (c : Nat) (s : Server) : List ServerEvent → Prop
  | [] => True
  | ev :: evs => (∀ ω args, ev = .command c ω args → ¬ GoodAuth rt s.engine args) ∧
      ∀ s', s.step rt ev = .ok s' → NoLogin rt c s' evs

theorem Waiting.run (evs : List ServerEvent) (h : s.Waiting c) (hf : s.NamesFree rt evs) (hno : NoLogin rt c s evs)
    (hs : run rt evs s = .ok s') : s'.Waiting c := by
  induction evs generalizing s with
  | nil => cases hs; exact h
  | cons ev evs ih =>
    obtain ⟨s₁, hev, hs⟩ := run_cons hs
    exact ih (h.step hf.1 hno.1 hev) (hf.2 s₁ hev) (hno.2 s₁ hev) hs

theorem Tidy.waiting (h : s.Tidy) (hpw : s.engine.password ≠ []) (hf : s.NameFree .accept)
    (hr : ¬ (s.maxClients > 0 ∧ s.connCount ≥ s.maxClients)) : s.accept.Waiting s.accepted := by
  have hint := internalConn_connName (s.connCount + 1)
  have hn : s.engine.clientSessions.lookup (connName (s.connCount + 1)) = none := by
    rw [Finmap.lookup_eq_none]
    intro hm
    rcases h.registered hm with hni | ⟨c, conn, hc, hid⟩
    · rw [hni] at hint
      cases hint
    · exact hf rfl c conn hc hid
  have hget : s.engine.getClientSession (connName (s.connCount + 1)) = (s.engine.nextSession, { s.engine with
      sessions := Function.update s.engine.sessions s.engine.nextSession
        (newSession s.engine.password (connName (s.connCount + 1)))
      nextSession := s.engine.nextSession + 1
      clientSessions := s.engine.clientSessions.insert (connName (s.connCount + 1)) s.engine.nextSession }) := by
    simp only [Engine.getClientSession, hn]
    rfl
  refine ⟨h.step hf (show s.step .plain .accept = .ok s.accept from rfl), ?_, ?_, fun {conn} hc => ?_⟩
  all_goals
    unfold Server.accept at *
    rw [if_neg hr] at *
    simp only [hget] at *
  · exact hpw
  · exact Nat.lt_succ_self _
  · simp only [update_self, Option.some.injEq] at hc
    subst hc
    simp only [update_self, newSession]
    simp only [internalConn, decide_eq_false_iff_not] at hint
    simp [hpw, hint]

end Server

end VortexKV
