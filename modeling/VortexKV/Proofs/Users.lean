import VortexKV.Proofs.ReadOnly

/-!
# What users may do

Read-only users: `CanExecute` refuses the commands of its two lists (`forbidden`), but `APPEND`, `PSETEX`,
`PEXPIRE`, `PERSIST` and `XREADGROUP` are on neither, and a script's calls are not checked at all. A run on the
session of a read-only user that keeps clear of these changes the keyspace only by expiry (`user_readOnly`).
-/

namespace VortexKV

open KeyedStore List Option

variable {d : DispatchEvent} {id : Bytes} {S : Bytes → Prop}

/-! ### Whose session it is -/

def Engine.LoggedInAs (P : ACLUser → Prop) (own : Bytes) (e : Engine) : Prop :=
  ∃ p acl user, e.clientSessions.lookup own = some p ∧ e.acl = some acl ∧ (e.sessions p).authenticated = true ∧
    acl.lookup (ACLManager.orDefault (e.sessions p).username) = some user ∧ P user

section

variable {rt : Runtime} {e e' : Engine} {own id : Bytes} {p : Nat} {P : ACLUser → Prop}

theorem Engine.LoggedInAs.of_login (h : e.LoggedInAs P own) (hp : e.clientSessions.lookup own = some p)
    (hp' : e'.clientSessions.lookup own = some p) (hal : e'.acl = e.acl)
    (hau : (e'.sessions p).authenticated = (e.sessions p).authenticated)
    (hu : (e'.sessions p).username = (e.sessions p).username) : e'.LoggedInAs P own := by
  obtain ⟨q, acl, user, hq, hac, ha, hl, hr⟩ := h
  obtain rfl : q = p := Option.some.inj (hq.symm.trans hp)
  exact ⟨q, acl, user, hp', hal.trans hac, hau.trans ha, by rwa [hu], hr⟩

theorem Engine.LoggedInAs.move {rel : Prop} (h : e.LoggedInAs P id) (hok : e.clients.Ok)
    (hm : Move rt own rel e e') : e'.LoggedInAs P id := by
  have ⟨p, _, _, hp, _⟩ := h
  have hp' : e'.clientSessions.lookup id = some p := hm.silent.clients.keeps hp
  obtain ⟨-, ha, hs⟩ := hm.access
  rcases hs with hst | ⟨q, name, args, hq, hg, rfl⟩
  · rcases (SessionSteps.loginFrom hst (hok.lt hp)).2 with ⟨hau, hu⟩ | ⟨-, -, hf⟩
    · exact h.of_login hp hp' ha hau hu
    · exact hf.elim
  · refine h.of_login hp hp' ha ?_ ?_
    all_goals
      simp only [Engine.setSession]
      by_cases hpq : p = q
      · rw [hpq, Function.update_self]
      · rw [Function.update_of_ne hpq]

theorem DispatchEvent.Leads.loggedInAs (hl : d.Leads rt e') (h₁ : Cmd.ofName d.cmd ≠ .auth)
    (h₂ : Cmd.ofName d.cmd ≠ .acl) (hok : d.before.clients.Ok) (h : d.before.LoggedInAs P own) :
    e'.LoggedInAs P own := by
  have ⟨p, _, _, hp, _⟩ := h
  obtain ⟨-, ha, hs⟩ := hl.access
  have hsa : e'.acl = d.before.acl := by
    generalize hac : e'.acl = acl' at ha
    cases ha with
    | same => rfl
    | sync _ hc => exact absurd hc h₁
    | setUser _ hc => exact absurd hc h₂
    | deleteUser _ hc => exact absurd hc h₂
  rcases (SessionSteps.loginFrom hs (hok.lt hp)).2 with ⟨hau, hu⟩ | ⟨-, -, hc, -⟩
  · exact h.of_login hp (hl.clients.keeps hp) hsa hau hu
  · exact absurd hc h₁

end

/-! ### Read-only users -/

def forbidden : List Bytes := ACLManager.adminCommands ++ ACLManager.mutatingCommands

def DataCmd.unrestricted : DataCmd → Bool
  | append | psetex | pexpire | persist => true
  | _ => false

def Engine.ReadOnlyUser (own : Bytes) (e : Engine) : Prop :=
  e.LoggedInAs (fun user => user.isAdmin = false ∧ user.readOnly = true) own

def Permitted (rt : Runtime) (c : Command) : Prop :=
  ∀ name args, c = name :: args → toUpper rt.unicode (toUpperFast rt.unicode name) ∉ forbidden

section

variable {rt : Runtime} {d : DispatchEvent} {e e' : Engine} {own cmd : Bytes} {args : List Bytes} {p : Nat} {T : Int}

theorem toUpper_forbidden (u : Unicode) {s : Bytes} (hs : s ∈ forbidden) : toUpper u s = s := by
  have ht : forbidden.all (fun s => s.all (· < 0x80) && s.map upperByte = s) = true := by decide
  obtain ⟨ha, hu⟩ : s.all (· < 0x80) = true ∧ s.map upperByte = s := by
    simpa using all_eq_true.1 ht s hs
  rw [toUpper_ascii u ha, hu]

theorem isRead_of_unforbidden {c : DataCmd} (hc : Cmd.ofName cmd = .data c) (hl : cmd ∉ forbidden)
    (hu : c.unrestricted = false) : c.isRead = true ∨ c = .xreadgroup := by
  simpa [hl, hu] using of_commandTable (P := fun cmd c => cmd ∈ forbidden || c.unrestricted || c.isRead || c = .xreadgroup)
    (by decide) hc

theorem refusal_none {acl : ACLManager} {name : Bytes} {user : ACLUser} {keys : List Bytes}
    (hu : acl.lookup (ACLManager.orDefault name) = some user) (ha : user.isAdmin = false)
    (hr : user.readOnly = true) (h : acl.refusal rt name cmd keys = none) : toUpper rt.unicode cmd ∉ forbidden := by
  unfold ACLManager.refusal at h
  simp only [hu] at h
  split_ifs at h with h₁ h₂ h₃
  intro hme
  rcases mem_append.1 hme with hm | hm
  · exact h₂ (by simp [ha, hm])
  · exact h₃ (by simp [ha, hr, hm])

theorem permitted_of_guards (hu : e.ReadOnlyUser own) (hp : e.clientSessions.lookup own = some p)
    (hint : internalConn own = false) (hg : guards rt e (e.sessions p) own cmd args = .ok none) :
    toUpper rt.unicode cmd ∉ forbidden := by
  obtain ⟨q, acl, user, hq, hac, hau, hl, ha, hro⟩ := hu
  obtain rfl : q = p := Option.some.inj (hq.symm.trans hp)
  have hgu := (guards_passed hg).acl
  have hf : ∀ s : Bytes, s.all (· < 0x80) = true → s.map upperByte ∉ forbidden → cmd = s →
      toUpper rt.unicode cmd ∉ forbidden := by
    rintro s hascii hs rfl
    rwa [toUpper_ascii _ hascii]
  by_cases h₁ : cmd = lit "AUTH"
  · exact hf _ (by decide) (by decide) h₁
  by_cases h₂ : cmd = lit "QUIT"
  · exact hf _ (by decide) (by decide) h₂
  simp only [aclGuard, hac] at hgu
  rw [if_pos ⟨hau, h₁, h₂, by simp [hint]⟩] at hgu
  cases hk : extractCommandKeys cmd args with
  | error stop => rw [hk] at hgu; cases hgu
  | ok keys =>
    rw [hk] at hgu
    simp only [Except.map, Except.ok.injEq, map_eq_none_iff] at hgu
    exact refusal_none hl ha hro hgu

structure DispatchEvent.Restricted (rt : Runtime) (d : DispatchEvent) : Prop where
  data : ∀ c, Cmd.ofName d.cmd = .data c → c.unrestricted = false
  group : Cmd.ofName d.cmd = .data .xreadgroup →
    ¬ DataCmd.xreadgroup.Unlogged rt (d.env []).fastNow d.before.ks d.args
  wasm : ∀ prog, Cmd.ofName d.cmd = .wasm → wasmProg rt (d.env []) d.before d.args = some prog → prog.ReadOnly
  -- `EXEC` reads the name of a queued command by other case tables than the guard
  name : d.cmd ∈ forbidden → toUpperFast rt.unicode d.name ∈ forbidden

theorem DispatchEvent.Restricted.harmless (h : d.Restricted rt) (hl : d.cmd ∉ forbidden) : d.Harmless rt :=
  ⟨fun c hc => isRead_of_unforbidden hc hl (h.data c hc), h.group, h.wasm⟩

/-- A dispatch in a run on the session of a read-only user, who stays one, at a time up to `T`. -/
structure UserDispatch (rt : Runtime) (T : Int) (own : Bytes) (d : DispatchEvent) : Prop where
  restricted : d.connID = own → d.Restricted rt
  script : d.connID = [] → d.Harmless rt
  stays : ∀ e', d.Leads rt e' → e'.ReadOnlyUser own
  time : (d.env []).fastNow ≤ T

/-- The session `p` of the connection is a read-only user's and its queue holds permitted commands. -/
structure UserSession (rt : Runtime) (own : Bytes) (p : Nat) (e : Engine) : Prop where
  ok : e.clients.Ok
  lookup : e.clientSessions.lookup own = some p
  user : e.ReadOnlyUser own
  queue : ∀ c ∈ (e.sessions p).txQueue, Permitted rt c

/-- From `e` to `e'` the session stays a read-only user's and the keyspace looks the same to later readers. -/
def UserKept (rt : Runtime) (T : Int) (id : Bytes) (p : Nat) (own : Bytes) (_ : Prop) (e : Engine)
    (tr : List DispatchEvent) (e' : Engine) : Prop :=
  own = id ∨ own = [] → (∀ d ∈ tr, UserDispatch rt T id d) → UserSession rt id p e →
    UserSession rt id p e' ∧ ∀ k, Keyspace.view T e'.ks k = Keyspace.view T e.ks k

theorem UserSession.move {rel : Prop} (h : UserSession rt id p e) (hint : internalConn id = false)
    (hm : Move rt own rel e e') : UserSession rt id p e' := by
  have hs := hm.silent
  refine ⟨hs.clients.ok h.ok, hs.clients.keeps h.lookup, h.user.move h.ok hm, ?_⟩
  rcases hm.access.2.2 with hst | ⟨q, name, args, hq, hg, rfl⟩
  · exact SessionSteps.queue hst h.queue
  · intro c hc
    by_cases hpq : p = q
    · subst hpq
      obtain rfl : own = id := h.ok.inj hq h.lookup
      simp only [Engine.setSession, Function.update_self, mem_append, mem_singleton] at hc
      rcases hc with hc | rfl
      · exact h.queue c hc
      · rintro _ _ ⟨⟩
        exact permitted_of_guards h.user hq hint hg
    · simp only [Engine.setSession, Function.update_of_ne hpq] at hc
      exact h.queue c hc

theorem UserDispatch.harmless (h : UserDispatch rt T id d) (hs : UserSession rt id p d.before)
    (hint : internalConn id = false) (ho : d.connID = id ∨ d.connID = [])
    (hsr : d.Source rt fun own c => own = id → Permitted rt c) : d.Harmless rt := by
  rcases ho with ho | ho
  · refine (h.restricted ho).harmless fun hm => ?_
    unfold DispatchEvent.Source at hsr
    split at hsr
    · obtain ⟨-, q, hq, -, hg⟩ := hsr
      rw [ho] at hq hg
      exact permitted_of_guards hs.user hq hint hg (by rwa [toUpper_forbidden _ hm])
    · have hn := (h.restricted ho).name hm
      exact hsr.2 ho _ _ rfl (by rwa [toUpper_forbidden _ hn])
  · exact h.script ho

theorem user_chains (hint : internalConn id = false) :
    Chains rt (UserSession rt id p) (fun own c => own = id → Permitted rt c) (UserKept rt T id p) where
  nil e := fun _ _ hi => ⟨hi, fun _ => rfl⟩
  trans h h' := by
    intro ho hd hi
    obtain ⟨hiv, hvi⟩ := h ho (fun d hd' => hd d (by simp [hd'])) hi
    obtain ⟨hin, hv⟩ := h' ho (fun d hd' => hd d (by simp [hd'])) hiv
    exact ⟨hin, fun k => (hv k).trans (hvi k)⟩
  script h := fun _ => h (.inr rfl)
  move hm := fun _ _ hi => ⟨hi.move hint hm, fun k => by rw [hm.silent.ks]⟩
  event := by
    intro own rel e' d hid hs hl ho hd hi
    subst hid
    have hdi := hd d (by simp)
    refine ⟨⟨hl.clients.ok hi.ok, hl.clients.keeps hi.lookup, hdi.stays e' hl,
      SessionSteps.queue hl.access.sessions hi.queue⟩, fun k => ?_⟩
    exact view_later hdi.time ((hdi.harmless hi hint ho hs).unchanged hl k)
  assume h := fun ho hd hi => h hi ho hd hi
  queued hi hq hc := by
    rintro rfl
    obtain rfl := Option.some.inj (hq.symm.trans hi.lookup)
    exact hi.queue _ hc

end

/-- A command on the session of a read-only user, with none of the commands that are not refused. -/
structure UserStep (rt : Runtime) (T : Int) (own : Bytes) (e : Engine) (ev : ClientEvent) : Prop where
  sent : ∃ ω args, ev = .command own ω args
  dispatch : ∀ d ∈ ev.trace rt e, UserDispatch rt T own d

/-- A run on the session of a read-only user that keeps clear of the commands that are not refused changes the
keyspace only by expiry. -/
theorem user_readOnly {rt : Runtime} {T : Int} {own : Bytes} {p : Nat} {evs : List ClientEvent} {e e' : Engine}
    (hint : internalConn own = false) (hs : UserSession rt own p e) (hst : Along rt (UserStep rt T own) evs e)
    (hr : runClients rt evs e = .ok e') (k : Bytes) : Keyspace.view T e'.ks k = Keyspace.view T e.ks k := by
  refine (Along.run (R := fun e e' => ∀ k, Keyspace.view T e'.ks k = Keyspace.view T e.ks k) (fun _ _ => rfl)
    (fun h h' k => (h' k).trans (h k)) ?_ hst hs hr).2 k
  intro e ev e' h hi hstep
  obtain ⟨⟨ω, args, rfl⟩, hd⟩ := h
  obtain ⟨v, hx⟩ := step_command hstep
  exact command_chain (user_chains hint) (fun h => h) hx (.inl rfl) hd hi

def userEngine : Engine :=
  { replayEngine ⟨Finmap.singleton "k" ⟨.string "v", 0, 0⟩, 1⟩ with
    acl := some (ACLManager.setUser (ACLManager.new []) { username := "ro", readOnly := true })
    sessions := fun _ => { authenticated := true, username := "ro" }
    nextSession := 1
    clientSessions := Finmap.singleton "conn-1" 0 }

def userRun : List ClientEvent :=
  [.command "conn-1" (.plain 0) ["SET", "k", "w"], .command "conn-1" (.plain 0) ["GET", "k"]]

theorem user_readOnly_set : ∃ e', runClients .plain userRun userEngine = .ok e' ∧
    Keyspace.view 0 e'.ks "k" = Keyspace.view 0 userEngine.ks "k" := by
  have hcm : Cmd.ofName (lit "GET") = .data .get := by decide
  have hok : userEngine.clients.Ok := .singleton rfl (by decide) rfl rfl
  have hu : userEngine.ReadOnlyUser "conn-1" := ⟨0, _, _, rfl, rfl, rfl, rfl, rfl, rfl⟩
  have hr : (ClientEvent.command "conn-1" (.plain 0) ["SET", "k", "w"]).step .plain userEngine =
      .ok userEngine := rfl
  obtain ⟨e', hru⟩ : ∃ e', runClients .plain userRun userEngine = .ok e' := ⟨_, rfl⟩
  have hs : UserSession .plain "conn-1" 0 userEngine :=
    ⟨hok, rfl, hu, fun _ hc => absurd hc not_mem_nil⟩
  refine ⟨e', hru, user_readOnly (T := 0) (by decide) hs ?_ hru "k"⟩
  refine ⟨⟨⟨_, _, rfl⟩, fun d hd => absurd hd not_mem_nil⟩, fun e₁ h₁ =>
    ⟨⟨⟨_, _, rfl⟩, fun d hd => ?_⟩, fun _ _ => trivial⟩⟩
  rw [hr] at h₁
  cases h₁
  obtain rfl : d = ⟨.plain 0, userEngine, "conn-1", "GET", "GET", ["k"], true⟩ := mem_singleton.1 hd
  refine ⟨fun _ => ⟨fun c hc => ?_, fun hc => ?_, fun prog hc => ?_, fun hm => absurd hm (by decide)⟩,
    fun hid => absurd hid (by decide), fun e' hl => ?_, le_refl _⟩
  · rw [hcm] at hc
    cases hc
    rfl
  · rw [hcm] at hc; cases hc
  · rw [hcm] at hc; cases hc
  · exact hl.loggedInAs (by rw [hcm]; simp) (by rw [hcm]; simp) hok hu

theorem user_append : ∃ e', userEngine.ReadOnlyUser "conn-1" ∧
    runClients .plain [.command "conn-1" (.plain 0) ["APPEND", "k", "w"]] userEngine = .ok e' ∧
    Keyspace.view 0 userEngine.ks "k" = some (.string "v", 0) ∧
    Keyspace.view 0 e'.ks "k" = some (.string "vw", 0) :=
  ⟨_, ⟨0, _, _, rfl, rfl, rfl, rfl, rfl, rfl⟩, rfl, by decide, by decide⟩

/-! ### Users stay as they are -/

structure ACLManager.Ok (acl : ACLManager) : Prop where
  user : ∀ {name : Bytes} {user : ACLUser}, acl.lookup name = some user →
    user.username = name ∧ user.keyPatterns ≠ []

/-- The users are the same, but the default user's password may have become the server's. -/
def UsersKept (password : Bytes) (acl acl' : ACLManager) : Prop :=
  ∀ name, acl'.lookup name = acl.lookup name ∨
    name = lit "default" ∧ acl'.lookup name = (acl.lookup name).map fun user => { user with password := password }

section

variable {acl acl' acl'' : ACLManager} {password : Bytes} {rt : Runtime} {e e' : Engine} {own cmd : Bytes}
  {args : List Bytes}

theorem UsersKept.refl (password : Bytes) (acl : ACLManager) : UsersKept password acl acl := fun _ => .inl rfl

theorem UsersKept.trans (h : UsersKept password acl acl') (h' : UsersKept password acl' acl'') :
    UsersKept password acl acl'' := by
  intro name
  rcases h name with heq | ⟨hn, heq⟩
  · rw [← heq]
    exact h' name
  · right
    refine ⟨hn, ?_⟩
    rcases h' name with he | ⟨-, he⟩
    · rw [he, heq]
    · rw [he, heq, Option.map_map]
      rfl

theorem UsersKept.isAdmin (h : UsersKept password acl acl') (name : Bytes) :
    (acl'.lookup name).map (·.isAdmin) = (acl.lookup name).map (·.isAdmin) := by
  rcases h name with heq | ⟨-, heq⟩
  · rw [heq]
  · rw [heq, Option.map_map]
    rfl

theorem ACLManager.ok_new (password : Bytes) : (ACLManager.new password).Ok := by
  refine ⟨fun {name user} h => ?_⟩
  unfold ACLManager.new at h
  by_cases hn : name = "default"
  · rw [hn, Finmap.lookup_insert] at h
    cases h
    exact ⟨hn.symm, by simp⟩
  · rw [Finmap.lookup_insert_of_ne _ hn, Finmap.lookup_empty] at h
    cases h

theorem ACLManager.Ok.setUser (hok : acl.Ok) (user : ACLUser) : (acl.setUser user).Ok := by
  refine ⟨fun {name u} h => ?_⟩
  unfold ACLManager.setUser at h
  by_cases hn : name = user.username
  · rw [hn, Finmap.lookup_insert] at h
    cases h
    split
    · exact ⟨hn.symm, by simp⟩
    · rename_i hp
      exact ⟨hn.symm, hp⟩
  · rw [Finmap.lookup_insert_of_ne _ hn] at h
    exact hok.user h

theorem ACLManager.Ok.deleteUser (hok : acl.Ok) (name : Bytes) : (acl.deleteUser name).2.Ok := by
  unfold ACLManager.deleteUser
  split
  · exact hok
  · refine ⟨fun {name' u} h => ?_⟩
    by_cases hn : name' = name
    · rw [hn, Finmap.lookup_erase] at h
      cases h
    · rw [Finmap.lookup_erase_ne hn] at h
      exact hok.user h

theorem ACLManager.Ok.syncDefault (hok : acl.Ok) (password : Bytes) : (acl.syncDefault password).Ok := by
  unfold ACLManager.syncDefault
  split
  · split
    · exact hok.setUser _
    · exact hok
  · exact hok

theorem usersKept_syncDefault (hok : acl.Ok) (password : Bytes) : UsersKept password acl (acl.syncDefault password) := by
  unfold ACLManager.syncDefault
  cases hd : acl.lookup (lit "default") with
  | none => exact .refl _ _
  | some user =>
    obtain ⟨hn, hp⟩ := hok.user hd
    dsimp only
    split
    · intro name
      simp only [ACLManager.setUser, hp, if_false, hn]
      by_cases hne : name = lit "default"
      · right
        refine ⟨hne, ?_⟩
        rw [hne, Finmap.lookup_insert, hd, map_some, hn]
      · left
        rw [Finmap.lookup_insert_of_ne _ hne]
    · exact .refl _ _

theorem LogsIn.user {name : Bytes} (h : LogsIn e args name) (hac : e.acl = some acl) (hok : acl.Ok) :
    ∃ user, acl.lookup name = some user ∧ ACLManager.orDefault name = name := by
  cases args with
  | nil => exact h.elim
  | cons a rest =>
    simp only [LogsIn, hac] at h
    obtain ⟨user, rfl, ha⟩ := h
    generalize (if rest = [] then lit "default" else a) = username at ha
    obtain ⟨acl', ho, hk, ha⟩ : ∃ acl' : ACLManager, acl'.Ok ∧ UsersKept e.password acl acl' ∧
        acl'.authenticate username (rest.headD a) = some user := by
      split at ha
      · exact ⟨_, hok.syncDefault _, usersKept_syncDefault hok _, ha⟩
      · exact ⟨_, hok, .refl _ _, ha⟩
    have hl : acl'.lookup (ACLManager.orDefault username) = some user := by
      unfold ACLManager.authenticate at ha
      split at ha
      · cases ha
      · rename_i u hu
        split at ha
        · cases ha
          exact hu
        · cases ha
    have hn := (ho.user hl).1
    have hf := hk.isAdmin (ACLManager.orDefault username)
    rw [hl, ← hn] at hf
    obtain ⟨u, hu, -⟩ := map_eq_some_iff.1 hf.symm
    refine ⟨u, hu, ?_⟩
    rw [hn]
    unfold ACLManager.orDefault
    split_ifs with h₁ h₂
    · cases h₂
    · rfl
    · rfl

def SameUsers (e e' : Engine) : Prop :=
  e'.password = e.password ∧ ∀ acl, e.acl = some acl → ∃ acl', e'.acl = some acl' ∧ UsersKept e.password acl acl'

theorem SameUsers.of_eq (hpw : e'.password = e.password) (ha : e'.acl = e.acl) : SameUsers e e' :=
  ⟨hpw, fun acl h => ⟨acl, ha.trans h, .refl _ _⟩⟩

theorem SameUsers.trans {e₁ : Engine} (h : SameUsers e e₁) (h' : SameUsers e₁ e') : SameUsers e e' := by
  refine ⟨h'.1.trans h.1, fun acl hal => ?_⟩
  obtain ⟨acl₁, hac, hke⟩ := h.2 acl hal
  obtain ⟨acl', ha, hk⟩ := h'.2 acl₁ hac
  rw [h.1] at hk
  exact ⟨acl', ha, hke.trans hk⟩

end

end VortexKV
