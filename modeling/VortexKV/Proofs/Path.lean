import VortexKV.Proofs.Execution

/-!
# From one dispatch to the next

`execute_path`: a command that returns leads from its engine to the next along its trace. Between the
dispatches of the trace only sessions and the script cache change, by steps of the command's own connection
or of the scripts' (the empty ID). Facts about whole commands are proved by induction on the path.
-/

namespace VortexKV

variable {args : Command} {name : Bytes}

/-- A change that concerns neither the keyspace nor the log, the snapshot or the replicas. -/
structure Silent (own : Bytes) (rel : Prop) (e e' : Engine) : Prop where
  ks : e'.ks = e.ks
  aof : e'.aof = e.aof
  rdb : e'.rdb = e.rdb
  repl : e'.repl = e.repl
  maxMemory : e'.maxMemory = e.maxMemory
  clients : ClientSteps own rel e.clients e'.clients

inductive Path (rt : Runtime) (own : Bytes) (rel : Prop) : Engine → List DispatchEvent → Engine → Prop
  | nil (e : Engine) : Path rt own rel e [] e
  | own {e e₁ e' : Engine} {tr : List DispatchEvent} (hs : Silent own rel e e₁)
      (hrest : Path rt own rel e₁ tr e') : Path rt own rel e tr e'
  | script {e e₁ e' : Engine} {tr : List DispatchEvent} (hs : Silent [] True e e₁)
      (hrest : Path rt own rel e₁ tr e') : Path rt own rel e tr e'
  | event {e₁ e' : Engine} {tr : List DispatchEvent} (d : DispatchEvent)
      (hid : d.connID = own ∨ d.connID = []) (hd : d.Leads rt e₁)
      (hrest : Path rt own rel e₁ tr e') : Path rt own rel d.before (d :: tr) e'

section

variable {rt : Runtime} {own : Bytes} {rel : Prop} {e e₁ e' : Engine} {tr tr' : List DispatchEvent} {p : Nat}

theorem Path.trans (h : Path rt own rel e tr e₁) (h' : Path rt own rel e₁ tr' e') :
    Path rt own rel e (tr ++ tr') e' := by
  induction h with
  | nil => exact h'
  | own hs _ ih => exact .own hs (ih h')
  | script hs _ ih => exact .script hs (ih h')
  | event d hid hd _ ih => exact .event d hid hd (ih h')

theorem Path.of_script (h : Path rt [] True e tr e') : Path rt own rel e tr e' := by
  induction h with
  | nil => exact .nil _
  | own hs _ ih => exact .script hs ih
  | script hs _ ih => exact .script hs ih
  | event d hid hd _ ih => exact .event d (.inr (hid.elim id id)) hd ih

theorem Silent.mono {rel' : Prop} (hr : rel → rel') (h : Silent own rel e e') : Silent own rel' e e' :=
  ⟨h.ks, h.aof, h.rdb, h.repl, h.maxMemory, ClientSteps.mono hr h.clients⟩

theorem Path.mono {rel' : Prop} (hr : rel → rel') (h : Path rt own rel e tr e') : Path rt own rel' e tr e' := by
  induction h with
  | nil => exact .nil _
  | own hs _ ih => exact .own (hs.mono hr) ih
  | script hs _ ih => exact .script hs ih
  | event d hid hd _ ih => exact .event d hid hd ih

theorem Silent.path (h : Silent own rel e e') : Path rt own rel e [] e' := .own h (.nil _)

theorem DispatchEvent.Leads.clients {d : DispatchEvent} (h : d.Leads rt e') :
    ClientSteps d.connID (d.cmd = lit "UNWATCH") d.before.clients e'.clients := by
  obtain ⟨v, w, e₁, hr, hf⟩ := h
  exact (dispatch_clients hr).trans (clients_finish hf)

theorem Path.keeps (h : Path rt own rel e tr e') (hok : e.clients.Ok) :
    e'.clients.Ok ∧ ∀ {id q}, e.clientSessions.lookup id = some q → e'.clientSessions.lookup id = some q := by
  induction h with
  | nil e => exact ⟨hok, fun h => h⟩
  | own hs _ ih =>
    obtain ⟨ho, hk⟩ := ih (hs.clients.ok hok)
    exact ⟨ho, fun h => hk (hs.clients.keeps h)⟩
  | script hs _ ih =>
    obtain ⟨ho, hk⟩ := ih (hs.clients.ok hok)
    exact ⟨ho, fun h => hk (hs.clients.keeps h)⟩
  | event d hid hd _ ih =>
    obtain ⟨ho, hk⟩ := ih (hd.clients.ok hok)
    exact ⟨ho, fun h => hk (hd.clients.keeps h)⟩

/-! ### What the executor does -/

/-- What the executor itself does to the engine, between dispatches. -/
inductive Move (rt : Runtime) (own : Bytes) (rel : Prop) : Engine → Engine → Prop
  | session (e : Engine) : Move rt own rel e (e.getClientSession own).2
  | close {e : Engine} {p : Nat} (hp : e.clientSessions.lookup own = some p) (hr : rel) :
      Move rt own rel e (closeTransaction e p).2.2
  | queue {e : Engine} {p : Nat} {name : Bytes} {args : List Bytes} (hp : e.clientSessions.lookup own = some p)
      (hg : guards rt e (e.sessions p) own (toUpperFast rt.unicode name) args = .ok none) :
      Move rt own rel e (e.setSession p fun s => { s with txQueue := s.txQueue ++ [name :: args] })
  | cancel (e : Engine) (running : Bool) : Move rt own rel e (e.setCancel running)
  | load {e start : Engine} {r : Readings} {cmd : Bytes} {args : List Bytes} {prog : LuaProg}
      (h : scriptOf rt r e cmd args = some (prog, start)) : Move rt own rel e start

theorem Move.shape (h : Move rt own rel e e') : ∃ lua s n m k, e' =
    { e with lua := lua, sessions := s, nextSession := n, clientSessions := m, watchedCount := k } := by
  cases h with
  | session =>
    obtain ⟨s, n, m, hg⟩ := getClientSession_eq e own
    exact ⟨_, _, _, _, _, hg⟩
  | close =>
    simp only [closeTransaction, Engine.unwatch]
    split <;> exact ⟨_, _, _, _, _, rfl⟩
  | queue => exact ⟨_, _, _, _, _, rfl⟩
  | cancel => exact ⟨_, _, _, _, _, rfl⟩
  | load h =>
    obtain ⟨-, -, lua, rfl⟩ := scriptOf_cases h
    exact ⟨_, _, _, _, _, rfl⟩

theorem Move.silent (h : Move rt own rel e e') : Silent own rel e e' := by
  have hc : ClientSteps own rel e.clients e'.clients := by
    cases h with
    | session => exact clients_getClientSession e own rel
    | close hp hr =>
      exact clients_release (f := fun s => { s with inMulti := false, txQueue := [], txAborted := false }) hr hp fun s hs => hs
    | queue hp hg => exact clients_setSession hp _ rfl rfl
    | cancel => exact .refl
    | load h =>
      obtain ⟨-, -, lua, rfl⟩ := scriptOf_cases h
      exact .refl
  obtain ⟨_, _, _, _, _, rfl⟩ := h.shape
  exact ⟨rfl, rfl, rfl, rfl, rfl, hc⟩

theorem silent_getClientSession (e : Engine) : Silent own rel e (e.getClientSession own).2 :=
  (Move.session e : Move .plain own rel e _).silent

theorem silent_closeTransaction (hp : e.clientSessions.lookup own = some p) (hr : rel) :
    Silent own rel e (closeTransaction e p).2.2 := (Move.close hp hr : Move .plain own rel e _).silent

theorem silent_scriptOf {r : Readings} {cmd : Bytes} {args : List Bytes} {prog : LuaProg} {start : Engine}
    (h : scriptOf rt r e cmd args = some (prog, start)) : Silent own rel e start := Move.silent (.load h)

/-- `EXEC` or `DISCARD` inside a transaction, which end the session's watch. -/
def Closes (rt : Runtime) (s : ClientSession) (args : Command) : Prop :=
  s.inMulti = true ∧ (args.head?.map (toUpperFast rt.unicode) = some (lit "EXEC") ∨
    args.head?.map (toUpperFast rt.unicode) = some (lit "DISCARD"))

/-- Where a dispatched command comes from: past the guards, or out of the queue of a transaction. -/
def DispatchEvent.Source (rt : Runtime) (G : Bytes → Command → Prop) (d : DispatchEvent) : Prop :=
  if d.checked then
    d.cmd = toUpperFast rt.unicode d.name ∧ ∃ p, d.before.clientSessions.lookup d.connID = some p ∧
      (d.before.sessions p).inMulti = false ∧ guards rt d.before (d.before.sessions p) d.connID d.cmd d.args = .ok none
  else d.cmd = toUpper rt.unicode d.name ∧ G d.connID (d.name :: d.args)

/-- What is proved of every command by following the executor: `C own rel e tr e'` holds of its moves and of
its dispatches and goes through sequences of them. Where the invariant `Inv` holds, the commands in the queue of
a connection satisfy `G`. -/
structure Chains (rt : Runtime) (Inv : Engine → Prop) (G : Bytes → Command → Prop)
    (C : Bytes → Prop → Engine → List DispatchEvent → Engine → Prop) : Prop where
  nil : ∀ {own rel} e, C own rel e [] e
  trans : ∀ {own rel e tr e₁ tr' e'}, C own rel e tr e₁ → C own rel e₁ tr' e' → C own rel e (tr ++ tr') e'
  script : ∀ {own rel e tr e'}, C [] True e tr e' → C own rel e tr e'
  move : ∀ {own rel e e'}, Move rt own rel e e' → C own rel e [] e'
  event : ∀ {own rel e'} {d : DispatchEvent}, d.connID = own → d.Source rt G → d.Leads rt e' →
    C own rel d.before [d] e'
  assume : ∀ {own rel e tr e'}, (Inv e → C own rel e tr e') → C own rel e tr e'
  queued : ∀ {own : Bytes} {e : Engine} {p : Nat} {c : Command}, Inv e → e.clientSessions.lookup own = some p →
    c ∈ (e.sessions p).txQueue → G own c

section Chains

variable {Inv : Engine → Prop} {G : Bytes → Command → Prop} {C : Bytes → Prop → Engine → List DispatchEvent → Engine → Prop}
  {scripts : Scripts} {scriptTrace : Env → LuaProg → Engine → List DispatchEvent} {ω : Env} {v : Value}

def ScriptsChained (C : Bytes → Prop → Engine → List DispatchEvent → Engine → Prop) (scripts : Scripts)
    (scriptTrace : Env → LuaProg → Engine → List DispatchEvent) : Prop :=
  ∀ {ω prog e v e'}, scripts ω prog e = .ok (v, e') → C [] True e (scriptTrace ω prog e) e'

theorem Chains.cons (hC : Chains rt Inv G C) (hm : Move rt own rel e e₁) (h : C own rel e₁ tr e') :
    C own rel e tr e' := hC.trans (hC.move hm) h

theorem DispatchEvent.leads_of_outcome {d : DispatchEvent} (h : d.outcome rt = .ok (v, e')) : d.Leads rt e' := by
  obtain ⟨v', w, e₁, hr, hf, -⟩ := DispatchEvent.outcome_ok.1 h
  exact ⟨v', w, e₁, hr, hf⟩

theorem runEvent_chain (hC : Chains rt Inv G C) (hs : ScriptsChained C scripts scriptTrace) {d : DispatchEvent} (hd : d.Source rt G)
    (h : runEvent rt scripts d = .ok (v, e')) :
    C d.connID rel d.before (dispatchTrace rt scriptTrace d.env d.before d.connID d.cmd d.name d.args d.checked) e' := by
  unfold dispatchTrace
  rcases runEvent_cases h with ⟨prog, start, hsc, hr⟩ | ⟨hsc, ho⟩
  · rw [hsc]
    exact hC.cons (.load hsc) (hC.script (hs hr))
  · rw [hsc]
    exact hC.event (d := d) rfl hd (d.leads_of_outcome ho)

theorem runQueued_chain (hC : Chains rt Inv G C) (hs : ScriptsChained C scripts scriptTrace)
    {args : List Bytes} (hG : G own (name :: args)) (h : runQueued rt scripts ω e own (name :: args) = .ok (v, e')) :
    C own rel e (dispatchTrace rt scriptTrace ω e own (toUpper rt.unicode name) name args false) e' := by
  rw [runQueued_eq] at h
  exact runEvent_chain hC hs (d := ⟨ω, e, own, _, name, args, false⟩) ⟨rfl, hG⟩ h

theorem runQueue_chain (hC : Chains rt Inv G C) (hs : ScriptsChained C scripts scriptTrace) {i : Nat}
    {queue : List Command} (hG : ∀ c ∈ queue, G own c) {vs : List Value}
    (h : runQueue rt scripts ω own i queue e = .ok (vs, e')) :
    C own rel e (queueTrace rt scripts scriptTrace ω own i queue e) e' := by
  induction queue generalizing i e vs with
  | nil => cases h; exact hC.nil _
  | cons c queue ih =>
    obtain ⟨v, vs', e₁, hc, hq, rfl⟩ := runQueue_cons h
    simp only [queueTrace, hc]
    refine hC.trans ?_ (ih (fun c hc => hG c (by simp [hc])) hq)
    cases c with
    | nil => cases hc; exact hC.nil _
    | cons name args => exact runQueued_chain hC hs (hG _ (by simp)) hc

theorem session_chain (hC : Chains rt Inv G C) (hs : ScriptsChained C scripts scriptTrace)
    (hp : e.clientSessions.lookup own = some p)
    (h : executeCommandWithSession rt scripts ω e p own args = .ok (v, e')) :
    C own (Closes rt (e.sessions p) args) e (sessionTrace rt scripts scriptTrace ω e p own args) e' := by
  cases session_handles h with
  | empty => exact hC.nil _
  | refused hg =>
    simp only [sessionTrace, hg]
    exact hC.nil _
  | aborted hg hm hc ha =>
    simp only [sessionTrace, hg, hm, ha, if_true, Bool.true_eq_false, and_false, if_false]
    exact hC.move (.close hp ⟨hm, .inl (by simp [hc])⟩)
  | exec hg hm hc ha hq =>
    rw [hc] at hg
    simp only [sessionTrace, hc, hg, hm, ha, if_true, and_self]
    exact hC.assume fun hi =>
      hC.cons (.close hp ⟨hm, .inl (by simp [hc])⟩) (runQueue_chain hC hs (fun c hc => hC.queued hi hp hc) hq)
  | discard hg hm hc =>
    rw [hc] at hg
    simp only [sessionTrace, hc, hg, hm, if_true, show lit "DISCARD" ≠ lit "EXEC" by decide, false_and, if_false]
    exact hC.move (.close hp ⟨hm, .inr (by simp [hc])⟩)
  | nested hg hm hc =>
    rw [hc] at hg
    simp only [sessionTrace, hc, hg, hm, if_true, show lit "MULTI" ≠ lit "EXEC" by decide, false_and, if_false]
    exact hC.nil _
  | queued hg hm he =>
    simp only [sessionTrace, hg, hm, he, if_true, false_and, if_false]
    exact hC.move (.queue hp hg)
  | ran hg hm hr =>
    simp only [sessionTrace, hg, hm, Bool.false_eq_true, if_false]
    exact runEvent_chain hC hs (d := ⟨ω, e, own, _, _, _, true⟩) ⟨rfl, p, hp, hm, hg⟩ hr

theorem noScripts_chained : ScriptsChained C noScripts noScriptTrace := fun h => by cases h

/-- `rel` matters only for moves of the connection itself. -/
def Weakens (C : Bytes → Prop → Engine → List DispatchEvent → Engine → Prop) : Prop :=
  ∀ {own rel e tr e'}, C own rel e tr e' → C own True e tr e'

theorem runCalls_chain (hC : Chains rt Inv G C) (hw : Weakens C) {i : Nat} {prog : LuaProg}
    (h : runCalls rt ω i prog e = .ok (v, e')) : C [] True e (callsTrace rt ω i prog e) e' := by
  induction prog generalizing i e with
  | done v => cases h; exact hC.nil _
  | call args next ih =>
    obtain ⟨v', e₁, hx, h⟩ := runCalls_call h
    simp only [callsTrace, hx]
    refine hC.trans (hC.cons (.session e) ?_) (ih _ h)
    exact hw (session_chain hC noScripts_chained (lookup_getClientSession e []) hx)

theorem luaScripts_chained (hC : Chains rt Inv G C) (hw : Weakens C) :
    ScriptsChained C (luaScripts rt) (luaTrace rt) := by
  intro ω prog e v e' h
  obtain ⟨e₁, hx, rfl⟩ := luaScripts_ok h
  refine hC.cons (.cancel e true) ?_
  have hc := hC.trans (runCalls_chain hC hw hx) (hC.move (.cancel e₁ false))
  rwa [List.append_nil] at hc

theorem execute_chain (hC : Chains rt Inv G C) (hw : Weakens C)
    (hp : e.clientSessions.lookup own = some p) (h : execute rt ω e p own args = .ok (v, e')) :
    C own (Closes rt (e.sessions p) args) e (executeTrace rt ω e p own args) e' :=
  session_chain hC (luaScripts_chained hC hw) hp h

theorem command_chain (hC : Chains rt Inv G C) (hw : Weakens C)
    (h : executeCommand rt (luaScripts rt) ω e own args = .ok (v, e')) :
    C own (Closes rt ((e.getClientSession own).2.sessions (e.getClientSession own).1) args) e
      (commandTrace rt ω e own args) e' :=
  hC.cons (.session e) (execute_chain hC hw (lookup_getClientSession e own) h)

end Chains

/-! ### Paths of the executor -/

theorem path_chains : Chains rt (fun _ => True) (fun _ _ => True) (Path rt) where
  nil := .nil
  trans := Path.trans
  script := Path.of_script
  move hm := hm.silent.path
  event hid _ hd := .event _ (.inl hid) hd (.nil _)
  assume h := h trivial
  queued _ _ _ := trivial

variable {scripts : Scripts} {scriptTrace : Env → LuaProg → Engine → List DispatchEvent} {ω : Env} {v : Value}

def ScriptsTraced (rt : Runtime) (scripts : Scripts)
    (scriptTrace : Env → LuaProg → Engine → List DispatchEvent) : Prop :=
  ∀ {ω prog e v e'}, scripts ω prog e = .ok (v, e') → Path rt [] True e (scriptTrace ω prog e) e'

theorem runQueued_path (hs : ScriptsTraced rt scripts scriptTrace) {args : List Bytes}
    (h : runQueued rt scripts ω e own (name :: args) = .ok (v, e')) :
    Path rt own rel e (dispatchTrace rt scriptTrace ω e own (toUpper rt.unicode name) name args false) e' :=
  runQueued_chain path_chains hs trivial h

theorem session_path (hs : ScriptsTraced rt scripts scriptTrace)
    (hp : e.clientSessions.lookup own = some p)
    (h : executeCommandWithSession rt scripts ω e p own args = .ok (v, e')) :
    Path rt own (Closes rt (e.sessions p) args) e (sessionTrace rt scripts scriptTrace ω e p own args) e' :=
  session_chain path_chains hs hp h

theorem noScripts_traced : ScriptsTraced rt noScripts noScriptTrace := noScripts_chained

theorem luaScripts_traced : ScriptsTraced rt (luaScripts rt) (luaTrace rt) :=
  luaScripts_chained path_chains fun h => h.mono fun _ => trivial

theorem execute_path (hp : e.clientSessions.lookup own = some p)
    (h : execute rt ω e p own args = .ok (v, e')) :
    Path rt own (Closes rt (e.sessions p) args) e (executeTrace rt ω e p own args) e' :=
  execute_chain path_chains (fun h => h.mono fun _ => trivial) hp h

theorem step_command {ω : Env} (h : (ClientEvent.command own ω args).step rt e = .ok e') :
    ∃ v, executeCommand rt (luaScripts rt) ω e own args = .ok (v, e') := by
  simp only [ClientEvent.step] at h
  cases hx : executeCommand rt (luaScripts rt) ω e own args with
  | error stop => rw [hx] at h; cases h
  | ok x =>
    rw [hx] at h
    cases h
    exact ⟨_, rfl⟩

def Engine.NoClients (e : Engine) : Prop := e.clientSessions = ∅ ∧ e.watchedCount = 0

theorem Engine.NoClients.ok (h : e.NoClients) : e.clients.Ok := by
  have hn : ∀ id, e.clients.clientSessions.lookup id = none := fun id => by
    rw [show e.clients.clientSessions = ∅ from h.1]
    exact Finmap.lookup_empty id
  refine ⟨fun hl => ?_, fun hl => ?_, ?_⟩
  · rw [hn] at hl; cases hl
  · rw [hn] at hl; cases hl
  · have hw : e.clients.watchers = ∅ := Finset.eq_empty_of_forall_notMem fun id hid => by
      rw [Clients.mem_watchers, Clients.watched, Clients.session?, hn] at hid
      exact hid rfl
    rw [hw]
    exact h.2

end

end VortexKV
