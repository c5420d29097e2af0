import VortexKV.Dump
import VortexKV.Proofs.Guards
import VortexKV.Proofs.LogComplete

/-!
# Commands of the server's own connections

The replay of the log and the stream of a replica execute commands for connections that no guard holds up
(`executeCommand_internal`); what a command leaves in the keyspace is then what its action leaves (`apply_data`).
-/

namespace VortexKV

/-- The engine executes commands for a connection of its own, which has not started a transaction. -/
structure Engine.Applies (e : Engine) (own : Bytes) : Prop where
  internal : own = replicaStream ∨ own = aofReplay
  idle : ∀ p, e.clientSessions.lookup own = some p → (e.sessions p).inMulti = false

section

variable {rt : Runtime} {scripts : Scripts} {ω : Env} {e e₁ e' : Engine} {own name cmd : Bytes} {args : List Bytes} {v : Value}
  {w : Bool}

theorem guards_internal (h : own = replicaStream ∨ own = aofReplay) (e : Engine) (session : ClientSession)
    (cmd : Bytes) (args : List Bytes) : guards rt e session own cmd args = .ok none := by
  have hc : internalConn own = true := by
    rcases h with rfl | rfl <;> rfl
  refine (guards_callers hc).2 ?_
  rintro ⟨-, h₁, h₂, -⟩
  exact h.elim h₁ h₂

theorem applies_getClientSession (h : e.Applies own) :
    ((e.getClientSession own).2.sessions (e.getClientSession own).1).inMulti = false ∧
      (e.getClientSession own).2.Applies own := by
  unfold Engine.getClientSession
  cases hp : e.clientSessions.lookup own with
  | some p => exact ⟨h.idle p hp, h⟩
  | none =>
    refine ⟨by simp, h.internal, fun p hp => ?_⟩
    rw [Finmap.lookup_insert] at hp
    cases hp
    simp

theorem executeCommand_internal (h : e.Applies own) (name : Bytes) (args : List Bytes) :
    executeCommand rt scripts ω e own (name :: args) =
      runCommand rt scripts ω (e.getClientSession own).2 own name args (toUpperFast rt.unicode name) := by
  unfold executeCommand executeCommandWithSession
  simp only [guards_internal h.internal, (applies_getClientSession h).1, Bool.false_eq_true, if_false]

theorem inMulti_touchWatchedKeys (e : Engine) (keys : List Bytes) (p : Nat) :
    ((e.touchWatchedKeys keys).sessions p).inMulti = (e.sessions p).inMulti := by
  induction keys generalizing e with
  | nil => rfl
  | cons k keys ih =>
    refine (ih (e.touchWatchedKey k)).trans ?_
    unfold Engine.touchWatchedKey
    split
    · rfl
    · dsimp only
      split <;> rfl

theorem applies_touchKeys (h : e.Applies own) (ht : touchKeys e cmd args w = .ok e') : e'.Applies own := by
  obtain ⟨s, hs⟩ := touchKeys_eq ht
  refine ⟨h.internal, fun p hp => ?_⟩
  rw [hs] at hp
  refine Eq.trans ?_ (h.idle p hp)
  unfold touchKeys at ht
  split at ht
  · cases hk : extractCommandKeys cmd args with
    | error stop => rw [hk] at ht; cases ht
    | ok keys =>
      rw [hk] at ht
      cases ht
      exact inMulti_touchWatchedKeys e keys p
  · cases ht
    rfl

theorem runCommand_of_dispatch (name : Bytes) (hd : dispatch rt (ω []) (scripts ω) e own cmd args = .ok (v, w, e₁))
    (hkeys : ∃ keys, extractCommandKeys cmd args = .ok keys) (hm : ¬ MemoryOver ω e₁) (h : e₁.Applies own) :
    ∃ v' e', runCommand rt scripts ω e own name args cmd = .ok (v', e') ∧ e'.ks = e₁.ks ∧ e'.maxMemory = e₁.maxMemory ∧
      e'.Applies own := by
  obtain ⟨keys, hkeys⟩ := hkeys
  obtain ⟨e₂, ht⟩ : ∃ e₂, touchKeys e₁ cmd args w = .ok e₂ := by
    unfold touchKeys
    split
    · exact ⟨_, by rw [hkeys]; rfl⟩
    · exact ⟨e₁, rfl⟩
  have h₂ := applies_touchKeys h ht
  obtain ⟨s, rfl⟩ := touchKeys_eq ht
  obtain ⟨ks, n, hme⟩ := memoryCheck_eq ω { e₁ with sessions := s } w
  have hc : (memoryCheck ω { e₁ with sessions := s } w).1 = false ∧
      (memoryCheck ω { e₁ with sessions := s } w).2.ks = e₁.ks := by
    cases w with
    | false => exact ⟨rfl, rfl⟩
    | true => exact (memoryCheck_iff { e₁ with sessions := s }).2 hm
  have hks : ks = e₁.ks := by simpa only [hme] using hc.2
  refine ⟨v, if w then (memoryCheck ω { e₁ with sessions := s } w).2.persist own (name :: args)
    else (memoryCheck ω { e₁ with sessions := s } w).2, ?_, ?_⟩
  · unfold runCommand
    simp only [hd, ht, hc.1, Bool.false_eq_true, if_false]
  · rw [hme, hks]
    cases w <;> exact ⟨rfl, rfl, h.internal, h₂.idle⟩

theorem ks_getClientSession (e : Engine) (own : Bytes) : (e.getClientSession own).2.ks = e.ks := by
  unfold Engine.getClientSession
  split <;> rfl

theorem memory_getClientSession (e : Engine) (own : Bytes) : (e.getClientSession own).2.maxMemory = e.maxMemory ∧
    (e.getClientSession own).2.memCheckCounter = e.memCheckCounter := by
  unfold Engine.getClientSession
  split <;> exact ⟨rfl, rfl⟩

theorem apply_data (scripts : Scripts) {c : DataCmd} (h : e.Applies own) (hm : ¬ MemoryOver ω e)
    (hc : Cmd.ofName (toUpperFast rt.unicode name) = .data c)
    (ho : ((c.action rt (ω []) args).run (ω []).fastNow e.ks).1 = .ok (v, w)) :
    ∃ v' e', executeCommand rt scripts ω e own (name :: args) = .ok (v', e') ∧
      e'.ks = ((c.action rt (ω []) args).run (ω []).fastNow e.ks).2 ∧ e'.maxMemory = e.maxMemory ∧ e'.Applies own := by
  have hs := (applies_getClientSession h).2
  obtain ⟨hma, hco⟩ := memory_getClientSession e own
  have hks := ks_getClientSession e own
  rw [executeCommand_internal h]
  generalize (e.getClientSession own).2 = e₀ at *
  have hd := dispatch_data rt (ω []) (scripts ω) e₀ own args hc
  rw [hks, ho] at hd
  obtain ⟨v', e', hr, hk, hmx, h'⟩ := runCommand_of_dispatch name hd ⟨_, extractCommandKeys_data hc args⟩
    (by rwa [MemoryOver, hma, hco]) ⟨hs.internal, hs.idle⟩
  exact ⟨v', e', hr, hk, hmx.trans hma, h'⟩

theorem apply_data_error {c : DataCmd} {s : Stop} (h : e.Applies own) (hc : Cmd.ofName (toUpperFast rt.unicode name) = .data c)
    (ho : ((c.action rt (ω []) args).run (ω []).fastNow e.ks).1 = .error s) :
    executeCommand rt scripts ω e own (name :: args) = .error s := by
  have hd := dispatch_data rt (ω []) (scripts ω) (e.getClientSession own).2 own args hc
  rw [ks_getClientSession, ho] at hd
  rw [executeCommand_internal h, runCommand, hd]
  rfl

theorem apply_unknown (scripts : Scripts) (ω : Env) (args : List Bytes) (h : e.Applies own)
    (hc : Cmd.ofName (toUpperFast rt.unicode name) = .unknown) :
    ∃ v' e', executeCommand rt scripts ω e own (name :: args) = .ok (v', e') ∧ e'.ks = e.ks ∧ e'.maxMemory = e.maxMemory ∧
      e'.Applies own := by
  refine ⟨.error (lit "ERR unknown command '" ++ toUpperFast rt.unicode name ++ lit "'"), (e.getClientSession own).2, ?_,
    ks_getClientSession e own, (memory_getClientSession e own).1, (applies_getClientSession h).2⟩
  rw [executeCommand_internal h]
  unfold runCommand dispatch
  rw [hc]
  rfl

theorem applies_replayEngine (ks : Keyspace) : (replayEngine ks).Applies aofReplay :=
  ⟨.inr rfl, fun p hp => by cases (Finmap.lookup_empty (β := fun _ => Nat) aofReplay).symm.trans hp⟩

theorem not_memoryOver (h : e.maxMemory = 0) : ¬ MemoryOver ω e := fun ho => by
  have := ho.1
  omega

end

/-! ### Sequences of commands -/

def Keyspace.apply (rt : Runtime) (r : Readings) (ks : Keyspace) : Command → Except Stop Keyspace
  | [] => .ok ks
  | name :: args => match Cmd.ofName (toUpperFast rt.unicode name) with
    | .data c => ((c.action rt r args).run r.fastNow ks).1.map fun _ => ((c.action rt r args).run r.fastNow ks).2
    | _ => .ok ks

def Keyspace.applyAll (rt : Runtime) (ω : Env) : Nat → List Command → Keyspace → Except Stop Keyspace
  | _, [], ks => .ok ks
  | i, c :: cs, ks => (ks.apply rt (ω.sub i []) c).bind (applyAll rt ω (i + 1) cs)

/-- The commands that work on the keyspace and on nothing else. -/
def OnKeyspace (rt : Runtime) : Command → Prop
  | [] => True
  | name :: _ => (∃ c, Cmd.ofName (toUpperFast rt.unicode name) = .data c) ∨ Cmd.ofName (toUpperFast rt.unicode name) = .unknown

section

variable {rt : Runtime} {ω : Env} {e e' : Engine} {own : Bytes} {ks ks' ks₁ : Keyspace} {c : Command} {cs cs' : List Command} {i : Nat}

theorem apply_ok (h : e.Applies own) (hm : e.maxMemory = 0) (hc : OnKeyspace rt c) (hks : e.ks.apply rt (ω []) c = .ok ks') :
    ∃ v e', executeCommand rt (luaScripts rt) ω e own c = .ok (v, e') ∧ e'.ks = ks' ∧ e'.maxMemory = 0 ∧ e'.Applies own := by
  rcases c with _ | ⟨name, args⟩
  · cases hks
    refine ⟨.error "ERR empty command", (e.getClientSession own).2, rfl, ks_getClientSession e own, ?_,
      (applies_getClientSession h).2⟩
    rw [(memory_getClientSession e own).1, hm]
  rcases hc with ⟨c, hc⟩ | hc
  · simp only [Keyspace.apply, hc] at hks
    cases ho : ((c.action rt (ω []) args).run (ω []).fastNow e.ks).1 with
    | error s => rw [ho] at hks; cases hks
    | ok x =>
      rw [ho] at hks
      cases hks
      obtain ⟨v, e', he, hks, hma, h'⟩ := apply_data (luaScripts rt) h (not_memoryOver hm) hc ho
      exact ⟨v, e', he, hks, hma.trans hm, h'⟩
  · simp only [Keyspace.apply, hc] at hks
    cases hks
    obtain ⟨v, e', he, hks, hma, h'⟩ := apply_unknown (luaScripts rt) ω args h hc
    exact ⟨v, e', he, hks, hma.trans hm, h'⟩

theorem applyCommands_ok (h : e.Applies own) (hm : e.maxMemory = 0) (hcs : ∀ c ∈ cs, OnKeyspace rt c)
    (hks : Keyspace.applyAll rt ω i cs e.ks = .ok ks') :
    ∃ e', applyCommands rt own ω i cs e = .ok e' ∧ e'.ks = ks' ∧ e'.maxMemory = 0 ∧ e'.Applies own := by
  induction cs generalizing e i with
  | nil =>
    cases hks
    exact ⟨e, rfl, rfl, hm, h⟩
  | cons c cs ih =>
    obtain ⟨ks₁, hc, hr⟩ := Except.bind_eq_ok hks
    obtain ⟨v, e₁, he, rfl, hm', h₁⟩ := apply_ok h hm (hcs c (by simp)) hc
    obtain ⟨e', ha, hen⟩ := ih h₁ hm' (fun c hc => hcs c (by simp [hc])) hr
    refine ⟨e', ?_, hen⟩
    rw [applyCommands, he]
    exact ha

theorem applyAll_append : Keyspace.applyAll rt ω i (cs ++ cs') ks =
    (Keyspace.applyAll rt ω i cs ks).bind (Keyspace.applyAll rt ω (i + cs.length) cs') := by
  induction cs generalizing i ks with
  | nil => rfl
  | cons c cs ih =>
    rw [List.cons_append, Keyspace.applyAll, Keyspace.applyAll, List.length_cons]
    cases hc : ks.apply rt (ω.sub i []) c with
    | error s => rfl
    | ok ks₁ =>
      refine ih.trans ?_
      rw [show i + 1 + cs.length = i + (cs.length + 1) by omega]
      rfl

end

end VortexKV
