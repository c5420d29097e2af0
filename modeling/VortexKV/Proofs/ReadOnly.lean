import VortexKV.Proofs.Access
import VortexKV.Proofs.Reads

/-!
# Read-only replicas and read-only users

The lists of commands that a read-only replica and a read-only user are refused leave out commands that write, `EXEC` runs
its queue without asking again, and a script's calls have no user. Where a run keeps clear of these, the keyspace only
changes by expiry: `replica_readOnly`, `user_readOnly`.
-/

namespace VortexKV

open KeyedStore List

/-! ### Dispatches that write nothing -/

/-- The command reads: a data command that does not write, or a WebAssembly function without writes. -/
structure DispatchEvent.Harmless (rt : Runtime) (d : DispatchEvent) : Prop where
  data : ∀ c, Cmd.ofName d.cmd = .data c → c.isRead = true ∨ c = .xreadgroup
  group : Cmd.ofName d.cmd = .data .xreadgroup →
    ¬ DataCmd.xreadgroup.Unlogged rt (d.env []).fastNow d.before.ks d.args
  wasm : ∀ prog, Cmd.ofName d.cmd = .wasm → wasmProg rt (d.env []) d.before d.args = some prog → prog.ReadOnly

section

variable {rt : Runtime} {d : DispatchEvent} {e e' : Engine} {own cmd : Bytes} {args : List Bytes} {p : Nat}

theorem finish_false (h : d.finish false e = .ok e') : e' = e := by
  unfold DispatchEvent.finish at h
  simp only [touchKeys, memoryCheck, Bool.false_eq_true, false_and, if_false, Bool.not_false, true_or, if_true,
    Except.map, ite_self] at h
  cases h
  rfl

theorem DispatchEvent.Harmless.unchanged (h : d.Harmless rt) (hl : d.Leads rt e') : d.Unchanged e'.ks := by
  obtain ⟨v, w, e₁, hr, hf⟩ := hl
  intro k
  by_cases hd : ∃ c, Cmd.ofName d.cmd = .data c
  · obtain ⟨c, hc⟩ := hd
    obtain ⟨ho, rfl⟩ := dispatch_data_eq hc hr
    have hs : Keyspace.view (d.env []).fastNow ((c.action rt (d.env []) d.args).run (d.env []).fastNow d.before.ks).2 k =
        Keyspace.view (d.env []).fastNow d.before.ks k ∧ w = false := by
      rcases h.data c hc with hre | rfl
      · obtain ⟨hv, hfl⟩ := read_action rt (d.env []) d.args hre (d.env []).fastNow d.before.ks
        exact ⟨hv k, hfl v w ho⟩
      · refine ⟨?_, (unflagged_handleXReadGroup rt (d.env []) d.args).run (S := ksStep (d.env []).fastNow) d.before.ks v w ho⟩
        by_contra hk
        exact (data_view_ne (h.group hc) hk).1
    obtain ⟨hv, rfl⟩ := hs
    obtain rfl := finish_false hf
    exact hv
  · have he := dispatch_effect (fun c hc => hd ⟨c, hc⟩) hr
    obtain rfl := he.write
    obtain rfl := finish_false hf
    by_cases hw : Cmd.ofName d.cmd = .wasm
    · have hwa : handleWasm rt (d.env []) d.before d.args = .ok (v, false, e') := by
        simpa only [DispatchEvent.result, dispatch, hw] using hr
      rcases ks_handleWasm hwa with hks | ⟨prog, hp, hks, -⟩
      · rw [hks]
      · rw [hks]
        exact view_runWasm (h.wasm prog hw hp) _ _ _
    · rw [he.ks hw]

/-! ### Read-only replicas -/

def Engine.ReadOnly (e : Engine) : Prop := e.repl.map (·.readOnly) = some true

theorem readOnly_broadcast (args : Command) (rm : Replication) : (rm.broadcast args).readOnly = rm.readOnly := by
  unfold Replication.broadcast
  split <;> rfl

theorem readOnly_finish {w : Bool} (h : d.finish w e = .ok e') : e'.repl.map (·.readOnly) = e.repl.map (·.readOnly) := by
  obtain ⟨s, ks, n, rfl | rfl⟩ := finish_shape h
  · rfl
  · unfold Engine.persist
    split
    · rfl
    · rw [Option.map_map]
      exact congrArg (e.repl.map ·) (funext (readOnly_broadcast _))

theorem DispatchEvent.Leads.readOnly_eq (h : d.Leads rt e') (hc : Cmd.ofName d.cmd ≠ .replicaof) :
    e'.repl.map (·.readOnly) = d.before.repl.map (·.readOnly) := by
  obtain ⟨v, w, e₁, hr, hf⟩ := h
  rw [readOnly_finish hf]
  by_cases hd : ∃ c, Cmd.ofName d.cmd = .data c
  · obtain ⟨c, hc⟩ := hd
    rw [(dispatch_data_eq hc hr).2]
  · rw [(dispatch_effect (fun c hc => hd ⟨c, hc⟩) hr).repl hc]

theorem DispatchEvent.Leads.readOnly (h : d.Leads rt e') (hc : Cmd.ofName d.cmd ≠ .replicaof)
    (hro : d.before.ReadOnly) : e'.ReadOnly := (h.readOnly_eq hc).trans hro

def DataCmd.unguarded : DataCmd → Bool
  | setnx | setex | psetex | pexpire => true
  | _ => false

theorem isRead_of_unlisted {c : DataCmd} (hc : Cmd.ofName cmd = .data c) (hl : isWriteCommand cmd = false)
    (hu : c.unguarded = false) : c.isRead = true ∨ c = .xreadgroup := by
  simpa [hl, hu] using of_commandTable (P := fun cmd c => isWriteCommand cmd || c.unguarded || c.isRead || c = .xreadgroup)
    (by decide) hc

/-- What a dispatch on a read-only replica must keep clear of. -/
structure DispatchEvent.Guarded (rt : Runtime) (d : DispatchEvent) : Prop where
  data : ∀ c, Cmd.ofName d.cmd = .data c → c.unguarded = false
  group : Cmd.ofName d.cmd = .data .xreadgroup →
    ¬ DataCmd.xreadgroup.Unlogged rt (d.env []).fastNow d.before.ks d.args
  wasm : ∀ prog, Cmd.ofName d.cmd = .wasm → wasmProg rt (d.env []) d.before d.args = some prog → prog.ReadOnly
  -- `EXEC` reads the name of a queued command by other case tables than the guard
  name : isWriteCommand d.cmd = true → isWriteCommand (toUpperFast rt.unicode d.name) = true

def Unlisted (rt : Runtime) (c : Command) : Prop :=
  ∀ name args, c = name :: args → isWriteCommand (toUpperFast rt.unicode name) = false

def Engine.QueuesUnlisted (rt : Runtime) (e : Engine) : Prop := ∀ p, ∀ c ∈ (e.sessions p).txQueue, Unlisted rt c

/-- A dispatch while the replica is and stays read-only, at a time up to `T`. -/
structure ReplicaDispatch (rt : Runtime) (T : Int) (d : DispatchEvent) : Prop where
  guarded : d.Guarded rt
  stays : ∀ e', d.Leads rt e' → e'.ReadOnly
  time : (d.env []).fastNow ≤ T

/-- From `e` to `e'` the replica stays read-only and looks the same to later readers. -/
def ReplicaKept (rt : Runtime) (T : Int) (own : Bytes) (_ : Prop) (e : Engine) (tr : List DispatchEvent)
    (e' : Engine) : Prop :=
  own ≠ replicaStream → own ≠ aofReplay → (∀ d ∈ tr, ReplicaDispatch rt T d) →
    e.ReadOnly ∧ e.QueuesUnlisted rt → (e'.ReadOnly ∧ e'.QueuesUnlisted rt) ∧
      ∀ k, Keyspace.view T e'.ks k = Keyspace.view T e.ks k

theorem unlisted_of_guards {s : ClientSession} (hro : e.ReadOnly) (h₁ : own ≠ replicaStream) (h₂ : own ≠ aofReplay)
    (hg : guards rt e s own cmd args = .ok none) : isWriteCommand cmd = false := by
  by_contra hw
  exact (guards_passed hg).replica ⟨hro, h₁, h₂, by simpa using hw⟩

theorem DispatchEvent.Guarded.harmless (h : d.Guarded rt) (hl : isWriteCommand d.cmd = false) : d.Harmless rt :=
  ⟨fun c hc => isRead_of_unlisted hc hl (h.data c hc), h.group, h.wasm⟩

theorem replica_chains {T : Int} : Chains rt (fun e => e.ReadOnly ∧ e.QueuesUnlisted rt) (fun _ => Unlisted rt)
    (ReplicaKept rt T) where
  nil e := fun _ _ _ hi => ⟨hi, fun _ => rfl⟩
  trans h h' := by
    intro h₁ h₂ hd hi
    obtain ⟨hiv, hvi⟩ := h h₁ h₂ (fun d hd' => hd d (by simp [hd'])) hi
    obtain ⟨hin, hv⟩ := h' h₁ h₂ (fun d hd' => hd d (by simp [hd'])) hiv
    exact ⟨hin, fun k => (hv k).trans (hvi k)⟩
  script h := fun _ _ => h (by decide) (by decide)
  move hm := by
    rintro h₁ h₂ _ ⟨hro, hq⟩
    have hs := hm.silent
    refine ⟨⟨?_, ?_⟩, fun k => by rw [hs.ks]⟩
    · rw [Engine.ReadOnly, hs.repl]
      exact hro
    · rcases hm.access.2.2 with hst | ⟨q, name, args, -, hg, rfl⟩
      · exact fun p => SessionSteps.queue hst (hq p)
      · intro p c hc
        by_cases hp : p = q
        · subst hp
          simp only [Engine.setSession, Function.update_self, mem_append, mem_singleton] at hc
          rcases hc with hc | rfl
          · exact hq p c hc
          · rintro _ _ ⟨⟩
            exact unlisted_of_guards hro h₁ h₂ hg
        · simp only [Engine.setSession, Function.update_of_ne hp] at hc
          exact hq p c hc
  event := by
    rintro own rel e' d ho hsr hl h₁ h₂ hd ⟨hro, hq⟩
    obtain ⟨hgu, hsa, ht⟩ := hd d (by simp)
    subst ho
    have hli : isWriteCommand d.cmd = false := by
      unfold DispatchEvent.Source at hsr
      split at hsr
      · obtain ⟨-, p, -, -, hg⟩ := hsr
        exact unlisted_of_guards hro h₁ h₂ hg
      · by_contra hw
        have hn := hgu.name (by simpa using hw)
        rw [hsr.2 _ _ rfl] at hn
        cases hn
    refine ⟨⟨hsa e' hl, fun p => SessionSteps.queue hl.access.sessions (hq p)⟩, fun k => ?_⟩
    exact view_later ht ((hgu.harmless hli).unchanged hl k)
  assume h := fun h₁ h₂ hd hi => h hi h₁ h₂ hd hi
  queued hi _ hc := hi.2 _ _ hc

theorem extractCommandKeys_ok (h₁ : cmd ≠ lit "EVAL") (h₂ : cmd ≠ lit "EVALSHA") (args : List Bytes) :
    ∃ keys, extractCommandKeys cmd args = .ok keys := by
  unfold extractCommandKeys
  cases args with
  | nil => exact ⟨_, rfl⟩
  | cons a args =>
    simp only [h₁, h₂, or_self, if_false]
    split_ifs <;> exact ⟨_, rfl⟩

theorem refused_of_listed {s : ClientSession} (hro : e.ReadOnly) (h₁ : own ≠ replicaStream) (h₂ : own ≠ aofReplay)
    (hw : isWriteCommand cmd = true) (args : List Bytes) :
    ∃ msg, guards rt e s own cmd args = .ok (some (.error msg)) := by
  have hne : ∀ s, isWriteCommand s = false → cmd ≠ s := by
    rintro s hs rfl
    rw [hw] at hs
    cases hs
  obtain ⟨keys, hkeys⟩ := extractCommandKeys_ok (hne "EVAL" (by decide)) (hne "EVALSHA" (by decide)) args
  obtain ⟨_ | msg, ho⟩ := @guards_returns rt e s own cmd args keys hkeys
  · exact absurd ⟨hro, h₁, h₂, hw⟩ (guards_passed ho).replica
  · exact ⟨msg, ho⟩

end

/-- A data command that writes is answered with an error and not run. -/
def ClientEvent.Refuses (rt : Runtime) (e : Engine) : ClientEvent → Prop
  | .command own ω (name :: args) => ∀ c, Cmd.ofName (toUpperFast rt.unicode name) = .data c → c.isRead = false →
      c ≠ .xreadgroup → ∃ msg, executeCommand rt (luaScripts rt) ω e own (name :: args) =
        .ok (.error msg, (e.getClientSession own).2)
  | _ => True

/-- A client's step on a replica that is and stays read-only, with none of the commands the guard forgets. -/
structure ReplicaStep (rt : Runtime) (T : Int) (e : Engine) (ev : ClientEvent) : Prop where
  readOnly : e.ReadOnly
  client : ∀ own ω args, ev = .command own ω args → own ≠ replicaStream ∧ own ≠ aofReplay
  sent : ∀ own ω name args c, ev = .command own ω (name :: args) →
    Cmd.ofName (toUpperFast rt.unicode name) = .data c → c.unguarded = false
  dispatch : ∀ d ∈ ev.trace rt e, ReplicaDispatch rt T d

section

variable {rt : Runtime} {T : Int} {e e' : Engine} {ev : ClientEvent}

theorem ReplicaStep.refuses (h : ReplicaStep rt T e ev) : ev.Refuses rt e := by
  rcases ev with ⟨own, ω, _ | ⟨name, args⟩⟩ | own
  · trivial
  · intro c hc hre hg
    obtain ⟨h₁, h₂⟩ := h.client own ω _ rfl
    have hw : isWriteCommand (toUpperFast rt.unicode name) = true := by
      by_contra hw
      rcases isRead_of_unlisted hc (by simpa using hw) (h.sent own ω name args c rfl hc) with hr | hr
      · rw [hr] at hre; cases hre
      · exact hg hr
    have hro : (e.getClientSession own).2.ReadOnly := by
      have hs : Silent own True e _ := silent_getClientSession e
      rw [Engine.ReadOnly, hs.repl]
      exact h.readOnly
    obtain ⟨msg, hm⟩ := @refused_of_listed rt _ own _ ((e.getClientSession own).2.sessions (e.getClientSession own).1)
      hro h₁ h₂ hw args
    refine ⟨msg, ?_⟩
    simp only [executeCommand, executeCommandWithSession, hm]
  · trivial

theorem ReplicaStep.kept (h : ReplicaStep rt T e ev) (hq : e.QueuesUnlisted rt) (hstep : ev.step rt e = .ok e') :
    e'.QueuesUnlisted rt ∧ ∀ k, e'.ks.view T k = e.ks.view T k := by
  cases ev with
  | command own ω args =>
    obtain ⟨v, hx⟩ := step_command hstep
    obtain ⟨h₁, h₂⟩ := h.client own ω args rfl
    obtain ⟨hi, hv⟩ := command_chain replica_chains (fun h => h) hx h₁ h₂ h.dispatch ⟨h.readOnly, hq⟩
    exact ⟨hi.2, hv⟩
  | disconnect own =>
    cases hstep
    unfold Engine.clearClientSession
    split <;> exact ⟨hq, fun _ => rfl⟩

end

/-- While a replica is read-only, no run of its clients that keeps clear of the commands the guard forgets changes
the keyspace but by expiry, and every command that writes is refused. -/
theorem replica_readOnly {rt : Runtime} {T : Int} {evs : List ClientEvent} {e e' : Engine}
    (hqu : e.QueuesUnlisted rt) (hs : Along rt (ReplicaStep rt T) evs e)
    (hr : runClients rt evs e = .ok e') :
    (∀ k, Keyspace.view T e'.ks k = Keyspace.view T e.ks k) ∧ Along rt (fun e ev => ev.Refuses rt e) evs e := by
  have hk := Along.run (R := fun e e' => ∀ k, Keyspace.view T e'.ks k = Keyspace.view T e.ks k) (fun _ _ => rfl)
    (fun h h' k => (h' k).trans (h k)) (fun h hq hstep => h.kept hq hstep) hs hqu hr
  exact ⟨hk.2, hs.mono fun _ _ h => h.refuses⟩

def replicaEngine : Engine :=
  { replayEngine ⟨Finmap.singleton "k" ⟨.string "v", 0, 0⟩, 1⟩ with
    repl := some { role := .replica, readOnly := true }
    sessions := fun _ => { authenticated := true, username := "default" }
    nextSession := 1
    clientSessions := Finmap.singleton "conn-1" 0 }

def replicaRun : List ClientEvent :=
  [.command "conn-1" (.plain 0) ["SET", "k", "w"], .command "conn-1" (.plain 0) ["GET", "k"]]

theorem replica_readOnly_set : ∃ e', runClients .plain replicaRun replicaEngine = .ok e' ∧
    (∀ k, Keyspace.view 0 e'.ks k = Keyspace.view 0 replicaEngine.ks k) ∧
    Along .plain (fun e ev => ev.Refuses .plain e) replicaRun replicaEngine := by
  have hset : Cmd.ofName (toUpperFast Runtime.plain.unicode "SET") = .data .set := by decide
  have hget : Cmd.ofName (toUpperFast Runtime.plain.unicode "GET") = .data .get := by decide
  have hr : (ClientEvent.command "conn-1" (.plain 0) ["SET", "k", "w"]).step .plain replicaEngine =
      .ok replicaEngine := rfl
  have hcl : lit "conn-1" ≠ replicaStream ∧ lit "conn-1" ≠ aofReplay := by decide
  obtain ⟨e', hru⟩ : ∃ e', runClients .plain replicaRun replicaEngine = .ok e' := ⟨_, rfl⟩
  refine ⟨e', hru, replica_readOnly (fun _ _ hc => absurd hc not_mem_nil) ?_ hru⟩
  refine ⟨⟨rfl, fun own ω args h => ?_, fun own ω name args c h hc => ?_, fun d hd => absurd hd not_mem_nil⟩,
    fun e₁ h₁ => ⟨⟨?_, fun own ω args h => ?_, fun own ω name args c h hc => ?_, fun d hd => ?_⟩, fun _ _ => trivial⟩⟩
  · cases h; exact hcl
  · cases h
    rw [hset] at hc
    cases hc
    rfl
  · rw [hr] at h₁; cases h₁; rfl
  · cases h; exact hcl
  · cases h
    rw [hget] at hc
    cases hc
    rfl
  · rw [hr] at h₁
    cases h₁
    obtain rfl : d = ⟨.plain 0, replicaEngine, "conn-1", "GET", "GET", ["k"], true⟩ := mem_singleton.1 hd
    have hcm : Cmd.ofName (lit "GET") = .data .get := hget
    refine ⟨⟨fun c hc => ?_, fun hc => ?_, fun prog hc => ?_, fun hw => hw⟩, fun e' hl => ?_, le_refl _⟩
    · rw [hcm] at hc
      cases hc
      rfl
    · rw [hcm] at hc; cases hc
    · rw [hcm] at hc; cases hc
    · exact hl.readOnly (by rw [hcm]; simp) rfl

/-- `SETNX` is not on the guard's list: on a read-only replica it is answered with 1 and creates its key. -/
theorem replica_setnx : ∃ e', replicaEngine.ReadOnly ∧
    executeCommand .plain (luaScripts .plain) (.plain 0) replicaEngine "conn-1" ["SETNX", "n", "w"] =
      .ok (.integer 1, e') ∧ e'.ReadOnly ∧
    Keyspace.view 0 replicaEngine.ks "n" = none ∧ Keyspace.view 0 e'.ks "n" = some (.string "w", 0) :=
  ⟨_, rfl, rfl, rfl, by decide, by decide⟩

end VortexKV
