import VortexKV.Proofs.DataEffects
import VortexKV.Proofs.MemoryCheck
import VortexKV.Proofs.Path

/-!
# Which changes reach the log

A dispatch is `Recorded` when it leaves the live keyspace alone or its command is logged and broadcast. This fails for
`DataCmd.Unlogged`, for WebAssembly functions that write, and when the memory check finds the limit exceeded.
-/

namespace VortexKV

open KeyedStore List

/-! ### WebAssembly -/

def WasmProg.ReadOnly : WasmProg → Prop
  | done _ => True
  | get _ next => ∀ x, (next x).ReadOnly
  | set .. => False
  | del .. => False

def wasmProg (rt : Runtime) (r : Readings) (e : Engine) (args : List Bytes) : Option WasmProg :=
  match e.wasm, args with
  | some fns, sub :: name :: params =>
    if toUpper rt.unicode sub = lit "CALL" then
      (fns.lookup name).map fun fn => r.wasm fn.bytecode name (params.map fun a => (parseInt64 a).getD 0)
    else none
  | _, _ => none

theorem view_runWasm {prog : WasmProg} (h : prog.ReadOnly) (now : Int) (ks : Keyspace) (k : Bytes) :
    Keyspace.view now (runWasm now prog ks).2 k = ks.view now k := by
  induction prog generalizing ks with
  | done v => rfl
  | get key next ih => exact (ih _ (h _) _).trans (view_run_get now key ks k)
  | set key val next ih => exact h.elim
  | del key next ih => exact h.elim

/-! ### One dispatch -/

namespace DispatchEvent

variable (rt : Runtime) (d : DispatchEvent)

def Unchanged (ks : Keyspace) : Prop :=
  ∀ k, Keyspace.view (d.env []).fastNow ks k = Keyspace.view (d.env []).fastNow d.before.ks k

end DispatchEvent

section

variable {rt : Runtime} {d : DispatchEvent} {e e' : Engine} {w : Bool} {cmd : Bytes} {args : List Bytes}

theorem finish_shape (h : d.finish w e = .ok e') : ∃ s ks n,
    e' = { e with sessions := s, ks := ks, memCheckCounter := n } ∨
      e' = ({ e with sessions := s, ks := ks, memCheckCounter := n } : Engine).persist d.connID (d.name :: d.args) := by
  obtain ⟨e₁, ht, ks, n, hf⟩ := finish_cases h
  obtain ⟨s, rfl⟩ := touchKeys_eq ht
  exact ⟨s, ks, n, hf⟩

theorem finish_eq (hm : d.checked = true → ¬ MemoryOver d.env e) (h : d.finish w e = .ok e') :
    e'.ks = e.ks ∧
      e'.aof = (if w then e.aof.map (writeCommand · (d.name :: d.args)) else e.aof) ∧
      e'.repl = if w ∧ d.connID ≠ replicaStream then e.repl.map (Replication.broadcast (d.name :: d.args))
        else e.repl := by
  have hp : ∀ e₁ : Engine, (if w then e₁.persist d.connID (d.name :: d.args) else e₁).ks = e₁.ks ∧
      (if w then e₁.persist d.connID (d.name :: d.args) else e₁).aof =
        (if w then e₁.aof.map (writeCommand · (d.name :: d.args)) else e₁.aof) ∧
      (if w then e₁.persist d.connID (d.name :: d.args) else e₁).repl =
        if w ∧ d.connID ≠ replicaStream then e₁.repl.map (Replication.broadcast (d.name :: d.args))
        else e₁.repl := by
    cases w with
    | false => simp
    | true => by_cases hid : d.connID = replicaStream <;> simp [Engine.persist, hid]
  unfold DispatchEvent.finish at h
  split at h
  · rename_i hch
    cases ht : touchKeys e d.cmd d.args w with
    | error stop => rw [ht] at h; cases h
    | ok e₁ =>
      obtain ⟨s, rfl⟩ := touchKeys_eq ht
      rw [ht] at h
      have hc : (memoryCheck d.env { e with sessions := s } w).1 = false ∧
          (memoryCheck d.env { e with sessions := s } w).2.ks = e.ks := by
        cases w with
        | false => exact ⟨rfl, rfl⟩
        | true => exact (memoryCheck_iff { e with sessions := s }).2 (hm hch)
      obtain ⟨ks, n, hme⟩ := memoryCheck_eq d.env { e with sessions := s } w
      simp only [Except.map, hc.1, Bool.false_eq_true, if_false, Except.ok.injEq] at h
      rw [hme] at h hc
      subst h
      have hr := hp { e with sessions := s, ks := ks, memCheckCounter := n }
      exact ⟨hr.1.trans hc.2, hr.2⟩
  · obtain ⟨s, rfl⟩ := touchKeys_eq h
    exact hp e

theorem ks_handleWasm {r : Readings} {v : Value} (h : handleWasm rt r e args = .ok (v, w, e')) :
    e'.ks = e.ks ∨ ∃ prog, wasmProg rt r e args = some prog ∧ e'.ks = (runWasm r.fastNow prog e.ks).2 ∧
      v = (runWasm r.fastNow prog e.ks).1 := by
  unfold handleWasm at h
  cases hw : e.wasm with
  | none => rw [hw] at h; cases h; exact .inl rfl
  | some fns =>
    rw [hw] at h
    rcases args with _ | ⟨sub, args⟩
    · cases h; exact .inl rfl
    dsimp only at h
    split at h
    · left
      unfold wasmLoad at h
      dsimp only at h
      repeat' split at h
      all_goals
        cases h
        rfl
    split at h
    · rename_i hc
      rcases args with _ | ⟨name, params⟩
      · cases h; exact .inl rfl
      simp only [wasmCall] at h
      cases hfn : fns.lookup name with
      | none => rw [hfn] at h; cases h; exact .inl rfl
      | some fn =>
        simp only [hfn] at h
        cases h
        exact .inr ⟨_, by simp only [wasmProg, hw, hc, if_true, hfn, Option.map_some], rfl, rfl⟩
    · left
      repeat' split at h
      all_goals
        cases h
        rfl

def DispatchEvent.isWrite (rt : Runtime) (d : DispatchEvent) : Bool :=
  match d.result rt with
  | .ok (_, w, _) => w
  | .error _ => false

def records (rt : Runtime) (tr : List DispatchEvent) : List Command :=
  (tr.filter (·.isWrite rt)).map fun d => d.name :: d.args

theorem aof_result {v : Value} (h : d.result rt = .ok (v, w, e)) :
    e.aof = d.before.aof ∧ (MemoryOver d.env e → MemoryOver d.env d.before) := by
  by_cases hd : ∃ c, Cmd.ofName d.cmd = .data c
  · obtain ⟨c, hc⟩ := hd
    obtain ⟨-, rfl⟩ := dispatch_data_eq hc h
    exact ⟨rfl, fun ho => ho⟩
  · have he := dispatch_effect (fun c hc => hd ⟨c, hc⟩) h
    refine ⟨he.aof, fun ho => ?_⟩
    rwa [MemoryOver, he.maxMemory, he.memCheckCounter] at ho

theorem Path.aof {own : Bytes} {rel : Prop} {tr : List DispatchEvent} (h : Path rt own rel e tr e')
    (hm : ∀ d ∈ tr, d.checked = true → ¬ MemoryOver d.env d.before) :
    e'.aof = e.aof.map (writeCommands · (records rt tr)) := by
  induction h with
  | nil e => cases e.aof <;> rfl
  | own hs _ ih => rw [ih hm, hs.aof]
  | script hs _ ih => rw [ih hm, hs.aof]
  | event d _ hd _ ih =>
    obtain ⟨v, w, e₁, hr, hf⟩ := hd
    obtain ⟨ha, hov⟩ := aof_result hr
    have hl := (finish_eq (fun hc ho => hm d (by simp) hc (hov ho)) hf).2.1
    have hw : d.isWrite rt = w := by simp only [DispatchEvent.isWrite, hr]
    rw [ih fun d hd => hm d (by simp [hd]), hl, ha]
    cases w with
    | true => simp only [records, filter_cons, hw, if_true, map_cons, Option.map_map]; rfl
    | false => simp only [records, filter_cons, hw, Bool.false_eq_true, if_false]

end

def loggingEngine : Engine :=
  { replayEngine Keyspace.empty with
    aof := some []
    repl := some { replicas := [⟨"replica", []⟩] }
    sessions := fun _ => { authenticated := true, username := "default" }
    nextSession := 1
    clientSessions := Finmap.singleton "conn-1" 0 }

end VortexKV
