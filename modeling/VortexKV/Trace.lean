import VortexKV.Executor

/-!
# What a command runs

A client's command may run many: the queue of a transaction, the calls of a script. `executeTrace` lists the commands that
are dispatched, each with the engine it finds. `Path` says how the engine gets from one to the next.
-/

namespace VortexKV

open List

/-! ### Script commands -/

section

variable (rt : Runtime)

/-- The script run that `Eval` and `EvalSha` come to, if their arguments are in order. -/
def scriptRun (r : Readings) (script numKeys : Bytes) (rest : List Bytes) : Option LuaProg :=
  match parseInt64 numKeys with
  | none => none
  | some n =>
    if n < 0 then none
    else match scriptKeys n rest with
      | .ok (some (keys, argv)) => some (r.lua script keys argv)
      | _ => none

/-- The script that a command runs, and the engine it starts on. -/
def scriptOf (r : Readings) (e : Engine) (cmd : Bytes) (args : List Bytes) : Option (LuaProg × Engine) :=
  match Cmd.ofName cmd, e.lua, args with
  | .eval, some m, script :: n :: rest =>
    (scriptRun r script n rest).map (·, { e with lua := some (m.load rt script) })
  | .evalsha, some m, sha :: n :: rest =>
    (m.scripts.lookup (toLower rt.unicode (toLower rt.unicode sha))).bind fun script =>
      (scriptRun r script n rest).map (·, e)
  | _, _, _ => none

theorem scriptOf_cases {rt : Runtime} {r : Readings} {e start : Engine} {cmd : Bytes} {args : List Bytes} {prog : LuaProg}
    (h : scriptOf rt r e cmd args = some (prog, start)) : (Cmd.ofName cmd = .eval ∨ Cmd.ofName cmd = .evalsha) ∧
      (∃ script n rest, scriptRun r script n rest = some prog) ∧ ∃ lua, start = { e with lua := lua } := by
  unfold scriptOf at h
  split at h
  · obtain ⟨_, hr, heq⟩ := Option.map_eq_some_iff.1 h
    cases heq
    exact ⟨.inl ‹_›, ⟨_, _, _, hr⟩, _, rfl⟩
  · obtain ⟨_, -, h⟩ := Option.bind_eq_some_iff.1 h
    obtain ⟨_, hr, heq⟩ := Option.map_eq_some_iff.1 h
    cases heq
    exact ⟨.inr ‹_›, ⟨_, _, _, hr⟩, _, rfl⟩
  · cases h

theorem runScript_eq (r : Readings) (scripts : LuaProg → Engine → Except Stop (Value × Engine)) (e : Engine)
    (script n : Bytes) (rest : List Bytes) (start : Engine) :
    runScript r scripts e script n rest start =
      match scriptRun r script n rest with
      | some prog => (scripts prog start).map fun (v, e) => (v, false, e)
      | none => runScript r (fun _ _ => .error .hang) e script n rest start := by
  unfold runScript scriptRun
  cases parseInt64 n with
  | none => rfl
  | some n =>
    dsimp only
    split
    · rfl
    · rcases scriptKeys n rest with s | _ | ⟨keys, argv⟩
      · rfl
      · rfl
      · dsimp only
        cases scripts (r.lua script keys argv) start <;> rfl

/-- A command runs its script, or does not depend on how scripts run. -/
theorem dispatch_eq (r : Readings) (scripts : LuaProg → Engine → Except Stop (Value × Engine)) (e : Engine)
    (connID cmd : Bytes) (args : List Bytes) :
    dispatch rt r scripts e connID cmd args =
      match scriptOf rt r e cmd args with
      | some (prog, start) => (scripts prog start).map fun (v, e) => (v, false, e)
      | none => dispatch rt r (fun _ _ => .error .hang) e connID cmd args := by
  cases hc : Cmd.ofName cmd with
  | eval =>
    simp only [dispatch, scriptOf, hc, cmdEval]
    cases e.lua with
    | none => rfl
    | some m =>
      rcases args with _ | ⟨script, _ | ⟨n, rest⟩⟩
      · rfl
      · rfl
      · dsimp only
        rw [runScript_eq]
        cases scriptRun r script n rest <;> rfl
  | evalsha =>
    simp only [dispatch, scriptOf, hc, cmdEvalSha]
    cases e.lua with
    | none => rfl
    | some m =>
      rcases args with _ | ⟨sha, _ | ⟨n, rest⟩⟩
      · rfl
      · rfl
      · dsimp only
        cases m.scripts.lookup (toLower rt.unicode (toLower rt.unicode sha)) with
        | none => rfl
        | some script =>
          dsimp only [Option.bind_some]
          rw [runScript_eq]
          cases scriptRun r script n rest <;> rfl
  | _ => simp only [dispatch, scriptOf, hc]

end

/-! ### Traces -/

/-- A dispatched command and the engine it finds; `checked` when the executor dispatches it, so that the
memory check follows, and not a transaction. -/
structure DispatchEvent where
  env : Env
  before : Engine
  connID : Bytes
  cmd : Bytes
  name : Bytes
  args : List Bytes
  checked : Bool

section

variable (rt : Runtime)

namespace DispatchEvent

variable (d : DispatchEvent)

def result : Dispatched := dispatch rt (d.env []) (fun _ _ => .error .hang) d.before d.connID d.cmd d.args

def finish (isWrite : Bool) (e : Engine) : Except Stop Engine :=
  if d.checked then
    (touchKeys e d.cmd d.args isWrite).map fun e =>
      let (refused, e) := memoryCheck d.env e isWrite
      if refused then e else if isWrite then e.persist d.connID (d.name :: d.args) else e
  else touchKeys (if isWrite then e.persist d.connID (d.name :: d.args) else e) d.cmd d.args isWrite

/-- The event returns and leaves the engine `e'`. -/
def Leads (e' : Engine) : Prop :=
  ∃ v isWrite e, d.result rt = .ok (v, isWrite, e) ∧ d.finish isWrite e = .ok e'

end DispatchEvent

/-- The dispatches of one command: itself, or those of its script. -/
def dispatchTrace (scriptTrace : Env → LuaProg → Engine → List DispatchEvent) (ω : Env) (e : Engine)
    (connID cmd name : Bytes) (args : List Bytes) (checked : Bool) : List DispatchEvent :=
  match scriptOf rt (ω []) e cmd args with
  | some (prog, start) => scriptTrace ω prog start
  | none => [⟨ω, e, connID, cmd, name, args, checked⟩]

def queueTrace (scripts : Scripts) (scriptTrace : Env → LuaProg → Engine → List DispatchEvent) (ω : Env)
    (connID : Bytes) : Nat → List Command → Engine → List DispatchEvent
  | _, [], _ => []
  | i, c :: queue, e =>
    (match c with
      | [] => []
      | name :: args =>
        dispatchTrace rt scriptTrace (ω.sub i) e connID (toUpper rt.unicode name) name args false) ++
    match runQueued rt scripts (ω.sub i) e connID c with
    | .error _ => []
    | .ok (_, e) => queueTrace scripts scriptTrace ω connID (i + 1) queue e

/-- The dispatches of `executeCommandWithSession`. -/
def sessionTrace (scripts : Scripts) (scriptTrace : Env → LuaProg → Engine → List DispatchEvent) (ω : Env)
    (e : Engine) (p : Nat) (connID : Bytes) : Command → List DispatchEvent
  | [] => []
  | name :: args =>
    let cmd := toUpperFast rt.unicode name
    match guards rt e (e.sessions p) connID cmd args with
    | .ok none =>
      if (e.sessions p).inMulti then
        if cmd = lit "EXEC" ∧ (e.sessions p).txAborted = false then
          queueTrace rt scripts scriptTrace ω connID 0 (e.sessions p).txQueue (closeTransaction e p).2.2
        else []
      else dispatchTrace rt scriptTrace ω e connID cmd name args true
    | _ => []

def noScriptTrace : Env → LuaProg → Engine → List DispatchEvent := fun _ _ _ => []

def callsTrace (ω : Env) : Nat → LuaProg → Engine → List DispatchEvent
  | _, .done _, _ => []
  | i, .call args next, e =>
    sessionTrace rt noScripts noScriptTrace (ω.sub i) (e.getClientSession []).2 (e.getClientSession []).1 [] args ++
    match executeCommand rt noScripts (ω.sub i) e [] args with
    | .error _ => []
    | .ok (v, e) => callsTrace ω (i + 1) (next v) e

def luaTrace : Env → LuaProg → Engine → List DispatchEvent := fun ω prog e =>
  callsTrace rt ω 0 prog (e.setCancel true)

def executeTrace (ω : Env) (e : Engine) (p : Nat) (connID : Bytes) (args : Command) : List DispatchEvent :=
  sessionTrace rt (luaScripts rt) (luaTrace rt) ω e p connID args

def commandTrace (ω : Env) (e : Engine) (connID : Bytes) (args : Command) : List DispatchEvent :=
  executeTrace rt ω (e.getClientSession connID).2 (e.getClientSession connID).1 connID args

def ClientEvent.trace : ClientEvent → Engine → List DispatchEvent
  | command own ω args, e => commandTrace rt ω e own args
  | disconnect _, _ => []

/-- Every event of a run satisfies `P` where it happens. -/
def Along (P : Engine → ClientEvent → Prop) : List ClientEvent → Engine → Prop
  | [], _ => True
  | ev :: evs, e => P e ev ∧ ∀ e', ev.step rt e = .ok e' → Along P evs e'

/-! ### Who dispatches -/

variable {rt} {d : DispatchEvent} {scripts : Scripts} {scriptTrace : Env → LuaProg → Engine → List DispatchEvent}
  {ω : Env} {e : Engine} {connID cmd name : Bytes} {args : List Bytes}

theorem Along.mono {P Q : Engine → ClientEvent → Prop} (hPQ : ∀ e ev, P e ev → Q e ev) {evs : List ClientEvent}
    (h : Along rt P evs e) : Along rt Q evs e := by
  induction evs generalizing e with
  | nil => trivial
  | cons ev evs ih => exact ⟨hPQ e ev h.1, fun e' he' => ih (h.2 e' he')⟩

theorem Along.run {P : Engine → ClientEvent → Prop} {Inv : Engine → Prop} {R : Engine → Engine → Prop}
    (hre : ∀ e, R e e) (ht : ∀ {e e₁ e₂}, R e e₁ → R e₁ e₂ → R e e₂)
    (hstep : ∀ {e ev e'}, P e ev → Inv e → ev.step rt e = .ok e' → Inv e' ∧ R e e') {evs : List ClientEvent}
    {e' : Engine} (h : Along rt P evs e) (hi : Inv e) (hr : runClients rt evs e = .ok e') : Inv e' ∧ R e e' := by
  induction evs generalizing e with
  | nil => cases hr; exact ⟨hi, hre _⟩
  | cons ev evs ih =>
    obtain ⟨e₁, hev, hrs⟩ := Except.bind_eq_ok hr
    obtain ⟨hin, hR⟩ := hstep h.1 hi hev
    obtain ⟨hiv, hR'⟩ := ih (h.2 e₁ hev) hin hrs
    exact ⟨hiv, ht hR hR'⟩

end

end VortexKV
