import VortexKV.Executor
import VortexKV.Interleaving

/-!
# EXEC among other clients

`executeTransaction` holds no lock from the abort check to its last command, so the commands of other
connections run in between. One dispatch, with what follows it, is one step; `sched` says who comes next.
-/

namespace VortexKV

open Interleaving

/-- A command that another client dispatches; `queued` when it comes from that client's own transaction. -/
structure Other where
  env : Env
  connID : Bytes
  args : Command
  queued : Bool

section

variable (rt : Runtime)

def Other.step (o : Other) : Step Engine Stop Value := fun e =>
  if o.queued then runQueued rt (luaScripts rt) o.env e o.connID o.args
  else match o.args with
    | [] => .ok (.error "ERR empty command", e)
    | name :: args => runCommand rt (luaScripts rt) o.env e o.connID name args (toUpperFast rt.unicode name)

def queueSteps (ω : Env) (connID : Bytes) : Nat → List Command → List (Step Engine Stop Value)
  | _, [] => []
  | i, c :: queue => (fun e => runQueued rt (luaScripts rt) (ω.sub i) e connID c) :: queueSteps ω connID (i + 1) queue

/-- The steps in the order of the schedule, in which `none` is the turn of the queue. When the schedule ends,
what is left of the queue follows. -/
def turns : List (Option Other) → List (Step Engine Stop Value) → List (Step Engine Stop Value ⊕ Step Engine Stop Value)
  | [], steps => steps.map .inl
  | none :: sched, [] => turns sched []
  | none :: sched, f :: steps => .inl f :: turns sched steps
  | some o :: sched, steps => .inr (o.step rt) :: turns sched steps

/-- `EXEC` with other clients' commands coming in between: its reply, theirs, and the engine. -/
def interleavedExec (ω : Env) (e : Engine) (connID : Bytes) (p : Nat) (sched : List (Option Other)) :
    Except Stop (Value × List Value × Engine) :=
  let (queue, aborted, e) := closeTransaction e p
  if aborted then (runAll ((sched.filterMap id).map (Other.step rt)) e).map fun (ws, e) => (.nil, ws, e)
  else (runMixed (turns rt sched (queueSteps rt ω connID 0 queue)) e).map fun (vs, ws, e) => (.ofArray vs, ws, e)

variable {rt}

theorem runAll_queueSteps (ω : Env) (connID : Bytes) (i : Nat) (queue : List Command) (e : Engine) :
    runAll (queueSteps rt ω connID i queue) e = runQueue rt (luaScripts rt) ω connID i queue e := by
  induction queue generalizing i e with
  | nil => rfl
  | cons c queue ih =>
    simp only [queueSteps, runAll, runQueue]
    rcases runQueued rt (luaScripts rt) (ω.sub i) e connID c with s | ⟨v, e₁⟩
    · rfl
    · simp only [Except.bind, ih]

theorem lefts_turns (sched : List (Option Other)) (steps : List (Step Engine Stop Value)) :
    lefts (turns rt sched steps) = steps := by
  induction sched, steps using turns.induct with
  | case1 steps => simp [turns, lefts, List.filterMap_map, Function.comp_def]
  | case2 sched ih => simpa only [turns] using ih
  | case3 sched f steps ih => exact congrArg (f :: ·) ih
  | case4 o sched steps ih => exact ih

theorem rights_turns (sched : List (Option Other)) (steps : List (Step Engine Stop Value)) :
    rights (turns rt sched steps) = (sched.filterMap id).map (Other.step rt) := by
  induction sched, steps using turns.induct with
  | case1 steps => simp [turns, rights, List.filterMap_map, Function.comp_def]
  | case2 sched ih => exact ih
  | case3 sched f steps ih => exact ih
  | case4 o sched steps ih => exact congrArg (Other.step rt o :: ·) ih

end

end VortexKV
