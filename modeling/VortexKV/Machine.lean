import Mathlib.Data.List.Basic

/-!
# Machines that take events one at a time

An event happens in some states and leads to the next one (`step`); `run` takes a list of events. What each
event keeps, in the states where `P` allows it, a run keeps whose events are all allowed (`Along.run`).
-/

namespace Machine

variable {σ ε : Type} (step : ε → σ → Option σ)

def run : List ε → σ → Option σ
  | [], s => some s
  | ev :: evs, s => (step ev s).bind (run evs)

/-- Each event of the run happens in a state where `P` allows it. -/
def Along (P : σ → ε → Prop) : List ε → σ → Prop
  | [], _ => True
  | ev :: evs, s => P s ev ∧ ∀ s', step ev s = some s' → Along P evs s'

variable {step} {P Q : σ → ε → Prop} {evs : List ε} {s s' : σ}

theorem run_cons {ev : ε} : run step (ev :: evs) s = some s' ↔ ∃ s₁, step ev s = some s₁ ∧ run step evs s₁ = some s' :=
  Option.bind_eq_some_iff

theorem run_append {evs' : List ε} :
    run step (evs ++ evs') s = (run step evs s).bind (run step evs') := by
  induction evs generalizing s with
  | nil => rfl
  | cons ev evs ih =>
    rw [List.cons_append, run, run, Option.bind_assoc]
    exact congrArg _ (funext fun _ => ih)

theorem Along.run {I : σ → Prop} (hstep : ∀ {s ev s'}, P s ev → I s → step ev s = some s' → I s')
    (h : Along step P evs s) (hs : I s) (hr : Machine.run step evs s = some s') : I s' := by
  induction evs generalizing s with
  | nil =>
    cases hr
    exact hs
  | cons ev evs ih =>
    obtain ⟨s₁, h₁, hr⟩ := run_cons.1 hr
    exact ih (h.2 s₁ h₁) (hstep h.1 hs h₁) hr

end Machine
