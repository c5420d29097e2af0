import VortexKV.Proofs.DispatchEffects

/-!
# What the executor does with a command

It refuses the command, buffers it, ends a transaction or runs it (`Handles`). To run a command of a client and one of a queue
is the same: a dispatch and what follows it, or the script it starts (`runEvent`).
-/

namespace VortexKV

section

variable (rt : Runtime)

namespace DispatchEvent

variable (d : DispatchEvent)

/-- The memory check may refuse a command after it ran. -/
def answer (v : Value) (isWrite : Bool) (e : Engine) : Value :=
  if d.checked && (memoryCheck d.env e isWrite).1 then oom else v

def outcome : Executed :=
  (d.result rt).bind fun (v, isWrite, e) => (d.finish isWrite e).map (d.answer v isWrite e, ·)

end DispatchEvent

def runEvent (scripts : Scripts) (d : DispatchEvent) : Executed :=
  match scriptOf rt (d.env []) d.before d.cmd d.args with
  | some (prog, start) => scripts d.env prog start
  | none => d.outcome rt

end

section

variable {rt : Runtime} {scripts : Scripts} {ω : Env} {e e' : Engine} {p : Nat} {own name : Bytes} {args : List Bytes} {v : Value}
  {d : DispatchEvent}

theorem DispatchEvent.outcome_ok : d.outcome rt = .ok (v, e') ↔
    ∃ v' w e, d.result rt = .ok (v', w, e) ∧ d.finish w e = .ok e' ∧ v = d.answer v' w e := by
  constructor
  · intro h
    obtain ⟨⟨v', w, e⟩, hr, h⟩ := Except.bind_eq_ok h
    obtain ⟨e₁, hf, heq⟩ := Except.map_eq_ok h
    cases heq
    exact ⟨v', w, e, hr, hf, rfl⟩
  · rintro ⟨v', w, e, hr, hf, rfl⟩
    rw [DispatchEvent.outcome, hr]
    simp only [Except.bind, hf, Except.map]

theorem runCommand_eq (scripts : Scripts) (ω : Env) (e : Engine) (own name : Bytes) (args : List Bytes) (cmd : Bytes) :
    runCommand rt scripts ω e own name args cmd = runEvent rt scripts ⟨ω, e, own, cmd, name, args, true⟩ := by
  unfold runCommand runEvent
  rw [dispatch_eq]
  dsimp only
  rcases scriptOf rt (ω []) e cmd args with _ | ⟨prog, start⟩
  · simp only [DispatchEvent.outcome, DispatchEvent.result]
    rcases dispatch rt (ω []) (fun _ _ => .error .hang) e own cmd args with s | ⟨v, w, e₁⟩
    · rfl
    simp only [Except.bind, DispatchEvent.finish, DispatchEvent.answer, if_true, Bool.true_and]
    cases ht : touchKeys e₁ cmd args w with
    | error s => rfl
    | ok e₂ =>
      obtain ⟨s, rfl⟩ := touchKeys_eq ht
      simp only [Except.map, memoryCheck_withSessions]
      split_ifs <;> rfl
  · dsimp only
    cases scripts ω prog start <;> rfl

theorem runQueued_eq (scripts : Scripts) (ω : Env) (e : Engine) (own name : Bytes) (args : List Bytes) :
    runQueued rt scripts ω e own (name :: args) = runEvent rt scripts ⟨ω, e, own, toUpper rt.unicode name, name, args, false⟩ := by
  simp only [runQueued, runEvent]
  rw [dispatch_eq]
  rcases scriptOf rt (ω []) e (toUpper rt.unicode name) args with _ | ⟨prog, start⟩
  · simp only [DispatchEvent.outcome, DispatchEvent.result]
    rcases dispatch rt (ω []) (fun _ _ => .error .hang) e own (toUpper rt.unicode name) args with s | ⟨v, w, e₁⟩
    · rfl
    · simp only [Except.bind, DispatchEvent.finish, DispatchEvent.answer, Bool.false_and, Bool.false_eq_true, if_false]
  · dsimp only
    cases scripts ω prog start <;> rfl

theorem runEvent_cases (h : runEvent rt scripts d = .ok (v, e')) :
    (∃ prog start, scriptOf rt (d.env []) d.before d.cmd d.args = some (prog, start) ∧ scripts d.env prog start = .ok (v, e')) ∨
      scriptOf rt (d.env []) d.before d.cmd d.args = none ∧ d.outcome rt = .ok (v, e') := by
  unfold runEvent at h
  rcases hsc : scriptOf rt (d.env []) d.before d.cmd d.args with _ | ⟨prog, start⟩
  · rw [hsc] at h
    exact .inr ⟨rfl, h⟩
  · rw [hsc] at h
    exact .inl ⟨prog, start, rfl, h⟩

/-! ### Commands of a session -/

/-- What becomes of a command for the session `p`: the reply and the engine. -/
inductive Handles (rt : Runtime) (scripts : Scripts) (ω : Env) (e : Engine) (p : Nat) (own : Bytes) : Command → Value → Engine → Prop
  | empty : Handles rt scripts ω e p own [] (.error "ERR empty command") e
  | refused {name : Bytes} {args : List Bytes} {v : Value}
      (hg : guards rt e (e.sessions p) own (toUpperFast rt.unicode name) args = .ok (some v)) :
      Handles rt scripts ω e p own (name :: args) v e
  | aborted {name : Bytes} {args : List Bytes} (hg : guards rt e (e.sessions p) own (toUpperFast rt.unicode name) args = .ok none)
      (hm : (e.sessions p).inMulti = true) (hc : toUpperFast rt.unicode name = lit "EXEC") (ha : (e.sessions p).txAborted = true) :
      Handles rt scripts ω e p own (name :: args) .nil (closeTransaction e p).2.2
  | exec {name : Bytes} {args : List Bytes} {vs : List Value} {e' : Engine}
      (hg : guards rt e (e.sessions p) own (toUpperFast rt.unicode name) args = .ok none)
      (hm : (e.sessions p).inMulti = true) (hc : toUpperFast rt.unicode name = lit "EXEC") (ha : (e.sessions p).txAborted = false)
      (hq : runQueue rt scripts ω own 0 (e.sessions p).txQueue (closeTransaction e p).2.2 = .ok (vs, e')) :
      Handles rt scripts ω e p own (name :: args) (.ofArray vs) e'
  | discard {name : Bytes} {args : List Bytes} (hg : guards rt e (e.sessions p) own (toUpperFast rt.unicode name) args = .ok none)
      (hm : (e.sessions p).inMulti = true) (hc : toUpperFast rt.unicode name = lit "DISCARD") :
      Handles rt scripts ω e p own (name :: args) ok (closeTransaction e p).2.2
  | nested {name : Bytes} {args : List Bytes} (hg : guards rt e (e.sessions p) own (toUpperFast rt.unicode name) args = .ok none)
      (hm : (e.sessions p).inMulti = true) (hc : toUpperFast rt.unicode name = lit "MULTI") :
      Handles rt scripts ω e p own (name :: args) (.error "ERR MULTI calls can not be nested") e
  | queued {name : Bytes} {args : List Bytes} (hg : guards rt e (e.sessions p) own (toUpperFast rt.unicode name) args = .ok none)
      (hm : (e.sessions p).inMulti = true) (he : toUpperFast rt.unicode name ≠ lit "EXEC")
      (hd : toUpperFast rt.unicode name ≠ lit "DISCARD") : Handles rt scripts ω e p own (name :: args) (.simpleString "QUEUED")
        (e.setSession p fun s => { s with txQueue := s.txQueue ++ [name :: args] })
  | ran {name : Bytes} {args : List Bytes} {v : Value} {e' : Engine}
      (hg : guards rt e (e.sessions p) own (toUpperFast rt.unicode name) args = .ok none) (hm : (e.sessions p).inMulti = false)
      (hr : runEvent rt scripts ⟨ω, e, own, toUpperFast rt.unicode name, name, args, true⟩ = .ok (v, e')) :
      Handles rt scripts ω e p own (name :: args) v e'

theorem session_handles {c : Command} (h : executeCommandWithSession rt scripts ω e p own c = .ok (v, e')) :
    Handles rt scripts ω e p own c v e' := by
  cases c with
  | nil => cases h; exact .empty
  | cons name args =>
    simp only [executeCommandWithSession] at h
    rcases hg : guards rt e (e.sessions p) own (toUpperFast rt.unicode name) args with s | _ | v'
    · rw [hg] at h; cases h
    · rw [hg] at h
      by_cases hm : (e.sessions p).inMulti = true
      · rw [if_pos hm] at h
        unfold bufferCommand at h
        split_ifs at h with he hd hn
        · simp only [executeTransaction] at h
          rw [show (closeTransaction e p).2.1 = (e.sessions p).txAborted from rfl] at h
          split at h
          · rename_i ha
            cases h
            exact .aborted hg hm he ha
          · rename_i ha
            obtain ⟨x, hq, heq⟩ := Except.map_eq_ok h
            cases heq
            exact .exec hg hm he (by simpa using ha) hq
        · cases h; exact .discard hg hm hd
        · cases h; exact .nested hg hm hn
        · cases h; exact .queued hg hm he hd
      · rw [if_neg hm, runCommand_eq] at h
        exact .ran hg (by simpa using hm) h
    · rw [hg] at h; cases h; exact .refused hg

theorem runQueue_cons {i : Nat} {c : Command} {queue : List Command} {vs : List Value}
    (h : runQueue rt scripts ω own i (c :: queue) e = .ok (vs, e')) : ∃ v vs' e₁, runQueued rt scripts (ω.sub i) e own c = .ok (v, e₁) ∧
      runQueue rt scripts ω own (i + 1) queue e₁ = .ok (vs', e') ∧ vs = v :: vs' := by
  simp only [runQueue] at h
  rcases hc : runQueued rt scripts (ω.sub i) e own c with s | ⟨v, e₁⟩
  · rw [hc] at h; cases h
  rw [hc] at h
  obtain ⟨⟨vs', e₂⟩, hq, heq⟩ := Except.map_eq_ok h
  cases heq
  exact ⟨v, vs', e₁, rfl, hq, rfl⟩

theorem runCalls_call {i : Nat} {c : Command} {next : Value → LuaProg} (h : runCalls rt ω i (.call c next) e = .ok (v, e')) :
    ∃ v₁ e₁, executeCommand rt noScripts (ω.sub i) e [] c = .ok (v₁, e₁) ∧ runCalls rt ω (i + 1) (next v₁) e₁ = .ok (v, e') := by
  simp only [runCalls] at h
  rcases hc : executeCommand rt noScripts (ω.sub i) e [] c with s | ⟨v₁, e₁⟩
  · rw [hc] at h; cases h
  · rw [hc] at h
    exact ⟨v₁, e₁, rfl, h⟩

theorem luaScripts_ok {prog : LuaProg} (h : luaScripts rt ω prog e = .ok (v, e')) :
    ∃ e₁, runCalls rt ω 0 prog (e.setCancel true) = .ok (v, e₁) ∧ e' = e₁.setCancel false := by
  obtain ⟨⟨v', e₁⟩, hr, heq⟩ := Except.map_eq_ok h
  cases heq
  exact ⟨e₁, hr, rfl⟩

end

end VortexKV
