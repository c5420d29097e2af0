import VortexKV.Proofs.Path

/-!
# Two runs of the executor

Two engines may differ in something that a command does not look at. `Simulation` says what this asks of the single steps of
the executor, and `Simulation.session` that a whole command, with its script or its queue, then answers the same on both.
-/

namespace VortexKV

open List

inductive EndRelated {α : Type} (R : α → α → Prop) : Except Stop α → Except Stop α → Prop
  | ok {a b : α} (h : R a b) : EndRelated R (.ok a) (.ok b)
  | error (s : Stop) : EndRelated R (.error s) (.error s)

/-- The same reply, and engines that are again related. -/
def Concur (R : Engine → Engine → Prop) {α : Type} (x y : α × Engine) : Prop := x.1 = y.1 ∧ R x.2 y.2

/-- `R` relates two engines, `K` is what is known of the first one when a connection runs a command with a session, `E` of the
readings and `U` of the dispatches. -/
structure Simulation (rt : Runtime) (E : Env → Prop) (U : DispatchEvent → Prop) (R : Engine → Engine → Prop)
    (K : Bytes → Nat → Engine → Prop) : Prop where
  sub {ω : Env} : E ω → ∀ i, E (ω.sub i)
  path {own : Bytes} {p : Nat} {e e' : Engine} {tr : List DispatchEvent} : K own p e → Path rt own True e tr e' → K own p e'
  guards {own : Bytes} {p : Nat} {e e' : Engine} : K own p e → R e e' → e'.sessions p = e.sessions p ∧
    ∀ cmd args, VortexKV.guards rt e' (e.sessions p) own cmd args = VortexKV.guards rt e (e.sessions p) own cmd args
  close {own : Bytes} {p : Nat} {e e' : Engine} : K own p e → R e e' →
    K own p (closeTransaction e p).2.2 ∧ R (closeTransaction e p).2.2 (closeTransaction e' p).2.2
  setSession {own : Bytes} {p : Nat} {e e' : Engine} (f : ClientSession → ClientSession) :
    K own p e → R e e' → R (e.setSession p f) (e'.setSession p f)
  opens {own : Bytes} {p : Nat} {e e' : Engine} : K own p e → R e e' → (e'.getClientSession []).1 = (e.getClientSession []).1 ∧
    R (e.getClientSession []).2 (e'.getClientSession []).2 ∧ K [] (e.getClientSession []).1 (e.getClientSession []).2
  lua {e e' : Engine} : R e e' → e'.lua = e.lua ∧ ∀ lua, R { e with lua := lua } { e' with lua := lua }
  event {d : DispatchEvent} {p : Nat} {e' : Engine} : K d.connID p d.before → E d.env → U d → R d.before e' →
    EndRelated (Concur R) (d.outcome rt) (DispatchEvent.outcome rt { d with before := e' })

section

variable {α : Type} {rt : Runtime} {E : Env → Prop} {U : DispatchEvent → Prop} {R : Engine → Engine → Prop} {K : Bytes → Nat → Engine → Prop}
  {scripts : Scripts} {scriptTrace : Env → LuaProg → Engine → List DispatchEvent} {ω : Env} {own : Bytes} {p : Nat} {e e' : Engine}

theorem EndRelated.map {β : Type} {R : α → α → Prop} {S : β → β → Prop} {x y : Except Stop α} (h : EndRelated R x y) {f g : α → β}
    (hf : ∀ {a b}, R a b → S (f a) (g b)) : EndRelated S (x.map f) (y.map g) := by
  cases h with
  | ok h => exact .ok (hf h)
  | error s => exact .error s

/-- What follows the dispatch keeps two engines related if touching, logging and the memory check do. -/
theorem outcome_related {d : DispatchEvent}
    (hdi : EndRelated (fun x y => x.1 = y.1 ∧ x.2.1 = y.2.1 ∧ R x.2.2 y.2.2) (d.result rt) (DispatchEvent.result rt { d with before := e' }))
    (ht : ∀ {e e'}, R e e' → e'.watchedCount = e.watchedCount ∧ ∀ keys, R (e.touchWatchedKeys keys) (e'.touchWatchedKeys keys))
    (hp : ∀ {e e'}, R e e' → R (e.persist d.connID (d.name :: d.args)) (e'.persist d.connID (d.name :: d.args)))
    (hm : d.checked = true → ∀ {v w e₁ s e₂}, d.result rt = .ok (v, w, e₁) → R { e₁ with sessions := s } e₂ →
      (memoryCheck d.env e₂ w).1 = (memoryCheck d.env { e₁ with sessions := s } w).1 ∧
        R (memoryCheck d.env { e₁ with sessions := s } w).2 (memoryCheck d.env e₂ w).2) :
    EndRelated (Concur R) (d.outcome rt) (DispatchEvent.outcome rt { d with before := e' }) := by
  have htk : ∀ {e e'} w, R e e' → EndRelated R (touchKeys e d.cmd d.args w) (touchKeys e' d.cmd d.args w) := by
    intro e e' w h
    unfold touchKeys
    rw [(ht h).1]
    split
    · cases extractCommandKeys d.cmd d.args with
      | error s => exact .error s
      | ok keys => exact .ok ((ht h).2 keys)
    · exact .ok h
  have hif : ∀ {e e'} w, R e e' → R (if w = true then e.persist d.connID (d.name :: d.args) else e)
      (if w = true then e'.persist d.connID (d.name :: d.args) else e') := by
    intro e e' w h
    split
    · exact hp h
    · exact h
  unfold DispatchEvent.outcome
  generalize DispatchEvent.result rt { d with before := e' } = y at hdi ⊢
  rcases hx : d.result rt with stop | ⟨v, w, e₁⟩
  · rw [hx] at hdi
    cases hdi
    exact .error stop
  rw [hx] at hdi
  rcases y with stop | ⟨v', w', e₁'⟩
  · cases hdi
  obtain ⟨hab⟩ := hdi
  obtain ⟨rfl, rfl, he⟩ : v = v' ∧ w = w' ∧ R e₁ e₁' := hab
  have ha : (d.answer v w e₁') = d.answer v w e₁ := by
    unfold DispatchEvent.answer
    by_cases hc : d.checked = true
    · rw [(hm hc (s := e₁.sessions) hx he).1]
    · simp only [hc, Bool.false_and]
  simp only [Except.bind]
  refine EndRelated.map (R := R) ?_ fun h => ⟨ha.symm, h⟩
  unfold DispatchEvent.finish
  split
  · rename_i hc
    have hto := htk w he
    dsimp only
    cases hx₂ : touchKeys e₁ d.cmd d.args w with
    | error s =>
      rw [hx₂] at hto
      generalize touchKeys e₁' d.cmd d.args w = y at hto ⊢
      cases hto
      exact .error s
    | ok e₂ =>
      obtain ⟨s, rfl⟩ := touchKeys_eq hx₂
      rw [hx₂] at hto
      generalize touchKeys e₁' d.cmd d.args w = y at hto ⊢
      obtain ⟨h₂⟩ := hto
      obtain ⟨hr, hR⟩ := hm hc hx h₂
      simp only [Except.map, hr]
      refine .ok ?_
      split
      · exact hR
      · exact hif w hR
  · exact htk w (hif w he)

theorem scriptOf_lua (r : Readings) (cmd : Bytes) (args : List Bytes) (h : e'.lua = e.lua) : scriptOf rt r e' cmd args =
    (scriptOf rt r e cmd args).map fun (prog, start) => (prog, { e' with lua := start.lua }) := by
  unfold scriptOf
  rw [h]
  split
  · simp only [Option.map_map]
    rfl
  · rename_i m sha n rest _ hl
    cases m.scripts.lookup (toLower rt.unicode (toLower rt.unicode sha)) with
    | none => rfl
    | some script =>
      simp only [Option.bind_some, Option.map_map]
      cases scriptRun r script n rest with
      | none => rfl
      | some prog => simp only [Option.map_some, Function.comp, ← h]
  · rfl

def ScriptsRelated (E : Env → Prop) (U : DispatchEvent → Prop) (R : Engine → Engine → Prop) (K : Bytes → Nat → Engine → Prop)
    (scripts : Scripts) (scriptTrace : Env → LuaProg → Engine → List DispatchEvent) : Prop :=
  ∀ ω prog own p e e', K own p e → E ω → (∀ d ∈ scriptTrace ω prog e, U d) → R e e' →
    EndRelated (Concur R) (scripts ω prog e) (scripts ω prog e')

namespace Simulation

theorem runEvent (S : Simulation rt E U R K) (hs : ScriptsRelated E U R K scripts scriptTrace) {d : DispatchEvent}
    (hK : K d.connID p d.before) (hE : E d.env) (h : R d.before e')
    (hd : ∀ d' ∈ dispatchTrace rt scriptTrace d.env d.before d.connID d.cmd d.name d.args d.checked, U d') :
    EndRelated (Concur R) (runEvent rt scripts d) (VortexKV.runEvent rt scripts { d with before := e' }) := by
  unfold dispatchTrace at hd
  unfold VortexKV.runEvent
  dsimp only
  rw [scriptOf_lua _ _ _ (S.lua h).1]
  rcases hsc : scriptOf rt (d.env []) d.before d.cmd d.args with _ | ⟨prog, start⟩
  · rw [hsc] at hd
    exact S.event hK hE (hd _ (mem_singleton.2 rfl)) h
  · rw [hsc] at hd
    have hst : R start { e' with lua := start.lua } := by
      obtain ⟨-, -, lua, rfl⟩ := scriptOf_cases hsc
      exact (S.lua h).2 lua
    exact hs _ _ _ _ _ _ (S.path hK (.own (silent_scriptOf hsc) (.nil _))) hE hd hst

theorem runQueue (S : Simulation rt E U R K) (hs : ScriptsRelated E U R K scripts scriptTrace) (ht : ScriptsTraced rt scripts scriptTrace)
    (hE : E ω) (queue : List Command) (i : Nat) (hK : K own p e) (h : R e e')
    (hd : ∀ d ∈ queueTrace rt scripts scriptTrace ω own i queue e, U d) :
    EndRelated (Concur R) (runQueue rt scripts ω own i queue e) (VortexKV.runQueue rt scripts ω own i queue e') := by
  induction queue generalizing i e e' with
  | nil => exact .ok ⟨rfl, h⟩
  | cons c queue ih =>
    have hc : EndRelated (Concur R) (runQueued rt scripts (ω.sub i) e own c) (runQueued rt scripts (ω.sub i) e' own c) ∧
        ∀ v e₁, runQueued rt scripts (ω.sub i) e own c = .ok (v, e₁) → K own p e₁ := by
      cases c with
      | nil =>
        refine ⟨.ok ⟨rfl, h⟩, fun v e₁ hx => ?_⟩
        cases hx
        exact hK
      | cons name args =>
        refine ⟨?_, fun v e₁ hx => S.path hK (runQueued_path ht hx)⟩
        rw [runQueued_eq, runQueued_eq]
        exact S.runEvent hs (d := ⟨ω.sub i, e, own, _, name, args, false⟩) hK (S.sub hE i) h fun d hm => hd d (mem_append_left _ hm)
    have hr : ∀ v e₁, runQueued rt scripts (ω.sub i) e own c = .ok (v, e₁) →
        ∀ d ∈ queueTrace rt scripts scriptTrace ω own (i + 1) queue e₁, U d := by
      intro v e₁ hx d hm
      exact hd d (mem_append_right _ (by rwa [hx]))
    simp only [VortexKV.runQueue]
    obtain ⟨hc, hk⟩ := hc
    generalize runQueued rt scripts (ω.sub i) e own c = x at hc hk hr ⊢
    generalize runQueued rt scripts (ω.sub i) e' own c = y at hc ⊢
    cases hc with
    | error s => exact .error s
    | @ok a b hab =>
      obtain ⟨v, e₁⟩ := a
      obtain ⟨v', e₁'⟩ := b
      obtain ⟨rfl, he⟩ : v = v' ∧ R e₁ e₁' := hab
      exact (ih (i + 1) (hk v e₁ rfl) he (hr v e₁ rfl)).map fun h => ⟨congrArg (v :: ·) h.1, h.2⟩

theorem session (S : Simulation rt E U R K) (hs : ScriptsRelated E U R K scripts scriptTrace) (ht : ScriptsTraced rt scripts scriptTrace)
    (hE : E ω) (hK : K own p e) (h : R e e') (c : Command) (hd : ∀ d ∈ sessionTrace rt scripts scriptTrace ω e p own c, U d) :
    EndRelated (Concur R) (executeCommandWithSession rt scripts ω e p own c) (executeCommandWithSession rt scripts ω e' p own c) := by
  cases c with
  | nil => exact .ok ⟨rfl, h⟩
  | cons name args =>
    obtain ⟨hse, hg⟩ := S.guards hK h
    obtain ⟨hcK, hc⟩ := S.close hK h
    simp only [sessionTrace] at hd
    simp only [executeCommandWithSession, hse, hg]
    generalize VortexKV.guards rt e (e.sessions p) own (toUpperFast rt.unicode name) args = g at hd ⊢
    rcases g with stop | _ | v
    · exact .error stop
    · dsimp only at hd ⊢
      by_cases hm : (e.sessions p).inMulti = true
      · rw [if_pos hm] at hd
        rw [if_pos hm, if_pos hm]
        unfold bufferCommand
        split_ifs with he
        · have hq : (closeTransaction e' p).1 = (closeTransaction e p).1 := congrArg ClientSession.txQueue hse
          have ha : (closeTransaction e' p).2.1 = (closeTransaction e p).2.1 := congrArg ClientSession.txAborted hse
          unfold executeTransaction
          dsimp only
          rw [hq, ha]
          split
          · exact .ok ⟨rfl, hc⟩
          · rename_i hab
            rw [if_pos ⟨he, Bool.not_eq_true _ ▸ hab⟩] at hd
            exact (S.runQueue hs ht hE _ 0 hcK hc hd).map fun h => ⟨congrArg Value.ofArray h.1, h.2⟩
        · exact .ok ⟨rfl, hc⟩
        · exact .ok ⟨rfl, h⟩
        · exact .ok ⟨rfl, S.setSession (fun s => { s with txQueue := s.txQueue ++ [name :: args] }) hK h⟩
      · rw [if_neg hm] at hd
        rw [if_neg hm, if_neg hm, runCommand_eq, runCommand_eq]
        exact S.runEvent hs (d := ⟨ω, e, own, _, name, args, true⟩) hK hE h hd
    · exact .ok ⟨rfl, h⟩

theorem runCalls (S : Simulation rt E U R K) (hE : E ω) (prog : LuaProg) (i : Nat) (hK : K own p e) (h : R e e')
    (hd : ∀ d ∈ callsTrace rt ω i prog e, U d) : EndRelated (Concur R) (runCalls rt ω i prog e) (VortexKV.runCalls rt ω i prog e') := by
  induction prog generalizing i e e' with
  | done v => exact .ok ⟨rfl, h⟩
  | call args next ih =>
    simp only [callsTrace] at hd
    have hno : ScriptsRelated E U R K noScripts noScriptTrace := fun _ _ _ _ _ _ _ _ _ _ => .error .hang
    obtain ⟨hp, hop, hoK⟩ := S.opens hK h
    have hc : EndRelated (Concur R) (executeCommand rt noScripts (ω.sub i) e [] args) (executeCommand rt noScripts (ω.sub i) e' [] args) := by
      simp only [executeCommand, hp]
      exact S.session hno noScripts_traced (S.sub hE i) hoK hop args fun d hm => hd d (mem_append_left _ hm)
    have hr : ∀ v e₁, executeCommand rt noScripts (ω.sub i) e [] args = .ok (v, e₁) →
        K own p e₁ ∧ ∀ d ∈ callsTrace rt ω (i + 1) (next v) e₁, U d := by
      intro v e₁ hx
      have hpa := (session_path noScripts_traced (lookup_getClientSession e []) hx).mono fun _ => trivial
      exact ⟨S.path hK (.script (silent_getClientSession e) hpa.of_script), fun d hm => hd d (mem_append_right _ (by rwa [hx]))⟩
    simp only [VortexKV.runCalls]
    generalize executeCommand rt noScripts (ω.sub i) e [] args = x at hc hr ⊢
    generalize executeCommand rt noScripts (ω.sub i) e' [] args = y at hc ⊢
    cases hc with
    | error s => exact .error s
    | @ok a b hab =>
      obtain ⟨v, e₁⟩ := a
      obtain ⟨v', e₁'⟩ := b
      obtain ⟨rfl, he⟩ : v = v' ∧ R e₁ e₁' := hab
      exact ih v (i + 1) (hr v e₁ rfl).1 he (hr v e₁ rfl).2

theorem setCancel (S : Simulation rt E U R K) (h : R e e') (b : Bool) : R (e.setCancel b) (e'.setCancel b) := by
  unfold Engine.setCancel
  rw [(S.lua h).1]
  exact (S.lua h).2 _

theorem luaScripts (S : Simulation rt E U R K) : ScriptsRelated E U R K (luaScripts rt) (luaTrace rt) := by
  intro ω prog own p e e' hK hE hd h
  have hm : Move rt own True e (e.setCancel true) := .cancel e true
  exact (S.runCalls hE prog 0 (S.path hK (.own hm.silent (.nil _))) (S.setCancel h true) hd).map fun h => ⟨h.1, S.setCancel h.2 false⟩

theorem execute (S : Simulation rt E U R K) (hE : E ω) (hK : K own p e) (h : R e e') (c : Command)
    (hd : ∀ d ∈ executeTrace rt ω e p own c, U d) : EndRelated (Concur R) (execute rt ω e p own c) (VortexKV.execute rt ω e' p own c) :=
  S.session S.luaScripts luaScripts_traced hE hK h c hd

end Simulation

end

end VortexKV
