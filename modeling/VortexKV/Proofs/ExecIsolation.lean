import VortexKV.Concurrent
import VortexKV.Proofs.Footprint
import VortexKV.Proofs.Watch

/-!
# EXEC and the commands in between

Two commands on disjoint sets of keys swap as far as the keyspace and their replies go. When every command in between is
independent of every queued one, the queue might as well have run first (`exec_isolated`).
-/

namespace VortexKV

open Interleaving KeyedStore List

variable {d : DataCmd} {c : Command} {e' : Engine} {v : Value} {R : Engine → Engine → Prop}

def Cmd.Inert : Cmd → Prop
  | .exec | .discard | .bgrewriteaof | .ping | .echo | .command | .config | .client | .select | .replconf | .time
  | .slowlog | .publish | .unknown => True
  | _ => False

def InertCommand (upper : Bytes → Bytes) : Command → Prop
  | [] => True
  | name :: _ => (Cmd.ofName (upper name)).Inert

def KeyedCommand (upper : Bytes → Bytes) (c : DataCmd) (args : List Bytes) : Command → Prop
  | [] => False
  | name :: rest => Cmd.ofName (upper name) = .data c ∧ c.keyed = true ∧ rest = args

theorem KeyedCommand.keyed {upper : Bytes → Bytes} {args : List Bytes}
    (h : KeyedCommand upper d args c) : d.keyed = true := by
  cases c with
  | nil => exact h.elim
  | cons name rest => exact h.2.1

def WithinMemory (maxMemory : Nat) (ω : Env) : Prop := maxMemory = 0 ∨ (ω []).alloc 0 ≤ maxMemory

namespace Other

variable (rt : Runtime) (o : Other)

def upper : Bytes → Bytes := if o.queued then toUpper rt.unicode else toUpperFast rt.unicode

/-- The command comes to nothing the queued command could notice, nor the other way around. -/
def Independent (maxMemory : Nat) (c : Command) : Prop :=
  InertCommand (toUpper rt.unicode) c ∨ InertCommand (o.upper rt) o.args ∨
    ∃ d args d' args', KeyedCommand (toUpper rt.unicode) d args c ∧ KeyedCommand (o.upper rt) d' args' o.args ∧
      (∀ k, d.Uses rt args k → ¬ d'.Uses rt args' k) ∧ (o.queued = false → WithinMemory maxMemory o.env)

def Spares (maxMemory : Nat) (k : Bytes) : Prop :=
  InertCommand (o.upper rt) o.args ∨
    ∃ d args, KeyedCommand (o.upper rt) d args o.args ∧ ¬ d.Uses rt args k ∧
      (o.queued = false → WithinMemory maxMemory o.env)

end Other

/-! ### Single steps -/

section

variable {rt : Runtime} {ω : Env} {connID cmd : Bytes} {args : List Bytes} {e : Engine}

theorem dispatch_inert (rt : Runtime) (r : Readings) (cmd : Bytes) (args : List Bytes) (h : (Cmd.ofName cmd).Inert) :
    ∃ v, ∀ scripts e connID, dispatch rt r scripts e connID cmd args = .ok (v, false, e) := by
  unfold dispatch
  cases hc : Cmd.ofName cmd
  case echo => rcases args with _ | ⟨a, rest⟩ <;> exact ⟨_, fun _ _ _ => rfl⟩
  case publish => rcases args with _ | ⟨a, _ | ⟨b, rest⟩⟩ <;> exact ⟨_, fun _ _ _ => rfl⟩
  all_goals
    rw [hc] at h
    first
      | exact ⟨_, fun _ _ _ => rfl⟩
      | exact h.elim

theorem runQueued_inert (rt : Runtime) (ω : Env) (connID : Bytes)
    (h : InertCommand (toUpper rt.unicode) c) : ∃ v, ∀ e, runQueued rt (luaScripts rt) ω e connID c = .ok (v, e) := by
  cases c with
  | nil => exact ⟨_, fun _ => rfl⟩
  | cons name args =>
    obtain ⟨v, hv⟩ := dispatch_inert rt (ω []) (toUpper rt.unicode name) args h
    refine ⟨v, fun e => ?_⟩
    simp only [runQueued, hv, Bool.false_eq_true, if_false, touchKeys, false_and, Except.map]

theorem step_inert {o : Other} (h : InertCommand (o.upper rt) o.args) : ∃ v, ∀ e, o.step rt e = .ok (v, e) := by
  obtain ⟨ω, connID, args, queued⟩ := o
  cases queued with
  | true =>
    obtain ⟨v, hv⟩ := runQueued_inert rt ω connID (c := args) h
    exact ⟨v, hv⟩
  | false =>
    cases args with
    | nil => exact ⟨_, fun _ => rfl⟩
    | cons name args =>
      obtain ⟨v, hv⟩ := dispatch_inert rt (ω []) (toUpperFast rt.unicode name) args h
      refine ⟨v, fun e => ?_⟩
      simp [Other.step, runCommand, hv, touchKeys, memoryCheck]

theorem extract_data {c : DataCmd} (h : Cmd.ofName cmd = .data c) (args : List Bytes) :
    ∃ keys, extractCommandKeys cmd args = .ok keys := by
  have he : cmd ≠ lit "EVAL" := by
    rintro rfl
    rw [show Cmd.ofName (lit "EVAL") = .eval by decide] at h
    cases h
  have hs : cmd ≠ lit "EVALSHA" := by
    rintro rfl
    rw [show Cmd.ofName (lit "EVALSHA") = .evalsha by decide] at h
    cases h
  cases args with
  | nil => exact ⟨[], rfl⟩
  | cons a args =>
    simp only [extractCommandKeys, he, hs, or_self, if_false]
    split_ifs <;> exact ⟨_, rfl⟩

theorem touchKeys_data {c : DataCmd} (h : Cmd.ofName cmd = .data c) (e : Engine) (args : List Bytes) (w : Bool) :
    ∃ s, touchKeys e cmd args w = .ok { e with sessions := s } := by
  obtain ⟨keys, hkeys⟩ := extract_data h args
  have hok : ∃ e', touchKeys e cmd args w = .ok e' := by
    unfold touchKeys
    split
    · rw [hkeys]; exact ⟨_, rfl⟩
    · exact ⟨_, rfl⟩
  obtain ⟨e', he'⟩ := hok
  obtain ⟨s, rfl⟩ := touchKeys_eq he'
  exact ⟨s, he'⟩

/-- On an engine with this memory limit the step does to the keyspace what `f` does, and replies accordingly. -/
def Performs (maxMemory : Nat) (f : Keyspace → Outcome × Keyspace) (step : Step Engine Stop Value) : Prop :=
  ∀ e, e.maxMemory = maxMemory →
    (∀ s, (f e.ks).1 = .error s → step e = .error s) ∧
    ∀ v w, (f e.ks).1 = .ok (v, w) → ∃ e', step e = .ok (v, e') ∧ e'.ks = (f e.ks).2 ∧ e'.maxMemory = maxMemory

theorem runQueued_keyed (h : KeyedCommand (toUpper rt.unicode) d args c) (maxMemory : Nat) :
    Performs maxMemory ((d.action rt (ω []) args).run (ω []).fastNow)
      fun e => runQueued rt (luaScripts rt) ω e connID c := by
  cases c with
  | nil => exact h.elim
  | cons name rest =>
    obtain ⟨hd, -, rfl⟩ := h
    intro e he
    refine ⟨fun s hs => ?_, fun v w hv => ?_⟩
    · simp only [runQueued, dispatch_data _ _ _ _ _ _ hd, hs, Except.map]
    · simp only [runQueued, dispatch_data _ _ _ _ _ _ hd, hv, Except.map]
      generalize ((d.action rt (ω []) rest).run (ω []).fastNow e.ks).2 = ks
      obtain ⟨s, hs⟩ := touchKeys_data hd
        (if w then Engine.persist { e with ks := ks } connID (name :: rest) else { e with ks := ks }) rest w
      rw [hs]
      refine ⟨_, rfl, ?_⟩
      cases w <;> exact ⟨rfl, he⟩

theorem memoryCheck_within {m : Nat} (he : e.maxMemory = m) (hm : WithinMemory m ω) (w : Bool) :
    (memoryCheck ω e w).1 = false ∧ (memoryCheck ω e w).2.ks = e.ks ∧ (memoryCheck ω e w).2.maxMemory = m := by
  cases w with
  | false => exact ⟨rfl, rfl, he⟩
  | true =>
    obtain ⟨ks, n, hme⟩ := memoryCheck_eq ω e true
    have ho : ¬ MemoryOver ω e := by
      rintro ⟨hp, -, ha⟩
      rcases hm with hm | hm <;> omega
    obtain ⟨h₁, h₂⟩ := (memoryCheck_iff e).2 ho
    exact ⟨h₁, h₂, by rw [hme]; exact he⟩

theorem step_keyed {o : Other} {maxMemory : Nat} (h : KeyedCommand (o.upper rt) d args o.args)
    (hm : o.queued = false → WithinMemory maxMemory o.env) :
    Performs maxMemory ((d.action rt (o.env []) args).run (o.env []).fastNow) (o.step rt) := by
  obtain ⟨ω, connID, c, queued⟩ := o
  cases queued with
  | true => exact runQueued_keyed h maxMemory
  | false =>
    cases c with
    | nil => exact h.elim
    | cons name rest =>
      obtain ⟨hd, -, rfl⟩ := h
      have hn : Cmd.ofName (toUpperFast rt.unicode name) = .data d := hd
      intro e he
      refine ⟨fun s hs => ?_, fun v w hv => ?_⟩
      · simp only [Other.step, Bool.false_eq_true, if_false, runCommand, dispatch_data _ _ _ _ _ _ hn, hs, Except.map]
      · simp only [Other.step, Bool.false_eq_true, if_false, runCommand, dispatch_data _ _ _ _ _ _ hn, hv, Except.map]
        generalize ((d.action rt (ω []) rest).run (ω []).fastNow e.ks).2 = ks
        obtain ⟨s, hs⟩ := touchKeys_data hn { e with ks := ks } rest w
        rw [hs]
        obtain ⟨hr, hks, hma⟩ := memoryCheck_within (e := { e with ks := ks, sessions := s }) he (hm rfl) w
        dsimp only
        rw [hr]
        refine ⟨_, rfl, ?_⟩
        cases w <;> exact ⟨hks, hma⟩

/-! ### Swapping steps -/

def SameData (maxMemory : Nat) (e e' : Engine) : Prop :=
  e.ks = e'.ks ∧ e.maxMemory = maxMemory ∧ e'.maxMemory = maxMemory

theorem SameData.trans {m : Nat} {e e'' : Engine} (h : SameData m e e') (h' : SameData m e' e'') : SameData m e e'' :=
  ⟨h.1.trans h'.1, h.2.1, h'.2.2⟩

variable {m : Nat} {step step' : Step Engine Stop Value} {f g : Keyspace → Outcome × Keyspace}

theorem Performs.of_ok (h : Performs m f step) (he : e.maxMemory = m)
    (hs : step e = .ok (v, e')) : (∃ w, (f e.ks).1 = .ok (v, w)) ∧ e'.ks = (f e.ks).2 ∧ e'.maxMemory = m := by
  obtain ⟨her, hok⟩ := h e he
  rcases hf : (f e.ks).1 with s | ⟨v', w⟩
  · rw [her s hf] at hs; cases hs
  · obtain ⟨e₁, hs', hks, hm⟩ := hok v' w hf
    rw [hs] at hs'
    cases hs'
    exact ⟨⟨w, rfl⟩, hks, hm⟩

theorem Performs.respects (h : Performs m f step) : Respects (SameData m) step := by
  intro e t v e' hst hs
  obtain ⟨⟨w, hv⟩, hks, hma⟩ := h.of_ok hst.2.1 hs
  rw [hst.1] at hv hks
  obtain ⟨t', ht, hk, hm⟩ := (h t hst.2.2).2 v w hv
  exact ⟨t', ht, hks.trans hk.symm, hma, hm⟩

theorem Performs.swaps {P Q : Bytes → Prop} (hPQ : ∀ k, Q k → ¬ P k) (hg : Performs m g step') (hf : Performs m f step)
    (hlg : Store.Local P g) (hlf : Store.Local Q f) : Swaps (SameData m) step' step := by
  intro e w e₁ v e₂ hee hgs hfs
  obtain ⟨⟨b, hb⟩, hks, hm⟩ := hg.of_ok hee.2.1 hgs
  obtain ⟨⟨a, ha⟩, hk, hma⟩ := hf.of_ok hm hfs
  obtain ⟨hcg, hcf, hc⟩ := hlf.comm hPQ hlg e.ks
  rw [hks] at ha hk
  rw [hcf] at ha
  obtain ⟨t₁, ht', hkt, hmt⟩ := (hf e hee.2.1).2 v a ha
  rw [← hcg, ← hkt] at hb
  obtain ⟨t₂, ht₂, ht, hm'⟩ := (hg t₁ hmt).2 w b hb
  refine ⟨t₁, t₂, ht', ht₂, ?_, hma, hm'⟩
  rw [hk, ht, hkt, hc]

theorem respects_inert (h : ∀ e, step e = .ok (v, e)) : Respects R step := by
  intro e t a e' hR hs
  rw [h e] at hs
  cases hs
  exact ⟨t, h t, hR⟩

theorem swaps_inert_left (h : ∀ e, step' e = .ok (v, e))
    (hf : Respects R step) : Swaps R step' step := by
  intro e w e₁ a e₂ hee hg hs
  rw [h e] at hg
  cases hg
  obtain ⟨t, ht, hR⟩ := hf hee hs
  rw [hs] at ht
  cases ht
  exact ⟨e₂, e₂, hs, h e₂, hR⟩

theorem swaps_inert_right (h : ∀ e, step e = .ok (v, e))
    (hg : Respects R step') : Swaps R step' step := by
  intro e w e₁ a e₂ hee hgs hs
  rw [h e₁] at hs
  cases hs
  obtain ⟨t, ht, hR⟩ := hg hee hgs
  rw [hgs] at ht
  cases ht
  exact ⟨e, e₁, h e, hgs, hR⟩

theorem mem_queueSteps {i : Nat} {queue : List Command} (h : step ∈ queueSteps rt ω connID i queue) :
    ∃ j, ∃ c ∈ queue, step = fun e => runQueued rt (luaScripts rt) (ω.sub j) e connID c := by
  induction queue generalizing i with
  | nil => cases h
  | cons c queue ih =>
    rcases mem_cons.1 h with rfl | h
    · exact ⟨i, c, by simp, rfl⟩
    · obtain ⟨j, c', hc', hstep⟩ := ih h
      exact ⟨j, c', by simp [hc'], hstep⟩

theorem turns_serial {sched : List (Option Other)} {queue : List Command} {i : Nat} {vs ws : List Value}
    (hi : ∀ o ∈ sched.filterMap id, ∀ c ∈ queue, o.Independent rt e.maxMemory c)
    (h : runMixed (turns rt sched (queueSteps rt ω connID i queue)) e = .ok (vs, ws, e')) :
    ∃ e₁ e₂, runQueue rt (luaScripts rt) ω connID i queue e = .ok (vs, e₁) ∧
      runAll ((sched.filterMap id).map (Other.step rt)) e₁ = .ok (ws, e₂) ∧ e'.ks = e₂.ks := by
  have hs : ∀ R : Engine → Engine → Prop, (∀ ⦃s t u⦄, R s t → R t u → R s u) → R e e →
      (∀ s t, R s t → s.ks = t.ks) → (∀ f ∈ queueSteps rt ω connID i queue, Respects R f) →
      (∀ o ∈ sched.filterMap id, Respects R (o.step rt)) →
      (∀ o ∈ sched.filterMap id, ∀ f ∈ queueSteps rt ω connID i queue, Swaps R (o.step rt) f) →
      ∃ e₁ e₂, runQueue rt (luaScripts rt) ω connID i queue e = .ok (vs, e₁) ∧
        runAll ((sched.filterMap id).map (Other.step rt)) e₁ = .ok (ws, e₂) ∧ e'.ks = e₂.ks := by
    intro R ht hee hks hl hr hsw
    obtain ⟨e₁, e₂, h₁, h₂, hR⟩ := runMixed_serial ht (by rwa [lefts_turns])
      (by rw [rights_turns]; simpa using hr) (by rw [lefts_turns, rights_turns]; simpa using hsw) hee h
    rw [lefts_turns, runAll_queueSteps] at h₁
    rw [rights_turns] at h₂
    exact ⟨e₁, e₂, h₁, h₂, hks _ _ hR⟩
  by_cases hot : ∀ o ∈ sched.filterMap id, InertCommand (o.upper rt) o.args
  · refine hs Eq (fun _ _ _ => Eq.trans) rfl (fun _ _ h => by rw [h]) (fun f _ => respects_eq f)
      (fun o _ => respects_eq _) fun o ho f _ => ?_
    obtain ⟨v, hv⟩ := step_inert (hot o ho)
    exact swaps_inert_left hv (respects_eq f)
  by_cases hq : ∀ c ∈ queue, InertCommand (toUpper rt.unicode) c
  · refine hs Eq (fun _ _ _ => Eq.trans) rfl (fun _ _ h => by rw [h]) (fun f _ => respects_eq f)
      (fun o _ => respects_eq _) fun o _ f hf => ?_
    obtain ⟨j, c, hc, rfl⟩ := mem_queueSteps hf
    obtain ⟨v, hv⟩ := runQueued_inert rt (ω.sub j) connID (hq c hc)
    exact swaps_inert_right hv (respects_eq _)
  -- some command of either side is not inert, so all that are not work on entries
  push Not at hot hq
  obtain ⟨o₀, ho', hn⟩ := hot
  obtain ⟨c₀, hc', hnc⟩ := hq
  have hl : ∀ f ∈ queueSteps rt ω connID i queue, Respects (SameData e.maxMemory) f := by
    intro f hf
    obtain ⟨j, c, hc, rfl⟩ := mem_queueSteps hf
    rcases hi o₀ ho' c hc with hin | hin | ⟨d, args, -, -, hk, -⟩
    · obtain ⟨v, hv⟩ := runQueued_inert rt (ω.sub j) connID hin
      exact respects_inert hv
    · exact absurd hin hn
    · exact (runQueued_keyed hk e.maxMemory).respects
  have hr : ∀ o ∈ sched.filterMap id, Respects (SameData e.maxMemory) (o.step rt) := by
    intro o ho
    rcases hi o ho c₀ hc' with hin | hin | ⟨-, -, d, args, -, hk, -, hm⟩
    · exact absurd hin hnc
    · obtain ⟨v, hv⟩ := step_inert hin
      exact respects_inert hv
    · exact (step_keyed hk hm).respects
  refine hs (SameData e.maxMemory) (fun _ _ _ => SameData.trans) ⟨rfl, rfl, rfl⟩ (fun _ _ h => h.1) hl hr
    fun o ho f hf => ?_
  have hfr := hl f hf
  obtain ⟨j, c, hc, rfl⟩ := mem_queueSteps hf
  rcases hi o ho c hc with hin | hin | ⟨d, args, d', args', hk, hk', hd, hm⟩
  · obtain ⟨v, hv⟩ := runQueued_inert rt (ω.sub j) connID hin
    exact swaps_inert_right hv (hr o ho)
  · obtain ⟨v, hv⟩ := step_inert hin
    exact swaps_inert_left hv hfr
  · exact Performs.swaps hd (step_keyed hk' hm) (runQueued_keyed hk e.maxMemory)
      (local_action rt _ args' hk'.keyed _) (local_action rt _ args hk.keyed _)

theorem lookup_of_spares {os : List Other} {k : Bytes} {m : Nat} (h : ∀ o ∈ os, o.Spares rt m k)
    (he : e.maxMemory = m) {ws : List Value} (hru : runAll (os.map (Other.step rt)) e = .ok (ws, e')) :
    e'.ks.entries.lookup k = e.ks.entries.lookup k := by
  induction os generalizing e ws with
  | nil => cases hru; rfl
  | cons o os ih =>
    obtain ⟨w, e₁, ws', hstep, hr, -⟩ := runAll_cons.1 hru
    rcases h o (by simp) with hin | ⟨d, args, hk, hu, hm⟩
    · obtain ⟨v, hv⟩ := step_inert hin
      rw [hv] at hstep
      cases hstep
      exact ih (fun o ho => h o (by simp [ho])) he hr
    · obtain ⟨-, hks, hma⟩ := (step_keyed hk hm).of_ok he hstep
      rw [ih (fun o ho => h o (by simp [ho])) hma hr, hks]
      exact (local_action rt _ args hk.keyed _).frame e.ks hu

theorem closeTransaction_eq (e : Engine) (p : Nat) :
    ∃ s n, (closeTransaction e p).2.2 = { e with sessions := s, watchedCount := n } := by
  simp only [closeTransaction, Engine.unwatch]
  split
  · exact ⟨_, e.watchedCount, rfl⟩
  · exact ⟨_, _, rfl⟩

end

/-- `EXEC` with other clients' commands in between, each independent of every queued command and sparing the
watched keys: the replies and the keyspace are those of running the whole transaction first, and up to the
first queued command the watched keys stay as they were when the abort flag was read. -/
theorem exec_isolated {rt : Runtime} {ω : Env} {e e' : Engine} {connID : Bytes} {p : Nat}
    {sched : List (Option Other)} {v : Value} {ws : List Value}
    (hi : ∀ o ∈ sched.filterMap id, ∀ c ∈ (e.sessions p).txQueue, o.Independent rt e.maxMemory c)
    (hsp : ∀ o ∈ sched.filterMap id, ∀ k ∈ (e.sessions p).watchedKeys, o.Spares rt e.maxMemory k)
    (h : interleavedExec rt ω e connID p sched = .ok (v, ws, e')) :
    (∃ e₁ e₂, executeTransaction rt (luaScripts rt) ω e connID p = .ok (v, e₁) ∧
      runAll ((sched.filterMap id).map (Other.step rt)) e₁ = .ok (ws, e₂) ∧ e'.ks = e₂.ks) ∧
    ∀ (os : List Other) rest ws₁ e₁, sched = os.map some ++ rest →
      runAll (os.map (Other.step rt)) (closeTransaction e p).2.2 = .ok (ws₁, e₁) →
      ∀ k ∈ (e.sessions p).watchedKeys, e₁.ks.entries.lookup k = e.ks.entries.lookup k := by
  obtain ⟨s, n, hc⟩ := closeTransaction_eq e p
  refine ⟨?_, fun os rest ws₁ e₁ hs hr k hk => ?_⟩
  · have hqu : (closeTransaction e p).1 = (e.sessions p).txQueue := rfl
    simp only [interleavedExec, hqu] at h
    simp only [executeTransaction, hqu]
    split at h
    · rename_i ha
      rw [if_pos ha]
      rcases hr : runAll ((sched.filterMap id).map (Other.step rt)) (closeTransaction e p).2.2 with stop | ⟨ws', e₂⟩
      · rw [hr] at h; cases h
      · rw [hr] at h
        cases h
        exact ⟨_, _, rfl, hr, rfl⟩
    · rename_i ha
      rw [if_neg ha]
      rcases hr : runMixed (turns rt sched (queueSteps rt ω connID 0 (e.sessions p).txQueue))
          (closeTransaction e p).2.2 with stop | ⟨vs, ws', e₂⟩
      · rw [hr] at h; cases h
      · rw [hr] at h
        cases h
        have hm : (closeTransaction e p).2.2.maxMemory = e.maxMemory := by rw [hc]
        obtain ⟨e₃, e₄, hq, ho, hks⟩ := turns_serial (by rwa [hm]) hr
        exact ⟨e₃, e₄, by rw [hq]; rfl, ho, hks⟩
  · have hme : ∀ o ∈ os, o ∈ sched.filterMap id := by
      intro o ho
      rw [hs]
      simp [ho]
    have hke := lookup_of_spares (fun o ho => hsp o (hme o ho) k hk) (by rw [hc]) hr
    rwa [hc] at hke

def queuedEngine : Engine :=
  { replayEngine Keyspace.empty with
    sessions := fun _ =>
      { authenticated := true, username := "default", inMulti := true, txQueue := [["SET", "x", "1"], ["GET", "x"]] }
    nextSession := 1
    clientSessions := Finmap.singleton "conn-1" 0 }

def setBetween (key : Bytes) : Other := ⟨.plain 0, "conn-2", ["SET", key, "2"], false⟩

theorem exec_isolated_set :
    ∃ v ws e' e₁, interleavedExec .plain (.plain 0) queuedEngine "conn-1" 0 [none, some (setBetween "y"), none] =
        .ok (v, ws, e') ∧
      executeTransaction .plain (luaScripts .plain) (.plain 0) queuedEngine "conn-1" 0 = .ok (v, e₁) := by
  obtain ⟨x, hx⟩ : ∃ x, interleavedExec .plain (.plain 0) queuedEngine "conn-1" 0
    [none, some (setBetween "y"), none] = .ok x := ⟨_, rfl⟩
  obtain ⟨v, ws, e'⟩ := x
  have hset : Cmd.ofName (toUpperFast Runtime.plain.unicode "SET") = .data .set := by decide
  have hs : Cmd.ofName (toUpper Runtime.plain.unicode "SET") = .data .set := by decide
  have hget : Cmd.ofName (toUpper Runtime.plain.unicode "GET") = .data .get := by decide
  have hd : ∀ k, FirstKey [lit "x"] k → ¬ FirstKey [lit "y", lit "2"] k := by
    intro k hx hy
    cases hx
    exact absurd (Option.some.inj hy) (by decide)
  have hi : ∀ o ∈ [none, some (setBetween "y"), none].filterMap id, ∀ c ∈ (queuedEngine.sessions 0).txQueue,
      o.Independent .plain queuedEngine.maxMemory c := by
    intro o ho c hc
    obtain rfl : o = setBetween "y" := mem_singleton.1 ho
    refine .inr (.inr ?_)
    rcases mem_cons.1 hc with rfl | hc
    · exact ⟨.set, _, .set, _, ⟨hs, rfl, rfl⟩, ⟨hset, rfl, rfl⟩, fun k hk => hd k hk, fun _ => .inl rfl⟩
    · obtain rfl := mem_singleton.1 hc
      exact ⟨.get, _, .set, _, ⟨hget, rfl, rfl⟩, ⟨hset, rfl, rfl⟩, fun k hk => hd k hk, fun _ => .inl rfl⟩
  obtain ⟨⟨e₁, -, he, -⟩, -⟩ := exec_isolated hi (fun o _ k hk => absurd hk (Finset.notMem_empty k)) hx
  exact ⟨v, ws, e', e₁, hx, he⟩

/-- With a `SET` of the same key in between, `EXEC` reads what it did not write; it would not if the
transaction ran first or last. -/
theorem exec_interleaved :
    ∃ v w e₁ e₂ e₃ e₄, interleavedExec .plain (.plain 0) queuedEngine "conn-1" 0 [none, some (setBetween "x"), none] =
        .ok (.ofArray [ok, .bulkString "2"], [w], e₁) ∧
      executeTransaction .plain (luaScripts .plain) (.plain 0) queuedEngine "conn-1" 0 =
        .ok (.ofArray [ok, .bulkString "1"], e₂) ∧
      (setBetween "x").step .plain queuedEngine = .ok (v, e₃) ∧
      executeTransaction .plain (luaScripts .plain) (.plain 0) e₃ "conn-1" 0 =
        .ok (.ofArray [ok, .bulkString "1"], e₄) :=
  ⟨_, _, _, _, _, _, rfl, rfl, rfl, rfl⟩

end VortexKV
