import VortexKV.Proofs.LogComplete
import VortexKV.Proofs.NonInterference

/-!
# Watched keys

A write aborts the transactions that watch one of its keys, as `extractCommandKeys` lists them (`announce`). The flag then
stays set until the connection ends its watch (`Watched.run`), so its `EXEC` runs nothing.
-/

namespace VortexKV

variable {cmd : Bytes} {c : DataCmd} {args keys : List Bytes} {s : ClientSession} {rel : Prop} {ω : Env}

/-! ### The keys of a data command -/

section

variable {rt : Runtime} {e e' : Engine} {own id : Bytes} {q : Nat} {k : Bytes} {d : DispatchEvent}

/-- A session that goes on watching: no key is given up and no abort forgotten. -/
structure Watching (s s' : ClientSession) : Prop where
  watchedKeys : s.watchedKeys ⊆ s'.watchedKeys
  txAborted : s.txAborted = true → s'.txAborted = true

theorem Watching.refl (s : ClientSession) : Watching s s := ⟨subset_rfl, id⟩

theorem Watching.trans {s' s'' : ClientSession} (h : Watching s s') (h' : Watching s' s'') : Watching s s'' :=
  ⟨h.watchedKeys.trans h'.watchedKeys, fun ha => h'.txAborted (h.txAborted ha)⟩

theorem Unaffected.watching {s' : ClientSession} (h : Unaffected s s') : Watching s s' :=
  ⟨h.watchedKeys ▸ subset_rfl, h.txAborted⟩

theorem ClientStep.watching {t t' : Clients} (h : ClientStep own rel t t') (hre : ¬ rel)
    (hq : t.clientSessions.lookup own = some q) : Watching (t.sessions q) (t'.sessions q) := by
  cases h with
  | login s hn hs => rw [hq] at hn; cases hn
  | change s hp ha hw =>
    obtain rfl : _ = q := Option.some.inj (hp.symm.trans hq)
    simp only [Clients.replace, Function.update_self]
    exact ⟨hw, fun h => ha.trans h⟩
  | release hr => exact absurd hr hre
  | touch key =>
    dsimp only
    split
    · exact ⟨subset_rfl, fun _ => rfl⟩
    · exact .refl _

theorem ClientSteps.watching {t t' : Clients} (h : ClientSteps own rel t t') (hr : ¬ rel)
    (hq : t.clientSessions.lookup own = some q) : Watching (t.sessions q) (t'.sessions q) := by
  induction h with
  | refl => exact .refl _
  | tail hs hstep ih => exact ih.trans (hstep.watching hr (ClientSteps.keeps hs hq))

theorem Path.watching {tr : List DispatchEvent} (h : Path rt own rel e tr e') (hr : ¬ rel)
    (hn : own ≠ []) (hun : ∀ d ∈ tr, d.connID = own → d.cmd ≠ lit "UNWATCH") (hh : Hidden own q e) :
    Hidden own q e' ∧ Watching (e.sessions q) (e'.sessions q) := by
  induction h with
  | nil e => exact ⟨hh, .refl _⟩
  | own hs _ ih =>
    obtain ⟨hh', hw⟩ := ih hun (hh.steps hs.clients)
    exact ⟨hh', (hs.clients.watching hr hh.lookup).trans hw⟩
  | script hs _ ih =>
    obtain ⟨hh', hw⟩ := ih hun (hh.steps hs.clients)
    exact ⟨hh', (hs.clients.others hh.ok hn hh.lookup).2.watching.trans hw⟩
  | event d hid hd _ ih =>
    obtain ⟨hh', hw⟩ := ih (fun d hd => hun d (by simp [hd])) (hh.steps hd.clients)
    refine ⟨hh', Watching.trans ?_ hw⟩
    rcases hid with hid | hid
    · have hc := hun d (by simp) hid
      have hst := hd.clients
      rw [hid] at hst
      exact hst.watching hc hh.lookup
    · exact (hd.clients.others hh.ok (hid ▸ hn) hh.lookup).2.watching

theorem DispatchEvent.Leads.unique (h : d.Leads rt e) (h' : d.Leads rt e') : e = e' := by
  obtain ⟨v, w, e₁, hre, hfi⟩ := h
  obtain ⟨v', w', e₁', hr, hf⟩ := h'
  rw [hre] at hr
  cases hr
  exact Except.ok.inj (hfi.symm.trans hf)

def EndsWatch (rt : Runtime) (s : ClientSession) (args : Command) : Prop :=
  if s.inMulti then
    args.head?.map (toUpperFast rt.unicode) = some (lit "EXEC") ∨
      args.head?.map (toUpperFast rt.unicode) = some (lit "DISCARD")
  else args.head?.map (toUpperFast rt.unicode) = some (lit "UNWATCH")

/-- The event ends the watch of the connection `id`. -/
def ClientEvent.Ends (rt : Runtime) (id : Bytes) (e : Engine) : ClientEvent → Prop
  | command own _ args =>
    own = id ∧ EndsWatch rt ((e.getClientSession id).2.sessions (e.getClientSession id).1) args
  | disconnect own => own = id

end

end VortexKV
