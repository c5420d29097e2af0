import VortexKV.Proofs.Apply
import VortexKV.Proofs.Content
import VortexKV.Proofs.Outcomes

/-!
# Sequences of commands on one key

The commands that `DumpAllCommands` writes return whatever they find, and each of them concerns one key. `Leaves` says what a sequence of them leaves there, with a rule for appending and one for invariants.
-/

namespace VortexKV

open KeyedStore

theorem apply_prog {rt : Runtime} {r : Readings} {name : Bytes} {args : List Bytes} {c : DataCmd} {p : KsProg Outcome}
    (hc : Cmd.ofName (toUpperFast rt.unicode name) = .data c) (hp : c.action rt r args = .prog p)
    (hs : ∀ s, ¬ c.Stops rt args s) (ks : Keyspace) : ks.apply rt r (name :: args) = .ok (p.run (ksStep r.fastNow) ks).2 := by
  have ho := orderly_action rt r args c r.fastNow ks
  simp only [hp, Action.run] at ho
  simp only [Keyspace.apply, hc, hp, Action.run]
  generalize p.run (ksStep r.fastNow) ks = x at ho
  obtain ⟨s | v, ks'⟩ := x
  · exact absurd ho (hs s)
  · rfl

/-! ### Commands on one key -/

/-- The commands leave all other keys alone, and `Q` holds of what they leave under `k`. -/
def Leaves (rt : Runtime) (ω : Env) (i : Nat) (cs : List Command) (k : Bytes) (ks : Keyspace)
    (Q : Option (Datum × Int) → Prop) : Prop :=
  ∃ ks', Keyspace.applyAll rt ω i cs ks = .ok ks' ∧ (∀ k', k' ≠ k → Keyspace.content ks' k' = Keyspace.content ks k') ∧
    Q (Keyspace.content ks' k)

section

variable {rt : Runtime} {ω : Env} {i : Nat} {c : Command} {cs cs' : List Command} {k : Bytes} {ks : Keyspace}
  {Q R : Option (Datum × Int) → Prop}

theorem leaves_nil (h : Q (ks.content k)) : Leaves rt ω i [] k ks Q := ⟨ks, rfl, fun _ _ => rfl, h⟩

theorem Leaves.append (h : Leaves rt ω i cs k ks Q)
    (hr : ∀ ks', Q (ks'.content k) → Leaves rt ω (i + cs.length) cs' k ks' R) : Leaves rt ω i (cs ++ cs') k ks R := by
  obtain ⟨ks₁, hcs, hfr, hQ⟩ := h
  obtain ⟨ks₂, hc, hf, hR⟩ := hr ks₁ hQ
  refine ⟨ks₂, ?_, fun k' hk' => (hf k' hk').trans (hfr k' hk'), hR⟩
  rw [applyAll_append, hcs]
  exact hc

theorem Leaves.both (h : Leaves rt ω i cs k ks Q) (h' : Leaves rt ω i cs k ks R) : ∃ x, Q x ∧ R x := by
  obtain ⟨ks₁, hcs, -, hQ⟩ := h
  obtain ⟨ks₂, hc, -, hR⟩ := h'
  cases hcs.symm.trans hc
  exact ⟨_, hQ, hR⟩

theorem leaves_one {ks' : Keyspace} (h : ks.apply rt (ω.sub i []) c = .ok ks')
    (hf : ∀ k', k' ≠ k → ks'.content k' = ks.content k') (hQ : Q (ks'.content k)) :
    Leaves rt ω i [c] k ks Q :=
  ⟨ks', by rw [Keyspace.applyAll, h]; rfl, hf, hQ⟩

theorem leaves_inv (hstep : ∀ c ∈ cs, ∀ i ks, Q (ks.content k) → Leaves rt ω i [c] k ks Q)
    (h : Q (ks.content k)) : Leaves rt ω i cs k ks Q := by
  induction cs generalizing i ks with
  | nil => exact leaves_nil h
  | cons c cs ih =>
    exact (hstep c (by simp) i ks h).append fun ks' hk => ih (fun c hc => hstep c (by simp [hc])) hk

section

variable {name : Bytes} {args : List Bytes} {d : DataCmd} {p : KsProg Outcome} (hc : Cmd.ofName (toUpperFast rt.unicode name) = .data d)
  (hp : d.action rt (ω.sub i []) args = .prog p) (hs : ∀ s, ¬ d.Stops rt args s)

include hc hp hs

theorem leaves_same (h : (p.run (ksStep (ω.sub i []).fastNow) ks).2 = ks) (hQ : Q (ks.content k)) :
    Leaves rt ω i [name :: args] k ks Q := by
  refine leaves_one (apply_prog hc hp hs ks) (fun k' _ => ?_) ?_
  · rw [h]
  · rwa [h]

theorem leaves_prog {x : Option (Datum × Int)}
    (hco : ∀ k', Keyspace.content (p.run (ksStep (ω.sub i []).fastNow) ks).2 k' =
      if k' = k then x else ks.content k') (hQ : Q x) :
    Leaves rt ω i [name :: args] k ks Q := by
  refine leaves_one (apply_prog hc hp hs ks) (fun k' hk' => ?_) ?_
  · rw [hco, if_neg hk']
  · rwa [hco, if_pos rfl]

end

end

theorem view_getD {ks : Keyspace} {k : Bytes} {new d : Datum} (h : (ks.content k).getD (new, 0) = (d, 0)) (now : Int) :
    (ks.view now k).getD (new, 0) = (d, 0) := by
  unfold Keyspace.content cellContent at h
  unfold Keyspace.view liveCell
  rcases hc : ks.entries.lookup k with _ | en
  · rw [hc] at h
    exact h
  · rw [hc] at h
    have he : en.expiresAt = 0 := congrArg Prod.snd h
    have hl : en.isExpired now = false := by simp [Entry.isExpired, he]
    simp only [dropExpired, hl]
    exact h

end VortexKV
