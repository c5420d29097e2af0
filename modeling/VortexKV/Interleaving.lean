import Mathlib.Data.Sum.Basic
import Mathlib.Logic.Relation

/-!
# Interleavings of two sequences of steps

`runMixed` runs two sequences of steps, the left and the right ones, in a given order. When each right step can be swapped
with each left step that follows it, up to a relation that all steps respect, the left steps might as well have run first
(`runMixed_serial`).
-/

namespace Interleaving

abbrev Step (σ ε α : Type) := σ → Except ε (α × σ)

variable {σ ε α : Type} {R : σ → σ → Prop}

def runAll : List (Step σ ε α) → σ → Except ε (List α × σ)
  | [], s => .ok ([], s)
  | f :: fs, s => (f s).bind fun (a, s) => (runAll fs s).map fun (as, s) => (a :: as, s)

/-- The values of the left steps, those of the right ones, and the last state. -/
def runMixed : List (Step σ ε α ⊕ Step σ ε α) → σ → Except ε (List α × List α × σ)
  | [], s => .ok ([], [], s)
  | .inl f :: fs, s => (f s).bind fun (a, s) => (runMixed fs s).map fun (as, bs, s) => (a :: as, bs, s)
  | .inr g :: fs, s => (g s).bind fun (b, s) => (runMixed fs s).map fun (as, bs, s) => (as, b :: bs, s)

/-- From related states the step returns the same and leads to related ones. -/
def Respects (R : σ → σ → Prop) (f : Step σ ε α) : Prop :=
  ∀ ⦃s t a s'⦄, R s t → f s = .ok (a, s') → ∃ t', f t = .ok (a, t') ∧ R s' t'

/-- `g` and then `f` might as well run the other way around. -/
def Swaps (R : σ → σ → Prop) (g f : Step σ ε α) : Prop :=
  ∀ ⦃s b s₁ a s₂⦄, R s s → g s = .ok (b, s₁) → f s₁ = .ok (a, s₂) →
    ∃ t₁ t₂, f s = .ok (a, t₁) ∧ g t₁ = .ok (b, t₂) ∧ R s₂ t₂

theorem respects_eq (f : Step σ ε α) : Respects Eq f := by
  rintro s t a s' rfl h
  exact ⟨s', h, rfl⟩

theorem runAll_cons {f : Step σ ε α} {fs : List (Step σ ε α)} {s s' : σ} {as : List α} :
    runAll (f :: fs) s = .ok (as, s') ↔
      ∃ a s₁ as', f s = .ok (a, s₁) ∧ runAll fs s₁ = .ok (as', s') ∧ as = a :: as' := by
  simp only [runAll]
  rcases hf : f s with e | ⟨a, s₁⟩
  · exact ⟨nofun, fun ⟨_, _, _, h, _⟩ => nomatch h⟩
  rcases hfs : runAll fs s₁ with e | ⟨as', s₂⟩
  · constructor
    · intro h
      simp [Except.bind, Except.map, hfs] at h
    · rintro ⟨_, _, _, h, hs, _⟩
      cases h
      rw [hfs] at hs
      cases hs
  · simp only [Except.bind, Except.map, hfs]
    constructor
    · intro h
      cases h
      exact ⟨a, s₁, as', rfl, hfs, rfl⟩
    · rintro ⟨_, _, _, h, hs, rfl⟩
      cases h
      rw [hfs] at hs
      cases hs
      rfl

theorem mixed_cons {f : Step σ ε α} {fs : List (Step σ ε α ⊕ Step σ ε α)} {s s' : σ} (xs : List α × List α)
    (wrap : α → List α × List α → List α × List α) :
    ((f s).bind fun (a, s) => (runMixed fs s).map fun (as, bs, s) => ((wrap a (as, bs)).1, (wrap a (as, bs)).2, s)) =
        .ok (xs.1, xs.2, s') ↔
      ∃ a s₁ ys, f s = .ok (a, s₁) ∧ runMixed fs s₁ = .ok (ys.1, ys.2, s') ∧ xs = wrap a ys := by
  rcases hf : f s with e | ⟨a, s₁⟩
  · exact ⟨nofun, fun ⟨_, _, _, h, _⟩ => nomatch h⟩
  rcases hfs : runMixed fs s₁ with e | ⟨as', bs', s₂⟩
  · constructor
    · intro h
      simp [Except.bind, Except.map, hfs] at h
    · rintro ⟨_, _, _, h, hs, _⟩
      cases h
      rw [hfs] at hs
      cases hs
  · simp only [Except.bind, Except.map, hfs, Except.ok.injEq, Prod.mk.injEq]
    constructor
    · rintro ⟨h₁, h₂, rfl⟩
      exact ⟨a, s₁, (as', bs'), ⟨rfl, rfl⟩, hfs, Prod.ext h₁.symm h₂.symm⟩
    · rintro ⟨_, _, ys, ⟨rfl, rfl⟩, hs, rfl⟩
      rw [hfs] at hs
      cases hs
      exact ⟨rfl, rfl, rfl⟩

theorem runMixed_inl {f : Step σ ε α} {fs : List (Step σ ε α ⊕ Step σ ε α)} {s s' : σ} {as bs : List α}
    (h : runMixed (.inl f :: fs) s = .ok (as, bs, s')) :
    ∃ a s₁ as', f s = .ok (a, s₁) ∧ runMixed fs s₁ = .ok (as', bs, s') ∧ as = a :: as' := by
  obtain ⟨a, s₁, ys, hf, hfs, heq⟩ := (mixed_cons (as, bs) fun a ys => (a :: ys.1, ys.2)).1 h
  cases heq
  exact ⟨a, s₁, ys.1, hf, hfs, rfl⟩

theorem runMixed_inr {g : Step σ ε α} {fs : List (Step σ ε α ⊕ Step σ ε α)} {s s' : σ} {as bs : List α}
    (h : runMixed (.inr g :: fs) s = .ok (as, bs, s')) :
    ∃ b s₁ bs', g s = .ok (b, s₁) ∧ runMixed fs s₁ = .ok (as, bs', s') ∧ bs = b :: bs' := by
  obtain ⟨b, s₁, ys, hg, hfs, heq⟩ := (mixed_cons (as, bs) fun b ys => (ys.1, b :: ys.2)).1 h
  cases heq
  exact ⟨b, s₁, ys.2, hg, hfs, rfl⟩

theorem Respects.runAll {fs : List (Step σ ε α)} (h : ∀ f ∈ fs, Respects R f) {s t s' : σ} {as : List α}
    (hst : R s t) (hs : Interleaving.runAll fs s = .ok (as, s')) :
    ∃ t', Interleaving.runAll fs t = .ok (as, t') ∧ R s' t' := by
  induction fs generalizing s t as with
  | nil => cases hs; exact ⟨t, rfl, hst⟩
  | cons f fs ih =>
    obtain ⟨a, s₁, as', hf, hfs, rfl⟩ := runAll_cons.1 hs
    obtain ⟨t₁, hft, hst₁⟩ := h f (by simp) hst hf
    obtain ⟨t', ht, hs'⟩ := ih (fun f hf => h f (by simp [hf])) hst₁ hfs
    exact ⟨t', runAll_cons.2 ⟨a, t₁, as', hft, ht, rfl⟩, hs'⟩

theorem Swaps.runAll (htr : ∀ ⦃s t u⦄, R s t → R t u → R s u)
    {g : Step σ ε α} {fs : List (Step σ ε α)} (hg : Respects R g) (hfs : ∀ f ∈ fs, Respects R f)
    (hsw : ∀ f ∈ fs, Swaps R g f) {s s₁ s₂ : σ} {b : α} {as : List α} (hss : R s s) (hgs : g s = .ok (b, s₁))
    (hru : Interleaving.runAll fs s₁ = .ok (as, s₂)) :
    ∃ t₁ t₂, Interleaving.runAll fs s = .ok (as, t₁) ∧ g t₁ = .ok (b, t₂) ∧ R s₂ t₂ := by
  induction fs generalizing s s₁ s₂ as with
  | nil =>
    cases hru
    obtain ⟨t, ht, hR⟩ := hg hss hgs
    rw [hgs] at ht
    cases ht
    exact ⟨s, _, rfl, hgs, hR⟩
  | cons f fs ih =>
    obtain ⟨a, s₃, as', hf, hre, rfl⟩ := runAll_cons.1 hru
    obtain ⟨t₁, t₂, hft, hgt, hR⟩ := hsw f (by simp) hss hgs hf
    -- the rest runs from `t₂` as well, and there `g` has run last but the rest
    obtain ⟨u, hr, hR'⟩ := Respects.runAll (fun f hf => hfs f (by simp [hf])) hR hre
    have htt : R t₁ t₁ := by
      obtain ⟨t, ht, hR⟩ := hfs f (by simp) hss hft
      rw [hft] at ht
      cases ht
      exact hR
    obtain ⟨u₁, u₂, hfu, hgu, hrr⟩ := ih (fun f hf => hfs f (by simp [hf])) (fun f hf => hsw f (by simp [hf]))
      htt hgt hr
    exact ⟨u₁, u₂, runAll_cons.2 ⟨a, t₁, as', hft, hfu, rfl⟩, hgu, htr hR' hrr⟩

def lefts (fs : List (Step σ ε α ⊕ Step σ ε α)) : List (Step σ ε α) := fs.filterMap Sum.getLeft?

def rights (fs : List (Step σ ε α ⊕ Step σ ε α)) : List (Step σ ε α) := fs.filterMap Sum.getRight?

theorem runMixed_serial (htr : ∀ ⦃s t u⦄, R s t → R t u → R s u)
    {fs : List (Step σ ε α ⊕ Step σ ε α)} (hl : ∀ f ∈ lefts fs, Respects R f) (hr : ∀ g ∈ rights fs, Respects R g)
    (hsw : ∀ g ∈ rights fs, ∀ f ∈ lefts fs, Swaps R g f) {s s' : σ} {as bs : List α} (hss : R s s)
    (h : runMixed fs s = .ok (as, bs, s')) :
    ∃ s₁ s₂, runAll (lefts fs) s = .ok (as, s₁) ∧ runAll (rights fs) s₁ = .ok (bs, s₂) ∧ R s' s₂ := by
  induction fs generalizing s as bs with
  | nil => cases h; exact ⟨_, _, rfl, rfl, hss⟩
  | cons x fs ih =>
    cases x with
    | inl f =>
      obtain ⟨a, s₁, as', hf, hre, rfl⟩ := runMixed_inl h
      obtain ⟨t, ht, hR⟩ := hl f (by simp [lefts]) hss hf
      rw [hf] at ht
      cases ht
      obtain ⟨u₁, u₂, hls, hrs, hR'⟩ := ih (fun f hf => hl f (by simp_all [lefts]))
        (fun g hg => hr g (by simp_all [rights])) (fun g hg f hf => hsw g (by simp_all [rights]) f (by simp_all [lefts]))
        hR hre
      exact ⟨u₁, u₂, runAll_cons.2 ⟨a, s₁, as', hf, hls, rfl⟩, hrs, hR'⟩
    | inr g =>
      obtain ⟨b, s₁, bs', hg, hre, rfl⟩ := runMixed_inr h
      obtain ⟨t, ht, hR⟩ := hr g (by simp [rights]) hss hg
      rw [hg] at ht
      cases ht
      obtain ⟨u₁, u₂, hls, hrs, hR'⟩ := ih (fun f hf => hl f (by simp_all [lefts]))
        (fun g hg => hr g (by simp_all [rights])) (fun g hg f hf => hsw g (by simp_all [rights]) f (by simp_all [lefts]))
        hR hre
      obtain ⟨v₁, v₂, hlv, hgv, hRv⟩ := Swaps.runAll htr (hr g (by simp [rights]))
        (fun f hf => hl f (by simp_all [lefts])) (fun f hf => hsw g (by simp [rights]) f (by simp_all [lefts]))
        hss hg hls
      obtain ⟨w, hrw, hRw⟩ := Respects.runAll (fun g hg => hr g (by simp_all [rights])) hRv hrs
      exact ⟨v₁, w, hlv, runAll_cons.2 ⟨b, v₂, bs', hgv, hrw, rfl⟩, htr hR' hRw⟩

end Interleaving
