import Mathlib.Data.Finmap
import Mathlib.Algebra.Group.Int.Defs
import Mathlib.Tactic.Ring

/-!
# Programs over a keyed store

A store maps keys to entries and carries a counter. A program (`Prog`) calls operations, each on the cell of one key.
A program that keeps to keys of a set (`Within`) leaves every other cell alone (`run_frame`) and sees nothing else
(`run_agree`); actions local to disjoint sets commute (`Local.comm`). Stores whose cells are related by a relation that the
operations keep stay related (`run_sim`, `Follows.run_sim`). A program whose result owns up to every change (`Accounts`) has
changed nothing when it does not (`run_accounts`). Operations that move the counter by the change of their cell (`Counts`)
keep its distance from the number of entries (`run_excess`).
-/

namespace KeyedStore

/-- The operations a program may call, with the type of their results. -/
structure Interface where
  Op : Type
  Ret : Op → Type

/-- What an operation does to the cell it is called on: its result, the new cell, and by how much it
changes the counter. -/
def Semantics (I : Interface) (E : Type) : Type :=
  (o : I.Op) → Option E → I.Ret o × Option E × Int

structure Store (K E : Type) where
  entries : Finmap fun _ : K => E
  count : Int
deriving DecidableEq

inductive Prog (I : Interface) (K : Type) (α : Type)
  | ret (a : α)
  | call (k : K) (o : I.Op) (next : I.Ret o → Prog I K α)

namespace Store

variable {K E : Type} [DecidableEq K]

def put (s : Store K E) (k : K) (c : Option E) (d : Int) : Store K E :=
  { entries := match c with
      | none => s.entries.erase k
      | some e => s.entries.insert k e
    count := s.count + d }

@[simp] theorem lookup_put (s : Store K E) (k : K) (c : Option E) (d : Int) :
    (s.put k c d).entries.lookup k = c := by
  cases c with
  | none => simp [put]
  | some e => simp [put]

theorem lookup_put_ne (s : Store K E) {k k' : K} (h : k' ≠ k) (c : Option E) (d : Int) :
    (s.put k c d).entries.lookup k' = s.entries.lookup k' := by
  cases c with
  | none => exact Finmap.lookup_erase_ne h
  | some e => exact Finmap.lookup_insert_of_ne _ h

@[simp] theorem count_put (s : Store K E) (k : K) (c : Option E) (d : Int) :
    (s.put k c d).count = s.count + d := rfl

theorem ext_lookup {s t : Store K E} (h : ∀ k, s.entries.lookup k = t.entries.lookup k)
    (hc : s.count = t.count) : s = t := by
  obtain ⟨e, n⟩ := s
  obtain ⟨e', n'⟩ := t
  obtain rfl : n = n' := hc
  rw [show e = e' from Finmap.ext_lookup h]

@[simp] theorem put_self {s : Store K E} {k : K} {c : Option E} (h : s.entries.lookup k = c) :
    s.put k c 0 = s := by
  refine ext_lookup (fun k' => ?_) (by simp)
  by_cases hk : k' = k
  · rw [hk, lookup_put, h]
  · rw [lookup_put_ne s hk]

def cellSize (c : Option E) : Int := if c.isSome then 1 else 0

/-- By how much the counter is ahead of the number of entries. -/
def excess (s : Store K E) : Int := s.count - s.entries.keys.card

theorem card_keys_put (s : Store K E) (k : K) (c : Option E) (d : Int) :
    ((s.put k c d).entries.keys.card : Int) = s.entries.keys.card + cellSize c - cellSize (s.entries.lookup k) := by
  have hm : k ∈ s.entries.keys ↔ (s.entries.lookup k).isSome = true := by
    rw [Finmap.mem_keys, Finmap.lookup_isSome]
  cases c with
  | none =>
    have hkeys : (s.put k none d).entries.keys = s.entries.keys.erase k := by
      ext k'
      simp [put, Finmap.mem_keys]
    rw [hkeys]
    by_cases hk : k ∈ s.entries.keys
    · have hp := Finset.card_pos.2 ⟨k, hk⟩
      simp only [cellSize, hm.1 hk, Finset.card_erase_of_mem hk, Option.isSome_none]
      simp only [if_true, Bool.false_eq_true, if_false]
      omega
    · simp [cellSize, hm.not.1 hk, Finset.erase_eq_of_notMem hk]
  | some e =>
    have hkeys : (s.put k (some e) d).entries.keys = insert k s.entries.keys := by
      ext k'
      simp [put, Finmap.mem_keys, Finmap.mem_insert]
    rw [hkeys]
    by_cases hk : k ∈ s.entries.keys
    · simp [cellSize, hm.1 hk, Finset.insert_eq_of_mem hk]
    · simp [cellSize, hm.not.1 hk, Finset.card_insert_of_notMem hk]

theorem excess_put (s : Store K E) (k : K) (c : Option E) (d : Int) :
    (s.put k c d).excess = s.excess + (d - (cellSize c - cellSize (s.entries.lookup k))) := by
  simp only [excess, card_keys_put, count_put]
  omega

/-- The action depends on the cells of `P` and changes no other; by how much it moves the counter depends
on these cells too. -/
structure Local {α : Type} (P : K → Prop) (f : Store K E → α × Store K E) : Prop where
  frame : ∀ (s : Store K E) {k : K}, ¬ P k → (f s).2.entries.lookup k = s.entries.lookup k
  agree : ∀ {s t : Store K E}, (∀ k, P k → s.entries.lookup k = t.entries.lookup k) →
    (f s).1 = (f t).1 ∧ (∀ k, P k → (f s).2.entries.lookup k = (f t).2.entries.lookup k) ∧
      (f s).2.count - s.count = (f t).2.count - t.count

section Local

variable {α β : Type} {P Q : K → Prop} {f : Store K E → α × Store K E} {g : Store K E → β × Store K E}

theorem Local.comm (hPQ : ∀ k, P k → ¬ Q k) (hf : Local P f) (hg : Local Q g) (s : Store K E) :
    (g (f s).2).1 = (g s).1 ∧ (f (g s).2).1 = (f s).1 ∧ (g (f s).2).2 = (f (g s).2).2 := by
  have hQ : ∀ k, Q k → (f s).2.entries.lookup k = s.entries.lookup k := fun k hk =>
    hf.frame s fun h => hPQ k h hk
  have hP : ∀ k, P k → (g s).2.entries.lookup k = s.entries.lookup k := fun k hk => hg.frame s (hPQ k hk)
  obtain ⟨hg', hg₂, hg₃⟩ := hg.agree hQ
  obtain ⟨hf₁, hf', hf₃⟩ := hf.agree hP
  refine ⟨hg', hf₁, ext_lookup (fun k => ?_) (by omega)⟩
  by_cases hk : Q k
  · rw [hg₂ k hk, hf.frame _ fun h => hPQ k h hk]
  · rw [hg.frame _ hk]
    by_cases hk' : P k
    · rw [hf' k hk']
    · rw [hf.frame _ hk', hf.frame _ hk', hg.frame _ hk]

end Local

end Store

namespace Prog

variable {I : Interface} {K α β : Type}

def bind (p : Prog I K α) (f : α → Prog I K β) : Prog I K β :=
  match p with
  | ret a => f a
  | call k o next => call k o fun r => (next r).bind f

instance : Monad (Prog I K) where
  pure := ret
  bind := bind

theorem bind_assoc {γ : Type} (p : Prog I K α) (f : α → Prog I K β) (g : β → Prog I K γ) :
    (p >>= f) >>= g = p >>= fun a => f a >>= g := by
  induction p with
  | ret a => rfl
  | call k o next ih => exact congrArg (call k o) (funext ih)

def op (k : K) (o : I.Op) : Prog I K (I.Ret o) := call k o ret

/-- Only calls on keys of `P`. -/
def Within (P : K → Prop) : Prog I K α → Prop
  | ret _ => True
  | call k _ next => P k ∧ ∀ r, (next r).Within P

@[simp] theorem within_pure (P : K → Prop) (a : α) : (pure a : Prog I K α).Within P := trivial

theorem Within.bind {P : K → Prop} {p : Prog I K α} {f : α → Prog I K β} (hp : p.Within P)
    (hf : ∀ a, (f a).Within P) : (p >>= f).Within P := by
  induction p with
  | ret a => exact hf a
  | call k o next ih => exact ⟨hp.1, fun r => ih r (hp.2 r)⟩

theorem within_op {P : K → Prop} {k : K} (h : P k) (o : I.Op) : (op k o : Prog I K _).Within P :=
  ⟨h, fun _ => trivial⟩

/-- Whatever the calls return, the final value satisfies `Q`. -/
def Returns (Q : α → Prop) : Prog I K α → Prop
  | ret a => Q a
  | call _ _ next => ∀ r, (next r).Returns Q

theorem Returns.bind {Q : α → Prop} {R : β → Prop} {p : Prog I K α} {f : α → Prog I K β} (hp : p.Returns Q)
    (hf : ∀ a, Q a → (f a).Returns R) : (p >>= f).Returns R := by
  induction p with
  | ret a => exact hf a hp
  | call k o next ih => exact fun r => ih r (hp r)

theorem returns_op {Q : α → Prop} {k : K} {o : I.Op} {f : I.Ret o → Prog I K α} (hf : ∀ r, (f r).Returns Q) :
    (op k o >>= f).Returns Q := hf

/-- Only calls on keys of `P`, and the final value satisfies `final` if some call had a result that is not
`quiet`, or `b` holds from before. -/
def Accounts (P : K → Prop) (quiet : (o : I.Op) → I.Ret o → Bool) (final : α → Prop) : Bool → Prog I K α → Prop
  | b, ret a => b = true → final a
  | b, call k o next => P k ∧ ∀ r, (next r).Accounts P quiet final (b || !quiet o r)

section Accounts

variable {P : K → Prop} {quiet : (o : I.Op) → I.Ret o → Bool} {final : α → Prop}

theorem accounts_op {b : Bool} {k : K} (hk : P k) (o : I.Op) {f : I.Ret o → Prog I K α}
    (hf : ∀ r, (f r).Accounts P quiet final (b || !quiet o r)) : (op k o >>= f).Accounts P quiet final b :=
  ⟨hk, hf⟩

theorem Accounts.bind_quiet {γ : Type} {b b' : Bool} {Q : γ → Prop} {p : Prog I K γ} {f : γ → Prog I K α}
    (hp : p.Accounts P quiet (fun _ => False) b') (hQ : p.Returns Q)
    (hf : ∀ a, Q a → (f a).Accounts P quiet final b) : (p >>= f).Accounts P quiet final (b || b') := by
  induction p generalizing b' with
  | ret a =>
    cases b' with
    | true => exact absurd rfl hp
    | false =>
      rw [Bool.or_false]
      exact hf a hQ
  | call k o next ih =>
    refine ⟨hp.1, fun r => ?_⟩
    rw [Bool.or_assoc]
    exact ih r (hp.2 r) (hQ r)

theorem returns_true (p : Prog I K α) : p.Returns fun _ => True := by
  induction p with
  | ret a => trivial
  | call k o next ih => exact ih

theorem Accounts.within {b : Bool} {p : Prog I K α} (h : p.Accounts P quiet final b) : p.Within P := by
  induction p generalizing b with
  | ret a => trivial
  | call k o next ih => exact ⟨h.1, fun r => ih r (h.2 r)⟩

end Accounts

variable {E : Type} [DecidableEq K]

def run (S : Semantics I E) : Prog I K α → Store K E → α × Store K E
  | ret a, s => (a, s)
  | call k o next, s =>
    let (r, c, d) := S o (s.entries.lookup k)
    (next r).run S (s.put k c d)

variable {S : Semantics I E}

@[simp] theorem run_pure (a : α) (s : Store K E) : run S (pure a : Prog I K α) s = (a, s) := rfl

@[simp] theorem run_bind (p : Prog I K α) (f : α → Prog I K β) (s : Store K E) :
    run S (p >>= f) s = run S (f (run S p s).1) (run S p s).2 := by
  induction p generalizing s with
  | ret a => rfl
  | call k o next ih => exact ih _ _

def touched (S : Semantics I E) : Prog I K α → Store K E → List K
  | ret _, _ => []
  | call k o next, s =>
    let (r, c, d) := S o (s.entries.lookup k)
    k :: (next r).touched S (s.put k c d)

@[simp] theorem touched_pure (a : α) (s : Store K E) : touched S (pure a : Prog I K α) s = [] := rfl

@[simp] theorem touched_bind (p : Prog I K α) (f : α → Prog I K β) (s : Store K E) :
    touched S (p >>= f) s = touched S p s ++ touched S (f (run S p s).1) (run S p s).2 := by
  induction p generalizing s with
  | ret a => rfl
  | call k o next ih => exact congrArg (k :: ·) (ih _ _)

theorem Within.touched {P : K → Prop} {p : Prog I K α} (hp : p.Within P) (s : Store K E) :
    ∀ k ∈ Prog.touched S p s, P k := by
  induction p generalizing s with
  | ret a => exact fun _ hk => absurd hk List.not_mem_nil
  | call k o next ih =>
    intro k' hk'
    rcases List.mem_cons.1 hk' with rfl | hk'
    · exact hp.1
    · exact ih _ (hp.2 _) _ k' hk'

def isCall : Prog I K α → Bool
  | ret _ => false
  | call .. => true

theorem touched_bind_isCall (p : Prog I K α) {f : α → Prog I K β} (hf : ∀ a, (f a).isCall = false) (s : Store K E) :
    touched S (p >>= f) s = touched S p s := by
  rw [touched_bind]
  have h := hf (run S p s).1
  cases hp : f (run S p s).1 with
  | ret a => simp [touched]
  | call k o next => rw [hp] at h; cases h

theorem Within.mem_touched {x : Option K} {p : Prog I K α} (hp : p.Within (x = some ·)) (s : Store K E) (k : K) :
    k ∈ Prog.touched S p s ↔ p.isCall = true ∧ x = some k := by
  cases p with
  | ret a => simp [Prog.touched, isCall]
  | call k' o next =>
    refine ⟨fun hk => ⟨rfl, hp.touched s k hk⟩, fun ⟨_, hk⟩ => ?_⟩
    obtain rfl : k' = k := Option.some.inj (hp.1.symm.trans hk)
    exact List.mem_cons_self

theorem Returns.run {Q : α → Prop} {p : Prog I K α} (h : p.Returns Q) (s : Store K E) : Q (p.run S s).1 := by
  induction p generalizing s with
  | ret a => exact h
  | call k o next ih => exact ih _ (h _) _

/-! ### The counter -/

/-- Each operation moves the counter by the change of its cell. -/
def Counts (S : Semantics I E) : Prop :=
  ∀ o c, (S o c).2.2 = Store.cellSize (S o c).2.1 - Store.cellSize c

theorem run_excess (hS : Counts S) (p : Prog I K α) (s : Store K E) : (run S p s).2.excess = s.excess := by
  induction p generalizing s with
  | ret a => rfl
  | call k o next ih => rw [run, ih, Store.excess_put, hS, sub_self, add_zero]

/-! ### Frame and locality -/

theorem run_frame {P : K → Prop} {p : Prog I K α} (hp : p.Within P) (s : Store K E) {k : K} (hk : ¬ P k) :
    (run S p s).2.entries.lookup k = s.entries.lookup k := by
  induction p generalizing s with
  | ret a => rfl
  | call k' o next ih =>
    have hne : k ≠ k' := fun h => hk (h ▸ hp.1)
    rw [run, ih _ (hp.2 _), Store.lookup_put_ne _ hne]

theorem run_agree {P : K → Prop} {p : Prog I K α} (hp : p.Within P) {s t : Store K E}
    (h : ∀ k, P k → s.entries.lookup k = t.entries.lookup k) :
    (run S p s).1 = (run S p t).1 ∧
      (∀ k, P k → (run S p s).2.entries.lookup k = (run S p t).2.entries.lookup k) ∧
      (run S p s).2.count - s.count = (run S p t).2.count - t.count := by
  induction p generalizing s t with
  | ret a => exact ⟨rfl, h, by simp [run]⟩
  | call k o next ih =>
    simp only [run]
    rw [h k hp.1]
    generalize S o (t.entries.lookup k) = x
    obtain ⟨r, c, d⟩ := x
    have hpu : ∀ k', P k' → (s.put k c d).entries.lookup k' = (t.put k c d).entries.lookup k' := by
      intro k' hk'
      by_cases hkk : k' = k
      · subst hkk; simp
      · rw [Store.lookup_put_ne _ hkk, Store.lookup_put_ne _ hkk, h k' hk']
    obtain ⟨h₁, h₂, h₃⟩ := ih r (hp.2 r) hpu
    refine ⟨h₁, h₂, ?_⟩
    simp only [Store.count_put] at h₃ ⊢
    omega

theorem Within.isLocal {P : K → Prop} {p : Prog I K α} (hp : p.Within P) : Store.Local P (run S p) :=
  ⟨fun s _ hk => run_frame hp s hk, fun h => run_agree hp h⟩

/-! ### Accounting for changes -/

/-- Seen through `V`, which quiet calls keep, a cell changes only under a key of `P` and when the final
value says so. -/
theorem run_accounts {P : K → Prop} {quiet : (o : I.Op) → I.Ret o → Bool} {final : α → Prop} {X : Type}
    {V : Option E → X} (hV : ∀ o c, quiet o (S o c).1 = true → V (S o c).2.1 = V c)
    {b : Bool} {p : Prog I K α} (h : p.Accounts P quiet final b) (s : Store K E) :
    (b = true → final (run S p s).1) ∧ ∀ k, V ((run S p s).2.entries.lookup k) ≠ V (s.entries.lookup k) →
      P k ∧ final (run S p s).1 := by
  induction p generalizing b s with
  | ret a => exact ⟨h, fun k hk => absurd rfl hk⟩
  | call k o next ih =>
    simp only [run]
    have hq := hV o (s.entries.lookup k)
    have hr := h.2 (S o (s.entries.lookup k)).1
    generalize S o (s.entries.lookup k) = x at hq hr ⊢
    obtain ⟨r, c, d⟩ := x
    obtain ⟨hb, hc⟩ := ih r hr (s.put k c d)
    refine ⟨fun h => hb (by simp [h]), fun k' hk' => ?_⟩
    by_cases hs : V ((s.put k c d).entries.lookup k') = V (s.entries.lookup k')
    · exact hc k' (by rwa [hs])
    · -- this call changed the cell, so it was not quiet
      obtain rfl : k' = k := by
        by_contra hne
        exact hs (by rw [Store.lookup_put_ne _ hne])
      rw [Store.lookup_put] at hs
      have hl : quiet o r = false := by
        by_contra hqu
        exact hs (hq (by simpa using hqu))
      exact ⟨h.1, hb (by simp [hl])⟩

/-! ### Simulation -/

/-- Only calls of the operations that `ok` allows. -/
def Only (ok : I.Op → Prop) : Prog I K α → Prop
  | ret _ => True
  | call _ o next => ok o ∧ ∀ r, (next r).Only ok

omit [DecidableEq K] in
theorem only_true (p : Prog I K α) : p.Only fun _ => True := by
  induction p with
  | ret a => trivial
  | call k o next ih => exact ⟨trivial, ih⟩

/-- The allowed operations keep `R`, and their results do not tell the two cells apart: nor does the program. -/
theorem run_sim {ok : I.Op → Prop} {R : Option E → Option E → Prop} {T : Semantics I E}
    (hR : ∀ (o : I.Op) {c c' : Option E}, ok o → R c c' → (S o c).1 = (T o c').1 ∧ R (S o c).2.1 (T o c').2.1)
    {p : Prog I K α} (hp : p.Only ok) {s t : Store K E} (h : ∀ k, R (s.entries.lookup k) (t.entries.lookup k)) :
    (run S p s).1 = (run T p t).1 ∧
      ∀ k, R ((run S p s).2.entries.lookup k) ((run T p t).2.entries.lookup k) := by
  induction p generalizing s t with
  | ret a => exact ⟨rfl, h⟩
  | call k o next ih =>
    obtain ⟨h₁, h₂⟩ := hR o hp.1 (h k)
    simp only [run]
    rw [← h₁]
    refine ih _ (hp.2 _) fun k' => ?_
    by_cases hkk : k' = k
    · subst hkk; simpa using h₂
    · rw [Store.lookup_put_ne _ hkk, Store.lookup_put_ne _ hkk]; exact h k'

/-! ### Protocols -/

/-- What is known of a cell: which operations are allowed, and what their results add. -/
structure Protocol (I : Interface) (T : Type) where
  allowed : I.Op → T → Prop
  next : (o : I.Op) → I.Ret o → T → T

section Protocol

variable {T : Type} {pr : Protocol I T} {k : K} {Q : T → α → Prop} {t : T} {p : Prog I K α}

/-- All calls are on `k` and keep to the protocol, and the final value fits what is known then. -/
def Follows (pr : Protocol I T) (k : K) (Q : T → α → Prop) : T → Prog I K α → Prop
  | t, ret a => Q t a
  | t, call k' o cont => k' = k ∧ pr.allowed o t ∧ ∀ r, (cont r).Follows pr k Q (pr.next o r t)

omit [DecidableEq K] in
theorem Follows.within (h : p.Follows pr k Q t) : p.Within (· = k) := by
  induction p generalizing t with
  | ret a => trivial
  | call k' o cont ih => exact ⟨h.1, fun r => ih r (h.2.2 r)⟩

/-- Cells that the allowed operations do not tell apart, under two semantics. What is known in the end is new if
the program makes a call. -/
theorem Follows.run_sim {S' : Semantics I E} {R : T → Option E → Option E → Prop}
    (hR : ∀ (o : I.Op) {t : T} {c c' : Option E}, pr.allowed o t → R t c c' →
      (S o c).1 = (S' o c').1 ∧ R (pr.next o (S o c).1 t) (S o c).2.1 (S' o c').2.1)
    (hp : p.Follows pr k Q t) {s s' : Store K E} (h : R t (s.entries.lookup k) (s'.entries.lookup k)) :
    (run S p s).1 = (run S' p s').1 ∧ ∃ t', R t' ((run S p s).2.entries.lookup k) ((run S' p s').2.entries.lookup k) ∧
      Q t' (run S p s).1 ∧ (t' = t ∧ p.isCall = false ∨ ∃ o r t₀, t' = pr.next o r t₀) := by
  induction p generalizing t s s' with
  | ret a => exact ⟨rfl, t, h, hp, .inl ⟨rfl, rfl⟩⟩
  | call k' o cont ih =>
    obtain ⟨rfl, ha, hc⟩ := hp
    obtain ⟨h₁, h₂⟩ := hR o ha h
    simp only [run]
    rw [← h₁]
    have hpu : R (pr.next o (S o (s.entries.lookup k')).1 t)
        ((s.put k' (S o (s.entries.lookup k')).2.1 (S o (s.entries.lookup k')).2.2).entries.lookup k')
        ((s'.put k' (S' o (s'.entries.lookup k')).2.1 (S' o (s'.entries.lookup k')).2.2).entries.lookup k') := by
      rwa [Store.lookup_put, Store.lookup_put]
    obtain ⟨hr, t', hR', hQ, hn⟩ := ih _ (hc _) hpu
    refine ⟨hr, t', hR', hQ, .inr ?_⟩
    rcases hn with ⟨rfl, -⟩ | hn
    · exact ⟨_, _, _, rfl⟩
    · exact hn

/-- What the allowed operations keep of a cell, the program keeps. -/
theorem Follows.run {J : T → Option E → Prop}
    (hJ : ∀ (o : I.Op) {t : T} {c : Option E}, pr.allowed o t → J t c → J (pr.next o (S o c).1 t) (S o c).2.1)
    (hp : p.Follows pr k Q t) {s : Store K E} (h : J t (s.entries.lookup k)) :
    ∃ t', J t' ((Prog.run S p s).2.entries.lookup k) ∧ Q t' (Prog.run S p s).1 ∧
      (t' = t ∧ p.isCall = false ∨ ∃ o r t₀, t' = pr.next o r t₀) := by
  have hR : ∀ (o : I.Op) {t : T} {c c' : Option E}, pr.allowed o t → (c = c' ∧ J t c) →
      (S o c).1 = (S o c').1 ∧ (S o c).2.1 = (S o c').2.1 ∧ J (pr.next o (S o c).1 t) (S o c).2.1 := by
    rintro o t c _ hall ⟨rfl, hJt⟩
    exact ⟨rfl, rfl, hJ o hall hJt⟩
  have hs : s.entries.lookup k = s.entries.lookup k ∧ J t (s.entries.lookup k) := ⟨rfl, h⟩
  obtain ⟨-, t', ⟨-, hJ'⟩, hr⟩ := hp.run_sim (R := fun t c c' => c = c' ∧ J t c) hR hs
  exact ⟨t', hJ', hr⟩

end Protocol

end Prog

end KeyedStore
