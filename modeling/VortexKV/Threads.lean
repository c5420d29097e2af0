import VortexKV.KeyedStore
import Mathlib.Logic.Function.Basic

/-!
# Threads over a shared state

The code of a thread (`Code`) is a sequence of atomic actions on a shared state, each with a label such as its time. A
schedule says whose turn it is. What every turn keeps holds after every schedule (`System.run_inv`); a thread that `Obeys`
keeps to a relation as long as the others do (`System.run_obeys`). A program over a keyed store is the code that makes one
call per action (`ofProg`).
-/

namespace Threads

open List Function

inductive Code (ℓ σ α : Type)
  | ret (a : α)
  | act (effect : ℓ → σ → σ) (next : ℓ → σ → Code ℓ σ α)

variable {ι ℓ σ α β : Type}

namespace Code

def bind : Code ℓ σ α → (α → Code ℓ σ β) → Code ℓ σ β
  | ret a, f => f a
  | act effect next, f => act effect fun l s => (next l s).bind f

instance : Monad (Code ℓ σ) where
  pure := ret
  bind := bind

def atomic (f : ℓ → σ → α × σ) : Code ℓ σ α := act (fun l s => (f l s).2) fun l s => ret (f l s).1

/-- How the thread goes on after its next action. -/
def next (l : ℓ) (s : σ) : Code ℓ σ α → Code ℓ σ α
  | ret a => ret a
  | act _ next => next l s

def effect (l : ℓ) (s : σ) : Code ℓ σ α → σ
  | ret _ => s
  | act effect _ => effect l s

def alone (l : ℓ) : Code ℓ σ α → σ → α × σ
  | ret a, s => (a, s)
  | act effect next, s => (next l s).alone l (effect l s)

theorem alone_next (l : ℓ) (c : Code ℓ σ α) (s : σ) : c.alone l s = (c.next l s).alone l (c.effect l s) := by
  cases c <;> rfl

/-- From the state on, as long as what the others do in between is within `R`, so is every action with an admissible
label, and the last one, which returns `a`, is within `fin a`. -/
def Obeys (P : ℓ → Prop) (R : σ → σ → Prop) (fin : α → σ → σ → Prop) : Code ℓ σ α → σ → Prop
  | ret _, _ => True
  | act effect next, s => ∀ s' l, P l → R s s' → R s' (effect l s') ∧
      (∀ a, next l s' = ret a → fin a s' (effect l s')) ∧ (next l s').Obeys P R fin (effect l s')

section Obeys

variable {P : ℓ → Prop} {R : σ → σ → Prop} {fin : α → σ → σ → Prop}

theorem obeys_atomic {f : ℓ → σ → β × σ} {g : β → Code ℓ σ α} {s : σ} (h : ∀ s' l, P l → R s s' →
    R s' (f l s').2 ∧ (∀ a, g (f l s').1 = ret a → fin a s' (f l s').2) ∧
      (g (f l s').1).Obeys P R fin (f l s').2) : (atomic f >>= g).Obeys P R fin s := h

/-- What the others do does not matter, as long as they keep to the relation. -/
theorem Obeys.of_rel (ht : ∀ {a b c}, R a b → R b c → R a c) {c : Code ℓ σ α} {s s' : σ}
    (h : c.Obeys P R fin s) (hs : R s s') : c.Obeys P R fin s' := by
  cases c with
  | ret a => trivial
  | act effect next => exact fun s'' l hl hs' => h s'' l hl (ht hs hs')

end Obeys

end Code

open Code

structure System (ι ℓ σ α : Type) where
  threads : ι → Code ℓ σ α
  shared : σ

namespace System

variable [DecidableEq ι]

def turn (c : System ι ℓ σ α) (p : ι × ℓ) : System ι ℓ σ α :=
  ⟨Function.update c.threads p.1 ((c.threads p.1).next p.2 c.shared), (c.threads p.1).effect p.2 c.shared⟩

def run (sched : List (ι × ℓ)) (c : System ι ℓ σ α) : System ι ℓ σ α := sched.foldl turn c

variable {c : System ι ℓ σ α}

@[simp] theorem run_cons (p : ι × ℓ) (sched : List (ι × ℓ)) (c : System ι ℓ σ α) :
    run (p :: sched) c = run sched (c.turn p) := rfl

theorem run_append (sched sched' : List (ι × ℓ)) (c : System ι ℓ σ α) :
    run (sched ++ sched') c = run sched' (run sched c) := foldl_append

@[simp] theorem turn_threads_self (c : System ι ℓ σ α) (i : ι) (l : ℓ) :
    (c.turn (i, l)).threads i = (c.threads i).next l c.shared := update_self ..

theorem turn_threads_ne (c : System ι ℓ σ α) {i j : ι} (h : j ≠ i) (l : ℓ) :
    (c.turn (i, l)).threads j = c.threads j := update_of_ne h ..

theorem turn_ret {i : ι} {a : α} (h : c.threads i = ret a) (l : ℓ) : c.turn (i, l) = c := by
  obtain ⟨threads, s⟩ := c
  have hi : threads i = ret a := h
  simp only [turn, hi, Code.next, Code.effect, mk.injEq, and_true]
  rw [← hi, update_eq_self]

/-- An invariant of the admissible turns holds after every schedule of them. -/
theorem run_inv {J : System ι ℓ σ α → Prop} {P : ι × ℓ → Prop}
    (ht : ∀ c i l, P (i, l) → J c → J (c.turn (i, l))) {sched : List (ι × ℓ)} (hP : ∀ p ∈ sched, P p) (h : J c) :
    J (run sched c) := by
  induction sched generalizing c with
  | nil => exact h
  | cons p sched ih =>
    exact ih (fun q hq => hP q (mem_cons_of_mem _ hq)) (ht c p.1 p.2 (hP p mem_cons_self) h)

section Obeys

variable {P : ℓ → Prop} {R : σ → σ → Prop} {fin : ι → α → σ → σ → Prop}

theorem turn_obeys {i : ι} {l : ℓ} (hr : ∀ s, R s s) (h : (c.threads i).Obeys P R (fin i) c.shared) (hl : P l) :
    c.turn (i, l) = c ∨ R c.shared (c.turn (i, l)).shared ∧
      (∀ a, (c.turn (i, l)).threads i = ret a → fin i a c.shared (c.turn (i, l)).shared) ∧
      ((c.turn (i, l)).threads i).Obeys P R (fin i) (c.turn (i, l)).shared := by
  cases hi : c.threads i with
  | ret a => exact .inl (turn_ret hi l)
  | act effect next =>
    have hse : (c.turn (i, l)).threads i = next l c.shared := by
      rw [turn_threads_self, hi]
      rfl
    have hs : (c.turn (i, l)).shared = effect l c.shared := by
      simp only [turn, hi]
      rfl
    rw [hi] at h
    rw [hse, hs]
    exact .inr (h c.shared l hl (hr _))

/-- When all threads keep to one relation, they go on doing so, and what every such turn keeps holds after every schedule. -/
theorem run_obeys {K : System ι ℓ σ α → Prop} (hre : ∀ s, R s s) (ht : ∀ {a b c}, R a b → R b c → R a c)
    (htu : ∀ c i l, K c → R c.shared (c.turn (i, l)).shared →
      (∀ a, (c.turn (i, l)).threads i = ret a → fin i a c.shared (c.turn (i, l)).shared) → K (c.turn (i, l)))
    {sched : List (ι × ℓ)} (hP : ∀ p ∈ sched, P p.2) (h : ∀ i, (c.threads i).Obeys P R (fin i) c.shared) (hK : K c) :
    K (run sched c) := by
  refine (run_inv (J := fun c => (∀ i, (c.threads i).Obeys P R (fin i) c.shared) ∧ K c) (P := fun p => P p.2) ?_ hP ⟨h, hK⟩).2
  rintro c i l hl ⟨h, hK⟩
  rcases turn_obeys hre (h i) hl with hs | ⟨hr, hla, ho⟩
  · rw [hs]
    exact ⟨h, hK⟩
  · refine ⟨fun j => ?_, htu c i l hK hr hla⟩
    by_cases hji : j = i
    · rw [hji]
      exact ho
    · rw [turn_threads_ne c hji]
      exact Obeys.of_rel @ht (h j) hr

end Obeys

/-- After enough turns in a row a thread has finished, as it would alone. -/
theorem run_alone (c : System ι ℓ σ α) (i : ι) (l : ℓ) : ∃ n, run (List.replicate n (i, l)) c =
    ⟨Function.update c.threads i (ret ((c.threads i).alone l c.shared).1), ((c.threads i).alone l c.shared).2⟩ := by
  obtain ⟨threads, s⟩ := c
  dsimp only
  generalize h : threads i = code
  induction code generalizing threads s with
  | ret a => exact ⟨0, by rw [Code.alone, ← h, update_eq_self]; rfl⟩
  | act effect next ih =>
    obtain ⟨n, hn⟩ := ih l s (Function.update threads i (next l s)) (effect l s) (update_self ..)
    refine ⟨n + 1, ?_⟩
    rw [replicate_succ, run_cons]
    simp only [turn, h, Code.next, Code.effect]
    rw [hn, update_idem]
    rfl

end System

section Programs

open KeyedStore

variable {I : Interface} {K E : Type} [DecidableEq K] (S : ℓ → Semantics I E)

def ofProg : Prog I K α → Code ℓ (Store K E) α
  | .ret a => ret a
  | .call k o cont => act (fun l s => s.put k (S l o (s.entries.lookup k)).2.1 (S l o (s.entries.lookup k)).2.2)
      fun l s => ofProg (cont (S l o (s.entries.lookup k)).1)

@[simp] theorem alone_ofProg (l : ℓ) (p : Prog I K α) (s : Store K E) :
    (ofProg S p).alone l s = p.run (S l) s := by
  induction p generalizing s with
  | ret a => rfl
  | call k o next ih => exact ih _ _

end Programs

end Threads
