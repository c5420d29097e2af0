import Mathlib.Data.List.Basic
import Mathlib.Data.Nat.Cast.Basic
import Mathlib.Algebra.Ring.Basic
import Mathlib.Tactic.Ring

/-!
# Chains of links with spans

On one level of a chain each tall element, and the header in front (`none`), has a link to the next tall element, with the
number of steps that it skips. Such links (`Chained`) stay right when an element comes or goes and the link before it is set
anew; a search along them finds the last tall element of an initial part (`walk_eq`).
-/

namespace SpanChain

open List Option

structure Link (α R : Type) where
  forward : Option α
  span : R
deriving DecidableEq

def steps {α : Type} (tall : α → Bool) : List α → Nat
  | [] => 0
  | a :: l => if tall a then 1 else steps tall l + 1

section

variable {α : Type} {tall tall' : α → Bool} {A B C D P P' C' L : List α} {a n : α}

theorem steps_append_of_not (hC : ∀ c ∈ C, tall c = false) : steps tall (C ++ B) = C.length + steps tall B := by
  induction C with
  | nil => simp
  | cons c C ih =>
    rw [cons_append, steps, hC c (by simp), if_neg (by simp), ih fun c hc => hC c (by simp [hc]), length_cons]
    omega

theorem find_append_of_not (hC : ∀ c ∈ C, tall c = false) : (C ++ B).find? tall = B.find? tall := by
  rw [List.find?_append, List.find?_eq_none.2 fun c hc => by simp [hC c hc], none_or]

theorem steps_append_of_tall (hD : ∃ d ∈ D, tall d = true) : steps tall (D ++ B) = steps tall D := by
  induction D with
  | nil => obtain ⟨d, hd, -⟩ := hD; cases hd
  | cons d D ih =>
    rw [cons_append, steps, steps]
    by_cases hd : tall d = true
    · rw [if_pos hd, if_pos hd]
    · obtain ⟨d', hd', ht⟩ := hD
      rcases mem_cons.1 hd' with rfl | hd'
      · exact absurd ht hd
      · rw [if_neg hd, if_neg hd, ih ⟨d', hd', ht⟩]

theorem find_append_of_tall (hD : ∃ d ∈ D, tall d = true) : (D ++ B).find? tall = D.find? tall := by
  rw [List.find?_append]
  cases hf : D.find? tall with
  | some d => rfl
  | none =>
    obtain ⟨d, hd, ht⟩ := hD
    exact absurd ht (List.find?_eq_none.1 hf d hd)

theorem steps_congr (h : ∀ a ∈ L, tall a = tall' a) : steps tall L = steps tall' L := by
  induction L with
  | nil => rfl
  | cons a L ih => rw [steps, steps, h a (by simp), ih fun a ha => h a (by simp [ha])]

theorem find_congr (h : ∀ a ∈ L, tall a = tall' a) : L.find? tall = L.find? tall' := by
  induction L with
  | nil => rfl
  | cons a L ih => rw [List.find?_cons, List.find?_cons, h a (by simp), ih fun a ha => h a (by simp [ha])]

/-! ### The last tall element of a list -/

/-- The list ends, but for the elements `C` that are not tall, with `P`. -/
structure Upto (tall : α → Bool) (A P C : List α) : Prop where
  eq : A = P ++ C
  rest : ∀ c ∈ C, tall c = false
  last : ∀ a, P.getLast? = some a → tall a = true

theorem getLast_append_cons (A D : List α) (a : α) : (A ++ a :: D).getLast? = (a :: D).getLast? := by
  rw [List.getLast?_append]
  cases h : (a :: D).getLast? with
  | none => simp at h
  | some b => rfl

def Linked (back : α → Option (Option α)) (L : List α) : Prop := ∀ A a B, L = A ++ a :: B → back a = some A.getLast?

theorem Linked.left {back back' : α → Option (Option α)} (h : Linked back (A ++ B)) (hA : ∀ a ∈ A, back' a = back a) : Linked back' A := by
  rintro A' a B' rfl
  rw [hA a (by simp)]
  exact h A' a (B' ++ B) (by simp)

theorem Linked.snoc {back : α → Option (Option α)} (h : Linked back A) (hn : back n = some A.getLast?) : Linked back (A ++ [n]) := by
  intro A' a B' heq
  rcases eq_nil_or_concat B' with rfl | ⟨C, c, rfl⟩
  · obtain ⟨rfl, hl⟩ := append_inj' heq rfl
    rwa [← (List.cons.inj hl).1]
  · rw [concat_eq_append, ← cons_append, ← append_assoc] at heq
    exact h A' a C (append_inj' heq rfl).1

/-- What lies between `A` and `B` is exchanged: only the first element of `B` needs a new pointer. -/
theorem Linked.exchange {back back' : α → Option (Option α)} {X : List α} (h : Linked back (A ++ X ++ B)) (hP : Linked back' P)
    (hf : ∀ b, B.head? = some b → back' b = some P.getLast?) (hr : ∀ b ∈ B.tail, back' b = back b) : Linked back' (P ++ B) := by
  intro A' a B' heq
  rcases append_eq_append_iff.1 heq with ⟨D, rfl, rfl⟩ | ⟨D, rfl, hD⟩
  · cases D with
    | nil => exact (hf a rfl).trans (by rw [append_nil])
    | cons d D =>
      rw [hr a (by simp), h (A ++ X ++ d :: D) a B' (by simp), getLast_append_cons, getLast_append_cons]
  · cases D with
    | nil => exact (hf a (by rw [show B = a :: B' from hD.symm]; rfl)).trans (by rw [append_nil])
    | cons d D =>
      obtain rfl : a = d := (List.cons.inj hD).1
      exact hP A' a D rfl

theorem mem_of_tall (hP : ∀ a, P.getLast? = some a → tall a = true) (hne : P ≠ []) : ∃ a ∈ P, tall a = true := by
  obtain ⟨P, a, rfl⟩ := (eq_nil_or_concat P).resolve_left hne
  exact ⟨a, by simp, hP a (by simp)⟩

theorem Upto.unique (h : Upto tall A P C) (h' : Upto tall A P' C') : P = P' ∧ C = C' := by
  have key : ∀ {P C P' C' D : List α}, Upto tall A P C → Upto tall A P' C' → P' = P ++ D → C = D ++ C' → D = [] := by
    intro P C P' C' D h h' hP' hC
    by_contra hne
    obtain ⟨D, d, rfl⟩ := (eq_nil_or_concat D).resolve_left hne
    have ht := h'.last d (by simp [hP'])
    rw [h.rest d (by simp [hC])] at ht
    cases ht
  rcases append_eq_append_iff.1 (h.eq.symm.trans h'.eq) with ⟨D, hP', hC⟩ | ⟨D, hP, hC'⟩
  · obtain rfl := key h h' hP' hC
    exact ⟨by simpa using hP'.symm, by simpa using hC⟩
  · obtain rfl := key h' h hP hC'
    exact ⟨by simpa using hP, by simpa using hC'.symm⟩

/-- In a list without repetitions the last element tells where an initial part ends. -/
theorem eq_of_getLast {A D P C : List α} (hn : (A ++ D).Nodup) (h : A ++ D = P ++ C) (hl : A.getLast? = P.getLast?) : A = P := by
  have key : ∀ {P D E : List α}, (P ++ E ++ D).Nodup → P.getLast? = (P ++ E).getLast? → E = [] := by
    intro P D E hn hl
    by_contra hne
    obtain ⟨E, e, rfl⟩ := (eq_nil_or_concat E).resolve_left hne
    have hm : e ∈ P := mem_of_getLast? (hl.trans (by simp))
    have := (nodup_append.1 (nodup_append.1 hn).1).2.2 e hm e (by simp)
    exact this rfl
  rcases append_eq_append_iff.1 h with ⟨E, rfl, rfl⟩ | ⟨E, rfl, rfl⟩
  · rw [← append_assoc] at hn
    rw [key hn hl, append_nil]
  · rw [key hn hl.symm, append_nil]

end

section

variable {α R : Type} [CommRing R] {tall tall' : α → Bool} {row row' : Option α → Option (Link α R)} {A B C P L : List α} {n : α}

def linkTo (R : Type) [CommRing R] (tall : α → Bool) (B : List α) : Link α R := ⟨B.find? tall, (steps tall B : R)⟩

def Chained (tall : α → Bool) (row : Option α → Option (Link α R)) (L : List α) : Prop :=
  ∀ A B, L = A ++ B → (∀ a, A.getLast? = some a → tall a = true) → row A.getLast? = some (linkTo R tall B)

theorem linkTo_append_of_tall {D : List α} (hD : ∃ d ∈ D, tall d = true) (B B' : List α) :
    linkTo R tall (D ++ B) = linkTo R tall (D ++ B') := by
  unfold linkTo
  rw [find_append_of_tall hD, find_append_of_tall hD, steps_append_of_tall hD, steps_append_of_tall hD]

theorem linkTo_append_of_not (hC : ∀ c ∈ C, tall c = false) (B : List α) :
    linkTo R tall (C ++ B) = ⟨B.find? tall, C.length + (steps tall B : R)⟩ := by
  unfold linkTo
  rw [find_append_of_not hC, steps_append_of_not hC, Nat.cast_add]

theorem linkTo_tall (hn : tall n = true) (B : List α) : linkTo R tall (n :: B) = ⟨some n, 1⟩ := by
  unfold linkTo
  rw [List.find?_cons_of_pos hn, steps, if_pos hn, Nat.cast_one]

theorem Chained.congr (h : Chained tall row L) (ht : ∀ a ∈ L, tall a = tall' a) (hr : ∀ x, (∀ a, x = some a → a ∈ L) → row' x = row x) :
    Chained tall' row' L := by
  rintro A B rfl hA
  have hl : ∀ a, A.getLast? = some a → a ∈ A ++ B := fun a ha => mem_append_left _ (mem_of_getLast? ha)
  rw [hr _ hl, h A B rfl fun a ha => (ht a (hl a ha)).trans (hA a ha)]
  have hB : ∀ a ∈ B, tall a = tall' a := fun a ha => ht a (by simp [ha])
  unfold linkTo
  rw [find_congr hB, steps_congr hB]

/-- Where the chain changes behind `A`, of the links in `A` only the one across the change is set. -/
theorem Chained.before {X Y : List α} (h : Chained tall row (A ++ X)) (hA : A.Nodup) (hP : Upto tall A P C)
    (hb : row' P.getLast? = some (linkTo R tall (C ++ Y)))
    (hf : ∀ x, (∀ a, x = some a → a ∈ A) → x ≠ P.getLast? → row' x = row x) (A' D : List α) (hAD : A = A' ++ D)
    (hl : ∀ a, A'.getLast? = some a → tall a = true) : row' A'.getLast? = some (linkTo R tall (D ++ Y)) := by
  by_cases hD : ∃ d ∈ D, tall d = true
  · have hne : A'.getLast? ≠ P.getLast? := by
      intro heq
      obtain rfl := eq_of_getLast (hAD ▸ hA) (hAD ▸ hP.eq) heq
      obtain ⟨d, hd, ht⟩ := hD
      rw [hP.rest d (by rwa [append_cancel_left (hP.eq.symm.trans hAD)])] at ht
      cases ht
    have hm : ∀ a, A'.getLast? = some a → a ∈ A := fun a ha => hAD ▸ mem_append_left _ (mem_of_getLast? ha)
    rw [hf _ hm hne, h A' (D ++ X) (by rw [hAD, append_assoc]) hl, linkTo_append_of_tall hD X Y]
  · have hu : Upto tall A A' D := ⟨hAD, fun d hd => by simpa using fun ht => hD ⟨d, hd, ht⟩, hl⟩
    obtain ⟨rfl, rfl⟩ := hu.unique hP
    exact hb

/-- The links before and after a new element are set; the other ones stay. -/
theorem Chained.insert (h : Chained tall row (A ++ B)) (hno : (A ++ n :: B).Nodup) (hP : Upto tall A P C)
    (hbe : row' P.getLast? = some (linkTo R tall (C ++ n :: B))) (hne : tall n = true → row' (some n) = some (linkTo R tall B))
    (hfr : ∀ x, x ≠ some n → x ≠ P.getLast? → row' x = row x) : Chained tall row' (A ++ n :: B) := by
  have hA : A.Nodup := (nodup_append.1 hno).1
  have hn : ∀ {x}, x ∈ A → x ≠ n := fun hx hxn => (nodup_append.1 hno).2.2 _ hx n (by simp) hxn
  have hf := h.before hA hP hbe fun x hx => hfr x fun heq => hn (hx n heq) rfl
  intro A' B' heq hl
  rcases append_eq_append_iff.1 heq with ⟨D, rfl, hD⟩ | ⟨D, hAD, rfl⟩
  · rcases D with _ | ⟨d, D⟩
    · obtain rfl : n :: B = B' := hD
      rw [append_nil] at hl ⊢
      exact hf A [] (by simp) hl
    · obtain rfl : n = d := (List.cons.inj hD).1
      obtain rfl : B = D ++ B' := (List.cons.inj hD).2
      rw [getLast_append_cons] at hl ⊢
      rcases hd : D.getLast? with _ | b
      · obtain rfl := List.getLast?_eq_none_iff.1 hd
        exact hne (hl n rfl)
      · have hb : b ∈ D := mem_of_getLast? hd
        have hc : ∀ X : List α, (X ++ D).getLast? = some b := fun X => by rw [List.getLast?_append, hd]; rfl
        have hnB : n ∉ D ++ B' := (nodup_cons.1 (nodup_append.1 hno).2.1).1
        have hbn : some b ≠ some n := fun heq => hnB (by rw [← Option.some.inj heq]; simp [hb])
        have hbP : some b ≠ P.getLast? := by
          intro heq
          have hbA : b ∈ A := hP.eq ▸ mem_append_left _ (mem_of_getLast? heq.symm)
          exact (nodup_append.1 hno).2.2 b hbA b (by simp [hb]) rfl
        have hla : (n :: D).getLast? = some b := hc [n]
        rw [hla] at hl ⊢
        rw [hfr _ hbn hbP, ← hc A]
        exact h (A ++ D) B' (by rw [append_assoc]) fun a ha => hl a (by rwa [hc] at ha)
  · exact hf A' D hAD hl

/-- The link before an element that is removed is set; the other ones stay. -/
theorem Chained.remove (h : Chained tall row (A ++ n :: B)) (hn : (A ++ n :: B).Nodup) (hP : Upto tall A P C)
    (hbe : row' P.getLast? = some (linkTo R tall (C ++ B))) (hfr : ∀ x, x ≠ P.getLast? → row' x = row x) :
    Chained tall row' (A ++ B) := by
  have hA : A.Nodup := (nodup_append.1 hn).1
  have hf := h.before hA hP hbe fun x _ => hfr x
  intro A' B' heq hl
  rcases append_eq_append_iff.1 heq with ⟨D, rfl, rfl⟩ | ⟨D, hAD, rfl⟩
  · rcases hd : D.getLast? with _ | b
    · obtain rfl := List.getLast?_eq_none_iff.1 hd
      rw [append_nil] at hl ⊢
      exact hf A [] (by simp) hl
    · have hb : b ∈ D := mem_of_getLast? hd
      have hc : ∀ X : List α, (X ++ D).getLast? = some b := fun X => by rw [List.getLast?_append, hd]; rfl
      have hbP : some b ≠ P.getLast? := by
        intro heq
        have hbA : b ∈ A := hP.eq ▸ mem_append_left _ (mem_of_getLast? heq.symm)
        exact (nodup_append.1 hn).2.2 b hbA b (by simp [hb]) rfl
      rw [hc] at hl ⊢
      rw [hfr _ hbP, ← hc (A ++ [n])]
      exact h (A ++ [n] ++ D) B' (by simp) fun a ha => hl a (by rwa [hc] at ha)
  · exact hf A' D hAD hl

/-! ### Searching and following -/

/-- The search of one level: from `x`, with `rank` steps done, along the links to elements that `goes` says come before. `none`
when an element or a link is missing, or `fuel` runs out. -/
def walk (row : Option α → Option (Link α R)) (goes : α → Option Bool) : Nat → Option α → R → Option (Option α × R)
  | 0, _, _ => none
  | fuel + 1, x, rank => do
    let l ← row x
    match l.forward with
    | none => some (x, rank)
    | some y => do
      if ← goes y then walk row goes fuel (some y) (rank + l.span) else some (x, rank)

def walkBy (row : Option α → Option (Link α R)) (goes : α → R → Option Bool) : Nat → Option α → R → Option (Option α × R)
  | 0, _, _ => none
  | fuel + 1, x, rank => do
    let l ← row x
    match l.forward with
    | none => some (x, rank)
    | some y => do
      if ← goes y (rank + l.span) then walkBy row goes fuel (some y) (rank + l.span) else some (x, rank)

theorem walk_eq_walkBy (goes : α → Option Bool) (fuel : Nat) (x : Option α) (rank : R) :
    walk row goes fuel x rank = walkBy row (fun a _ => goes a) fuel x rank := by
  induction fuel generalizing x rank with
  | zero => rfl
  | succ fuel ih => simp only [walk, walkBy, ih]

def follow (row : Option α → Option (Link α R)) : Nat → Option α → List α
  | 0, _ => []
  | fuel + 1, x => match (row x).bind Link.forward with
    | none => []
    | some y => y :: follow row fuel (some y)

theorem exists_first_tall {D : List α} (h : ∃ d ∈ D, tall d = true) :
    ∃ E d F, D = E ++ d :: F ∧ (∀ e ∈ E, tall e = false) ∧ tall d = true := by
  induction D with
  | nil => obtain ⟨d, hd, -⟩ := h; cases hd
  | cons d D ih =>
    by_cases hd : tall d = true
    · exact ⟨[], d, D, rfl, nofun, hd⟩
    · obtain ⟨d', hd', ht⟩ := h
      rcases mem_cons.1 hd' with rfl | hd'
      · exact absurd ht hd
      · obtain ⟨E, e, F, rfl, hE, he⟩ := ih ⟨d', hd', ht⟩
        exact ⟨d :: E, e, F, rfl, by simpa using ⟨by simpa using hd, hE⟩, he⟩

/-- The search stops at the last tall element of those that come before, and has counted the steps to it. -/
theorem walkBy_eq {goes : α → R → Option Bool} (h : Chained tall row (A ++ B))
    (hA : ∀ P c F, A = P ++ c :: F → goes c (P.length + 1) = some true)
    (hB : ∀ E b F, B = E ++ b :: F → goes b (A.length + E.length + 1) = some false)
    {P₀ C₀ : List α} (heq : A = P₀ ++ C₀) (hl : ∀ a, P₀.getLast? = some a → tall a = true) {fuel : Nat} (hf : C₀.length < fuel) :
    ∃ P C, Upto tall A P C ∧ walkBy row goes fuel P₀.getLast? (P₀.length : R) = some (P.getLast?, (P.length : R)) := by
  induction fuel generalizing P₀ C₀ with
  | zero => exact absurd hf (Nat.not_lt_zero _)
  | succ fuel ih =>
    rw [walkBy, h P₀ (C₀ ++ B) (by rw [heq, append_assoc]) hl]
    by_cases hC : ∃ c ∈ C₀, tall c = true
    · obtain ⟨E, c, F, rfl, hE, hc⟩ := exists_first_tall hC
      have hli : linkTo R tall (E ++ c :: F ++ B) = ⟨some c, E.length + 1⟩ := by
        rw [append_assoc, linkTo_append_of_not hE, cons_append, List.find?_cons_of_pos hc, steps, if_pos hc, Nat.cast_one]
      have hn : (P₀ ++ E ++ [c]).getLast? = some c := by simp
      have hr : (P₀.length : R) + (E.length + 1) = ((P₀ ++ E ++ [c]).length : R) := by
        simp only [length_append, length_singleton, Nat.cast_add, Nat.cast_one]
        ring
      have hg := hA (P₀ ++ E) c F (by rw [heq, append_assoc])
      rw [length_append, Nat.cast_add, add_assoc] at hg
      obtain ⟨P, C, hP, hw⟩ := @ih (P₀ ++ E ++ [c]) F (by rw [heq]; simp) (fun a ha => by rw [hn] at ha; rwa [← Option.some.inj ha])
        (by simp only [length_append, length_cons] at hf; omega)
      refine ⟨P, C, hP, ?_⟩
      rw [hli]
      simp only [bind_eq_bind, bind_some, hg, if_true]
      rw [hr, ← hn, hw]
    · have hC' : ∀ c ∈ C₀, tall c = false := fun c hc => by simpa using fun ht => hC ⟨c, hc, ht⟩
      refine ⟨P₀, C₀, ⟨heq, hC', hl⟩, ?_⟩
      rw [linkTo_append_of_not hC']
      by_cases hB' : ∃ b ∈ B, tall b = true
      · obtain ⟨E, b, F, rfl, hE, hb⟩ := exists_first_tall hB'
        have hg := hB E b F rfl
        rw [heq, length_append, Nat.cast_add, add_assoc, add_assoc] at hg
        rw [find_append_of_not hE, steps_append_of_not hE, List.find?_cons_of_pos hb, steps, if_pos hb, Nat.cast_add, Nat.cast_one]
        simp [hg]
      · rw [List.find?_eq_none.2 fun b hb ht => hB' ⟨b, hb, ht⟩]
        rfl

theorem walk_eq {goes : α → Option Bool} (h : Chained tall row (A ++ B)) (hA : ∀ a ∈ A, goes a = some true) (hB : ∀ b ∈ B, goes b = some false)
    {P₀ C₀ : List α} (heq : A = P₀ ++ C₀) (hl : ∀ a, P₀.getLast? = some a → tall a = true) {fuel : Nat} (hf : C₀.length < fuel) :
    ∃ P C, Upto tall A P C ∧ walk row goes fuel P₀.getLast? (P₀.length : R) = some (P.getLast?, (P.length : R)) := by
  rw [walk_eq_walkBy]
  exact walkBy_eq h (fun P c F hc => hA c (by simp [hc])) (fun E b F hb => hB b (by simp [hb])) heq hl hf

theorem follow_eq {fuel : Nat} (h : Chained tall row (A ++ B)) (hl : ∀ a, A.getLast? = some a → tall a = true) (hf : B.length < fuel) :
    follow row fuel A.getLast? = B.filter tall := by
  induction fuel generalizing A B with
  | zero => exact absurd hf (Nat.not_lt_zero _)
  | succ fuel ih =>
    rw [follow, h A B rfl hl]
    by_cases hB : ∃ b ∈ B, tall b = true
    · obtain ⟨E, b, F, rfl, hE, hb⟩ := exists_first_tall hB
      have hn : (A ++ E ++ [b]).getLast? = some b := by simp
      have hr := @ih (A ++ E ++ [b]) F (by simpa using h) (fun a ha => by rw [hn] at ha; rwa [← Option.some.inj ha])
        (by simp only [length_append, length_cons] at hf; omega)
      rw [linkTo_append_of_not hE, bind_some, List.find?_cons_of_pos hb]
      dsimp only
      have hs : E.filter tall = [] := filter_eq_nil_iff.2 fun e he => by simp [hE e he]
      rw [← hn, hr, filter_append, filter_cons_of_pos hb, hs]
      rfl
    · have hB' : ∀ b ∈ B, tall b = false := fun b hb => by simpa using fun ht => hB ⟨b, hb, ht⟩
      have hfi : B.find? tall = none := List.find?_eq_none.2 fun b hb => by simp [hB' b hb]
      rw [bind_some, linkTo, hfi, filter_eq_nil_iff.2 fun b hb => by simp [hB' b hb]]

end

end SpanChain
