import VortexKV.SkipListHeap

/-!
# The links of the skip list

What the loops over the levels do to the links (`splice_rows`, `widen_rows`, `unlink_rows`): each turn sets links of its own level only, and
nothing but links. `Rep` relates a skip list to the list of its nodes in order, and the search finds on every level the last node
before a key (`Rep.search`).
-/

namespace VortexKV

open SpanChain Option

namespace SkipListHeap

variable {S M : Type} [LinearOrder S] [LinearOrder M]

structure Shape (S M : Type) where
  member : M
  score : S
  backward : Option Nat
  height : Nat

def shape (n : SkipListNode S M) : Shape S M := ⟨n.member, n.score, n.backward, n.level.length⟩

def node (sl : SkipListHeap S M) (a : Nat) : Option (Shape S M) := sl.heap[a]?.map shape

def tall (sl : SkipListHeap S M) (i a : Nat) : Bool := (sl.node a).any (i < ·.height)

structure Same (sl sl' : SkipListHeap S M) : Prop where
  node : ∀ a, sl'.node a = sl.node a
  size : sl'.heap.length = sl.heap.length
  header : sl'.header.length = sl.header.length
  tail : sl'.tail = sl.tail
  length : sl'.length = sl.length
  level : sl'.level = sl.level
  dict : sl'.dict = sl.dict

section

variable {sl sl' sl'' : SkipListHeap S M} {i j k a : Nat} {x y : Option Nat} {l : SkipListLevel}

omit [LinearOrder S] [LinearOrder M]

theorem Same.refl (sl : SkipListHeap S M) : Same sl sl := ⟨fun _ => rfl, rfl, rfl, rfl, rfl, rfl, rfl⟩

theorem Same.trans (h : Same sl sl') (h' : Same sl' sl'') : Same sl sl'' :=
  ⟨fun a => (h'.node a).trans (h.node a), h'.size.trans h.size, h'.header.trans h.header, h'.tail.trans h.tail,
    h'.length.trans h.length, h'.level.trans h.level, h'.dict.trans h.dict⟩

theorem Same.tall (h : Same sl sl') (i a : Nat) : sl'.tall i a = sl.tall i a := by
  unfold SkipListHeap.tall
  rw [h.node]

theorem row_isSome : (sl.row i (some a)).isSome = sl.tall i a := by
  unfold SkipListHeap.tall node
  change (sl.heap[a]?.bind fun n => n.level[i]?).isSome = _
  cases sl.heap[a]? with
  | none => rfl
  | some n =>
    rw [Bool.eq_iff_iff]
    simp [shape]

end

section

variable {sl : SkipListHeap S M} {i : Nat} {x : Option Nat}

omit [LinearOrder S] [LinearOrder M]

theorem setRow_eq (h : (sl.row i x).isSome) (l : SkipListLevel) : ∃ sl', sl.setRow i x l = some sl' ∧ Same sl sl' ∧
    ∀ j y, sl'.row j y = if j = i ∧ y = x then some l else sl.row j y := by
  cases x with
  | none =>
    have hi : i < sl.header.length := by simpa [row] using h
    refine ⟨_, if_pos hi, ⟨fun _ => rfl, rfl, by simp, rfl, rfl, rfl, rfl⟩, fun j y => ?_⟩
    cases y with
    | none =>
      by_cases hj : j = i
      · subst hj
        simp [row, hi]
      · simp [row, List.getElem?_set_ne (Ne.symm hj), hj]
    | some a => simp [row]
  | some a =>
    obtain ⟨l₀, hl⟩ := isSome_iff_exists.1 h
    obtain ⟨n, hn, hl⟩ := bind_eq_some_iff.1 hl
    have hi : i < n.level.length := (List.getElem?_eq_some_iff.1 hl).1
    have ha : a < sl.heap.length := (List.getElem?_eq_some_iff.1 hn).1
    have hset : ∀ b, (sl.heap.set a { n with level := n.level.set i l })[b]? =
        if b = a then some { n with level := n.level.set i l } else sl.heap[b]? := by
      intro b
      split
      · rename_i hb
        rw [hb, List.getElem?_set_self ha]
      · rename_i hb
        rw [List.getElem?_set_ne (Ne.symm hb)]
    refine ⟨{ sl with heap := sl.heap.set a { n with level := n.level.set i l } }, by simp [setRow, hn, hi],
      ⟨fun b => ?_, by simp, rfl, rfl, rfl, rfl, rfl⟩, fun j y => ?_⟩
    · unfold node
      rw [hset]
      split
      · rename_i hb
        rw [hb, hn]
        simp [shape]
      · rfl
    · cases y with
      | none => simp [row]
      | some b =>
        dsimp only [row]
        rw [hset]
        by_cases hb : b = a
        · subst hb
          rw [if_pos rfl, bind_some, hn, bind_some]
          by_cases hj : j = i
          · subst hj
            rw [if_pos ⟨rfl, rfl⟩, List.getElem?_set_self hi]
          · rw [if_neg fun h => hj h.1, List.getElem?_set_ne (Ne.symm hj)]
        · rw [if_neg hb, if_neg fun h => hb (Option.some.inj h.2)]

/-! ### Loops over the levels -/

abbrev Row := Option Nat → Option SkipListLevel

theorem forLevels_rows {step : Nat → SkipListHeap S M → Option (SkipListHeap S M)} (ok : Nat → Row → Prop) (g : Nat → Row → Row)
    (hstep : ∀ j sl₁, Same sl sl₁ → ok j (sl₁.row j) → ∃ sl₂, step j sl₁ = some sl₂ ∧ Same sl₁ sl₂ ∧ sl₂.row j = g j (sl₁.row j) ∧
      ∀ j', j' ≠ j → sl₂.row j' = sl₁.row j')
    (i k : Nat) (hok : ∀ j, i ≤ j → j < i + k → ok j (sl.row j)) : ∃ sl', forLevels step i k sl = some sl' ∧ Same sl sl' ∧
      ∀ j, sl'.row j = if i ≤ j ∧ j < i + k then g j (sl.row j) else sl.row j := by
  induction k generalizing sl i with
  | zero =>
    refine ⟨sl, rfl, .refl sl, fun j => ?_⟩
    rw [if_neg (by omega)]
  | succ k ih =>
    obtain ⟨sl₁, h₁, hs, hr, ho⟩ := hstep i sl (.refl sl) (hok i (le_refl _) (by omega))
    obtain ⟨sl', h', hsa, hro⟩ := @ih sl₁ (fun j sl₂ hsl => hstep j sl₂ (hs.trans hsl)) (i + 1) fun j hij hjk => by
      rw [ho j (by omega)]
      exact hok j (by omega) (by omega)
    refine ⟨sl', by rw [forLevels, h₁, bind_some, h'], hs.trans hsa, fun j => ?_⟩
    rw [hro]
    by_cases hj : j = i
    · subst hj
      rw [if_neg (by omega), if_pos (by omega), hr]
    · rw [ho j hj]
      by_cases hin : i ≤ j ∧ j < i + (k + 1)
      · rw [if_pos hin, if_pos (by omega)]
      · rw [if_neg hin, if_neg (by omega)]

def Row.set (row : Row) (x : Option Nat) (l : SkipListLevel) : Row := fun y => if y = x then some l else row y

theorem setRow_rows (h : (sl.row i x).isSome) (l : SkipListLevel) : ∃ sl', sl.setRow i x l = some sl' ∧ Same sl sl' ∧
    sl'.row i = Row.set (sl.row i) x l ∧ ∀ j, j ≠ i → sl'.row j = sl.row j := by
  obtain ⟨sl', hset, hs, hr⟩ := setRow_eq h l
  refine ⟨sl', hset, hs, funext fun y => ?_, fun j hj => funext fun y => ?_⟩
  · rw [hr]
    simp [Row.set]
  · rw [hr, if_neg fun h => hj h.1]

variable {path : List (Option Nat × BitVec 64)} {u : Nat → Option Nat} {rank : Nat → BitVec 64} {i k : Nat}

theorem raise_rows (i k : Nat) (hi : i + k ≤ sl.header.length) : ∃ sl', forLevels raise i k sl = some sl' ∧ Same sl sl' ∧
    ∀ j, sl'.row j = if i ≤ j ∧ j < i + k then
      Row.set (sl.row j) none ⟨(sl.row j none).bind Link.forward, sl.length⟩ else sl.row j := by
  refine forLevels_rows (fun _ row => (row none).isSome) (fun j row => Row.set row none ⟨(row none).bind Link.forward, sl.length⟩)
    (fun j sl₁ hsa hok => ?_) i k fun j hij hjk => ?_
  · obtain ⟨l, hl⟩ := isSome_iff_exists.1 hok
    obtain ⟨sl₂, hset, hs, hr, ho⟩ := setRow_rows hok { l with span := sl₁.length }
    refine ⟨sl₂, by simp only [raise, hl, bind_eq_bind, bind_some, hset], hs, ?_, ho⟩
    rw [hr, hl, bind_some, hsa.length]
  · have hj : j < sl.header.length := by omega
    simp [row, hj]

theorem widen_rows (i k : Nat) (hp : ∀ j, i ≤ j → j < i + k → path[j]? = some (u j, rank j)) {l : Nat → SkipListLevel}
    (hro : ∀ j, i ≤ j → j < i + k → sl.row j (u j) = some (l j)) : ∃ sl', forLevels (widen path) i k sl = some sl' ∧ Same sl sl' ∧
      ∀ j, sl'.row j = if i ≤ j ∧ j < i + k then Row.set (sl.row j) (u j) ⟨(l j).forward, (l j).span + 1⟩ else sl.row j := by
  refine forLevels_rows (fun j row => path[j]? = some (u j, rank j) ∧ row (u j) = some (l j))
    (fun j row => Row.set row (u j) ⟨(l j).forward, (l j).span + 1⟩)
    (fun j sl₁ hsa hok => ?_) i k fun j hij hjk => ⟨hp j hij hjk, hro j hij hjk⟩
  obtain ⟨sl₂, hset, hs, hr, ho⟩ := setRow_rows (by rw [hok.2]; rfl) ⟨(l j).forward, (l j).span + 1⟩
  exact ⟨sl₂, by simp only [widen, hok.1, hok.2, bind_eq_bind, bind_some, hset], hs, hr, ho⟩

theorem splice_rows {n : Nat} (rank₀ : BitVec 64) (i k : Nat) (hpa : ∀ j, i ≤ j → j < i + k → path[j]? = some (u j, rank j))
    (hu : ∀ j, i ≤ j → j < i + k → u j ≠ some n) {l : Nat → SkipListLevel}
    (hrw : ∀ j, i ≤ j → j < i + k → sl.row j (u j) = some (l j)) (hn : ∀ j, i ≤ j → j < i + k → (sl.row j (some n)).isSome) :
    ∃ sl', forLevels (splice n path rank₀) i k sl = some sl' ∧ Same sl sl' ∧
      ∀ j, sl'.row j = if i ≤ j ∧ j < i + k then
        Row.set (Row.set (sl.row j) (some n) ⟨(l j).forward, (l j).span - (rank₀ - rank j)⟩) (u j) ⟨some n, rank₀ - rank j + 1⟩
        else sl.row j := by
  refine forLevels_rows (fun j row => (path[j]? = some (u j, rank j) ∧ u j ≠ some n) ∧ row (u j) = some (l j) ∧ (row (some n)).isSome)
    (fun j row => Row.set (Row.set row (some n) ⟨(l j).forward, (l j).span - (rank₀ - rank j)⟩) (u j) ⟨some n, rank₀ - rank j + 1⟩)
    (fun j sl₁ hsm hok => ?_) i k fun j hij hjk => ⟨⟨hpa j hij hjk, hu j hij hjk⟩, hrw j hij hjk, hn j hij hjk⟩
  obtain ⟨⟨hp, hne⟩, hl, hnw⟩ := hok
  obtain ⟨sl₂, hse, hsa, hr, hot⟩ := setRow_rows hnw ⟨(l j).forward, (l j).span - (rank₀ - rank j)⟩
  have ht : (sl₂.row j (u j)).isSome := by
    rw [hr, Row.set, if_neg hne, hl]
    rfl
  obtain ⟨sl₃, hst, hs, hro, ho⟩ := setRow_rows ht ⟨some n, rank₀ - rank j + 1⟩
  refine ⟨sl₃, by simp only [splice, hp, hl, bind_eq_bind, bind_some, hse, hst], hsa.trans hs, by rw [hro, hr], fun j' hj' => ?_⟩
  rw [ho j' hj', hot j' hj']

theorem unlink_rows {t : Nat} (i k : Nat) (hpa : ∀ j, i ≤ j → j < i + k → path[j]? = some (u j, rank j)) {l lt : Nat → SkipListLevel}
    (hro : ∀ j, i ≤ j → j < i + k → sl.row j (u j) = some (l j))
    (ht : ∀ j, i ≤ j → j < i + k → (l j).forward = some t → sl.row j (some t) = some (lt j)) :
    ∃ sl', forLevels (unlink t path) i k sl = some sl' ∧ Same sl sl' ∧
      ∀ j, sl'.row j = if i ≤ j ∧ j < i + k then
        Row.set (sl.row j) (u j) (if (l j).forward = some t then ⟨(lt j).forward, (l j).span + ((lt j).span - 1)⟩
          else ⟨(l j).forward, (l j).span - 1⟩)
        else sl.row j := by
  refine forLevels_rows (fun j row => path[j]? = some (u j, rank j) ∧ row (u j) = some (l j) ∧
      ((l j).forward = some t → row (some t) = some (lt j)))
    (fun j row => Row.set row (u j) (if (l j).forward = some t then ⟨(lt j).forward, (l j).span + ((lt j).span - 1)⟩
          else ⟨(l j).forward, (l j).span - 1⟩))
    (fun j sl₁ hsa hok => ?_) i k fun j hij hjk => ⟨hpa j hij hjk, hro j hij hjk, ht j hij hjk⟩
  obtain ⟨hp, hl, hlt⟩ := hok
  obtain ⟨sl₂, hset, hs, hr, ho⟩ := setRow_rows (by rw [hl]; rfl)
    (if (l j).forward = some t then ⟨(lt j).forward, (l j).span + ((lt j).span - 1)⟩ else ⟨(l j).forward, (l j).span - 1⟩)
  refine ⟨sl₂, ?_, hs, hr, ho⟩
  by_cases hf : (l j).forward = some t
  · rw [if_pos hf] at hset
    simp only [unlink, hp, hl, hlt hf, bind_eq_bind, bind_some, if_pos hf, hset]
  · rw [if_neg hf] at hset
    simp only [unlink, hp, hl, bind_eq_bind, bind_some, if_neg hf, hset]

end

/-! ### A skip list and its nodes in order -/

def Before (sl : SkipListHeap S M) (a b : Nat) : Prop :=
  ∀ n n', sl.node a = some n → sl.node b = some n' → n.score < n'.score ∨ n.score = n'.score ∧ n.member < n'.member

/-- The skip list consists of the nodes `L`, in this order. -/
structure Rep (sl : SkipListHeap S M) (L : List Nat) : Prop where
  level_pos : 1 ≤ sl.level
  level_le : sl.level ≤ skipListMaxLevel
  header : sl.header.length = skipListMaxLevel
  nodup : L.Nodup
  nodes : ∀ a ∈ L, ∃ n, sl.node a = some n ∧ 1 ≤ n.height ∧ n.height ≤ sl.level
  sorted : L.Pairwise sl.Before
  chained : ∀ i, i < sl.level → Chained (sl.tall i) (sl.row i) L
  unused : ∀ i, sl.level ≤ i → (sl.row i none).bind Link.forward = none
  backward : ∀ A a B, L = A ++ a :: B → (sl.node a).map Shape.backward = some A.getLast?
  tail : sl.tail = L.getLast?
  length : sl.length = (L.length : BitVec 64)
  dict : ∀ m s, sl.dict.lookup m = some s ↔ ∃ a ∈ L, ∃ n, sl.node a = some n ∧ n.member = m ∧ n.score = s

section

variable {sl : SkipListHeap S M} {L A B : List Nat} {score : S} {member : M} {i j a : Nat}

omit [LinearOrder S] [LinearOrder M] in
theorem tall_iff : sl.tall i a = true ↔ ∃ n, sl.node a = some n ∧ i < n.height := by
  unfold tall
  cases sl.node a <;> simp

omit [LinearOrder S] [LinearOrder M] in
theorem tall_mono (hij : j ≤ i) (h : sl.tall i a = true) : sl.tall j a = true := by
  obtain ⟨n, hn, hi⟩ := tall_iff.1 h
  exact tall_iff.2 ⟨n, hn, by omega⟩

omit [LinearOrder S] [LinearOrder M] in
theorem lt_of_node {n : Shape S M} (h : sl.node a = some n) : a < sl.heap.length := by
  obtain ⟨n', hn', -⟩ := map_eq_some_iff.1 h
  exact (List.getElem?_eq_some_iff.1 hn').1

theorem Rep.length_le (h : Rep sl L) : L.length ≤ sl.heap.length := by
  have hs : L ⊆ List.range sl.heap.length := fun a ha => by
    obtain ⟨n, hn, -⟩ := h.nodes a ha
    exact List.mem_range.2 (lt_of_node hn)
  simpa using (h.nodup.subperm hs).length_le

theorem Rep.fuel (h : Rep sl (A ++ B)) {P C : List Nat} (heq : A = P ++ C) : C.length < sl.heap.length + 1 := by
  have hle := h.length_le
  rw [heq] at hle
  simp only [List.length_append] at hle
  omega

theorem Rep.searchFrom (h : Rep sl (A ++ B)) (hA : ∀ a ∈ A, sl.goes score member a = some true) (hB : ∀ b ∈ B, sl.goes score member b = some false)
    {i : Nat} (hi : i ≤ sl.level) (P₀ : List Nat) {C₀ : List Nat} (heq : A = P₀ ++ C₀)
    (hl : ∀ a, P₀.getLast? = some a → ∀ j < i, sl.tall j a = true) (acc : List (Option Nat × BitVec 64)) (hac : ∀ j < acc.length, ∃ P C, Upto (sl.tall (i + j)) A P C ∧ acc[j]? = some (P.getLast?, (P.length : BitVec 64))) :
    ∃ path, sl.searchFrom score member i P₀.getLast? (P₀.length : BitVec 64) acc = some path ∧ path.length = i + acc.length ∧
      ∀ j < i + acc.length, ∃ P C, Upto (sl.tall j) A P C ∧ path[j]? = some (P.getLast?, (P.length : BitVec 64)) := by
  induction i generalizing P₀ C₀ acc with
  | zero => exact ⟨acc, rfl, by simp, by simpa using hac⟩
  | succ i ih =>
    obtain ⟨P, C, hP, hw⟩ := walk_eq (h.chained i hi) hA hB heq (fun a ha => hl a ha i (by omega)) (h.fuel heq)
    have hn := ih (by omega) P hP.eq (fun a ha j hj => tall_mono (by omega) (hP.last a ha)) ((P.getLast?, (P.length : BitVec 64)) :: acc)
      fun j hj => by
        cases j with
        | zero => exact ⟨P, C, hP, rfl⟩
        | succ j =>
          obtain ⟨P', C', hP', hget⟩ := hac j (by simpa using hj)
          exact ⟨P', C', by rwa [show i + (j + 1) = i + 1 + j by omega], by simpa using hget⟩
    obtain ⟨path, hs, hlen, hp⟩ := hn
    rw [List.length_cons] at hlen hp
    refine ⟨path, ?_, by omega, fun j hj => hp j (by omega)⟩
    simp only [SkipListHeap.searchFrom, hw, bind_eq_bind, bind_some, hs]

theorem Rep.search (h : Rep sl (A ++ B)) (hA : ∀ a ∈ A, sl.goes score member a = some true) (hB : ∀ b ∈ B, sl.goes score member b = some false) :
    ∃ path, sl.search score member = some path ∧ path.length = sl.level ∧
      ∀ j < sl.level, ∃ P C, Upto (sl.tall j) A P C ∧ path[j]? = some (P.getLast?, (P.length : BitVec 64)) :=
  h.searchFrom hA hB (le_refl _) [] rfl (fun _ ha => nomatch ha) [] (fun _ hj => absurd hj (Nat.not_lt_zero _))

end

end SkipListHeap

end VortexKV
