import VortexKV.Proofs.SkipListLinks
import Mathlib.Data.List.TakeWhile

/-!
# The invariant of the skip list

`skipList_sound`: whatever is inserted and deleted, and whatever the heights of the nodes, the operations end and leave the
chains, the spans below `Level`, `Backward`, `Tail` and `Length` as they should be.
-/

namespace VortexKV

open SpanChain List Finmap

namespace SkipListHeap

variable {S M : Type} [LinearOrder S] [LinearOrder M]

section

variable {sl sl' : SkipListHeap S M} {i a : Nat}

omit [LinearOrder S] [LinearOrder M]

theorem setBackward_eq {s : Shape S M} (h : sl.node a = some s) (b : Option Nat) : ∃ sl', sl.setBackward a b = some sl' ∧
    (∀ c, sl'.node c = if c = a then some { s with backward := b } else sl.node c) ∧ sl'.row = sl.row ∧ sl'.header = sl.header ∧
      sl'.tail = sl.tail ∧ sl'.length = sl.length ∧ sl'.level = sl.level ∧ sl'.dict = sl.dict := by
  obtain ⟨nd, hnd, rfl⟩ := Option.map_eq_some_iff.1 h
  have ha : a < sl.heap.length := (List.getElem?_eq_some_iff.1 hnd).1
  have hset : ∀ c, (sl.heap.set a { nd with backward := b })[c]? = if c = a then some { nd with backward := b } else sl.heap[c]? := by
    intro c
    split
    · rename_i hc
      rw [hc, List.getElem?_set_self ha]
    · rename_i hc
      rw [List.getElem?_set_ne (Ne.symm hc)]
  refine ⟨{ sl with heap := sl.heap.set a { nd with backward := b } }, by simp [setBackward, hnd], fun c => ?_, ?_, rfl, rfl, rfl, rfl, rfl⟩
  · unfold node
    rw [hset]
    split <;> rfl
  · funext i x
    cases x with
    | none => rfl
    | some c =>
      dsimp only [row]
      rw [hset]
      by_cases hc : c = a
      · rw [if_pos hc, hc, hnd]
        rfl
      · rw [if_neg hc]

theorem setPrevious_eq {next : Option Nat} (h : ∀ a, next = some a → ∃ s, sl.node a = some s) (b : Option Nat) :
    ∃ sl', sl.setPrevious next b = some sl' ∧
      (∀ a, sl'.node a = if next = some a then (sl.node a).map fun s => { s with backward := b } else sl.node a) ∧ sl'.row = sl.row ∧
      sl'.header = sl.header ∧ sl'.tail = (if next = none then b else sl.tail) ∧ sl'.length = sl.length ∧ sl'.level = sl.level ∧
      sl'.dict = sl.dict := by
  cases next with
  | none => exact ⟨_, rfl, fun a => rfl, rfl, rfl, rfl, rfl, rfl, rfl⟩
  | some c =>
    obtain ⟨s, hs⟩ := h c rfl
    obtain ⟨sl', hset, hn, hr⟩ := setBackward_eq hs b
    refine ⟨sl', hset, fun a => ?_, ?_⟩
    · rw [hn]
      by_cases ha : a = c
      · rw [if_pos ha, if_pos (by rw [ha]), ha, hs]
        rfl
      · rw [if_neg ha, if_neg fun heq => ha (Option.some.inj heq).symm]
    · rwa [if_neg (by simp)]

theorem tall_congr (h : (sl'.node a).map Shape.height = (sl.node a).map Shape.height) : sl'.tall i a = sl.tall i a := by
  have ha : ∀ x : Option (Shape S M), x.any (i < ·.height) = (x.map Shape.height).any (i < ·) := by
    rintro (_ | s) <;> rfl
  rw [tall, tall, ha, ha, h]

theorem getElem_push (nd : SkipListNode S M) (a : Nat) :
    (sl.push nd).heap[a]? = if a = sl.heap.length then some nd else sl.heap[a]? := by
  unfold push
  split
  · rename_i ha
    rw [ha, List.getElem?_concat_length]
  · rename_i ha
    rcases Nat.lt_or_gt_of_ne ha with hlt | hgt
    · exact List.getElem?_append_left hlt
    · rw [List.getElem?_eq_none (by simp; omega), List.getElem?_eq_none (by omega)]

theorem node_push (nd : SkipListNode S M) (a : Nat) :
    (sl.push nd).node a = if a = sl.heap.length then some (shape nd) else sl.node a := by
  unfold node
  rw [getElem_push]
  split <;> rfl

theorem tall_push (nd : SkipListNode S M) (j a : Nat) :
    (sl.push nd).tall j a = if a = sl.heap.length then decide (j < nd.level.length) else sl.tall j a := by
  unfold tall
  rw [node_push]
  split <;> rfl

theorem row_push {x : Option Nat} (nd : SkipListNode S M) (j : Nat) (hx : x ≠ some sl.heap.length) : (sl.push nd).row j x = sl.row j x := by
  cases x with
  | none => rfl
  | some a =>
    dsimp only [row]
    rw [getElem_push, if_neg fun ha => hx (congrArg some ha)]

theorem lowerLevel_eq {header : List SkipListLevel} {l : Nat} (hl : l ≤ header.length) (hpo : 1 ≤ l) : ∃ l', lowerLevel header l = some l' ∧
    1 ≤ l' ∧ l' ≤ l ∧ ∀ i, l' ≤ i → i < l → header[i]?.bind Link.forward = none := by
  induction l with
  | zero => omega
  | succ l ih =>
    cases l with
    | zero => exact ⟨1, rfl, le_refl _, le_refl _, fun i hi hi' => by omega⟩
    | succ l =>
      have hk : header[l + 1]? = some header[l + 1] := List.getElem?_eq_getElem (by omega)
      by_cases hn : header[l + 1].forward = none
      · obtain ⟨l', hlo, hp, hle, hu⟩ := ih (by omega) (by omega)
        refine ⟨l', ?_, hp, by omega, fun i hi hi' => ?_⟩
        · simp only [lowerLevel, hk, Option.bind_eq_bind, Option.bind_some, if_pos hn, hlo]
        · by_cases hi₁ : i = l + 1
          · rw [hi₁, hk, Option.bind_some, hn]
          · exact hu i hi (by omega)
      · refine ⟨l + 2, ?_, by omega, le_refl _, fun i hi hi' => by omega⟩
        simp only [lowerLevel, hk, Option.bind_eq_bind, Option.bind_some, if_neg hn]

theorem randomLevel_bounds (draw : Nat → Bool) : 1 ≤ randomLevel draw ∧ randomLevel draw ≤ skipListMaxLevel := by
  have hl : ∀ k lvl, lvl ≤ randomLevel.loop draw k lvl ∧ randomLevel.loop draw k lvl ≤ lvl + k := by
    intro k
    induction k with
    | zero => exact fun lvl => ⟨le_refl _, le_refl _⟩
    | succ k ih =>
      intro lvl
      rw [randomLevel.loop]
      split
      · have := ih (lvl + 1)
        omega
      · omega
  exact hl _ 1

end

section

variable {sl sl' : SkipListHeap S M} {L A B : List Nat} {score : S} {member : M} {level i j a n : Nat}

/-! ### Heights -/

theorem Rep.tall_zero (h : Rep sl L) (ha : a ∈ L) : sl.tall 0 a = true := by
  obtain ⟨n, hn, hp, -⟩ := h.nodes a ha
  exact tall_iff.2 ⟨n, hn, hp⟩

theorem Rep.not_tall (h : Rep sl L) (ha : a ∈ L) (hj : sl.level ≤ j) : sl.tall j a = false := by
  rw [Bool.eq_false_iff]
  intro ht
  obtain ⟨n, hn, hh⟩ := tall_iff.1 ht
  obtain ⟨n', hn', -, hle⟩ := h.nodes a ha
  rw [hn] at hn'
  cases hn'
  omega

/-! ### The new node -/

/-- What `insertNew` has done when the nodes `A` come before the new one and `B` after it. -/
structure Inserted (sl sl' : SkipListHeap S M) (height : Nat) (score : S) (member : M) (n : Nat) (A B : List Nat) : Prop where
  level : sl'.level = max sl.level height
  header : sl'.header.length = sl.header.length
  length : sl'.length = sl.length + 1
  dict : sl'.dict = sl.dict.insert member score
  tail : sl'.tail = if B = [] then some n else sl.tail
  node : ∀ a, sl'.node a = if a = n then some ⟨member, score, A.getLast?, height⟩
    else if B.head? = some a then (sl.node a).map fun s => { s with backward := some n } else sl.node a
  chained : ∀ j, j < sl'.level → Chained (sl'.tall j) (sl'.row j) (A ++ n :: B)
  unused : ∀ j, sl'.level ≤ j → sl'.row j none = sl.row j none

theorem Rep.raise (h : Rep sl L) (hlv : level ≤ skipListMaxLevel) : ∃ sl₁, forLevels SkipListHeap.raise sl.level (level - sl.level) sl = some sl₁ ∧
    Same sl sl₁ ∧ Rep { sl₁ with level := max sl₁.level level } L ∧ ∀ j, max sl.level level ≤ j → sl₁.row j none = sl.row j none := by
  have hh : sl.level + (level - sl.level) ≤ sl.header.length := by
    have := h.level_le
    rw [h.header]
    omega
  obtain ⟨sl₁, hra, hs, hr⟩ := raise_rows _ _ hh
  refine ⟨sl₁, hra, hs, ?_, fun j hj => by rw [hr, if_neg (by omega)]⟩
  have hno : ∀ a, SkipListHeap.node { sl₁ with level := max sl₁.level level } a = sl.node a := hs.node
  have ht : ∀ j a, SkipListHeap.tall { sl₁ with level := max sl₁.level level } j a = sl.tall j a := hs.tall
  have hro : ∀ j, SkipListHeap.row { sl₁ with level := max sl₁.level level } j = sl₁.row j := fun j => rfl
  have hlt : sl₁.level = sl.level := hs.level
  refine ⟨?_, ?_, hs.header.trans h.header, h.nodup, fun a ha => ?_, ?_, fun j hj => ?_, fun j hj => ?_, fun A a B hL => ?_, hs.tail.trans h.tail,
    hs.length.trans h.length, fun m s => ?_⟩
  · exact le_max_of_le_left (hlt ▸ h.level_pos)
  · exact max_le (hlt ▸ h.level_le) hlv
  · obtain ⟨n, hn, hp, hle⟩ := h.nodes a ha
    exact ⟨n, (hno a).trans hn, hp, le_max_of_le_left (hlt ▸ hle)⟩
  · exact h.sorted.imp fun {a b} hab n n' hn hn' => hab n n' ((hno a).symm.trans hn) ((hno b).symm.trans hn')
  · rw [hro, hr]
    by_cases hold : j < sl.level
    · rw [if_neg (by omega)]
      exact (h.chained j hold).congr (fun a _ => (ht j a).symm) fun _ _ => rfl
    · -- no node is as high as a new level
      have hnn : ∀ a ∈ L, SkipListHeap.tall { sl₁ with level := max sl₁.level level } j a = false := by
        intro a ha
        rw [ht]
        exact h.not_tall ha (not_lt.1 hold)
      have hm : j < level := by
        have : j < max sl₁.level level := hj
        rw [hlt] at this
        omega
      rw [if_pos (by omega)]
      rintro A' B' rfl hlast
      have hni : A' = [] := by
        by_contra hne
        obtain ⟨a, ha, htl⟩ := mem_of_tall hlast hne
        rw [hnn a (by simp [ha])] at htl
        cases htl
      subst hni
      have hf : (sl.row j none).bind Link.forward = none := h.unused j (by omega)
      have hB : ∀ b ∈ B', SkipListHeap.tall { sl₁ with level := max sl₁.level level } j b = false := hnn
      have hl := linkTo_append_of_not (R := BitVec 64) hB []
      rw [append_nil] at hl
      rw [hl, hf, h.length]
      simp [Row.set, steps]
  · rw [hro, hr, if_neg (by have : max sl₁.level level ≤ j := hj; rw [hlt] at this; omega)]
    exact h.unused j (by have : max sl₁.level level ≤ j := hj; rw [hlt] at this; omega)
  · rw [hno]
    exact h.backward A a B hL
  · refine (hs.dict ▸ h.dict m s).trans ?_
    simp only [hno]

theorem Rep.path (h : Rep sl (A ++ B)) {found : List (Option Nat × BitVec 64)} (hlen : found.length = sl.level)
    (hf : ∀ j < sl.level, ∃ P C, Upto (sl.tall j) A P C ∧ found[j]? = some (P.getLast?, (P.length : BitVec 64))) {j : Nat}
    (hj : j < max sl.level level) : ∃ P C, Upto (sl.tall j) A P C ∧
      (found ++ List.replicate (level - sl.level) (none, 0))[j]? = some (P.getLast?, (P.length : BitVec 64)) := by
  by_cases hold : j < sl.level
  · obtain ⟨P, C, hP, hget⟩ := hf j hold
    exact ⟨P, C, hP, by rw [List.getElem?_append_left (by omega), hget]⟩
  · refine ⟨[], A, ⟨rfl, fun a ha => h.not_tall (by simp [ha]) (not_lt.1 hold), nofun⟩, ?_⟩
    · rw [List.getElem?_append_right (by omega), List.getElem?_replicate, if_pos (by omega)]
      rfl

theorem Rep.goes_true (h : Rep sl L) (ha : a ∈ L) (hs : ∀ s, sl.node a = some s → s.score < score ∨ s.score = score ∧ s.member < member) :
    sl.goes score member a = some true := by
  obtain ⟨s, hn, -⟩ := h.nodes a ha
  obtain ⟨nd, hnd, rfl⟩ := Option.map_eq_some_iff.1 hn
  have hlt : nd.score < score ∨ nd.score = score ∧ nd.member < member := hs _ hn
  simpa [goes, hnd] using hlt

theorem Rep.goes_false (h : Rep sl L) (ha : a ∈ L) (hs : ∀ s, sl.node a = some s → score < s.score ∨ score = s.score ∧ member ≤ s.member) :
    sl.goes score member a = some false := by
  obtain ⟨s, hn, -⟩ := h.nodes a ha
  obtain ⟨nd, hnd, rfl⟩ := Option.map_eq_some_iff.1 hn
  have hle : score < nd.score ∨ score = nd.score ∧ member ≤ nd.member := hs _ hn
  have hno : ¬ (nd.score < score ∨ nd.score = score ∧ nd.member < member) := by
    rintro (hlt | ⟨heq, hlt⟩)
    · rcases hle with hle | ⟨hle, -⟩
      · exact lt_asymm hlt hle
      · exact hlt.ne hle.symm
    · rcases hle with hle | ⟨-, hle⟩
      · exact hle.ne heq.symm
      · exact not_lt_of_ge hle hlt
  simpa [goes, hnd] using hno

theorem Rep.upto_zero (h : Rep sl (A ++ B)) {P C : List Nat} (hP : Upto (sl.tall 0) A P C) : P = A ∧ C = [] := by
  have hal : Upto (sl.tall 0) A A [] := by
    exact ⟨by simp, nofun, fun a ha => h.tall_zero (by simp [mem_of_getLast? ha])⟩
  exact hP.unique hal

theorem Rep.fresh (h : Rep sl L) : sl.heap.length ∉ L := by
  intro hn
  obtain ⟨s, hs, -⟩ := h.nodes _ hn
  exact lt_irrefl _ (lt_of_node hs)

theorem Rep.link_new (h : Rep sl (A ++ B)) {nd : SkipListNode S M} (hle : nd.level.length ≤ sl.level)
    {path : List (Option Nat × BitVec 64)} {P C : Nat → List Nat} (hP : ∀ j, j < sl.level → Upto (sl.tall j) A (P j) (C j))
    (hp : ∀ j, j < sl.level → path[j]? = some ((P j).getLast?, ((P j).length : BitVec 64))) :
    ∃ sl₁ sl₂, forLevels (splice sl.heap.length path (A.length : BitVec 64)) 0 nd.level.length (sl.push nd) = some sl₁ ∧ sl₁.level = sl.level ∧
      forLevels (widen path) nd.level.length (sl.level - nd.level.length) sl₁ = some sl₂ ∧ Same (sl.push nd) sl₂ ∧
      (∀ j, j < sl.level → Chained ((sl.push nd).tall j) (sl₂.row j) (A ++ sl.heap.length :: B)) ∧
      ∀ j, sl.level ≤ j → sl₂.row j none = sl.row j none := by
  have hf := h.fresh
  -- the levels as they were, with the new node on the heap
  have ht : ∀ j a, a ∈ A ++ B → (sl.push nd).tall j a = sl.tall j a := fun j a ha => by
    rw [tall_push, if_neg fun heq : a = sl.heap.length => hf (heq ▸ ha)]
  have hnw : ∀ j, (sl.push nd).tall j sl.heap.length = decide (j < nd.level.length) := fun j => by rw [tall_push, if_pos rfl]
  have hne : ∀ {x : Option Nat}, (∀ a, x = some a → a ∈ A ++ B) → x ≠ some sl.heap.length := fun hx heq => hf (hx _ heq)
  have hch : ∀ j, j < sl.level → Chained ((sl.push nd).tall j) ((sl.push nd).row j) (A ++ B) := fun j hj =>
    (h.chained j hj).congr (fun a ha => (ht j a ha).symm) fun x hx => row_push nd j (hne hx)
  have hup : ∀ j, j < sl.level → Upto ((sl.push nd).tall j) A (P j) (C j) := fun j hj => by
    have hPj := hP j hj
    have hm : ∀ a, a ∈ P j ∨ a ∈ C j → a ∈ A ++ B := fun a ha => by
      rw [hPj.eq]
      simp only [mem_append]
      tauto
    refine ⟨hPj.eq, fun c hc => ?_, fun a ha => ?_⟩
    · rw [ht j c (hm c (.inr hc)), hPj.rest c hc]
    · rw [ht j a (hm a (.inl (mem_of_getLast? ha))), hPj.last a ha]
  have hu : ∀ j, j < sl.level → (P j).getLast? ≠ some sl.heap.length := fun j hj => hne fun a ha => by
    rw [(hP j hj).eq, append_assoc]
    exact mem_append_left _ (mem_of_getLast? ha)
  have hl : ∀ j, j < sl.level → (sl.push nd).row j (P j).getLast? = some (linkTo (BitVec 64) ((sl.push nd).tall j) (C j ++ B)) := fun j hj =>
    hch j hj (P j) (C j ++ B) (by rw [(hP j hj).eq, append_assoc]) (hup j hj).last
  obtain ⟨sl₁, hsp, hs, hro⟩ := splice_rows (A.length : BitVec 64) 0 nd.level.length (fun j _ hj => hp j (by omega))
    (fun j _ hj => hu j (by omega)) (fun j _ hj => hl j (by omega)) (fun j _ hj => by
      rw [row_isSome, hnw]
      exact decide_eq_true (by omega))
  have hlv : sl₁.level = sl.level := hs.level
  have hab : ∀ j, nd.level.length ≤ j → sl₁.row j = (sl.push nd).row j := fun j hj => by rw [hro, if_neg (by omega)]
  have hli : ∀ j, nd.level.length ≤ j → j < nd.level.length + (sl.level - nd.level.length) →
      sl₁.row j (P j).getLast? = some (linkTo (BitVec 64) ((sl.push nd).tall j) (C j ++ B)) := fun j hj hjk => by
    rw [hab j hj]
    exact hl j (by omega)
  obtain ⟨sl₂, hw, hsa, hr⟩ := widen_rows _ _ (fun j hj hjk => hp j (by omega)) hli
  refine ⟨sl₁, sl₂, hsp, hlv, hw, hs.trans hsa, fun j hj => ?_, fun j hj => ?_⟩
  · have hno : (A ++ sl.heap.length :: B).Nodup := nodup_middle.2 (nodup_cons.2 ⟨hf, h.nodup⟩)
    have hC := (hup j hj).rest
    have hlen : (A.length : BitVec 64) = (P j).length + (C j).length := by
      rw [(hP j hj).eq, length_append, Nat.cast_add]
    by_cases hlo : j < nd.level.length
    · have hn : (sl.push nd).tall j sl.heap.length = true := by rw [hnw]; exact decide_eq_true hlo
      rw [hr, if_neg (by omega), hro, if_pos (by omega)]
      refine (hch j hj).insert hno (hup j hj) ?_ (fun _ => ?_) fun x hx hx' => ?_
      · rw [Row.set, if_pos rfl, linkTo_append_of_not hC, List.find?_cons_of_pos hn, steps, if_pos hn, hlen]
        simp
      · rw [Row.set, if_neg (hu j hj).symm, Row.set, if_pos rfl, linkTo_append_of_not hC, hlen, linkTo]
        simp
      · rw [Row.set, if_neg hx', Row.set, if_neg hx]
    · have hn : (sl.push nd).tall j sl.heap.length = false := by rw [hnw]; exact decide_eq_false hlo
      rw [hr, if_pos (by omega), hab j (by omega)]
      refine (hch j hj).insert hno (hup j hj) ?_ (fun hn' => ?_) fun x hx hx' => ?_
      · rw [Row.set, if_pos rfl, linkTo_append_of_not hC, linkTo_append_of_not hC, List.find?_cons_of_neg (by simp [hn]), steps,
          if_neg (by simp [hn])]
        push_cast
        rw [add_assoc]
      · rw [hn] at hn'
        cases hn'
      · rw [Row.set, if_neg hx']
  · rw [hr, if_neg (by omega), hab j (by omega)]
    rfl

theorem Rep.find_zero (h : Rep sl L) (hB : ∀ b ∈ B, b ∈ L) : B.find? (sl.tall 0) = B.head? := by
  cases B with
  | nil => rfl
  | cons b B => exact List.find?_cons_of_pos (h.tall_zero (hB b (by simp)))

theorem Rep.insertNew_eq (h : Rep sl (A ++ B)) (hA : ∀ a ∈ A, sl.goes score member a = some true)
    (hB : ∀ b ∈ B, sl.goes score member b = some false) (hpo : 1 ≤ level) (hv : level ≤ skipListMaxLevel) :
    ∃ sl', sl.insertNew level score member = some sl' ∧ Inserted sl sl' level score member sl.heap.length A B := by
  obtain ⟨found, hf, hlen, hup⟩ := h.search hA hB
  obtain ⟨sl₁, hra, hsm, hr, hun⟩ := h.raise hv
  have hlt : sl₁.level = sl.level := hsm.level
  have hsz : sl₁.heap.length = sl.heap.length := hsm.size
  generalize hsl : ({ sl₁ with level := max sl₁.level level } : SkipListHeap S M) = sl₂ at hr
  have hl : sl₂.level = max sl.level level := by rw [← hsl, hlt]
  have hsi : sl₂.heap.length = sl.heap.length := by rw [← hsl, hsz]
  have hnd : ∀ a, sl₂.node a = sl.node a := by rw [← hsl]; exact hsm.node
  have hr' : sl₂.row = sl₁.row := by rw [← hsl]; rfl
  obtain ⟨hha, hti, hln, hdt⟩ : sl₂.header.length = sl.header.length ∧ sl₂.tail = sl.tail ∧ sl₂.length = sl.length ∧
      sl₂.dict = sl.dict := by
    rw [← hsl]
    exact ⟨hsm.header, hsm.tail, hsm.length, hsm.dict⟩
  -- where the search stopped
  have hpa : ∀ j, j < sl₂.level → ∃ P C, Upto (sl₂.tall j) A P C ∧
      (found ++ List.replicate (level - sl.level) (none, 0))[j]? = some (P.getLast?, (P.length : BitVec 64)) := by
    intro j hj
    have ht : sl₂.tall j = sl.tall j := funext fun a => by rw [tall, tall, hnd]
    rw [ht]
    exact h.path hlen hup (hl ▸ hj)
  choose! P C hP hget using hpa
  have hz : 0 < sl₂.level := by omega
  have hpp := (hr.upto_zero (hP 0 hz)).1
  let nd : SkipListNode S M := ⟨member, score, none, List.replicate level ⟨none, 0⟩⟩
  have hh : nd.level.length = level := length_replicate
  obtain ⟨sl₃, sl₄, hsp, hll, hw, hsa, hc, hu⟩ := hr.link_new (show nd.level.length ≤ sl₂.level by omega) hP hget
  rw [hh] at hsp hw
  rw [hsi] at hsp hc
  have hno : ∀ a, sl₄.node a = if a = sl.heap.length then some ⟨member, score, none, level⟩ else sl.node a := fun a => by
    rw [hsa.node, node_push, hsi, hnd, shape, hh]
  -- the lowest level of the new node
  have hn : sl₄.row 0 (some sl.heap.length) = some (linkTo (BitVec 64) ((sl₂.push nd).tall 0) B) := by
    have hla : (A ++ [sl.heap.length]).getLast? = some sl.heap.length := by simp
    have ht : (sl₂.push nd).tall 0 sl.heap.length = true := by
      rw [tall_push, if_pos hsi.symm]
      exact decide_eq_true (by omega)
    rw [← hla]
    exact hc 0 hz _ _ (by simp) fun a ha => by
      rw [hla] at ha
      rwa [← Option.some.inj ha]
  have hfi : B.find? ((sl₂.push nd).tall 0) = B.head? := by
    rw [← hr.find_zero fun b hb => mem_append_right A hb]
    refine find_congr fun b hb => ?_
    rw [tall_push, if_neg fun heq : b = sl₂.heap.length => hr.fresh (heq ▸ mem_append_right A hb)]
  obtain ⟨sl₅, hba, ho, hro, hhd, hta, hlh, hlv, hdi⟩ := setBackward_eq ((hno _).trans (if_pos rfl)) A.getLast?
  have hh' : ∀ b, B.head? = some b → ∃ s, sl₅.node b = some s := fun b hb => by
    have hm := mem_of_head? hb
    obtain ⟨s, hs, -⟩ := hr.nodes b (by simp [hm])
    have hne : b ≠ sl.heap.length := fun heq => hr.fresh (by rw [hsi, ← heq]; simp [hm])
    exact ⟨s, by rw [ho, if_neg hne, hno, if_neg hne, ← hnd, hs]⟩
  obtain ⟨sl₆, hp, hd, hrw, hhe, htl, hlg, he, hdc⟩ := setPrevious_eq hh' (some sl.heap.length)
  refine ⟨{ sl₆ with length := sl₆.length + 1, dict := sl₆.dict.insert member score }, ?_, ?_⟩
  · have hg := hget 0 hz
    rw [hpp] at hg
    simp only [SkipListHeap.insertNew, hf, hra, Option.bind_eq_bind, Option.bind_some, hg, hsz]
    rw [hsl, hsp, Option.bind_some, hll, hw, Option.bind_some, hba, Option.bind_some, hro, hn, Option.bind_some]
    dsimp only [linkTo]
    rw [hfi, hp, Option.bind_some]
  · have hle : sl₆.level = max sl.level level := by rw [he, hlv, hsa.level, ← hl]; rfl
    have hn' : ∀ a, sl₆.node a = if a = sl.heap.length then some ⟨member, score, A.getLast?, level⟩
        else if B.head? = some a then (sl.node a).map fun s => { s with backward := some sl.heap.length } else sl.node a := by
      intro a
      rw [hd, ho, hno]
      by_cases ha : a = sl.heap.length
      · have hne : B.head? ≠ some a := fun heq =>
          hr.fresh (by rw [hsi, ← ha]; exact mem_append_right A (mem_of_head? heq))
        rw [if_neg hne, if_pos ha, if_pos ha]
      · rw [if_neg ha, if_neg ha, if_neg ha]
    refine ⟨hle, ?_, ?_, ?_, ?_, hn', fun j hj => ?_, fun j hj => ?_⟩
    · exact (congrArg List.length (hhe.trans hhd)).trans (hsa.header.trans hha)
    · exact congrArg (· + 1) ((hlg.trans hlh).trans (hsa.length.trans hln))
    · exact congrArg (Finmap.insert member score) ((hdc.trans hdi).trans (hsa.dict.trans hdt))
    · refine htl.trans ?_
      rw [hta, hsa.tail]
      simp only [List.head?_eq_none_iff]
      exact congrArg (ite _ _) hti
    · have ht : ∀ a, sl₆.tall j a = (sl₂.push nd).tall j a := fun a => by
        refine tall_congr ?_
        rw [hd, ho, ← hsa.node]
        by_cases ha : a = sl.heap.length
        · rw [if_pos ha, ha, hno, if_pos rfl]
          split <;> rfl
        · rw [if_neg ha]
          split
          · rw [Option.map_map]
            rfl
          · rfl
      have hj' : j < sl₂.level := by
        rw [hl, ← hle]
        exact hj
      refine (hc j hj').congr (fun a _ => (ht a).symm) fun x _ => ?_
      change sl₆.row j x = _
      rw [hrw, hro]
    · have hj' : max sl.level level ≤ j := by
        rw [← hle]
        exact hj
      change sl₆.row j none = _
      rw [hrw, hro, hu j (hl ▸ hj'), hr', hun j hj']

theorem Rep.insertNew (h : Rep sl (A ++ B)) (hbe : ∀ a ∈ A, ∀ s, sl.node a = some s → s.score < score ∨ s.score = score ∧ s.member < member)
    (haf : ∀ b ∈ B, ∀ s, sl.node b = some s → score < s.score ∨ score = s.score ∧ member < s.member)
    (ho : ∀ a ∈ A ++ B, ∀ s, sl.node a = some s → s.member ≠ member) (hpo : 1 ≤ level) (hl : level ≤ skipListMaxLevel) :
    ∃ sl', sl.insertNew level score member = some sl' ∧ Rep sl' (A ++ sl.heap.length :: B) := by
  have hA : ∀ a ∈ A, sl.goes score member a = some true := fun a ha => h.goes_true (by simp [ha]) (hbe a ha)
  have hB : ∀ b ∈ B, sl.goes score member b = some false := fun b hb =>
    h.goes_false (by simp [hb]) fun s hs => (haf b hb s hs).imp_right fun h => ⟨h.1, h.2.le⟩
  obtain ⟨sl', hin, hi⟩ := h.insertNew_eq hA hB hpo hl
  refine ⟨sl', hin, ?_⟩
  have hf := h.fresh
  -- of the old nodes only links change
  have hold : ∀ a ∈ A ++ B, ∀ s, sl.node a = some s → ∃ b, sl'.node a = some { s with backward := b } := by
    intro a ha s hs
    rw [hi.node, if_neg fun heq : a = sl.heap.length => hf (heq ▸ ha), hs]
    split
    · exact ⟨_, rfl⟩
    · exact ⟨s.backward, rfl⟩
  have hnw : sl'.node sl.heap.length = some ⟨member, score, A.getLast?, level⟩ := by rw [hi.node, if_pos rfl]
  have hk : ∀ a ∈ A ++ B, ∀ b ∈ A ++ B, sl.Before a b → sl'.Before a b := by
    intro a ha b hb hab n n' hn hn'
    obtain ⟨s, hs, -⟩ := h.nodes a ha
    obtain ⟨s', hs', -⟩ := h.nodes b hb
    obtain ⟨p, hp⟩ := hold a ha s hs
    obtain ⟨p', hp'⟩ := hold b hb s' hs'
    rw [hp] at hn
    rw [hp'] at hn'
    cases hn
    cases hn'
    exact hab s s' hs hs'
  obtain ⟨hsA, hsB, hsa⟩ := pairwise_append.1 h.sorted
  refine ⟨?_, ?_, hi.header.trans h.header, nodup_middle.2 (nodup_cons.2 ⟨hf, h.nodup⟩), fun a ha => ?_, ?_, hi.chained,
    fun j hj => ?_, fun A' a B' heq => ?_, ?_, ?_, fun m s => ?_⟩
  · rw [hi.level]
    exact le_max_of_le_right hpo
  · rw [hi.level]
    exact max_le h.level_le hl
  · rw [hi.level]
    by_cases hn : a = sl.heap.length
    · rw [hn]
      exact ⟨_, hnw, hpo, le_max_right _ _⟩
    · have ha' : a ∈ A ++ B := by simpa [hn] using ha
      obtain ⟨s, hs, hs₁, hs₂⟩ := h.nodes a ha'
      obtain ⟨p, hp⟩ := hold a ha' s hs
      exact ⟨_, hp, hs₁, le_max_of_le_left hs₂⟩
  · refine pairwise_append.2 ⟨hsA.imp_of_mem fun ha hb hab => hk _ (by simp [ha]) _ (by simp [hb]) hab,
      pairwise_cons.2 ⟨fun b hb n n' hn hn' => ?_, hsB.imp_of_mem fun ha hb hab => hk _ (by simp [ha]) _ (by simp [hb]) hab⟩,
      fun a ha b hb => ?_⟩
    · obtain ⟨s, hs, -⟩ := h.nodes b (by simp [hb])
      obtain ⟨p, hp⟩ := hold b (by simp [hb]) s hs
      rw [hnw] at hn
      rw [hp] at hn'
      cases hn
      cases hn'
      exact haf b hb s hs
    · rcases mem_cons.1 hb with rfl | hb
      · intro n n' hn hn'
        obtain ⟨s, hs, -⟩ := h.nodes a (by simp [ha])
        obtain ⟨p, hp⟩ := hold a (by simp [ha]) s hs
        rw [hp] at hn
        rw [hnw] at hn'
        cases hn
        cases hn'
        exact hbe a ha s hs
      · exact hk a (by simp [ha]) b (by simp [hb]) (hsa a ha b hb)
  · rw [hi.unused j hj]
    exact h.unused j (by have := hi.level; omega)
  · have hne : ∀ c ∈ A ++ B, c ≠ sl.heap.length := fun c hc heq => hf (heq ▸ hc)
    obtain ⟨-, hnb, hd⟩ := nodup_append.1 h.nodup
    have hfr : Linked (fun a => (sl'.node a).map Shape.backward) A := Linked.left h.backward fun a ha => by
      rw [hi.node, if_neg (hne a (by simp [ha])), if_neg fun heq => hd a ha a (mem_of_head? heq) rfl]
    have hold : Linked (fun a => (sl.node a).map Shape.backward) (A ++ [] ++ B) := by rw [append_nil]; exact h.backward
    refine hold.exchange (hfr.snoc (n := sl.heap.length) (by rw [hnw]; rfl)) (fun b hb => ?_) (fun b hb => ?_) A' a B' (by simpa using heq)
    · have hme := mem_of_head? hb
      obtain ⟨s, hs, -⟩ := h.nodes b (by simp [hme])
      rw [hi.node, if_neg (hne b (by simp [hme])), if_pos hb, hs, List.getLast?_concat]
      rfl
    · cases B with
      | nil => cases hb
      | cons c B =>
        rw [hi.node, if_neg (hne b (by simp [mem_of_mem_tail hb])),
          if_neg fun heq : (c :: B).head? = some b => (nodup_cons.1 hnb).1 (Option.some.inj heq ▸ hb)]
  · rw [hi.tail, h.tail, getLast_append_cons]
    cases B with
    | nil => rfl
    | cons b B => rw [if_neg (by simp), getLast_append_cons, List.getLast?_cons_cons]
  · rw [hi.length, h.length]
    simp only [length_append, length_cons, Nat.cast_add, Nat.cast_one]
    ring
  · have hif : (∃ a ∈ A ++ sl.heap.length :: B, ∃ n, sl'.node a = some n ∧ n.member = m ∧ n.score = s) ↔
        (member = m ∧ score = s) ∨ ∃ a ∈ A ++ B, ∃ n, sl.node a = some n ∧ n.member = m ∧ n.score = s := by
      constructor
      · rintro ⟨a, ha, n, hn, hm, hs⟩
        by_cases he : a = sl.heap.length
        · rw [he, hnw] at hn
          cases hn
          exact .inl ⟨hm, hs⟩
        · have ha' : a ∈ A ++ B := by simpa [he] using ha
          obtain ⟨n₀, hn₀, -⟩ := h.nodes a ha'
          obtain ⟨p, hp⟩ := hold a ha' n₀ hn₀
          rw [hp] at hn
          cases hn
          exact .inr ⟨a, ha', n₀, hn₀, hm, hs⟩
      · rintro (⟨hm, hs⟩ | ⟨a, ha, n, hn, hm, hs⟩)
        · exact ⟨_, by simp, _, hnw, hm, hs⟩
        · obtain ⟨p, hp⟩ := hold a ha n hn
          exact ⟨a, by simp only [mem_append, mem_cons] at ha ⊢; tauto, _, hp, hm, hs⟩
    rw [hif, hi.dict, ← h.dict]
    by_cases hm : m = member
    · subst hm
      have hno : sl.dict.lookup m = none := by
        rw [Option.eq_none_iff_forall_ne_some]
        intro s' hs'
        obtain ⟨a, ha, n, hn, hm, -⟩ := (h.dict m s').1 hs'
        exact ho a ha n hn hm
      rw [lookup_insert, hno]
      simp
    · rw [lookup_insert_of_ne _ hm]
      simp [Ne.symm hm]

/-! ### The node that goes -/

variable {t : Nat}

theorem Rep.link_of_tall (h : Rep sl (A ++ t :: B)) (hj : j < sl.level) (ht : sl.tall j t = true) :
    sl.row j (some t) = some (linkTo (BitVec 64) (sl.tall j) B) := by
  have hl : (A ++ [t]).getLast? = some t := by simp
  rw [← hl]
  exact h.chained j hj _ _ (by simp) fun a ha => by
    rw [hl] at ha
    rwa [← Option.some.inj ha]

theorem Rep.unlink_node (h : Rep sl (A ++ t :: B)) {path : List (Option Nat × BitVec 64)} {P C : Nat → List Nat}
    (hP : ∀ j, j < sl.level → Upto (sl.tall j) A (P j) (C j))
    (hp : ∀ j, j < sl.level → path[j]? = some ((P j).getLast?, ((P j).length : BitVec 64))) :
    ∃ sl₁, forLevels (unlink t path) 0 sl.level sl = some sl₁ ∧ Same sl sl₁ ∧ (∀ j, j < sl.level → Chained (sl.tall j) (sl₁.row j) (A ++ B)) ∧
      (∀ j, sl.level ≤ j → sl₁.row j = sl.row j) ∧ sl₁.row 0 (some t) = sl.row 0 (some t) := by
  have htB : t ∉ B := (nodup_cons.1 (nodup_append.1 h.nodup).2.1).1
  have hl : ∀ j, j < sl.level → sl.row j (P j).getLast? = some (linkTo (BitVec 64) (sl.tall j) (C j ++ t :: B)) := fun j hj =>
    h.chained j hj (P j) (C j ++ t :: B) (by rw [(hP j hj).eq, append_assoc]) (hP j hj).last
  -- only the levels of the node point to it
  have hfo : ∀ j, j < sl.level → ((linkTo (BitVec 64) (sl.tall j) (C j ++ t :: B)).forward = some t ↔ sl.tall j t = true) := by
    intro j hj
    rw [linkTo_append_of_not (hP j hj).rest]
    constructor
    · exact fun hfi => List.find?_some hfi
    · exact List.find?_cons_of_pos
  obtain ⟨sl₁, hu, hs, hr⟩ := unlink_rows 0 sl.level (fun j _ hj => hp j (by omega)) (fun j _ hj => hl j (by omega))
    (fun j _ hj hf => h.link_of_tall (by omega) ((hfo j (by omega)).1 hf))
  refine ⟨sl₁, hu, hs, fun j hj => ?_, fun j hj => by rw [hr, if_neg (by omega)], ?_⟩
  · rw [hr, if_pos (by omega)]
    refine (h.chained j hj).remove h.nodup (hP j hj) ?_ fun x hx => by rw [Row.set, if_neg hx]
    rw [Row.set, if_pos rfl, linkTo_append_of_not (hP j hj).rest B]
    by_cases ht : sl.tall j t = true
    · rw [if_pos ((hfo j hj).2 ht), linkTo_append_of_not (hP j hj).rest, steps, if_pos ht, linkTo]
      congr 2
      ring
    · have ht' : sl.tall j t = false := by simpa using ht
      rw [if_neg (mt (hfo j hj).1 ht), linkTo_append_of_not (hP j hj).rest, steps, if_neg ht, List.find?_cons_of_neg ht]
      push_cast
      congr 2
      ring
  · by_cases hz : 0 < sl.level
    · have hne : some t ≠ (P 0).getLast? := by
        intro heq
        have hm : t ∈ A := (hP 0 hz).eq ▸ mem_append_left _ (mem_of_getLast? heq.symm)
        exact (nodup_append.1 h.nodup).2.2 t hm t (by simp) rfl
      rw [hr, if_pos (by omega), Row.set, if_neg hne]
    · rw [hr, if_neg (by omega)]

theorem Rep.split (h : Rep sl (A ++ t :: B)) {s : Shape S M} (hs : sl.node t = some s) :
    (∀ a ∈ A, sl.goes s.score s.member a = some true) ∧ (∀ b ∈ t :: B, sl.goes s.score s.member b = some false) ∧
      ∀ a ∈ A ++ B, ∀ s', sl.node a = some s' → s'.member = s.member → s'.score ≠ s.score := by
  obtain ⟨-, hsB, hsa⟩ := pairwise_append.1 h.sorted
  have htB := (pairwise_cons.1 hsB).1
  refine ⟨fun a ha => h.goes_true (by simp [ha]) fun s' hs' => hsa a ha t (by simp) s' s hs' hs, fun b hb => ?_, fun a ha s' hs' hm heq => ?_⟩
  · refine h.goes_false (by simp only [mem_append]; exact .inr hb) fun s' hs' => ?_
    rcases mem_cons.1 hb with rfl | hb
    · rw [hs] at hs'
      cases hs'
      exact .inr ⟨rfl, le_refl _⟩
    · exact (htB b hb s s' hs hs').imp_right fun hlt => ⟨hlt.1, hlt.2.le⟩
  · rcases mem_append.1 ha with ha | ha
    · have hlt := hsa a ha t (by simp) s' s hs' hs
      rw [hm, heq] at hlt
      simp at hlt
    · have hlt := htB a ha s s' hs hs'
      rw [hm, heq] at hlt
      simp at hlt

theorem Rep.deleteUnsafe (h : Rep sl L) {score : S} (hm : sl.dict.lookup member = some score) :
    ∃ sl' L', sl.deleteUnsafe member = some (true, sl') ∧ Rep sl' L' ∧ sl'.dict = sl.dict.erase member := by
  obtain ⟨t, ht, s, hs, rfl, rfl⟩ := (h.dict _ _).1 hm
  obtain ⟨A, B, rfl⟩ := append_of_mem ht
  obtain ⟨hA, hB, hke⟩ := h.split hs
  obtain ⟨path, hse, -, hup⟩ := h.search hA hB
  choose! P C hP hget using hup
  have hz : 0 < sl.level := h.level_pos
  obtain ⟨hpp, hcc⟩ := h.upto_zero (hP 0 hz)
  obtain ⟨sl₁, hun, hsa, hch, hu, hro⟩ := h.unlink_node hP hget
  have hta : sl.tall 0 t = true := h.tall_zero ht
  have hfi : sl.row 0 A.getLast? = some (linkTo (BitVec 64) (sl.tall 0) (t :: B)) :=
    h.chained 0 hz A (t :: B) rfl fun a ha => h.tall_zero (by simp [mem_of_getLast? ha])
  have hnx : sl₁.row 0 (some t) = some (linkTo (BitVec 64) (sl.tall 0) B) := hro.trans (h.link_of_tall hz hta)
  have hfn : B.find? (sl.tall 0) = B.head? := h.find_zero fun b hb => by simp [hb]
  obtain ⟨nd, hnd, rfl⟩ := Option.map_eq_some_iff.1 hs
  have hbc : nd.backward = A.getLast? := by
    have := h.backward A t B rfl
    rw [hs] at this
    exact Option.some.inj this
  have hha : ∀ b, B.head? = some b → ∃ s, sl₁.node b = some s := fun b hb => by
    obtain ⟨s', hs', -⟩ := h.nodes b (by simp [mem_of_head? hb])
    exact ⟨s', (hsa.node b).trans hs'⟩
  obtain ⟨sl₂, hpr, hno, hr, hhe, hti, hln, hlv, hdi⟩ := setPrevious_eq hha A.getLast?
  have hll : sl₂.level = sl.level := hlv.trans hsa.level
  have hh : sl₂.header.length = skipListMaxLevel := by rw [hhe, hsa.header, h.header]
  obtain ⟨l, hlw, hl, hle, hf⟩ := lowerLevel_eq (show sl.level ≤ sl₂.header.length by rw [hh]; exact h.level_le) h.level_pos
  refine ⟨{ sl₂ with level := l, length := sl₂.length - 1, dict := sl₂.dict.erase nd.member }, A ++ B, ?_, ?_, ?_⟩
  · have hg := hget 0 hz
    rw [hpp] at hg
    have hk : nd.score = (shape nd).score ∧ nd.member = (shape nd).member := ⟨rfl, rfl⟩
    simp only [SkipListHeap.deleteUnsafe, hm, hse, Option.bind_eq_bind, Option.bind_some, hg, hfi, linkTo_tall hta, hnd, if_pos hk,
      hun, hnx]
    dsimp only [linkTo]
    rw [hfn, hbc, hpr, Option.bind_some, hll, hlw, Option.bind_some]
    rfl
  · -- of the nodes that stay only links change
    have hold : ∀ a, ∀ s, sl.node a = some s → ∃ b, sl₂.node a = some { s with backward := b } := by
      intro a s hs
      rw [hno, hsa.node, hs]
      split
      · exact ⟨_, rfl⟩
      · exact ⟨s.backward, rfl⟩
    have hba : ∀ a s, sl₂.node a = some s → ∃ b, sl.node a = some { s with backward := b } := by
      intro a s hs
      rw [hno, hsa.node] at hs
      split at hs
      · obtain ⟨s', hs', rfl⟩ := Option.map_eq_some_iff.1 hs
        exact ⟨s'.backward, hs'⟩
      · exact ⟨s.backward, hs⟩
    have htl : ∀ j a, sl₂.tall j a = sl.tall j a := fun j a => by
      refine tall_congr ?_
      rw [hno, hsa.node]
      split
      · rw [Option.map_map]
        rfl
      · rfl
    have hnu : (A ++ B).Nodup := (nodup_cons.1 (nodup_middle.1 h.nodup)).2
    have hc : ∀ j, j < sl.level → Chained (sl₂.tall j) (sl₂.row j) (A ++ B) := fun j hj =>
      (hch j hj).congr (fun a _ => (htl j a).symm) fun x _ => by rw [hr]
    have hme : ∀ a ∈ A ++ B, a ∈ A ++ t :: B := fun a ha => by
      simp only [mem_append, mem_cons] at ha ⊢
      tauto
    refine ⟨hl, hle.trans h.level_le, hh, hnu, fun a ha => ?_, ?_, fun j hj => hc j (lt_of_lt_of_le hj hle), fun j hj => ?_,
      fun A' a B' heq => ?_, ?_, ?_, fun m s => ?_⟩
    · obtain ⟨s, hs, hpo, hhg⟩ := h.nodes a (hme a ha)
      obtain ⟨b, hb⟩ := hold a s hs
      refine ⟨_, hb, hpo, ?_⟩
      -- a higher node would be on a level that the header still links
      by_contra hhi
      have hhi : l < s.height := not_le.1 hhi
      have hli := hc (s.height - 1) (by omega) [] (A ++ B) rfl nofun
      have hnn : (sl₂.row (s.height - 1) none).bind Link.forward = none := hf _ (by omega) (by omega)
      rw [show ([] : List Nat).getLast? = none from rfl] at hli
      rw [hli, Option.bind_some, linkTo] at hnn
      refine List.find?_eq_none.1 hnn a ha (tall_iff.2 ⟨_, hb, ?_⟩)
      change s.height - 1 < s.height
      omega
    · refine (h.sorted.sublist (List.Sublist.append_left (sublist_cons_self t B) A)).imp fun {a b} hab n n' hn hn' => ?_
      obtain ⟨p, hp⟩ := hba a n hn
      obtain ⟨p', hp'⟩ := hba b n' hn'
      exact hab { n with backward := p } { n' with backward := p' } hp hp'
    · change (sl₂.row j none).bind Link.forward = none
      by_cases hj' : j < sl.level
      · exact hf j hj hj'
      · rw [hr, hu j (by omega)]
        exact h.unused j (by omega)
    · obtain ⟨-, hnb, hd⟩ := nodup_append.1 hnu
      have hfr : Linked (fun a => (sl₂.node a).map Shape.backward) A := Linked.left h.backward fun a ha => by
        rw [hno, hsa.node, if_neg fun heq => hd a ha a (mem_of_head? heq) rfl]
      have hw : Linked (fun a => (sl.node a).map Shape.backward) (A ++ [t] ++ B) := by rw [append_assoc]; exact h.backward
      refine hw.exchange hfr (fun b hb => ?_) (fun b hb => ?_) A' a B' heq
      · obtain ⟨s, hs, -⟩ := h.nodes b (by simp [mem_of_head? hb])
        rw [hno, hsa.node, if_pos hb, hs]
        rfl
      · cases B with
        | nil => cases hb
        | cons c B => rw [hno, hsa.node, if_neg fun heq : (c :: B).head? = some b => (nodup_cons.1 hnb).1 (Option.some.inj heq ▸ hb)]
    · rw [hti, hsa.tail, h.tail, getLast_append_cons]
      cases B with
      | nil => simp
      | cons b B => rw [if_neg (by simp), getLast_append_cons, List.getLast?_cons_cons]
    · rw [hln, hsa.length, h.length]
      simp only [length_append, length_cons, Nat.cast_add, Nat.cast_one]
      ring
    · have hi : (∃ a ∈ A ++ B, ∃ n, sl₂.node a = some n ∧ n.member = m ∧ n.score = s) ↔ m ≠ nd.member ∧ sl.dict.lookup m = some s := by
        rw [h.dict]
        constructor
        · rintro ⟨a, ha, n, hn, hm', hs'⟩
          obtain ⟨b, hb⟩ := hba a n hn
          refine ⟨fun heq => ?_, a, hme a ha, _, hb, hm', hs'⟩
          -- a second node of the member would have its score too
          have hlo := (h.dict nd.member s).2 ⟨a, hme a ha, _, hb, hm'.trans heq, hs'⟩
          rw [show sl.dict.lookup nd.member = some nd.score from hm] at hlo
          exact hke a ha _ hb (hm'.trans heq) (hs'.trans (Option.some.inj hlo).symm)
        · rintro ⟨hne, a, ha, n, hn, hm', hs'⟩
          have hat : a ≠ t := by
            rintro rfl
            rw [hs] at hn
            cases hn
            exact hne hm'.symm
          obtain ⟨b, hb⟩ := hold a n hn
          exact ⟨a, by simp only [mem_append, mem_cons] at ha ⊢; tauto, _, hb, hm', hs'⟩
      refine Iff.trans ?_ hi.symm
      rw [hdi, hsa.dict]
      by_cases hm' : m = nd.member
      · rw [hm', lookup_erase]
        simp
      · rw [lookup_erase_ne hm']
        simp [hm']
  · exact congrArg (Finmap.erase nd.member) (hdi.trans hsa.dict)

/-! ### Runs -/

theorem Rep.new : Rep (SkipListHeap.new : SkipListHeap S M) [] := by
  have hr : ∀ i, i < skipListMaxLevel → (SkipListHeap.new : SkipListHeap S M).row i none = some ⟨none, 0⟩ := fun i hi => by
    simp [row, SkipListHeap.new, hi]
  have ho : 1 ≤ skipListMaxLevel := by decide
  refine ⟨le_refl _, ho, length_replicate, nodup_nil, forall_mem_nil _, List.Pairwise.nil, fun i hi A B heq _ => ?_, fun i hi => ?_,
    fun A a B heq => ?_, rfl, rfl, fun m s => ?_⟩
  · obtain ⟨rfl, rfl⟩ := append_eq_nil_iff.1 heq.symm
    exact hr i (lt_of_lt_of_le hi ho)
  · by_cases hi' : i < skipListMaxLevel
    · rw [hr i hi']
      rfl
    · have hn : (SkipListHeap.new : SkipListHeap S M).row i none = none := List.getElem?_eq_none (by simpa [SkipListHeap.new] using hi')
      rw [hn]
      rfl
  · simp at heq
  · simp [SkipListHeap.new]

theorem not_of_mem_dropWhile {p : Nat → Bool} {r : Nat → Nat → Prop} (hL : L.Pairwise r)
    (hr : ∀ a ∈ L, ∀ b, r a b → p b = true → p a = true) : ∀ b ∈ L.dropWhile p, p b = false := by
  induction L with
  | nil => exact nofun
  | cons a L ih =>
    obtain ⟨hf, hL⟩ := pairwise_cons.1 hL
    by_cases ha : p a = true
    · rw [dropWhile_cons_of_pos ha]
      exact ih hL fun a' ha' => hr a' (by simp [ha'])
    · rw [dropWhile_cons_of_neg ha]
      intro b hb
      rcases mem_cons.1 hb with rfl | hb
      · simpa using ha
      · by_contra hp
        exact ha (hr a (by simp) b (hf b hb) (by simpa using hp))

theorem Rep.insertFresh (h : Rep sl L) (hm : sl.dict.lookup member = none) (score : S) (hpo : 1 ≤ level) (hle : level ≤ skipListMaxLevel) :
    ∃ sl' L', sl.insertNew level score member = some sl' ∧ Rep sl' L' := by
  have ho : ∀ a ∈ L, ∀ s, sl.node a = some s → s.member ≠ member := fun a ha s hs heq => by
    have := (h.dict member s.score).2 ⟨a, ha, s, hs, heq, rfl⟩
    rw [hm] at this
    cases this
  let p : Nat → Bool := fun a => (sl.node a).any fun s => s.score < score || (s.score = score && s.member < member)
  have hp : ∀ {a s}, sl.node a = some s → (p a = true ↔ s.score < score ∨ s.score = score ∧ s.member < member) := fun hs => by
    simp [p, hs]
  have hd := not_of_mem_dropWhile (p := p) h.sorted fun a ha b hab hb => by
    obtain ⟨s, hs, -⟩ := h.nodes a ha
    obtain ⟨s', hs', -⟩ : ∃ s', sl.node b = some s' ∧ True := by
      cases hb' : sl.node b with
      | none => simp [p, hb'] at hb
      | some s' => exact ⟨s', rfl, trivial⟩
    rw [hp hs]
    rcases hab s s' hs hs' with hlt | ⟨heq, hlt⟩
    · rcases (hp hs').1 hb with hl | ⟨he, -⟩
      · exact .inl (hlt.trans hl)
      · exact .inl (he ▸ hlt)
    · rcases (hp hs').1 hb with hl | ⟨he, hl⟩
      · exact .inl (heq ▸ hl)
      · exact .inr ⟨heq.trans he, hlt.trans hl⟩
  have hsp : L.takeWhile p ++ L.dropWhile p = L := takeWhile_append_dropWhile
  have hme : ∀ b ∈ L.dropWhile p, b ∈ L := fun b hb => by
    rw [← hsp]
    exact mem_append_right _ hb
  rw [← hsp] at h
  have haf : ∀ b ∈ L.dropWhile p, ∀ s, sl.node b = some s → score < s.score ∨ score = s.score ∧ member < s.member := by
    intro b hb s hs
    have hn := hd b hb
    rw [Bool.eq_false_iff, ne_eq, hp hs, not_or, not_and] at hn
    rcases lt_trichotomy score s.score with hlt | heq | hgt
    · exact .inl hlt
    · exact .inr ⟨heq, lt_of_le_of_ne (not_lt.1 (hn.2 heq.symm)) (ho b (hme b hb) s hs).symm⟩
    · exact absurd hgt hn.1
  obtain ⟨sl', hi, hr⟩ := h.insertNew (fun a ha s hs => (hp hs).1 (mem_takeWhile_imp ha)) haf
    (fun a ha s hs => ho a (hsp ▸ ha) s hs) hpo hle
  exact ⟨sl', _, hi, hr⟩

theorem Rep.step (h : Rep sl L) (c : Call S M) : ∃ sl' L', c.step sl = some sl' ∧ Rep sl' L' := by
  cases c with
  | insert draw score member =>
    obtain ⟨hp, hl⟩ := randomLevel_bounds draw
    cases hm : sl.dict.lookup member with
    | none =>
      obtain ⟨sl', L', hi, hr⟩ := h.insertFresh hm score hp hl
      have hn : member ∉ sl.dict := lookup_eq_none.1 hm
      exact ⟨sl', L', by simp only [Call.step, SkipListHeap.insert, if_neg hn, Option.bind_eq_bind, Option.bind_some, hi], hr⟩
    | some old =>
      obtain ⟨sl₁, L₁, hd, hre, hdi⟩ := h.deleteUnsafe hm
      have hm' : sl₁.dict.lookup member = none := by rw [hdi, lookup_erase]
      obtain ⟨sl', L', hi, hr⟩ := hre.insertFresh hm' score hp hl
      have hin : member ∈ sl.dict := Finmap.lookup_isSome.1 (by rw [hm]; rfl)
      exact ⟨sl', L', by simp only [Call.step, SkipListHeap.insert, if_pos hin, hd, Option.map_some, Option.bind_eq_bind,
        Option.bind_some, hi], hr⟩
  | delete member =>
    cases hm : sl.dict.lookup member with
    | none => exact ⟨sl, L, by simp [Call.step, SkipListHeap.delete, SkipListHeap.deleteUnsafe, hm], h⟩
    | some score =>
      obtain ⟨sl', L', hd, hr, -⟩ := h.deleteUnsafe hm
      exact ⟨sl', L', by simp only [Call.step, SkipListHeap.delete, hd, Option.map_some], hr⟩

theorem Rep.run (h : Rep sl L) (calls : List (Call S M)) : ∃ sl' L', SkipListHeap.run calls sl = some sl' ∧ Rep sl' L' := by
  induction calls generalizing sl L with
  | nil => exact ⟨sl, L, rfl, h⟩
  | cons c calls ih =>
    obtain ⟨sl₁, L₁, hstep, hr⟩ := h.step c
    obtain ⟨sl', L', hru, hre⟩ := ih hr
    exact ⟨sl', L', by rw [SkipListHeap.run, hstep, Option.bind_some, hru], hre⟩

end

/-! ### What the pointers say -/

def chain (sl : SkipListHeap S M) (i : Nat) : List Nat := follow (sl.row i) (sl.heap.length + 1) none

/-- On the lowest `n` levels each span, of the header and of the nodes, is the number of steps to where its link leads, or to the end. -/
def SpansExact (sl : SkipListHeap S M) (n : Nat) : Prop :=
  ∀ i, i < n → ∀ A B, sl.chain 0 = A ++ B → (∀ a, A.getLast? = some a → sl.tall i a = true) →
    ∃ l, sl.row i A.getLast? = some l ∧ l.forward = B.find? (sl.tall i) ∧ l.span = (steps (sl.tall i) B : BitVec 64)

structure Sound (sl : SkipListHeap S M) : Prop where
  nodes : ∀ a ∈ sl.chain 0, (sl.node a).isSome = true
  sorted : (sl.chain 0).Pairwise sl.Before
  dict : ∀ m s, sl.dict.lookup m = some s ↔ ∃ a ∈ sl.chain 0, ∃ n, sl.node a = some n ∧ n.member = m ∧ n.score = s
  levels : ∀ i, i < skipListMaxLevel → sl.chain i = (sl.chain 0).filter (sl.tall i)
  spans : sl.SpansExact sl.level
  backward : ∀ A a B, sl.chain 0 = A ++ a :: B → (sl.node a).map Shape.backward = some A.getLast?
  tail : sl.tail = (sl.chain 0).getLast?
  length : sl.length = ((sl.chain 0).length : BitVec 64) ∧ (sl.chain 0).length = sl.dict.keys.card

section

variable {sl : SkipListHeap S M} {L : List Nat}

theorem Rep.chain_eq (h : Rep sl L) (i : Nat) : sl.chain i = L.filter (sl.tall i) := by
  unfold chain
  by_cases hi : i < sl.level
  · exact follow_eq (A := []) (h.chained i hi) nofun (Nat.lt_succ_of_le h.length_le)
  · have hn : L.filter (sl.tall i) = [] := filter_eq_nil_iff.2 fun a ha => by simp [h.not_tall ha (not_lt.1 hi)]
    rw [hn, follow, h.unused i (by omega)]

theorem Rep.chain_zero (h : Rep sl L) : sl.chain 0 = L := by
  rw [h.chain_eq, filter_eq_self]
  exact fun a ha => h.tall_zero ha

theorem Rep.card (h : Rep sl L) : L.length = sl.dict.keys.card := by
  let name : Nat → Option M := fun a => (sl.node a).map Shape.member
  have hna : ∀ a ∈ L, ∃ m, name a = some m := fun a ha => by
    obtain ⟨n, hn, -⟩ := h.nodes a ha
    exact ⟨n.member, by simp [name, hn]⟩
  have hlen : (L.filterMap name).length = L.length := by
    rw [length_filterMap_eq_countP, countP_eq_length]
    intro a ha
    obtain ⟨m, hm⟩ := hna a ha
    simp [hm]
  have hno : (L.filterMap name).Nodup := by
    rw [List.Nodup, pairwise_filterMap]
    refine h.sorted.imp_of_mem fun {a b} ha hb hab m hm m' hm' heq => ?_
    obtain ⟨n, hn, rfl⟩ := Option.map_eq_some_iff.1 hm
    obtain ⟨n', hn', rfl⟩ := Option.map_eq_some_iff.1 hm'
    -- both have the score that `dict` gives
    have hsc := (h.dict n.member n.score).2 ⟨a, ha, n, hn, rfl, rfl⟩
    rw [(h.dict n.member n'.score).2 ⟨b, hb, n', hn', heq.symm, rfl⟩] at hsc
    have hlt := hab n n' hn hn'
    rw [heq, Option.some.inj hsc] at hlt
    simp at hlt
  have hkeys : (L.filterMap name).toFinset = sl.dict.keys := by
    ext m
    rw [mem_toFinset, mem_filterMap, Finmap.mem_keys, ← Finmap.lookup_isSome, Option.isSome_iff_exists]
    constructor
    · rintro ⟨a, ha, hm⟩
      obtain ⟨n, hn, rfl⟩ := Option.map_eq_some_iff.1 hm
      exact ⟨n.score, (h.dict _ _).2 ⟨a, ha, n, hn, rfl, rfl⟩⟩
    · rintro ⟨s, hs⟩
      obtain ⟨a, ha, n, hn, rfl, -⟩ := (h.dict m s).1 hs
      exact ⟨a, ha, by simp [name, hn]⟩
  rw [← hkeys, toFinset_card_of_nodup hno, hlen]

theorem Rep.sound (h : Rep sl L) : sl.Sound := by
  have hz := h.chain_zero
  refine ⟨fun a ha => ?_, ?_, fun m s => ?_, fun i _ => ?_, fun i hi A B heq hl => ?_, fun A a B heq => ?_, ?_, ?_⟩
  · obtain ⟨n, hn, -⟩ := h.nodes a (hz ▸ ha)
    rw [hn]
    rfl
  · rw [hz]
    exact h.sorted
  · rw [hz]
    exact h.dict m s
  · rw [h.chain_eq, hz]
  · exact ⟨_, h.chained i hi A B (hz ▸ heq) hl, rfl, rfl⟩
  · exact h.backward A a B (hz ▸ heq)
  · rw [hz]
    exact h.tail
  · rw [hz]
    exact ⟨h.length, h.card⟩

end

theorem skipList_sound (calls : List (Call S M)) : ∃ sl, run calls new = some sl ∧ sl.Sound := by
  obtain ⟨sl, L, hru, hr⟩ := (Rep.new (S := S) (M := M)).run calls
  exact ⟨sl, hru, hr.sound⟩

/-- After one insertion the header's second level, which is not in use, still has the span 0; to the end it is one step. -/
theorem skipList_stale_span : ∃ sl : SkipListHeap Nat Nat, run [.insert (fun _ => false) 0 0] new = some sl ∧ ¬ sl.SpansExact skipListMaxLevel := by
  refine ⟨_, rfl, fun h => ?_⟩
  obtain ⟨l, hl, -, hs⟩ := h 1 (by decide) [] [0] (by decide) nofun
  have hz : l.span = 0 := by
    cases hl
    rfl
  rw [hz] at hs
  revert hs
  decide

end SkipListHeap

end VortexKV
