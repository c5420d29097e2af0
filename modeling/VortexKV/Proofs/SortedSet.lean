import VortexKV.Datastruct

/-!
# Sorted sets in order

Without a NaN the chain of a sorted set is strictly ordered by score and member and its dictionary lists the
same members (`SkipList.Ordered`); `Insert` and `deleteUnsafe` keep this. A sorted set in order is what its own
members give when they are inserted one by one (`Ordered.ofNodes`).
-/

namespace VortexKV

open List

theorem F64.lt_iff {x y : F64} (hx : x.isNaN = false) (hy : y.isNaN = false) : F64.lt x y = true ↔ x.key < y.key := by
  simp [F64.lt, hx, hy]

theorem F64.eq_iff {x y : F64} (hx : x.isNaN = false) (hy : y.isNaN = false) : F64.eq x y = true ↔ x.key = y.key := by
  simp [F64.eq, hx, hy]

namespace SkipList

variable (near : List ScoredMember → F64 → Bytes → Nat) {z : SkipList} {a b c n : ScoredMember} {m : Bytes} {s : F64}

def Before (a b : ScoredMember) : Prop := precedes b.score b.member a = true

structure Ordered (z : SkipList) : Prop where
  comparable : ∀ n ∈ z.nodes, n.score.isNaN = false
  sorted : z.nodes.Pairwise Before
  dict : ∀ m s, z.dict.lookup m = some s ↔ ⟨m, s⟩ ∈ z.nodes

theorem before_iff (ha : a.score.isNaN = false) (hb : b.score.isNaN = false) :
    Before a b ↔ a.score.key < b.score.key ∨ a.score.key = b.score.key ∧ bytesLt a.member b.member = true := by
  unfold Before precedes
  rw [Bool.or_eq_true, Bool.and_eq_true, F64.lt_iff ha hb, F64.eq_iff ha hb]

theorem Before.comparable (h : Before a b) : a.score.isNaN = false ∧ b.score.isNaN = false := by
  unfold Before precedes F64.lt F64.eq at h
  cases ha : a.score.isNaN <;> cases hb : b.score.isNaN <;> simp_all

theorem not_before_self (a : ScoredMember) : ¬ Before a a := by
  intro h
  rw [before_iff h.comparable.1 h.comparable.1, bytesLt_irrefl] at h
  rcases h with h | ⟨-, h⟩
  · exact lt_irrefl _ h
  · cases h

theorem Before.trans (h₁ : Before a b) (h₂ : Before b c) : Before a c := by
  obtain ⟨ha, hb⟩ := h₁.comparable
  have hc := h₂.comparable.2
  rw [before_iff ha hb] at h₁
  rw [before_iff hb hc] at h₂
  rw [before_iff ha hc]
  rcases h₁ with h₁ | ⟨h₁, h₁'⟩ <;> rcases h₂ with h₂ | ⟨h₂, h₂'⟩
  · exact .inl (h₁.trans h₂)
  · exact .inl (h₂ ▸ h₁)
  · exact .inl (h₁ ▸ h₂)
  · exact .inr ⟨h₁.trans h₂, bytesLt_trans h₁' h₂'⟩

theorem Before.total (ha : a.score.isNaN = false) (hb : b.score.isNaN = false) (hne : a.member ≠ b.member) :
    Before a b ∨ Before b a := by
  rw [before_iff ha hb, before_iff hb ha]
  rcases lt_trichotomy a.score.key b.score.key with h | h | h
  · exact .inl (.inl h)
  · rcases bytesLt_trichotomy a.member b.member with h' | h' | h'
    · exact .inl (.inr ⟨h, h'⟩)
    · exact absurd h' hne
    · exact .inr (.inr ⟨h.symm, h'⟩)
  · exact .inr (.inl h)

theorem Ordered.ext {z' : SkipList} (h : z.Ordered) (h' : z'.Ordered) (hnodes : z.nodes = z'.nodes) : z = z' := by
  obtain ⟨nodes, dict⟩ := z
  obtain ⟨nodes', dict'⟩ := z'
  cases hnodes
  refine congrArg (SkipList.mk nodes) (Finmap.ext_lookup fun m => Option.ext fun s => ?_)
  exact (h.dict m s).trans (h'.dict m s).symm

theorem ordered_new : SkipList.new.Ordered :=
  ⟨nofun, .nil, fun m s => by simp [SkipList.new]⟩

theorem Ordered.mem_dict (h : z.Ordered) : m ∈ z.dict ↔ ∃ n ∈ z.nodes, n.member = m := by
  rw [← Finmap.lookup_isSome, Option.isSome_iff_exists]
  constructor
  · rintro ⟨s, hs⟩
    exact ⟨⟨m, s⟩, (h.dict m s).1 hs, rfl⟩
  · rintro ⟨⟨m', s⟩, hn, rfl⟩
    exact ⟨s, (h.dict m' s).2 hn⟩

theorem seek_eq (h : ∀ n ∈ z.nodes, n.score.isNaN = false) (s : F64) (m : Bytes) :
    seek near z.nodes s m = (z.nodes.takeWhile (precedes s m)).length := by
  unfold seek
  rw [if_neg]
  simp only [any_eq_true, not_exists, not_and]
  intro n hn
  rw [h n hn]
  simp

theorem take_seek (h : ∀ n ∈ z.nodes, n.score.isNaN = false) (s : F64) (m : Bytes) :
    z.nodes.take (seek near z.nodes s m) = z.nodes.takeWhile (precedes s m) ∧
      z.nodes.drop (seek near z.nodes s m) = z.nodes.dropWhile (precedes s m) := by
  have ht : z.nodes.take (seek near z.nodes s m) = z.nodes.takeWhile (precedes s m) := by
    rw [seek_eq near h]
    exact (prefix_iff_eq_take.1 ( takeWhile_prefix _)).symm
  refine ⟨ht, ?_⟩
  have ha : z.nodes.takeWhile (precedes s m) ++ z.nodes.drop (seek near z.nodes s m) =
      z.nodes.takeWhile (precedes s m) ++ z.nodes.dropWhile (precedes s m) := by
    rw [takeWhile_append_dropWhile, ← ht, take_append_drop]
  exact append_cancel_left ha

theorem Ordered.split (h : z.Ordered) (hn : n ∈ z.nodes) : ∃ l₁ l₂, z.nodes = l₁ ++ n :: l₂ ∧
    seek near z.nodes n.score n.member = l₁.length := by
  obtain ⟨l₁, l₂, hs⟩ := append_of_mem hn
  refine ⟨l₁, l₂, hs, ?_⟩
  have hso := h.sorted
  rw [hs, pairwise_append] at hso
  have hse : precedes n.score n.member n = false := by
    simpa [Before] using not_before_self n
  rw [seek_eq near h.comparable, hs, takeWhile_append_of_pos fun a ha => hso.2.2 a ha n (by simp)]
  simp [hse]

theorem Ordered.mem_unique (h : z.Ordered) {s' : F64} (h₁ : ⟨m, s⟩ ∈ z.nodes) (h₂ : ⟨m, s'⟩ ∈ z.nodes) : s = s' :=
  Option.some.inj (((h.dict m s).2 h₁).symm.trans ((h.dict m s').2 h₂))

theorem Ordered.delete (h : z.Ordered) (m : Bytes) : (delete near m z).2.Ordered ∧ m ∉ (delete near m z).2.dict ∧
    (delete near m z).2.dict = z.dict.erase m := by
  unfold SkipList.delete
  cases hs : z.dict.lookup m with
  | none =>
    have hm : m ∉ z.dict := Finmap.lookup_eq_none.1 hs
    refine ⟨h, hm, Finmap.ext_lookup fun m' => ?_⟩
    by_cases hm' : m' = m
    · rw [hm', Finmap.lookup_erase, hs]
    · rw [Finmap.lookup_erase_ne hm']
  | some s =>
    have hn := (h.dict m s).1 hs
    obtain ⟨l₁, l₂, hsp, hse⟩ := h.split near hn
    dsimp only at hse ⊢
    have hget : z.nodes[seek near z.nodes s m]? = some ⟨m, s⟩ := by
      rw [hse, hsp]
      simp
    have heq : F64.eq s s = true := (F64.eq_iff (h.comparable _ hn) (h.comparable _ hn)).2 rfl
    rw [hget]
    dsimp only
    rw [if_pos ⟨heq, rfl⟩, hse]
    have he : z.nodes.eraseIdx l₁.length = l₁ ++ l₂ := by
      rw [hsp, eraseIdx_append_of_length_le (le_refl _)]
      simp
    have hsu : (l₁ ++ l₂).Sublist z.nodes := by
      rw [hsp]
      exact (sublist_cons_self _ _).append_left l₁
    refine ⟨⟨fun n hn => ?_, ?_, fun m' s' => ?_⟩, Finmap.notMem_erase_self, rfl⟩
    · rw [he] at hn
      exact h.comparable n (hsu.subset hn)
    · rw [he]
      exact h.sorted.sublist hsu
    · rw [he]
      by_cases hm : m' = m
      · subst hm
        rw [Finmap.lookup_erase]
        refine ⟨nofun, fun hme => ?_⟩
        obtain rfl := h.mem_unique hn (hsu.subset hme)
        have hso := h.sorted
        rw [hsp, pairwise_append, pairwise_cons] at hso
        rcases mem_append.1 hme with hme | hme
        · exact absurd (hso.2.2 _ hme _ (by simp)) (not_before_self _)
        · exact absurd (hso.2.1.1 _ hme) (not_before_self _)
      · rw [Finmap.lookup_erase_ne hm, h.dict, hsp]
        simp [hm]

theorem Ordered.insertNew (h : z.Ordered) (hs : s.isNaN = false) (hm : m ∉ z.dict) :
    (SkipList.mk (z.nodes.take (seek near z.nodes s m) ++ ⟨m, s⟩ :: z.nodes.drop (seek near z.nodes s m))
      (z.dict.insert m s)).Ordered := by
  obtain ⟨ht, hdr⟩ := take_seek near h.comparable s m
  have hap := takeWhile_append_dropWhile (p := precedes s m) (l := z.nodes)
  have hso := h.sorted
  rw [ht, hdr]
  rw [← hap, pairwise_append] at hso
  have ho : ∀ n ∈ z.nodes, n.member ≠ m := fun n hn heq => hm (h.mem_dict.2 ⟨n, hn, heq⟩)
  have hf : ∀ a ∈ z.nodes.takeWhile (precedes s m), Before a ⟨m, s⟩ := fun a ha => all_eq_true.1 all_takeWhile a ha
  -- the first node that does not precede the new one comes after it, and so do those that follow
  have hr : ∀ b ∈ z.nodes.dropWhile (precedes s m), Before ⟨m, s⟩ b := by
    cases hd : z.nodes.dropWhile (precedes s m) with
    | nil => nofun
    | cons c l =>
      have hc : c ∈ z.nodes := (dropWhile_sublist _).subset (hd ▸ mem_cons_self)
      have hnt : ¬ Before c ⟨m, s⟩ := by
        have := List.head?_dropWhile_not (p := precedes s m) (l := z.nodes)
        rw [hd] at this
        simpa [Before] using this
      have haf : Before ⟨m, s⟩ c := (Before.total (h.comparable c hc) hs (ho c hc)).resolve_left hnt
      rw [hd, pairwise_cons] at hso
      intro b hb
      rcases mem_cons.1 hb with rfl | hb
      · exact haf
      · exact haf.trans (hso.2.1.1 b hb)
  refine ⟨fun n hn => ?_, ?_, fun m' s' => ?_⟩
  · rw [mem_append, mem_cons] at hn
    rcases hn with hn | rfl | hn
    · exact h.comparable n (( takeWhile_prefix _).subset hn)
    · exact hs
    · exact h.comparable n ((dropWhile_sublist _).subset hn)
  · rw [pairwise_append, pairwise_cons]
    refine ⟨hso.1, ⟨hr, hso.2.1⟩, fun a ha b hb => ?_⟩
    rcases mem_cons.1 hb with rfl | hb
    · exact hf a ha
    · exact hso.2.2 a ha b hb
  · have hme : (⟨m', s'⟩ : ScoredMember) ∈ z.nodes ↔ ⟨m', s'⟩ ∈ z.nodes.takeWhile (precedes s m) ∨
        ⟨m', s'⟩ ∈ z.nodes.dropWhile (precedes s m) := by
      rw [← mem_append, hap]
    rw [mem_append, mem_cons]
    by_cases heq : m' = m
    · subst heq
      rw [Finmap.lookup_insert]
      have hno : (⟨m', s'⟩ : ScoredMember) ∉ z.nodes := fun hin => ho _ hin rfl
      rw [hme, not_or] at hno
      simp [hno.1, hno.2, eq_comm]
    · rw [Finmap.lookup_insert_of_ne _ heq, h.dict, hme]
      simp [heq]

theorem Ordered.insert (h : z.Ordered) (hs : s.isNaN = false) (m : Bytes) : (insert near s m z).Ordered := by
  unfold SkipList.insert
  split
  · obtain ⟨hdel, hm, -⟩ := h.delete near m
    exact hdel.insertNew near hs hm
  · rename_i hm
    exact h.insertNew near hs hm

/-! ### Inserting one by one -/

def insertAll (items : List ScoredMember) (z : SkipList) : SkipList :=
  items.foldl (fun z n => z.insert near n.score n.member) z

@[simp] theorem insertAll_cons (items : List ScoredMember) (z : SkipList) :
    insertAll near (n :: items) z = insertAll near items (z.insert near n.score n.member) := rfl

theorem Ordered.insertAll {items : List ScoredMember} (h : z.Ordered) (hi : ∀ n ∈ items, n.score.isNaN = false) :
    (insertAll near items z).Ordered := by
  induction items generalizing z with
  | nil => exact h
  | cons n items ih => exact ih (h.insert near (hi n (by simp)) _) fun n hn => hi n (by simp [hn])

theorem Ordered.nodes_insert_last (h : z.Ordered) (hl : ∀ a ∈ z.nodes, Before a n) (hm : n.member ∉ z.dict) :
    (SkipList.insert near n.score n.member z).nodes = z.nodes ++ [n] := by
  have hal : z.nodes.takeWhile (precedes n.score n.member) = z.nodes := by
    have ha : (z.nodes ++ []).takeWhile (precedes n.score n.member) = z.nodes ++ [].takeWhile (precedes n.score n.member) :=
      takeWhile_append_of_pos hl
    rwa [append_nil, takeWhile_nil, append_nil] at ha
  unfold SkipList.insert
  rw [if_neg hm]
  dsimp only
  rw [seek_eq near h.comparable, hal, take_length, drop_length]

theorem Ordered.distinct (h : z.Ordered) : z.nodes.Pairwise fun a b => a.member ≠ b.member := by
  refine h.sorted.imp_of_mem ?_
  rintro ⟨m, s⟩ ⟨m', s'⟩ ha hb hab heq
  cases heq
  cases h.mem_unique ha hb
  exact not_before_self _ hab

theorem Ordered.nodes_insertAll {items : List ScoredMember} (h : z.Ordered) (hs : (z.nodes ++ items).Pairwise Before)
    (hd : (z.nodes ++ items).Pairwise fun a b => a.member ≠ b.member) (hi : ∀ n ∈ items, n.score.isNaN = false) :
    (SkipList.insertAll near items z).nodes = z.nodes ++ items := by
  induction items generalizing z with
  | nil => rw [append_nil]; rfl
  | cons n items ih =>
    have hl : ∀ a ∈ z.nodes, Before a n := fun a ha => (pairwise_append.1 hs).2.2 a ha n (by simp)
    have hm : n.member ∉ z.dict := by
      intro hm
      obtain ⟨a, ha, heq⟩ := h.mem_dict.1 hm
      exact (pairwise_append.1 hd).2.2 a ha n (by simp) heq
    have hnodes := h.nodes_insert_last near hl hm
    rw [insertAll_cons, ih (h.insert near (hi n (by simp)) _) ?_ ?_ fun n hn => hi n (by simp [hn]), hnodes]
    · simp
    · simpa [hnodes] using hs
    · simpa [hnodes] using hd

theorem Ordered.ofNodes (h : z.Ordered) : SkipList.insertAll near z.nodes .new = z :=
  (ordered_new.insertAll near h.comparable).ext h
    (ordered_new.nodes_insertAll near h.sorted h.distinct h.comparable)

/-! ### Sorted sets that come from such insertions -/

theorem dict_insert (s : F64) (m : Bytes) (z : SkipList) : (insert near s m z).dict = z.dict.insert m s := by
  have hdel : ∀ m', m' ≠ m → (delete near m z).2.dict.lookup m' = z.dict.lookup m' := by
    intro m' hm'
    unfold delete
    split
    · rfl
    · dsimp only
      split
      · split
        · exact Finmap.lookup_erase_ne hm'
        · rfl
      · rfl
  unfold insert
  split
  · refine Finmap.ext_lookup fun m' => ?_
    by_cases hm' : m' = m
    · rw [hm', Finmap.lookup_insert, Finmap.lookup_insert]
    · rw [Finmap.lookup_insert_of_ne _ hm', Finmap.lookup_insert_of_ne _ hm', hdel m' hm']
  · rfl

theorem nodes_delete_cases (m : Bytes) (z : SkipList) : (delete near m z).2.nodes = z.nodes ∨
    ∃ i t, z.nodes[i]? = some t ∧ t.score.isNaN = false ∧ (delete near m z).2.nodes = z.nodes.eraseIdx i := by
  unfold delete
  split
  · exact .inl rfl
  · dsimp only
    split
    · rename_i t ht
      split
      · rename_i heq
        refine .inr ⟨_, t, ht, ?_, rfl⟩
        have := heq.1
        unfold F64.eq at this
        cases hn : t.score.isNaN <;> simp_all
      · exact .inl rfl
    · exact .inl rfl

theorem nodes_insert (s : F64) (m : Bytes) (z : SkipList) : ∃ l₁ l₂,
    (insert near s m z).nodes = l₁ ++ ⟨m, s⟩ :: l₂ ∧ (l₁ ++ l₂ = z.nodes ∨ l₁ ++ l₂ = (delete near m z).2.nodes) := by
  unfold insert
  split
  · exact ⟨_, _, rfl, .inr (take_append_drop _ _)⟩
  · exact ⟨_, _, rfl, .inl (take_append_drop _ _)⟩

theorem length_insert_le (s : F64) (m : Bytes) (z : SkipList) : (insert near s m z).nodes.length ≤ z.nodes.length + 1 := by
  obtain ⟨l₁, l₂, hnodes, h⟩ := nodes_insert near s m z
  have hle : (l₁ ++ l₂).length ≤ z.nodes.length := by
    rcases h with h | h
    · rw [h]
    · rw [h]
      rcases nodes_delete_cases near m z with hd | ⟨i, t, -, -, hd⟩
      · rw [hd]
      · rw [hd]
        exact length_eraseIdx_le _ _
  rw [hnodes]
  simp only [length_append, length_cons] at hle ⊢
  omega

theorem mem_delete_of_isNaN (hn : n ∈ z.nodes) (hna : n.score.isNaN = true) (m : Bytes) : n ∈ (delete near m z).2.nodes := by
  rcases nodes_delete_cases near m z with hd | ⟨i, t, ht, hc, hd⟩
  · rwa [hd]
  · rw [hd]
    obtain ⟨j, hj⟩ := mem_iff_getElem?.1 hn
    refine mem_eraseIdx_iff_getElem?.2 ⟨j, ?_, hj⟩
    rintro rfl
    cases ht.symm.trans hj
    rw [hc] at hna
    cases hna

theorem mem_insert_of_isNaN (hn : n ∈ z.nodes) (hna : n.score.isNaN = true) (s : F64) (m : Bytes) :
    n ∈ (insert near s m z).nodes := by
  have hdel := mem_delete_of_isNaN near hn hna m
  obtain ⟨l₁, l₂, hnodes, h⟩ := nodes_insert near s m z
  have hm : n ∈ l₁ ++ l₂ := by
    rcases h with h | h
    · rwa [h]
    · rwa [h]
  rw [hnodes, mem_append, mem_cons]
  rcases mem_append.1 hm with h | h
  · exact .inl h
  · exact .inr (.inr h)

section

variable {items : List ScoredMember}

theorem length_insertAll_le (items : List ScoredMember) (z : SkipList) :
    (insertAll near items z).nodes.length ≤ z.nodes.length + items.length := by
  induction items generalizing z with
  | nil => exact le_refl _
  | cons n items ih =>
    have hi := length_insert_le near n.score n.member z
    have hr := ih (z.insert near n.score n.member)
    rw [insertAll_cons, length_cons]
    omega

theorem mem_insertAll_of_isNaN (hn : n ∈ z.nodes ∨ n ∈ items) (hna : n.score.isNaN = true) :
    n ∈ (insertAll near items z).nodes := by
  induction items generalizing z with
  | nil => exact hn.resolve_right not_mem_nil
  | cons a items ih =>
    refine ih ?_
    rw [mem_cons] at hn
    rcases hn with hn | rfl | hn
    · exact .inl (mem_insert_of_isNaN near hn hna _ _)
    · obtain ⟨l₁, l₂, hnodes, -⟩ := nodes_insert near n.score n.member z
      exact .inl (by rw [hnodes]; simp)
    · exact .inr hn

theorem lookup_insertAll (hd : items.Pairwise fun a b => a.member ≠ b.member) (hn : n ∈ items) :
    (insertAll near items z).dict.lookup n.member = some n.score := by
  have hk : ∀ {items : List ScoredMember} {z : SkipList} {m : Bytes}, (∀ a ∈ items, m ≠ a.member) →
      (insertAll near items z).dict.lookup m = z.dict.lookup m := by
    intro items z m h
    induction items generalizing z with
    | nil => rfl
    | cons a items ih =>
      rw [insertAll_cons, ih fun b hb => h b (by simp [hb]), dict_insert, Finmap.lookup_insert_of_ne _ (h a (by simp))]
  induction items generalizing z with
  | nil => cases hn
  | cons a items ih =>
    rw [pairwise_cons] at hd
    rcases mem_cons.1 hn with rfl | hn
    · rw [insertAll_cons, hk hd.1, dict_insert, Finmap.lookup_insert]
    · exact ih hd.2 hn

/-! ### Chains with a NaN -/

theorem insertAll_replicate (hn : n.score.isNaN = true) (k : Nat) :
    insertAll near (List.replicate (k + 1) n) .new = ⟨List.replicate (k + 1) n, (∅ : GoMap F64).insert n.member n.score⟩ := by
  have hi : ∀ i d, insert near n.score n.member ⟨List.replicate i n, d⟩ =
      ⟨List.replicate (i + 1) n, d.insert n.member n.score⟩ := by
    intro i d
    have hdel : (delete near n.member ⟨List.replicate i n, d⟩).2.nodes = List.replicate i n := by
      rcases nodes_delete_cases near n.member ⟨List.replicate i n, d⟩ with hd | ⟨j, t, ht, hco, -⟩
      · exact hd
      · cases eq_of_mem_replicate (mem_of_getElem? ht)
        rw [hco] at hn
        cases hn
    obtain ⟨l₁, l₂, hnodes, h⟩ := nodes_insert near n.score n.member ⟨List.replicate i n, d⟩
    have ha : l₁ ++ l₂ = List.replicate i n := by
      rcases h with h | h
      · exact h
      · exact h.trans hdel
    obtain ⟨hlen, h₁, h₂⟩ := append_eq_replicate_iff.1 ha
    have hc : (insert near n.score n.member ⟨List.replicate i n, d⟩).nodes = List.replicate (i + 1) n := by
      rw [hnodes, h₁, h₂, ← replicate_succ, replicate_append_replicate, ← hlen]
      rfl
    have hdi := dict_insert near n.score n.member ⟨List.replicate i n, d⟩
    rw [← hc, ← hdi]
  induction k with
  | zero => exact hi 0 ∅
  | succ k ih =>
    rw [replicate_succ', insertAll, foldl_append]
    change insert near n.score n.member (insertAll near (List.replicate (k + 1) n) .new) = _
    rw [ih, hi, Finmap.insert_insert, replicate_succ' ]

theorem nodes_insert_of_length (s : F64) (m : Bytes) (z : SkipList) (h : (insert near s m z).nodes.length = z.nodes.length + 1) :
    (insert near s m z).nodes = z.nodes.take (seek near z.nodes s m) ++ ⟨m, s⟩ :: z.nodes.drop (seek near z.nodes s m) ∧
      (m ∈ z.dict → (delete near m z).2.nodes = z.nodes) := by
  unfold insert at h ⊢
  by_cases hm : m ∈ z.dict
  · rw [if_pos hm] at h ⊢
    have hdel : (delete near m z).2.nodes = z.nodes := by
      rcases nodes_delete_cases near m z with hd | ⟨i, t, ht, -, hd⟩
      · exact hd
      · have hlt := (List.getElem?_eq_some_iff.1 ht).1
        simp only [hd, length_append, length_cons, length_take, length_drop, length_eraseIdx, if_pos hlt] at h
        omega
    dsimp only
    exact ⟨by rw [hdel], fun _ => hdel⟩
  · rw [if_neg hm]
    exact ⟨rfl, fun h => absurd h hm⟩

theorem insertAll_congr {near' : List ScoredMember → F64 → Bytes → Nat}
    (h : ∀ l s m, l.length < z.nodes.length + items.length → near l s m = near' l s m) :
    insertAll near items z = insertAll near' items z := by
  induction items generalizing z with
  | nil => rfl
  | cons n items ih =>
    have hs : ∀ l : List ScoredMember, l.length ≤ z.nodes.length → ∀ s m, seek near l s m = seek near' l s m := by
      intro l hl s m
      unfold seek
      rw [h l s m (by rw [length_cons]; omega)]
    have hdel : delete near n.member z = delete near' n.member z := by
      unfold delete
      cases z.dict.lookup n.member with
      | none => rfl
      | some s =>
        dsimp only
        rw [hs _ (le_refl _)]
    have hi : insert near n.score n.member z = insert near' n.score n.member z := by
      have hle : (delete near' n.member z).2.nodes.length ≤ z.nodes.length := by
        rcases nodes_delete_cases near' n.member z with hd | ⟨i, t, -, -, hd⟩
        · rw [hd]
        · rw [hd]
          exact length_eraseIdx_le _ _
      unfold insert
      rw [hdel]
      split
      · dsimp only
        rw [hs _ hle]
      · dsimp only
        rw [hs _ (le_refl _)]
    have hlen := length_insert_le near' n.score n.member z
    rw [insertAll_cons, insertAll_cons, hi]
    refine ih fun l s m hl => h l s m ?_
    rw [length_cons]
    omega

theorem eq_replicate_of_cons_eq {α : Type} {a : α} {l : List α} (h : a :: l = l ++ [a]) : l = List.replicate l.length a := by
  induction l with
  | nil => rfl
  | cons b l ih =>
    rw [cons_append, List.cons.injEq] at h
    obtain ⟨rfl, h⟩ := h
    rw [length_cons, replicate_succ, ← ih h]

theorem perm_insertAll (h : (insertAll near items z).nodes.length = z.nodes.length + items.length) :
    (insertAll near items z).nodes.Perm (z.nodes ++ items) := by
  induction items generalizing z with
  | nil =>
    rw [append_nil]
    exact .refl _
  | cons n items ih =>
    have ho := length_insert_le near n.score n.member z
    have hr := length_insertAll_le near items (z.insert near n.score n.member)
    rw [insertAll_cons, length_cons] at h
    obtain ⟨hnodes, -⟩ := nodes_insert_of_length near n.score n.member z (by omega)
    have hn : (insert near n.score n.member z).nodes.Perm (z.nodes ++ [n]) := by
      rw [hnodes]
      refine perm_middle.trans ?_
      rw [take_append_drop]
      exact (perm_append_singleton n z.nodes).symm
    rw [insertAll_cons]
    refine (ih (by omega)).trans ?_
    have ha := hn.append_right items
    rwa [append_assoc] at ha

/-- If the items come back in their order, wherever the searches next to a NaN end, and one of them is a NaN, then
they are all the same. -/
theorem replicate_of_insertAll (h : ∀ near, insertAll near items .new = z) (hlen : z.nodes.length = items.length)
    (hm : z.nodes.map ScoredMember.member = items.map ScoredMember.member) (hna : ∃ n ∈ z.nodes, n.score.isNaN = true) :
    ∃ a k, a.score.isNaN = true ∧ items = List.replicate (k + 1) a := by
  have hp : z.nodes.Perm items := by
    have := @perm_insertAll (fun _ _ _ => 0) .new items (by rw [h, hlen]; exact (Nat.zero_add _).symm)
    rwa [h] at this
  rcases eq_nil_or_concat items with rfl | ⟨init, a, rfl⟩
  · obtain ⟨n, hn, -⟩ := hna
    cases hp.subset hn
  have hla : ∀ near, insert near a.score a.member (insertAll near init .new) = z := by
    intro near
    rw [← h near, concat_eq_append]
    unfold insertAll
    rw [foldl_append]
    rfl
  have hln : ∀ near, (insertAll near init .new).nodes.length = init.length := by
    intro near
    have hle := length_insertAll_le near init .new
    have hon := length_insert_le near a.score a.member (insertAll near init .new)
    rw [hla, hlen, concat_eq_append, length_append] at hon
    change _ ≤ 0 + init.length at hle
    change init.length + 1 ≤ _ at hon
    omega
  have hi := fun near => nodes_insert_of_length near a.score a.member (insertAll near init .new)
    (by rw [hla, hlen, hln]; simp)
  by_cases hii : ∃ n ∈ init, n.score.isNaN = true
  · -- the last node may come to the front of the chain or to its end
    obtain ⟨n, hn, hnn⟩ := hii
    let first : List ScoredMember → F64 → Bytes → Nat := fun _ _ _ => 0
    let last : List ScoredMember → F64 → Bytes → Nat := fun l _ _ => if l.length < init.length then 0 else init.length
    have hs : insertAll last init .new = insertAll first init .new := by
      refine insertAll_congr last fun l s m hl => ?_
      change l.length < 0 + init.length at hl
      exact if_pos (by omega)
    have hme := mem_insertAll_of_isNaN first (z := .new) (.inr hn) hnn
    have han : (insertAll first init .new).nodes.any (F64.isNaN ·.score) = true := any_eq_true.2 ⟨n, hme, hnn⟩
    have hf := (hi first).1
    have he := (hi last).1
    rw [hla, seek, if_pos han] at hf
    rw [hla, hs, seek, if_pos han] at he
    have hpo : last (insertAll first init .new).nodes a.score a.member = init.length := if_neg (by rw [hln]; omega)
    rw [hpo, hln, min_self, ← hln first, take_length, drop_length] at he
    rw [show first (insertAll first init .new).nodes a.score a.member = 0 from rfl, Nat.zero_min, take_zero, drop_zero,
      nil_append] at hf
    have hr := eq_replicate_of_cons_eq (hf.symm.trans he)
    have hz : z.nodes = List.replicate (init.length + 1) a := by
      rw [hf, hr, hln]
      rfl
    refine ⟨a, init.length, ?_, ?_⟩
    · rw [hr] at hme
      rwa [eq_of_mem_replicate hme] at hnn
    · rw [hz] at hp
      exact (perm_replicate.1 hp.symm)
  · -- the NaN is the last item, and comes to the front
    have hc : ∀ n ∈ init, n.score.isNaN = false := fun n hn => by
      cases hnn : n.score.isNaN with
      | false => rfl
      | true => exact absurd ⟨n, hn, hnn⟩ hii
    have ha : a.score.isNaN = true := by
      obtain ⟨n, hn, hnn⟩ := hna
      have hin := hp.subset hn
      rw [concat_eq_append, mem_append, mem_singleton] at hin
      rcases hin with hin | rfl
      · rw [hc n hin] at hnn
        cases hnn
      · exact hnn
    let first : List ScoredMember → F64 → Bytes → Nat := fun _ _ _ => 0
    have ho := ordered_new.insertAll first hc
    cases init with
    | nil => exact ⟨a, 0, ha, rfl⟩
    | cons b init =>
      exfalso
      obtain ⟨hnodes, hk⟩ := hi first
      have hno : (insertAll first (b :: init) .new).nodes.takeWhile (precedes a.score a.member) = [] := by
        cases (insertAll first (b :: init) .new).nodes with
        | nil => rfl
        | cons c l => simp [precedes, F64.lt, F64.eq, ha]
      rw [hla, seek_eq first ho.comparable, hno] at hnodes
      have hb : b.member = a.member := by
        rw [hnodes] at hm
        exact (List.cons.inj hm).1.symm
      have hin : b ∈ (insertAll first (b :: init) .new).nodes :=
        (perm_insertAll first (by rw [hln]; exact (Nat.zero_add _).symm)).symm.subset (by simp)
      obtain ⟨hdel, hg, -⟩ := ho.delete first a.member
      refine hg (hdel.mem_dict.2 ⟨b, ?_, hb⟩)
      rw [hk (ho.mem_dict.2 ⟨b, hin, hb⟩)]
      exact hin

end

end SkipList

end VortexKV
