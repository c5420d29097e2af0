import VortexKV.Stream
import Mathlib.Data.Prod.Lex
import Mathlib.Order.WithBot

/-!
# Stream queries

`Range`, `RevRange` and `Read` leave their loop at the first entry behind the far bound. With the IDs as points of a
linear order that `-` and `+` close off, `CompareStreamIDs` is its comparison, and on sorted entries the loops
select exactly what lies between the bounds (`stream_queries`).
-/

namespace VortexKV

open List

def StreamID.pair (s : StreamID) : Lex (Nat × Nat) := toLex (s.millis, s.seq)

/-- The place of an ID among the pairs of numbers, `-` below and `+` above all of them. -/
def idKey (b : Bytes) : WithBot (WithTop (Lex (Nat × Nat))) :=
  if b = lit "-" then ⊥
  else if b = lit "+" then WithBot.some ⊤
  else match parseStreamID id b with
    | .ok s => WithBot.some (WithTop.some s.pair)
    | .error _ => ⊥

def IsStreamID (b : Bytes) : Prop := ∃ s, parseStreamID id b = .ok s

def IsBound (b : Bytes) : Prop := b = lit "-" ∨ b = lit "+" ∨ IsStreamID b

section

variable {a b : Bytes} {s t : StreamID}

theorem idKey_ok (h : parseStreamID id b = .ok s) : idKey b = WithBot.some (WithTop.some s.pair) := by
  rw [idKey, if_neg (by rintro rfl; cases h), if_neg (by rintro rfl; cases h), h]

theorem idKey_lt_iff (hs : parseStreamID id a = .ok s) (ht : parseStreamID id b = .ok t) :
    idKey a < idKey b ↔ s.millis < t.millis ∨ s.millis = t.millis ∧ s.seq < t.seq := by
  rw [idKey_ok hs, idKey_ok ht, WithBot.coe_lt_coe, WithTop.coe_lt_coe]
  exact Prod.Lex.toLex_lt_toLex

theorem IsBound.ne_nil (h : IsBound b) : b ≠ [] := by
  rintro rfl
  rcases h with h | h | ⟨s, h⟩ <;> cases h

theorem compareStreamIDs_ok (hab : a ≠ b) (hs : parseStreamID id a = .ok s) (ht : parseStreamID id b = .ok t) :
    compareStreamIDs a b = if idKey a < idKey b then -1 else if idKey b < idKey a then 1 else 0 := by
  have hne : ∀ {c : Bytes} {u : StreamID}, parseStreamID id c = .ok u → c ≠ lit "-" ∧ c ≠ lit "+" := fun h =>
    ⟨fun hc => (by rw [hc] at h; cases h), fun hc => (by rw [hc] at h; cases h)⟩
  simp only [compareStreamIDs, hab, hne hs, hne ht, hs, ht, or_self, if_false, idKey_lt_iff hs ht, idKey_lt_iff ht hs]
  split_ifs <;> first | rfl | omega

theorem compareStreamIDs_eq (ha : IsBound a) (hb : IsBound b) :
    compareStreamIDs a b = if idKey a < idKey b then -1 else if idKey b < idKey a then 1 else 0 := by
  by_cases hab : a = b
  · rw [compareStreamIDs, if_pos hab, hab, if_neg (lt_irrefl _), if_neg (lt_irrefl _)]
  have hbo : ∀ {c : Bytes} {u : StreamID}, parseStreamID id c = .ok u → idKey (lit "-") < idKey c ∧ idKey c < idKey (lit "+") := fun h => by
    rw [idKey_ok h]
    exact ⟨WithBot.bot_lt_coe _, WithBot.coe_lt_coe.2 (WithTop.coe_lt_top _)⟩
  have hn : idKey (lit "-") < idKey (lit "+") := WithBot.bot_lt_coe _
  rcases ha with rfl | rfl | ⟨s, hs⟩ <;> rcases hb with rfl | rfl | ⟨t, ht⟩
  · exact absurd rfl hab
  · rw [if_pos hn]; rfl
  · rw [if_pos (hbo ht).1, compareStreamIDs, if_neg hab, if_pos (.inl rfl)]
  · rw [if_neg hn.asymm, if_pos hn]; rfl
  · exact absurd rfl hab
  · rw [if_neg (hbo ht).2.asymm, if_pos (hbo ht).2, compareStreamIDs, if_neg hab, if_neg (by rintro (h | rfl) <;> [cases h; cases ht]), if_pos (.inl rfl)]
  · rw [if_neg (hbo hs).1.asymm, if_pos (hbo hs).1, compareStreamIDs, if_neg hab, if_neg (by rintro (rfl | h) <;> [cases hs; cases h]), if_pos (.inr rfl)]
  · rw [if_pos (hbo hs).2, compareStreamIDs, if_neg hab, if_pos (.inr rfl)]
  · exact compareStreamIDs_ok hab hs ht

theorem compare_neg_iff (ha : IsBound a) (hb : IsBound b) : compareStreamIDs a b < 0 ↔ idKey a < idKey b := by
  rw [compareStreamIDs_eq ha hb]
  split_ifs <;> simp_all

theorem compare_pos_iff (ha : IsBound a) (hb : IsBound b) : compareStreamIDs a b > 0 ↔ idKey b < idKey a := by
  rw [compareStreamIDs_eq ha hb]
  split_ifs with h
  · simp [h.asymm]
  all_goals simp_all

end

namespace Stream

/-- The first `count` entries; all of them if `count` is not positive. -/
def limited (count : Int) (es : List StreamEntry) : List StreamEntry := if count > 0 then es.take count.toNat else es

/-- The loop is a filter where nothing behind the entry that it stops at would be taken. -/
theorem scan_eq_filter (skip stop : StreamEntry → Bool) {room : Option Nat} (hr : room ≠ some 0) {es : List StreamEntry}
    (h : es.Pairwise fun e e' => stop e = true → stop e' = true) :
    scan skip stop room es = let found := es.filter fun e => !skip e && !stop e; room.elim found found.take := by
  fun_induction scan skip stop room es with
  | case1 room => cases room <;> simp
  | case2 room e es hs ih => simpa [hs] using ih hr h.of_cons
  | case3 room e es hs hst =>
    have hn : (e :: es).filter (fun e => !skip e && !stop e) = [] := by
      simp_all
    rw [hn]
    cases room <;> simp
  | case4 e es hs hst ih => simpa [hs, hst] using ih hr h.of_cons
  | case5 e es => exact absurd rfl hr
  | case6 e es hs hst => simp [hs, hst]
  | case7 e es hs hst n ih => simpa [hs, hst] using ih nofun h.of_cons

theorem scan_limited (skip stop : StreamEntry → Bool) (count : Int) {es : List StreamEntry}
    (h : es.Pairwise fun e e' => stop e = true → stop e' = true) :
    scan skip stop (room count) es = limited count (es.filter fun e => !skip e && !stop e) := by
  rw [scan_eq_filter skip stop (by unfold room; split <;> simp; omega) h, room, limited]
  split <;> rfl

variable {s : Stream} {start stop last : Bytes}

theorem below_iff (e : StreamEntry) (he : IsStreamID e.id) (h : IsBound start) : below start e = true ↔ idKey e.id < idKey start := by
  rw [← compare_neg_iff (.inr (.inr he)) h]
  simp only [below, decide_eq_true_eq]
  refine ⟨fun hb => hb.2.2, fun hb => ⟨?_, ?_, hb⟩⟩
  · rintro rfl
    rw [compare_neg_iff (.inr (.inr he)) h] at hb
    exact not_lt_bot hb
  · exact h.ne_nil

theorem above_iff (e : StreamEntry) (he : IsStreamID e.id) (h : IsBound stop) : above stop e = true ↔ idKey stop < idKey e.id := by
  rw [← compare_pos_iff (.inr (.inr he)) h]
  simp only [above, decide_eq_true_eq]
  refine ⟨fun ha => ha.2.2, fun ha => ⟨?_, ?_, ha⟩⟩
  · rintro rfl
    rw [gt_iff_lt, ← gt_iff_lt, compare_pos_iff (.inr (.inr he)) h] at ha
    exact not_top_lt ha
  · exact h.ne_nil

theorem stream_queries (count : Int) (hi : ∀ e ∈ s.entries, IsStreamID e.id)
    (hso : s.entries.Pairwise fun e e' => idKey e.id < idKey e'.id)
    (hs : IsBound start) (hst : IsBound stop) (hl : IsBound last) :
    s.range start stop count = limited count (s.entries.filter fun e => idKey start ≤ idKey e.id ∧ idKey e.id ≤ idKey stop) ∧
    s.revRange stop start count = limited count (s.entries.filter fun e => idKey start ≤ idKey e.id ∧ idKey e.id ≤ idKey stop).reverse ∧
    s.read last count = limited count (s.entries.filter fun e => idKey last < idKey e.id) := by
  have hb : ∀ e ∈ s.entries, (!below start e) = decide (idKey start ≤ idKey e.id) := fun e he => by
    rw [Bool.eq_iff_iff, Bool.not_eq_true', ← Bool.not_eq_true, below_iff e (hi e he) hs, not_lt, decide_eq_true_iff]
  have ha : ∀ e ∈ s.entries, (!above stop e) = decide (idKey e.id ≤ idKey stop) := fun e he => by
    rw [Bool.eq_iff_iff, Bool.not_eq_true', ← Bool.not_eq_true, above_iff e (hi e he) hst, not_lt, decide_eq_true_iff]
  refine ⟨?_, ?_, ?_⟩
  · rw [range, scan_limited _ _ _ (hso.imp_of_mem fun he he' hlt h => ?_)]
    · congr 1
      refine filter_congr fun e he => ?_
      rw [hb e he, ha e he, Bool.decide_and]
    · rw [above_iff _ (hi _ he) hst] at h
      exact (above_iff _ (hi _ he') hst).2 (h.trans hlt)
  · rw [revRange, scan_limited _ _ _ (pairwise_reverse.2 (hso.imp_of_mem fun he he' hlt h => ?_)), filter_reverse]
    · congr 2
      refine filter_congr fun e he => ?_
      rw [hb e he, ha e he, Bool.decide_and, Bool.and_comm]
    · rw [below_iff _ (hi _ he') hs] at h
      exact (below_iff _ (hi _ he) hs).2 (hlt.trans h)
  · rw [read, scan_limited _ (fun _ => false) _ (pairwise_of_forall fun _ _ h => h)]
    congr 1
    refine filter_congr fun e he => ?_
    rw [Bool.eq_iff_iff, decide_eq_true_iff, ← compare_pos_iff (.inr (.inr (hi e he))) hl]
    simp

theorem stream_queries_two :
    let s : Stream := { Stream.new with entries := [⟨lit "1-0", ∅, []⟩, ⟨lit "2-0", ∅, []⟩] }
    s.revRange (lit "+") (lit "1") 1 = limited 1 (s.entries.filter fun e => idKey (lit "1") ≤ idKey e.id ∧ idKey e.id ≤ idKey (lit "+")).reverse :=
  (stream_queries (s := { Stream.new with entries := [⟨lit "1-0", ∅, []⟩, ⟨lit "2-0", ∅, []⟩] }) 1
    (forall_mem_cons.2 ⟨⟨⟨1, 0⟩, rfl⟩, forall_mem_singleton.2 ⟨⟨2, 0⟩, rfl⟩⟩) (by decide)
    (.inr (.inr ⟨⟨1, 0⟩, rfl⟩)) (.inr (.inl rfl)) (.inl rfl)).2.1

end Stream

end VortexKV
