import VortexKV.ClusterConfig
import VortexKV.Proofs.StreamIds

/-!
# Fields and slot ranges

`strings.Fields` undoes `strings.Join` with a space, for plain fields (`splitFields_join`), and `ParseSlotRanges` reads
the text of `SlotRangesString` back (`parseSlotRanges_text`): each range is read as the interval it was written for.
-/

namespace VortexKV

open List Option

/-! ### Plain texts -/

/-- A byte of a plain text: ASCII, and neither a space nor a control character. -/
def PlainByte (c : UInt8) : Prop := 32 < c.toNat ∧ c.toNat < 128

instance (c : UInt8) : Decidable (PlainByte c) := inferInstanceAs (Decidable (_ ∧ _))

structure PlainText (t : Bytes) : Prop where
  ne_nil : t ≠ []
  bytes : ∀ c ∈ t, PlainByte c

instance (t : Bytes) : Decidable (PlainText t) :=
  decidable_of_iff (t ≠ [] ∧ t.all fun c => PlainByte c)
    ⟨fun h => ⟨h.1, fun c hc => of_decide_eq_true (all_eq_true.1 h.2 c hc)⟩,
      fun h => ⟨h.ne_nil, all_eq_true.2 fun c hc => decide_eq_true (h.bytes c hc)⟩⟩

theorem PlainText.append {t u : Bytes} (ht : PlainText t) (hu : ∀ c ∈ u, PlainByte c) : PlainText (t ++ u) := by
  refine ⟨by simp [ht.ne_nil], fun c hc => ?_⟩
  rcases mem_append.1 hc with hc | hc
  · exact ht.bytes c hc
  · exact hu c hc

theorem plainText_formatUint (n : Nat) : PlainText (formatUint n) := by
  refine ⟨formatUint_ne_nil n, fun c hc => ?_⟩
  have := mem_formatUint hc
  exact ⟨by omega, by omega⟩

theorem decodeRune_ascii {c : UInt8} (h : c.toNat < 128) (s : Bytes) : decodeRune (c :: s) = (c.toNat, 1) :=
  if_pos (UInt8.lt_iff_toNat_lt.2 h)

theorem runeTexts_ascii {s : Bytes} (h : ∀ c ∈ s, c.toNat < 128) : runeTexts s.length s = s.map ([·]) := by
  induction s with
  | nil => rfl
  | cons c s ih =>
    rw [length_cons, runeTexts, decodeRune_ascii (h c (by simp))]
    · simpa using ih fun c hc => h c (by simp [hc])
    · nofun

theorem isSpaceText_plain {c : UInt8} (h : PlainByte c) : isSpaceText [c] = false := by
  obtain ⟨hlo, hhi⟩ := h
  unfold isSpaceText isSpaceRune
  rw [decodeRune_ascii hhi, Bool.or_eq_false_iff]
  constructor
  · refine decide_eq_false fun hm => ?_
    simp only [mem_cons, not_mem_nil, or_false] at hm
    omega
  · rw [Bool.and_eq_false_iff]
    left
    exact decide_eq_false (by omega)

theorem fieldLoop_plain {t : Bytes} (ht : ∀ c ∈ t, PlainByte c) (cur : Bytes) (rest : List Bytes) :
    fieldLoop cur (t.map ([·]) ++ rest) = fieldLoop (cur ++ t) rest := by
  induction t generalizing cur with
  | nil => simp
  | cons c t ih =>
    rw [map_cons, cons_append, fieldLoop, isSpaceText_plain (ht c (by simp)), if_neg (by nofun),
      ih (fun c hc => ht c (by simp [hc]))]
    simp

theorem fieldLoop_space {cur : Bytes} (h : cur ≠ []) (rest : List Bytes) : fieldLoop cur ([32] :: rest) = cur :: fieldLoop [] rest := by
  rw [fieldLoop, if_pos (by decide), if_neg h]

theorem joinBytes_cons (sep t u : Bytes) (ts : List Bytes) : joinBytes sep (t :: u :: ts) = t ++ (sep ++ joinBytes sep (u :: ts)) :=
  append_assoc _ _ _

theorem lt_of_mem_join {ts : List Bytes} (h : ∀ t ∈ ts, PlainText t) {c : UInt8} (hc : c ∈ joinBytes (lit " ") ts) :
    c = 32 ∨ PlainByte c := by
  induction ts with
  | nil => cases hc
  | cons t ts ih =>
    have ht := (h t (by simp)).bytes
    cases ts with
    | nil => exact .inr (ht c hc)
    | cons u ts =>
      rw [joinBytes_cons, mem_append, mem_append] at hc
      rcases hc with hc | hc | hc
      · exact .inr (ht c hc)
      · exact .inl (mem_singleton.1 hc)
      · exact ih (fun t ht => h t (by simp [ht])) hc

theorem splitFields_join {ts : List Bytes} (h : ∀ t ∈ ts, PlainText t) : splitFields (joinBytes (lit " ") ts) = ts := by
  have ha : ∀ c ∈ joinBytes (lit " ") ts, c.toNat < 128 := by
    intro c hc
    rcases lt_of_mem_join h hc with rfl | hc
    · decide
    · exact hc.2
  unfold splitFields
  rw [runeTexts_ascii ha]
  induction ts with
  | nil => rfl
  | cons t ts ih =>
    have ht := h t (by simp)
    cases ts with
    | nil =>
      have := fieldLoop_plain ht.bytes [] []
      rw [append_nil, nil_append] at this
      rw [joinBytes, this, fieldLoop, if_neg ht.ne_nil]
    | cons u ts =>
      rw [joinBytes_cons] at ha ⊢
      rw [map_append, map_append, fieldLoop_plain ht.bytes, nil_append]
      change fieldLoop t ([32] :: (joinBytes (lit " ") (u :: ts)).map ([·])) = _
      rw [fieldLoop_space ht.ne_nil, ih (fun t ht => h t (by simp [ht])) fun c hc => ha c (by simp [hc])]

/-! ### Numbers -/

/-- The text of a number; zeros may lead it. -/
def Numeral (t : Bytes) (n : Nat) : Prop := parseUint64 t = some n

section

variable {t u : Bytes} {n : Nat}

theorem Numeral.digits (h : Numeral t n) : ∀ c ∈ t, 48 ≤ c.toNat ∧ c.toNat ≤ 57 := by
  obtain ⟨m, hm, -⟩ := Option.bind_eq_some_iff.1 h
  exact digits_of_parseDec hm

theorem Numeral.plainText (h : Numeral t n) : PlainText t := by
  refine ⟨?_, fun c hc => ?_⟩
  · rintro rfl
    cases h
  · have := h.digits c hc
    exact ⟨by omega, by omega⟩

theorem Numeral.scan (h : Numeral t n) (hn : n < 2 ^ 16) {rest : Bytes} (hr : ∀ c ∈ rest.head?, digitVal c = none) :
    scanUint16 (t ++ rest) = some (n, rest) := by
  have ht : (t ++ rest).takeWhile (fun c => (digitVal c).isSome) = t := by
    rw [takeWhile_append_of_pos fun c hc => by rw [digitVal, if_pos (h.digits c hc)]; rfl]
    cases rest with
    | nil => simp
    | cons c rest =>
      rw [takeWhile_cons, hr c rfl]
      simp
  unfold scanUint16
  dsimp only
  rw [ht, show parseUint64 t = some n from h, bind_some, if_pos hn, drop_left]

end

/-! ### Ranges -/

/-- The text of one slot or of a range, and the slots that it means. -/
inductive SlotText : Bytes → List Nat → Prop
  | slot {t : Bytes} {s : Nat} (ht : Numeral t s) (hs : s < 16384) : SlotText t [s]
  | range {t u : Bytes} {start stop : Nat} (ht : Numeral t start) (hu : Numeral u stop) (hle : start ≤ stop) (hlt : stop < 16384) :
    SlotText (t ++ lit "-" ++ u) (List.range' start (stop + 1 - start))

section

variable {t : Bytes} {l : List Nat}

theorem SlotText.plainText (h : SlotText t l) : PlainText t := by
  cases h with
  | slot ht hs => exact ht.plainText
  | range ht hu hle hlt =>
    rw [append_assoc]
    refine ht.plainText.append fun c hc => ?_
    rcases mem_append.1 hc with hc | hc
    · rw [mem_singleton.1 hc]
      decide
    · exact hu.plainText.bytes c hc

theorem SlotText.parse (h : SlotText t l) : parseSlotRange t = some l := by
  unfold parseSlotRange
  cases h with
  | slot ht hs =>
    have hsc : scanUint16 (t ++ []) = _ := ht.scan (by omega) (by simp)
    rw [append_nil] at hsc
    rw [if_neg fun hd => absurd (ht.digits 45 hd) (by decide), hsc, bind_some]
    exact if_neg (by omega)
  | @range t u start stop ht hu hle hlt =>
    have hs : scanUint16 (t ++ lit "-" ++ u) = some (start, 45 :: u) := by
      rw [append_assoc]
      exact ht.scan (by omega) fun c hc => by
        cases hc
        rfl
    have hsc : scanUint16 (u ++ []) = _ := hu.scan (by omega) (by simp)
    rw [append_nil] at hsc
    have hd : (45 : UInt8) ∈ t ++ lit "-" ++ u := by simp [show lit "-" = [45] from rfl]
    rw [if_pos hd, hs, bind_some]
    change (scanUint16 u).bind _ = _
    rw [hsc, bind_some]
    exact if_neg (by omega)

end

/-- `ParseSlotRanges` sorts the slots of all its words. -/
theorem parseSlotRanges_texts {ts : List (Bytes × List Nat)} (h : ∀ p ∈ ts, SlotText p.1 p.2) :
    parseSlotRanges (joinBytes (lit " ") (ts.map Prod.fst)) = some ((ts.flatMap Prod.snd).insertionSort (· ≤ ·)) := by
  have hm : (ts.map Prod.fst).mapM parseSlotRange = some (ts.map Prod.snd) := by
    induction ts with
    | nil => rfl
    | cons p ts ih =>
      rw [forall_mem_cons] at h
      rw [map_cons, mapM_cons, h.1.parse, ih h.2]
      rfl
  have hp : ∀ t ∈ ts.map Prod.fst, PlainText t := by
    rintro _ ht
    obtain ⟨p, hp, rfl⟩ := mem_map.1 ht
    exact (h p hp).plainText
  rw [parseSlotRanges, splitFields_join hp, hm, map_some, flatMap_def]

namespace ClusterNode

theorem slotText_rangeText {start stop : Nat} (hle : start ≤ stop) (hlt : stop < 16384) :
    SlotText (rangeText start stop) (List.range' start (stop + 1 - start)) := by
  have hn : ∀ {n}, n < 16384 → Numeral (formatUint n) n := fun h => StreamID.parseUint64_formatUint (by omega)
  unfold rangeText
  split
  · rename_i heq
    subst heq
    rw [Nat.add_sub_cancel_left]
    exact .slot (hn hlt) hlt
  · exact .range (hn (by omega)) (hn hlt) hle hlt

/-- The run from `start` to `prev` is still open; `rest` are the slots that follow. -/
theorem slotTexts_rangeTexts {rest : List Nat} (hr : ∀ s ∈ rest, s < 16384) {start prev : Nat} (hle : start ≤ prev) (hlt : prev < 16384) :
    ∃ ts : List (Bytes × List Nat), rangeTexts start prev rest = ts.map Prod.fst ∧ (∀ p ∈ ts, SlotText p.1 p.2) ∧
      ts.flatMap Prod.snd = List.range' start (prev + 1 - start) ++ rest := by
  have hst := slotText_rangeText hle hlt
  induction rest generalizing start prev with
  | nil => exact ⟨[(_, _)], rfl, forall_mem_singleton.2 hst, by simp⟩
  | cons curr rest ih =>
    have hc := hr curr (by simp)
    have ih := @ih fun s hs => hr s (by simp [hs])
    unfold rangeTexts
    split
    · rename_i hn
      subst hn
      have hle : start ≤ prev + 1 := by omega
      obtain ⟨ts, hts, htx, hf⟩ := ih hle hc (slotText_rangeText hle hc)
      refine ⟨ts, hts, htx, ?_⟩
      have hsp : List.range' start (prev + 1 + 1 - start) = List.range' start (prev + 1 - start) ++ [prev + 1] := by
        rw [show prev + 1 + 1 - start = prev + 1 - start + 1 by omega, range'_concat]
        congr 2
        omega
      rw [hf, hsp]
      simp
    · obtain ⟨ts, hts, htx, hf⟩ := ih le_rfl hc (slotText_rangeText le_rfl hc)
      refine ⟨(_, _) :: ts, congrArg _ hts, forall_mem_cons.2 ⟨hst, htx⟩, ?_⟩
      rw [flatMap_cons, hf, Nat.add_sub_cancel_left]
      rfl

theorem lt_of_mem_slotsList {n : ClusterNode} {s : Nat} (h : s ∈ n.slotsList) : s < 16384 := by
  unfold slotsList at h
  exact mem_range.1 (mem_filter.1 h).1

theorem mem_slotsList {n : ClusterNode} {s : Nat} (hs : s < 16384) : s ∈ n.slotsList ↔ s ∈ n.slots := by
  unfold slotsList
  rw [mem_filter, mem_range, decide_eq_true_iff]
  tauto

theorem sorted_slotsList (n : ClusterNode) : n.slotsList.Pairwise (· ≤ ·) := by
  unfold slotsList
  exact pairwise_le_range.filter _

def slotTexts (n : ClusterNode) : List Bytes :=
  match n.slotsList with
  | [] => []
  | s :: rest => rangeTexts s s rest

theorem slotRangesString_eq (n : ClusterNode) : n.slotRangesString = joinBytes (lit " ") n.slotTexts := by
  unfold slotRangesString slotTexts
  cases n.slotsList <;> rfl

theorem slotTexts_eq (n : ClusterNode) : ∃ ts : List (Bytes × List Nat), n.slotTexts = ts.map Prod.fst ∧ (∀ p ∈ ts, SlotText p.1 p.2) ∧
    ts.flatMap Prod.snd = n.slotsList := by
  have hlt : ∀ s ∈ n.slotsList, s < 16384 := fun s => lt_of_mem_slotsList
  unfold slotTexts
  generalize n.slotsList = l at *
  cases l with
  | nil => exact ⟨[], rfl, nofun, rfl⟩
  | cons s rest =>
    have hr : ∀ s ∈ rest, s < 16384 := fun s hs => hlt s (by simp [hs])
    obtain ⟨ts, hts, htx, hf⟩ := slotTexts_rangeTexts hr le_rfl (hlt s (by simp))
    refine ⟨ts, hts, htx, ?_⟩
    rw [hf, Nat.add_sub_cancel_left]
    rfl

theorem plainText_slotTexts (n : ClusterNode) : ∀ t ∈ n.slotTexts, PlainText t := by
  obtain ⟨ts, hts, htx, -⟩ := n.slotTexts_eq
  intro t ht
  rw [hts] at ht
  obtain ⟨p, hp, rfl⟩ := mem_map.1 ht
  exact (htx p hp).plainText

theorem parseSlotRanges_text (n : ClusterNode) : parseSlotRanges (joinBytes (lit " ") n.slotTexts) = some n.slotsList := by
  obtain ⟨ts, hts, htx, hf⟩ := n.slotTexts_eq
  rw [hts, parseSlotRanges_texts htx, hf, n.sorted_slotsList.insertionSort_eq]

/-- Slots of several words are listed once for each. -/
theorem slot_ranges_roundtrip : (∀ n : ClusterNode, parseSlotRanges n.slotRangesString = some n.slotsList) ∧
    ∀ ts : List (Bytes × List Nat), (∀ p ∈ ts, SlotText p.1 p.2) → ∃ l, parseSlotRanges (joinBytes (lit " ") (ts.map Prod.fst)) = some l ∧
      l.Pairwise (· ≤ ·) ∧ l.Perm (ts.flatMap Prod.snd) := by
  refine ⟨fun n => ?_, fun ts h => ⟨_, parseSlotRanges_texts h, pairwise_insertionSort _ _, perm_insertionSort _ _⟩⟩
  rw [slotRangesString_eq, parseSlotRanges_text]

theorem slot_ranges_roundtrip_words : ∃ l, parseSlotRanges (joinBytes (lit " ") [lit "2", lit "0-1"]) = some l ∧ l.Pairwise (· ≤ ·) ∧ l.Perm [2, 0, 1] := by
  have h₁ : SlotText (lit "2") [2] := .slot rfl (by decide)
  have h₂ : SlotText (lit "0-1") [0, 1] := .range (t := lit "0") (u := lit "1") rfl rfl (by decide) (by decide)
  exact slot_ranges_roundtrip.2 [(lit "2", [2]), (lit "0-1", [0, 1])] (forall_mem_cons.2 ⟨h₁, forall_mem_singleton.2 h₂⟩)

end ClusterNode

end VortexKV
