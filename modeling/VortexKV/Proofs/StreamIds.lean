import VortexKV.StreamHistory

/-!
# The IDs of a stream

Whether `Add` gives an ID above the last one (`Stream.Rises`) can be seen from the stream and the argument: the sequence
number may wrap around, and with no entries left an explicit ID is not compared. `ids_rise` says this of histories.
-/

namespace VortexKV

open List

namespace StreamID

def Valid (s : StreamID) : Prop := s.millis < 2 ^ 64 ∧ s.seq < 2 ^ 64

def Lt (s t : StreamID) : Prop := s.millis < t.millis ∨ s.millis = t.millis ∧ s.seq < t.seq

instance (s t : StreamID) : Decidable (s.Lt t) := inferInstanceAs (Decidable (_ ∨ _))

theorem splitDash_digits {s : Bytes} (h : ∀ c ∈ s, c ≠ 45) : splitDash s = [s] := by
  induction s with
  | nil => rfl
  | cons c s ih =>
    rw [splitDash, if_neg (h c (by simp)), ih fun c hc => h c (by simp [hc])]

theorem splitDash_append {s : Bytes} (h : ∀ c ∈ s, c ≠ 45) (t : Bytes) : splitDash (s ++ 45 :: t) = s :: splitDash t := by
  induction s with
  | nil => rw [nil_append, splitDash, if_pos rfl]
  | cons c s ih =>
    rw [cons_append, splitDash, if_neg (h c (by simp)), ih fun c hc => h c (by simp [hc])]

theorem ne_dash {n : Nat} : ∀ c ∈ formatUint n, c ≠ 45 := by
  rintro c hc rfl
  have := (mem_formatUint hc).1
  simp at this

theorem parseUint64_formatUint {n : Nat} (h : n < 2 ^ 64) : parseUint64 (formatUint n) = some n := by
  rw [parseUint64, parseDec_formatUint, Option.bind_some, if_pos h]

theorem parse_toBytes {s : StreamID} (h : s.Valid) (quote : Bytes → Bytes) : parseStreamID quote s.toBytes = .ok s := by
  rw [parseStreamID, toBytes, splitDash_append ne_dash, splitDash_digits ne_dash]
  simp only [parseUint64_formatUint h.1, parseUint64_formatUint h.2]

theorem toBytes_plain (s : StreamID) (u : Unicode) :
    s.toBytes ≠ lit "*" ∧ ¬ lit "-*" <:+ s.toBytes ∧ toUpper u s.toBytes ≠ lit "MAXLEN" := by
  obtain ⟨c, l, hf⟩ := exists_cons_of_ne_nil (formatUint_ne_nil s.millis)
  have hc : 48 ≤ c.toNat ∧ c.toNat ≤ 57 := mem_formatUint (hf ▸ mem_cons_self)
  have ht : s.toBytes = c :: (l ++ 45 :: formatUint s.seq) := by rw [toBytes, hf]; rfl
  refine ⟨fun h => ?_, fun ⟨pre, h⟩ => ?_, fun h => ?_⟩
  · rw [ht] at h
    rw [show c = 42 from (List.cons.inj h).1] at hc
    simp at hc
  · obtain ⟨l', d, hl⟩ := eq_nil_or_concat (formatUint s.seq) |>.resolve_left (formatUint_ne_nil s.seq)
    have hd : 48 ≤ d.toNat ∧ d.toNat ≤ 57 := mem_formatUint (n := s.seq) (by simp [hl])
    have he : pre ++ lit "-" ++ [42] = formatUint s.millis ++ 45 :: l' ++ [d] := by
      rw [toBytes, hl] at h
      simpa [lit] using h
    rw [← append_inj_right' he rfl |> List.cons.inj |>.1] at hd
    simp at hd
  · have ha : s.toBytes.all (· < 0x80) = true := by
      rw [all_eq_true]
      intro b hb
      rw [toBytes, mem_append, mem_cons] at hb
      rcases hb with hb | rfl | hb
      · have := mem_formatUint hb
        simp [UInt8.lt_iff_toNat_lt]
        omega
      · rfl
      · have := mem_formatUint hb
        simp [UInt8.lt_iff_toNat_lt]
        omega
    rw [toUpper_ascii u ha, ht, map_cons] at h
    have hh := (List.cons.inj h).1
    have hn : isLower c = false := by
      simp only [isLower, Bool.and_eq_false_iff, decide_eq_false_iff_not, UInt8.le_iff_toNat_le]
      left
      simp
      omega
    rw [upperByte, hn] at hh
    rw [show c = 77 from hh] at hc
    simp at hc

theorem Lt.trans {s t u : StreamID} (h₁ : s.Lt t) (h₂ : t.Lt u) : s.Lt u := by
  unfold Lt at *
  omega

end StreamID

section

variable {s : Stream} {sid : StreamID} {quote : Bytes → Bytes} {now : Int}

theorem valid_of_parse {id : Bytes} (h : parseStreamID quote id = .ok sid) : sid.Valid := by
  have hlt : ∀ {s : Bytes} {n : Nat}, parseUint64 s = some n → n < 2 ^ 64 := by
    intro s n h
    obtain ⟨m, -, h⟩ := Option.bind_eq_some_iff.1 h
    split at h
    · cases h
      assumption
    · cases h
  unfold parseStreamID at h
  split at h
  · split at h
    · cases h
    · rename_i m hm
      cases h
      exact ⟨hlt hm, by norm_num⟩
  · split at h
    · cases h
    · rename_i m hm
      split at h
      · cases h
      · rename_i n hn
        cases h
        exact ⟨hlt hm, hlt hn⟩
  · cases h

theorem valid_assignID {id : Bytes} (h : s.lastID.Valid) (hs : s.assignID quote now id = .ok sid) : sid.Valid := by
  have hne : s.lastID.next.Valid := ⟨h.1, Nat.mod_lt _ (by norm_num)⟩
  unfold Stream.assignID at hs
  split at hs
  · cases hs
    split
    · refine ⟨?_, by norm_num⟩
      change (now / 1000000 % 2 ^ 64).toNat < 2 ^ 64
      omega
    · exact hne
  split at hs
  · dsimp only at hs
    cases hm : parseUint64 id.dropLast.dropLast with
    | none => rw [hm] at hs; cases hs
    | some m =>
      rw [hm] at hs
      dsimp only at hs
      split_ifs at hs
      · cases hs
        exact hne
      · cases hs
        obtain ⟨n, -, hn⟩ := Option.bind_eq_some_iff.1 hm
        split at hn
        · cases hn
          exact ⟨by assumption, by norm_num⟩
        · cases hn
  · cases hp : parseStreamID quote id with
    | error e => rw [hp] at hs; cases hs
    | ok p =>
      rw [hp] at hs
      dsimp only at hs
      split at hs
      · cases hs
      · cases hs
        exact valid_of_parse hp

/-! ### IDs that rise -/

/-- The argument of `Add` leads to an ID above the last one, if to any: an explicit ID is compared with the last
one only while there are entries, and the sequence number may wrap around. -/
def Stream.Rises (quote : Bytes → Bytes) (now : Int) (id : Bytes) (s : Stream) : Prop :=
  if id = lit "*" then (now / 1000000 % 2 ^ 64).toNat > s.lastID.millis ∨ s.lastID.seq + 1 < 2 ^ 64
  else if lit "-*" <:+ id then parseUint64 id.dropLast.dropLast = some s.lastID.millis → s.lastID.seq + 1 < 2 ^ 64
  else s.entries = [] → ∀ p, parseStreamID quote id = .ok p → s.lastID.Lt p

theorem lt_next_iff (h : sid.Valid) : sid.Lt sid.next ↔ sid.seq + 1 < 2 ^ 64 := by
  have hs := h.2
  unfold StreamID.Lt StreamID.next
  dsimp only
  omega

theorem lt_assignID_iff {id : Bytes} (h : s.lastID.Valid) (hs : s.assignID quote now id = .ok sid) :
    s.lastID.Lt sid ↔ s.Rises quote now id := by
  unfold Stream.assignID at hs
  unfold Stream.Rises
  by_cases hst : id = lit "*"
  · rw [if_pos hst] at hs ⊢
    cases hs
    split
    · rename_i hn
      exact ⟨fun _ => .inl hn, fun _ => .inl hn⟩
    · rename_i hn
      rw [lt_next_iff h, or_iff_right hn]
  rw [if_neg hst] at hs ⊢
  by_cases hd : lit "-*" <:+ id
  · rw [if_pos hd] at hs ⊢
    dsimp only at hs
    cases hm : parseUint64 id.dropLast.dropLast with
    | none => rw [hm] at hs; cases hs
    | some m =>
      rw [hm] at hs
      dsimp only at hs
      rw [Option.some.injEq]
      split_ifs at hs with hlt heq
      · cases hs
        rw [lt_next_iff h]
        exact ⟨fun hse _ => hse, fun hse => hse heq⟩
      · cases hs
        refine ⟨fun _ h => absurd h heq, fun _ => .inl ?_⟩
        change s.lastID.millis < m
        omega
  · rw [if_neg hd] at hs ⊢
    cases hp : parseStreamID quote id with
    | error e => rw [hp] at hs; cases hs
    | ok p =>
      rw [hp] at hs
      dsimp only at hs
      split at hs
      · cases hs
      · rename_i hl
        cases hs
        constructor
        · rintro hlt - q hq
          cases hq
          exact hlt
        · intro hr
          by_cases hni : s.entries = []
          · exact hr hni _ rfl
          · have hno := not_and.1 hl hni
            unfold StreamID.Lt
            omega

theorem rises_of_error {id e : Bytes} (he : s.assignID quote now id = .error e) : s.Rises quote now id := by
  unfold Stream.assignID at he
  unfold Stream.Rises
  by_cases hs : id = lit "*"
  · rw [if_pos hs] at he
    cases he
  rw [if_neg hs] at he ⊢
  by_cases hd : lit "-*" <:+ id
  · rw [if_pos hd] at he ⊢
    intro hm
    dsimp only at he
    rw [hm] at he
    simp at he
  · rw [if_neg hd] at he ⊢
    intro hn p hp
    rw [hp] at he
    simp [hn] at he

end

def IDBefore (a b : Bytes) : Prop := ∃ s t : StreamID, parseStreamID id a = .ok s ∧ parseStreamID id b = .ok t ∧ s.Lt t

theorem idBefore_toBytes {s t : StreamID} (hs : s.Valid) (ht : t.Valid) : IDBefore s.toBytes t.toBytes ↔ s.Lt t := by
  unfold IDBefore
  rw [StreamID.parse_toBytes hs, StreamID.parse_toBytes ht]
  constructor
  · rintro ⟨_, _, ⟨⟩, ⟨⟩, hlt⟩
    exact hlt
  · exact fun hlt => ⟨s, t, rfl, rfl, hlt⟩

theorem IDBefore.asymm {a b : Bytes} (h : IDBefore a b) : ¬ IDBefore b a := by
  rintro ⟨t', s', ht', hs', hl⟩
  obtain ⟨s, t, hs, ht, hlt⟩ := h
  cases hs.symm.trans hs'
  cases ht.symm.trans ht'
  unfold StreamID.Lt at *
  omega

namespace StreamHistory

variable {quote : Bytes → Bytes} {h : StreamHistory} {c : StreamCall} {cs : List StreamCall}

/-- A call removes entries, or it is an `Add` and appends one. -/
theorem call_cases (quote : Bytes → Bytes) (h : StreamHistory) (c : StreamCall) :
    ((h.call quote c).returned = h.returned ∧ (h.call quote c).stream.lastID = h.stream.lastID ∧
      (h.call quote c).stream.entries.Sublist h.stream.entries) ∨
    ∃ now id fields order sid, c = .add now id fields order ∧ h.stream.assignID quote now id = .ok sid ∧
      h.call quote c = { h with
        stream := { h.stream with lastID := sid, entries := h.stream.entries ++ [⟨sid.toBytes, fields, order⟩] }
        returned := h.returned ++ [sid.toBytes]
        since := fun g => h.since g ++ [sid.toBytes] } := by
  cases c with
  | add now id fields order =>
    cases hs : h.stream.assignID quote now id with
    | error e =>
      have hc : h.call quote (.add now id fields order) = h := by simp only [call, Stream.add, hs]
      rw [hc]
      exact .inl ⟨rfl, rfl, .refl _⟩
    | ok sid => exact .inr ⟨now, id, fields, order, sid, rfl, hs, by simp only [call, Stream.add, hs]⟩
  | delete ids => exact .inl ⟨rfl, rfl, filter_sublist⟩
  | trim maxlen =>
    left
    dsimp only [call]
    unfold Stream.trim
    split
    · exact ⟨rfl, rfl, .refl _⟩
    · exact ⟨rfl, rfl, drop_sublist _ _⟩
  | createGroup name startID =>
    left
    dsimp only [call]
    unfold Stream.createGroup
    split_ifs <;> exact ⟨rfl, rfl, .refl _⟩
  | readGroup now group consumer id count noAck =>
    left
    dsimp only [call]
    unfold Stream.readGroup
    cases h.stream.groups.lookup group <;> exact ⟨rfl, rfl, .refl _⟩
  | ack group ids =>
    left
    dsimp only [call]
    unfold Stream.ack
    cases h.stream.groups.lookup group <;> exact ⟨rfl, rfl, .refl _⟩
  | deleteConsumer group consumer =>
    left
    dsimp only [call]
    unfold Stream.deleteConsumer
    cases h.stream.groups.lookup group with
    | none => exact ⟨rfl, rfl, .refl _⟩
    | some g =>
      dsimp only
      cases g.consumers.lookup consumer <;> exact ⟨rfl, rfl, .refl _⟩

/-- The last ID is the last one returned, and the entries are some of those added, in order. -/
structure Listed (h : StreamHistory) : Prop where
  valid : h.stream.lastID.Valid
  ids : ∃ sids : List StreamID, h.returned = sids.map StreamID.toBytes ∧ (∀ sid ∈ sids, sid.Valid) ∧
    (sids = [] ∨ sids.getLast? = some h.stream.lastID)
  entries : (h.stream.entries.map StreamEntry.id).Sublist h.returned

theorem listed_new : new.Listed :=
  ⟨⟨by norm_num [new, Stream.new], by norm_num [new, Stream.new]⟩, ⟨[], rfl, nofun, .inl rfl⟩, .slnil⟩

theorem Listed.call (hl : h.Listed) (c : StreamCall) : (h.call quote c).Listed := by
  rcases call_cases quote h c with ⟨hr, hla, hs⟩ | ⟨now, id, fields, order, sid, rfl, hsi, hc⟩
  · refine ⟨hla ▸ hl.valid, ?_, ?_⟩
    · rw [hr, hla]
      exact hl.ids
    · rw [hr]
      exact (hs.map _).trans hl.entries
  · have hv := valid_assignID hl.valid hsi
    obtain ⟨sids, hi, ha, -⟩ := hl.ids
    rw [hc]
    refine ⟨hv, ⟨sids ++ [sid], ?_, fun t ht => ?_, .inr (by simp)⟩, ?_⟩
    · simp [hi]
    · rcases mem_append.1 ht with ht | ht
      · exact ha t ht
      · rwa [mem_singleton.1 ht]
    · simpa using hl.entries

def Rising (quote : Bytes → Bytes) (h : StreamHistory) : StreamCall → Prop
  | .add now id _ _ => h.returned = [] ∨ h.stream.Rises quote now id
  | _ => True

theorem pairwise_snoc {sids : List StreamID} (hs : sids.Pairwise StreamID.Lt) {last sid : StreamID}
    (hl : sids = [] ∨ sids.getLast? = some last) : (sids ++ [sid]).Pairwise StreamID.Lt ↔ sids = [] ∨ last.Lt sid := by
  rw [pairwise_append]
  rcases eq_nil_or_concat sids with rfl | ⟨init, x, rfl⟩
  · simp
  obtain rfl : x = last := by simpa [concat_eq_append] using hl
  rw [concat_eq_append] at hs ⊢
  have hbe := (pairwise_append.1 hs).2.2
  constructor
  · rintro ⟨-, -, hal⟩
    exact .inr (hal x (by simp) sid (by simp))
  · rintro (hn | hlt)
    · simp at hn
    · refine ⟨hs, pairwise_singleton _ _, fun a ha b hb => ?_⟩
      rw [mem_singleton.1 hb]
      rcases mem_append.1 ha with ha | ha
      · exact (hbe a ha x (by simp)).trans hlt
      · rwa [mem_singleton.1 ha]

theorem pairwise_texts {sids : List StreamID} (hv : ∀ sid ∈ sids, sid.Valid) :
    (sids.map StreamID.toBytes).Pairwise IDBefore ↔ sids.Pairwise StreamID.Lt := by
  rw [pairwise_map]
  exact List.Pairwise.iff_of_mem fun ha hb => idBefore_toBytes (hv _ ha) (hv _ hb)

theorem pairwise_call (hl : h.Listed) (hp : h.returned.Pairwise IDBefore) (c : StreamCall) :
    (h.call quote c).returned.Pairwise IDBefore ↔ h.Rising quote c := by
  rcases call_cases quote h c with ⟨hr, -, -⟩ | ⟨now, id, fields, order, sid, rfl, hs, hc⟩
  · rw [hr, iff_true_left hp]
    cases c with
    | add now id fields order =>
      refine .inr ?_
      cases hs : h.stream.assignID quote now id with
      | error e => exact rises_of_error hs
      | ok sid => simp [call, Stream.add, hs] at hr
    | _ => exact trivial
  · obtain ⟨sids, hi, ha, hla⟩ := hl.ids
    have hv := valid_assignID hl.valid hs
    have hal : ∀ t ∈ sids ++ [sid], t.Valid := by
      intro t ht
      rcases mem_append.1 ht with ht | ht
      · exact ha t ht
      · rwa [mem_singleton.1 ht]
    have hr : (h.call quote (.add now id fields order)).returned = (sids ++ [sid]).map StreamID.toBytes := by
      rw [hc, map_append, ← hi]
      rfl
    rw [hi, pairwise_texts ha] at hp
    rw [hr, pairwise_texts hal, pairwise_snoc hp hla, lt_assignID_iff hl.valid hs, Rising, hi, map_eq_nil_iff]

theorem returned_extends (quote : Bytes → Bytes) (cs : List StreamCall) (h : StreamHistory) :
    h.returned <+: (h.calls quote cs).returned := by
  induction cs generalizing h with
  | nil => exact prefix_rfl
  | cons c cs ih =>
    refine List.IsPrefix.trans ?_ (ih (h.call quote c))
    rcases call_cases quote h c with ⟨hr, -, -⟩ | ⟨now, id, fields, order, sid, -, -, hc⟩
    · rw [hr]
    · rw [hc]
      exact prefix_append _ _

theorem Listed.calls (hl : h.Listed) (cs : List StreamCall) : (h.calls quote cs).Listed := by
  induction cs generalizing h with
  | nil => exact hl
  | cons c cs ih => exact ih (hl.call c)

theorem pairwise_calls (hl : h.Listed) (hp : h.returned.Pairwise IDBefore) :
    (h.calls quote cs).returned.Pairwise IDBefore ↔ Machine.Along (step quote) (Rising quote) cs h := by
  induction cs generalizing h with
  | nil => exact iff_of_true hp trivial
  | cons c cs ih =>
    have hstep : (h.call quote c).returned.Pairwise IDBefore ↔ h.Rising quote c := pairwise_call hl hp c
    constructor
    · intro ha
      have hc : (h.call quote c).returned.Pairwise IDBefore := ha.sublist (returned_extends quote cs (h.call quote c)).sublist
      refine ⟨hstep.1 hc, ?_⟩
      rintro _ ⟨⟩
      exact (ih (hl.call c) hc).1 ha
    · rintro ⟨hr, hre⟩
      exact (ih (hl.call c) (hstep.2 hr)).2 (hre _ rfl)

end StreamHistory

/-- The IDs that `Add` returns rise exactly in the histories in which no `Add` could fall back; the entries are then
in order. -/
theorem ids_rise (quote : Bytes → Bytes) (cs : List StreamCall) :
    ((StreamHistory.new.calls quote cs).returned.Pairwise IDBefore ↔
      Machine.Along (StreamHistory.step quote) (StreamHistory.Rising quote) cs .new) ∧
    ((StreamHistory.new.calls quote cs).returned.Pairwise IDBefore →
      ((StreamHistory.new.calls quote cs).stream.entries.map StreamEntry.id).Pairwise IDBefore) :=
  ⟨StreamHistory.pairwise_calls StreamHistory.listed_new .nil, fun h => h.sublist (StreamHistory.listed_new.calls cs).entries⟩

theorem id_falls : (StreamHistory.new.calls id [.add 0 "5-0" ∅ [], .delete ["5-0"], .add 0 "3-0" ∅ []]).returned = ["5-0", "3-0"] ∧
    ¬ IDBefore "5-0" "3-0" := by
  refine ⟨by decide, ?_⟩
  rintro ⟨s, t, hs, ht, hlt⟩
  have h5 : parseStreamID id "5-0" = .ok ⟨5, 0⟩ := by rfl
  have h3 : parseStreamID id "3-0" = .ok ⟨3, 0⟩ := by rfl
  cases h5.symm.trans hs
  cases h3.symm.trans ht
  revert hlt
  decide

end VortexKV
