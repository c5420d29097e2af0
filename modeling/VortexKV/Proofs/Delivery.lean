import VortexKV.Proofs.StreamIds

/-!
# What a consumer group hands out

The cursor of a group stays at or above all that was handed out to it, below all that is yet to come, and never
above the last ID of the stream (`HandsOut`). `handed_out_once` follows for every history in which no ID falls back
and no group starts above the last ID.
-/

namespace VortexKV

open List

variable {e : StreamEntry} {b : Option StreamID} {group cur : Bytes} {h' : StreamHistory}

def IsID (a : Bytes) : Prop := ∃ sid : StreamID, sid.Valid ∧ a = sid.toBytes

def CursorAt (c : Bytes) : Option StreamID → Prop
  | none => c = lit "-"
  | some sid => parseStreamID id c = .ok sid

def Past (c a : Bytes) : Prop := compareStreamIDs a c > 0

instance (c a : Bytes) : Decidable (Past c a) := inferInstanceAs (Decidable (_ > _))

section

variable {c a a' : Bytes} {b : Option StreamID} {sid : StreamID}

theorem toBytes_ne (sid : StreamID) : sid.toBytes ≠ lit "-" ∧ sid.toBytes ≠ lit "+" := by
  obtain ⟨d, l, hf⟩ := exists_cons_of_ne_nil (formatUint_ne_nil sid.millis)
  have hd : 48 ≤ d.toNat ∧ d.toNat ≤ 57 := mem_formatUint (hf ▸ mem_cons_self)
  have ht : sid.toBytes = d :: (l ++ 45 :: formatUint sid.seq) := by rw [StreamID.toBytes, hf]; rfl
  rw [ht]
  constructor
  · intro h
    rw [show d = 45 from (List.cons.inj h).1] at hd
    simp at hd
  · intro h
    rw [show d = 43 from (List.cons.inj h).1] at hd
    simp at hd

theorem past_iff (hsi : sid.Valid) (hc : CursorAt c b) : Past c sid.toBytes ↔ ∀ t ∈ b, t.Lt sid := by
  obtain ⟨hm, hp⟩ := toBytes_ne sid
  have hs := StreamID.parse_toBytes hsi id
  unfold Past compareStreamIDs
  cases b with
  | none =>
    have hc : c = lit "-" := hc
    have hne : lit "-" ≠ lit "+" := by decide
    rw [hc, if_neg hm, if_neg (by simp [hm, hne]), if_pos (.inr rfl)]
    simp
  | some t =>
    have hc : parseStreamID id c = .ok t := hc
    have hcm : c ≠ lit "-" := by
      rintro rfl
      cases hc
    have hcp : c ≠ lit "+" := by
      rintro rfl
      cases hc
    by_cases heq : sid.toBytes = c
    · rw [heq, hc] at hs
      cases hs
      simp [heq, StreamID.Lt]
    · rw [if_neg heq, if_neg (by simp [hm, hcp]), if_neg (by simp [hp, hcm]), hs, hc]
      simp only [Option.mem_some_iff, forall_eq', StreamID.Lt]
      split_ifs <;> omega

theorem cursorAt_toBytes (hs : sid.Valid) : CursorAt sid.toBytes (some sid) := StreamID.parse_toBytes hs id

theorem IsID.past (ha : IsID a) (ha' : IsID a') : Past a a' ↔ IDBefore a a' := by
  obtain ⟨s, hs, rfl⟩ := ha
  obtain ⟨t, ht, rfl⟩ := ha'
  rw [past_iff ht (cursorAt_toBytes hs), idBefore_toBytes hs ht]
  simp

theorem Past.mono (hc : CursorAt c b) (ha : IsID a) (ha' : IsID a') (hp : Past c a) (hlt : IDBefore a a') : Past c a' := by
  obtain ⟨s, hs, rfl⟩ := ha
  obtain ⟨t, ht, rfl⟩ := ha'
  rw [past_iff hs hc] at hp
  rw [idBefore_toBytes hs ht] at hlt
  rw [past_iff ht hc]
  exact fun u hu => (hp u hu).trans hlt

end

/-! ### `ReadGroup` -/

namespace Stream

section

variable {es : List StreamEntry} {g : ConsumerGroup}

theorem deliver_cons (now : Int) (noAck : Bool) (room : Option Nat) (es : List StreamEntry) (c : Consumer) (hp : Past g.lastDeliveredID e.id) : ∃ g' c',
    g' = { g with lastDeliveredID := e.id, pel := if noAck then g.pel else g.pel.insert e.id ⟨e.id, c.name, now, 1⟩ } ∧
    c' = { c with pel := if noAck then c.pel else c.pel.insert e.id ⟨e.id, c.name, now, 1⟩ } ∧
    deliver now noAck room (e :: es) g c =
      (match room with
      | none => (e :: (deliver now noAck none es g' c').1, (deliver now noAck none es g' c').2)
      | some 0 => ([e], g', c')
      | some 1 => ([e], g', c')
      | some (n + 2) => (e :: (deliver now noAck (some (n + 1)) es g' c').1, (deliver now noAck (some (n + 1)) es g' c').2)) := by
  have hp : compareStreamIDs e.id g.lastDeliveredID > 0 := hp
  rw [deliver, if_pos hp]
  refine ⟨_, _, rfl, rfl, ?_⟩
  rcases room with _ | _ | _ | n <;> rfl

/-- The loop hands out the entries past the cursor from the front, and leaves the cursor on the last of them. -/
theorem deliver_spec (now : Int) (noAck : Bool) (room : Option Nat) (c : Consumer) (hb : CursorAt g.lastDeliveredID b) (hi : ∀ e ∈ es, IsID e.id)
    (hs : (es.map StreamEntry.id).Pairwise IDBefore) :
    ∃ rest, es.filter (fun e => Past g.lastDeliveredID e.id) = (deliver now noAck room es g c).1 ++ rest ∧
      (deliver now noAck room es g c).2.1.lastDeliveredID =
        (((deliver now noAck room es g c).1.map StreamEntry.id).getLast?).getD g.lastDeliveredID ∧
      (room = none → rest = []) := by
  induction es generalizing room g c b with
  | nil => exact ⟨[], rfl, rfl, fun _ => rfl⟩
  | cons e es ih =>
    rw [map_cons, pairwise_cons] at hs
    have ht : ∀ e ∈ es, IsID e.id := fun e he => hi e (by simp [he])
    have he := hi e (by simp)
    by_cases hp : Past g.lastDeliveredID e.id
    · -- the entries that follow are past the old cursor and past the new one
      have hold : (e :: es).filter (fun e => Past g.lastDeliveredID e.id) = e :: es := by
        refine filter_eq_self.2 fun e' he' => decide_eq_true ?_
        rcases mem_cons.1 he' with rfl | he'
        · exact hp
        · exact hp.mono hb he (ht e' he') (hs.1 _ (mem_map_of_mem he'))
      have hn : es.filter (fun e' => Past e.id e'.id) = es :=
        filter_eq_self.2 fun e' he' => decide_eq_true ((he.past (ht e' he')).2 (hs.1 _ (mem_map_of_mem he')))
      obtain ⟨sid, hsi, hei⟩ := he
      obtain ⟨g', c', hg, -, hdel⟩ := deliver_cons now noAck room es c hp
      have hg' : g'.lastDeliveredID = e.id := by rw [hg]
      have hb' : CursorAt g'.lastDeliveredID (some sid) := by
        rw [hg', hei]
        exact cursorAt_toBytes hsi
      rw [hold, hdel]
      have hm : ∀ room', ∃ rest, e :: es = (e :: (deliver now noAck room' es g' c').1) ++ rest ∧
          (deliver now noAck room' es g' c').2.1.lastDeliveredID =
            (((e :: (deliver now noAck room' es g' c').1).map StreamEntry.id).getLast?).getD g.lastDeliveredID ∧
          (room' = none → rest = []) := by
        intro room'
        obtain ⟨rest, hf, hc, hr⟩ := ih room' c' hb' ht hs.2
        rw [hg', hn] at hf
        refine ⟨rest, by rw [cons_append, ← hf], ?_, hr⟩
        rw [hc, hg', map_cons, List.getLast?_cons]
        rfl
      rcases room with _ | _ | _ | n
      · exact hm none
      · exact ⟨es, rfl, hg', nofun⟩
      · exact ⟨es, rfl, hg', nofun⟩
      · obtain ⟨rest, hes, hc, -⟩ := hm (some (n + 1))
        exact ⟨rest, hes, hc, nofun⟩
    · have hsk : deliver now noAck room (e :: es) g c = deliver now noAck room es g c := by
        rw [deliver]
        exact if_neg hp
      rw [hsk, filter_cons_of_neg (by simpa using hp)]
      exact ih room c hb ht hs.2

end

/-! ### Cursors -/

def cursor (group : Bytes) (s : Stream) : Option Bytes := (s.groups.lookup group).map (·.lastDeliveredID)

theorem cursor_insert (s : Stream) (group group' : Bytes) (g : ConsumerGroup) :
    cursor group' { s with groups := s.groups.insert group g } =
      if group' = group then some g.lastDeliveredID else s.cursor group' := by
  unfold cursor
  split
  · rename_i h
    rw [h, Finmap.lookup_insert]
    rfl
  · rename_i h
    rw [Finmap.lookup_insert_of_ne _ h]

theorem lastDeliveredID_ackLoop (ids : List Bytes) (g : ConsumerGroup) : (ackLoop ids g).2.lastDeliveredID = g.lastDeliveredID := by
  induction ids generalizing g with
  | nil => rfl
  | cons id ids ih =>
    unfold ackLoop
    split
    · exact ih g
    · exact ih _

theorem cursor_ack (group : Bytes) (ids : List Bytes) (s : Stream) (group' : Bytes) :
    (s.ack group ids).2.cursor group' = s.cursor group' := by
  unfold ack
  cases hg : s.groups.lookup group with
  | none => rfl
  | some g =>
    refine (cursor_insert s group group' _).trans ?_
    split
    · rename_i h
      rw [h, cursor, hg, lastDeliveredID_ackLoop]
      rfl
    · rfl

theorem cursor_deleteConsumer (group consumer : Bytes) (s : Stream) (group' : Bytes) :
    (s.deleteConsumer group consumer).2.cursor group' = s.cursor group' := by
  unfold deleteConsumer
  cases hg : s.groups.lookup group with
  | none => rfl
  | some g =>
    dsimp only
    cases g.consumers.lookup consumer with
    | none => rfl
    | some c =>
      refine (cursor_insert s group group' _).trans ?_
      split
      · rename_i h
        rw [h, cursor, hg]
        rfl
      · rfl

theorem lastDeliveredID_redeliver (entries : List StreamEntry) (now : Int) (noAck : Bool) (room : Option Nat) (pids : List Bytes)
    (g : ConsumerGroup) (c : Consumer) :
    (redeliver entries now noAck room pids g c).2.1.lastDeliveredID = g.lastDeliveredID := by
  induction pids generalizing room g c with
  | nil => rfl
  | cons pid pids ih =>
    unfold redeliver
    cases findEntry entries pid with
    | none => exact ih room g c
    | some e =>
      rcases room with _ | _ | _ | n
      · refine (ih _ _ _).trans ?_
        split <;> rfl
      · cases noAck <;> rfl
      · cases noAck <;> rfl
      · refine (ih _ _ _).trans ?_
        split <;> rfl

theorem readGroup_new {s : Stream} (hc : s.cursor group = some cur)
    (hb : CursorAt cur b) (hi : ∀ e ∈ s.entries, IsID e.id) (hs : (s.entries.map StreamEntry.id).Pairwise IDBefore)
    (now : Int) (consumer : Bytes) (count : Int) (noAck : Bool) :
    ∃ es rest s', s.readGroup now group consumer (lit ">") count noAck = .ok (es, s') ∧
      s.entries.filter (fun e => Past cur e.id) = es ++ rest ∧ (count ≤ 0 → rest = []) ∧
      s'.entries = s.entries ∧ s'.lastID = s.lastID ∧
      ∀ group', s'.cursor group' =
        if group' = group then some ((es.map StreamEntry.id).getLast?.getD cur) else s.cursor group' := by
  obtain ⟨g, hg, rfl⟩ := Option.map_eq_some_iff.1 hc
  let c : Consumer := { (g.consumers.lookup consumer).getD ⟨consumer, now, ∅⟩ with seenTime := now }
  obtain ⟨rest, hf, hl, hr⟩ := deliver_spec now noAck (room count) c hb hi hs
  let out := deliver now noAck (room count) s.entries g c
  let s' : Stream := { s with groups := s.groups.insert group { out.2.1 with consumers := out.2.1.consumers.insert consumer out.2.2 } }
  refine ⟨out.1, rest, s', ?_, hf, fun hco => hr (if_neg (by omega)), rfl, rfl, fun group' => ?_⟩
  · unfold readGroup
    rw [hg]
    dsimp only
    rw [if_pos rfl]
  · rw [cursor_insert, ← hl]

theorem readGroup_pending {s s' : Stream} {now : Int} {consumer id : Bytes} {count : Int} {noAck : Bool} {es : List StreamEntry}
    (hid : id ≠ lit ">") (h : s.readGroup now group consumer id count noAck = .ok (es, s')) :
    s'.entries = s.entries ∧ s'.lastID = s.lastID ∧ ∀ group', s'.cursor group' = s.cursor group' := by
  unfold readGroup at h
  cases hg : s.groups.lookup group with
  | none => rw [hg] at h; cases h
  | some g =>
    rw [hg] at h
    dsimp only at h
    rw [if_neg hid] at h
    cases h
    refine ⟨rfl, rfl, fun group' => ?_⟩
    rw [cursor_insert]
    split
    · rename_i h
      rw [h, cursor, hg]
      exact congrArg some (lastDeliveredID_redeliver _ _ _ _ _ _ _)
    · rfl

end Stream

/-! ### Histories -/

namespace StreamHistory

variable {quote : Bytes → Bytes} {h : StreamHistory} {cs : List StreamCall}

/-- IDs do not fall back, and no group starts above the last ID. -/
def Orderly (quote : Bytes → Bytes) (h : StreamHistory) : StreamCall → Prop
  | .add now id _ _ => (h.returned = [] ∧ h.stream.groups = ∅) ∨ h.stream.Rises quote now id
  | .createGroup _ startID => startID = lit "$" ∨ startID = lit "-" ∨
      ∃ sid, parseStreamID id startID = .ok sid ∧ ¬ h.stream.lastID.Lt sid
  | _ => True

/-- What has been handed out to a group, its cursor, and what is yet to come. -/
structure HandsOut (h : StreamHistory) (group cur : Bytes) : Prop where
  cursor : ∃ b, CursorAt cur b ∧ ∀ t ∈ b, ¬ h.stream.lastID.Lt t
  past : ∀ a ∈ h.handedOut group, IsID a ∧ ¬ Past cur a
  once : (h.handedOut group).Pairwise IDBefore
  ahead : ∀ e ∈ h.stream.entries, e.id ∈ h.since group → e.id ∈ h.handedOut group ∨ Past cur e.id

structure Delivers (h : StreamHistory) : Prop where
  listed : h.Listed
  rising : h.returned.Pairwise IDBefore
  groups : ∀ group cur, h.stream.cursor group = some cur → h.HandsOut group cur
  absent : ∀ group, h.stream.cursor group = none → h.handedOut group = []

theorem delivers_new : new.Delivers := by
  have hn : ∀ group, new.stream.cursor group = none := fun group => by
    change Option.map _ ((∅ : GoMap ConsumerGroup).lookup group) = none
    rw [Finmap.lookup_empty]
    rfl
  refine ⟨listed_new, .nil, fun group cur hc => ?_, fun _ _ => rfl⟩
  rw [hn] at hc
  cases hc

theorem Listed.isID (hl : h.Listed) : ∀ e ∈ h.stream.entries, IsID e.id := by
  intro e he
  obtain ⟨sids, hi, hv, -⟩ := hl.ids
  have hm := hl.entries.subset (mem_map_of_mem he)
  rw [hi] at hm
  obtain ⟨sid, hs, heq⟩ := mem_map.1 hm
  exact ⟨sid, hv sid hs, heq.symm⟩

theorem HandsOut.of_sublist (hg : h.HandsOut group cur)
    (hsu : h'.stream.entries.Sublist h.stream.entries) (hl : h'.stream.lastID = h.stream.lastID)
    (hs : h'.since group = h.since group) (ho : h'.handedOut group = h.handedOut group) : h'.HandsOut group cur := by
  refine ⟨by rw [hl]; exact hg.cursor, by rw [ho]; exact hg.past, by rw [ho]; exact hg.once, fun e he hin => ?_⟩
  rw [hs] at hin
  rw [ho]
  exact hg.ahead e (hsu.subset he) hin

theorem handedOut_append (h : StreamHistory) (group group' consumer : Bytes) (es : List StreamEntry) (s : Stream) :
    handedOut { h with stream := s, handouts := h.handouts ++ es.map fun e => ⟨group, consumer, e.id⟩ } group' =
      h.handedOut group' ++ if group' = group then es.map StreamEntry.id else [] := by
  unfold handedOut
  rw [filter_append, map_append, filter_map, map_map]
  congr 1
  split
  · rename_i heq
    rw [filter_eq_self.2 fun e _ => by simp [heq]]
    rfl
  · rename_i hne
    rw [filter_eq_nil_iff.2 fun e _ => by simpa [eq_comm] using hne]
    rfl

theorem Delivers.quiet (hd : h.Delivers) (hl : h'.Listed) (hr : h'.returned.Pairwise IDBefore)
    (hsu : h'.stream.entries.Sublist h.stream.entries) (hla : h'.stream.lastID = h.stream.lastID) (hs : h'.since = h.since)
    (ho : h'.handouts = h.handouts) (hc : ∀ group, h'.stream.cursor group = h.stream.cursor group) : h'.Delivers := by
  have ho : ∀ group, h'.handedOut group = h.handedOut group := fun group => by rw [handedOut, ho]; rfl
  refine ⟨hl, hr, fun group cur hg => ?_, fun group hg => ?_⟩
  · exact (hd.groups group cur (hc group ▸ hg)).of_sublist hsu hla (by rw [hs]) (ho group)
  · rw [ho]
    exact hd.absent group (hc group ▸ hg)

theorem before_of_past {a a' : Bytes} (hb : CursorAt cur b) (ha : IsID a) (ha' : IsID a')
    (hn : ¬ Past cur a) (hp : Past cur a') : IDBefore a a' := by
  obtain ⟨s, hs, rfl⟩ := ha
  obtain ⟨t, ht, rfl⟩ := ha'
  rw [past_iff hs hb] at hn
  rw [past_iff ht hb] at hp
  obtain ⟨u, hu, hlt⟩ : ∃ u ∈ b, ¬ u.Lt s := by simpa using hn
  have hut := hp u hu
  rw [idBefore_toBytes hs ht]
  unfold StreamID.Lt at *
  omega

theorem Delivers.le_last (hd : h.Delivers) (he : e ∈ h.stream.entries) :
    ∃ sid : StreamID, sid.Valid ∧ e.id = sid.toBytes ∧ ¬ h.stream.lastID.Lt sid := by
  obtain ⟨sids, hi, hv, hl⟩ := hd.listed.ids
  have hm := hd.listed.entries.subset (mem_map_of_mem he)
  have hr := hd.rising
  rw [hi, pairwise_texts hv] at hr
  rw [hi] at hm
  obtain ⟨sid, hs, heq⟩ := mem_map.1 hm
  refine ⟨sid, hv sid hs, heq.symm, ?_⟩
  rcases eq_nil_or_concat sids with rfl | ⟨init, x, rfl⟩
  · cases hs
  obtain rfl : x = h.stream.lastID := by simpa [concat_eq_append] using hl
  rw [concat_eq_append] at hs hr
  rcases mem_append.1 hs with hs | hs
  · have hlt := (pairwise_append.1 hr).2.2 sid hs _ (mem_singleton_self _)
    unfold StreamID.Lt at *
    omega
  · rw [mem_singleton.1 hs]
    unfold StreamID.Lt
    omega

theorem HandsOut.add {sid : StreamID} (hg : h.HandsOut group cur)
    (hsi : sid.Valid) (hlt : h.stream.lastID.Lt sid) (he : e.id = sid.toBytes) (hen : h'.stream.entries = h.stream.entries ++ [e])
    (hl : h'.stream.lastID = sid) (hs : h'.since group = h.since group ++ [e.id])
    (ho : h'.handedOut group = h.handedOut group) : h'.HandsOut group cur := by
  obtain ⟨b, hb, hle⟩ := hg.cursor
  have hbe : ∀ t ∈ b, t.Lt sid := by
    intro t ht
    have hn := hle t ht
    unfold StreamID.Lt at *
    omega
  have hp : Past cur e.id := by
    rw [he]
    exact (past_iff hsi hb).2 hbe
  refine ⟨⟨b, hb, fun t ht => ?_⟩, by rw [ho]; exact hg.past, by rw [ho]; exact hg.once, fun e' he' hin => ?_⟩
  · have hts := hbe t ht
    rw [hl]
    unfold StreamID.Lt at *
    omega
  · rw [hs, mem_append, mem_singleton] at hin
    rw [ho]
    rcases hin with hin | heq
    · rw [hen, mem_append, mem_singleton] at he'
      rcases he' with he' | rfl
      · exact hg.ahead e' he' hin
      · exact .inr hp
    · rw [heq]
      exact .inr hp

theorem HandsOut.read {h' : StreamHistory} {group cur : Bytes} {es rest : List StreamEntry} (hd : h.Delivers)
    (hg : h.HandsOut group cur) (hf : h.stream.entries.filter (fun e => Past cur e.id) = es ++ rest)
    (hen : h'.stream.entries = h.stream.entries) (hl : h'.stream.lastID = h.stream.lastID) (hsi : h'.since = h.since)
    (ho : h'.handedOut group = h.handedOut group ++ es.map StreamEntry.id) :
    h'.HandsOut group ((es.map StreamEntry.id).getLast?.getD cur) := by
  obtain ⟨b, hb, hle⟩ := hg.cursor
  have hi := hd.listed.isID
  have hsu : (es ++ rest).Sublist h.stream.entries := hf ▸ filter_sublist
  have hps : ∀ e ∈ es ++ rest, Past cur e.id := fun e he => by
    rw [← hf] at he
    exact of_decide_eq_true (mem_filter.1 he).2
  have hs : ((es ++ rest).map StreamEntry.id).Pairwise IDBefore :=
    (hd.rising.sublist hd.listed.entries).sublist (hsu.map _)
  have hse : ∀ e ∈ h.stream.entries, e.id ∈ h.since group → e.id ∈ h.handedOut group ++ es.map StreamEntry.id ∨ e ∈ rest := by
    intro e he hin
    rcases hg.ahead e he hin with hold | hp
    · exact .inl (mem_append_left _ hold)
    · have hm : e ∈ es ++ rest := by
        rw [← hf]
        exact mem_filter.2 ⟨he, decide_eq_true hp⟩
      rcases mem_append.1 hm with hm | hm
      · exact .inl (mem_append_right _ (mem_map_of_mem hm))
      · exact .inr hm
  rcases eq_nil_or_concat es with rfl | ⟨init, a, rfl⟩
  · refine hg.of_sublist (by rw [hen]) hl (by rw [hsi]) ?_
    rw [ho]
    exact append_nil _
  rw [concat_eq_append] at *
  rw [map_append, map_append, pairwise_append, pairwise_append] at hs
  obtain ⟨⟨hii, -, hlt⟩, -, hr⟩ := hs
  have hc : ((init ++ [a]).map StreamEntry.id).getLast?.getD cur = a.id := by simp
  have ha : a ∈ h.stream.entries := hsu.subset (by simp)
  have hpa : Past cur a.id := hps a (by simp)
  obtain ⟨sid, hsd, heq, hn⟩ := hd.le_last ha
  rw [hc]
  refine ⟨⟨some sid, by rw [heq]; exact cursorAt_toBytes hsd, ?_⟩, fun x hx => ?_, ?_, fun e he hin => ?_⟩
  · rintro t ⟨⟩
    rwa [hl]
  · -- what was handed out is not above the new cursor
    rw [ho, mem_append] at hx
    rcases hx with hx | hx
    · obtain ⟨hxi, hxn⟩ := hg.past x hx
      refine ⟨hxi, fun hp => hxn ?_⟩
      exact hpa.mono hb (hi a ha) hxi (((hi a ha).past hxi).1 hp)
    · obtain ⟨e, he, rfl⟩ := mem_map.1 hx
      have hem : e ∈ h.stream.entries := hsu.subset (mem_append_left _ he)
      refine ⟨hi e hem, fun hp => ?_⟩
      have hbe := ((hi a ha).past (hi e hem)).1 hp
      rcases mem_append.1 he with he | he
      · exact hbe.asymm (hlt e.id (mem_map_of_mem he) a.id (by simp))
      · cases mem_singleton.1 he
        exact hbe.asymm hbe
  · rw [ho, pairwise_append]
    refine ⟨hg.once, ?_, fun x hx y hy => ?_⟩
    · rw [map_append, pairwise_append]
      exact ⟨hii, pairwise_singleton _ _, hlt⟩
    · obtain ⟨hxi, hxn⟩ := hg.past x hx
      obtain ⟨e, he, rfl⟩ := mem_map.1 hy
      exact before_of_past hb hxi (hi e (hsu.subset (mem_append_left _ he))) hxn (hps e (mem_append_left _ he))
  · rw [hen] at he
    rw [hsi] at hin
    rw [ho]
    refine (hse e he hin).imp_right fun he' => ?_
    exact ((hi a ha).past (hi e he)).2 (hr a.id (by simp) e.id (mem_map_of_mem he'))

theorem cursorAt_dollarID (hv : h.stream.lastID.Valid) {startID : Bytes} (hs : startID = lit "$" ∨ startID = lit "-" ∨
    ∃ sid, parseStreamID id startID = .ok sid ∧ ¬ h.stream.lastID.Lt sid) :
    ∃ b, CursorAt (h.stream.dollarID startID) b ∧ ∀ t ∈ b, ¬ h.stream.lastID.Lt t := by
  unfold Stream.dollarID
  rcases hs with rfl | rfl | ⟨sid, hsi, hn⟩
  · rw [if_pos rfl, Stream.lastIDText]
    split
    · refine ⟨some ⟨0, 0⟩, by rfl, ?_⟩
      rintro t ⟨⟩
      simp [StreamID.Lt]
    · refine ⟨some h.stream.lastID, cursorAt_toBytes hv, ?_⟩
      rintro t ⟨⟩
      simp [StreamID.Lt]
  · exact ⟨none, by rfl, nofun⟩
  · rw [if_neg]
    · refine ⟨some sid, hsi, ?_⟩
      rintro t ⟨⟩
      exact hn
    · rintro rfl
      cases hsi

theorem Delivers.create (hd : h.Delivers) {name startID : Bytes}
    (hl : h'.Listed) (hr : h'.returned.Pairwise IDBefore) (hna : name ∉ h.stream.groups)
    (hst : h.Orderly quote (.createGroup name startID))
    (hs : h'.stream = { h.stream with groups := h.stream.groups.insert name ⟨name, h.stream.dollarID startID, ∅, ∅⟩ })
    (hsi : h'.since = Function.update h.since name []) (ho : h'.handouts = h.handouts) : h'.Delivers := by
  have ho : ∀ group, h'.handedOut group = h.handedOut group := fun group => by rw [handedOut, ho]; rfl
  have hb : h.stream.cursor name = none := by
    rw [Stream.cursor, Finmap.lookup_eq_none.2 hna]
    rfl
  refine ⟨hl, hr, fun group cur hc => ?_, fun group hc => ?_⟩
  · rw [hs, Stream.cursor_insert] at hc
    by_cases heq : group = name
    · subst heq
      rw [if_pos rfl] at hc
      cases hc
      have hn : h'.handedOut group = [] := (ho group).trans (hd.absent group hb)
      refine ⟨?_, fun a ha => ?_, ?_, fun e _ hin => ?_⟩
      · rw [hs]
        exact cursorAt_dollarID hd.listed.valid hst
      · rw [hn] at ha
        cases ha
      · rw [hn]
        exact .nil
      · rw [hsi, Function.update_self] at hin
        cases hin
    · rw [if_neg heq] at hc
      refine (hd.groups group cur hc).of_sublist (by rw [hs]) (by rw [hs]) ?_ (ho group)
      rw [hsi, Function.update_of_ne heq]
  · rw [hs, Stream.cursor_insert] at hc
    split at hc
    · cases hc
    · rw [ho]
      exact hd.absent group hc

theorem Delivers.read (hd : h.Delivers) {group consumer cur : Bytes} {es rest : List StreamEntry} {s' : Stream} {h' : StreamHistory}
    (hli : h'.Listed) (hr : h'.returned.Pairwise IDBefore) (hcr : h.stream.cursor group = some cur)
    (hf : h.stream.entries.filter (fun e => Past cur e.id) = es ++ rest) (he : s'.entries = h.stream.entries)
    (hl : s'.lastID = h.stream.lastID)
    (hcu : ∀ group', s'.cursor group' =
      if group' = group then some ((es.map StreamEntry.id).getLast?.getD cur) else h.stream.cursor group')
    (hca : h' = { h with stream := s', handouts := h.handouts ++ es.map fun e => ⟨group, consumer, e.id⟩ }) : h'.Delivers := by
  have ho : ∀ group', h'.handedOut group' = h.handedOut group' ++ if group' = group then es.map StreamEntry.id else [] :=
    fun group' => by rw [hca, handedOut_append]
  have hs : h'.stream = s' := by rw [hca]
  have hsi : h'.since = h.since := by rw [hca]
  refine ⟨hli, hr, fun group' cur' hc => ?_, fun group' hn => ?_⟩
  · rw [hs, hcu] at hc
    by_cases heq : group' = group
    · subst heq
      rw [if_pos rfl] at hc
      cases hc
      refine (hd.groups group' cur hcr).read hd hf (by rw [hs, he]) (by rw [hs, hl]) hsi ?_
      rw [ho, if_pos rfl]
    · rw [if_neg heq] at hc
      refine (hd.groups group' cur' hc).of_sublist (by rw [hs, he]) (by rw [hs, hl]) (by rw [hsi]) ?_
      rw [ho, if_neg heq, append_nil]
  · rw [hs, hcu] at hn
    split at hn
    · cases hn
    · rename_i heq
      rw [ho, if_neg heq, append_nil]
      exact hd.absent group' hn

theorem Delivers.call (hd : h.Delivers) {c : StreamCall} (hc : h.Orderly quote c) : (h.call quote c).Delivers := by
  have hl : (h.call quote c).Listed := hd.listed.call c
  have hr : (h.call quote c).returned.Pairwise IDBefore := by
    refine (pairwise_call hd.listed hd.rising c).2 ?_
    cases c with
    | add now id fields order => exact hc.imp And.left fun h => h
    | _ => exact trivial
  cases c with
  | add now id fields order =>
    cases hs : h.stream.assignID quote now id with
    | error e =>
      have hca : h.call quote (.add now id fields order) = h := by simp only [StreamHistory.call, Stream.add, hs]
      rwa [hca]
    | ok sid =>
      have hv := valid_assignID hd.listed.valid hs
      have hca : h.call quote (.add now id fields order) = { h with
          stream := { h.stream with lastID := sid, entries := h.stream.entries ++ [⟨sid.toBytes, fields, order⟩] }
          returned := h.returned ++ [sid.toBytes]
          since := fun g => h.since g ++ [sid.toBytes] } := by
        simp only [StreamHistory.call, Stream.add, hs]
      rw [hca] at hl hr ⊢
      refine ⟨hl, hr, fun group cur hcu => ?_, hd.absent⟩
      have hcu : h.stream.cursor group = some cur := hcu
      have hlt : h.stream.lastID.Lt sid := by
        rcases hc with ⟨-, hn⟩ | hri
        · rw [Stream.cursor, hn, Finmap.lookup_empty] at hcu
          cases hcu
        · exact (lt_assignID_iff hd.listed.valid hs).2 hri
      exact (hd.groups group cur hcu).add hv hlt rfl rfl rfl rfl rfl
  | delete ids => exact hd.quiet hl hr filter_sublist rfl rfl rfl fun _ => rfl
  | trim maxlen =>
    have ht : (h.stream.trim maxlen).2.entries.Sublist h.stream.entries ∧ (h.stream.trim maxlen).2.lastID = h.stream.lastID ∧
        (h.stream.trim maxlen).2.groups = h.stream.groups := by
      unfold Stream.trim
      split
      · exact ⟨.refl _, rfl, rfl⟩
      · exact ⟨drop_sublist _ _, rfl, rfl⟩
    exact hd.quiet hl hr ht.1 ht.2.1 rfl rfl fun group => congrArg (fun gs => Option.map _ (Finmap.lookup group gs)) ht.2.2
  | createGroup name startID =>
    by_cases hna : name ∈ h.stream.groups
    · have hca : h.call quote (.createGroup name startID) = h := by
        simp only [StreamHistory.call, Stream.createGroup, if_pos hna]
      rwa [hca]
    · have hca : h.call quote (.createGroup name startID) = { h with
          stream := { h.stream with groups := h.stream.groups.insert name ⟨name, h.stream.dollarID startID, ∅, ∅⟩ }
          since := Function.update h.since name [] } := by
        simp only [StreamHistory.call, Stream.createGroup, if_neg hna]
      rw [hca] at hl hr ⊢
      exact hd.create hl hr hna hc rfl rfl rfl
  | readGroup now group consumer id count noAck =>
    cases hcu : h.stream.cursor group with
    | none =>
      have hca : h.call quote (.readGroup now group consumer id count noAck) = h := by
        have hn : h.stream.groups.lookup group = none := Option.map_eq_none_iff.1 hcu
        simp only [StreamHistory.call, Stream.readGroup, hn]
      rwa [hca]
    | some cur =>
      have hg := hd.groups group cur hcu
      by_cases hid : id = lit ">"
      · subst hid
        obtain ⟨b, hb, -⟩ := hg.cursor
        obtain ⟨es, rest, s', hre, hf, -, he, hla, hcr⟩ := Stream.readGroup_new hcu hb hd.listed.isID
          (hd.rising.sublist hd.listed.entries) now consumer count noAck
        have hca : h.call quote (.readGroup now group consumer (lit ">") count noAck) =
            { h with stream := s', handouts := h.handouts ++ es.map fun e => ⟨group, consumer, e.id⟩ } := by
          simp only [StreamHistory.call, hre, if_pos]
        rw [hca] at hl hr ⊢
        exact hd.read hl hr hcu hf he hla hcr rfl
      · cases hre : h.stream.readGroup now group consumer id count noAck with
        | error e =>
          have hca : h.call quote (.readGroup now group consumer id count noAck) = h := by simp only [StreamHistory.call, hre]
          rwa [hca]
        | ok r =>
          obtain ⟨es, s'⟩ := r
          obtain ⟨he, hla, hcr⟩ := Stream.readGroup_pending hid hre
          have hca : h.call quote (.readGroup now group consumer id count noAck) = { h with stream := s', handouts := h.handouts ++ [] } := by
            simp only [StreamHistory.call, hre, if_neg hid]
          rw [hca] at hl hr ⊢
          exact hd.quiet hl hr (by rw [he]) hla rfl (append_nil _) hcr
  | ack group ids =>
    have ha : (h.stream.ack group ids).2.entries = h.stream.entries ∧ (h.stream.ack group ids).2.lastID = h.stream.lastID := by
      unfold Stream.ack
      cases h.stream.groups.lookup group <;> exact ⟨rfl, rfl⟩
    exact hd.quiet hl hr (by rw [StreamHistory.call, ha.1]) ha.2 rfl rfl (Stream.cursor_ack group ids h.stream)
  | deleteConsumer group consumer =>
    have hdel : (h.stream.deleteConsumer group consumer).2.entries = h.stream.entries ∧
        (h.stream.deleteConsumer group consumer).2.lastID = h.stream.lastID := by
      unfold Stream.deleteConsumer
      cases h.stream.groups.lookup group with
      | none => exact ⟨rfl, rfl⟩
      | some g =>
        dsimp only
        cases g.consumers.lookup consumer <;> exact ⟨rfl, rfl⟩
    exact hd.quiet hl hr (by rw [StreamHistory.call, hdel.1]) hdel.2 rfl rfl (Stream.cursor_deleteConsumer group consumer h.stream)

end StreamHistory

/-- In an orderly history no entry is handed out twice to a group, and an entry that was added since the group was
created is handed out already or comes with the next read without a bound. -/
theorem handed_out_once {quote : Bytes → Bytes} {cs : List StreamCall}
    (hcs : Machine.Along (StreamHistory.step quote) (StreamHistory.Orderly quote) cs .new) (group : Bytes) :
    ((StreamHistory.new.calls quote cs).handedOut group).Nodup ∧
    ∀ e ∈ (StreamHistory.new.calls quote cs).stream.entries, group ∈ (StreamHistory.new.calls quote cs).stream.groups →
      e.id ∈ (StreamHistory.new.calls quote cs).since group → e.id ∈ (StreamHistory.new.calls quote cs).handedOut group ∨
      ∀ now consumer count noAck, count ≤ 0 → ∃ es s',
        (StreamHistory.new.calls quote cs).stream.readGroup now group consumer ">" count noAck = .ok (es, s') ∧ e ∈ es := by
  have hd : (StreamHistory.new.calls quote cs).Delivers := by
    refine hcs.run ?_ StreamHistory.delivers_new (StreamHistory.run_step quote cs .new)
    rintro h c h' hc hd ⟨⟩
    exact hd.call hc
  generalize StreamHistory.new.calls quote cs = h at *
  cases hcu : h.stream.cursor group with
  | none =>
    rw [hd.absent group hcu]
    refine ⟨.nil, fun e _ hgr => ?_⟩
    rw [← Finmap.lookup_isSome, Option.map_eq_none_iff.1 hcu] at hgr
    cases hgr
  | some cur =>
    have hg := hd.groups group cur hcu
    refine ⟨hg.once.imp fun hlt heq => ?_, fun e he _ hin => (hg.ahead e he hin).imp_right fun hp => ?_⟩
    · subst heq
      exact hlt.asymm hlt
    · intro now consumer count noAck hco
      obtain ⟨b, hb, -⟩ := hg.cursor
      obtain ⟨es, rest, s', hr, hf, ha, -⟩ := Stream.readGroup_new hcu hb hd.listed.isID
        (hd.rising.sublist hd.listed.entries) now consumer count noAck
      rw [ha hco, append_nil] at hf
      exact ⟨es, s', hr, hf ▸ mem_filter.2 ⟨he, decide_eq_true hp⟩⟩

theorem handed_out_once_first :
    ((StreamHistory.new.calls id [.createGroup "g" "$", .add 0 "1-0" ∅ [], .readGroup 0 "g" "c" ">" 0 false]).handedOut "g").Nodup := by
  refine (handed_out_once ?_ "g").1
  refine ⟨.inl rfl, ?_⟩
  rintro _ ⟨⟩
  refine ⟨.inr ?_, ?_⟩
  · rintro - p ⟨⟩
    decide
  · rintro _ ⟨⟩
    exact ⟨trivial, fun _ _ => trivial⟩

/-- An entry whose ID is below the cursor of a group: no read returns it. -/
theorem entry_passed_over : ∃ h, h = StreamHistory.new.calls id [.createGroup "g" "$", .add 0 "5-0" ∅ [],
      .readGroup 0 "g" "c" ">" 0 false, .delete ["5-0"], .add 0 "3-0" ∅ []] ∧
    h.stream.entries.map StreamEntry.id = ["3-0"] ∧ lit "3-0" ∈ h.since "g" ∧ lit "3-0" ∉ h.handedOut "g" ∧
    (h.stream.readGroup 0 "g" "c" ">" 0 false).map Prod.fst = .ok [] :=
  ⟨_, rfl, by decide, by decide, by decide, by decide⟩

end VortexKV
