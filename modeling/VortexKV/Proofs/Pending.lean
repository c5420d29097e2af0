import VortexKV.Proofs.Delivery

/-!
# Pending lists

`pending_agrees`: the pending map of a group is the disjoint union of those of its consumers in every history in which no
entry is handed out while it is pending for another one. `ReadGroup` does not look whether it is.
-/

namespace VortexKV

open Finmap

namespace ConsumerGroup

variable {g : ConsumerGroup} {k id : Bytes} {con : Consumer}

def pending (g : ConsumerGroup) (c : Bytes) : GoMap PendingEntry := ((g.consumers.lookup c).map (·.pel)).getD ∅

/-- An ID is pending in the group with owner `c` exactly if it is, with the same entry, for `c` and for no other consumer. -/
def Agrees (g : ConsumerGroup) : Prop := ∀ id c pe,
  g.pel.lookup id = some pe ∧ pe.consumerName = c ↔ (g.pending c).lookup id = some pe ∧ ∀ c', c' ≠ c → id ∉ g.pending c'

structure Tied (g : ConsumerGroup) : Prop where
  named : ∀ k con, g.consumers.lookup k = some con → con.name = k
  owned : ∀ c id pe, (g.pending c).lookup id = some pe → pe.consumerName = c
  tied : ∀ id pe, g.pel.lookup id = some pe ↔ (g.pending pe.consumerName).lookup id = some pe

theorem Tied.agrees (h : g.Tied) : g.Agrees := by
  intro id c pe
  constructor
  · rintro ⟨hpl, rfl⟩
    refine ⟨(h.tied id pe).1 hpl, fun c' hc' hm => hc' ?_⟩
    obtain ⟨pe', hpe⟩ := Option.isSome_iff_exists.1 (lookup_isSome.2 hm)
    obtain rfl := h.owned c' id pe' hpe
    cases hpl.symm.trans ((h.tied id pe').2 hpe)
    rfl
  · rintro ⟨hp, -⟩
    obtain rfl := h.owned c id pe hp
    exact ⟨(h.tied id pe).2 hp, rfl⟩

def put (g : ConsumerGroup) (k : Bytes) (con : Consumer) : ConsumerGroup := { g with consumers := g.consumers.insert k con }

theorem pending_put (g : ConsumerGroup) (k : Bytes) (con : Consumer) (c : Bytes) :
    (g.put k con).pending c = if c = k then con.pel else g.pending c := by
  unfold pending put
  split
  · rename_i hc
    rw [hc, lookup_insert]
    rfl
  · rename_i hc
    rw [lookup_insert_of_ne _ hc]

theorem tied_new (name start : Bytes) : Tied ⟨name, start, ∅, ∅⟩ := by
  have hp : ∀ c, pending ⟨name, start, ∅, ∅⟩ c = ∅ := fun c => by
    unfold pending
    rw [lookup_empty]
    rfl
  refine ⟨fun k con h => ?_, fun c id pe h => ?_, fun id pe => ?_⟩
  · rw [lookup_empty] at h
    cases h
  · rw [hp, lookup_empty] at h
    cases h
  · rw [hp]

theorem Tied.cursor (h : g.Tied) (cur : Bytes) : Tied { g with lastDeliveredID := cur } := ⟨h.named, h.owned, h.tied⟩

theorem Tied.put_names (h : (g.put k con).Tied) : con.name = k := h.named k con (lookup_insert _)

theorem Tied.touch (h : g.Tied) (k : Bytes) (now : Int) :
    (g.put k { (g.consumers.lookup k).getD ⟨k, now, ∅⟩ with seenTime := now }).Tied := by
  have hpl : ({ (g.consumers.lookup k).getD ⟨k, now, ∅⟩ with seenTime := now } : Consumer).pel = g.pending k := by
    unfold pending
    cases g.consumers.lookup k <;> rfl
  have hp : ∀ c, (g.put k { (g.consumers.lookup k).getD ⟨k, now, ∅⟩ with seenTime := now }).pending c = g.pending c := by
    intro c
    rw [pending_put]
    split
    · rename_i hc
      rw [hpl, hc]
    · rfl
  refine ⟨fun k' con hk' => ?_, fun c id pe hpe => ?_, fun id pe => ?_⟩
  · unfold put at hk'
    by_cases hk : k' = k
    · rw [hk, lookup_insert] at hk'
      cases hk'
      rw [hk]
      cases hco : g.consumers.lookup k with
      | none => rfl
      | some con => exact h.named k con hco
    · rw [lookup_insert_of_ne _ hk] at hk'
      exact h.named k' con hk'
  · rw [hp] at hpe
    exact h.owned c id pe hpe
  · rw [hp]
    exact h.tied id pe

theorem Tied.insert (h : (g.put k con).Tied) {pe : PendingEntry} (hpe : pe.consumerName = k) (hf : ∀ c, c ≠ k → id ∉ g.pending c) :
    (put { g with pel := g.pel.insert id pe } k { con with pel := con.pel.insert id pe }).Tied := by
  have hpn : ∀ c, (put { g with pel := g.pel.insert id pe } k { con with pel := con.pel.insert id pe }).pending c =
      if c = k then con.pel.insert id pe else g.pending c := fun c => pending_put _ _ _ _
  refine ⟨fun k' con' hk' => ?_, fun c id' pe' hp => ?_, fun id' pe' => ?_⟩
  · by_cases hk : k' = k
    · rw [hk] at hk' ⊢
      cases (lookup_insert _).symm.trans hk'
      exact h.put_names
    · exact h.named k' con' ((lookup_insert_of_ne _ hk).trans ((lookup_insert_of_ne _ hk).symm.trans hk'))
  · rw [hpn] at hp
    have hold := h.owned c id' pe'
    rw [pending_put] at hold
    split at hp
    · rename_i hc
      rw [if_pos hc] at hold
      by_cases hid : id' = id
      · rw [hid, lookup_insert] at hp
        cases hp
        rw [hpe, hc]
      · rw [lookup_insert_of_ne _ hid] at hp
        exact hold hp
    · rename_i hc
      rw [if_neg hc] at hold
      exact hold hp
  · have hold := h.tied id' pe'
    rw [pending_put] at hold
    rw [hpn]
    change (g.pel.insert id pe).lookup id' = some pe' ↔ _
    by_cases hid : id' = id
    · rw [hid, lookup_insert]
      split
      · rw [lookup_insert]
      · rename_i hc
        rw [lookup_eq_none.2 (hf _ hc)]
        refine iff_of_false (fun heq => hc ?_) nofun
        cases heq
        exact hpe
    · rw [lookup_insert_of_ne _ hid]
      refine hold.trans ?_
      split
      · rw [lookup_insert_of_ne _ hid]
      · rfl

theorem Tied.again (h : (g.put k con).Tied) (f : PendingEntry → PendingEntry) (hf : ∀ pe, (f pe).consumerName = pe.consumerName) (id : Bytes) :
    (put { g with pel := match g.pel.lookup id with
        | some pe => if pe.consumerName = con.name then g.pel.insert id (f pe) else g.pel
        | none => g.pel } k { con with pel := match con.pel.lookup id with
        | some pe => if pe.consumerName = con.name then con.pel.insert id (f pe) else con.pel
        | none => con.pel }).Tied := by
  have hn := h.put_names
  have ht := h.tied id
  simp only [pending_put] at ht
  cases hco : con.pel.lookup id with
  | none =>
    -- the group has no entry of this owner either
    have hpl : (match g.pel.lookup id with
        | some pe => if pe.consumerName = con.name then g.pel.insert id (f pe) else g.pel
        | none => g.pel) = g.pel := by
      split
      · rename_i pe hpe
        refine if_neg fun ho => ?_
        have hb := (ht pe).1 hpe
        rw [if_pos (ho.trans hn), hco] at hb
        cases hb
      · rfl
    rw [hpl]
    exact h
  | some pe =>
    have ho : pe.consumerName = k := h.owned k id pe (by rw [pending_put, if_pos rfl]; exact hco)
    have hpe : g.pel.lookup id = some pe := (ht pe).2 (by rw [if_pos ho]; exact hco)
    rw [hpe]
    dsimp only
    rw [if_pos (ho.trans hn.symm), if_pos (ho.trans hn.symm)]
    refine h.insert ((hf pe).trans ho) fun c hc hm => hc ?_
    obtain ⟨pe', he⟩ := Option.isSome_iff_exists.1 (lookup_isSome.2 hm)
    have hp : ((g.put k con).pending c).lookup id = some pe' := by rw [pending_put, if_neg hc]; exact he
    obtain rfl := h.owned c id pe' hp
    cases hpe.symm.trans ((h.tied id pe').2 hp)
    exact ho

theorem Tied.acked (h : g.Tied) {pe : PendingEntry} (hpe : g.pel.lookup id = some pe) :
    Tied { g with pel := g.pel.erase id, consumers := match g.consumers.lookup pe.consumerName with
      | none => g.consumers
      | some con => g.consumers.insert pe.consumerName { con with pel := con.pel.erase id } } := by
  have hb := (h.tied id pe).1 hpe
  cases hco : g.consumers.lookup pe.consumerName with
  | none =>
    rw [pending, hco] at hb
    cases (lookup_empty id).symm.trans hb
  | some con =>
    have hpn : ∀ c, pending { g with pel := g.pel.erase id, consumers := g.consumers.insert pe.consumerName { con with pel := con.pel.erase id } } c =
        if c = pe.consumerName then con.pel.erase id else g.pending c := fun c => pending_put _ _ _ _
    have ho : g.pending pe.consumerName = con.pel := by rw [pending, hco]; rfl
    refine ⟨fun k con' hk => ?_, fun c id' pe' hp => ?_, fun id' pe' => ?_⟩
    · by_cases hkc : k = pe.consumerName
      · rw [hkc] at hk ⊢
        cases (lookup_insert _).symm.trans hk
        exact h.named _ con hco
      · exact h.named k con' ((lookup_insert_of_ne _ hkc).symm.trans hk)
    · rw [hpn] at hp
      split at hp
      · rename_i hc
        by_cases hid : id' = id
        · rw [hid, lookup_erase] at hp
          cases hp
        · rw [lookup_erase_ne hid] at hp
          refine h.owned c id' pe' ?_
          rw [hc, ho]
          exact hp
      · exact h.owned c id' pe' hp
    · rw [hpn]
      by_cases hid : id' = id
      · rw [hid, lookup_erase]
        refine iff_of_false nofun fun hp => ?_
        split at hp
        · rw [lookup_erase] at hp
          cases hp
        · rename_i hc
          cases hpe.symm.trans ((h.tied id pe').2 hp)
          exact hc rfl
      · rw [lookup_erase_ne hid, h.tied]
        split
        · rename_i hc
          rw [hc, ho, lookup_erase_ne hid]
        · rfl

theorem lookup_eraseAll {β : Type} (ids : List Bytes) (m : GoMap β) (id : Bytes) :
    (Stream.eraseAll ids m).lookup id = if id ∈ ids then none else m.lookup id := by
  unfold Stream.eraseAll
  induction ids generalizing m with
  | nil => rfl
  | cons i ids ih =>
    rw [List.foldl_cons, ih]
    by_cases hi : id = i
    · rw [hi, lookup_erase]
      simp
    · rw [lookup_erase_ne hi]
      simp [hi]

theorem Tied.deleted (h : g.Tied) (hk : g.consumers.lookup k = some con) :
    Tied { g with pel := Stream.eraseAll (sortedKeys con.pel) g.pel, consumers := g.consumers.erase k } := by
  have ho : g.pending k = con.pel := by rw [pending, hk]; rfl
  have hp : ∀ c, pending { g with pel := Stream.eraseAll (sortedKeys con.pel) g.pel, consumers := g.consumers.erase k } c =
      if c = k then ∅ else g.pending c := by
    intro c
    unfold pending
    split
    · rename_i hc
      rw [hc, lookup_erase]
      rfl
    · rename_i hc
      rw [lookup_erase_ne hc]
  refine ⟨fun k' con' hk' => ?_, fun c id pe hpe => ?_, fun id pe => ?_⟩
  · by_cases hkk : k' = k
    · rw [hkk, lookup_erase] at hk'
      cases hk'
    · rw [lookup_erase_ne hkk] at hk'
      exact h.named k' con' hk'
  · rw [hp] at hpe
    split at hpe
    · cases (lookup_empty id).symm.trans hpe
    · exact h.owned c id pe hpe
  · rw [hp]
    rw [lookup_eraseAll]
    by_cases hid : id ∈ con.pel
    · -- what is pending for this consumer is pending for no other
      rw [if_pos (mem_sortedKeys.2 hid)]
      refine iff_of_false nofun fun hpe => ?_
      split at hpe
      · cases (lookup_empty id).symm.trans hpe
      · rename_i hc
        rw [← ho] at hid
        exact ((h.agrees id _ pe).1 ⟨(h.tied id pe).2 hpe, rfl⟩).2 k (Ne.symm hc) hid
    · rw [if_neg fun hm => hid (mem_sortedKeys.1 hm), h.tied]
      split
      · rename_i hc
        rw [hc, ho, lookup_eq_none.2 hid, lookup_empty]
      · rfl

end ConsumerGroup

/-! ### The calls -/

namespace Stream

open ConsumerGroup

variable {s : Stream} {g : ConsumerGroup} {con : Consumer} {k : Bytes}

def Free (g : ConsumerGroup) (k id : Bytes) : Prop := ∀ c, c ≠ k → id ∉ g.pending c

theorem tied_deliver (now : Int) (noAck : Bool) (room : Option Nat) {entries es : List StreamEntry} (hes : ∀ e ∈ es, e ∈ entries)
    (hi : ∀ e ∈ entries, IsID e.id) (h : (g.put k con).Tied)
    (hf : noAck = false → ∀ e ∈ entries, Past g.lastDeliveredID e.id → Free g k e.id ∧ ∀ e' ∈ entries, Past e.id e'.id → Free g k e'.id) :
    ((deliver now noAck room es g con).2.1.put k (deliver now noAck room es g con).2.2).Tied := by
  induction es generalizing room g con with
  | nil => exact h
  | cons e es ih =>
    have he := hes e List.mem_cons_self
    have hs : ∀ e ∈ es, e ∈ entries := fun e he => hes e (List.mem_cons_of_mem _ he)
    by_cases hp : Past g.lastDeliveredID e.id
    · obtain ⟨g', con', hg', hc, hdel⟩ := deliver_cons now noAck room es con hp
      have ht : (g'.put k con').Tied := by
        rw [hg', hc]
        cases noAck with
        | true => exact h.cursor e.id
        | false => exact (h.insert h.put_names (hf rfl e he hp).1).cursor e.id
      -- what comes after this entry comes after the old cursor or after an entry that does
      have hn : noAck = false → ∀ e₁ ∈ entries, Past g'.lastDeliveredID e₁.id →
          Free g' k e₁.id ∧ ∀ e₂ ∈ entries, Past e₁.id e₂.id → Free g' k e₂.id := by
        intro hno e₁ he₁ hp'
        have ha := (hf hno e he hp).2
        rw [hg'] at hp' ⊢
        refine ⟨ha e₁ he₁ hp', fun e₂ he' hp₂ => ha e₂ he' ?_⟩
        obtain ⟨sid, hsi, heq⟩ := hi e he
        refine Past.mono (b := some sid) ?_ (hi e₁ he₁) (hi e₂ he') hp' (((hi e₁ he₁).past (hi e₂ he')).1 hp₂)
        rw [heq]
        exact cursorAt_toBytes hsi
      rw [hdel]
      rcases room with _ | _ | _ | n
      · exact ih none hs ht hn
      · exact ht
      · exact ht
      · exact ih (some (n + 1)) hs ht hn
    · have hsk : deliver now noAck room (e :: es) g con = deliver now noAck room es g con := by
        rw [deliver]
        exact if_neg hp
      rw [hsk]
      exact ih room hs h hf

theorem tied_redeliver (entries : List StreamEntry) (now : Int) (noAck : Bool) (room : Option Nat) (pids : List Bytes) (h : (g.put k con).Tied) :
    ((redeliver entries now noAck room pids g con).2.1.put k (redeliver entries now noAck room pids g con).2.2).Tied := by
  induction pids generalizing room g con with
  | nil => exact h
  | cons pid pids ih =>
    unfold redeliver
    cases findEntry entries pid with
    | none => exact ih room h
    | some e =>
      have ha := h.again (fun pe => { pe with deliveryCount := pe.deliveryCount + 1, deliveryTime := now }) (fun _ => rfl) pid
      cases noAck with
      | true => rcases room with _ | _ | _ | n <;> first | exact ih _ h | exact h
      | false => rcases room with _ | _ | _ | n <;> first | exact ih _ ha | exact ha

theorem tied_ackLoop (ids : List Bytes) (h : g.Tied) : (ackLoop ids g).2.Tied := by
  induction ids generalizing g with
  | nil => exact h
  | cons id ids ih =>
    unfold ackLoop
    split
    · exact ih h
    · rename_i pe hpe
      exact ih (h.acked hpe)

def Tied (s : Stream) : Prop := ∀ group g, s.groups.lookup group = some g → g.Tied

theorem Tied.insert (h : s.Tied) {group : Bytes} (hg : g.Tied) : Tied { s with groups := s.groups.insert group g } := by
  intro group' g' hg'
  by_cases heq : group' = group
  · rw [heq] at hg'
    cases (lookup_insert _).symm.trans hg'
    exact hg
  · exact h group' g' ((lookup_insert_of_ne _ heq).symm.trans hg')

/-- No entry past the cursor of the group, or past such an entry, is pending for another consumer. -/
def Undisputed (group consumer : Bytes) (s : Stream) : Prop := ∀ g, s.groups.lookup group = some g → ∀ e ∈ s.entries,
  Past g.lastDeliveredID e.id → Free g consumer e.id ∧ ∀ e' ∈ s.entries, Past e.id e'.id → Free g consumer e'.id

theorem Tied.readGroup (h : s.Tied) (hi : ∀ e ∈ s.entries, IsID e.id) {now : Int} {group consumer id : Bytes} {count : Int} {noAck : Bool}
    {es : List StreamEntry} {s' : Stream} (hf : id = lit ">" → noAck = false → s.Undisputed group consumer)
    (hr : s.readGroup now group consumer id count noAck = .ok (es, s')) : s'.Tied := by
  unfold Stream.readGroup at hr
  cases hg : s.groups.lookup group with
  | none =>
    rw [hg] at hr
    cases hr
  | some g =>
    rw [hg] at hr
    dsimp only at hr
    have ht := (h group g hg).touch consumer now
    split at hr
    · rename_i hid
      cases hr
      exact h.insert (tied_deliver now noAck _ (fun _ he => he) hi ht fun hno => hf hid hno g hg)
    · cases hr
      exact h.insert (tied_redeliver _ now noAck _ _ ht)

end Stream

namespace StreamHistory

variable {quote : Bytes → Bytes} {h h' : StreamHistory}

/-- A consumer is handed only what is not pending for another one. -/
def HandsOver (h : StreamHistory) : GroupCall → Prop
  | .call (.readGroup _ group consumer id _ noAck) => id = lit ">" → noAck = false → h.stream.Undisputed group consumer
  | _ => True

theorem tied_step {c : GroupCall} (hc : h.HandsOver c) (ht : h.Listed ∧ h.stream.Tied) (hstep : GroupCall.step quote c h = some h') :
    h'.Listed ∧ h'.stream.Tied := by
  obtain ⟨hl, ht⟩ := ht
  cases c with
  | setGroupID name id =>
    cases hstep
    unfold Stream.setGroupID
    cases hg : h.stream.groups.lookup name with
    | none => exact ⟨hl, ht⟩
    | some g => exact ⟨⟨hl.valid, hl.ids, hl.entries⟩, ht.insert ((ht name g hg).cursor _)⟩
  | call c =>
    cases hstep
    refine ⟨hl.call c, ?_⟩
    cases c with
    | add now id fields order =>
      rw [call]
      unfold Stream.add
      cases Stream.assignID quote now id h.stream with
      | error e => exact ht
      | ok sid => exact ht
    | delete ids => exact ht
    | trim maxlen =>
      rw [call]
      unfold Stream.trim
      split <;> exact ht
    | createGroup name startID =>
      rw [call]
      unfold Stream.createGroup
      split
      · exact ht
      · rename_i s hs
        split at hs
        · cases hs
        · cases hs
          exact ht.insert (ConsumerGroup.tied_new _ _)
    | readGroup now group consumer id count noAck =>
      rw [call]
      split
      · exact ht
      · rename_i es s hr
        exact ht.readGroup hl.isID hc hr
    | ack group ids =>
      rw [call]
      unfold Stream.ack
      cases hg : h.stream.groups.lookup group with
      | none => exact ht
      | some g => exact ht.insert (Stream.tied_ackLoop ids (ht group g hg))
    | deleteConsumer group consumer =>
      rw [call]
      unfold Stream.deleteConsumer
      cases hg : h.stream.groups.lookup group with
      | none => exact ht
      | some g =>
        dsimp only
        cases hco : g.consumers.lookup consumer with
        | none => exact ht
        | some con => exact ht.insert ((ht group g hg).deleted hco)

/-- In a history in which consumers are handed only what is not pending for another one, pending lists agree. -/
theorem pending_agrees (quote : Bytes → Bytes) (cs : List GroupCall) (hcs : Machine.Along (GroupCall.step quote) HandsOver cs new)
    (hr : Machine.run (GroupCall.step quote) cs new = some h) {group : Bytes} {g : ConsumerGroup} (hg : h.stream.groups.lookup group = some g) :
    g.Agrees := by
  have hn : new.Listed ∧ new.stream.Tied := by
    refine ⟨listed_new, fun group g hg => ?_⟩
    cases (lookup_empty group).symm.trans hg
  have h := hcs.run tied_step hn hr
  exact (h.2 group g hg).agrees

def oneEntry : List GroupCall := [.call (.add 0 (lit "1-1") ∅ []), .call (.createGroup (lit "g") (lit "0"))]

def readNew (consumer : Bytes) : GroupCall := .call (.readGroup 0 (lit "g") consumer (lit ">") 0 false)

theorem pending_agrees_first : Machine.Along (GroupCall.step id) HandsOver (oneEntry ++ [readNew (lit "c1")]) new ∧
    ∃ h g pe, Machine.run (GroupCall.step id) (oneEntry ++ [readNew (lit "c1")]) new = some h ∧ h.stream.groups.lookup (lit "g") = some g ∧
      g.pel.lookup (lit "1-1") = some pe ∧ (g.pending (lit "c1")).lookup (lit "1-1") = some pe := by
  have hev : Machine.Along (GroupCall.step id) HandsOver (oneEntry ++ [readNew (lit "c1")]) new := by
    refine ⟨trivial, fun h₁ hh => ⟨trivial, fun h₂ hh' => ⟨fun _ _ g hg => ?_, fun _ _ => trivial⟩⟩⟩
    cases hh
    cases hh'
    have hn : ∀ c, g.pending c = ∅ := by
      intro c
      cases (show some _ = some g from hg)
      rfl
    have hf : ∀ id, Stream.Free g (lit "c1") id := fun id c _ hm => by
      rw [hn] at hm
      cases hm
    exact fun e _ _ => ⟨hf _, fun e' _ _ => hf _⟩
  obtain ⟨h, g, pe, hr, hg, hpe, ho⟩ : ∃ h g pe, Machine.run (GroupCall.step id) (oneEntry ++ [readNew (lit "c1")]) new = some h ∧
      h.stream.groups.lookup (lit "g") = some g ∧ g.pel.lookup (lit "1-1") = some pe ∧ pe.consumerName = lit "c1" :=
    ⟨_, _, _, rfl, rfl, rfl, rfl⟩
  exact ⟨hev, h, g, pe, hr, hg, hpe, ((pending_agrees id _ hev hr hg _ _ pe).1 ⟨hpe, ho⟩).1⟩

/-- The cursor is set back, and the entry is pending for two consumers. -/
theorem pending_twice : ∃ h g, Machine.run (GroupCall.step id)
      (oneEntry ++ [readNew (lit "c1"), .setGroupID (lit "g") (lit "0"), readNew (lit "c2")]) new = some h ∧
    h.stream.groups.lookup (lit "g") = some g ∧ lit "1-1" ∈ g.pending (lit "c1") ∧ lit "1-1" ∈ g.pending (lit "c2") ∧ ¬ g.Agrees := by
  obtain ⟨h, g, pe, hr, hg, hpe, hc1, hc2⟩ : ∃ h g pe, Machine.run (GroupCall.step id)
      (oneEntry ++ [readNew (lit "c1"), .setGroupID (lit "g") (lit "0"), readNew (lit "c2")]) new = some h ∧
      h.stream.groups.lookup (lit "g") = some g ∧ (g.pel.lookup (lit "1-1") = some pe ∧ pe.consumerName = lit "c2") ∧
      lit "1-1" ∈ g.pending (lit "c1") ∧ lit "1-1" ∈ g.pending (lit "c2") :=
    ⟨_, _, _, rfl, rfl, ⟨rfl, rfl⟩, by decide, by decide⟩
  exact ⟨h, g, hr, hg, hc1, hc2, fun hag => ((hag _ _ pe).1 hpe).2 (lit "c1") (by decide) hc1⟩

end StreamHistory

end VortexKV
