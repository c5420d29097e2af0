import VortexKV.Proofs.RespRead

/-!
# Crashes in the middle of a record

A crash leaves a prefix of the bytes written: the records of `complete cs p` and then a torn record (`complete_split`). A
replay of it delivers what is complete. After a reopen the next record lands behind the torn one and is lost with it
(`readCommand_torn_probe`).
-/

namespace VortexKV

open List

variable {q s t a r rest : Bytes} {c : Command} {v : Value}

def Torn (q s : Bytes) : Prop := q <+: s ∧ q.length < s.length

theorem Torn.append_cases {x y : Bytes} (h : Torn q (x ++ y)) :
    Torn q x ∨ ∃ r, q = x ++ r ∧ Torn r y := by
  obtain ⟨⟨t, ht⟩, hlen⟩ := h
  rcases append_eq_append_iff.1 ht with ⟨z, hx, -⟩ | ⟨z, hq, hy⟩
  · by_cases hz : z = []
    · subst hz
      rw [append_nil] at hx
      refine .inr ⟨[], by simp [hx], ⟨y, rfl⟩, ?_⟩
      simp only [hx, length_append] at hlen
      simpa using hlen
    · refine .inl ⟨⟨z, hx.symm⟩, ?_⟩
      rw [hx, length_append]
      exact Nat.lt_add_of_pos_right (length_pos_iff.2 hz)
  · refine .inr ⟨z, hq, ⟨t, hy.symm⟩, ?_⟩
    simp only [hq, length_append] at hlen
    omega

theorem Torn.cons_cases {c : UInt8} (h : Torn q (c :: s)) :
    q = [] ∨ ∃ t, q = c :: t ∧ Torn t s := by
  rcases Torn.append_cases (x := [c]) (y := s) h with ⟨-, h⟩ | h
  · exact .inl (eq_nil_of_length_eq_zero (by simpa using h))
  · exact .inr h

theorem not_torn_nil : ¬ Torn q [] := fun h => by simpa using h.2

theorem Torn.ten_notMem {l : Bytes} (h : Torn t (l ++ CRLF)) (hl : 10 ∉ l) : 10 ∉ t := by
  rcases h.append_cases with ⟨h, -⟩ | ⟨r, rfl, hr⟩
  · exact fun hm => hl (h.subset hm)
  · have hr : r <+: [13] := by
      obtain ⟨⟨z, hz⟩, hlen⟩ := hr
      match r, hlen with
      | [], _ => exact nil_prefix
      | [c], _ => simp only [CRLF, cons_append, List.cons.injEq] at hz; rw [hz.1]
    intro hm
    rcases mem_append.1 hm with hm | hm
    · exact hl hm
    · simpa using hr.subset hm

/-! ### The bytes on disk after a crash -/

theorem complete_split {cs : List Command} {p : Bytes} (hp : p <+: cs.flatMap serializeCommand) :
    ∃ q, p = (complete cs p).flatMap serializeCommand ++ q ∧
      (q = [] ∨ ∃ c, q ≠ [] ∧ Torn q (serializeCommand c)) := by
  induction cs generalizing p with
  | nil => exact ⟨[], by simpa [complete] using prefix_nil.1 hp, .inl rfl⟩
  | cons c cs ih =>
    rw [flatMap_cons] at hp
    rw [complete]
    split
    · rename_i hlen
      obtain ⟨r, rfl⟩ : serializeCommand c <+: p := prefix_of_prefix_length_le ⟨_, rfl⟩ hp hlen
      have hr := (prefix_append_right_inj _).1 hp
      obtain ⟨q, hq, h⟩ := ih hr
      refine ⟨q, ?_, h⟩
      rw [drop_left, flatMap_cons, append_assoc, ← hq]
    · rename_i hlen
      have ht : p <+: serializeCommand c :=
        prefix_of_prefix_length_le hp ⟨_, rfl⟩ (Nat.le_of_not_le hlen)
      refine ⟨p, rfl, ?_⟩
      by_cases hn : p = []
      · exact .inl hn
      · exact .inr ⟨c, hn, ht, by omega⟩

/-! ### A torn record at the end of the file -/

theorem readBulk_torn (ht : Torn t (formatUint a.length ++ CRLF ++ (a ++ CRLF))) :
    ∃ e, readBulk t = .error e := by
  rcases ht.append_cases with h | ⟨r, rfl, h⟩
  · obtain ⟨e, he⟩ := readLine_error (h.ten_notMem (ten_notMem_formatUint _))
    exact ⟨e, by rw [readBulk, he]; rfl⟩
  · rw [readBulk]
    rcases readLine_length_line a.length r with ⟨hlt, h'⟩ | ⟨hge, ⟨e, h'⟩ | h'⟩ <;> rw [h']
    · have hr : r.length < a.length + 2 := by simpa [CRLF] using h.2
      simp only [Except.bind, parseInt64_formatUint hlt, Int.toNat_natCast]
      rw [if_neg (by omega), if_pos hr]
      split_ifs <;> exact ⟨_, rfl⟩
    · exact ⟨e, rfl⟩
    · simp only [Except.bind, parseInt64_formatUint_ge hge]
      exact ⟨_, rfl⟩

theorem readItems_torn (d : Nat) {args : List Bytes} (h : Torn r (args.flatMap serializeArg)) :
    ∃ e, readItems (readValue (d + 1)) args.length r = .error e := by
  induction args generalizing r with
  | nil => exact absurd h not_torn_nil
  | cons a args ih =>
    rw [flatMap_cons] at h
    rw [length_cons, readItems]
    rcases h.append_cases with h | ⟨s, rfl, hs⟩
    · rw [serializeArg, cons_append, cons_append] at h
      rcases h.cons_cases with rfl | ⟨t, rfl, ht⟩
      · exact ⟨.eof, rfl⟩
      · obtain ⟨e, he⟩ := readBulk_torn ht
        exact ⟨e, by rw [readValue_dollar, he]; rfl⟩
    · rw [serializeArg, cons_append, cons_append, cons_append, readValue_dollar]
      by_cases ha : a.length ≤ MaxBulkLength.toNat
      · obtain ⟨e, he⟩ := ih hs
        rw [readBulk_serialize ha]
        simp only [Except.bind, he]
        exact ⟨e, rfl⟩
      · obtain ⟨e, he⟩ := readBulk_serialize_error ha s
        rw [he]
        exact ⟨e, rfl⟩

theorem serializeCommand_eq (c : Command) :
    serializeCommand c = 42 :: (formatUint c.length ++ CRLF ++ c.flatMap serializeArg) := by
  simpa using serializeCommand_append c []

theorem readCommand_torn (h : Torn q (serializeCommand c)) :
    ∃ e, readCommand q = .error e := by
  rw [serializeCommand_eq] at h
  rcases h.cons_cases with rfl | ⟨t, rfl, ht⟩
  · exact ⟨.eof, rfl⟩
  · rw [readCommand_star]
    rcases ht.append_cases with ht | ⟨r, rfl, hr⟩
    · obtain ⟨e, he⟩ := readLine_error (ht.ten_notMem (ten_notMem_formatUint _))
      exact ⟨e, by rw [readArray, he]; rfl⟩
    · by_cases hn : c.length ≤ MaxArrayLength.toNat
      · rw [readArray_serialize _ hn]
        obtain ⟨e, he⟩ := readItems_torn _ hr
        exact ⟨e, by rw [he]; rfl⟩
      · obtain ⟨e, he⟩ := readArray_too_large _ hn r
        exact ⟨e, by rw [he]; rfl⟩

theorem replay_torn (h : Torn q (serializeCommand c)) : replay q = [] :=
  replay_error (readCommand_torn h)

/-! ### A record written behind a torn one -/

def probe : Command := ["a"]

theorem serialize_probe :
    serializeCommand probe = [42, 49] ++ CRLF ++ [36, 49, 13, 10, 97, 13, 10] := by decide

theorem parseInt64_star (h : 42 ∈ s) : parseInt64 s = none := by
  have hp : ∀ {t : Bytes}, 42 ∈ t → parseDec t = none := fun {t} ht =>
    Option.eq_none_iff_forall_ne_some.2 fun n hn => absurd (digits_of_parseDec hn 42 ht) (by decide)
  unfold parseInt64
  split
  · rw [hp (by simpa using h)]; rfl
  · rw [hp (by simpa using h)]; rfl
  · rw [hp h]; rfl

theorem readLine_torn_probe (ht : 10 ∉ t) :
    (∃ e, readLine (t ++ serializeCommand probe) = .error e) ∨
      ∃ line rest, readLine (t ++ serializeCommand probe) = .ok (line, rest) ∧ parseInt64 line = none := by
  have h : t ++ serializeCommand probe = (t ++ [42, 49]) ++ CRLF ++ [36, 49, 13, 10, 97, 13, 10] := by
    rw [serialize_probe]; simp
  rw [h, readLine_crlf (by simpa using ht)]
  split
  · exact .inl ⟨_, rfl⟩
  · exact .inr ⟨_, _, rfl, parseInt64_star (by simp)⟩

theorem readBulk_length_torn_probe (ht : 10 ∉ t) :
    ∃ e, readBulk (t ++ serializeCommand probe) = .error e := by
  rw [readBulk]
  rcases readLine_torn_probe ht with ⟨e, h⟩ | ⟨line, rest, h, hp⟩ <;> rw [h]
  · exact ⟨e, rfl⟩
  · simp only [Except.bind, hp]; exact ⟨_, rfl⟩

theorem readArray_length_torn_probe (read : Bytes → Read Value) (ht : 10 ∉ t) :
    ∃ e, readArray read (t ++ serializeCommand probe) = .error e := by
  rw [readArray]
  rcases readLine_torn_probe ht with ⟨e, h⟩ | ⟨line, rest, h, hp⟩ <;> rw [h]
  · exact ⟨e, rfl⟩
  · simp only [Except.bind, hp]; exact ⟨_, rfl⟩

theorem readArray_ok {read : Bytes → Read Value}
    (h : readArray read s = .ok (v, rest)) : v = .nullArray ∨ ∃ items, v = .ofArray items := by
  obtain ⟨⟨line, r⟩, -, h⟩ := Except.bind_eq_ok h
  dsimp only at h
  split at h
  · cases h
  · split_ifs at h
    · cases h; exact .inl rfl
    · obtain ⟨⟨items, s₁⟩, -, h⟩ := Except.bind_eq_ok h
      cases h; exact .inr ⟨items, rfl⟩

theorem toArg_ofArray (items : List Value) :
    (Value.ofArray items).toArg = lit "[" ++ formatUint items.length ++ lit " items]" := rfl

theorem readBulk_payload_torn_probe (hr : Torn r (a ++ CRLF))
    (h : readBulk (formatUint a.length ++ CRLF ++ (r ++ serializeCommand probe)) = .ok (v, rest)) :
    v.toArg ≠ "a" := by
  rw [readBulk] at h
  rcases readLine_length_line a.length (r ++ serializeCommand probe) with ⟨hlt, h'⟩ | ⟨hge, ⟨e, h'⟩ | h'⟩ <;>
    rw [h'] at h
  · simp only [Except.bind, parseInt64_formatUint hlt, Int.toNat_natCast] at h
    rw [if_neg (by omega)] at h
    split_ifs at h with _ _ hlen hc
    cases h
    -- only a one-byte payload can read as `a`, and then the line end is missing
    intro hv
    have hl : a.length = 1 := by
      have := congrArg List.length hv
      simp only [Value.toArg, Value.bulkString, if_true, Option.getD_some, length_take] at this
      have : min a.length (r ++ serializeCommand probe).length = 1 := this
      omega
    rw [hl] at hc
    obtain ⟨x, rfl⟩ := length_eq_one_iff.1 hl
    rw [serialize_probe] at hc
    rcases hr.append_cases with hr | ⟨r', rfl, hr'⟩
    · have : r = [] := eq_nil_of_length_eq_zero (by simpa using hr.2)
      subst this
      exact absurd hc (by decide)
    · rcases hr'.cons_cases with rfl | ⟨r'', rfl, hr''⟩
      · simp [CRLF] at hc
      · have : r'' = [] := eq_nil_of_length_eq_zero (by simpa using hr''.2)
        subst this
        simp [CRLF] at hc
  · cases h
  · simp only [Except.bind, parseInt64_formatUint_ge hge] at h
    cases h

theorem readValue_torn_probe {d : Nat} (hr : Torn r (serializeArg a))
    (h : readValue (d + 1) (r ++ serializeCommand probe) = .ok (v, rest)) : v.toArg ≠ "a" := by
  rw [serializeArg, cons_append, cons_append] at hr
  rcases hr.cons_cases with rfl | ⟨t, rfl, ht⟩
  -- nothing of the argument is there: the probe itself is read, as an array
  · rw [nil_append, serializeCommand_eq, readValue_star] at h
    rcases readArray_ok h with rfl | ⟨items, rfl⟩
    · decide
    · rw [toArg_ofArray]
      intro h
      have := congrArg List.head? h
      exact absurd this (by simp [lit])
  · rw [cons_append, readValue_dollar] at h
    rcases ht.append_cases with ht | ⟨w, rfl, hw⟩
    · obtain ⟨e, he⟩ := readBulk_length_torn_probe (ht.ten_notMem (ten_notMem_formatUint _))
      rw [he] at h; cases h
    · rw [append_assoc] at h
      exact readBulk_payload_torn_probe hw h

theorem readCommand_torn_probe {c' : Command} (hq : q ≠ [])
    (ht : Torn q (serializeCommand c)) (h : readCommand (q ++ serializeCommand probe) = .ok (c', rest)) :
    c' ≠ [] ∧ c' ≠ probe := by
  rw [serializeCommand_eq] at ht
  obtain ⟨t, rfl, hta⟩ := ht.cons_cases.resolve_left hq
  rw [cons_append, readCommand_star] at h
  rcases hta.append_cases with ht | ⟨r, rfl, hr⟩
  · obtain ⟨e, he⟩ := readArray_length_torn_probe
      (readValue ((t ++ serializeCommand probe).length + 1)) (ht.ten_notMem (ten_notMem_formatUint _))
    rw [he] at h; cases h
  · obtain ⟨⟨v, rest'⟩, hv, h⟩ := Except.bind_eq_ok h
    rw [append_assoc _ r] at hv
    by_cases hn : c.length ≤ MaxArrayLength.toNat
    · rw [readArray_serialize _ hn] at hv
      obtain ⟨⟨items, rest''⟩, hi, hv⟩ := Except.bind_eq_ok hv
      cases hv
      cases h
      have hlen := (readItems_length readValue_length hi).2
      match c, hr with
      | [], hr => exact absurd hr not_torn_nil
      | [a], hr =>
        obtain ⟨x, rfl⟩ := length_eq_one_iff.1 hlen
        rw [flatMap_singleton] at hr
        obtain ⟨⟨w, s₁⟩, hw, hi⟩ := Except.bind_eq_ok hi
        cases hi
        refine ⟨by simp [Value.ofArray], fun he => ?_⟩
        exact readValue_torn_probe hr hw (List.cons.inj he).1
      | a :: b :: c, _ =>
        have hm : (items.map Value.toArg).length = c.length + 2 := by simpa using hlen
        have hne : ∀ l : Command, l.length < 2 → items.map Value.toArg ≠ l := fun l hl he => by
          rw [he] at hm; omega
        exact ⟨hne [] (by decide), hne probe (by decide)⟩
    · obtain ⟨e, he⟩ := readArray_too_large _ hn (r ++ serializeCommand probe)
      rw [he] at hv; cases hv

theorem replay_torn_probe (hq : q ≠ []) (ht : Torn q (serializeCommand c)) :
    replay (q ++ serializeCommand probe) ≠ [probe] := by
  rw [replay_eq]
  cases h : readCommand (q ++ serializeCommand probe) with
  | error e => simp
  | ok p =>
    obtain ⟨c', rest⟩ := p
    obtain ⟨hne, hp⟩ := readCommand_torn_probe hq ht h
    simp only [if_neg hne]
    exact fun he => hp (List.cons.inj he).1

/-! ### Recovery after a crash -/

theorem replay_length_le (cs : List Command) (hq : replay q = []) :
    (replay (cs.flatMap serializeCommand ++ q)).length ≤ cs.length := by
  induction cs with
  | nil => simp [hq]
  | cons c cs ih =>
    rw [flatMap_cons, append_assoc]
    by_cases hc : c.length ≤ MaxArrayLength.toNat ∧ ∀ a ∈ c, a.length ≤ MaxBulkLength.toNat
    · rw [replay_eq, readCommand_serialize hc.1 hc.2]
      dsimp only
      split
      · exact ih.trans (Nat.le_succ _)
      · simpa using ih
    · rw [replay_error (readCommand_serialize_error hc _)]
      simp

theorem recordable_of_replay {cs : List Command} (hq : replay q = [])
    (h : replay (cs.flatMap serializeCommand ++ q) = cs) : ∀ c ∈ cs, Recordable c := by
  induction cs with
  | nil => simp
  | cons c cs ih =>
    rw [flatMap_cons, append_assoc] at h
    by_cases hc : c.length ≤ MaxArrayLength.toNat ∧ ∀ a ∈ c, a.length ≤ MaxBulkLength.toNat
    · rw [replay_eq, readCommand_serialize hc.1 hc.2] at h
      dsimp only at h
      split at h
      · have := replay_length_le cs hq
        rw [h, length_cons] at this
        omega
      · rename_i hne
        rw [forall_mem_cons]
        exact ⟨⟨hne, hc⟩, ih (List.cons.inj h).2⟩
    · rw [replay_error (readCommand_serialize_error hc _)] at h
      cases h

/-- A crash is safe, whatever is written after the reopen, exactly when it fell between two records. -/
theorem replay_after_crash_iff {cs : List Command} {p : Bytes} (hp : p <+: writeCommands [] cs) :
    (∀ ds : List Command, (∀ d ∈ ds, Recordable d) →
      replay (writeCommands (openAOF p) ds) = complete cs p ++ ds) ↔
    p = writeCommands [] (complete cs p) ∧ ∀ c ∈ complete cs p, Recordable c := by
  simp only [writeCommands_eq, openAOF, nil_append] at hp ⊢
  obtain ⟨q, hpq, hq⟩ := complete_split hp
  have hq0 : replay q = [] := by
    rcases hq with rfl | ⟨c, -, ht⟩
    · rfl
    · exact replay_torn ht
  constructor
  · intro h
    have h0 := h [] (by simp)
    simp only [flatMap_nil, append_nil] at h0
    have hr : ∀ c ∈ complete cs p, Recordable c := recordable_of_replay hq0 (hpq ▸ h0)
    refine ⟨?_, hr⟩
    rcases hq with rfl | ⟨c, hne, ht⟩
    · simpa using hpq
    · have h1 := h [probe] (by decide)
      generalize complete cs p = ks at *
      rw [hpq, append_assoc, replay_flatMap_serialize hr, flatMap_singleton] at h1
      exact absurd (append_cancel_left h1) (replay_torn_probe hne ht)
  · rintro ⟨hb, hr⟩ ds hds
    have hn : q = [] := by
      generalize complete cs p = ks at *
      rw [hb] at hpq
      simpa using hpq
    have hd := replay_flatMap_serialize hds []
    rw [append_nil, show replay [] = [] from rfl, append_nil] at hd
    generalize complete cs p = ks at *
    rw [hb, replay_flatMap_serialize hr, hd]

theorem replay_after_crash_iff_boundary :
    replay (writeCommands (openAOF (serializeCommand ["SET", "k", "v"])) [["DEL", "k"]]) =
      ([["SET", "k", "v"], ["DEL", "k"]] : List Command) :=
  (@replay_after_crash_iff [["SET", "k", "v"]] (serializeCommand ["SET", "k", "v"])
    (by simp [writeCommands_eq])).2 (by decide) [["DEL", "k"]] (by decide)

/-- `SET k v` torn after `$1`, then `DEL k` logged after the reopen: the replay delivers neither. -/
theorem replay_after_crash_torn :
    (serializeCommand ["SET", "k", "v"]).take 15 <+: writeCommands [] [["SET", "k", "v"]] ∧
    complete [["SET", "k", "v"]] ((serializeCommand ["SET", "k", "v"]).take 15) = [] ∧
    replay (writeCommands (openAOF ((serializeCommand ["SET", "k", "v"]).take 15)) [["DEL", "k"]]) = [] := by
  decide

end VortexKV
