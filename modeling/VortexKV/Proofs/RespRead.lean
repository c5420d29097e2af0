import VortexKV.Aof

/-!
# What the reader does with serialised commands

A command within the reader's limits is read back and the bytes after it are left (`readCommand_serialize`); any other is
refused (`readCommand_serialize_error`). So `replay` unfolds one command at a time (`replay_eq`).
-/

namespace VortexKV

open List

variable {s rest : Bytes} {n : Nat} {args : List Bytes} {c : Command} {v : Value}

/-! ### Lines -/

theorem splitLine_append {l : Bytes} (hl : 10 ∉ l) (s : Bytes) : splitLine (l ++ 10 :: s) = some (l, s) := by
  induction l with
  | nil => rfl
  | cons c l ih =>
    rw [mem_cons, not_or] at hl
    rw [cons_append, splitLine, if_neg (Ne.symm hl.1), ih hl.2]; rfl

theorem splitLine_eq_none (hs : 10 ∉ s) : splitLine s = none := by
  induction s with
  | nil => rfl
  | cons c s ih =>
    rw [mem_cons, not_or] at hs
    rw [splitLine, if_neg (Ne.symm hs.1), ih hs.2]; rfl

theorem splitLine_length {line : Bytes} (h : splitLine s = some (line, rest)) :
    rest.length < s.length := by
  induction s generalizing line with
  | nil => simp [splitLine] at h
  | cons c s ih =>
    rw [splitLine] at h
    split at h
    · obtain ⟨-, rfl⟩ := Prod.mk.inj (Option.some.inj h); simp
    · obtain ⟨⟨l, r⟩, hs, hp⟩ := Option.map_eq_some_iff.1 h
      obtain ⟨-, rfl⟩ := Prod.mk.inj hp
      exact (ih hs).trans (by simp)

theorem readLine_length {line : Bytes} (h : readLine s = .ok (line, rest)) :
    rest.length < s.length := by
  unfold readLine at h
  split at h
  · cases h
  · rename_i l r hs
    split_ifs at h <;> cases h <;> exact splitLine_length hs

theorem readLine_crlf {l : Bytes} (hl : 10 ∉ l) (s : Bytes) :
    readLine (l ++ CRLF ++ s) =
      if readBufferSize < l.length + 2 then .error .bufferFull else .ok (l, s) := by
  have h : l ++ CRLF ++ s = (l ++ [13]) ++ 10 :: s := by simp [CRLF]
  have hl' : 10 ∉ l ++ [13] := by simpa using hl
  rw [h, readLine, splitLine_append hl']
  simp only [length_append, length_singleton, List.getLast?_concat, dropLast_concat,
    if_true]

theorem readLine_error (hs : 10 ∉ s) : ∃ e, readLine s = .error e := by
  rw [readLine, splitLine_eq_none hs]; exact ⟨_, rfl⟩

theorem ten_notMem_formatUint (n : Nat) : 10 ∉ formatUint n := fun h => by
  have := (mem_formatUint h).1; revert this; decide

theorem formatUint_length_le {k : Nat} (hk : 0 < k) (h : n < 10 ^ k) : (formatUint n).length ≤ k := by
  unfold formatUint
  split
  · exact hk
  · simpa using (Nat.digits_length_le_iff (by decide) n).2 h

theorem readLine_formatUint (hn : n < 2 ^ 63) (s : Bytes) :
    readLine (formatUint n ++ CRLF ++ s) = .ok (formatUint n, s) := by
  have h : (formatUint n).length ≤ 19 := formatUint_length_le (by decide) (by omega)
  rw [readLine_crlf (ten_notMem_formatUint n), if_neg (by unfold readBufferSize; omega)]

theorem parseInt64_formatUint_ge (h : 2 ^ 63 ≤ n) : parseInt64 (formatUint n) = none := by
  have hd := fun c => mem_formatUint (n := n) (c := c)
  have hp := parseDec_formatUint n
  generalize formatUint n = s at hd hp
  unfold parseInt64
  split
  · exact absurd (hd 43 (by simp)).1 (by decide)
  · exact absurd (hd 45 (by simp)).1 (by decide)
  · rw [hp, Option.bind_some, if_neg (by omega)]

theorem readLine_length_line (n : Nat) (s : Bytes) :
    (n < 2 ^ 63 ∧ readLine (formatUint n ++ CRLF ++ s) = .ok (formatUint n, s)) ∨
      (2 ^ 63 ≤ n ∧ ((∃ e, readLine (formatUint n ++ CRLF ++ s) = .error e) ∨
        readLine (formatUint n ++ CRLF ++ s) = .ok (formatUint n, s))) := by
  by_cases h : n < 2 ^ 63
  · exact .inl ⟨h, readLine_formatUint h s⟩
  · refine .inr ⟨by omega, ?_⟩
    rw [readLine_crlf (ten_notMem_formatUint n)]
    split
    · exact .inl ⟨_, rfl⟩
    · exact .inr rfl

/-! ### Arguments -/

theorem readBulk_serialize {a : Bytes} (ha : a.length ≤ MaxBulkLength.toNat) (s : Bytes) :
    readBulk (formatUint a.length ++ CRLF ++ (a ++ CRLF) ++ s) = .ok (.bulkString a, s) := by
  have ha' : (a.length : Int) ≤ MaxBulkLength := by simp only [MaxBulkLength] at *; omega
  have hlt : a.length < 2 ^ 63 := by simp only [MaxBulkLength] at ha; omega
  rw [append_assoc _ _ s, readBulk, readLine_formatUint hlt]
  simp only [Except.bind, parseInt64_formatUint hlt, Int.toNat_natCast]
  rw [if_neg (by omega), if_neg (by omega), if_neg (by simp [CRLF]), if_neg (by simp [CRLF])]
  simp [CRLF, drop_append]

theorem readBulk_serialize_error {a : Bytes} (ha : ¬ a.length ≤ MaxBulkLength.toNat) (s : Bytes) :
    ∃ e, readBulk (formatUint a.length ++ CRLF ++ (a ++ CRLF) ++ s) = .error e := by
  have ha' : MaxBulkLength < (a.length : Int) := by simp only [MaxBulkLength] at *; omega
  rw [append_assoc _ _ s, readBulk]
  rcases readLine_length_line a.length (a ++ CRLF ++ s) with ⟨hlt, h⟩ | ⟨hge, ⟨e, h⟩ | h⟩ <;> rw [h]
  · simp only [Except.bind, parseInt64_formatUint hlt]
    rw [if_neg (by omega), if_pos (.inr ha')]
    exact ⟨_, rfl⟩
  · exact ⟨e, rfl⟩
  · simp only [Except.bind, parseInt64_formatUint_ge hge]
    exact ⟨_, rfl⟩

theorem readValue_dollar (d : Nat) (s : Bytes) : readValue (d + 1) (36 :: s) = readBulk s := rfl

theorem readValue_star (d : Nat) (s : Bytes) : readValue (d + 1) (42 :: s) = readArray (readValue d) s := rfl

theorem readItems_serialize (d : Nat) (h : ∀ a ∈ args, a.length ≤ MaxBulkLength.toNat)
    (s : Bytes) :
    readItems (readValue (d + 1)) args.length (args.flatMap serializeArg ++ s) =
      .ok (args.map .bulkString, s) := by
  induction args with
  | nil => rfl
  | cons a args ih =>
    have ih := ih fun x hx => h x (mem_cons_of_mem _ hx)
    have ha := readBulk_serialize (h a mem_cons_self) (args.flatMap serializeArg ++ s)
    rw [length_cons, readItems, flatMap_cons, append_assoc, serializeArg, cons_append,
      cons_append, cons_append, readValue_dollar, ha]
    simp only [Except.bind, ih, map_cons]

theorem readItems_serialize_error (d : Nat)
    (h : ¬ ∀ a ∈ args, a.length ≤ MaxBulkLength.toNat) (s : Bytes) :
    ∃ e, readItems (readValue (d + 1)) args.length (args.flatMap serializeArg ++ s) = .error e := by
  induction args with
  | nil => exact absurd (fun a ha => absurd ha not_mem_nil) h
  | cons a args ih =>
    rw [length_cons, readItems, flatMap_cons, append_assoc, serializeArg, cons_append,
      cons_append, cons_append, readValue_dollar]
    by_cases ha : a.length ≤ MaxBulkLength.toNat
    · have har : ¬ ∀ a ∈ args, a.length ≤ MaxBulkLength.toNat := fun hal =>
        h fun x hx => (mem_cons.1 hx).elim (fun e => e ▸ ha) (hal x)
      obtain ⟨e, he⟩ := ih har
      rw [readBulk_serialize ha]
      simp only [Except.bind, he]
      exact ⟨e, rfl⟩
    · obtain ⟨e, he⟩ := readBulk_serialize_error ha (args.flatMap serializeArg ++ s)
      rw [he]
      exact ⟨e, rfl⟩

/-! ### Commands -/

theorem readArray_serialize (d : Nat) (hn : args.length ≤ MaxArrayLength.toNat)
    (s : Bytes) :
    readArray (readValue (d + 1)) (formatUint args.length ++ CRLF ++ s) =
      (readItems (readValue (d + 1)) args.length s).bind fun (items, rest) => .ok (.ofArray items, rest) := by
  have hn' : (args.length : Int) ≤ MaxArrayLength := by simp only [MaxArrayLength] at *; omega
  have hlt : args.length < 2 ^ 63 := by simp only [MaxArrayLength] at hn; omega
  rw [readArray, readLine_formatUint hlt]
  simp only [Except.bind, parseInt64_formatUint hlt, Int.toNat_natCast]
  rw [if_neg (by omega), if_neg (by omega), if_neg (by omega)]

theorem readArray_too_large (read : Bytes → Read Value)
    (hn : ¬ args.length ≤ MaxArrayLength.toNat) (s : Bytes) :
    ∃ e, readArray read (formatUint args.length ++ CRLF ++ s) = .error e := by
  have hn' : MaxArrayLength < (args.length : Int) := by simp only [MaxArrayLength] at *; omega
  rw [readArray]
  rcases readLine_length_line args.length s with ⟨hlt, h⟩ | ⟨hge, ⟨e, h⟩ | h⟩ <;> rw [h]
  · simp only [Except.bind, parseInt64_formatUint hlt]
    rw [if_neg (by omega), if_neg (by omega), if_pos hn']
    exact ⟨_, rfl⟩
  · exact ⟨e, rfl⟩
  · simp only [Except.bind, parseInt64_formatUint_ge hge]
    exact ⟨_, rfl⟩

theorem map_toArg_bulkString (args : List Bytes) : (args.map Value.bulkString).map Value.toArg = args := by
  rw [map_map]; exact map_id' args

theorem serializeCommand_append (c : Command) (s : Bytes) :
    serializeCommand c ++ s = 42 :: (formatUint c.length ++ CRLF ++ (c.flatMap serializeArg ++ s)) := by
  simp [serializeCommand, append_assoc]

theorem readCommand_star (s : Bytes) :
    readCommand (42 :: s) = (readArray (readValue (s.length + 1)) s).bind fun (v, rest) =>
      if v.type = 42 then .ok (v.array.map Value.toArg, rest)
      else if v.type = 36 then .ok ([v.bulk.getD []], rest)
      else .error (.expectedArray v.type) := rfl

theorem readCommand_serialize (hn : c.length ≤ MaxArrayLength.toNat)
    (ha : ∀ a ∈ c, a.length ≤ MaxBulkLength.toNat) (s : Bytes) :
    readCommand (serializeCommand c ++ s) = .ok (c, s) := by
  rw [serializeCommand_append, readCommand_star, readArray_serialize _ hn, readItems_serialize _ ha]
  simp only [Except.bind, Value.ofArray, if_true, map_toArg_bulkString]

theorem readCommand_serialize_error
    (h : ¬ (c.length ≤ MaxArrayLength.toNat ∧ ∀ a ∈ c, a.length ≤ MaxBulkLength.toNat)) (s : Bytes) :
    ∃ e, readCommand (serializeCommand c ++ s) = .error e := by
  rw [serializeCommand_append, readCommand_star]
  by_cases hn : c.length ≤ MaxArrayLength.toNat
  · rw [readArray_serialize _ hn]
    obtain ⟨e, he⟩ := readItems_serialize_error _ (fun ha => h ⟨hn, ha⟩) s
    rw [he]
    exact ⟨e, rfl⟩
  · obtain ⟨e, he⟩ := readArray_too_large _ hn (c.flatMap serializeArg ++ s)
    rw [he]
    exact ⟨e, rfl⟩

/-! ### What is left after a read -/

theorem readBulk_length (h : readBulk s = .ok (v, rest)) :
    rest.length < s.length := by
  obtain ⟨⟨line, r⟩, hl, h⟩ := Except.bind_eq_ok h
  have hr := readLine_length hl
  dsimp only at h
  split at h
  · cases h
  · split_ifs at h <;> cases h
    · exact hr
    · simp only [length_drop]; omega

theorem readItems_length {read : Bytes → Read Value}
    (hr : ∀ {s v rest}, read s = .ok (v, rest) → rest.length < s.length)
    {vs : List Value} (h : readItems read n s = .ok (vs, rest)) :
    rest.length ≤ s.length ∧ vs.length = n := by
  induction n generalizing s vs with
  | zero => cases h; exact ⟨le_rfl, rfl⟩
  | succ n ih =>
    obtain ⟨⟨v, s₁⟩, hv, h⟩ := Except.bind_eq_ok h
    obtain ⟨⟨ws, s₂⟩, hw, h⟩ := Except.bind_eq_ok h
    cases h
    have := hr hv
    have := ih hw
    exact ⟨by omega, by simp [this.2]⟩

theorem readArray_length {read : Bytes → Read Value}
    (hre : ∀ {s v rest}, read s = .ok (v, rest) → rest.length < s.length)
    (h : readArray read s = .ok (v, rest)) : rest.length < s.length := by
  obtain ⟨⟨line, r⟩, hl, h⟩ := Except.bind_eq_ok h
  have hr := readLine_length hl
  dsimp only at h
  split at h
  · cases h
  · split_ifs at h
    · cases h; exact hr
    · obtain ⟨⟨vs, s₁⟩, hv, h⟩ := Except.bind_eq_ok h
      cases h
      exact lt_of_le_of_lt (readItems_length hre hv).1 hr

theorem readValue_length {d : Nat} (h : readValue d s = .ok (v, rest)) :
    rest.length < s.length := by
  induction d generalizing s v rest with
  | zero => cases h
  | succ d ih =>
    cases s with
    | nil => cases h
    | cons c s =>
      have hli : ∀ {f : Bytes × Bytes → Read Value}, (readLine s).bind f = .ok (v, rest) →
          (∀ line r, f (line, r) = .ok (v, rest) → rest = r) → rest.length < (c :: s).length := by
        intro f h hf
        obtain ⟨⟨line, r⟩, hl, h⟩ := Except.bind_eq_ok h
        rw [hf line r h]
        exact (readLine_length hl).trans (by simp)
      rw [readValue] at h
      split_ifs at h
      · exact hli h fun line r h => by cases h; rfl
      · exact hli h fun line r h => by cases h; rfl
      · exact hli h fun line r h => by dsimp only at h; split at h <;> cases h; rfl
      · exact (readBulk_length h).trans (by simp)
      · exact (readArray_length ih h).trans (by simp)
      · exact hli h fun line r h => by cases h; rfl
      · exact hli h fun line r h => by cases h; rfl
      · exact hli h fun line r h => by cases h; rfl

theorem readCommand_length (h : readCommand s = .ok (c, rest)) :
    rest.length < s.length := by
  obtain ⟨⟨v, r⟩, hv, h⟩ := Except.bind_eq_ok h
  dsimp only at h
  split_ifs at h <;> cases h <;> exact readValue_length hv

/-! ### One command of a replay -/

theorem replayLoop_fuel (h : s.length < n) : replayLoop n s = replay s := by
  have aux : ∀ n m (s : Bytes), s.length < n → s.length < m → replayLoop n s = replayLoop m s := by
    intro n
    induction n with
    | zero => intro m s h; omega
    | succ n ih =>
      intro m s hn hm
      obtain ⟨m, rfl⟩ := Nat.exists_eq_succ_of_ne_zero (Nat.ne_of_gt (Nat.zero_lt_of_lt hm))
      simp only [replayLoop]
      split
      · rfl
      · rename_i cmd rest hr
        have hlen := readCommand_length hr
        rw [ih m rest (by omega) (by omega)]
  exact aux n _ s h (Nat.lt_succ_self _)

theorem replay_eq (s : Bytes) :
    replay s = match readCommand s with
      | .error _ => []
      | .ok (cmd, rest) => if cmd = [] then replay rest else cmd :: replay rest := by
  rw [replay, replayLoop]
  cases hr : readCommand s with
  | error e => rfl
  | ok p =>
    obtain ⟨cmd, rest⟩ := p
    simp only [replayLoop_fuel (readCommand_length hr)]

theorem replay_error (h : ∃ e, readCommand s = .error e) : replay s = [] := by
  obtain ⟨e, he⟩ := h
  rw [replay_eq, he]

theorem replay_serialize (hc : Recordable c) (s : Bytes) :
    replay (serializeCommand c ++ s) = c :: replay s := by
  rw [replay_eq, readCommand_serialize hc.2.1 hc.2.2]
  simp only [if_neg hc.1]

theorem replay_flatMap_serialize {cs : List Command} (hcs : ∀ c ∈ cs, Recordable c) (s : Bytes) :
    replay (cs.flatMap serializeCommand ++ s) = cs ++ replay s := by
  induction cs with
  | nil => rfl
  | cons c cs ih =>
    rw [flatMap_cons, append_assoc, replay_serialize (hcs c mem_cons_self),
      ih fun x hx => hcs x (mem_cons_of_mem _ hx), cons_append]

end VortexKV
