import VortexKV.Proofs.CommandCodec

/-!
# The reactor's parser and memory

When the parser indexes out of range, what it allocates and what it reports as consumed. Counts and lengths wrap at 2^63
and are used unchecked: `make` gets whatever count is declared, and the bound of an argument whose declared length is close
to 2^63 wraps (`memorySafe_iff`).
-/

namespace VortexKV

variable {s data : Bytes} {cap : Nat}

def allocated (cap : Nat) (data : Bytes) : Int :=
  match splitLine data with
  | none => 0
  | some (line, _) =>
    let count := if data.head? = some 42 then (if IsHeader line then (arrayCount line).getD 0 else 0)
      else (splitFields (inlineLine line)).length
    if cap < count then count else 0

structure MemorySafe (cap : Nat) (data : Bytes) : Prop where
  noPanic : ∃ res, parseCommandInto cap data = .ok res
  allocation : allocated cap data ≤ data.length
  consumed : ∀ args k, parseCommandInto cap data = .ok (.command args k) → 1 ≤ k ∧ k ≤ data.length

/-- A header of an argument that declares so much that two more wrap. -/
def HugeHeader (s : Bytes) : Prop :=
  s.head? = some 36 ∧ ∃ line rest l, splitLine s = some (line, rest) ∧ IsHeader line ∧ bulkLength line = some l ∧ 2 ^ 63 - 2 ≤ l

/-- One of `n` arguments has such a header, and the parser comes to it. -/
def Overflows : Nat → Bytes → Prop
  | 0, _ => False
  | n + 1, s => HugeHeader s ∨ ∃ a rest, parseBulk s = .ok (.arg a rest) ∧ Overflows n rest

/-- An array declares no more arguments than `dst` has room for or the input has bytes, and no length that overflows. -/
def Justified (cap : Nat) (data : Bytes) : Prop :=
  ∀ line rest count, data.head? = some 42 → splitLine data = some (line, rest) → IsHeader line → arrayCount line = some count →
    (count ≤ cap ∨ count ≤ data.length ∧ count ≤ maxStrings) ∧ ¬ Overflows count.toNat rest

/-! ### What is consumed -/

theorem splitLine_eq {line rest : Bytes} (h : splitLine s = some (line, rest)) : s = line ++ 10 :: rest := by
  induction s generalizing line with
  | nil => cases h
  | cons c s ih =>
    rw [splitLine] at h
    split at h
    case isTrue hc => cases h; rw [hc]; rfl
    case isFalse =>
      obtain ⟨⟨line', rest'⟩, hs, heq⟩ := Option.map_eq_some_iff.1 h
      cases heq
      rw [ih hs]
      rfl

theorem parseBulk_length {a rest : Bytes} (h : parseBulk s = .ok (.arg a rest)) : rest.length ≤ s.length := by
  obtain ⟨line, rest', l, hl, -, -, rfl⟩ := parseBulk_arg h
  have := splitLine_length hl
  split <;> simp <;> omega

theorem parseBulks_consumed {size n k : Nat} {acc args : Command} (h : parseBulks size n acc s = .ok (.command args k)) :
    ∃ left, left ≤ s.length ∧ k = size - left := by
  induction n generalizing acc s with
  | zero =>
    cases h
    exact ⟨s.length, le_rfl, rfl⟩
  | succ n ih =>
    rw [parseBulks] at h
    cases hb : parseBulk s with
    | error stop => rw [hb] at h; cases h
    | ok res =>
      rw [hb] at h
      cases res with
      | incomplete | protocolError => cases h
      | arg a rest =>
        obtain ⟨left, hle, hk⟩ := ih h
        exact ⟨left, hle.trans (parseBulk_length hb), hk⟩

theorem consumed_bounds {k : Nat} {args : Command} (h : parseCommandInto cap data = .ok (.command args k)) :
    1 ≤ k ∧ k ≤ data.length := by
  cases data with
  | nil => cases h
  | cons c s =>
    rw [parseCommandInto] at h
    cases hl : splitLine (c :: s) with
    | none => split at h <;> simp [parseRESPArrayInto, parseInlineCommandInto, hl] at h
    | some lr =>
      obtain ⟨line, rest⟩ := lr
      have hlen : (c :: s).length = line.length + (rest.length + 1) := by rw [splitLine_eq hl, List.length_append]; rfl
      split at h
      case isTrue =>
        rw [parseRESPArrayInto, hl] at h
        dsimp only at h
        split at h
        · cases h
        · split at h
          · cases h
          · split_ifs at h
            · cases h
              omega
            · obtain ⟨left, hle, rfl⟩ := parseBulks_consumed h
              omega
      case isFalse =>
        rw [parseInlineCommandInto, hl] at h
        cases h
        omega

/-! ### Where it panics -/

theorem fastAtoi_lt {n : Int} {m : Int} (hn : n < 2 ^ 63) (h : fastAtoi n s = some m) : m < 2 ^ 63 := by
  induction s generalizing n with
  | nil => cases h; exact hn
  | cons c s ih =>
    obtain ⟨d, -, h⟩ := Option.bind_eq_some_iff.1 h
    refine ih ?_ h
    have := Int.bmod_lt (x := n * 10 + d) (m := 2 ^ 64) (by decide)
    rw [wrap64]
    omega

theorem bulkLength_lt {line : Bytes} {l : Int} (h : bulkLength line = some l) : l < 2 ^ 63 := by
  unfold bulkLength at h
  split at h
  · obtain ⟨n, -, rfl⟩ := Option.map_eq_some_iff.1 h
    have := Int.bmod_lt (x := -n) (m := 2 ^ 64) (by decide)
    rw [wrap64]
    omega
  · exact fastAtoi_lt (by decide) h

theorem parseBulk_panics_iff (hsi : s.length < 2 ^ 62) : (∃ stop, parseBulk s = .error stop) ↔ HugeHeader s := by
  constructor
  · rintro ⟨stop, h⟩
    unfold parseBulk at h
    split at h
    · cases h
    split at h
    · cases h
    rename_i hh
    split at h
    · cases h
    rename_i line rest hli
    split at h
    · cases h
    rename_i hhe
    split at h
    · cases h
    rename_i l hl
    split_ifs at h with hm hne hs
    split at h
    · split_ifs at h
    rename_i hn
    refine ⟨not_not.1 hh, line, rest, l, hli, not_not.1 hhe, hl, ?_⟩
    by_contra hlt
    rw [wrap64, Int.bmod_eq_of_le (by omega) (by omega)] at hs
    exact hn _ _ (List.getElem?_eq_getElem (by omega)) (List.getElem?_eq_getElem (by omega))
  · rintro ⟨hh, line, rest, l, hli, hhe, hl, hle⟩
    have hlt := bulkLength_lt hl
    have hr := splitLine_length hli
    have hw : wrap64 (l + 2) = l + 2 - 2 ^ 64 := by
      rw [wrap64, ← Int.sub_bmod_right, Int.bmod_eq_of_le] <;> omega
    refine ⟨.panic, ?_⟩
    rw [parseBulk, if_neg (fun h => by rw [h] at hh; cases hh), if_neg (not_not_intro hh), hli]
    dsimp only
    rw [if_neg (not_not_intro hhe), hl]
    dsimp only
    rw [if_neg (by omega), if_neg (by omega), hw, if_neg (by omega), List.getElem?_eq_none (by omega)]

theorem parseBulks_panics_iff (size n : Nat) (acc : Command) (hs : s.length < 2 ^ 62) :
    (∃ stop, parseBulks size n acc s = .error stop) ↔ Overflows n s := by
  induction n generalizing acc s with
  | zero => exact iff_of_false (by rintro ⟨_, ⟨⟩⟩) id
  | succ n ih =>
    rw [parseBulks, Overflows, ← parseBulk_panics_iff hs]
    cases hb : parseBulk s with
    | error stop => exact iff_of_true ⟨stop, rfl⟩ (.inl ⟨stop, rfl⟩)
    | ok res =>
      cases res with
      | incomplete | protocolError =>
        refine iff_of_false (by rintro ⟨_, ⟨⟩⟩) ?_
        rintro (⟨_, h⟩ | ⟨_, _, h, _⟩) <;> cases h
      | arg a rest =>
        have hr := ih (acc ++ [a]) ((parseBulk_length hb).trans_lt hs)
        constructor
        · exact fun h => .inr ⟨a, rest, rfl, hr.1 h⟩
        · rintro (⟨_, h⟩ | ⟨a', rest', h, ho⟩)
          · cases h
          · cases h
            exact hr.2 ho

/-! ### What it allocates -/

theorem length_fieldLoop (cur : Bytes) (ts : List Bytes) : (fieldLoop cur ts).length ≤ ts.length + if cur = [] then 0 else 1 := by
  induction ts generalizing cur with
  | nil => rw [fieldLoop]; split <;> simp
  | cons t ts ih =>
    have hn := ih []
    have ha := ih (cur ++ t)
    rw [if_pos rfl] at hn
    rw [fieldLoop]
    simp only [apply_ite List.length, List.length_cons]
    split_ifs at ha ⊢ <;> omega

theorem length_runeTexts (n : Nat) (s : Bytes) : (runeTexts n s).length ≤ n := by
  induction n generalizing s with
  | zero => rfl
  | succ n ih =>
    cases s with
    | nil => exact Nat.zero_le _
    | cons c s => exact Nat.succ_le_succ (ih _)

theorem length_splitFields (s : Bytes) : (splitFields s).length ≤ s.length :=
  (length_fieldLoop [] _).trans (length_runeTexts _ _)

theorem parse_of_array (h : data.head? = some 42) : parseCommandInto cap data = parseRESPArrayInto cap data := by
  cases data with
  | nil => cases h
  | cons c s => exact if_pos (Option.some.inj h)

theorem parse_of_line (h : data.head? ≠ some 42) : ∃ res, parseCommandInto cap data = .ok res := by
  cases data with
  | nil => exact ⟨_, rfl⟩
  | cons c s => exact ⟨_, if_neg fun hc => h (congrArg some hc)⟩

/-- The parser is memory safe exactly on input whose array declares no more than the input justifies. -/
theorem memorySafe_iff (cap : Nat) (data : Bytes) (hsi : data.length < 2 ^ 62) : MemorySafe cap data ↔ Justified cap data := by
  have hco : ∀ args k, parseCommandInto cap data = .ok (.command args k) → 1 ≤ k ∧ k ≤ data.length := fun _ _ => consumed_bounds
  by_cases ha : data.head? = some 42
  · cases hl : splitLine data with
    | none =>
      refine iff_of_true ⟨⟨.incomplete, ?_⟩, ?_, hco⟩ fun line rest count _ h => ?_
      · rw [parse_of_array ha, parseRESPArrayInto, hl]
      · rw [allocated, hl]
        exact Int.natCast_nonneg _
      · rw [hl] at h
        cases h
    | some lr =>
    obtain ⟨line, rest⟩ := lr
    by_cases hhe : IsHeader line
    · cases hcu : arrayCount line with
      | none =>
        refine iff_of_true ⟨⟨.protocolError, ?_⟩, ?_, hco⟩ fun line' rest' count _ h _ hc => ?_
        · rw [parse_of_array ha, parseRESPArrayInto, hl]
          dsimp only
          rw [if_neg (not_not_intro hhe), hcu]
        · simp [allocated, hl, hhe, ha, hcu]
        · rw [hl] at h
          cases h
          rw [hcu] at hc
          cases hc
      | some count =>
        have hp : parseCommandInto cap data = if count = 0 then .ok (.command [] (line.length + 1))
            else if cap < count ∧ maxStrings < count then .error .panic else parseBulks data.length count.toNat [] rest := by
          rw [parse_of_array ha, parseRESPArrayInto, hl]
          dsimp only
          rw [if_neg (not_not_intro hhe), hcu]
        have hal : allocated cap data = if cap < count then count else 0 := by
          simp [allocated, hl, hhe, ha, hcu]
        have hbu := parseBulks_panics_iff data.length count.toNat [] ((splitLine_length hl).trans hsi)
        constructor
        · rintro ⟨⟨res, hr⟩, ha', -⟩ line' rest' count' - h - hc
          rw [hl] at h
          cases h
          rw [hcu] at hc
          cases hc
          rw [hp] at hr
          rw [hal] at ha'
          by_cases hz : count = 0
          · subst hz
            exact ⟨.inl (Int.natCast_nonneg _), id⟩
          rw [if_neg hz] at hr
          split_ifs at hr with hpa
          refine ⟨?_, fun ho => ?_⟩
          · by_cases hca : (cap : Int) < count
            · rw [if_pos hca] at ha'
              exact .inr ⟨ha', by omega⟩
            · exact .inl (by omega)
          · obtain ⟨stop, hs⟩ := hbu.2 ho
            rw [hr] at hs
            cases hs
        · intro h
          obtain ⟨hfi, ho⟩ := h line rest count ha hl hhe hcu
          refine ⟨?_, ?_, hco⟩
          · rw [hp]
            split_ifs with hz hpa
            · exact ⟨_, rfl⟩
            · omega
            · cases hb : parseBulks data.length count.toNat [] rest with
              | ok res => exact ⟨res, rfl⟩
              | error stop => exact absurd (hbu.1 ⟨stop, hb⟩) ho
          · rw [hal]
            split <;> omega
    · refine iff_of_true ⟨⟨.protocolError, ?_⟩, ?_, hco⟩ fun line' rest' count _ h hh => ?_
      · rw [parse_of_array ha, parseRESPArrayInto, hl]
        exact if_pos hhe
      · simp [allocated, hl, hhe, ha]
      · rw [hl] at h
        cases h
        exact absurd hh hhe
  · refine iff_of_true ⟨parse_of_line ha, ?_, hco⟩ fun line rest count h => absurd h ha
    rw [allocated]
    split
    · exact Int.natCast_nonneg _
    · rename_i line rest hl
      have hf := length_splitFields (inlineLine line)
      have hlen : data.length = line.length + (rest.length + 1) := by rw [splitLine_eq hl, List.length_append]; rfl
      have ht : (inlineLine line).length ≤ line.length := by rw [inlineLine]; split <;> simp
      simp only [if_neg ha]
      split <;> omega

theorem memorySafe_iff_ping : (lit "PING\r\n").length < 2 ^ 62 ∧ (MemorySafe 16 (lit "PING\r\n") ↔ Justified 16 (lit "PING\r\n")) :=
  ⟨by decide, memorySafe_iff 16 _ (by decide)⟩

/-- A thousand million arguments declared in thirteen bytes, and an argument of 2^63 - 1 bytes. -/
theorem parser_unsafe : allocated 16 (lit "*1000000000\r\n") = 1000000000 ∧ ¬ MemorySafe 16 (lit "*1000000000\r\n") ∧
    parseCommandInto 16 (lit "*1\r\n$9223372036854775807\r\nx\r\n") = .error .panic := by
  have ha : allocated 16 (lit "*1000000000\r\n") = 1000000000 := by decide +kernel
  refine ⟨ha, fun h => ?_, by decide +kernel⟩
  have := h.allocation
  rw [ha] at this
  exact absurd this (by decide)

end VortexKV
