import VortexKV.Proofs.RespRead
import VortexKV.ReactorParser

/-!
# Commands written and read back

`commands_read_back`: the reader takes back what `SerializeCommand` wrote. `accepted_recovered_iff`: a command that the
reactor's parser accepted can be read back exactly if its headers declare no more than the reader allows.
-/

namespace VortexKV

open List

variable {n : Nat} {s : Bytes} {args : Command}

/-! ### Reading until the end -/

theorem readLoop_fuel (h : s.length < n) : readLoop n s = readCommands s := by
  have aux : ∀ n m (s : Bytes), s.length < n → s.length < m → readLoop n s = readLoop m s := by
    intro n
    induction n with
    | zero => intro m s h; omega
    | succ n ih =>
      intro m s hn hm
      obtain _ | m := m
      · omega
      rw [readLoop, readLoop]
      cases hr : readCommand s with
      | error e => rfl
      | ok x =>
        have hlt := readCommand_length hr
        dsimp only
        rw [ih m x.2 (by omega) (by omega)]
  exact aux n _ s h (Nat.lt_succ_self _)

theorem readCommands_eq (s : Bytes) : readCommands s = match readCommand s with
    | .error e => ([], e)
    | .ok (cmd, rest) => (cmd :: (readCommands rest).1, (readCommands rest).2) := by
  rw [readCommands, readLoop]
  cases hr : readCommand s with
  | error e => rfl
  | ok x =>
    dsimp only
    rw [readLoop_fuel (readCommand_length hr)]

/-- Commands within the reader's limits are read back one for one, and then the input ends. -/
theorem commands_read_back (cs : List Command) (h : ∀ c ∈ cs, Recordable c) :
    readCommands (cs.flatMap serializeCommand) = (cs, .eof) ∧ replay (cs.flatMap serializeCommand) = cs := by
  constructor
  · induction cs with
    | nil => rfl
    | cons c cs ih =>
      obtain ⟨-, hlen, ha⟩ := h c mem_cons_self
      have hre := ih fun c hc => h c (mem_cons_of_mem _ hc)
      rw [flatMap_cons, readCommands_eq, readCommand_serialize hlen ha]
      dsimp only
      rw [hre]
  · have hr := replay_flatMap_serialize h []
    rw [append_nil] at hr
    exact hr.trans (append_nil cs)

theorem commands_read_back_binary : (∀ c ∈ [[lit "SET", [13, 10], lit "$3"], [[]]], Recordable c) ∧
    readCommands ([[lit "SET", [13, 10], lit "$3"], [[]]].flatMap serializeCommand) = ([[lit "SET", [13, 10], lit "$3"], [[]]], .eof) :=
  ⟨by decide, (commands_read_back _ (by decide)).1⟩

/-! ### The reactor's parser -/

theorem le_of_parseDigits {acc m : Nat} (h : parseDigits acc s = some m) : acc ≤ m := by
  induction s generalizing acc with
  | nil => exact (Option.some.inj h).le
  | cons c s ih =>
    obtain ⟨d, -, h⟩ := Option.bind_eq_some_iff.1 h
    have := ih h
    omega

theorem fastAtoi_of_parseDigits {acc m : Nat} (h : parseDigits acc s = some m) (hm : m < 2 ^ 63) : fastAtoi acc s = some (m : Int) := by
  induction s generalizing acc with
  | nil =>
    cases h
    rfl
  | cons c s ih =>
    obtain ⟨d, hd, h⟩ := Option.bind_eq_some_iff.1 h
    have hle := le_of_parseDigits h
    have hw : wrap64 ((acc : Int) * 10 + d) = ((10 * acc + d : Nat) : Int) := by
      rw [wrap64, Int.bmod_eq_of_le] <;> push_cast <;> omega
    rw [fastAtoi, hd, Option.bind_some, hw]
    exact ih h

theorem fastAtoi_formatUint (h : n < 2 ^ 63) : fastAtoi 0 (formatUint n) = some (n : Int) := by
  have hd := parseDec_formatUint n
  rw [parseDec, if_neg (formatUint_ne_nil n)] at hd
  exact fastAtoi_of_parseDigits hd h

theorem splitLine_header (t : UInt8) (ht : t ≠ 10) (n : Nat) (s : Bytes) :
    splitLine (t :: formatUint n ++ CRLF ++ s) = some (t :: formatUint n ++ [13], s) ∧ IsHeader (t :: formatUint n ++ [13]) ∧
      (t :: formatUint n ++ [13]).tail.dropLast = formatUint n := by
  refine ⟨?_, ⟨by simp, List.getLast?_concat⟩, ?_⟩
  · have heq : t :: formatUint n ++ CRLF ++ s = (t :: formatUint n ++ [13]) ++ 10 :: s := by simp [CRLF]
    rw [heq]
    refine splitLine_append ?_ s
    have := ten_notMem_formatUint n
    simp [ht.symm, this]
  · rw [cons_append, tail_cons, dropLast_concat]

theorem parseBulk_header (h : n < 2 ^ 62) (s : Bytes) : parseBulk (36 :: formatUint n ++ CRLF ++ s) =
    if s.length < n + 2 then .ok .incomplete
    else match s[n]?, s[n + 1]? with
      | some c, some d => if c = 13 ∧ d = 10 then .ok (.arg (s.take n) (s.drop (n + 2))) else .ok .protocolError
      | _, _ => .error .panic := by
  obtain ⟨hl, hh, hd⟩ := splitLine_header 36 (by decide) n s
  have hlen : bulkLength (36 :: formatUint n ++ [13]) = some (n : Int) := by
    rw [bulkLength, hd]
    split
    · rename_i ds heq
      have := mem_formatUint (heq ▸ mem_cons_self : (45 : UInt8) ∈ formatUint n)
      exact absurd this (by decide)
    · exact fastAtoi_formatUint (by omega)
  have hw : wrap64 ((n : Int) + 2) = n + 2 := by
    rw [wrap64, Int.bmod_eq_of_le] <;> omega
  have hs : (s.length : Int) < n + 2 ↔ s.length < n + 2 := by omega
  rw [parseBulk, if_neg (by simp), if_neg (by simp), hl]
  dsimp only
  rw [if_neg (not_not_intro hh), hlen]
  dsimp only
  rw [if_neg (by omega), if_neg (by omega), hw, Int.toNat_natCast]
  exact if_congr hs rfl rfl

theorem parseBulk_serialize {a : Bytes} (h : a.length < 2 ^ 62) (s : Bytes) : parseBulk (serializeArg a ++ s) = .ok (.arg a s) := by
  have hs : serializeArg a ++ s = 36 :: formatUint a.length ++ CRLF ++ (a ++ (CRLF ++ s)) := by simp [serializeArg]
  have hcr : (a ++ (CRLF ++ s))[a.length]? = some 13 := by simp [CRLF]
  have hlf : (a ++ (CRLF ++ s))[a.length + 1]? = some 10 := by
    rw [List.getElem?_append_right (by omega), Nat.add_sub_cancel_left]
    rfl
  have hf : ¬ (a ++ (CRLF ++ s)).length < a.length + 2 := by
    rw [length_append, length_append, show CRLF.length = 2 from rfl]
    omega
  rw [hs, parseBulk_header h, if_neg hf, hcr, hlf]
  dsimp only
  rw [if_pos ⟨rfl, rfl⟩, take_left, drop_append, drop_eq_nil_of_le (by omega), Nat.add_sub_cancel_left]
  rfl

theorem parseBulks_serialize (h : ∀ a ∈ args, a.length < 2 ^ 62) (size : Nat) (acc : Command) (s : Bytes) :
    parseBulks size args.length acc (args.flatMap serializeArg ++ s) = .ok (.command (acc ++ args) (size - s.length)) := by
  induction args generalizing acc with
  | nil => rw [append_nil]; rfl
  | cons a args ih =>
    rw [length_cons, parseBulks, flatMap_cons, append_assoc, parseBulk_serialize (h a mem_cons_self)]
    change parseBulks size args.length (acc ++ [a]) (args.flatMap serializeArg ++ s) = _
    rw [ih fun a ha => h a (mem_cons_of_mem _ ha), append_assoc]
    rfl

theorem parse_array (hn : n ≤ maxStrings) (cap : Nat) (s : Bytes) :
    parseCommandInto cap (42 :: formatUint n ++ CRLF ++ s) = parseBulks ((42 :: formatUint n ++ CRLF).length + s.length) n [] s := by
  obtain ⟨hl, hh, hd⟩ := splitLine_header 42 (by decide) n s
  have hc : arrayCount (42 :: formatUint n ++ [13]) = some (n : Int) := by
    rw [arrayCount, hd]
    refine fastAtoi_formatUint ?_
    simp only [maxStrings] at hn
    omega
  change parseRESPArrayInto cap (42 :: formatUint n ++ CRLF ++ s) = _
  rw [parseRESPArrayInto, hl]
  dsimp only
  rw [if_neg (not_not_intro hh), hc]
  dsimp only
  split_ifs with hz hca
  · obtain rfl : n = 0 := by omega
    rw [parseBulks, Nat.add_sub_cancel]
    rfl
  · omega
  · rw [Int.toNat_natCast, length_append]

theorem parse_serialize (hlen : args.length ≤ maxStrings) (h : ∀ a ∈ args, a.length < 2 ^ 62) (cap : Nat) (s : Bytes) :
    parseCommandInto cap (serializeCommand args ++ s) = .ok (.command args (serializeCommand args).length) := by
  rw [serializeCommand, append_assoc, parse_array hlen, parseBulks_serialize h, nil_append]
  congr 2
  simp only [length_append]
  omega

/-! ### What can be recovered -/

/-- `ReadCommand` takes the command back, whatever follows it, and goes on behind it. -/
def Recovered (args : Command) : Prop := ∀ rest, readCommand (serializeCommand args ++ rest) = .ok (args, rest)

theorem recovered_iff (args : Command) : Recovered args ↔ args.length ≤ MaxArrayLength.toNat ∧ ∀ a ∈ args, a.length ≤ MaxBulkLength.toNat := by
  constructor
  · intro h
    by_contra hl
    obtain ⟨e, he⟩ := readCommand_serialize_error hl []
    cases he.symm.trans (h [])
  · rintro ⟨hlen, ha⟩ rest
    exact readCommand_serialize hlen ha rest

def declaredLengths : Nat → Bytes → List Int
  | 0, _ => []
  | n + 1, s => match splitLine s with
    | none => []
    | some (line, rest) =>
      let l := (bulkLength line).getD 0
      l :: declaredLengths n (if l = -1 then rest else rest.drop (l.toNat + 2))

/-- The bytes declare no more arguments and no longer ones than the reader allows. -/
def WithinLimits (data : Bytes) : Prop :=
  ∀ line rest, splitLine data = some (line, rest) →
    if data.head? = some 42 then
      ∀ count, arrayCount line = some count → count ≤ MaxArrayLength ∧ ∀ l ∈ declaredLengths count.toNat rest, l ≤ MaxBulkLength
    else (splitFields (inlineLine line)).length ≤ MaxArrayLength ∧ ∀ f ∈ splitFields (inlineLine line), f.length ≤ MaxBulkLength

theorem withinLimits_array {line rest : Bytes} {count : Int} (hl : splitLine (42 :: s) = some (line, rest)) (hc : arrayCount line = some count) :
    WithinLimits (42 :: s) ↔ count ≤ MaxArrayLength ∧ ∀ l ∈ declaredLengths count.toNat rest, l ≤ MaxBulkLength := by
  constructor
  · intro h
    exact h line rest hl count hc
  · rintro h line' rest' hline' count' hcount'
    cases hl.symm.trans hline'
    cases hc.symm.trans hcount'
    exact h

theorem withinLimits_inline {c : UInt8} {line rest : Bytes} (hc : c ≠ 42) (hl : splitLine (c :: s) = some (line, rest)) :
    WithinLimits (c :: s) ↔
      (splitFields (inlineLine line)).length ≤ MaxArrayLength ∧ ∀ f ∈ splitFields (inlineLine line), f.length ≤ MaxBulkLength := by
  have hh : (c :: s).head? ≠ some 42 := fun heq => hc (Option.some.inj heq)
  unfold WithinLimits
  simp only [hh, if_false]
  constructor
  · intro h
    exact h line rest hl
  · rintro h line' rest' hline'
    cases hl.symm.trans hline'
    exact h

theorem parseBulk_arg {a s' : Bytes} (h : parseBulk s = .ok (.arg a s')) : ∃ line rest l, splitLine s = some (line, rest) ∧
    bulkLength line = some l ∧ a.length = l.toNat ∧ s' = if l = -1 then rest else rest.drop (l.toNat + 2) := by
  unfold parseBulk at h
  split at h
  · cases h
  split at h
  · cases h
  split at h
  · cases h
  rename_i line rest hli
  split at h
  · cases h
  split at h
  · cases h
  rename_i l hl
  refine ⟨line, rest, l, hli, hl, ?_⟩
  split at h
  · rename_i hn
    cases h
    exact ⟨by rw [hn]; rfl, (if_pos hn).symm⟩
  rename_i hne
  split at h
  · cases h
  split at h
  · cases h
  split at h
  · rename_i hc hd
    split at h
    · cases h
      have hlt := (List.getElem?_eq_some_iff.1 hc).1
      exact ⟨by rw [length_take]; omega, (if_neg hne).symm⟩
    · cases h
  · cases h

theorem parseBulks_command {size k : Nat} {acc : Command} (h : parseBulks size n acc s = .ok (.command args k)) :
    ∃ new, args = acc ++ new ∧ new.length = n ∧ List.Forall₂ (fun l (a : Bytes) => a.length = l.toNat) (declaredLengths n s) new := by
  induction n generalizing acc s with
  | zero =>
    cases h
    exact ⟨[], (append_nil _).symm, rfl, .nil⟩
  | succ n ih =>
    rw [parseBulks] at h
    obtain ⟨x, hx, h⟩ := Except.bind_eq_ok h
    cases x with
    | incomplete => cases h
    | protocolError => cases h
    | arg a s' =>
      obtain ⟨line, rest, l, hli, hl, hlen, rfl⟩ := parseBulk_arg hx
      obtain ⟨new, rfl, hn, ha⟩ := ih h
      refine ⟨a :: new, by simp, by simp [hn], ?_⟩
      rw [declaredLengths, hli]
      dsimp only
      rw [hl]
      exact .cons hlen ha

theorem forall_declared {ls : List Int} {as : List Bytes} (h : List.Forall₂ (fun l (a : Bytes) => a.length = l.toNat) ls as) :
    (∀ a ∈ as, a.length ≤ MaxBulkLength.toNat) ↔ ∀ l ∈ ls, l ≤ MaxBulkLength := by
  have hp : 0 ≤ MaxBulkLength := by decide
  induction h with
  | nil => simp
  | cons hla _ ih =>
    rw [forall_mem_cons, forall_mem_cons, hla]
    refine and_congr ?_ ih
    omega

/-- A command that the reactor accepts is read back from the file and by a replica exactly if it is within the limits. -/
theorem accepted_recovered_iff {cap n : Nat} {data : Bytes} {args : Command} (h : parseCommandInto cap data = .ok (.command args n)) :
    Recovered args ↔ WithinLimits data := by
  rw [recovered_iff]
  unfold parseCommandInto at h
  split at h
  · cases h
  split at h
  · -- an array: as many arguments as the count says, of the declared lengths
    rename_i hs
    rw [hs] at *
    unfold parseRESPArrayInto at h
    split at h
    · cases h
    rename_i line rest hl
    split at h
    · cases h
    split at h
    · cases h
    rename_i count hc
    rw [withinLimits_array hl hc]
    have hp : (0 : Int) ≤ MaxArrayLength := by decide
    split_ifs at h with hz hca
    · cases h
      rw [hz]
      simp [declaredLengths, hp]
    · obtain ⟨args, rfl, hlen, ha⟩ := parseBulks_command h
      rw [forall_declared ha, hlen]
      refine and_congr_left fun _ => ?_
      omega
  · -- an inline command: the fields of the line
    rename_i hs
    unfold parseInlineCommandInto at h
    split at h
    · cases h
    · rename_i line rest hl
      cases h
      rw [withinLimits_inline hs hl]
      have hp : (0 : Int) ≤ MaxArrayLength ∧ (0 : Int) ≤ MaxBulkLength := by decide
      refine and_congr (by omega) (forall_congr' fun f => forall_congr' fun _ => ?_)
      omega

theorem accepted_recovered_iff_ping : ∃ args n, parseCommandInto 0 (lit "PING hello\n") = .ok (.command args n) ∧ WithinLimits (lit "PING hello\n") ∧
    Recovered args := by
  have hp : parseCommandInto 0 (lit "PING hello\n") = .ok (.command [lit "PING", lit "hello"] 11) := by decide +kernel
  have hl : WithinLimits (lit "PING hello\n") := by
    have hli : splitLine (lit "PING hello\n") = some (lit "PING hello", []) := by decide +kernel
    have hf : splitFields (inlineLine (lit "PING hello")) = [lit "PING", lit "hello"] := by decide +kernel
    rw [show lit "PING hello\n" = 80 :: lit "ING hello\n" from rfl] at hli ⊢
    rw [withinLimits_inline (by decide) hli, hf]
    decide
  exact ⟨_, _, hp, hl, (accepted_recovered_iff hp).2 hl⟩

/-- A push of so many elements that the count is above the reader's limit. -/
def longPush : Command := lit "RPUSH" :: lit "k" :: List.replicate 1048576 [120]

/-- The reactor accepts the push. The reader does not, and finds nothing of what was logged behind it either. -/
theorem accepted_unreadable : (∃ n, parseCommandInto 0 (serializeCommand longPush) = .ok (.command longPush n)) ∧
    (∃ e, readCommand (serializeCommand longPush) = .error e) ∧ replay (serializeCommand longPush ++ serializeCommand [lit "PING"]) = [] := by
  have hlen : longPush.length = 1048578 := by rw [longPush, length_cons, length_cons, length_replicate]
  have ho : ¬ (longPush.length ≤ MaxArrayLength.toNat ∧ ∀ a ∈ longPush, a.length ≤ MaxBulkLength.toNat) := by
    rw [hlen]
    exact fun h => absurd h.1 (by decide)
  have hp := parse_serialize (show (longPush.length : Int) ≤ maxStrings by rw [hlen]; decide) ?_ 0 []
  rw [append_nil] at hp
  refine ⟨⟨_, hp⟩, ?_, replay_error (readCommand_serialize_error ho _)⟩
  · have he := readCommand_serialize_error ho []
    rwa [append_nil] at he
  · intro a ha
    rcases mem_cons.1 ha with rfl | ha
    · decide
    rcases mem_cons.1 ha with rfl | ha
    · decide
    · rw [eq_of_mem_replicate ha]
      decide

end VortexKV
