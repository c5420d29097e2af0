import VortexKV.Proofs.ErrorEffects
import VortexKV.Proofs.Replay

/-!
# Counters and expiry times

The counter commands and the commands with a time to live compute in `int64` and do not look for an overflow.
`counts_exactly_iff` and `expires_exactly_iff` say for which numbers the results are nevertheless exact.
-/

namespace VortexKV

open KeyedStore Option

theorem wrap64_eq_iff {n : Int} : wrap64 n = n ↔ -2 ^ 63 ≤ n ∧ n < 2 ^ 63 := by
  unfold wrap64
  constructor
  · intro h
    have hle := Int.le_bmod (x := n) (m := 2 ^ 64) (by decide)
    have hlt := Int.bmod_lt (x := n) (m := 2 ^ 64) (by decide)
    rw [h] at hle hlt
    omega
  · intro h
    exact Int.bmod_eq_of_le (by omega) (by omega)

theorem wrap64_add_wrap64 (m n : Int) : wrap64 (m + wrap64 n) = wrap64 (m + n) := Int.add_bmod_bmod

/-! ### Counters -/

def DataCmd.isCounter : DataCmd → Bool
  | incr | decr | incrby | decrby | hincrby => true
  | _ => false

/-- The key, the field of a hash, and the number to add, as the arguments ask for. -/
def DataCmd.increment (args : List Bytes) : DataCmd → Option (Bytes × Option Bytes × Int)
  | incr => args.head?.map fun key => (key, none, 1)
  | decr => args.head?.map fun key => (key, none, -1)
  | incrby => match args with
    | key :: n :: _ => (parseInt64 n).map fun n => (key, none, n)
    | _ => none
  | decrby => match args with
    | key :: n :: _ => (parseInt64 n).map fun n => (key, none, -n)
    | _ => none
  | hincrby => match args with
    | key :: field :: n :: _ => (parseInt64 n).map fun n => (key, some field, n)
    | _ => none
  | _ => none

def Datum.counterText : Option Bytes → Datum → Option Bytes
  | none, .string s => some s
  | some field, .hash h => h.lookup field
  | _, _ => none

def Datum.counter : Option Bytes → Datum → Option Int
  | none, .string s => parseInt64 s
  | some field, .hash h => (h.lookup field).elim (some 0) parseInt64
  | _, _ => none

def Keyspace.counter (now : Int) (ks : Keyspace) (key : Bytes) (field : Option Bytes) : Option Int :=
  (Keyspace.view now ks key).elim (some 0) fun x => x.1.counter field

section

variable {rt : Runtime} {r : Readings} {ks : Keyspace} {args : List Bytes} {c : DataCmd}

/-- The command replies with the mathematical sum and stores its text, or fails and changes nothing. -/
def DataCmd.CountsExactly (rt : Runtime) (r : Readings) (ks : Keyspace) (args : List Bytes) (c : DataCmd) : Prop :=
  (∃ key field δ n, c.increment args = some (key, field, δ) ∧ ks.counter r.fastNow key field = some n ∧
    ((c.action rt r args).run r.fastNow ks).1 = wrote (.integer (n + δ)) ∧
    (Keyspace.content ((c.action rt r args).run r.fastNow ks).2 key).bind (·.1.counterText field) = some (formatInt (n + δ))) ∨
  ∃ v w, ((c.action rt r args).run r.fastNow ks).1 = .ok (v, w) ∧ v.isError = true ∧
    ∀ k, Keyspace.view r.fastNow ((c.action rt r args).run r.fastNow ks).2 k = Keyspace.view r.fastNow ks k

/-- What the arguments ask for, added to what the counter stands at, is an `int64`. -/
def DataCmd.SumFits (now : Int) (ks : Keyspace) (args : List Bytes) (c : DataCmd) : Prop :=
  ∀ key field δ n, c.increment args = some (key, field, δ) → ks.counter now key field = some n → -2 ^ 63 ≤ n + δ ∧ n + δ < 2 ^ 63

/-- How a counter command ends: the sum is taken modulo `2 ^ 64`. -/
inductive Counted (now : Int) (ks : Keyspace) (asked : Option (Bytes × Option Bytes × Int)) : Outcome × Keyspace → Prop
  | sum (key : Bytes) (field : Option Bytes) (δ n : Int) (ks' : Keyspace) (hasked : asked = some (key, field, δ))
      (hn : ks.counter now key field = some n)
      (htext : (Keyspace.content ks' key).bind (·.1.counterText field) = some (formatInt (wrap64 (n + δ)))) :
      Counted now ks asked (wrote (.integer (wrap64 (n + δ))), ks')
  | error (e : Bytes) (ks' : Keyspace) (hnone : ∀ key field δ, asked = some (key, field, δ) → ks.counter now key field = none) :
      Counted now ks asked (fails e, ks')

theorem counted_handleIncrBy (now : Int) (ks : Keyspace) (key : Bytes) (rest : List Bytes) (δ δ' : Int) (hδ : wrap64 δ = wrap64 δ') :
    Counted now ks (some (key, none, δ)) ((handleIncrBy δ' (key :: rest)).run (ksStep now) ks) := by
  have hs : ∀ n, wrap64 (n + δ') = wrap64 (n + δ) := fun n => by rw [← wrap64_add_wrap64, ← hδ, wrap64_add_wrap64]
  have hv : ks.view now key = (dropExpired now (ks.entries.lookup key)).1.map fun e => (e.value, e.expiresAt) := rfl
  rw [handleIncrBy, Prog.run_bind, run_incrBy]
  rcases hd : dropExpired now (ks.entries.lookup key) with ⟨_ | en, d⟩
  · rw [hd] at hv
    rw [hs]
    refine .sum key none δ 0 _ rfl (by rw [Keyspace.counter, hv]; rfl) ?_
    rw [content_put, if_pos rfl]
    rfl
  · rw [hd] at hv
    have hc : ks.counter now key none = en.value.integer? := by
      rw [Keyspace.counter, hv]
      change en.value.counter none = _
      cases en.value <;> rfl
    dsimp only
    cases hn : en.value.integer? with
    | none => exact .error _ _ fun _ _ _ h => by cases h; rw [hc, hn]
    | some n =>
      dsimp only
      rw [hs]
      refine .sum key none δ n _ rfl (by rw [hc, hn]) ?_
      rw [content_put, if_pos rfl]
      rfl

theorem counted_cmdIncrByArg (now : Int) (ks : Keyspace) (name : Bytes) (sign : Int) (args : List Bytes) :
    Counted now ks (match args with
      | key :: n :: _ => (parseInt64 n).map fun n => (key, none, sign * n)
      | _ => none) ((cmdIncrByArg name sign args).run (ksStep now) ks) := by
  rcases args with _ | ⟨key, _ | ⟨n, rest⟩⟩
  · exact .error _ _ nofun
  · exact .error _ _ nofun
  simp only [cmdIncrByArg]
  cases parseInt64 n with
  | none => exact .error _ _ nofun
  | some n => exact counted_handleIncrBy now ks key [] _ _ (Int.bmod_bmod).symm

theorem counted_cmdHIncrBy (now : Int) (ks : Keyspace) (args : List Bytes) :
    Counted now ks (DataCmd.hincrby.increment args) ((cmdHIncrBy args).run (ksStep now) ks) := by
  rcases args with _ | ⟨key, _ | ⟨field, _ | ⟨n, rest⟩⟩⟩
  · exact .error _ _ (by rintro _ _ _ ⟨⟩)
  · exact .error _ _ (by rintro _ _ _ ⟨⟩)
  · exact .error _ _ (by rintro _ _ _ ⟨⟩)
  simp only [cmdHIncrBy, DataCmd.increment]
  cases parseInt64 n with
  | none => exact .error _ _ (by rintro _ _ _ ⟨⟩)
  | some δ =>
    obtain ⟨hva, hco⟩ := content_run_getOrCreate now ks key (.hash ∅)
    have hs : ∀ h : GoMap Bytes, Keyspace.content ((KsProg.put key (.hash h)).run (ksStep now)
        ((KsProg.getOrCreate key (.hash ∅)).run (ksStep now) ks).2).2 key = some (.hash h, ((ks.view now key).getD (.hash ∅, 0)).2) := by
      intro h
      rw [content_run_put, if_pos rfl, hco, if_pos rfl]
      rfl
    have hc : ks.counter now key (some field) = ((ks.view now key).getD (.hash ∅, 0)).1.counter (some field) := by
      unfold Keyspace.counter
      cases ks.view now key <;> rfl
    dsimp only [map_some]
    rw [withNewValue, Prog.run_bind, hva]
    generalize ((ks.view now key).getD (.hash ∅, 0)) = x at *
    obtain ⟨d, t⟩ := x
    cases d with
    | hash h =>
      dsimp only [Datum.hash?, Hash.incrBy]
      dsimp only [Datum.counter] at hc
      cases hv : h.lookup field with
      | none =>
        refine .sum key (some field) δ 0 _ rfl (by rw [hc, hv]; rfl) ?_
        exact (congrArg (Option.bind · _) (hs _)).trans (Finmap.lookup_insert _)
      | some v =>
        dsimp only
        cases hn : parseInt64 v with
        | none => exact .error _ _ fun _ _ _ h => by cases h; rw [hc, hv]; exact hn
        | some n =>
          refine .sum key (some field) δ n _ rfl (by rw [hc, hv]; exact hn) ?_
          exact (congrArg (Option.bind · _) (hs _)).trans (Finmap.lookup_insert _)
    | _ => exact .error _ _ fun _ _ _ h => by cases h; exact hc

theorem counted_action (hc : c.isCounter = true) :
    Counted r.fastNow ks (c.increment args) ((c.action rt r args).run r.fastNow ks) := by
  cases c <;> cases hc
  case incr | decr =>
    cases args with
    | nil => exact .error _ _ nofun
    | cons key rest => exact counted_handleIncrBy _ _ key rest _ _ rfl
  case incrby => simpa [DataCmd.increment, DataCmd.action, Action.run] using counted_cmdIncrByArg r.fastNow ks "incrby" 1 args
  case decrby => simpa [DataCmd.increment, DataCmd.action, Action.run] using counted_cmdIncrByArg r.fastNow ks "decrby" (-1) args
  case hincrby => exact counted_cmdHIncrBy _ _ args

/-- A counter command is exact, or fails without an effect, just if the sum is an `int64`. -/
theorem counts_exactly_iff (hc : c.isCounter = true) : c.CountsExactly rt r ks args ↔ c.SumFits r.fastNow ks args := by
  have hco := @counted_action rt r ks args c hc
  have hk : ∀ v w, ((c.action rt r args).run r.fastNow ks).1 = .ok (v, w) → v.isError = true →
      ∀ k, Keyspace.view r.fastNow ((c.action rt r args).run r.fastNow ks).2 k = Keyspace.view r.fastNow ks k := fun v w ho he =>
    data_error_view (by cases c <;> first | exact trivial | cases hc) ho he
  unfold DataCmd.CountsExactly DataCmd.SumFits
  generalize (c.action rt r args).run r.fastNow ks = x at *
  cases hco with
  | sum key field δ n ks' ha hn ht =>
    constructor
    · rintro (⟨key', field', δ', n', hak, hn', hr, -⟩ | ⟨v, w, ho, he, -⟩) key'' field'' δ'' n'' hasked'' hn''
      · rw [ha] at hak hasked''
        cases hak
        cases hasked''
        rw [hn] at hn' hn''
        cases hn'
        cases hn''
        injection hr with h
        injection h with h
        exact wrap64_eq_iff.1 (by injection h)
      · cases ho
        cases he
    · intro hf
      have hs := wrap64_eq_iff.2 (hf key field δ n ha hn)
      exact .inl ⟨key, field, δ, n, ha, hn, by rw [hs], by rw [← hs]; exact ht⟩
  | error e ks' hno =>
    refine iff_of_true (.inr ⟨.error e, false, rfl, rfl, hk _ _ rfl rfl⟩) fun key field δ n ha hn => ?_
    rw [hno key field δ ha] at hn
    cases hn

theorem counter_wraps : let ks := ((DataCmd.set.action .plain (.plain 1) [lit "k", lit "9223372036854775807"]).run 1 .empty).2
    ((DataCmd.incr.action .plain (.plain 1) [lit "k"]).run 1 ks).1 = .ok (.integer (-9223372036854775808), true) ∧
    ¬DataCmd.incr.CountsExactly .plain (.plain 1) ks [lit "k"] := by
  have hw : wrap64 (9223372036854775807 + 1) = -9223372036854775808 := by decide
  refine ⟨hw ▸ rfl, fun h => ?_⟩
  have hf := (counts_exactly_iff rfl).1 h _ none 1 9223372036854775807 rfl rfl
  omega

theorem counts_exactly_one : DataCmd.incr.CountsExactly .plain (.plain 1) .empty [lit "k"] :=
  (counts_exactly_iff rfl).2 fun key field δ n ha hn => by
    cases ha
    cases hn
    decide

end

/-! ### Expiry times -/

/-- The milliseconds that the last `EX` or `PX` among the options of `SET` asks for. -/
def askedByOptions (rt : Runtime) : List Bytes → Option Int → Option Int
  | [], asked => asked
  | a :: rest, asked =>
    let opt := toUpper rt.unicode a
    if opt = lit "EX" ∨ opt = lit "PX" then
      match rest with
      | [] => asked
      | v :: rest => askedByOptions rt rest ((parseInt64 v).map fun n => if opt = lit "EX" then n * 1000 else n)
    else askedByOptions rt rest asked

/-- The key and the time to live in milliseconds that a command asks for. -/
def DataCmd.askedTTL (rt : Runtime) (args : List Bytes) : DataCmd → Option (Bytes × Int)
  | expire => match args with
    | key :: n :: _ => (parseInt64 n).map fun n => (key, n * 1000)
    | _ => none
  | pexpire => match args with
    | key :: n :: _ => (parseInt64 n).map fun n => (key, n * 1)
    | _ => none
  | setex => match args with
    | key :: n :: _ => (parseInt64 n).map fun n => (key, n * 1000)
    | _ => none
  | psetex => match args with
    | key :: n :: _ => (parseInt64 n).map fun n => (key, n * 1)
    | _ => none
  | set => match args with
    | key :: _ :: opts => (askedByOptions rt opts none).map fun t => (key, t)
    | _ => none
  | _ => none

def DataCmd.clock (r : Readings) : DataCmd → Int
  | setex | psetex => r.nowMilli
  | _ => r.fastNow

/-- The key is gone if the time to live is not positive; else it expires after exactly this time. -/
def ExpiresExactly (now clock ttl : Int) (ks : Keyspace) (key : Bytes) : Prop :=
  if ttl ≤ 0 then Keyspace.view now ks key = none
  else (Keyspace.content ks key).map Prod.snd = some (clock + ttl) ∧ 0 < clock + ttl

def DataCmd.TTLFits (clock ttl : Int) (c : DataCmd) : Prop :=
  if ttl ≤ 0 then 0 < (clock + ttl) % 2 ^ 64 ∧ (clock + ttl) % 2 ^ 64 ≤ clock
  else 0 < clock + ttl ∧ clock + ttl < 2 ^ 63 ∧ (c = .set → ttl < 2 ^ 63)

section

variable {rt : Runtime} {r : Readings} {ks : Keyspace} {args : List Bytes} {c : DataCmd} {key : Bytes} {clock ttl : Int}

theorem view_eq_none_iff {d : Datum} {x : Int} (h : ks.content key = some (d, x)) (now : Int) :
    ks.view now key = none ↔ 0 < x ∧ x ≤ now := by
  obtain ⟨en, hen, heq⟩ := map_eq_some_iff.1 h
  cases heq
  rw [Keyspace.view, hen]
  simp only [liveCell, dropExpired, Entry.isExpired, Bool.and_eq_true, decide_eq_true_eq]
  split <;> simp_all

theorem expiresExactly_iff_of_wrap {d : Datum} (hcl : -2 ^ 63 ≤ clock ∧ clock < 2 ^ 63)
    (h : ks.content key = some (d, wrap64 (clock + ttl))) (hc : c ≠ .set) :
    ExpiresExactly clock clock ttl ks key ↔ c.TTLFits clock ttl := by
  unfold ExpiresExactly DataCmd.TTLFits
  split
  · rw [view_eq_none_iff h, wrap64, Int.bmod_def]
    omega
  · rw [h]
    simp only [map_some, Option.some.injEq, wrap64_eq_iff, hc, false_implies, and_true]
    omega

theorem askedByOptions_skip {a : Bytes} (rest : List Bytes) (asked : Option Int)
    (h : ¬(toUpper rt.unicode a = lit "EX" ∨ toUpper rt.unicode a = lit "PX")) :
    askedByOptions rt (a :: rest) asked = askedByOptions rt rest asked := by
  rw [askedByOptions.eq_def]
  exact if_neg h

theorem setOptions_asked {opts : List Bytes} {ttl ttl' : Int} {nx xx nx' xx' : Bool}
    (h : setOptions rt opts ttl nx xx = .ok (ttl', nx', xx')) : ∀ asked : Option Int, (∀ t, asked = some t → 0 < t ∧ ttl = wrap64 t) →
      ∀ t, askedByOptions rt opts asked = some t → 0 < t ∧ ttl' = wrap64 t := by
  fun_induction setOptions rt opts ttl nx xx with
  | case1 =>
    cases h
    exact fun _ ha => ha
  | case2 | case3 | case4 => cases h
  | case5 a ttl nx xx opt ho v rest n hn hp ih =>
    intro asked _
    unfold askedByOptions
    rw [if_pos ho]
    refine ih h _ fun t ht => ?_
    rw [hn] at ht
    cases ht
    dsimp only
    split
    · exact ⟨by omega, rfl⟩
    · exact ⟨by omega, (wrap64_eq_iff.2 (parseInt64_range hn)).symm⟩
  | case6 a rest ttl nx xx opt ho hnx ih =>
    simpa only [askedByOptions_skip _ _ ho] using ih h
  | case7 a rest ttl nx xx opt ho hnx hxx ih =>
    simpa only [askedByOptions_skip _ _ ho] using ih h
  | case8 a rest ttl nx xx opt ho hnx hxx ih =>
    simpa only [askedByOptions_skip _ _ ho] using ih h

theorem expiresExactly_set {v : Value} (hcl : -2 ^ 63 ≤ r.fastNow ∧ r.fastNow < 2 ^ 63)
    (ha : DataCmd.set.askedTTL rt args = some (key, ttl)) (ho : ((handleSet rt r args).run (ksStep r.fastNow) ks).1 = .ok (v, true)) :
    ExpiresExactly r.fastNow r.fastNow ttl ((handleSet rt r args).run (ksStep r.fastNow) ks).2 key ↔ DataCmd.set.TTLFits r.fastNow ttl := by
  rcases args with _ | ⟨key', _ | ⟨val, opts⟩⟩
  · cases ha
  · cases ha
  obtain ⟨t, ht, heq⟩ := map_eq_some_iff.1 ha
  cases heq
  rcases hop : setOptions rt opts 0 false false with e | ⟨ttl', nx, xx⟩
  · simp only [handleSet, hop] at ho
    cases ho
  obtain ⟨hp, rfl⟩ := setOptions_asked hop none (by rintro _ ⟨⟩) ttl ht
  obtain ⟨hy, hno⟩ := run_handleSet r ks key val hop
  cases hs : setStores r.fastNow ks key nx xx with
  | false =>
    rw [(hno hs).1] at ho
    cases ho
  | true =>
    have hc := ((hy hs).2 key).trans (if_pos rfl)
    unfold ExpiresExactly DataCmd.TTLFits
    rw [if_neg (by omega), if_neg (by omega), hc]
    simp only [map_some, Option.some.injEq, setExpiry, true_implies]
    -- a time to live that wraps to a negative number is taken for none
    rcases lt_or_ge ttl (2 ^ 63) with hlt | hge
    · have hw : wrap64 ttl = ttl := wrap64_eq_iff.2 (by omega)
      rw [hw, if_pos hp, wrap64_eq_iff]
      omega
    · split
      · rename_i hw
        rw [wrap64_add_wrap64, wrap64_eq_iff]
        rw [wrap64, Int.bmod_def] at hw
        omega
      · omega

theorem expiresExactly_expire {name : Bytes} {unit : Int} {v : Value} (hcl : -2 ^ 63 ≤ r.fastNow ∧ r.fastNow < 2 ^ 63) (hc : c ≠ .set)
    {n : Bytes} {rest : List Bytes} {k : Int} (hn : parseInt64 n = some k)
    (ho : ((cmdExpire name unit (key :: n :: rest)).run (ksStep r.fastNow) ks).1 = .ok (v, true)) :
    ExpiresExactly r.fastNow r.fastNow (k * unit) ((cmdExpire name unit (key :: n :: rest)).run (ksStep r.fastNow) ks).2 key ↔
      c.TTLFits r.fastNow (k * unit) := by
  obtain ⟨hf, hco⟩ := @run_expire ks r.fastNow key (wrap64 (k * unit))
  simp only [cmdExpire, hn, Prog.run_bind, hf] at ho ⊢
  rcases hv : ks.view r.fastNow key with _ | ⟨d, x⟩
  · rw [hv] at ho
    cases ho
  · rw [hv] at hco
    rw [wrap64_add_wrap64] at hco
    exact expiresExactly_iff_of_wrap hcl hco hc

theorem expiresExactly_setExpiring {name n : Bytes} {rest : List Bytes} {unit k : Int} {v : Value} (hcl : -2 ^ 63 ≤ r.nowMilli ∧ r.nowMilli < 2 ^ 63)
    (hc : c ≠ .set) (hn : parseInt64 n = some k)
    (ho : ((cmdSetExpiring r name unit (key :: n :: rest)).run (ksStep r.fastNow) ks).1 = .ok (v, true)) :
    ExpiresExactly r.nowMilli r.nowMilli (k * unit) ((cmdSetExpiring r name unit (key :: n :: rest)).run (ksStep r.fastNow) ks).2 key ↔
      c.TTLFits r.nowMilli (k * unit) := by
  rcases rest with _ | ⟨val, rest⟩
  · cases ho
  simp only [cmdSetExpiring, hn] at ho ⊢
  split at ho
  · cases ho
  · rw [if_neg ‹_›, wrap64_add_wrap64, Prog.run_bind]
    have hs := (content_run_set r.fastNow ks key (.string val) (wrap64 (r.nowMilli + k * unit)) key).trans (if_pos rfl)
    exact expiresExactly_iff_of_wrap (d := .string val) hcl hs hc

theorem asked_cons {unit : Int} (h : (match args with
    | key :: n :: _ => (parseInt64 n).map fun n => (key, n * unit)
    | _ => none) = some (key, ttl)) : ∃ n rest k, args = key :: n :: rest ∧ parseInt64 n = some k ∧ ttl = k * unit := by
  rcases args with _ | ⟨key', _ | ⟨n, rest⟩⟩
  · cases h
  · cases h
  · obtain ⟨k, hk, heq⟩ := map_eq_some_iff.1 h
    cases heq
    exact ⟨n, rest, k, rfl, hk, rfl⟩

/-- A command that is carried out gives the key the time to live that it asks for just if the numbers fit. -/
theorem expires_exactly_iff {v : Value} (hc : -2 ^ 63 ≤ c.clock r ∧ c.clock r < 2 ^ 63)
    (ha : c.askedTTL rt args = some (key, ttl)) (ho : ((c.action rt r args).run r.fastNow ks).1 = .ok (v, true)) :
    ExpiresExactly (c.clock r) (c.clock r) ttl ((c.action rt r args).run r.fastNow ks).2 key ↔ c.TTLFits (c.clock r) ttl := by
  cases c <;> try cases ha
  case set => exact expiresExactly_set hc ha ho
  case setex | psetex =>
    obtain ⟨n, rest, k, rfl, hk, rfl⟩ := asked_cons ha
    exact expiresExactly_setExpiring hc (by decide) hk ho
  case expire | pexpire =>
    obtain ⟨n, rest, k, rfl, hk, rfl⟩ := asked_cons ha
    exact expiresExactly_expire hc (by decide) hk ho

/-- `SET … EX` with the largest number stores no expiry, and `EXPIRE` with a time before 1970 leaves a key that never expires. -/
theorem expiry_not_exact :
    (let x := (DataCmd.set.action .plain (.plain 1) [lit "k", lit "v", lit "EX", lit "9223372036854775807"]).run 1 .empty
     x.1 = .ok (ok, true) ∧ ¬ExpiresExactly 1 1 (9223372036854775807 * 1000) x.2 (lit "k")) ∧
    (let x := (DataCmd.expire.action .plain (.plain 1) [lit "k", lit "-1"]).run 1 ((DataCmd.set.action .plain (.plain 1) [lit "k", lit "v"]).run 1 .empty).2
     x.1 = .ok (.integer 1, true) ∧ ¬ExpiresExactly 1 1 (-1000) x.2 (lit "k")) := by
  refine ⟨⟨rfl, fun h => ?_⟩, rfl, fun h => ?_⟩
  · rw [ExpiresExactly, if_neg (by decide)] at h
    exact absurd (h.1.symm.trans (show _ = some 0 from rfl)) (by decide)
  · rw [ExpiresExactly, if_pos (by decide)] at h
    cases h

theorem expires_exactly_ten :
    ExpiresExactly 5 5 10000 ((DataCmd.set.action .plain (.plain 5) [lit "k", lit "v", lit "EX", lit "10"]).run 5 .empty).2 (lit "k") :=
  (@expires_exactly_iff .plain (.plain 5) _ _ .set _ _ ok (by decide) rfl rfl).2 (by
    rw [DataCmd.TTLFits, if_neg (by decide)]
    decide)

end

end VortexKV
