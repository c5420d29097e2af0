import Mathlib.Data.Nat.Digits.Defs
import Mathlib.Data.Nat.Digits.Lemmas

/-!
# Go strings and their conversions

A Go `string` is any sequence of bytes. `lit` reads an ASCII literal, `parseInt64` / `parseUint64`
are `strconv.ParseInt(s, 10, 64)` / `strconv.ParseUint(s, 10, 64)` (`none` for an error of either
kind), `formatInt` is `strconv.FormatInt(n, 10)`, and `toUpper` is `strings.ToUpper`, whose case
table beyond ASCII is a parameter (`Unicode`).
-/

namespace VortexKV

open List Option

theorem Except.bind_eq_ok {ε α β : Type} {x : Except ε α} {f : α → Except ε β} {r : β}
    (h : x.bind f = .ok r) : ∃ a, x = .ok a ∧ f a = .ok r := by
  cases x with
  | error e => cases h
  | ok a => exact ⟨a, rfl, h⟩

theorem Except.map_eq_ok {ε α β : Type} {x : Except ε α} {f : α → β} {r : β} (h : x.map f = .ok r) : ∃ a, x = .ok a ∧ f a = r := by
  cases x with
  | error s => cases h
  | ok a => exact ⟨a, rfl, Except.ok.inj h⟩

/-- A Go `string` or `[]byte`. -/
abbrev Bytes := List UInt8

-- One constant for the instance, so that no definition carries a proof of its own.
instance : LawfulBEq Bytes := inferInstance

def lit (s : String) : Bytes := s.toList.map fun c => c.toNat.toUInt8

instance : Coe String Bytes := ⟨lit⟩

/-- The value a Go `int64` computation wraps to. -/
def wrap64 (n : Int) : Int := n.bmod (2 ^ 64)

/-! ### Decimal numerals -/

def digitVal (c : UInt8) : Option Nat :=
  if 48 ≤ c.toNat ∧ c.toNat ≤ 57 then some (c.toNat - 48) else none

/-- The value of a digit string, most significant digit first, on top of `acc`. -/
def parseDigits (acc : Nat) : Bytes → Option Nat
  | [] => some acc
  | c :: s => (digitVal c).bind fun d => parseDigits (10 * acc + d) s

def parseDec (s : Bytes) : Option Nat := if s = [] then none else parseDigits 0 s

/-- `strconv.ParseUint(s, 10, 64)`. -/
def parseUint64 (s : Bytes) : Option Nat :=
  (parseDec s).bind fun n => if n < 2 ^ 64 then some n else none

/-- `strconv.ParseInt(s, 10, 64)` and, `int` having 64 bits, `strconv.Atoi`. -/
def parseInt64 (s : Bytes) : Option Int :=
  match s with
  | 43 :: ds => (parseDec ds).bind fun n => if n < 2 ^ 63 then some (n : Int) else none
  | 45 :: ds => (parseDec ds).bind fun n => if n ≤ 2 ^ 63 then some (-(n : Int)) else none
  | ds => (parseDec ds).bind fun n => if n < 2 ^ 63 then some (n : Int) else none

def formatUint (n : Nat) : Bytes :=
  if n = 0 then [48] else (Nat.digits 10 n).reverse.map fun d => (48 + d).toUInt8

/-- `strconv.FormatInt(n, 10)`. -/
def formatInt (n : Int) : Bytes :=
  if n < 0 then 45 :: formatUint n.natAbs else formatUint n.natAbs

theorem digitVal_digit {d : Nat} (hd : d < 10) : digitVal (48 + d).toUInt8 = some d := by
  have h : ((48 + d).toUInt8).toNat = 48 + d := by
    rw [Nat.toUInt8, UInt8.toNat_ofNat']; omega
  rw [digitVal, h, if_pos (by omega)]
  congr 1; omega

theorem parseDigits_append (acc : Nat) (s t : Bytes) :
    parseDigits acc (s ++ t) = (parseDigits acc s).bind fun n => parseDigits n t := by
  induction s generalizing acc with
  | nil => rfl
  | cons c s ih =>
    simp only [cons_append, parseDigits]
    cases digitVal c with
    | none => rfl
    | some d => simp only [bind_some, ih]

/-- Reading back the digits of a numeral, least significant first. -/
theorem parseDigits_digits (ds : List Nat) (hds : ∀ d ∈ ds, d < 10) (acc : Nat) :
    parseDigits acc (ds.reverse.map fun d => (48 + d).toUInt8) =
      some (acc * 10 ^ ds.length + Nat.ofDigits 10 ds) := by
  induction ds generalizing acc with
  | nil => simp [parseDigits]
  | cons d ds ih =>
    rw [reverse_cons, map_append, parseDigits_append,
      ih (fun x hx => hds x (mem_cons_of_mem _ hx))]
    simp only [map_cons, map_nil, bind_some, parseDigits,
      digitVal_digit (hds d mem_cons_self), Nat.ofDigits_cons, length_cons, Option.some.injEq,
      pow_succ]
    ring

theorem formatUint_ne_nil (n : Nat) : formatUint n ≠ [] := by
  unfold formatUint
  split
  · simp
  · simp [Nat.digits_ne_nil_iff_ne_zero, *]

theorem parseDec_formatUint (n : Nat) : parseDec (formatUint n) = some n := by
  rw [parseDec, if_neg (formatUint_ne_nil n)]
  unfold formatUint
  split
  · subst n; rfl
  · rw [parseDigits_digits _ (fun d hd => Nat.digits_lt_base (by decide) hd)]
    simp [Nat.ofDigits_digits]

theorem digits_of_parseDigits {s : Bytes} {acc n : Nat} (h : parseDigits acc s = some n) : ∀ c ∈ s, 48 ≤ c.toNat ∧ c.toNat ≤ 57 := by
  induction s generalizing acc with
  | nil => exact nofun
  | cons c s ih =>
    rw [parseDigits] at h
    obtain ⟨d, hd, h⟩ := bind_eq_some_iff.1 h
    unfold digitVal at hd
    split at hd
    · exact forall_mem_cons.2 ⟨‹_›, ih h⟩
    · cases hd

theorem digits_of_parseDec {s : Bytes} {n : Nat} (h : parseDec s = some n) : ∀ c ∈ s, 48 ≤ c.toNat ∧ c.toNat ≤ 57 := by
  unfold parseDec at h
  split at h
  · cases h
  · exact digits_of_parseDigits h

theorem mem_formatUint {n : Nat} {c : UInt8} (h : c ∈ formatUint n) : 48 ≤ c.toNat ∧ c.toNat ≤ 57 :=
  digits_of_parseDec (parseDec_formatUint n) c h

theorem parseInt64_formatUint {n : Nat} (h : n < 2 ^ 63) : parseInt64 (formatUint n) = some (n : Int) := by
  have hd := fun c => mem_formatUint (n := n) (c := c)
  have hp := parseDec_formatUint n
  generalize formatUint n = s at hd hp
  unfold parseInt64
  split
  · exact absurd (hd 43 (by simp)).1 (by decide)
  · exact absurd (hd 45 (by simp)).1 (by decide)
  · rw [hp, bind_some, if_pos h]

theorem parseInt64_formatInt {n : Int} (hlo : -2 ^ 63 ≤ n) (hhi : n < 2 ^ 63) : parseInt64 (formatInt n) = some n := by
  unfold formatInt
  split
  · change (parseDec (formatUint n.natAbs)).bind (fun m => if m ≤ 2 ^ 63 then some (-(m : Int)) else none) = some n
    rw [parseDec_formatUint, bind_some, if_pos (by omega)]
    congr 1
    omega
  · rw [parseInt64_formatUint (by omega)]
    congr 1
    omega

theorem parseInt64_range {s : Bytes} {n : Int} (h : parseInt64 s = some n) : -2 ^ 63 ≤ n ∧ n < 2 ^ 63 := by
  unfold parseInt64 at h
  split at h
  all_goals
    obtain ⟨m, -, hm⟩ := bind_eq_some_iff.1 h
    split_ifs at hm
    cases hm
    omega

theorem mem_formatInt {n : Int} {c : UInt8} (h : c ∈ formatInt n) : c = 45 ∨ 48 ≤ c.toNat ∧ c.toNat ≤ 57 := by
  unfold formatInt at h
  split at h
  · rcases mem_cons.1 h with rfl | h
    · exact .inl rfl
    · exact .inr (mem_formatUint h)
  · exact .inr (mem_formatUint h)

example : formatInt (-1203) = lit "-1203" := by decide
example : parseInt64 "+12" = some 12 ∧ parseInt64 "9223372036854775808" = none := by decide

/-! ### UTF-8 and letter case -/

/-- `unicode.ToUpper` and `unicode.ToLower` on the runes beyond ASCII. -/
structure Unicode where
  toUpper : Nat → Nat
  toLower : Nat → Nat

def isCont (c : UInt8) : Bool := 0x80 ≤ c && c ≤ 0xBF

/-- `utf8.DecodeRune` on a non-empty string: the rune and its width; an invalid first byte is
`U+FFFD` of width one. -/
def decodeRune : Bytes → Nat × Nat
  | c0 :: rest =>
    if c0 < 0x80 then (c0.toNat, 1)
    else if 0xC2 ≤ c0 && c0 ≤ 0xDF then
      match rest with
      | c1 :: _ => if isCont c1 then ((c0.toNat - 0xC0) * 64 + (c1.toNat - 0x80), 2) else (0xFFFD, 1)
      | _ => (0xFFFD, 1)
    else if 0xE0 ≤ c0 && c0 ≤ 0xEF then
      match rest with
      | c1 :: c2 :: _ =>
        let r := (c0.toNat - 0xE0) * 4096 + (c1.toNat - 0x80) * 64 + (c2.toNat - 0x80)
        -- overlong forms and surrogates are invalid
        if isCont c1 && isCont c2 && decide (0x800 ≤ r) && !(decide (0xD800 ≤ r) && decide (r ≤ 0xDFFF))
        then (r, 3) else (0xFFFD, 1)
      | _ => (0xFFFD, 1)
    else if 0xF0 ≤ c0 && c0 ≤ 0xF4 then
      match rest with
      | c1 :: c2 :: c3 :: _ =>
        let r := (c0.toNat - 0xF0) * 262144 + (c1.toNat - 0x80) * 4096 + (c2.toNat - 0x80) * 64 +
          (c3.toNat - 0x80)
        if isCont c1 && isCont c2 && isCont c3 && decide (0x10000 ≤ r) && decide (r ≤ 0x10FFFF)
        then (r, 4) else (0xFFFD, 1)
      | _ => (0xFFFD, 1)
    else (0xFFFD, 1)
  | [] => (0xFFFD, 0)

/-- The runes of a string, as `for range` reads them; `fuel` is at least the length. -/
def decodeRunes : Nat → Bytes → List Nat
  | 0, _ => []
  | _, [] => []
  | fuel + 1, s => (decodeRune s).1 :: decodeRunes fuel (s.drop (max 1 (decodeRune s).2))

/-- `utf8.AppendRune`. -/
def encodeRune (r : Nat) : Bytes :=
  if r < 0x80 then [r.toUInt8]
  else if r < 0x800 then [(0xC0 + r / 64).toUInt8, (0x80 + r % 64).toUInt8]
  else if (0xD800 ≤ r ∧ r ≤ 0xDFFF) ∨ 0x10FFFF < r then [0xEF, 0xBF, 0xBD]
  else if r < 0x10000 then
    [(0xE0 + r / 4096).toUInt8, (0x80 + r / 64 % 64).toUInt8, (0x80 + r % 64).toUInt8]
  else
    [(0xF0 + r / 262144).toUInt8, (0x80 + r / 4096 % 64).toUInt8, (0x80 + r / 64 % 64).toUInt8,
      (0x80 + r % 64).toUInt8]

def isLower (c : UInt8) : Bool := 97 ≤ c && c ≤ 122

def isUpper (c : UInt8) : Bool := 65 ≤ c && c ≤ 90

def upperByte (c : UInt8) : UInt8 := if isLower c then c - 32 else c

def lowerByte (c : UInt8) : UInt8 := if isUpper c then c + 32 else c

/-- `strings.Map` of a case mapping that is `f` on ASCII and `g` elsewhere. -/
def mapCase (f : UInt8 → UInt8) (g : Nat → Nat) (s : Bytes) : Bytes :=
  if s.all (· < 0x80) then s.map f
  else (decodeRunes s.length s).flatMap fun r =>
    if r < 0x80 then [f r.toUInt8] else encodeRune (g r)

def toUpper (u : Unicode) (s : Bytes) : Bytes := mapCase upperByte u.toUpper s

def toLower (u : Unicode) (s : Bytes) : Bytes := mapCase lowerByte u.toLower s

/-- `ToUpperFast`: only a string with an ASCII lower-case letter is converted. -/
def toUpperFast (u : Unicode) (s : Bytes) : Bytes :=
  if s.any isLower then toUpper u s else s

theorem toUpper_ascii (u : Unicode) {s : Bytes} (h : s.all (· < 0x80) = true) :
    toUpper u s = s.map upperByte := by
  rw [toUpper, mapCase, if_pos h]

example (u : Unicode) : toUpperFast u "xAdd" = lit "XADD" := by
  rw [toUpperFast, if_pos (by decide), toUpper_ascii u (by decide)]; decide

end VortexKV
