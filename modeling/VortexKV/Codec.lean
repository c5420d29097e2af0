import Mathlib.Data.Nat.Basic
import Mathlib.Tactic.Ring

/-!
# Decoders

A decoder takes a value off the front of some bytes, or fails. `Reads d bs a`: from `bs` and whatever follows, `d` takes the
value `a` and stops right behind `bs`; its rules follow the way a decoder is put together. `Shrinks d`: what is left is not
longer. The numbers are those of Go's `encoding/binary`.
-/

namespace Codec

open List

abbrev Decoder (ε α : Type) := StateT (List UInt8) (Except ε) α

section

variable {ε α β σ : Type}

/-- The decoder takes `a` off the front of the bytes `bs`. -/
def Reads (d : Decoder ε α) (bs : List UInt8) (a : α) : Prop := ∀ rest, d.run (bs ++ rest) = .ok (a, rest)

def Shrinks (d : Decoder ε α) : Prop := ∀ s a s', d.run s = .ok (a, s') → s'.length ≤ s.length

def times (d : Decoder ε α) : Nat → Decoder ε (List α)
  | 0 => pure []
  | n + 1 => do
    let a ← d
    let as ← times d n
    return a :: as

def loop (step : σ → Decoder ε σ) : Nat → σ → Decoder ε σ
  | 0, acc => pure acc
  | n + 1, acc => do
    let acc ← step acc
    loop step n acc

theorem run_bind_ok {d : Decoder ε α} {f : α → Decoder ε β} {s s' : List UInt8} {b : β} (h : (d >>= f).run s = .ok (b, s')) :
    ∃ a s₁, d.run s = .ok (a, s₁) ∧ (f a).run s₁ = .ok (b, s') := by
  rw [StateT.run_bind] at h
  cases hd : d.run s with
  | error e =>
    rw [hd] at h
    cases h
  | ok x =>
    rw [hd] at h
    exact ⟨x.1, x.2, rfl, h⟩

theorem Reads.pure (a : α) : Reads (pure a : Decoder ε α) [] a := fun _ => rfl

theorem Reads.bind {d : Decoder ε α} {f : α → Decoder ε β} {bs bs' : List UInt8} {a : α} {b : β} (hd : Reads d bs a)
    (hf : Reads (f a) bs' b) : Reads (d >>= f) (bs ++ bs') b := by
  intro rest
  rw [StateT.run_bind, append_assoc, hd]
  exact hf rest

theorem Reads.bind_nil {d : Decoder ε α} {f : α → Decoder ε β} {bs : List UInt8} {a : α} {b : β} (hd : Reads d [] a) (hf : Reads (f a) bs b) :
    Reads (d >>= f) bs b := hd.bind hf

theorem Reads.then {d : Decoder ε α} {f : α → β} {bs : List UInt8} {a : α} (hd : Reads d bs a) :
    Reads (d >>= fun a => Pure.pure (f a)) bs (f a) := by
  have h : Reads (d >>= fun a => Pure.pure (f a)) (bs ++ []) (f a) := hd.bind (Reads.pure (f a))
  rwa [append_nil] at h

theorem Reads.times {d : Decoder ε α} {enc : β → List UInt8} {val : β → α} {bs : List β} (h : ∀ b ∈ bs, Reads d (enc b) (val b)) :
    Reads (times d bs.length) (bs.flatMap enc) (bs.map val) := by
  induction bs with
  | nil => exact Reads.pure []
  | cons b bs ih =>
    rw [flatMap_cons]
    exact (h b mem_cons_self).bind (ih fun b hb => h b (mem_cons_of_mem _ hb)).then

theorem Reads.loop {step : σ → Decoder ε σ} {enc : β → List UInt8} {g : σ → β → σ} {bs : List β}
    (h : ∀ acc, ∀ b ∈ bs, Reads (step acc) (enc b) (g acc b)) (acc : σ) : Reads (loop step bs.length acc) (bs.flatMap enc) (bs.foldl g acc) := by
  induction bs generalizing acc with
  | nil => exact Reads.pure acc
  | cons b bs ih =>
    rw [flatMap_cons]
    exact (h acc b mem_cons_self).bind (ih (fun acc b hb => h acc b (mem_cons_of_mem _ hb)) _)

theorem Shrinks.pure (a : α) : Shrinks (pure a : Decoder ε α) := by
  intro s a s' h
  cases h
  exact le_rfl

theorem Shrinks.bind {d : Decoder ε α} {f : α → Decoder ε β} (hd : Shrinks d) (hf : ∀ a, Shrinks (f a)) : Shrinks (d >>= f) := by
  intro s b s' h
  obtain ⟨a, s₁, h₁, h₂⟩ := run_bind_ok h
  exact (hf a s₁ b s' h₂).trans (hd s a s₁ h₁)

theorem Shrinks.times {d : Decoder ε α} (hd : Shrinks d) (n : Nat) : Shrinks (times d n) := by
  induction n with
  | zero => exact .pure []
  | succ n ih => exact hd.bind fun a => ih.bind fun as => .pure _

theorem Shrinks.loop {step : σ → Decoder ε σ} (hstep : ∀ acc, Shrinks (step acc)) (n : Nat) (acc : σ) : Shrinks (loop step n acc) := by
  induction n generalizing acc with
  | zero => exact .pure acc
  | succ n ih => exact (hstep acc).bind ih

end

/-! ### Numbers of fixed width -/

/-- The low `k` bytes of a number, the lowest first. -/
def leBytes : Nat → Nat → List UInt8
  | 0, _ => []
  | k + 1, n => n.toUInt8 :: leBytes k (n / 256)

def ofLE : List UInt8 → Nat
  | [] => 0
  | b :: s => b.toNat + 256 * ofLE s

@[simp] theorem length_leBytes (k n : Nat) : (leBytes k n).length = k := by
  induction k generalizing n with
  | zero => rfl
  | succ k ih => rw [leBytes, length_cons, ih]

theorem ofLE_leBytes {k n : Nat} (h : n < 256 ^ k) : ofLE (leBytes k n) = n := by
  induction k generalizing n with
  | zero =>
    rw [pow_zero] at h
    simp only [leBytes, ofLE]
    omega
  | succ k ih =>
    rw [pow_succ] at h
    have hb : n.toUInt8.toNat = n % 256 := by rw [Nat.toUInt8, UInt8.toNat_ofNat']
    rw [leBytes, ofLE, ih (by omega), hb]
    omega

/-! ### Numbers of variable length -/

/-- `binary.PutUvarint`: seven bits in each byte, of at most ten. -/
def putUvarintLoop : Nat → Nat → List UInt8
  | 0, _ => []
  | k + 1, n => if n < 128 then [n.toUInt8] else (n % 128 + 128).toUInt8 :: putUvarintLoop k (n / 128)

def putUvarint (n : Nat) : List UInt8 := putUvarintLoop 10 n

inductive VarintError
  | eof
  | unexpectedEOF
  | overflow
deriving DecidableEq, Repr

/-- The loop of `binary.ReadUvarint`, with the number of bytes that may come. The bytes are gone after an error, too. -/
def readUvarintLoop : Nat → Nat → Nat → List UInt8 → Except VarintError Nat × List UInt8
  | 0, _, _, s => (.error .overflow, s)
  | k + 1, _, _, [] => (.error (if k = 9 then .eof else .unexpectedEOF), [])
  | k + 1, shift, x, b :: s =>
    if b < 128 then if k = 0 ∧ b > 1 then (.error .overflow, s) else (.ok (x + b.toNat * 2 ^ shift), s)
    else readUvarintLoop k (shift + 7) (x + b.toNat % 128 * 2 ^ shift) s

def readUvarint (s : List UInt8) : Except VarintError Nat × List UInt8 := readUvarintLoop 10 0 0 s

theorem readUvarintLoop_put {k n : Nat} (hk : 0 < k) (hn : n < 2 * 128 ^ (k - 1)) (shift x : Nat) (s : List UInt8) :
    readUvarintLoop k shift x (putUvarintLoop k n ++ s) = (.ok (x + n * 2 ^ shift), s) := by
  induction k generalizing n shift x with
  | zero => omega
  | succ k ih =>
    have hby : ∀ m : Nat, m < 256 → m.toUInt8.toNat = m := by
      intro m hm
      rw [Nat.toUInt8, UInt8.toNat_ofNat']
      omega
    unfold putUvarintLoop
    split
    · rename_i hlt
      have hb : n.toUInt8 < 128 := UInt8.lt_iff_toNat_lt.2 (by rw [hby n (by omega)]; exact hlt)
      have hs : ¬ (k = 0 ∧ n.toUInt8 > 1) := by
        rintro ⟨rfl, hgt⟩
        have hgt : (1 : UInt8).toNat < n.toUInt8.toNat := UInt8.lt_iff_toNat_lt.1 hgt
        rw [hby n (by omega)] at hgt
        change 1 < n at hgt
        simp at hn
        omega
      rw [cons_append, readUvarintLoop, if_pos hb, if_neg hs, hby n (by omega)]
      rfl
    · obtain _ | k := k
      · simp at hn
        omega
      have hb : ¬ (n % 128 + 128).toUInt8 < 128 := fun hlt => by
        have hlt : (n % 128 + 128).toUInt8.toNat < (128 : UInt8).toNat := UInt8.lt_iff_toNat_lt.1 hlt
        rw [hby _ (by omega)] at hlt
        change n % 128 + 128 < 128 at hlt
        omega
      rw [cons_append, readUvarintLoop, if_neg hb, hby _ (by omega), ih (by omega)]
      · have hd := Nat.div_add_mod n 128
        have hmo : (n % 128 + 128) % 128 = n % 128 := by omega
        have hsu : x + (n % 128 + 128) % 128 * 2 ^ shift + n / 128 * 2 ^ (shift + 7) = x + n * 2 ^ shift := by
          rw [hmo]
          conv_rhs => rw [← hd]
          rw [pow_add]
          ring
        rw [hsu]
      · have hp : 128 ^ (k + 1 + 1 - 1) = 128 * 128 ^ (k + 1 - 1) := by
          rw [Nat.add_sub_cancel, Nat.add_sub_cancel, pow_succ, Nat.mul_comm]
        omega

theorem readUvarint_put {n : Nat} (hn : n < 2 ^ 64) (s : List UInt8) : readUvarint (putUvarint n ++ s) = (.ok n, s) := by
  have h := readUvarintLoop_put (k := 10) (n := n) (by omega) (by norm_num; omega) 0 0 s
  rwa [Nat.zero_add, pow_zero, Nat.mul_one] at h

theorem length_readUvarintLoop (k shift x : Nat) (s : List UInt8) : (readUvarintLoop k shift x s).2.length ≤ s.length := by
  induction k generalizing shift x s with
  | zero => exact le_rfl
  | succ k ih =>
    cases s with
    | nil => exact le_rfl
    | cons b s =>
      unfold readUvarintLoop
      split_ifs
      · exact Nat.le_succ _
      · exact Nat.le_succ _
      · exact (ih _ _ s).trans (Nat.le_succ _)

theorem length_readUvarint (s : List UInt8) : (readUvarint s).2.length ≤ s.length := length_readUvarintLoop 10 0 0 s

end Codec
