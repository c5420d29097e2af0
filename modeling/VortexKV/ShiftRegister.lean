import Mathlib.Logic.Function.Iterate
import Mathlib.Data.List.Basic

/-!
# Division of bit strings by a polynomial

A register of width `w` holds a polynomial over the field of two elements modulo `x ^ w + p`. Multiplication by `x` is `shift`,
and `feed` reads bits from the highest power down, each of them worth `c`. With `c = p` this is the remainder of a cyclic
redundancy check.
-/

namespace ShiftRegister

variable {v w : Nat} {p q c s t : BitVec w} {bits bits' : List Bool}

def shift (p s : BitVec w) : BitVec w := (s <<< 1) ^^^ bif s.msb then p else 0#w

def feed (p c : BitVec w) : BitVec w → List Bool → BitVec w := List.foldl fun s b => shift p s ^^^ bif b then c else 0#w

def divide (p : BitVec w) (bits : List Bool) : BitVec w := feed p p 0#w bits

/-- The bits at the top of a register, the first one highest. -/
def align (w : Nat) : List Bool → BitVec w
  | [] => 0#w
  | b :: bits => (align w bits >>> 1) ^^^ bif b then BitVec.twoPow w (w - 1) else 0#w

theorem cond_xor (a b : Bool) (c : BitVec w) :
    (bif a ^^ b then c else 0#w) = (bif a then c else 0#w) ^^^ bif b then c else 0#w := by
  cases a <;> cases b <;> simp

theorem shift_xor (p s t : BitVec w) : shift p (s ^^^ t) = shift p s ^^^ shift p t := by
  simp only [shift, BitVec.msb_xor, BitVec.shiftLeft_xor_distrib, cond_xor]
  ac_rfl

theorem shift_zero (p : BitVec w) : shift p 0#w = 0#w := by simp [shift]

theorem getLsbD_shift (p s : BitVec w) (i : Nat) :
    (shift p s).getLsbD i = ((decide (0 < i ∧ i < w) && s.getLsbD (i - 1)) ^^ (s.msb && p.getLsbD i)) := by
  rw [shift, BitVec.getLsbD_xor, BitVec.getLsbD_shiftLeft]
  congr 1
  · rcases Nat.eq_zero_or_pos i with rfl | hi
    · simp
    · simp [hi, Nat.ne_of_gt hi]
  · cases s.msb <;> simp

theorem shift_injective (hp : p.getLsbD 0 = true) : Function.Injective (shift p) := by
  intro s t h
  have hz : shift p (s ^^^ t) = 0#w := by rw [shift_xor, h, BitVec.xor_self]
  rw [← BitVec.xor_eq_zero_iff]
  generalize s ^^^ t = d at hz
  have hb : ∀ i, (shift p d).getLsbD i = false := by simp [hz]
  have hm : d.msb = false := by simpa [getLsbD_shift, hp] using hb 0
  refine BitVec.eq_of_getLsbD_eq fun i hi => ?_
  by_cases hl : i + 1 < w
  · have hi := hb (i + 1)
    rw [getLsbD_shift] at hi
    simpa [hm, hl] using hi
  · rw [BitVec.msb_eq_getLsbD_last, show w - 1 = i by omega] at hm
    simp [hm]

theorem iterate_shift_xor (n : Nat) (s t : BitVec w) : (shift p)^[n] (s ^^^ t) = (shift p)^[n] s ^^^ (shift p)^[n] t := by
  induction n generalizing s t with
  | zero => rfl
  | succ n ih => rw [Function.iterate_succ_apply, shift_xor, ih]; rfl

/-- Bits below the top are moved up unchanged. -/
theorem iterate_shift_low {n : Nat} (h : ∀ i < n, s.getMsbD i = false) : (shift p)^[n] s = s <<< n := by
  induction n generalizing s with
  | zero => simp
  | succ n ih =>
    have h0 : s.msb = false := by simpa [BitVec.msb] using h 0 (Nat.succ_pos n)
    have hs : shift p s = s <<< 1 := by simp [shift, h0]
    rw [Function.iterate_succ_apply, hs, ih, ← BitVec.shiftLeft_add, Nat.add_comm]
    intro i hi
    simp [BitVec.getMsbD_shiftLeft, h (i + 1) (Nat.succ_lt_succ hi)]

theorem reverse_xor (s t : BitVec w) : (s ^^^ t).reverse = s.reverse ^^^ t.reverse := by
  refine BitVec.eq_of_getMsbD_eq fun i hi => ?_
  simp [BitVec.getMsbD_reverse]

theorem reverse_reverse (s : BitVec w) : s.reverse.reverse = s := by
  refine BitVec.eq_of_getMsbD_eq fun i hi => ?_
  rw [BitVec.getMsbD_reverse, BitVec.getLsbD_reverse]

/-! ### Bits that fit into the register -/

theorem getMsbD_align {n : Nat} (hn : n < w) (bits : List Bool) : (align w bits).getMsbD n = bits.getD n false := by
  induction bits generalizing n with
  | nil => simp [align]
  | cons b bits ih =>
    have htop : (BitVec.twoPow w (w - 1)).getMsbD n = decide (n = 0) := by
      rw [BitVec.getMsbD_eq_getLsbD, BitVec.getLsbD_twoPow]
      simp only [hn, decide_true, Bool.true_and]
      by_cases h0 : n = 0
      · subst h0
        simp
        omega
      · simp [h0]
        omega
    rw [align, BitVec.getMsbD_xor, BitVec.getMsbD_ushiftRight]
    cases n with
    | zero => cases b <;> simp [htop]
    | succ n => cases b <;> simp [htop, hn, ih (Nat.lt_of_succ_lt hn)]

theorem shift_top (p : BitVec w) : shift p (BitVec.twoPow w (w - 1)) = p := by
  refine BitVec.eq_of_getLsbD_eq fun i hi => ?_
  have hm : (BitVec.twoPow w (w - 1)).msb = true := by
    rw [BitVec.msb_twoPow]
    simp
    omega
  rw [getLsbD_shift, hm, BitVec.getLsbD_twoPow]
  have hne : ¬ (w - 1 = i - 1 ∧ 0 < i) := by omega
  by_cases h0 : 0 < i
  · simp [h0, show ¬ w - 1 = i - 1 by omega]
  · simp [h0]

theorem shift_align (h : bits.length < w) : shift p (align w bits >>> 1) = align w bits := by
  refine BitVec.eq_of_getMsbD_eq fun i hi => ?_
  rw [shift, show (align w bits >>> 1).msb = false by simp]
  by_cases hl : i + 1 < w
  · simp [hl]
  · simp [hl, getMsbD_align hi, List.getElem?_eq_none (show bits.length ≤ i by omega)]

theorem feed_eq (h : bits.length ≤ w) (s : BitVec w) : feed p p s bits = (shift p)^[bits.length] (s ^^^ align w bits) := by
  induction bits generalizing s with
  | nil => simp [feed, align]
  | cons b bits ih =>
    have hb : shift p (bif b then BitVec.twoPow w (w - 1) else 0#w) = bif b then p else 0#w := by
      cases b
      · exact shift_zero p
      · exact shift_top p
    calc feed p p s (b :: bits) = feed p p (shift p s ^^^ bif b then p else 0#w) bits := rfl
      _ = (shift p)^[bits.length] ((shift p s ^^^ bif b then p else 0#w) ^^^ align w bits) := ih (Nat.le_of_succ_le h) _
      _ = (shift p)^[bits.length] (shift p (s ^^^ align w (b :: bits))) := by
        rw [align, shift_xor, shift_xor, shift_align h, hb]
        ac_rfl

/-! ### What the remainder tells -/

theorem feed_append (p c s : BitVec w) (bits bits' : List Bool) : feed p c s (bits ++ bits') = feed p c (feed p c s bits) bits' :=
  List.foldl_append

theorem feed_injective (hp : p.getLsbD 0 = true) (bits : List Bool) : Function.Injective fun s => feed p c s bits := by
  induction bits with
  | nil => exact fun _ _ h => h
  | cons b bits ih => exact fun s t h => shift_injective hp (BitVec.xor_left_inj _ |>.1 (ih h))

theorem bits_of_feed (hp : p.getLsbD 0 = true) (hl : bits.length = bits'.length) (hw : bits.length ≤ w)
    (h : feed p p s bits = feed p p s bits') : bits = bits' := by
  rw [feed_eq hw, feed_eq (hl ▸ hw), hl] at h
  have ha := (BitVec.xor_right_inj s).1 ((shift_injective hp).iterate _ h)
  refine List.ext_getElem hl fun i hi hi' => ?_
  have hg : (align w bits).getMsbD i = (align w bits').getMsbD i := by rw [ha]
  rw [getMsbD_align (Nat.lt_of_lt_of_le hi hw), getMsbD_align (Nat.lt_of_lt_of_le hi hw)] at hg
  simpa [hi, hi'] using hg

/-! ### Linear maps -/

theorem map_feed {f : BitVec v → BitVec w} {r c : BitVec v} (hx : ∀ s t, f (s ^^^ t) = f s ^^^ f t)
    (hs : ∀ s, f (shift r s) = shift p (f s)) (s : BitVec v) (bits : List Bool) : f (feed r c s bits) = feed p (f c) (f s) bits := by
  have h0 : f 0#v = 0#w := by simpa using hx 0#v 0#v
  induction bits generalizing s with
  | nil => rfl
  | cons b bits ih =>
    refine (ih _).trans (congrArg (feed p (f c) · bits) ?_)
    rw [hx, hs]
    cases b <;> simp [h0]

theorem feed_xor {ι : Type} (p c : BitVec w) (f g : ι → Bool) (l : List ι) (s t : BitVec w) :
    feed p c (s ^^^ t) (l.map fun i => f i ^^ g i) = feed p c s (l.map f) ^^^ feed p c t (l.map g) := by
  induction l generalizing s t with
  | nil => rfl
  | cons i l ih =>
    refine Eq.trans (congrArg (feed p c · (l.map fun i => f i ^^ g i)) ?_) (ih _ _)
    beta_reduce
    rw [shift_xor, cond_xor]
    ac_rfl

/-- The product of `c` with the polynomial of `t`. -/
def product (p c : BitVec w) (t : BitVec v) : BitVec w := feed p c 0#w ((List.range v).map t.getMsbD)

theorem product_xor (p c : BitVec w) (s t : BitVec v) : product p c (s ^^^ t) = product p c s ^^^ product p c t := by
  have hb : (s ^^^ t).getMsbD = fun i => s.getMsbD i ^^ t.getMsbD i := funext fun i => BitVec.getMsbD_xor
  simpa [product, hb] using feed_xor p c s.getMsbD t.getMsbD (List.range v) 0#w 0#w

theorem product_zero (p c : BitVec w) : product p c 0#v = 0#w := by simpa using product_xor p c 0#v 0#v

/-- A linear map that vanishes on the powers vanishes. -/
theorem eq_zero_of_powers {f : BitVec v → BitVec w} (hx : ∀ s t, f (s ^^^ t) = f s ^^^ f t)
    (hp : ∀ i < v, f (BitVec.twoPow v i) = 0#w) (s : BitVec v) : f s = 0#w := by
  have h0 : f 0#v = 0#w := by simpa using hx 0#v 0#v
  suffices ∀ n ≤ v, ∀ s : BitVec v, (∀ i, n ≤ i → s.getLsbD i = false) → f s = 0#w from
    this v (Nat.le_refl v) s fun i hi => BitVec.getLsbD_of_ge s i hi
  intro n hn
  induction n with
  | zero =>
    intro s hs
    rwa [show s = 0#v from BitVec.eq_of_getLsbD_eq fun i _ => by simp [hs i (Nat.zero_le i)]]
  | succ n ih =>
    intro s hs
    by_cases hb : s.getLsbD n = true
    · have hr : f (s ^^^ BitVec.twoPow v n) = 0#w := by
        refine ih (by omega) _ fun i hi => ?_
        rcases Nat.eq_or_lt_of_le hi with rfl | hlt
        · simp [hb, BitVec.getLsbD_twoPow]
          omega
        · simp [hs i hlt, BitVec.getLsbD_twoPow]
          omega
      rwa [hx, hp n (by omega), BitVec.xor_zero] at hr
    · refine ih (by omega) s fun i hi => ?_
      rcases Nat.eq_or_lt_of_le hi with rfl | hlt
      · simpa using hb
      · exact hs i hlt

end ShiftRegister
