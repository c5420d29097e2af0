import VortexKV.RdbCodec
import VortexKV.ShiftRegister

/-!
# Checksums and hash slots

Both tables hold what eight steps of a shift register make of a byte, so a loop over bytes is a division of their bits. The
snapshot's checksum finds every corruption within eight bytes (`updateCRC64_detects`), but it divides by the mirror image of
the polynomial that its name stands for (`crc64_is_jones_iff`). The cluster's slots are those of the specification (`keySlot_spec`).
-/

namespace VortexKV

open ShiftRegister

/-- The bits of a byte from the lowest to the highest. -/
def lowFirst (b : UInt8) : List Bool := (List.range 8).map b.toBitVec.getLsbD

def highFirst (b : UInt8) : List Bool := (List.range 8).map b.toBitVec.getMsbD

def updateCRC64 (crc : UInt64) (p : Bytes) : UInt64 := p.foldl (fun crc b => crc64Entry (crc.toUInt8 ^^^ b) ^^^ (crc >>> 8)) crc

theorem crc64_eq (data : Bytes) : crc64 data = updateCRC64 0 data := rfl

/-! ### One byte -/

/-- The mirror image of `crcPoly`. -/
def crcMirror : BitVec 64 := 0x95ac9329ac4bc9b5#64

theorem reverse_crcBit (crc : UInt64) : (crcBit crc).toBitVec.reverse = shift crcMirror crc.toBitVec.reverse := by
  have hb : crc &&& 1 ≠ 0 ↔ crc.toBitVec.getLsbD 0 = true := by
    rw [ne_eq, ← UInt64.toBitVec_inj, UInt64.toBitVec_and, show (1 : UInt64).toBitVec = 1#64 from rfl,
      BitVec.and_one_eq_setWidth_ofBool_getLsbD]
    cases crc.toBitVec.getLsbD 0 <;> decide
  have hs : (crc >>> 1).toBitVec.reverse = crc.toBitVec.reverse <<< 1 := by
    refine BitVec.eq_of_getMsbD_eq fun i hi => ?_
    simp only [UInt64.toBitVec_shiftRight, BitVec.getMsbD_reverse, BitVec.getMsbD_shiftLeft, BitVec.ushiftRight_eq',
      show ((1 : UInt64).toBitVec % 64).toNat = 1 from rfl, BitVec.getLsbD_ushiftRight, Nat.add_comm]
  unfold crcBit shift
  rw [BitVec.msb_reverse]
  split
  · rename_i h
    rw [hb.1 h, UInt64.toBitVec_xor, reverse_xor, hs, show crcPoly.toBitVec.reverse = crcMirror by decide +kernel, cond_true]
  · rename_i h
    rw [Bool.eq_false_iff.2 (mt hb.2 h), hs]
    simp

theorem reverse_crc64Entry (i : UInt8) :
    (crc64Entry i).toBitVec.reverse = (shift crcMirror)^[8] (i.toBitVec.setWidth 64).reverse := by
  have hs : Function.Semiconj (fun crc : UInt64 => crc.toBitVec.reverse) crcBit (shift crcMirror) := reverse_crcBit
  rw [crc64Entry, List.foldl_const]
  exact hs.iterate_right 8 i.toUInt64

theorem reverse_step (crc : UInt64) (b : UInt8) : (crc64Entry (crc.toUInt8 ^^^ b) ^^^ (crc >>> 8)).toBitVec.reverse =
    feed crcMirror crcMirror crc.toBitVec.reverse (lowFirst b) := by
  have hlow : ∀ i < 8, (crc.toBitVec.reverse <<< 8 >>> 8).getMsbD i = false := by
    intro i hi
    simp [hi]
  have hsplit : crc.toBitVec.reverse ^^^ align 64 (lowFirst b) =
      ((crc.toUInt8 ^^^ b).toBitVec.setWidth 64).reverse ^^^ (crc.toBitVec.reverse <<< 8 >>> 8) := by
    refine BitVec.eq_of_getMsbD_eq fun i hi => ?_
    rw [BitVec.getMsbD_xor, BitVec.getMsbD_xor, getMsbD_align hi]
    by_cases h8 : i < 8
    · simp [lowFirst, BitVec.getMsbD_reverse, h8, hi]
    · rw [Nat.not_lt] at h8
      simp [lowFirst, BitVec.getMsbD_reverse, Nat.not_lt.2 h8, hi, Nat.sub_add_cancel h8, BitVec.getLsbD_of_ge b.toBitVec i h8]
  rw [feed_eq (by simp [lowFirst]), hsplit, UInt64.toBitVec_xor, reverse_xor, reverse_crc64Entry]
  simp only [lowFirst, List.length_map, List.length_range, iterate_shift_xor, iterate_shift_low hlow]
  congr 1
  refine BitVec.eq_of_getMsbD_eq fun i hi => ?_
  by_cases h8 : i + 8 < 64
  · simp [BitVec.getMsbD_reverse, h8, Nat.add_comm]
  · simp [BitVec.getMsbD_reverse, h8, BitVec.getLsbD_of_ge crc.toBitVec (8 + i) (by omega)]

theorem reverse_updateCRC64 (crc : UInt64) (data : Bytes) :
    (updateCRC64 crc data).toBitVec.reverse = feed crcMirror crcMirror crc.toBitVec.reverse (data.flatMap lowFirst) := by
  induction data generalizing crc with
  | nil => rfl
  | cons b data ih =>
    rw [List.flatMap_cons, feed_append, ← reverse_step]
    exact ih _

/-! ### Corruption -/

theorem lowFirst_injective : Function.Injective lowFirst := by
  intro a b h
  refine UInt8.toBitVec_inj.1 (BitVec.eq_of_getLsbD_eq fun i hi => ?_)
  have hg : (lowFirst a)[i]? = (lowFirst b)[i]? := by rw [h]
  simpa [lowFirst, hi] using hg

theorem length_bits (data : Bytes) : (data.flatMap lowFirst).length = 8 * data.length := by
  induction data with
  | nil => rfl
  | cons b data ih =>
    rw [List.flatMap_cons, List.length_append, ih]
    simp [lowFirst]
    omega

theorem bits_injective : Function.Injective fun data : Bytes => data.flatMap lowFirst := by
  intro s t h
  induction s generalizing t with
  | nil =>
    have hl := congrArg List.length h
    simp only [length_bits] at hl
    exact (List.length_eq_zero_iff.1 (by simpa using hl.symm)).symm
  | cons a s ih =>
    cases t with
    | nil => simp [lowFirst, List.range_succ] at h
    | cons b t =>
      obtain ⟨hab, hst⟩ := List.append_inj (by simpa using h) (by simp [lowFirst])
      rw [lowFirst_injective hab, ih hst]

/-- Two strings that differ, but only within eight bytes, have different checksums, whatever the checksum starts from. -/
theorem updateCRC64_detects (crc : UInt64) (before after window window' : Bytes) (hl : window.length = window'.length)
    (h8 : window.length ≤ 8) (hne : window ≠ window') :
    updateCRC64 crc (before ++ window ++ after) ≠ updateCRC64 crc (before ++ window' ++ after) := by
  intro h
  have hp : crcMirror.getLsbD 0 = true := by decide
  have hr := congrArg (fun x : UInt64 => x.toBitVec.reverse) h
  simp only [reverse_updateCRC64, List.flatMap_append, feed_append] at hr
  refine hne (bits_injective (bits_of_feed hp ?_ ?_ (feed_injective hp _ hr)))
  · simp only [length_bits, hl]
  · rw [length_bits]
    omega

theorem updateCRC64_detects_bit : updateCRC64 0 ([1] ++ [2] ++ [3]) ≠ updateCRC64 0 ([1] ++ [3] ++ [3]) :=
  updateCRC64_detects 0 [1] [3] [2] [3] rfl (by decide) (by decide)

/-! ### The polynomial -/

/-- The checksum that Redis defines, bit by bit: the polynomial in normal order, input and output reflected. -/
def crc64Jones (data : Bytes) : UInt64 := ⟨(divide crcPoly.toBitVec (data.flatMap lowFirst)).reverse⟩

/-- The product of the polynomial and its mirror image. -/
def crcProduct : BitVec 128 := 0x6670b50b9ad91c623f03ed22f417f93d#128

/-- The remainder that the bits of the data, followed by 64 zeros, leave when they are divided by the product. -/
def crcRemainder (data : Bytes) : BitVec 128 := feed crcProduct (BitVec.twoPow 128 64) 0#128 (data.flatMap lowFirst)

def reduce (p : BitVec 64) (s : BitVec 128) : BitVec 64 := product p p (s.extractLsb' 64 64) ^^^ s.setWidth 64

theorem reduce_xor (p : BitVec 64) (s t : BitVec 128) : reduce p (s ^^^ t) = reduce p s ^^^ reduce p t := by
  simp only [reduce, BitVec.extractLsb'_xor, product_xor, BitVec.setWidth_xor]
  ac_rfl

/-- A factor of the product may be divided by later. -/
theorem reduce_crcRemainder {p : BitVec 64} (hc : reduce p (BitVec.twoPow 128 64) = p)
    (hs : ∀ i < 128, reduce p (shift crcProduct (BitVec.twoPow 128 i)) ^^^ shift p (reduce p (BitVec.twoPow 128 i)) = 0#64)
    (data : Bytes) : reduce p (crcRemainder data) = divide p (data.flatMap lowFirst) := by
  have hx : ∀ s, reduce p (shift crcProduct s) ^^^ shift p (reduce p s) = 0#64 := by
    refine eq_zero_of_powers (fun s t => ?_) hs
    rw [shift_xor, reduce_xor, reduce_xor, shift_xor]
    ac_rfl
  have h0 : reduce p 0#128 = 0#64 := by simpa using reduce_xor p 0#128 0#128
  rw [crcRemainder, map_feed (reduce_xor p) (fun s => BitVec.xor_eq_zero_iff.1 (hx s)), hc, h0]
  rfl

/-- The two polynomials are coprime: a multiple of one of them modulo the product undoes the difference. -/
theorem eq_zero_of_products {h : BitVec 64}
    (he : product crcMirror crcMirror h = product crcPoly.toBitVec crcPoly.toBitVec h) : h = 0#64 := by
  have hx : ∀ h : BitVec 64, (product crcProduct 0x3579093e228d9d38176e84cf743e65eb#128
      (product crcMirror crcMirror h ^^^ product crcPoly.toBitVec crcPoly.toBitVec h)).extractLsb' 64 64 ^^^ h = 0#64 := by
    refine eq_zero_of_powers (fun s t => ?_) (by decide +kernel)
    simp only [product_xor, BitVec.extractLsb'_xor]
    ac_rfl
  simpa [he, product_zero] using hx h

/-- The code's checksum is that of Redis for the data whose remainder by the product of both polynomials has a degree below 64. -/
theorem crc64_is_jones_iff (data : Bytes) : crc64 data = crc64Jones data ↔ (crcRemainder data).extractLsb' 64 64 = 0#64 := by
  have hm := reduce_crcRemainder (p := crcMirror) (by decide +kernel) (by decide +kernel) data
  have hp := reduce_crcRemainder (p := crcPoly.toBitVec) (by decide +kernel) (by decide +kernel) data
  have hr : (crc64 data).toBitVec.reverse = divide crcMirror (data.flatMap lowFirst) := by
    rw [crc64_eq, reverse_updateCRC64, show (0 : UInt64).toBitVec.reverse = 0#64 by decide +kernel]
    rfl
  calc crc64 data = crc64Jones data
      ↔ divide crcMirror (data.flatMap lowFirst) = divide crcPoly.toBitVec (data.flatMap lowFirst) := by
        rw [← hr, ← UInt64.toBitVec_inj]
        constructor
        · intro h
          rw [h]
          exact reverse_reverse _
        · intro h
          rw [crc64Jones, ← h, reverse_reverse]
    _ ↔ (crcRemainder data).extractLsb' 64 64 = 0#64 := by
        rw [← hm, ← hp, reduce, reduce, BitVec.xor_left_inj]
        exact ⟨eq_zero_of_products, fun h => by rw [h, product_zero, product_zero]⟩

/-- The checksum of the usual check string, and what it should be. -/
theorem crc64_not_jones : crc64 "123456789" = 0xcf228cf2176e85ed ∧ crc64Jones "123456789" = 0xe9c6d914c4b8d9ca := by
  decide +kernel

/-! ### Hash slots -/

/-- CRC-16/XMODEM, bit by bit. -/
def crc16Serial (data : Bytes) : UInt16 := ⟨divide 0x1021#16 (data.flatMap highFirst)⟩

theorem crc16Table_eq :
    crc16Table = (List.range 256).map fun i => ⟨(shift 0x1021#16)^[8] (BitVec.ofNat 16 i <<< 8)⟩ := by
  decide +kernel

theorem crc16Table_getD (i : UInt16) :
    (crc16Table.getD (i &&& 0x00FF).toNat 0).toBitVec = (shift 0x1021#16)^[8] (i.toBitVec <<< 8) := by
  have hn : (i &&& 0x00FF).toNat = i.toNat % 256 := by
    rw [UInt16.toNat_and]
    exact Nat.and_two_pow_sub_one_eq_mod _ 8
  have hlt : i.toNat % 256 < 256 := Nat.mod_lt _ (by decide)
  rw [hn, crc16Table_eq, List.getD_eq_getElem?_getD, List.getElem?_map, List.getElem?_range hlt]
  refine congrArg (shift 0x1021#16)^[8] (BitVec.eq_of_toNat_eq ?_)
  simp only [BitVec.toNat_shiftLeft, BitVec.toNat_ofNat, Nat.shiftLeft_eq, UInt16.toNat_toBitVec]
  omega

theorem crc16_step (crc : UInt16) (b : UInt8) :
    ((crc <<< (8 : UInt16)) ^^^ crc16Table.getD (((crc >>> 8) ^^^ b.toUInt16) &&& 0x00FF).toNat 0).toBitVec =
      feed 0x1021#16 0x1021#16 crc.toBitVec (highFirst b) := by
  have hlow : ∀ i < 8, (crc.toBitVec <<< 8 >>> 8).getMsbD i = false := by
    intro i hi
    simp [hi]
  have hsplit : crc.toBitVec ^^^ align 16 (highFirst b) =
      (crc.toBitVec <<< 8 >>> 8) ^^^ (((crc >>> 8) ^^^ b.toUInt16).toBitVec <<< 8) := by
    refine BitVec.eq_of_getMsbD_eq fun i hi => ?_
    rw [BitVec.getMsbD_xor, BitVec.getMsbD_xor, getMsbD_align hi]
    by_cases h8 : i < 8
    · simpa [highFirst, h8, hi] using fun _ => by omega
    · rw [Nat.not_lt] at h8
      simp [highFirst, Nat.not_lt.2 h8, hi, Nat.sub_add_cancel h8, BitVec.getMsbD_of_ge b.toBitVec i h8, show ¬ i + 8 < 16 by omega]
  rw [feed_eq (by simp [highFirst]), hsplit, UInt16.toBitVec_xor, crc16Table_getD]
  simp only [highFirst, List.length_map, List.length_range, iterate_shift_xor, iterate_shift_low hlow]
  congr 1
  refine BitVec.eq_of_getMsbD_eq fun i hi => ?_
  simpa using fun h => BitVec.lt_of_getMsbD h

theorem crc16_eq (data : Bytes) : crc16 data = crc16Serial data := by
  suffices h : ∀ crc : UInt16, (data.foldl (fun crc b => (crc <<< (8 : UInt16)) ^^^
      crc16Table.getD (((crc >>> 8) ^^^ b.toUInt16) &&& 0x00FF).toNat 0) crc).toBitVec =
      feed 0x1021#16 0x1021#16 crc.toBitVec (data.flatMap highFirst) from UInt16.toBitVec_inj.1 (h 0)
  induction data with
  | nil => exact fun _ => rfl
  | cons b data ih =>
    intro crc
    rw [List.flatMap_cons, feed_append, ← crc16_step]
    exact ih _

/-- The text between the first opening brace of the key and the first closing brace after it, unless that is empty. -/
def HasTag (key tag : Bytes) : Prop :=
  tag ≠ [] ∧ ∃ before after, key = before ++ 123 :: (tag ++ 125 :: after) ∧ 123 ∉ before ∧ 125 ∉ tag

theorem extractHashTag_of_hasTag {key tag : Bytes} (h : HasTag key tag) : extractHashTag key = tag := by
  obtain ⟨hne, before, after, rfl, hb, ht⟩ := h
  rw [extractHashTag, cutAt_append hb]
  dsimp only
  rw [cutAt_append ht]
  exact if_neg hne

theorem extractHashTag_of_untagged {key : Bytes} (h : ∀ tag, ¬ HasTag key tag) : extractHashTag key = key := by
  unfold extractHashTag
  split
  · rfl
  · rename_i before rest hb
    split
    · rfl
    · rename_i tag after ht
      obtain ⟨rfl, hbef⟩ := eq_of_cutAt hb
      obtain ⟨rfl, htag⟩ := eq_of_cutAt ht
      exact if_pos (by_contra fun hne => h tag ⟨hne, before, after, rfl, hbef, htag⟩)

theorem keySlot_eq (key : Bytes) : keySlot key = (crc16Serial (extractHashTag key)).toNat % 16384 := by
  rw [keySlot, crc16_eq, UInt16.toNat_and]
  exact Nat.and_two_pow_sub_one_eq_mod _ 14

/-- The slot of a key, by its tag if it has one. -/
theorem keySlot_spec (key : Bytes) :
    (∀ tag, HasTag key tag → keySlot key = (crc16Serial tag).toNat % 16384) ∧
    ((∀ tag, ¬ HasTag key tag) → keySlot key = (crc16Serial key).toNat % 16384) ∧
    ∀ key' tag, HasTag key tag → HasTag key' tag → keySlot key = keySlot key' := by
  refine ⟨fun tag h => ?_, fun h => ?_, fun key' tag h h' => ?_⟩
  · rw [keySlot_eq, extractHashTag_of_hasTag h]
  · rw [keySlot_eq, extractHashTag_of_untagged h]
  · rw [keySlot_eq, keySlot_eq, extractHashTag_of_hasTag h, extractHashTag_of_hasTag h']

theorem keySlot_spec_user : keySlot (lit "a\x7bu\x7d") = keySlot (lit "\x7bu\x7db") :=
  (keySlot_spec (lit "a\x7bu\x7d")).2.2 (lit "\x7bu\x7db") (lit "u") ⟨by decide, lit "a", [], by decide⟩
    ⟨by decide, [], lit "b", by decide⟩

end VortexKV
