import VortexKV.GoString
import VortexKV.Machine

/-!
# The ring buffer of a connection

`internal/reactor/ring_buffer.go`. One place of the buffer is always free, so that the cursors are equal exactly when
nothing is unread. The unread bytes (`contents`) behave as a queue (`ring_is_queue`).
-/

namespace VortexKV

open List

def copyAt (l : Bytes) (i : Nat) (p : Bytes) : Bytes := l.take i ++ p ++ l.drop (i + p.length)

theorem length_copyAt {l p : Bytes} {i : Nat} (h : i + p.length ≤ l.length) : (copyAt l i p).length = l.length := by
  simp only [copyAt, length_append, length_take, length_drop]
  omega

@[ext] structure RingBuffer where
  buf : Bytes
  r : Nat
  w : Nat
  r_lt : r < buf.length
  w_lt : w < buf.length

namespace RingBuffer

def new (capacity : Int) : RingBuffer where
  buf := List.replicate (if capacity ≤ 0 then 65536 else capacity.toNat) 0
  r := 0
  w := 0
  r_lt := by rw [length_replicate]; split <;> omega
  w_lt := by rw [length_replicate]; split <;> omega

variable (b : RingBuffer)

def len : Nat := if b.w ≥ b.r then b.w - b.r else b.buf.length - b.r + b.w

def cap : Nat := b.buf.length

def free : Nat := b.buf.length - 1 - b.len

def isEmpty : Bool := b.r = b.w

def reset : RingBuffer := { b with r := 0, w := 0, r_lt := b.r_lt.pos, w_lt := b.r_lt.pos }

/-- `Bytes`: the unread bytes in a row. -/
def contents : Bytes := if b.w ≥ b.r then (b.buf.take b.w).drop b.r else b.buf.drop b.r ++ b.buf.take b.w

def peek : Bytes := if b.w ≥ b.r then (b.buf.take b.w).drop b.r else b.buf.drop b.r

def data : Bytes := if b.len > b.peek.length then b.contents else b.peek

theorem length_contents : b.contents.length = b.len := by
  have := b.w_lt
  rw [contents, len]
  split <;> simp <;> omega

def grow (minCap : Nat) : RingBuffer :=
  let newCap := if b.buf.length * 2 < minCap then minCap * 2 else b.buf.length * 2
  have hlen : b.len < newCap := by
    have := b.w_lt
    have := b.r_lt
    simp only [newCap, len]
    split <;> split <;> omega
  have hcap : (b.contents ++ List.replicate (newCap - b.len) 0).length = newCap := by
    rw [length_append, length_replicate, length_contents]
    omega
  { buf := b.contents ++ List.replicate (newCap - b.len) 0
    r := 0
    w := b.len
    r_lt := by omega
    w_lt := by omega }

def put (p : Bytes) (h : p.length ≤ b.free) : RingBuffer :=
  have hw := b.w_lt
  have hr := b.r_lt
  have hroom : p.length ≤ b.buf.length - 1 - b.len := h
  if hwr : b.w ≥ b.r then
    have hlen : b.len = b.w - b.r := if_pos hwr
    if hn : p.length ≤ b.buf.length - b.w then
      have hsize := length_copyAt (l := b.buf) (i := b.w) (p := p) (by omega)
      { buf := copyAt b.buf b.w p
        r := b.r
        w := if b.w + p.length = b.buf.length then 0 else b.w + p.length
        r_lt := by omega
        w_lt := by split <;> omega }
    else
      have hfst := length_copyAt (l := b.buf) (i := b.w) (p := p.take (b.buf.length - b.w)) (by rw [length_take]; omega)
      have hsize := length_copyAt (l := copyAt b.buf b.w (p.take (b.buf.length - b.w))) (i := 0) (p := p.drop (b.buf.length - b.w))
        (by rw [length_drop]; omega)
      { buf := copyAt (copyAt b.buf b.w (p.take (b.buf.length - b.w))) 0 (p.drop (b.buf.length - b.w))
        r := b.r
        w := p.length - (b.buf.length - b.w)
        r_lt := by omega
        w_lt := by omega }
  else
    have hlen : b.len = b.buf.length - b.r + b.w := if_neg hwr
    have hsize := length_copyAt (l := b.buf) (i := b.w) (p := p) (by omega)
    { buf := copyAt b.buf b.w p
      r := b.r
      w := b.w + p.length
      r_lt := by omega
      w_lt := by omega }

theorem len_grow (minCap : Nat) : (b.grow minCap).len = b.len := by simp [grow, len]

theorem free_grow (n : Nat) : n ≤ (b.grow (b.len + n + 1)).free := by
  have hc : b.len + n + 1 ≤ (b.grow (b.len + n + 1)).buf.length := by
    simp only [grow, length_append, length_replicate, length_contents]
    split <;> omega
  rw [free, len_grow]
  omega

def write (p : Bytes) : RingBuffer :=
  if p = [] then b
  else if h : p.length ≤ b.free then b.put p h
  else (b.grow (b.len + p.length + 1)).put p (b.free_grow p.length)

def advanceRead (n : Nat) : RingBuffer :=
  { b with
    r := (b.r + min n b.len) % b.buf.length
    r_lt := Nat.mod_lt _ b.r_lt.pos }

/-- `Read` into a slice of `n` bytes: the bytes copied, or `none` for `io.EOF`. -/
def read (n : Nat) : Option Bytes × RingBuffer :=
  have hw := b.w_lt
  have hr := b.r_lt
  let k := min n b.len
  have hlen : k ≤ if b.w ≥ b.r then b.w - b.r else b.buf.length - b.r + b.w := Nat.min_le_right ..
  if b.isEmpty then (none, b)
  else if hwr : b.w > b.r then
    (some ((b.buf.take (b.r + k)).drop b.r), { b with r := b.r + k, r_lt := by split at hlen <;> omega })
  else if hk : k ≤ b.buf.length - b.r then
    (some ((b.buf.take (b.r + k)).drop b.r),
      { b with r := if b.r + k = b.buf.length then 0 else b.r + k, r_lt := by split <;> omega })
  else
    (some (b.buf.drop b.r ++ b.buf.take (k - (b.buf.length - b.r))),
      { b with r := k - (b.buf.length - b.r), r_lt := by split at hlen <;> omega })

def writeEnd : Nat := if b.w ≥ b.r then (if b.r = 0 then b.buf.length - 1 else b.buf.length) else b.r - 1

def writeSlice : Bytes := (b.buf.take b.writeEnd).drop b.w

def store (p : Bytes) (h : p.length = b.writeSlice.length) : RingBuffer :=
  have hlen : (copyAt b.buf b.w p).length = b.buf.length := length_copyAt (by
    have := b.w_lt
    rw [h, writeSlice, length_drop, length_take]
    omega)
  { buf := copyAt b.buf b.w p, r := b.r, w := b.w, r_lt := hlen ▸ b.r_lt, w_lt := hlen ▸ b.w_lt }

def advanceWrite (n : Int) : RingBuffer :=
  if n ≤ 0 then b else { b with w := (b.w + n.toNat) % b.buf.length, w_lt := Nat.mod_lt _ b.r_lt.pos }

/-! ### The buffer as a queue -/

@[simp] theorem contents_new (capacity : Int) : (new capacity).contents = [] := rfl

theorem isEmpty_iff : b.isEmpty = true ↔ b.contents = [] := by
  have := b.w_lt
  have := b.r_lt
  rw [← length_eq_zero_iff, length_contents, isEmpty, decide_eq_true_iff, len]
  split <;> omega

theorem data_eq : b.data = b.contents := by
  have := b.w_lt
  have hp : ¬ b.w ≥ b.r → b.len > b.peek.length ∨ b.contents = b.peek := by
    intro h
    rw [peek, if_neg h, len, if_neg h, length_drop, contents, if_neg h]
    by_cases hw : b.w = 0
    · exact .inr (by simp [hw])
    · exact .inl (by omega)
  rw [data]
  split
  case isTrue => rfl
  case isFalse hlen =>
    by_cases h : b.w ≥ b.r
    · rw [peek, contents, if_pos h, if_pos h]
    · exact ((hp h).resolve_left hlen).symm

theorem contents_grow (minCap : Nat) : (b.grow minCap).contents = b.contents := by
  have hle : (b.grow minCap).w ≥ (b.grow minCap).r := Nat.zero_le _
  rw [contents, if_pos hle]
  exact take_left' b.length_contents

theorem contents_put (p : Bytes) (h : p.length ≤ b.free) : (b.put p h).contents = b.contents ++ p := by
  have hw := b.w_lt
  have hr := b.r_lt
  have ht : (b.buf.take b.w).length = b.w := by simp; omega
  by_cases hwr : b.w ≥ b.r
  · have hlen : b.len = b.w - b.r := if_pos hwr
    have hd (q : Bytes) : (b.buf.take b.w ++ q).drop b.r = (b.buf.take b.w).drop b.r ++ q :=
      drop_append_of_le_length (by omega)
    have hold : b.contents = (b.buf.take b.w).drop b.r := if_pos hwr
    rw [free, hlen] at h
    rw [hold]
    by_cases hn : p.length ≤ b.buf.length - b.w
    · by_cases he : b.w + p.length = b.buf.length
      · -- The end of the buffer is reached, and the next byte goes to its start.
        simp only [put, dif_pos hwr, dif_pos hn, contents, copyAt, he, if_true, drop_length, append_nil]
        rw [if_neg (by omega), take_zero, append_nil, hd]
      · simp only [put, dif_pos hwr, dif_pos hn, if_neg he, contents, copyAt]
        rw [if_pos (by omega), take_left' (by rw [length_append, ht]), hd]
    · have hf : copyAt b.buf b.w (p.take (b.buf.length - b.w)) = b.buf.take b.w ++ p.take (b.buf.length - b.w) := by
        rw [copyAt, drop_eq_nil_of_le (by rw [length_take]; omega), append_nil]
      have hs : (p.drop (b.buf.length - b.w)).length = p.length - (b.buf.length - b.w) := length_drop
      simp only [put, dif_pos hwr, dif_neg hn, contents, copyAt, Nat.zero_add]
      rw [if_neg (by omega), take_zero, nil_append, take_left' hs, drop_append, hs]
      change (p.drop (b.buf.length - b.w)).drop b.r ++ ((copyAt b.buf b.w (p.take (b.buf.length - b.w))).drop _).drop _ ++ _ = _
      rw [drop_eq_nil_of_le (by omega), nil_append, drop_drop, hf,
        show p.length - (b.buf.length - b.w) + (b.r - (p.length - (b.buf.length - b.w))) = b.r by omega, hd, append_assoc,
        take_append_drop]
  · have hlen : b.len = b.buf.length - b.r + b.w := if_neg hwr
    rw [free, hlen] at h
    have hto : (b.buf.take b.w ++ p).length = b.w + p.length := by rw [length_append, ht]
    simp only [put, dif_neg hwr, contents, copyAt]
    rw [if_neg (by omega), if_neg hwr, take_left' hto, drop_append, drop_eq_nil_of_le (by omega), hto,
      drop_drop, show b.w + p.length + (b.r - (b.w + p.length)) = b.r by omega, nil_append, append_assoc]

theorem contents_write (p : Bytes) : (b.write p).contents = b.contents ++ p := by
  unfold write
  split
  case isTrue h => rw [h, append_nil]
  case isFalse =>
    split
    case isTrue => exact b.contents_put p _
    case isFalse => rw [contents_put, contents_grow]

theorem contents_of_le {b : RingBuffer} (h : b.r ≤ b.w) : b.contents = (b.buf.take b.w).drop b.r := if_pos h

theorem contents_of_lt {b : RingBuffer} (h : b.w < b.r) : b.contents = b.buf.drop b.r ++ b.buf.take b.w := if_neg (Nat.not_le.2 h)

theorem contents_advanceRead (n : Nat) : (b.advanceRead n).contents = b.contents.drop n := by
  have hw := b.w_lt
  have hr := b.r_lt
  have hm : b.contents.drop n = b.contents.drop (min n b.len) := by
    rw [← length_contents]
    rcases Nat.le_total n b.contents.length with h | h
    · rw [Nat.min_eq_left h]
    · rw [Nat.min_eq_right h, drop_length, drop_eq_nil_of_le h]
  have hn : (b.advanceRead n).r = (b.r + min n b.len) % b.buf.length := rfl
  rw [hm]
  by_cases hwr : b.r ≤ b.w
  · have hlen : b.len = b.w - b.r := if_pos hwr
    rw [Nat.mod_eq_of_lt (by omega)] at hn
    rw [contents_of_le (show (b.advanceRead n).r ≤ b.w by omega), contents_of_le hwr, hn, drop_drop]
    rfl
  · have hlen : b.len = b.buf.length - b.r + b.w := if_neg hwr
    rw [contents_of_lt (Nat.lt_of_not_le hwr)]
    by_cases he : b.r + min n b.len < b.buf.length
    · rw [Nat.mod_eq_of_lt he] at hn
      rw [contents_of_lt (show b.w < (b.advanceRead n).r by omega), hn,
        drop_append_of_le_length (by rw [length_drop]; omega), drop_drop]
      rfl
    · have ha : (b.buf.drop b.r).drop (min n b.len) = [] := drop_eq_nil_of_le (by rw [length_drop]; omega)
      rw [Nat.mod_eq_sub_mod (by omega), Nat.mod_eq_of_lt (by omega)] at hn
      rw [contents_of_le (show (b.advanceRead n).r ≤ b.w by omega), drop_append, ha, nil_append, length_drop, hn,
        show min n b.len - (b.buf.length - b.r) = b.r + min n b.len - b.buf.length by omega]
      rfl

theorem read_eq (n : Nat) : b.read n = (if b.contents = [] then none else some (b.contents.take n), b.advanceRead n) := by
  have hw := b.w_lt
  have hr := b.r_lt
  have ht : b.contents.take n = b.contents.take (min n b.len) := by rw [← length_contents, take_eq_take_min]
  rw [read]
  by_cases he : b.isEmpty = true
  · have hz : b.len = 0 := by rw [← length_contents, b.isEmpty_iff.1 he, length_nil]
    simp only [if_pos he, if_pos (b.isEmpty_iff.1 he), advanceRead, hz, Nat.min_zero, Nat.add_zero, Nat.mod_eq_of_lt hr]
  rw [if_neg he, if_neg (he ∘ b.isEmpty_iff.2), ht]
  have hne : b.r ≠ b.w := fun h => he (decide_eq_true h)
  by_cases hwr : b.w > b.r
  · have hlen : b.len = b.w - b.r := if_pos hwr.le
    have hlt : b.r + min n b.len < b.buf.length := by omega
    rw [dif_pos hwr]
    refine Prod.ext (congrArg some ?_) (RingBuffer.ext rfl (Nat.mod_eq_of_lt hlt).symm rfl)
    rw [contents_of_le hwr.le, take_drop, take_take, Nat.min_eq_left (b := b.w) (by omega)]
  have hlen : b.len = b.buf.length - b.r + b.w := if_neg (by omega)
  rw [dif_neg hwr, contents_of_lt (by omega)]
  by_cases hk : min n b.len ≤ b.buf.length - b.r
  · rw [dif_pos hk]
    refine Prod.ext (congrArg some ?_) (RingBuffer.ext rfl ?_ rfl)
    · rw [take_append_of_le_length (by rwa [length_drop]), take_drop]
    · dsimp only [advanceRead]
      split
      case isTrue h => rw [h, Nat.mod_self]
      case isFalse => rw [Nat.mod_eq_of_lt (by omega)]
  · rw [dif_neg hk]
    refine Prod.ext (congrArg some ?_) (RingBuffer.ext rfl ?_ rfl)
    · rw [take_append, take_of_length_le (l := b.buf.drop b.r) (by rw [length_drop]; omega), take_take, length_drop,
        Nat.min_eq_left (b := b.w) (by omega)]
    · dsimp only [advanceRead]
      rw [Nat.mod_eq_sub_mod (by omega), Nat.mod_eq_of_lt (by omega)]
      omega

theorem writeEnd_bounds : b.w ≤ b.writeEnd ∧ b.writeEnd ≤ b.buf.length := by
  have := b.w_lt
  have := b.r_lt
  rw [writeEnd]
  split_ifs <;> omega

theorem length_writeSlice : b.writeSlice.length = b.writeEnd - b.w := by
  have := b.writeEnd_bounds
  rw [writeSlice, length_drop, length_take]
  omega

theorem contents_advanceWrite {n : Int} (h : n ≤ b.writeSlice.length) :
    (b.advanceWrite n).contents = b.contents ++ b.writeSlice.take n.toNat := by
  have hw := b.w_lt
  have hr := b.r_lt
  have he := b.writeEnd_bounds
  rw [length_writeSlice] at h
  by_cases hn : n ≤ 0
  · rw [advanceWrite, if_pos hn, Int.toNat_of_nonpos hn, take_zero, append_nil]
  have hsl : b.buf.take (b.w + n.toNat) = b.buf.take b.w ++ b.writeSlice.take n.toNat := by
    rw [take_add, writeSlice, drop_take, take_take, Nat.min_eq_left (by omega)]
  have hne : (b.advanceWrite n).w = (b.w + n.toNat) % b.buf.length := by rw [advanceWrite, if_neg hn]
  have hs : (b.advanceWrite n).buf = b.buf ∧ (b.advanceWrite n).r = b.r := by rw [advanceWrite, if_neg hn]; exact ⟨rfl, rfl⟩
  by_cases hwr : b.r ≤ b.w
  · have hd := congrArg (List.drop b.r) hsl
    rw [drop_append_of_le_length (by rw [length_take]; omega), ← contents_of_le hwr] at hd
    rw [← hd]
    by_cases hl : b.w + n.toNat = b.buf.length
    · -- The slice is filled up to the end of the buffer; then the reader is not at its start.
      have hr0 : b.r ≠ 0 := fun hr0 => by rw [writeEnd, if_pos hwr, if_pos hr0] at h; omega
      rw [hl, Nat.mod_self] at hne
      rw [contents_of_lt (by omega), hs.1, hs.2, hne, hl, take_length, take_zero, append_nil]
    · rw [Nat.mod_eq_of_lt (by omega)] at hne
      rw [contents_of_le (by omega), hs.1, hs.2, hne]
  · rw [writeEnd, if_neg hwr] at h
    rw [Nat.mod_eq_of_lt (by omega)] at hne
    rw [contents_of_lt (by omega), contents_of_lt (Nat.lt_of_not_le hwr), hs.1, hs.2, hne, hsl, append_assoc]

theorem store_spec {p : Bytes} (h : p.length = b.writeSlice.length) : (b.store p h).contents = b.contents ∧ (b.store p h).writeSlice = p := by
  have hw := b.w_lt
  have he := b.writeEnd_bounds
  have hp := h.trans b.length_writeSlice
  have hb : (b.store p h).buf = b.buf.take b.w ++ p ++ b.buf.drop (b.w + p.length) := rfl
  have ht : (b.buf.take b.w).length = b.w := by rw [length_take]; omega
  have hs : (b.store p h).buf.length = b.buf.length := length_copyAt (by omega)
  refine ⟨?_, ?_⟩
  · by_cases hwr : b.r ≤ b.w
    · rw [contents_of_le hwr, contents_of_le (show (b.store p h).r ≤ _ from hwr), hb, append_assoc]
      exact congrArg (List.drop b.r) (take_left' ht)
    · rw [writeEnd, if_neg hwr] at hp
      have hf : (b.buf.take b.w ++ p).length ≤ b.r := by rw [length_append]; omega
      rw [contents_of_lt (Nat.lt_of_not_le hwr), contents_of_lt (show (b.store p h).w < _ from Nat.lt_of_not_le hwr), hb]
      change (b.buf.take b.w ++ p ++ _).drop b.r ++ (b.buf.take b.w ++ p ++ _).take b.w = _
      rw [drop_append, drop_eq_nil_of_le hf, length_append, ht, drop_drop,
        show b.w + p.length + (b.r - (b.w + p.length)) = b.r by omega, append_assoc (b.buf.take b.w), take_left' ht, nil_append]
  · have hsa : (b.store p h).writeEnd = b.writeEnd := by
      unfold writeEnd
      rw [hs]
      rfl
    rw [writeSlice, hsa, hb, take_left' (by rw [length_append]; omega)]
    exact drop_left' ht

theorem len_add_free : b.len + b.free = b.cap - 1 := by
  have := b.w_lt
  have := b.r_lt
  rw [free, cap, len]
  split <;> omega

theorem peek_prefix : b.peek <+: b.contents := by
  rw [peek, contents]
  split
  · exact prefix_rfl
  · exact prefix_append ..

end RingBuffer

/-- A call on the buffer; `fill p n` is `WriteSlice`, after which the slice holds `p`, and `AdvanceWrite n`. -/
inductive RingCall
  | write (p : Bytes)
  | read (n : Nat)
  | peek
  | bytes
  | advanceRead (n : Int)
  | fill (p : Bytes) (n : Int)
  | reset

namespace RingCall

def on (b : RingBuffer) : RingCall → RingBuffer
  | write p => b.write p
  | read n => (b.read n).2
  | peek | bytes => b
  -- `AdvanceRead` returns at once if `n` is not positive
  | advanceRead n => if n ≤ 0 then b else b.advanceRead n.toNat
  | fill p n => if h : p.length = b.writeSlice.length then (b.store p h).advanceWrite n else b
  | reset => b.reset

def onQueue (q : Bytes) : RingCall → Bytes
  | write p => q ++ p
  | read n => q.drop n
  | peek | bytes => q
  | advanceRead n => q.drop n.toNat
  | fill p n => q ++ p.take n.toNat
  | reset => []

/-- What `fill` has put into the slice is as long as the slice, and `AdvanceWrite` stays within it. -/
def Allowed (b : RingBuffer) : RingCall → Prop
  | fill p n => p.length = b.writeSlice.length ∧ n ≤ p.length
  | _ => True

theorem contents_on {b : RingBuffer} {call : RingCall} (h : call.Allowed b) : (call.on b).contents = call.onQueue b.contents := by
  cases call with
  | write p => exact b.contents_write p
  | read n => rw [on, b.read_eq]; exact b.contents_advanceRead n
  | peek | bytes => rfl
  | advanceRead n =>
    dsimp only [on, onQueue]
    split
    case isTrue hn => rw [Int.toNat_of_nonpos hn, drop_zero]
    case isFalse => exact b.contents_advanceRead _
  | fill p n =>
    obtain ⟨hc, hs⟩ := b.store_spec h.1
    rw [on, dif_pos h.1, RingBuffer.contents_advanceWrite _ (by rw [hs]; exact h.2), hc, hs, onQueue]
  | reset => rfl

end RingCall

/-- The ring buffer is a queue of bytes, whatever its capacity and the calls. -/
theorem ring_is_queue (capacity : Int) (calls : List RingCall) (b : RingBuffer)
    (ha : Machine.Along (fun (call : RingCall) b => some (call.on b)) (fun b call => call.Allowed b) calls (.new capacity))
    (hb : b = calls.foldl RingCall.on (.new capacity)) :
    b.contents = calls.foldl RingCall.onQueue [] ∧ b.peek <+: b.contents ∧ b.len = b.contents.length ∧ b.len + b.free = b.cap - 1 ∧
      ∀ n, (b.read n).1 = if b.contents = [] then none else some (b.contents.take n) := by
  subst hb
  refine ⟨?_, RingBuffer.peek_prefix _, (RingBuffer.length_contents _).symm, RingBuffer.len_add_free _, fun n => by rw [RingBuffer.read_eq]⟩
  rw [← RingBuffer.contents_new capacity]
  generalize RingBuffer.new capacity = b at ha
  induction calls generalizing b with
  | nil => rfl
  | cons call calls ih =>
    rw [foldl_cons, foldl_cons, ← RingCall.contents_on ha.1]
    exact ih _ (ha.2 _ rfl)

theorem ring_is_queue_wrapped :
    ([RingCall.fill [1, 2, 3] 2, .read 1, .write [5, 6]].foldl RingCall.on (.new 4)).contents = [2, 5, 6] :=
  (ring_is_queue 4 [.fill [1, 2, 3] 2, .read 1, .write [5, 6]] _ ⟨⟨rfl, by decide⟩, fun _ _ => ⟨trivial, fun _ _ => ⟨trivial, fun _ _ => trivial⟩⟩⟩ rfl).1

end VortexKV
