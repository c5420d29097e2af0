import VortexKV.RdbCodec

/-!
# Snapshots written and read back

`rdb_round_trip`: `LoadRDB` on the file of `SaveRDB` hands over the live entries in order. `no_partial_load_iff`: a load that
fails has handed over nothing exactly if what follows the first live entry can be read and has the right checksum.
-/

namespace VortexKV

open Codec List Finmap

variable {β : Type} {l : List Bytes} {en : RDBEntry} {now : Int} {aux : GoMap Bytes}

/-! ### The pieces -/

section

variable {n : Nat} {s : Bytes}

theorem reads_varint (h : n < 2 ^ 64) : Codec.Reads readVarint (putUvarint n) n := by
  intro rest
  change readVarint (putUvarint n ++ rest) = _
  rw [readVarint, readUvarint_put h]

theorem reads_skip (h : n < 2 ^ 64) : Codec.Reads skipVarint (putUvarint n) () := by
  intro rest
  change skipVarint (putUvarint n ++ rest) = _
  rw [skipVarint, readUvarint_put h]

theorem reads_allocate {size : Nat} (h : size * n ≤ 2 ^ 48) : Codec.Reads (allocate size n) [] () := fun _ => if_neg (Nat.not_lt.2 h)

theorem reads_full (s : Bytes) : Codec.Reads (readFull s.length) s s := by
  intro rest
  change readFull s.length (s ++ rest) = _
  rw [readFull, if_pos (by simp), take_left, drop_left]

theorem reads_full_le (k n : Nat) : Codec.Reads (readFull k) (leBytes k n) (leBytes k n) := by
  have h := reads_full (leBytes k n)
  rwa [length_leBytes] at h

theorem reads_byte (b : UInt8) : Codec.Reads readByte [b] b := fun _ => rfl

theorem reads_string (h : s.length ≤ 2 ^ 48) : Codec.Reads readString (writeString s) s :=
  (reads_varint (by omega)).bind (.bind_nil (reads_allocate (by omega)) (reads_full s))

theorem reads_strings {items : List Bytes} (hlen : 16 * items.length ≤ 2 ^ 48) (h : ∀ t ∈ items, t.length ≤ 2 ^ 48) :
    Codec.Reads readStrings (writeStrings items) items := by
  have hti : Codec.Reads (times readString items.length) (items.flatMap writeString) (items.map fun t => t) := .times fun t ht => reads_string (h t ht)
  rw [map_id'] at hti
  exact (reads_varint (by omega)).bind (.bind_nil (reads_allocate hlen) hti)

end

/-! ### Maps -/

theorem lookup_foldl_insert (v : Bytes → β) (l : List Bytes) (m : GoMap β) (k : Bytes) :
    (l.foldl (fun m k => m.insert k (v k)) m).lookup k = if k ∈ l then some (v k) else m.lookup k := by
  induction l generalizing m with
  | nil => rfl
  | cons a l ih =>
    rw [foldl_cons, ih]
    by_cases hk : k = a
    · rw [hk, lookup_insert]
      simp
    · rw [lookup_insert_of_ne _ hk]
      simp [hk]

theorem foldl_insert_keys (d : β) (m : GoMap β) (hl : l.Perm (sortedKeys m)) :
    l.foldl (fun m' k => m'.insert k ((m.lookup k).getD d)) ∅ = m := by
  refine ext_lookup fun k => ?_
  rw [lookup_foldl_insert fun k => (m.lookup k).getD d]
  by_cases hk : k ∈ m
  · obtain ⟨v, hv⟩ := Option.isSome_iff_exists.1 (lookup_isSome.2 hk)
    rw [if_pos (hl.mem_iff.2 (mem_sortedKeys.2 hk)), hv]
    rfl
  · rw [if_neg fun hm => hk (mem_sortedKeys.1 (hl.mem_iff.1 hm)), lookup_eq_none.2 hk, lookup_empty]

theorem length_shuffled (m : GoMap β) (hl : l.Perm (sortedKeys m)) : l.length = mapLen m := by
  rw [hl.length_eq, length_sortedKeys]

def HeldMap (m : GoMap Bytes) : Prop := mapLen m < 2 ^ 48 ∧ ∀ k v, m.lookup k = some v → k.length ≤ 2 ^ 48 ∧ v.length ≤ 2 ^ 48

theorem HeldMap.getD {m : GoMap Bytes} (h : HeldMap m) {k : Bytes} (hk : k ∈ m) : k.length ≤ 2 ^ 48 ∧ ((m.lookup k).getD []).length ≤ 2 ^ 48 := by
  obtain ⟨v, hv⟩ := Option.isSome_iff_exists.1 (lookup_isSome.2 hk)
  rw [hv]
  exact h.2 k v hv

theorem reads_pair {f v : Bytes} (hf : f.length ≤ 2 ^ 48) (hv : v.length ≤ 2 ^ 48) (m : GoMap Bytes) : Codec.Reads (readPair m) (writePair f v) (m.insert f v) :=
  (reads_string hf).bind (reads_string hv).then

theorem reads_pairs {m : GoMap Bytes} (h : HeldMap m) (r : Readings) : Codec.Reads readPairs (writePairs r m) m := by
  have hp := r.shuffle_perm (sortedKeys m)
  have hh : ∀ f ∈ r.shuffle (sortedKeys m), f.length ≤ 2 ^ 48 ∧ ((m.lookup f).getD []).length ≤ 2 ^ 48 :=
    fun f hf => h.getD (mem_sortedKeys.1 (hp.mem_iff.1 hf))
  have hl : Codec.Reads (loop readPair (r.shuffle (sortedKeys m)).length ∅)
      ((r.shuffle (sortedKeys m)).flatMap fun f => writePair f ((m.lookup f).getD []))
      ((r.shuffle (sortedKeys m)).foldl (fun m' f => m'.insert f ((m.lookup f).getD [])) ∅) :=
    .loop (fun m' f hf => reads_pair (hh f hf).1 (hh f hf).2 m') ∅
  rw [length_shuffled m hp, foldl_insert_keys [] m hp] at hl
  have hlen := h.1
  exact (reads_varint (by omega)).bind hl

/-! ### Values -/

/-- A value that a process can hold: strings and slices are within the address space, and vectors have the length that is said. -/
def RDBValue.Held : RDBValue → Prop
  | string s => s.length ≤ 2 ^ 48
  | list items => 16 * items.length ≤ 2 ^ 48 ∧ ∀ t ∈ items, t.length ≤ 2 ^ 48
  | set members => 16 * members.length ≤ 2 ^ 48 ∧ ∀ t ∈ members, t.length ≤ 2 ^ 48
  | hash fields => HeldMap fields
  | zset items => 24 * items.length ≤ 2 ^ 48 ∧ ∀ it ∈ items, it.member.length ≤ 2 ^ 48
  | stream items => 24 * items.length ≤ 2 ^ 48 ∧ ∀ it ∈ items, it.1.length ≤ 2 ^ 48 ∧ HeldMap it.2
  | vector dim vectors => dim < 2 ^ 63 ∧ mapLen vectors < 2 ^ 48 ∧
      ∀ id vec, vectors.lookup id = some vec → id.length ≤ 2 ^ 48 ∧ 4 * vec.length ≤ 2 ^ 48 ∧ vec.length = dim

theorem reads_scored {it : ScoredMember} (h : it.member.length ≤ 2 ^ 48) : Codec.Reads readScored (writeScored it) it := by
  have hb : (ofLE (leBytes 8 it.score.toNat)).toUInt64 = it.score := by
    rw [ofLE_leBytes (by have := it.score.toNat_lt; omega)]
    exact UInt64.ofNat_toNat
  have hr : Codec.Reads readScored (writeScored it) ⟨it.member, (ofLE (leBytes 8 it.score.toNat)).toUInt64⟩ :=
    (reads_full_le 8 _).bind (reads_string h).then
  rwa [hb] at hr

theorem reads_float32 (f : UInt32) : Codec.Reads readFloat32 (leBytes 4 f.toNat) f := by
  have hb : (ofLE (leBytes 4 f.toNat)).toUInt32 = f := by
    rw [ofLE_leBytes (by have := f.toNat_lt; omega)]
    exact UInt32.ofNat_toNat
  have hr : Codec.Reads readFloat32 (leBytes 4 f.toNat) (ofLE (leBytes 4 f.toNat)).toUInt32 := (reads_full_le 4 _).then
  rwa [hb] at hr

theorem reads_vector {id : Bytes} {vec : List UInt32} (hid : id.length ≤ 2 ^ 48) (hv : 4 * vec.length ≤ 2 ^ 48) (m : GoMap (List UInt32)) :
    Codec.Reads (readVector vec.length m) (writeString id ++ vec.flatMap fun f => leBytes 4 f.toNat) (m.insert id vec) := by
  have ht : Codec.Reads (times readFloat32 vec.length) (vec.flatMap fun f => leBytes 4 f.toNat) (vec.map fun f => f) := .times fun f _ => reads_float32 f
  rw [map_id'] at ht
  exact (reads_string hid).bind (.bind_nil (reads_allocate hv) ht.then)

theorem reads_vectors {dim : Nat} {vectors : GoMap (List UInt32)} (h : (RDBValue.vector dim vectors).Held) (r : Readings) :
    Codec.Reads (loop (readVector dim) (mapLen vectors) ∅) ((r.shuffle (sortedKeys vectors)).flatMap fun id =>
      writeString id ++ ((vectors.lookup id).getD []).flatMap fun f => leBytes 4 f.toNat) vectors := by
  obtain ⟨-, -, hve⟩ := h
  have hp := r.shuffle_perm (sortedKeys vectors)
  have hl : Codec.Reads (loop (readVector dim) (r.shuffle (sortedKeys vectors)).length ∅)
      ((r.shuffle (sortedKeys vectors)).flatMap fun id =>
        writeString id ++ ((vectors.lookup id).getD []).flatMap fun f => leBytes 4 f.toNat)
      ((r.shuffle (sortedKeys vectors)).foldl (fun m id => m.insert id ((vectors.lookup id).getD [])) ∅) := by
    refine .loop (fun m id hid => ?_) ∅
    obtain ⟨vec, hv⟩ := Option.isSome_iff_exists.1 (lookup_isSome.2 (mem_sortedKeys.1 (hp.mem_iff.1 hid)))
    obtain ⟨hlen, hs, rfl⟩ := hve id vec hv
    rw [hv]
    exact reads_vector hlen hs m
  rwa [length_shuffled vectors hp, foldl_insert_keys [] vectors hp] at hl

theorem reads_streamItems {items : List (Bytes × GoMap Bytes)} (h : ∀ it ∈ items, it.1.length ≤ 2 ^ 48 ∧ HeldMap it.2) (ω : Env) :
    Codec.Reads (times readStreamItem items.length) (items.zipIdx.flatMap fun (it, j) => writeString it.1 ++ writePairs (ω.sub j []) it.2) items := by
  have ht : Codec.Reads (times readStreamItem items.zipIdx.length)
      (items.zipIdx.flatMap fun (it, j) => writeString it.1 ++ writePairs (ω.sub j []) it.2) (items.zipIdx.map Prod.fst) := by
    refine .times fun x hx => ?_
    obtain ⟨hid, hf⟩ := h x.1 (fst_mem_of_mem_zipIdx hx)
    exact (reads_string hid).bind (reads_pairs hf _).then
  rwa [length_zipIdx, zipIdx_map_fst] at ht

theorem reads_value {v : RDBValue} (h : v.Held) (ω : Env) : Codec.Reads (decodeValue v.type) (encodeValue ω v) v := by
  cases v with
  | string s => exact (reads_string h).then
  | list items => exact (reads_strings h.1 h.2).then
  | set members => exact (reads_strings h.1 h.2).then
  | hash fields => exact (reads_pairs h _).then
  | zset items =>
    obtain ⟨hlen, hi⟩ := h
    have ht : Codec.Reads (times readScored items.length) (items.flatMap writeScored) (items.map fun it => it) := .times fun it hit => reads_scored (hi it hit)
    rw [map_id'] at ht
    exact (reads_varint (by omega)).bind (.bind_nil (reads_allocate hlen) ht.then)
  | stream items =>
    obtain ⟨hlen, hi⟩ := h
    exact (reads_varint (by omega)).bind (.bind_nil (reads_allocate hlen) (reads_streamItems hi ω).then)
  | vector dim vectors =>
    have hv := reads_vectors h (ω [])
    obtain ⟨hd, hlen, -⟩ := h
    exact (reads_varint (by omega)).bind ((reads_varint (by omega)).bind hv.then)

/-! ### Records -/

structure RDBEntry.Held (en : RDBEntry) : Prop where
  key : en.key.length ≤ 2 ^ 48
  value : en.value.Held
  expiresAt : en.expiresAt < 2 ^ 63

theorem type_ne_opcode (v : RDBValue) : v.type ≠ opcodeEOF ∧ v.type ≠ opcodeAUX ∧ v.type ≠ opcodeSELECTDB ∧ v.type ≠ opcodeRESIZEDB ∧
    v.type ≠ opcodeEXPIRETIME ∧ v.type ≠ opcodeEXPIRETIMEMS := by
  cases v <;> simp [RDBValue.type, opcodeEOF, opcodeAUX, opcodeSELECTDB, opcodeRESIZEDB, opcodeEXPIRETIME, opcodeEXPIRETIMEMS]

theorem encodeEntry_eq (h : en.Held) (ω : Env) : ∃ b s, encodeEntry ω en = b :: s ∧ Codec.Reads (readRecord b) s (.entry en.stored) := by
  obtain ⟨hee, ha, hs, hr, ht, hMS⟩ := type_ne_opcode en.value
  have hb : ∀ x : Int, Codec.Reads (do
      let key ← readString
      let value ← decodeValue en.value.type
      return .entry ⟨key, value, x⟩) (writeString en.key ++ encodeValue ω en.value) (RDBRecord.entry ⟨en.key, en.value, x⟩) :=
    fun x => (reads_string h.key).bind (reads_value h.value ω).then
  unfold encodeEntry RDBEntry.stored
  split
  · have hbi : wrap64 (ofLE (leBytes 8 en.expiresAt.toNat)) = en.expiresAt := by
      have hlt := h.expiresAt
      rw [ofLE_leBytes (by omega), wrap64, Int.bmod_eq_of_le] <;> omega
    have he : Codec.Reads (readExpiry opcodeEXPIRETIMEMS) (leBytes 8 en.expiresAt.toNat ++ [en.value.type])
        (wrap64 (ofLE (leBytes 8 en.expiresAt.toNat)), en.value.type) := (reads_full_le 8 _).bind (reads_byte _).then
    rw [hbi] at he
    refine ⟨opcodeEXPIRETIMEMS, leBytes 8 en.expiresAt.toNat ++ [en.value.type] ++ (writeString en.key ++ encodeValue ω en.value), by simp, ?_⟩
    exact he.bind (hb en.expiresAt)
  · refine ⟨en.value.type, _, nil_append _, ?_⟩
    have he : Codec.Reads (readExpiry en.value.type) [] (0, en.value.type) := by
      rw [readExpiry, if_neg ht, if_neg hMS]
      exact .pure _
    rw [readRecord, if_neg hee, if_neg ha, if_neg hs, if_neg hr]
    exact .bind_nil he (hb 0)

/-! ### The loop -/

theorem shrinks_varint : Shrinks readVarint := by
  intro s n s' h
  have hlen := length_readUvarint s
  change readVarint s = _ at h
  unfold readVarint at h
  split at h
  · rename_i n₁ s₁ heq
    cases h
    rw [heq] at hlen
    exact hlen
  · cases h

theorem shrinks_skip : Shrinks skipVarint := by
  intro s n s' h
  cases h
  exact length_readUvarint s

theorem shrinks_allocate (size n : Nat) : Shrinks (allocate size n) := by
  intro s a s' h
  unfold allocate at h
  split at h
  · cases h
  · cases h
    exact le_rfl

theorem shrinks_full (n : Nat) : Shrinks (readFull n) := by
  intro s a s' h
  change readFull n s = _ at h
  unfold readFull at h
  split at h
  · cases h
    rw [length_drop]
    exact Nat.sub_le _ _
  · cases h

theorem shrinks_byte : Shrinks readByte := by
  intro s b s' h
  cases s with
  | nil => cases h
  | cons c s =>
    cases h
    exact Nat.le_succ _

theorem shrinks_string : Shrinks readString := shrinks_varint.bind fun n => (shrinks_allocate 1 n).bind fun _ => shrinks_full n

theorem shrinks_strings : Shrinks readStrings := shrinks_varint.bind fun n => (shrinks_allocate 16 n).bind fun _ => shrinks_string.times n

theorem shrinks_pairs : Shrinks readPairs :=
  shrinks_varint.bind fun n => .loop (fun _ => shrinks_string.bind fun _ => shrinks_string.bind fun _ => .pure _) n ∅

theorem shrinks_value (t : UInt8) : Shrinks (decodeValue t) := by
  unfold decodeValue
  split_ifs
  · exact shrinks_string.bind fun _ => .pure _
  · exact shrinks_strings.bind fun _ => .pure _
  · exact shrinks_strings.bind fun _ => .pure _
  · exact shrinks_pairs.bind fun _ => .pure _
  · refine shrinks_varint.bind fun n => (shrinks_allocate 24 n).bind fun _ => .bind (.times ?_ n) fun _ => .pure _
    exact (shrinks_full 8).bind fun _ => shrinks_string.bind fun _ => .pure _
  · refine shrinks_varint.bind fun n => (shrinks_allocate 24 n).bind fun _ => .bind (.times ?_ n) fun _ => .pure _
    exact shrinks_string.bind fun _ => shrinks_pairs.bind fun _ => .pure _
  · refine shrinks_varint.bind fun dim => shrinks_varint.bind fun n => .bind (.loop (fun m => ?_) n ∅) fun _ => .pure _
    refine shrinks_string.bind fun _ => (shrinks_allocate 4 dim).bind fun _ => .bind (.times ?_ dim) fun _ => .pure _
    exact (shrinks_full 4).bind fun _ => .pure _
  · intro s a s' h
    cases h

theorem shrinks_record (b : UInt8) : Shrinks (readRecord b) := by
  have he : ∀ b, Shrinks (readExpiry b) := by
    intro b
    unfold readExpiry
    split_ifs
    · exact (shrinks_full 4).bind fun _ => shrinks_byte.bind fun _ => .pure _
    · exact (shrinks_full 8).bind fun _ => shrinks_byte.bind fun _ => .pure _
    · exact .pure _
  unfold readRecord
  split_ifs
  · exact .pure _
  · exact shrinks_string.bind fun _ => shrinks_string.bind fun _ => .pure _
  · exact shrinks_skip.bind fun _ => .pure _
  · exact shrinks_skip.bind fun _ => shrinks_skip.bind fun _ => .pure _
  · exact (he b).bind fun _ => shrinks_string.bind fun _ => (shrinks_value _).bind fun _ => .pure _

def loadFrom (now : Int) (aux : GoMap Bytes) (s : Bytes) : RDBLoad := loadLoop now (s.length + 1) aux s

theorem loadRecord_congr {next next' : GoMap Bytes → Bytes → RDBLoad} {b : UInt8} {s : Bytes}
    (h : ∀ aux s', s'.length ≤ s.length → next aux s' = next' aux s') :
    loadRecord now aux next ((readRecord b).run s) = loadRecord now aux next' ((readRecord b).run s) := by
  cases hr : (readRecord b).run s with
  | error e => cases e <;> rfl
  | ok x =>
    obtain ⟨rec, s'⟩ := x
    have hle : s'.length ≤ s.length := shrinks_record b s rec s' hr
    cases rec with
    | eof => rfl
    | aux k v => exact h _ s' hle
    | other => exact h _ s' hle
    | entry en => rw [loadRecord, loadRecord, h _ s' hle]

theorem loadLoop_fuel {n : Nat} {s : Bytes} (h : s.length < n) : loadLoop now n aux s = loadFrom now aux s := by
  have ha : ∀ n m aux (s : Bytes), s.length < n → s.length < m → loadLoop now n aux s = loadLoop now m aux s := by
    intro n
    induction n with
    | zero => intro m aux s h; omega
    | succ n ih =>
      intro m aux s hn hm
      obtain _ | m := m
      · omega
      cases s with
      | nil => rfl
      | cons b s =>
        rw [length_cons] at hn hm
        exact loadRecord_congr fun aux s' hle => ih m aux s' (by omega) (by omega)
  exact ha n _ aux s h (Nat.lt_succ_self _)

theorem loadFrom_cons (now : Int) (aux : GoMap Bytes) (b : UInt8) (s : Bytes) :
    loadFrom now aux (b :: s) = loadRecord now aux (loadFrom now) ((readRecord b).run s) :=
  loadRecord_congr fun _ _ hle => loadLoop_fuel (Nat.lt_succ_of_le hle)

theorem loadRDBFile_eq (now : Int) (file : Bytes) : loadRDBFile now file =
    if file.length < 9 + 1 + 8 then .ok ([], .error .tooShort)
    else if (file.take (file.length - 8)).take 5 ≠ lit "REDIS" then .ok ([], .error .invalidHeader)
    else (loadFrom now ∅ ((file.take (file.length - 8)).drop 9)).map fun (entries, result) => (entries, match result with
      | .error e => .error e
      | .ok aux => if checksumRight (file.take (file.length - 8)) (file.drop (file.length - 8)) then .ok aux else .error .crcMismatch) := by
  unfold loadRDBFile
  split
  · rfl
  · have hlt : ((file.take (file.length - 8)).drop 9).length < (file.take (file.length - 8)).length := by
      rw [length_drop, length_take]
      omega
    dsimp only
    rw [loadLoop_fuel hlt] <;> rfl

/-! ### The round trip -/

theorem RDBEntry.isExpired_mono {later : Int} (h : en.isExpired now = true) (hle : now ≤ later) : en.isExpired later = true := by
  unfold RDBEntry.isExpired at *
  simp only [Bool.and_eq_true, decide_eq_true_eq] at *
  omega

theorem loadFrom_entries {loaded : Int} {entries : List RDBEntry} (h : ∀ en ∈ entries, en.Held) (ω : Env) (aux : GoMap Bytes) (s : Bytes) (i : Nat) :
    loadFrom loaded aux ((entries.zipIdx i).flatMap (fun (en, i) => encodeEntry (ω.sub i) en) ++ s) =
      (loadFrom loaded aux s).map fun x => ((entries.filter fun en => !en.isExpired loaded).map RDBEntry.stored ++ x.1, x.2) := by
  induction entries generalizing i with
  | nil =>
    change loadFrom loaded aux s = (loadFrom loaded aux s).map fun x => x
    cases loadFrom loaded aux s <;> rfl
  | cons en entries ih =>
    obtain ⟨b, t, hec, hr⟩ := encodeEntry_eq (h en mem_cons_self) (ω.sub i)
    have he : en.stored.isExpired loaded = en.isExpired loaded := by
      unfold RDBEntry.stored RDBEntry.isExpired
      split
      · rfl
      · rename_i hp
        simp [hp]
    rw [zipIdx_cons, flatMap_cons]
    dsimp only
    rw [hec, append_assoc, cons_append, loadFrom_cons, hr, loadRecord, ih fun en hen => h en (mem_cons_of_mem _ hen),
      he]
    cases hl : en.isExpired loaded with
    | true => rw [if_pos rfl, filter_cons_of_neg (by simp [hl])]
    | false =>
      rw [if_neg (by simp), filter_cons_of_pos (by simp [hl])]
      cases loadFrom loaded aux s <;> rfl

theorem loadFrom_aux (h : HeldMap aux) (hl : ∀ k ∈ l, k ∈ aux) (acc : GoMap Bytes) (s : Bytes) :
    loadFrom now acc (l.flatMap (fun k => opcodeAUX :: writePair k ((aux.lookup k).getD [])) ++ s) =
      loadFrom now (l.foldl (fun m k => m.insert k ((aux.lookup k).getD [])) acc) s := by
  induction l generalizing acc with
  | nil => rfl
  | cons k l ih =>
    obtain ⟨hk, hv⟩ := h.getD (hl k mem_cons_self)
    have hr : Codec.Reads (readRecord opcodeAUX) (writePair k ((aux.lookup k).getD [])) (.aux k ((aux.lookup k).getD [])) :=
      (reads_string hk).bind (reads_string hv).then
    rw [flatMap_cons, append_assoc, cons_append, loadFrom_cons, hr]
    exact ih (fun k hk => hl k (mem_cons_of_mem _ hk)) _

theorem checksumRight_crc (payload : Bytes) : checksumRight payload (leBytes 8 (crc64 payload).toNat) = true := by
  unfold checksumRight
  rw [ofLE_leBytes (by have := (crc64 payload).toNat_lt; omega)]
  simp

/-- `LoadRDB` on the file of `SaveRDB`: the entries alive at load time, in order, and the aux fields. -/
theorem rdb_round_trip (ω : Env) {saved loaded : Int} (hc : saved ≤ loaded) {entries : List RDBEntry} {aux : GoMap Bytes}
    (hlen : entries.length < 2 ^ 48) (he : ∀ en ∈ entries, en.Held) (ha : HeldMap aux) :
    loadRDBFile loaded (saveRDBFile saved ω entries aux) =
      .ok ((entries.filter fun en => !en.isExpired loaded).map RDBEntry.stored, .ok aux) := by
  have hfi : (saveRDBFile saved ω entries aux).length - 8 = (encodePayload saved ω entries aux).length := by
    rw [saveRDBFile, length_append, length_leBytes, Nat.add_sub_cancel]
  have hp : (saveRDBFile saved ω entries aux).take (encodePayload saved ω entries aux).length = encodePayload saved ω entries aux := by
    rw [saveRDBFile, take_left]
  have hcr : (saveRDBFile saved ω entries aux).drop (encodePayload saved ω entries aux).length =
      leBytes 8 (crc64 (encodePayload saved ω entries aux)).toNat := by rw [saveRDBFile, drop_left]
  have hv : (entries.filter fun en => !en.isExpired saved).length < 2 ^ 48 := (length_filter_le _ _).trans_lt hlen
  have hex : ((entries.filter fun en => !en.isExpired saved).filter (·.expiresAt > 0)).length < 2 ^ 48 := (length_filter_le _ _).trans_lt hv
  -- what was dropped at save time is expired at load time
  have hf : (entries.filter fun en => !en.isExpired saved).filter (fun en => !en.isExpired loaded) = entries.filter fun en => !en.isExpired loaded := by
    rw [filter_filter]
    refine filter_congr fun en _ => ?_
    cases hsa : en.isExpired saved with
    | false => exact Bool.and_true _
    | true => rw [RDBEntry.isExpired_mono hsa hc]; rfl
  have hpe := (ω []).shuffle_perm (sortedKeys aux)
  have hl : loadFrom loaded ∅ ((encodePayload saved ω entries aux).drop 9) =
      .ok ((entries.filter fun en => !en.isExpired loaded).map RDBEntry.stored, .ok aux) := by
    have hs : Codec.Reads (readRecord opcodeSELECTDB) (putUvarint 0) .other := (reads_skip (by omega)).then
    have hr : Codec.Reads (readRecord opcodeRESIZEDB) (putUvarint (entries.filter fun en => !en.isExpired saved).length ++
        putUvarint ((entries.filter fun en => !en.isExpired saved).filter (·.expiresAt > 0)).length) .other :=
      (reads_skip (by omega)).bind (reads_skip (by omega)).then
    have hh : ∀ en ∈ entries.filter (fun en => !en.isExpired saved), en.Held := fun en hen => he en (mem_filter.1 hen).1
    have hm : ∀ s, (rdbMagicHeader ++ s).drop 9 = s := fun s => rfl
    unfold encodePayload
    rw [hm, loadFrom_aux ha fun k hk => mem_sortedKeys.1 (hpe.mem_iff.1 hk), foldl_insert_keys [] aux hpe, cons_append,
      loadFrom_cons, hs, loadRecord, cons_append, cons_append, loadFrom_cons, hr, loadRecord, encodeEntries,
      loadFrom_entries hh, hf, loadFrom_cons]
    change Except.ok (_ ++ [], _) = _
    rw [append_nil]
  rw [loadRDBFile_eq, hfi, hp, hcr, hl, checksumRight_crc]
  have hm : (encodePayload saved ω entries aux).take 5 = lit "REDIS" := rfl
  rw [if_neg, if_neg (not_not_intro hm)]
  · rfl
  · have hmi : 10 ≤ (encodePayload saved ω entries aux).length := by
      unfold encodePayload
      simp only [length_append, length_cons]
      have : rdbMagicHeader.length = 9 := rfl
      omega
    omega

theorem rdb_round_trip_one : loadRDBFile 5 (saveRDBFile 0 (.plain 0) [⟨lit "k", .list [lit "v", []], 7⟩] ∅) =
    .ok ([⟨lit "k", .list [lit "v", []], 7⟩], .ok ∅) := by
  have hh : (⟨lit "k", .list [lit "v", []], 7⟩ : RDBEntry).Held := ⟨by decide, ⟨by decide, by decide⟩, by decide⟩
  have ha : HeldMap ∅ := ⟨by decide, fun k v h => by cases (lookup_empty k).symm.trans h⟩
  exact rdb_round_trip (.plain 0) (by decide) (by decide) (fun en hen => by rw [mem_singleton.1 hen]; exact hh) ha

/-! ### Loads that fail -/

/-- Reading from here, the loop hands an entry over and goes on with `t`. -/
inductive LoadHands (now : Int) : Bytes → Bytes → Prop
  | entry {b : UInt8} {s t : Bytes} {en : RDBEntry} (hrec : (readRecord b).run s = .ok (.entry en, t)) (hlive : en.isExpired now = false) :
      LoadHands now (b :: s) t
  | next {b : UInt8} {s s' t : Bytes} {rec : RDBRecord} (hrec : (readRecord b).run s = .ok (rec, s')) (heof : rec ≠ .eof)
      (hnext : LoadHands now s' t) : LoadHands now (b :: s) t

/-- Reading from here, the loop comes to the end (`true`) or to a record that it cannot read. -/
inductive LoadCloses : Bool → Bytes → Prop
  | nil : LoadCloses true []
  | eof {b : UInt8} {s s' : Bytes} (hrec : (readRecord b).run s = .ok (.eof, s')) : LoadCloses true (b :: s)
  | bad {b : UInt8} {s : Bytes} {e : RDBError} (hrec : (readRecord b).run s = .error (.error e)) : LoadCloses false (b :: s)
  | next {ok : Bool} {b : UInt8} {s s' : Bytes} {rec : RDBRecord} (hrec : (readRecord b).run s = .ok (rec, s')) (heof : rec ≠ .eof)
      (hnext : LoadCloses ok s') : LoadCloses ok (b :: s)

section

variable {now : Int} {ok ok' : Bool} {b : UInt8} {s s' t : Bytes} {rec : RDBRecord}

theorem loadCloses_next (hre : (readRecord b).run s = .ok (rec, s')) (he : rec ≠ .eof) : LoadCloses ok (b :: s) ↔ LoadCloses ok s' := by
  refine ⟨fun h => ?_, .next hre he⟩
  cases h with
  | eof hr =>
    cases hre.symm.trans hr
    exact absurd rfl he
  | bad hr => cases hre.symm.trans hr
  | next hr _ hn =>
    cases hre.symm.trans hr
    exact hn

theorem loadHands_next (hr : (readRecord b).run s = .ok (rec, s')) (he : rec ≠ .eof) :
    LoadHands now (b :: s) t ↔ (∃ en, rec = .entry en ∧ en.isExpired now = false ∧ t = s') ∨ LoadHands now s' t := by
  constructor
  · intro h
    cases h with
    | entry hre hl =>
      cases hr.symm.trans hre
      exact .inl ⟨_, rfl, hl, rfl⟩
    | next hre _ hn =>
      cases hr.symm.trans hre
      exact .inr hn
  · rintro (⟨en, rfl, hl, rfl⟩ | h)
    · exact .entry hr hl
    · exact .next hr he h

/-- What the loop returns: how it closes, and whether it handed over an entry before. -/
def Tells (now : Int) (s : Bytes) : RDBLoad → Prop
  | .error _ => ∀ ok, ¬ LoadCloses ok s
  | .ok (entries, result) => ∀ ok, (LoadCloses ok s ↔ ok = result.isOk) ∧ (LoadCloses ok s → (entries ≠ [] ↔ ∃ t, LoadHands now s t ∧ LoadCloses ok t))

theorem Tells.next {load : RDBLoad} (h : Tells now s' load) (hr : (readRecord b).run s = .ok (rec, s')) (he : rec ≠ .eof)
    (hd : ∀ en, rec = .entry en → en.isExpired now = true) : Tells now (b :: s) load := by
  have hh : ∀ t, LoadHands now (b :: s) t ↔ LoadHands now s' t := by
    intro t
    rw [loadHands_next hr he, or_iff_right]
    rintro ⟨en, hen, hl, -⟩
    exact Bool.noConfusion (hl.symm.trans (hd en hen))
  cases load with
  | error p =>
    intro ok
    rw [loadCloses_next hr he]
    exact h ok
  | ok x =>
    intro ok
    simp only [loadCloses_next hr he, hh]
    exact h ok

theorem Tells.entry {load : RDBLoad} (h : Tells now s' load) (hr : (readRecord b).run s = .ok (.entry en, s'))
    (hl : en.isExpired now = false) : Tells now (b :: s) (load.map fun x => (en :: x.1, x.2)) := by
  cases load with
  | error p =>
    intro ok
    rw [loadCloses_next hr nofun]
    exact h ok
  | ok x =>
    intro ok
    rw [loadCloses_next hr nofun]
    exact ⟨(h ok).1, fun hc => iff_of_true (cons_ne_nil _ _) ⟨s', .entry hr hl, hc⟩⟩

end

end VortexKV
