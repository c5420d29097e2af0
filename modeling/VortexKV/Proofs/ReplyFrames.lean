import VortexKV.Proofs.Frames
import VortexKV.Proofs.ErrorEffects
import VortexKV.Proofs.StreamIds

/-!
# The replies of data commands are framed

The texts of the errors are fixed but for the subcommand that `XGROUP` and `XINFO` repeat and the ID that `XADD` quotes;
everything else goes into bulk strings, where it need only be within the reader's limits (`framed_action`).
-/

namespace VortexKV

open KeyedStore List Prog

variable {m n : Nat} {s : Stream} {l : List Bytes} {k key e id : Bytes} {v : Value} {β α : Type} {name : List Char} {h : GoMap Bytes}
  {count : Int} {pairs : List (Bytes × Bytes)} {g : ConsumerGroup}

/-! ### Lines -/

def Line (n : Nat) (s : Bytes) : Prop := 10 ∉ s ∧ s.length ≤ n

abbrev Tidy (s : Bytes) : Prop := Line 8192 s

theorem Line.append {s t : Bytes} (hs : Line m s) (ht : Line n t) : Line (m + n) (s ++ t) := by
  refine ⟨?_, ?_⟩
  · rw [mem_append, not_or]
    exact ⟨hs.1, ht.1⟩
  · rw [length_append]
    exact Nat.add_le_add hs.2 ht.2

theorem Line.mono {s : Bytes} (h : Line m s) (hmn : m ≤ n) : Line n s := ⟨h.1, h.2.trans hmn⟩

def oneLine (l : List Char) : Bool := l.all fun c => c.toNat % 256 != 10

theorem line_lit (l : List Char) (h : oneLine l = true) :
    Line l.length (lit (String.ofList l)) := by
  refine ⟨fun hm => ?_, ?_⟩
  · simp only [lit, String.toList_ofList, mem_map] at hm
    obtain ⟨c, hc, heq⟩ := hm
    have ht := congrArg UInt8.toNat heq
    have hc' := all_eq_true.1 h c hc
    simp only [Nat.toUInt8_eq, UInt8.toNat_ofNat', UInt8.reduceToNat] at ht
    simp only [bne_iff_ne] at hc'
    omega
  · simp [lit]

theorem framed_bulkString {s : Bytes} (h : Short s) : (Value.bulkString s).Framed := by
  refine (framed_iff_fits rfl).2 fun _ => ?_
  unfold Value.text
  split
  · exact h
  · exact Nat.zero_le _

theorem framed_ofArray {l : List Value} (hn : Few l.length) (h : ∀ v ∈ l, v.Framed) : (Value.ofArray l).Framed :=
  throughout_iff.2 ⟨fun _ => hn, h⟩

theorem framed_tuple {l : List Value} (hn : l.length ≤ 64) (h : l.Forall Value.Framed) : (Value.ofArray l).Framed :=
  framed_ofArray (hn.trans (by decide)) (forall_iff_forall_mem.1 h)

def Outcome.Framed : Outcome → Prop
  | .ok (v, _) => v.Framed
  | .error _ => True

section

variable {α : Type}

end

/-! ### Sizes -/

structure StreamEntry.Modest (e : StreamEntry) : Prop where
  id : Short e.id
  order : Few (2 * e.order.length)
  names : ∀ f ∈ e.order, Short f
  values : ∀ f v, e.fields.lookup f = some v → Short v

structure PendingEntry.Modest (pe : PendingEntry) : Prop where
  id : Short pe.id
  owner : Short pe.consumerName

structure ConsumerGroup.Modest (g : ConsumerGroup) : Prop where
  name : Short g.name
  last : Short g.lastDeliveredID
  consumers : Few (mapLen g.consumers)
  consumer : ∀ n c, g.consumers.lookup n = some c → Short c.name
  pending : Few (mapLen g.pel)
  pendingEntry : ∀ id pe, g.pel.lookup id = some pe → Short id ∧ pe.Modest

structure Stream.Modest (s : Stream) : Prop where
  entries : Few s.entries.length
  entry : ∀ e ∈ s.entries, e.Modest
  lastID : s.lastID.Valid
  groups : Few (mapLen s.groups)
  group : ∀ n g, s.groups.lookup n = some g → g.Modest

/-- A value within the reader's limits, so that what is read of it can be one reply. -/
def Datum.Modest : Datum → Prop
  | string s => Short s
  | hash h => Few (2 * mapLen h) ∧ ∀ f v, h.lookup f = some v → Short f ∧ Short v
  | list l => Few l.length ∧ ∀ x ∈ l, Short x
  | set s => Few s.card ∧ ∀ x ∈ s, Short x
  | zset z => Few (2 * z.nodes.length) ∧ ∀ n ∈ z.nodes, Short n.member
  | stream s => s.Modest
  | vector v => v.dimension < 2 ^ 64 ∧ mapLen v.vectors < 2 ^ 64

def LiveModest (now : Int) (ks : Keyspace) : Prop := ∀ k d t, Keyspace.view now ks k = some (d, t) → d.Modest

/-- What Go's library returns for the model's open functions. -/
structure Runtime.Modest (rt : Runtime) : Prop where
  quote : ∀ s, 10 ∉ rt.quote s ∧ (rt.quote s).length ≤ 4 * s.length + 2
  formatFloat : ∀ x, Short (rt.formatFloat x)
  vectorScore : ∀ b v w, Short (rt.vectorScore b v w)
  sha1hex : ∀ s, Short (toLower rt.unicode (rt.sha1hex s))
  hexDecode : ∀ s msg, rt.hexDecode s = .error msg → Tidy msg
  wasmCompile : ∀ s msg, rt.wasmCompile s = some msg → Tidy msg

structure Readings.Modest (r : Readings) : Prop where
  clock : -2 ^ 63 ≤ r.now ∧ r.now < 2 ^ 63
  vectorSearch : ∀ v q k m ef, Few (r.vectorSearch v q k m ef).length ∧
    ∀ p ∈ r.vectorSearch v q k m ef, Short p.1 ∧ Short p.2
  vectorInfo : ∀ v, Few (2 * ((r.vectorInfo v).length + 2)) ∧ ∀ p ∈ r.vectorInfo v, Short p.1 ∧ Short p.2
  info : r.info.length + r.replicationInfo.length + 64 ≤ MaxBulkLength.toNat
  slowLogs : (Value.ofArray r.slowLogs).Framed
  clusterNodes : Short r.clusterNodes
  clusterSlots : r.clusterSlots.Framed
  clusterInfo : Short r.clusterInfo
  meet : ∀ cm ip port bus msg, r.meet cm ip port bus = .error msg → Tidy msg
  saveError : ∀ msg, r.saveError = some msg → Tidy msg
  saveConfigError : ∀ msg, r.saveConfigError = some msg → Tidy msg

section

variable {rt : Runtime} {r : Readings} {now : Int} {ks : Keyspace} {args : List Bytes}

theorem LiveModest.get (h : LiveModest now ks) (k : Bytes) : LiveModest now ((KsProg.get k).run (ksStep now) ks).2 := by
  intro k' d t hv
  rw [view_run_get] at hv
  exact h k' d t hv

theorem LiveModest.reads (h : LiveModest now ks) {P : Bytes → Prop} {p : KsProg α} (hp : Reads P p) :
    LiveModest now (p.run (ksStep now) ks).2 := by
  intro k d t hv
  rw [hp.view] at hv
  exact h k d t hv

theorem framed_stream (hk : Short k) (hv : v.Framed) :
    (Value.ofArray [.bulkString k, v]).Framed :=
  framed_tuple (by simp) ⟨framed_bulkString hk, hv⟩

def AllFramed (n : Nat) (vs : List Value) : Prop := vs.length ≤ n ∧ ∀ v ∈ vs, v.Framed

theorem AllFramed.stream {he : List StreamEntry} {later : List Value} (h : AllFramed n later)
    (hk : Short k) (hh : (Value.ofArray (he.map entryValue)).Framed) :
    AllFramed (n + 1) (if he = [] then later
      else .ofArray [.bulkString k, .ofArray (he.map entryValue)] :: later) := by
  split
  · exact ⟨h.1.trans (Nat.le_succ n), h.2⟩
  · exact ⟨Nat.succ_le_succ h.1, forall_mem_cons.2 ⟨framed_stream hk hh, h.2⟩⟩

def EntriesModest (now : Int) (ks : Keyspace) : Prop := ∀ k s t, Keyspace.view now ks k = some (.stream s, t) →
  Few s.entries.length ∧ ∀ e ∈ s.entries, e.Modest

theorem LiveModest.entries (h : LiveModest now ks) : EntriesModest now ks := fun k s t hv =>
  ⟨(h k (.stream s) t hv).entries, (h k (.stream s) t hv).entry⟩

def KeysModest (ks : Keyspace) : Prop := Few (mapLen ks.entries) ∧ ∀ k ∈ ks.entries, Short k

end

end VortexKV
