import VortexKV.Proofs.Leaves
import VortexKV.Proofs.SortedSet
import VortexKV.Proofs.StreamIds

/-!
# Values from their commands

What the commands of `DumpAllCommands` for one value leave where the key is not there (`rebuilt`), and which values come
back (`Datum.Rebuildable`).
-/

namespace VortexKV

open KeyedStore List

variable {vec : List UInt32} {σ : List Bytes → List Bytes}

/-! ### The arguments -/

theorem slice_all {α : Type} (l : List α) : GoList.slice l 0 (-1) = l := by
  unfold GoList.slice GoList.clampRange
  cases l with
  | nil => rfl
  | cons x l =>
    have hlen : ((x :: l).length : Int) = l.length + 1 := by simp
    rw [if_neg (by omega)]
    rw [if_neg (by omega)]
    simp

theorem scan_all (l : List StreamEntry) : Stream.scan (fun _ => false) (fun _ => false) none l = l := by
  induction l with
  | nil => rfl
  | cons e l ih => simp [Stream.scan, ih]

theorem range_all (s : Stream) : s.range "-" "+" 0 = s.entries := by
  have hb : Stream.below "-" = fun _ => false := by
    funext e
    simp [Stream.below]
  have ha : Stream.above "+" = fun _ => false := by
    funext e
    simp [Stream.above]
  rw [Stream.range, hb, ha]
  exact scan_all _

theorem setPairs_eq (args : List Bytes) (h : GoMap Bytes) : (Hash.setPairs args h).2 = Hash.ofPairs args h := by
  induction args, h using Hash.ofPairs.induct with
  | case1 f v rest h ih => exact ih
  | case2 args h ha =>
    rcases args with _ | ⟨f, _ | ⟨v, rest⟩⟩
    · rfl
    · rfl
    · exact absurd rfl (ha f v rest)

theorem lookup_ofPairs (g : Bytes → Bytes) (l : List Bytes) (h : GoMap Bytes) (f : Bytes) :
    (Hash.ofPairs (l.flatMap fun f => [f, g f]) h).lookup f = if f ∈ l then some (g f) else h.lookup f := by
  induction l generalizing h with
  | nil => rfl
  | cons a l ih =>
    change (Hash.ofPairs (l.flatMap fun f => [f, g f]) (h.insert a (g a))).lookup f = _
    rw [ih]
    by_cases hf : f = a
    · subst hf
      simp
    · simp [hf, Finmap.lookup_insert_of_ne]

section

variable {σ : List Bytes → List Bytes} (hσ : ∀ l, (σ l).Perm l) (m : GoMap Bytes)

include hσ

theorem ofPairs_pairArgs : Hash.ofPairs (pairArgs σ m) ∅ = m := by
  refine Finmap.ext_lookup fun f => ?_
  simp only [pairArgs, lookup_ofPairs, (hσ _).mem_iff, mem_sortedKeys]
  split
  · rename_i hf
    obtain ⟨v, hv⟩ := Option.isSome_iff_exists.1 (Finmap.lookup_isSome.2 hf)
    rw [hv]
    rfl
  · rename_i hf
    rw [Finmap.lookup_eq_none.2 hf, Finmap.lookup_empty]

omit hσ in
theorem fieldOrder_pairArgs : fieldOrder (pairArgs σ m) = σ (sortedKeys m) := by
  unfold pairArgs
  induction σ (sortedKeys m) with
  | nil => rfl
  | cons f l ih => exact congrArg (f :: ·) ih

omit hσ in
theorem length_pairArgs : (pairArgs σ m).length = 2 * (σ (sortedKeys m)).length := by
  unfold pairArgs
  induction σ (sortedKeys m) with
  | nil => rfl
  | cons f l ih =>
    rw [flatMap_cons, length_append, ih, length_cons, length_cons, length_cons, length_nil]
    omega

theorem pairArgs_eq_nil : pairArgs σ m = [] ↔ m = ∅ := by
  rw [← length_eq_zero_iff, length_pairArgs, (hσ _).length_eq]
  constructor
  · intro h
    refine Finmap.ext_lookup fun f => ?_
    rw [Finmap.lookup_empty, Finmap.lookup_eq_none, ← mem_sortedKeys, eq_nil_of_length_eq_zero (by omega : (sortedKeys m).length = 0)]
    exact not_mem_nil
  · rintro rfl
    rfl

end

theorem ofName_dump (u : Unicode) : Cmd.ofName (toUpperFast u "SET") = .data .set ∧
    Cmd.ofName (toUpperFast u "HSET") = .data .hset ∧ Cmd.ofName (toUpperFast u "RPUSH") = .data .rpush ∧
    Cmd.ofName (toUpperFast u "SADD") = .data .sadd ∧ Cmd.ofName (toUpperFast u "ZADD") = .data .zadd ∧
    Cmd.ofName (toUpperFast u "VADD") = .data .vadd ∧ Cmd.ofName (toUpperFast u "XADD") = .data .xadd ∧
    Cmd.ofName (toUpperFast u "PEXPIREAT") = .unknown := by
  have hf : ∀ s : Bytes, s.any isLower = false → toUpperFast u s = s := fun s hs => by
    rw [toUpperFast, hs]
    rfl
  refine ⟨?_, ?_, ?_, ?_, ?_, ?_, ?_, ?_⟩ <;>
    rw [hf _ (by decide)] <;> decide

/-! ### Values that come back -/

structure Stream.Rebuildable (s : Stream) : Prop where
  nonempty : s.entries ≠ []
  groups : s.groups = ∅
  ids : ∃ sids : List StreamID, s.entries.map StreamEntry.id = sids.map StreamID.toBytes ∧ (∀ sid ∈ sids, sid.Valid) ∧
    sids.Pairwise StreamID.Lt ∧ sids.getLast? = some s.lastID
  fields : ∀ e ∈ s.entries, mapLen e.fields = 1 ∧ e.order = sortedKeys e.fields

structure VectorIndex.Rebuildable (rt : Runtime) (v : VectorIndex) : Prop where
  nonempty : v.vectors ≠ ∅
  dimension : 0 < v.dimension
  vectors : ∀ id vec, v.vectors.lookup id = some vec → vec.length = v.dimension ∧
    ∀ x ∈ vec, rt.parseFloat32 (rt.formatFloat32 x) = some x

def SkipList.Repeated (z : SkipList) : Prop :=
  ∃ n k, n.score.isNaN = true ∧ z = ⟨List.replicate (k + 1) n, (∅ : GoMap F64).insert n.member n.score⟩

/-- Next to a NaN it depends on the heights of the nodes where an insertion ends, which only copies of one node
do not notice. -/
structure SkipList.Rebuildable (rt : Runtime) (z : SkipList) : Prop where
  nonempty : z.nodes ≠ []
  chain : z.Ordered ∨ z.Repeated
  texts : ∀ n ∈ z.nodes, rt.parseFloat (rt.formatFloat n.score) = some n.score

def Datum.Rebuildable (rt : Runtime) : Datum → Prop
  | string _ => True
  | hash h => h ≠ ∅
  | list l => l ≠ []
  | set s => s ≠ ∅
  | zset z => z.Rebuildable rt
  | stream s => s.Rebuildable
  | vector v => v.Rebuildable rt

section

variable {rt : Runtime} {ω : Env} {i : Nat} {k : Bytes} {ks : Keyspace}

/-! ### One command for a whole value -/

/-- The programs that create a value where there is none, store it changed and reply. -/
def revise {α : Type} (as : Datum → Option α) (new : Datum) (g : α → Datum) (out : α → Outcome) (k : Bytes) : KsProg Outcome :=
  withNewValue as k new fun a => KsProg.put k (g a) >>= fun _ => pure (out a)

section

variable {α : Type} {as : Datum → Option α} {new v : Datum} {g : α → Datum} {out : α → Outcome} {name : Bytes} {args : List Bytes}
  {d : DataCmd}

theorem leaves_revise (hc : Cmd.ofName (toUpperFast rt.unicode name) = .data d)
    (hp : d.action rt (ω.sub i []) (k :: args) = .prog (revise as new g out k)) (hs : ∀ s, ¬ d.Stops rt (k :: args) s)
    (hn : ks.content k = none) :
    Leaves rt ω i [name :: k :: args] k ks (· = some (edit as g (new, 0))) := by
  have hv : (Keyspace.view (ω.sub i []).fastNow ks k).getD (new, 0) = (new, 0) := view_getD (by rw [hn]; rfl) _
  refine leaves_prog hc hp hs (fun k' => ?_) rfl
  rw [← hv]
  exact content_withNewValue _ _ g (fun a => ⟨_, rfl⟩) k'

theorem leaves_dumpArgs {empty : Prop} [Decidable empty] (hc : Cmd.ofName (toUpperFast rt.unicode name) = .data d)
    (he : args = [] ↔ empty) (hp : args ≠ [] → d.action rt (ω.sub i []) (k :: args) = .prog (revise as new g out k))
    (hs : ∀ s, ¬ d.Stops rt (k :: args) s) (hv : edit as g (new, 0) = (v, 0)) (hn : ks.content k = none) :
    Leaves rt ω i (dumpArgs name k args) k ks (· = if empty then none else some (v, 0)) := by
  unfold dumpArgs
  split
  · rename_i ha
    rw [if_pos (he.1 ha)]
    exact leaves_nil hn
  · rename_i ha
    rw [if_neg (mt he.2 ha), ← hv]
    exact leaves_revise hc (hp ha) hs hn

end

variable (ω' : Env)

theorem leaves_string (s : Bytes) : Leaves rt ω i (Datum.dump rt ω' k (.string s)) k ks (· = some (.string s, 0)) :=
  leaves_prog (ofName_dump rt.unicode).1 rfl (fun _ h => h) (content_run_set _ ks k (.string s) 0) rfl

theorem leaves_hash (h : GoMap Bytes) (hn : ks.content k = none) :
    Leaves rt ω i (Datum.dump rt ω' k (.hash h)) k ks (· = if h = ∅ then none else some (.hash h, 0)) := by
  have hpe := (ω' []).shuffle_perm
  let args := pairArgs (ω' []).shuffle h
  have hp : args ≠ [] → DataCmd.hset.action rt (ω.sub i []) (k :: args) = .prog (revise Datum.hash? (.hash ∅)
      (fun h' => .hash (Hash.setPairs args h').2) (fun h' => wrote (.integer (Hash.setPairs args h').1)) k) := by
    intro ha
    have hlen : args.length = _ := length_pairArgs h
    have hpo := length_pos_of_ne_nil ha
    exact congrArg Action.prog (if_neg (by omega))
  refine leaves_dumpArgs (ofName_dump rt.unicode).2.1 (pairArgs_eq_nil hpe h) hp (fun _ h => h) ?_ hn
  exact congrArg (fun h => (Datum.hash h, (0 : Int))) ((setPairs_eq _ _).trans (ofPairs_pairArgs hpe h))

theorem leaves_list (l : List Bytes) (hn : ks.content k = none) :
    Leaves rt ω i (Datum.dump rt ω' k (.list l)) k ks (· = if l = [] then none else some (.list l, 0)) := by
  rw [Datum.dump, GoList.range, slice_all]
  have hp : l ≠ [] → DataCmd.rpush.action rt (ω.sub i []) (k :: l) = .prog (revise Datum.list? (.list [])
      (fun l' => .list (GoList.rPush l l')) (fun l' => wrote (.integer (GoList.rPush l l').length)) k) := by
    intro hl
    cases l with
    | nil => exact absurd rfl hl
    | cons x l => rfl
  exact leaves_dumpArgs (ofName_dump rt.unicode).2.2.1 Iff.rfl hp (fun _ h => h) rfl hn

theorem leaves_set (s : Finset Bytes) (hn : ks.content k = none) :
    Leaves rt ω i (Datum.dump rt ω' k (.set s)) k ks (· = if s = ∅ then none else some (.set s, 0)) := by
  have hpe := (ω' []).shuffle_perm (sortedList s)
  have hm : ∀ x, x ∈ (ω' []).shuffle (sortedList s) ↔ x ∈ s := fun x => hpe.mem_iff.trans mem_sortedList
  rw [Datum.dump]
  generalize (ω' []).shuffle (sortedList s) = args at hm
  have hp : args ≠ [] → DataCmd.sadd.action rt (ω.sub i []) (k :: args) = .prog (revise Datum.set? (.set ∅)
      (fun s' => .set (GoSet.add args s').2) (fun s' => wrote (.integer (GoSet.add args s').1)) k) := by
    intro ha
    cases args with
    | nil => exact absurd rfl ha
    | cons x args => rfl
  have hset : (GoSet.add args ∅).2 = s := by
    rw [GoSet.add_eq, Finset.union_empty]
    ext x
    rw [mem_toFinset, hm]
  have he : args = [] ↔ s = ∅ := by
    rw [eq_nil_iff_forall_not_mem, Finset.eq_empty_iff_forall_notMem]
    simp only [hm]
  exact leaves_dumpArgs (ofName_dump rt.unicode).2.2.2.1 he hp (fun _ h => h)
    (congrArg (fun s => (Datum.set s, (0 : Int))) hset) hn

theorem leaves_zset (z : SkipList) (hn : ks.content k = none) :
    Leaves rt ω i (Datum.dump rt ω' k (.zset z)) k ks
      (· = if z.nodes = [] then none else some (.zset (zaddLoop rt (ω.sub i []) (scoreArgs rt z.nodes) .new).2.2, 0)) := by
  have hr : z.range 0 (-1) false = z.nodes := slice_all z.nodes
  rw [Datum.dump, hr]
  have hlen : (scoreArgs rt z.nodes).length = 2 * z.nodes.length := by
    unfold scoreArgs
    induction z.nodes with
    | nil => rfl
    | cons n nodes ih =>
      rw [flatMap_cons, length_append, ih, length_cons, length_cons, length_cons, length_nil]
      omega
  have he : scoreArgs rt z.nodes = [] ↔ z.nodes = [] := by
    rw [← length_eq_zero_iff, ← length_eq_zero_iff, hlen]
    omega
  have hp : scoreArgs rt z.nodes ≠ [] → DataCmd.zadd.action rt (ω.sub i []) (k :: scoreArgs rt z.nodes) =
      .prog (revise Datum.zset? (.zset .new) (fun z' => .zset (zaddLoop rt (ω.sub i []) (scoreArgs rt z.nodes) z').2.2)
        (fun z' => if (zaddLoop rt (ω.sub i []) (scoreArgs rt z.nodes) z').1
          then wrote (.integer (zaddLoop rt (ω.sub i []) (scoreArgs rt z.nodes) z').2.1)
          else fails "ERR value is not a valid float") k) := by
    intro ha
    have hpo := length_pos_of_ne_nil ha
    exact congrArg Action.prog (if_neg (by omega))
  exact leaves_dumpArgs (ofName_dump rt.unicode).2.2.2.2.1 he hp (fun _ h => h) rfl hn

end

/-! ### Sorted sets -/

def parsedScores (rt : Runtime) : List ScoredMember → List ScoredMember
  | [] => []
  | n :: nodes => match rt.parseFloat (rt.formatFloat n.score) with
    | none => []
    | some x => ⟨n.member, x⟩ :: parsedScores rt nodes

section

variable {rt : Runtime} {nodes : List ScoredMember} {z : SkipList}

theorem zaddLoop_scoreArgs (r : Readings) (nodes : List ScoredMember) (z : SkipList) :
    (zaddLoop rt r (scoreArgs rt nodes) z).2.2 = SkipList.insertAll r.near (parsedScores rt nodes) z := by
  induction nodes generalizing z with
  | nil => rfl
  | cons n nodes ih =>
    change (zaddLoop rt r (rt.formatFloat n.score :: n.member :: scoreArgs rt nodes) z).2.2 = _
    unfold zaddLoop parsedScores
    cases rt.parseFloat (rt.formatFloat n.score) with
    | none => rfl
    | some x => exact ih _

theorem parsedScores_eq (h : ∀ n ∈ nodes, rt.parseFloat (rt.formatFloat n.score) = some n.score) :
    parsedScores rt nodes = nodes := by
  induction nodes with
  | nil => rfl
  | cons n nodes ih =>
    rw [parsedScores, h n (by simp)]
    exact congrArg (n :: ·) (ih fun n hn => h n (by simp [hn]))

theorem parsedScores_length (h : nodes.length ≤ (parsedScores rt nodes).length) :
    (parsedScores rt nodes).map ScoredMember.member = nodes.map ScoredMember.member ∧
      ∀ n ∈ nodes, ∃ x, rt.parseFloat (rt.formatFloat n.score) = some x ∧ ⟨n.member, x⟩ ∈ parsedScores rt nodes := by
  induction nodes with
  | nil => exact ⟨rfl, nofun⟩
  | cons n nodes ih =>
    unfold parsedScores at h ⊢
    cases hx : rt.parseFloat (rt.formatFloat n.score) with
    | none =>
      rw [hx] at h
      simp at h
    | some x =>
      rw [hx] at h
      obtain ⟨hm, hme⟩ := ih (by simpa using h)
      refine ⟨by simp [hm], fun a ha => ?_⟩
      rcases mem_cons.1 ha with rfl | ha
      · exact ⟨x, hx, mem_cons_self⟩
      · exact (hme a ha).imp fun y hy => ⟨hy.1, mem_cons_of_mem _ hy.2⟩

theorem SkipList.rebuildable_iff (z : SkipList) :
    z.Rebuildable rt ↔ z.nodes ≠ [] ∧ ∀ r, (zaddLoop rt r (scoreArgs rt z.nodes) .new).2.2 = z := by
  simp only [zaddLoop_scoreArgs]
  constructor
  · rintro ⟨hne, hch, ht⟩
    refine ⟨hne, fun r => ?_⟩
    rw [parsedScores_eq ht]
    rcases hch with ho | ⟨n, k, hna, rfl⟩
    · exact ho.ofNodes r.near
    · exact insertAll_replicate r.near hna k
  · rintro ⟨hne, h⟩
    have hnr : ∀ near, insertAll near (parsedScores rt z.nodes) .new = z := fun near => h { Readings.plain 0 with near := near }
    let first : List ScoredMember → F64 → Bytes → Nat := fun _ _ _ => 0
    have hz := hnr first
    have hlen : z.nodes.length ≤ (parsedScores rt z.nodes).length := by
      have hle := length_insertAll_le first (parsedScores rt z.nodes) .new
      rw [hz] at hle
      simpa [SkipList.new] using hle
    obtain ⟨hm, hme⟩ := parsedScores_length hlen
    by_cases hna : ∃ n ∈ z.nodes, n.score.isNaN = true
    · have hln : z.nodes.length = (parsedScores rt z.nodes).length := by
        simpa using (congrArg List.length hm).symm
      obtain ⟨a, k, ha, hi⟩ := replicate_of_insertAll hnr hln hm.symm hna
      have hc : z = ⟨List.replicate (k + 1) a, (∅ : GoMap F64).insert a.member a.score⟩ := by
        rw [← insertAll_replicate first ha k, ← hi, hz]
      refine ⟨hne, .inr ⟨a, k, ha, hc⟩, fun n hn => ?_⟩
      obtain ⟨x, hx, hxm⟩ := hme n hn
      rw [hc] at hn
      rw [hi] at hxm
      have hxa := eq_of_mem_replicate hxm
      rw [← eq_of_mem_replicate hn] at hxa
      rw [hx, ← hxa]
    · -- a NaN among the scores read would still be in the chain
      have hp : ∀ n ∈ parsedScores rt z.nodes, n.score.isNaN = false := by
        intro n hn
        by_contra he
        have hin := mem_insertAll_of_isNaN first (z := .new) (.inr hn) (by simpa using he)
        rw [hz] at hin
        exact hna ⟨n, hin, by simpa using he⟩
      have ho : z.Ordered := hz ▸ ordered_new.insertAll first hp
      have hd : (parsedScores rt z.nodes).Pairwise fun a b => a.member ≠ b.member := by
        rw [← pairwise_map, hm, pairwise_map]
        exact ho.distinct
      refine ⟨hne, .inl ho, fun n hn => ?_⟩
      obtain ⟨x, hx, hxm⟩ := hme n hn
      have hl := lookup_insertAll first (z := .new) hd hxm
      rw [hz, (ho.dict n.member n.score).2 hn] at hl
      rw [hx, ← hl]

end

/-! ### Vectors -/

section

variable {rt : Runtime} {ω : Env} {i : Nat} {k : Bytes} {ks : Keyspace} {v : VectorIndex}

theorem parseVector_texts {rt : Runtime} (i : Nat) :
    parseVector rt i (vec.map rt.formatFloat32) = .ok vec ↔ ∀ x ∈ vec, rt.parseFloat32 (rt.formatFloat32 x) = some x := by
  induction vec generalizing i with
  | nil => exact ⟨fun _ => nofun, fun _ => rfl⟩
  | cons x vec ih =>
    rw [map_cons, parseVector, forall_mem_cons, ← ih (i + 1)]
    cases rt.parseFloat32 (rt.formatFloat32 x) with
    | none => exact ⟨nofun, fun h => nomatch h.1⟩
    | some y => cases parseVector rt (i + 1) (vec.map rt.formatFloat32) with
      | error j => exact ⟨nofun, fun h => nomatch h.2⟩
      | ok vec' =>
        constructor
        · intro h
          cases h
          exact ⟨rfl, rfl⟩
        · rintro ⟨hy, hv⟩
          cases hy
          cases hv
          rfl

theorem length_parseVector {args : List Bytes} {i : Nat} (h : parseVector rt i args = .ok vec) :
    vec.length = args.length := by
  induction args generalizing i vec with
  | nil =>
    cases h
    rfl
  | cons a args ih =>
    unfold parseVector at h
    cases ha : rt.parseFloat32 a with
    | none => rw [ha] at h; cases h
    | some x =>
      rw [ha] at h
      cases hr : parseVector rt (i + 1) args with
      | error j => rw [hr] at h; cases h
      | ok vec' =>
        rw [hr] at h
        cases h
        rw [length_cons, length_cons, ih hr]

theorem leaves_vadd_ok {Q : Option (Datum × Int) → Prop} {id : Bytes} {texts : List Bytes} (hp : 0 < vec.length)
    (hv : parseVector rt 1 texts = .ok vec) (hQ : Q (some (edit Datum.vector? (fun v => .vector (v.added id vec))
      ((Keyspace.view (ω.sub i []).fastNow ks k).getD (.vector (.new vec.length), 0))))) :
    Leaves rt ω i [lit "VADD" :: k :: id :: texts] k ks Q := by
  cases texts with
  | nil =>
    rw [length_parseVector hv] at hp
    exact absurd hp (lt_irrefl 0)
  | cons f fs =>
    exact leaves_prog (ofName_dump rt.unicode).2.2.2.2.2.1 rfl (fun _ h => h) (content_vadd _ ks hv) hQ

theorem leaves_vadd {Q : Option (Datum × Int) → Prop} {id : Bytes} {texts : List Bytes} (hsa : Q (ks.content k))
    (ha : ∀ vec, 0 < vec.length → parseVector rt 1 texts = .ok vec → Q (some (edit Datum.vector? (fun v => .vector (v.added id vec))
      ((Keyspace.view (ω.sub i []).fastNow ks k).getD (.vector (.new vec.length), 0))))) :
    Leaves rt ω i [lit "VADD" :: k :: id :: texts] k ks Q := by
  have hc := (ofName_dump rt.unicode).2.2.2.2.2.1
  cases texts with
  | nil => exact leaves_same hc rfl (fun _ h => h) rfl hsa
  | cons f fs =>
    cases hv : parseVector rt 1 (f :: fs) with
    | error j =>
      refine leaves_same hc rfl (fun _ h => h) ?_ hsa
      rw [handleVAdd, hv]
      rfl
    | ok vec =>
      have hp : 0 < vec.length := by
        rw [length_parseVector hv]
        exact Nat.succ_pos _
      exact leaves_vadd_ok hp hv (ha vec hp hv)

def VectorIndex.Parsed (rt : Runtime) (v v' : VectorIndex) : Prop :=
  0 < v'.dimension ∧ ∀ id vec, v'.vectors.lookup id = some vec → vec.length = v'.dimension ∧
    ∃ vec₀, v.vectors.lookup id = some vec₀ ∧ parseVector rt 1 (vec₀.map rt.formatFloat32) = .ok vec

theorem leaves_vector (ω' : Env) (v : VectorIndex) (hn : ks.content k = none) :
    Leaves rt ω i (Datum.dump rt ω' k (.vector v)) k ks
      fun x => x = none ∨ v.vectors ≠ ∅ ∧ ∃ v', x = some (.vector v', 0) ∧ v.Parsed rt v' := by
  refine leaves_inv (fun c hc i ks hks => ?_) (.inl hn)
  obtain ⟨id, hid, rfl⟩ := mem_map.1 hc
  rw [((ω' []).shuffle_perm _).mem_iff, mem_sortedKeys] at hid
  obtain ⟨vec₀, hv⟩ := Option.isSome_iff_exists.1 (Finmap.lookup_isSome.2 hid)
  have hne : v.vectors ≠ ∅ := by
    rintro hempty
    rw [hempty] at hid
    exact Finmap.notMem_empty hid
  rw [hv, Option.getD_some]
  refine leaves_vadd hks fun vec hpo hve => .inr ⟨hne, ?_⟩
  -- the index that the command finds, or creates with the right dimension
  obtain ⟨v', hv', hp, hd⟩ : ∃ v', (ks.content k).getD (.vector (.new vec.length), 0) = (.vector v', 0) ∧
      v.Parsed rt v' ∧ (0 < v'.dimension) := by
    rcases hks with hks | ⟨-, v', hks, hp⟩
    · refine ⟨.new vec.length, by rw [hks]; rfl, ⟨hpo, fun id vec h => ?_⟩, hpo⟩
      cases (Finmap.lookup_empty (β := fun _ => List UInt32) id).symm.trans h
    · exact ⟨v', by rw [hks]; rfl, hp, hp.1⟩
  rw [view_getD hv']
  refine ⟨v'.added id vec, rfl, ?_⟩
  unfold VectorIndex.added VectorIndex.add
  split
  · exact hp
  · rename_i hf
    have hlen : vec.length = v'.dimension := by
      by_contra hne
      exact hf ⟨hd, hne⟩
    rw [Option.getD_some, if_neg (by omega)]
    refine ⟨hd, fun id' vec' h => ?_⟩
    by_cases heq : id' = id
    · subst heq
      rw [Finmap.lookup_insert] at h
      cases h
      exact ⟨hlen, vec₀, hv, hve⟩
    · rw [Finmap.lookup_insert_of_ne _ heq] at h
      exact hp.2 id' vec' h

theorem leaves_vectors (h : v.Rebuildable rt) {ids : List Bytes} (hi : ∀ id ∈ ids, id ∈ v.vectors) {v₀ : VectorIndex}
    (hv' : (ks.content k).getD (.vector (.new v.dimension), 0) = (.vector v₀, 0)) (hd : v₀.dimension = v.dimension) :
    Leaves rt ω i (ids.map fun id => lit "VADD" :: k :: id :: ((v.vectors.lookup id).getD []).map rt.formatFloat32) k ks fun x =>
      (ids ≠ [] ∨ ks.content k ≠ none → x ≠ none) ∧ ∃ v₁, x.getD (.vector (.new v.dimension), 0) = (.vector v₁, 0) ∧ v₁.dimension = v.dimension ∧
        ∀ id, v₁.vectors.lookup id = if id ∈ ids then v.vectors.lookup id else v₀.vectors.lookup id := by
  induction ids generalizing i ks v₀ with
  | nil => exact leaves_nil ⟨fun hne => hne.resolve_left fun hne => hne rfl, v₀, hv', hd, fun id => rfl⟩
  | cons id ids ih =>
    obtain ⟨vec, hv⟩ := Option.isSome_iff_exists.1 (Finmap.lookup_isSome.2 (hi id (by simp)))
    obtain ⟨hlen, ht⟩ := h.vectors id vec hv
    have had : v₀.added id vec = ⟨v.dimension, v₀.vectors.insert id vec⟩ := by
      unfold VectorIndex.added VectorIndex.add
      rw [if_neg (by rw [hd, hlen]; exact fun hne => hne.2 rfl), Option.getD_some, if_neg (by rw [hd]; exact h.dimension.ne'), hd]
    have hf : Leaves rt ω i [lit "VADD" :: k :: id :: vec.map rt.formatFloat32] k ks
        fun x => x = some (.vector ⟨v.dimension, v₀.vectors.insert id vec⟩, 0) := by
      refine leaves_vadd_ok (hlen ▸ h.dimension) ((parseVector_texts 1).2 ht) ?_
      rw [hlen, view_getD hv', ← had]
      rfl
    rw [map_cons, hv, Option.getD_some]
    refine hf.append fun ks' hk => ?_
    obtain ⟨ks'', ha, hfr, hs, v₁, hv₁, hdi, hl⟩ :=
      @ih (i + 1) ks' (fun id hid => hi id (by simp [hid])) ⟨v.dimension, v₀.vectors.insert id vec⟩ (by rw [hk]; rfl) rfl
    refine ⟨ks'', ha, hfr, fun _ => ?_, v₁, hv₁, hdi, fun id' => ?_⟩
    · exact hs (.inr (by rw [hk]; simp))
    · rw [hl]
      by_cases hin : id' ∈ ids
      · rw [if_pos hin, if_pos (by simp [hin])]
      · rw [if_neg hin]
        by_cases heq : id' = id
        · subst heq
          rw [Finmap.lookup_insert, if_pos (by simp), hv]
        · rw [Finmap.lookup_insert_of_ne _ heq, if_neg (by simp [heq, hin])]

end

/-! ### Streams -/

def Stream.Numbered (s : Stream) : Prop :=
  s.lastID.Valid ∧ ∀ e ∈ s.entries, ∃ sid : StreamID, sid.Valid ∧ e.id = sid.toBytes

/-- A stream of dumped entries, the map loops over their fields having taken the order `σ`. -/
structure Stream.Grown (σ : List Bytes → List Bytes) (s : Stream) : Prop where
  groups : s.groups = ∅
  ids : ∃ sids : List StreamID, s.entries.map StreamEntry.id = sids.map StreamID.toBytes ∧ (∀ sid ∈ sids, sid.Valid) ∧
    sids.Pairwise StreamID.Lt ∧ (sids = [] ∨ sids.getLast? = some s.lastID)
  fields : ∀ e ∈ s.entries, e.fields ≠ ∅ ∧ e.order = σ (sortedKeys e.fields)

section

variable {rt : Runtime} {ω : Env} {i : Nat} {k : Bytes} {ks : Keyspace} {s : Stream} {sid : StreamID} {quote : Bytes → Bytes}
  {now : Int} {Q : Option (Datum × Int) → Prop}

theorem Stream.Numbered.added (h : s.Numbered) (id : Bytes) (fields : List Bytes) (maxlen : Int) :
    (s.added quote now id fields maxlen).Numbered := by
  unfold Stream.added Stream.add
  cases hs : s.assignID quote now id with
  | error e => exact h
  | ok sid =>
    have hv := valid_assignID h.1 hs
    have hn : Stream.Numbered { s with lastID := sid, entries := s.entries ++
        [⟨sid.toBytes, Hash.ofPairs fields ∅, fieldOrder fields⟩] } := by
      refine ⟨hv, fun e he => ?_⟩
      rcases mem_append.1 he with he | he
      · exact h.2 e he
      · rw [mem_singleton.1 he]
        exact ⟨sid, hv, rfl⟩
    dsimp only
    split
    · unfold Stream.trim
      split
      · exact hn
      · exact ⟨hv, fun e he => hn.2 e (mem_of_mem_drop he)⟩
    · exact hn

theorem leaves_xadd {rest : List Bytes} (hsa : Q (ks.content k))
    (ha : ∀ id fields maxlen, ¬ rest.length < 3 → xaddMaxlen rt rest = .ok (maxlen, id :: fields) →
      ¬ (fields = [] ∨ fields.length % 2 ≠ 0) → Q (some (edit Datum.stream?
        (fun s => .stream (s.added rt.quote (ω.sub i []).now id fields maxlen))
        ((Keyspace.view (ω.sub i []).fastNow ks k).getD (.stream .new, 0))))) :
    Leaves rt ω i [lit "XADD" :: k :: rest] k ks Q := by
  have hc := (ofName_dump rt.unicode).2.2.2.2.2.2.1
  by_cases hlen : rest.length < 3
  · refine leaves_same hc rfl (fun _ h => h) ?_ hsa
    rw [handleXAdd, if_pos hlen]
    rfl
  rcases hm : xaddMaxlen rt rest with e | ⟨maxlen, _ | ⟨id, fields⟩⟩
  · refine leaves_same hc rfl (fun _ h => h) ?_ hsa
    rw [handleXAdd, if_neg hlen, hm]
    rfl
  · refine leaves_same hc rfl (fun _ h => h) ?_ hsa
    rw [handleXAdd, if_neg hlen, hm]
    rfl
  by_cases hf : fields = [] ∨ fields.length % 2 ≠ 0
  · refine leaves_same hc rfl (fun _ h => h) ?_ hsa
    rw [handleXAdd, if_neg hlen, hm]
    dsimp only
    rw [if_pos hf]
    rfl
  · exact leaves_prog hc rfl (fun _ h => h) (content_handleXAdd _ ks k hlen hm hf)
      (ha id fields maxlen hlen hm hf)

theorem leaves_numbered {cs : List Command} (hcs : ∀ c ∈ cs, ∃ rest, c = lit "XADD" :: k :: rest)
    (hno : ks.content k = none) :
    Leaves rt ω i cs k ks fun x => x = none ∨ ∃ s : Stream, x = some (.stream s, 0) ∧ s.Numbered := by
  refine leaves_inv (fun c hc i ks hks => ?_) (.inl hno)
  obtain ⟨rest, rfl⟩ := hcs c hc
  refine leaves_xadd hks fun id fields maxlen _ _ _ => .inr ?_
  obtain ⟨s, hs, hn⟩ : ∃ s : Stream, (ks.content k).getD (.stream .new, 0) = (.stream s, 0) ∧ s.Numbered := by
    rcases hks with hks | ⟨s, hks, hn⟩
    · exact ⟨.new, by rw [hks]; rfl, ⟨by norm_num [Stream.new], by norm_num [Stream.new]⟩, nofun⟩
    · exact ⟨s, by rw [hks]; rfl, hn⟩
  rw [view_getD hs]
  exact ⟨_, rfl, hn.added id fields maxlen⟩

theorem assignID_plain (h : sid.Valid) (s : Stream) : s.assignID quote now sid.toBytes =
    if s.entries ≠ [] ∧ ¬ s.lastID.Lt sid then .error errInvalidStreamID else .ok sid := by
  obtain ⟨hs, hd, -⟩ := sid.toBytes_plain ⟨id, id⟩
  have hc : (s.entries ≠ [] ∧ (sid.millis < s.lastID.millis ∨ sid.millis = s.lastID.millis ∧ sid.seq ≤ s.lastID.seq)) ↔
      s.entries ≠ [] ∧ ¬ s.lastID.Lt sid := by
    unfold StreamID.Lt
    refine and_congr_right fun _ => ?_
    omega
  unfold Stream.assignID
  rw [if_neg hs, if_neg hd, StreamID.parse_toBytes h]
  simp only [hc]

theorem added_plain (h : sid.Valid) (hσ : ∀ l, (σ l).Perm l) (m : GoMap Bytes) (s : Stream) :
    s.added quote now sid.toBytes (pairArgs σ m) (-1) = if s.entries ≠ [] ∧ ¬ s.lastID.Lt sid then s
      else { s with lastID := sid, entries := s.entries ++ [⟨sid.toBytes, m, σ (sortedKeys m)⟩] } := by
  unfold Stream.added Stream.add
  rw [assignID_plain h, ofPairs_pairArgs hσ, fieldOrder_pairArgs]
  by_cases hr : s.entries ≠ [] ∧ ¬ s.lastID.Lt sid
  · rw [if_pos hr, if_pos hr]
  · rw [if_neg hr, if_neg hr]
    rfl

theorem Stream.Grown.push (h : s.Grown σ) (hsi : sid.Valid) (hlt : s.entries = [] ∨ s.lastID.Lt sid)
    {m : GoMap Bytes} (hm : m ≠ ∅) :
    Stream.Grown σ { s with lastID := sid, entries := s.entries ++ [⟨sid.toBytes, m, σ (sortedKeys m)⟩] } := by
  obtain ⟨sids, hi, hv, hs, hla⟩ := h.ids
  refine ⟨h.groups, ⟨sids ++ [sid], ?_, fun t ht => ?_, ?_, .inr (by simp)⟩, fun e he => ?_⟩
  · simp [hi]
  · rcases mem_append.1 ht with ht | ht
    · exact hv t ht
    · rwa [mem_singleton.1 ht]
  · rw [pairwise_append]
    refine ⟨hs, pairwise_singleton _ _, fun a ha b hb => ?_⟩
    rw [mem_singleton.1 hb]
    have hne : sids ≠ [] := ne_nil_of_mem ha
    have hlt : s.lastID.Lt sid := hlt.resolve_left fun hn => by
      rw [hn] at hi
      exact hne (map_eq_nil_iff.1 hi.symm)
    -- the last ID is that of the last entry, and no other is above it
    obtain ⟨l, hl⟩ := List.getLast?_eq_some_iff.1 (hla.resolve_left hne)
    rw [hl, mem_append, mem_singleton] at ha
    rcases ha with ha | rfl
    · rw [hl, pairwise_append] at hs
      exact (hs.2.2 a ha _ (by simp)).trans hlt
    · exact hlt
  · rcases mem_append.1 he with he | he
    · exact h.fields e he
    · rw [mem_singleton.1 he]
      exact ⟨hm, rfl⟩

def xaddCommand (k : Bytes) (σ : List Bytes → List Bytes) (e : StreamEntry) : Command :=
  lit "XADD" :: k :: e.id :: pairArgs σ e.fields

theorem dump_stream (rt : Runtime) (r : Readings) (k : Bytes) (s : Stream) :
    Datum.dump rt (fun _ => r) k (.stream s) = s.entries.map (xaddCommand k r.shuffle) := by
  rw [Datum.dump, range_all]
  exact ext_getElem (by simp) fun n h₁ h₂ => by simp [xaddCommand, Env.sub]

theorem leaves_xadd_plain {e : StreamEntry} (hσ : ∀ l, (σ l).Perm l) (hsi : sid.Valid)
    (hid : e.id = sid.toBytes) (hs : e.fields = ∅ → Q (ks.content k))
    (had : e.fields ≠ ∅ → Q (some (edit Datum.stream? (fun s => .stream (if s.entries ≠ [] ∧ ¬ s.lastID.Lt sid then s
      else { s with lastID := sid, entries := s.entries ++ [⟨sid.toBytes, e.fields, σ (sortedKeys e.fields)⟩] }))
      ((Keyspace.view (ω.sub i []).fastNow ks k).getD (.stream .new, 0))))) :
    Leaves rt ω i [xaddCommand k σ e] k ks Q := by
  have hn := pairArgs_eq_nil hσ e.fields
  have hlen := length_pairArgs (σ := σ) e.fields
  have hp : xaddMaxlen rt (e.id :: pairArgs σ e.fields) = .ok (-1, e.id :: pairArgs σ e.fields) := by
    rw [xaddMaxlen, hid, if_neg (sid.toBytes_plain rt.unicode).2.2]
  by_cases he : e.fields = ∅
  · refine leaves_xadd (hs he) fun id fields maxlen hl _ _ => ?_
    rw [length_cons, hn.2 he] at hl
    exact absurd (by decide) hl
  · have ha : pairArgs σ e.fields ≠ [] := mt hn.1 he
    have hpo := length_pos_of_ne_nil ha
    refine leaves_prog (ofName_dump rt.unicode).2.2.2.2.2.2.1 rfl (fun _ h => h)
      (content_handleXAdd _ ks k (by rw [length_cons]; omega) hp (by simp only [ha, false_or]; omega)) ?_
    rw [hid]
    simpa only [added_plain hsi hσ] using had he

theorem leaves_grown {es : List StreamEntry} (hσ : ∀ l, (σ l).Perm l)
    (hes : ∀ e ∈ es, ∃ sid : StreamID, sid.Valid ∧ e.id = sid.toBytes) (hn : ks.content k = none) :
    Leaves rt ω i (es.map (xaddCommand k σ)) k ks fun x => x = none ∨ ∃ s : Stream, x = some (.stream s, 0) ∧ s.Grown σ := by
  refine leaves_inv (fun c hc i ks hks => ?_) (.inl hn)
  obtain ⟨e, he, rfl⟩ := mem_map.1 hc
  obtain ⟨sid, hsi, hid⟩ := hes e he
  refine leaves_xadd_plain hσ hsi hid (fun _ => hks) fun hf => .inr ?_
  obtain ⟨s, hs, hg⟩ : ∃ s : Stream, (ks.content k).getD (.stream .new, 0) = (.stream s, 0) ∧ s.Grown σ := by
    rcases hks with hks | ⟨s, hks, hg⟩
    · exact ⟨.new, by rw [hks]; rfl, rfl, ⟨[], rfl, nofun, .nil, .inl rfl⟩, nofun⟩
    · exact ⟨s, by rw [hks]; rfl, hg⟩
  rw [view_getD hs]
  refine ⟨_, rfl, ?_⟩
  split
  · exact hg
  · rename_i hok
    refine hg.push hsi ?_ hf
    by_contra hno
    rw [not_or] at hno
    exact hok hno

theorem leaves_entries {es : List StreamEntry} (hσ : ∀ l, (σ l).Perm l) {sids : List StreamID}
    (hi : es.map StreamEntry.id = sids.map StreamID.toBytes) (hv : ∀ sid ∈ sids, sid.Valid)
    (hf : ∀ e ∈ es, e.fields ≠ ∅ ∧ e.order = σ (sortedKeys e.fields)) (hso : sids.Pairwise StreamID.Lt)
    (hs : (ks.content k).getD (.stream .new, 0) = (.stream s, 0))
    (hla : s.entries = [] ∨ ∀ sid ∈ sids, s.lastID.Lt sid) :
    Leaves rt ω i (es.map (xaddCommand k σ)) k ks fun x => (es ≠ [] ∨ ks.content k ≠ none → x ≠ none) ∧
      x.getD (.stream .new, 0) =
        (.stream ⟨s.entries ++ es, sids.getLast?.getD s.lastID, s.groups⟩, 0) := by
  induction es generalizing i ks s sids with
  | nil =>
    cases map_eq_nil_iff.1 hi.symm
    refine leaves_nil ⟨fun hne => hne.resolve_left fun hne => hne rfl, ?_⟩
    rw [hs, append_nil]
    rfl
  | cons e es ih =>
    obtain ⟨sid, sids, rfl, hid, hi⟩ := map_eq_cons_iff.1 hi.symm
    rw [pairwise_cons] at hso
    have hsi := hv sid (by simp)
    obtain ⟨hne, ho⟩ := hf e (by simp)
    have hen : (⟨sid.toBytes, e.fields, σ (sortedKeys e.fields)⟩ : StreamEntry) = e := by
      rw [hid, ← ho]
    have hfi : Leaves rt ω i [xaddCommand k σ e] k ks
        fun x => x = some (.stream ⟨s.entries ++ [e], sid, s.groups⟩, 0) := by
      refine leaves_xadd_plain hσ hsi hid.symm (fun hem => absurd hem hne) fun _ => ?_
      rw [view_getD hs, edit, hen]
      have hok : ¬ (s.entries ≠ [] ∧ ¬ s.lastID.Lt sid) := fun h => h.2 (hla.resolve_left h.1 sid (by simp))
      simp only [Datum.stream?, Option.elim_some, if_neg hok]
    refine hfi.append fun ks' hk => ?_
    obtain ⟨ks'', ha, hfr, hsm, hed⟩ := @ih (i + 1) ks' ⟨s.entries ++ [e], sid, s.groups⟩ sids hi.symm
      (fun t ht => hv t (by simp [ht])) (fun e he => hf e (by simp [he])) hso.2 (by rw [hk]; rfl) (.inr hso.1)
    refine ⟨ks'', ha, hfr, fun _ => hsm (.inr (by rw [hk]; simp)), ?_⟩
    rw [hed]
    have hl : sids.getLast?.getD sid = (sid :: sids).getLast?.getD s.lastID := by
      rw [List.getLast?_cons]
      rfl
    rw [hl, append_assoc]
    rfl

end

/-! ### All values -/

section

variable {rt : Runtime} {ω : Env} {i : Nat} {k : Bytes} {ks : Keyspace} {d : Datum} {x : Int}

theorem length_le_one_of_reverse {l : List Bytes} (hn : l.Nodup) (h : l = l.reverse) : l.length ≤ 1 := by
  by_contra hl
  have he : l[0]? = l[l.length - 1]? := by
    nth_rewrite 1 [h]
    rw [List.getElem?_reverse (by omega), Nat.sub_zero]
  have := (List.getElem?_inj (by omega) hn).1 he
  omega

theorem Stream.Rebuildable.dump {s : Stream} (h : s.Rebuildable) (rt : Runtime) (ω : Env) (k : Bytes) :
    Datum.dump rt ω k (.stream s) = s.entries.map (xaddCommand k id) := by
  rw [Datum.dump, range_all]
  refine ext_getElem (by simp) fun n h₁ h₂ => ?_
  simp only [getElem_map, getElem_zipIdx, xaddCommand]
  obtain ⟨f, hf⟩ := length_eq_one_iff.1 ((length_sortedKeys _).trans (h.fields _ (getElem_mem _)).1)
  unfold pairArgs
  rw [hf, perm_singleton.1 ((ω.sub (0 + n) []).shuffle_perm [f])]
  rfl

/-- A rebuildable value comes back, whatever the order of the map loops. -/
theorem Datum.Rebuildable.leaves (h : d.Rebuildable rt) (ω' : Env) (hn : ks.content k = none) :
    Leaves rt ω i (d.dump rt ω' k) k ks (· = some (d, 0)) := by
  cases d with
  | string s => exact leaves_string ω' s
  | hash m =>
    have hl : Leaves rt ω i _ k ks _ := leaves_hash ω' m hn
    rwa [if_neg h] at hl
  | list l =>
    have hl : Leaves rt ω i _ k ks _ := leaves_list ω' l hn
    rwa [if_neg h] at hl
  | set s =>
    have hl : Leaves rt ω i _ k ks _ := leaves_set ω' s hn
    rwa [if_neg h] at hl
  | zset z =>
    obtain ⟨hne, hz⟩ := (SkipList.rebuildable_iff z).1 h
    have hl : Leaves rt ω i _ k ks _ := leaves_zset ω' z hn
    rwa [if_neg hne, hz] at hl
  | vector v =>
    have h : v.Rebuildable rt := h
    have hm : ∀ id, id ∈ (ω' []).shuffle (sortedKeys v.vectors) ↔ id ∈ v.vectors := fun id =>
      ((ω' []).shuffle_perm _).mem_iff.trans mem_sortedKeys
    have hnw : (ks.content k).getD (.vector (.new v.dimension), 0) = (.vector (.new v.dimension), 0) := by
      rw [hn]
      rfl
    obtain ⟨ks', ha, hf, hs, v₁, hv', hd, hlo⟩ : Leaves rt ω i _ k ks _ :=
      leaves_vectors h (fun id hid => (hm id).1 hid) hnw rfl
    refine ⟨ks', ha, hf, ?_⟩
    have hi : (ω' []).shuffle (sortedKeys v.vectors) ≠ [] := by
      intro hni
      refine h.nonempty (Finmap.ext_lookup fun id => ?_)
      rw [Finmap.lookup_empty, Finmap.lookup_eq_none, ← hm id, hni]
      exact not_mem_nil
    obtain ⟨y, hy⟩ := Option.ne_none_iff_exists'.1 (hs (.inl hi))
    rw [hy, Option.getD_some] at hv'
    obtain rfl : v₁ = v := by
      obtain ⟨dim₁, vectors₁⟩ := v₁
      obtain ⟨dim, vectors⟩ := v
      cases hd
      refine congrArg (VectorIndex.mk _) (Finmap.ext_lookup fun id => ?_)
      rw [hlo]
      split
      · rfl
      · rename_i hid
        rw [hm] at hid
        rw [Finmap.lookup_eq_none.2 hid]
        exact Finmap.lookup_empty id
    rw [hy, hv']
  | stream s =>
    have h : s.Rebuildable := h
    obtain ⟨sids, hi, hv, hso, hla⟩ := h.ids
    have hfi : ∀ e ∈ s.entries, e.fields ≠ ∅ ∧ e.order = id (sortedKeys e.fields) := by
      intro e he
      refine ⟨fun hem => ?_, (h.fields e he).2⟩
      have ho := (h.fields e he).1
      rw [hem] at ho
      cases ho
    rw [h.dump]
    obtain ⟨ks', ha, hf, hs, hen⟩ : Leaves rt ω i _ k ks _ := leaves_entries (s := .new) (fun l => .refl l) hi
      hv hfi hso (by rw [hn]; rfl) (.inl rfl)
    refine ⟨ks', ha, hf, ?_⟩
    obtain ⟨y, hy⟩ := Option.ne_none_iff_exists'.1 (hs (.inl h.nonempty))
    rw [hy, Option.getD_some] at hen
    rw [hy, hen, hla]
    obtain ⟨entries, lastID, groups⟩ := s
    cases h.groups
    rfl

theorem Datum.rebuildable_of_leaves (r : Readings) (h : ∀ (σ : List Bytes → List Bytes) (hσ : ∀ l, (σ l).Perm l) (ω : Env),
      ∃ i ks, ks.content k = none ∧
        Leaves rt ω i (d.dump rt (fun _ => { r with shuffle := σ, shuffle_perm := hσ }) k) k ks (· = some (d, x))) :
    d.Rebuildable rt ∧ x = 0 := by
  obtain ⟨i, ks, hn, hd⟩ := h id (fun l => .refl l) fun _ => r
  cases d with
  | string s =>
    obtain ⟨y, hy, hy'⟩ := hd.both (leaves_string _ s)
    cases hy.symm.trans hy'
    exact ⟨trivial, rfl⟩
  | hash m =>
    obtain ⟨y, hy, hy'⟩ := hd.both (leaves_hash _ m hn)
    rw [hy] at hy'
    split at hy'
    · cases hy'
    · cases hy'
      exact ⟨by assumption, rfl⟩
  | list l =>
    obtain ⟨y, hy, hy'⟩ := hd.both (leaves_list _ l hn)
    rw [hy] at hy'
    split at hy'
    · cases hy'
    · cases hy'
      exact ⟨by assumption, rfl⟩
  | set s =>
    obtain ⟨y, hy, hy'⟩ := hd.both (leaves_set _ s hn)
    rw [hy] at hy'
    split at hy'
    · cases hy'
    · cases hy'
      exact ⟨by assumption, rfl⟩
  | zset z =>
    have hz : ∀ r', z.nodes ≠ [] ∧ (zaddLoop rt r' (scoreArgs rt z.nodes) .new).2.2 = z ∧ x = 0 := by
      intro r'
      obtain ⟨i, ks, hn, hd⟩ := h id (fun l => .refl l) fun _ => r'
      obtain ⟨y, hy, hy'⟩ := hd.both (leaves_zset _ z hn)
      rw [hy] at hy'
      split at hy'
      · cases hy'
      · rename_i hne
        rw [Option.some.injEq, Prod.mk.injEq, Datum.zset.injEq] at hy'
        exact ⟨hne, hy'.1.symm, hy'.2⟩
    exact ⟨(SkipList.rebuildable_iff z).2 ⟨(hz r).1, fun r' => (hz r').2.1⟩, (hz r).2.2⟩
  | vector v =>
    obtain ⟨y, hy, hy'⟩ := hd.both (leaves_vector _ v hn)
    rw [hy] at hy'
    rcases hy' with hy' | ⟨hne, v', hy', hp⟩
    · cases hy'
    cases hy'
    refine ⟨⟨hne, hp.1, fun id vec hve => ?_⟩, rfl⟩
    obtain ⟨hlen, vec₀, hvc, hpa⟩ := hp.2 id vec hve
    cases hve.symm.trans hvc
    exact ⟨hlen, (parseVector_texts 1).1 hpa⟩
  | stream s =>
    have hcs : ∀ c ∈ Datum.dump rt (fun _ => { r with shuffle := id, shuffle_perm := fun l => .refl l }) k (.stream s),
        ∃ rest, c = lit "XADD" :: k :: rest := by
      intro c hc
      rw [dump_stream] at hc
      obtain ⟨e, -, rfl⟩ := mem_map.1 hc
      exact ⟨_, rfl⟩
    obtain ⟨y, hy, hy'⟩ := hd.both (leaves_numbered hcs hn)
    rw [hy] at hy'
    rcases hy' with hy' | ⟨s', hy', hnu⟩
    · cases hy'
    cases hy'
    -- the IDs being proper, the stream has grown entry by entry, in every order of the fields
    have hg : ∀ (σ : List Bytes → List Bytes), (∀ l, (σ l).Perm l) → s.Grown σ := by
      intro σ hσ
      obtain ⟨i, ks, hn, hd⟩ := h σ hσ fun _ => r
      rw [dump_stream] at hd
      obtain ⟨y, hy, hy'⟩ := hd.both (leaves_grown hσ hnu.2 hn)
      rw [hy] at hy'
      rcases hy' with hy' | ⟨s', hy', hg⟩
      · cases hy'
      · cases hy'
        exact hg
    have hid := hg id fun l => .refl l
    have hr := hg List.reverse fun l => reverse_perm l
    have hne : s.entries ≠ [] := by
      intro hni
      rw [dump_stream, hni, map_nil] at hd
      obtain ⟨y, hy, hy'⟩ := hd.both (leaves_nil rfl)
      rw [hn] at hy'
      cases hy'.trans hy
    obtain ⟨sids, hi, hv, hs, hl⟩ := hid.ids
    have hsi : sids ≠ [] := fun hni => hne (map_eq_nil_iff.1 (by rw [hi, hni]; rfl))
    refine ⟨⟨hne, hid.groups, ⟨sids, hi, hv, hs, hl.resolve_left hsi⟩, fun e he => ⟨?_, (hid.fields e he).2⟩⟩, rfl⟩
    obtain ⟨hf, ho⟩ := hid.fields e he
    have hle := length_le_one_of_reverse (nodup_sortedList e.fields.keys) (ho.symm.trans (hr.fields e he).2)
    have hpo : 0 < (sortedKeys e.fields).length := by
      refine length_pos_of_ne_nil fun hni => hf (Finmap.ext_lookup fun f => ?_)
      rw [Finmap.lookup_empty, Finmap.lookup_eq_none, ← mem_sortedKeys, hni]
      exact not_mem_nil
    rw [← length_sortedKeys]
    exact le_antisymm hle hpo

end

end VortexKV
