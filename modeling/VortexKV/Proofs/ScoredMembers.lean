import VortexKV.Proofs.Rebuild

/-!
# The members of a sorted set

Any run of `ZADD` and `ZREM` leaves each member once if no score is NaN; a node with a NaN stays for good.
-/

namespace VortexKV

open List

namespace SkipList

variable {near : List ScoredMember → F64 → Bytes → Nat} {z : SkipList} {n : ScoredMember} {m : Bytes}

theorem mem_dict_insertAll {items : List ScoredMember} :
    m ∈ (insertAll near items z).dict ↔ m ∈ z.dict ∨ m ∈ items.map ScoredMember.member := by
  induction items generalizing z with
  | nil => simp [insertAll]
  | cons n items ih =>
    rw [insertAll_cons, ih, dict_insert, Finmap.mem_insert, map_cons, mem_cons]
    tauto

theorem Ordered.deleteAll (h : z.Ordered) (ms : List Bytes) :
    (deleteAll near ms z).2.Ordered ∧ ∀ m, m ∈ (deleteAll near ms z).2.dict ↔ m ∈ z.dict ∧ m ∉ ms := by
  induction ms generalizing z with
  | nil => exact ⟨h, fun m => by simp [SkipList.deleteAll]⟩
  | cons m ms ih =>
    obtain ⟨ho, -, hd⟩ := h.delete near m
    refine ⟨(ih ho).1, fun m' => ((ih ho).2 m').trans ?_⟩
    rw [hd, Finmap.mem_erase, mem_cons]
    tauto

theorem mem_deleteAll_of_isNaN (hn : n ∈ z.nodes) (hna : n.score.isNaN = true) (ms : List Bytes) :
    n ∈ (deleteAll near ms z).2.nodes := by
  induction ms generalizing z with
  | nil => exact hn
  | cons m ms ih => exact ih (mem_delete_of_isNaN near hn hna m)

/-- `ZCARD`, `ZRANGE 0 -1` and `ZREM` of a sorted set that should hold `members`. -/
structure HoldsOnce (z : SkipList) (members : Finset Bytes) : Prop where
  card : z.nodes.length = members.card
  once : ∀ m, ((z.range 0 (-1) false).map ScoredMember.member).count m = if m ∈ members then 1 else 0
  removes : ∀ near, ∀ m ∈ members, ∀ n ∈ (z.delete near m).2.nodes, n.member ≠ m

theorem range_all (z : SkipList) : z.range 0 (-1) false = z.nodes := slice_all z.nodes

theorem Ordered.holdsOnce {members : Finset Bytes} (h : z.Ordered) (hm : ∀ m, m ∈ z.dict ↔ m ∈ members) :
    z.HoldsOnce members := by
  have hno : (z.nodes.map ScoredMember.member).Nodup := pairwise_map.2 h.distinct
  have hin : ∀ m, m ∈ z.nodes.map ScoredMember.member ↔ m ∈ members := fun m => by
    rw [mem_map, ← hm, h.mem_dict]
  refine ⟨?_, fun m => ?_, fun near m _ n hn heq => ?_⟩
  · rw [← length_map ScoredMember.member, ← toFinset_card_of_nodup hno]
    exact congrArg Finset.card (Finset.ext fun m => by rw [mem_toFinset, hin])
  · rw [range_all, hno.count]
    simp only [hin]
  · obtain ⟨ho, hnt, -⟩ := h.delete near m
    exact hnt (ho.mem_dict.2 ⟨n, hn, heq⟩)

theorem HoldsOnce.comparable {members : Finset Bytes} (h : z.HoldsOnce members) (hn : n ∈ z.nodes) : n.score.isNaN = false := by
  by_contra hna
  rw [Bool.not_eq_false] at hna
  by_cases hm : n.member ∈ members
  · exact h.removes (fun _ _ _ => 0) n.member hm n (mem_delete_of_isNaN _ hn hna _) rfl
  · have hc := h.once n.member
    rw [if_neg hm, range_all, count_eq_zero] at hc
    exact hc (mem_map_of_mem hn)

end SkipList

/-! ### Runs of `ZADD` and `ZREM` -/

def scored (rt : Runtime) : List Bytes → List ScoredMember
  | score :: member :: rest =>
    match rt.parseFloat score with
    | none => []
    | some x => ⟨member, x⟩ :: scored rt rest
  | _ => []

theorem zaddLoop_eq (rt : Runtime) (r : Readings) (pairs : List Bytes) (z : SkipList) :
    (zaddLoop rt r pairs z).2.2 = z.insertAll r.near (scored rt pairs) := by
  induction pairs using scored.induct rt generalizing z with
  | case1 score member rest hx =>
    rw [scored, zaddLoop, hx]
    rfl
  | case2 score member rest x hx ih =>
    rw [scored, zaddLoop, hx]
    exact ih _
  | case3 pairs hp =>
    rcases pairs with _ | ⟨score, _ | ⟨member, rest⟩⟩
    · rfl
    · rfl
    · exact absurd rfl (hp _ _ _)

inductive ZCall
  | zadd (r : Readings) (pairs : List Bytes)
  | zrem (r : Readings) (members : List Bytes)

namespace ZCall

variable (rt : Runtime)

def on (z : SkipList) : ZCall → SkipList
  | zadd r pairs => (zaddLoop rt r pairs z).2.2
  | zrem r members => (z.deleteAll r.near members).2

def added : ZCall → List ScoredMember
  | zadd _ pairs => scored rt pairs
  | zrem _ _ => []

def onMembers (s : Finset Bytes) : ZCall → Finset Bytes
  | zadd _ pairs => s ∪ ((scored rt pairs).map ScoredMember.member).toFinset
  | zrem _ members => s \ members.toFinset

variable {rt} {z : SkipList} {call : ZCall} {s : Finset Bytes}

theorem ordered_on (h : z.Ordered) (hm : ∀ m, m ∈ z.dict ↔ m ∈ s) (hn : ∀ n ∈ call.added rt, n.score.isNaN = false) :
    (call.on rt z).Ordered ∧ ∀ m, m ∈ (call.on rt z).dict ↔ m ∈ call.onMembers rt s := by
  cases call with
  | zadd r pairs =>
    rw [on, zaddLoop_eq]
    refine ⟨h.insertAll _ hn, fun m => ?_⟩
    rw [SkipList.mem_dict_insertAll, hm, onMembers, Finset.mem_union, mem_toFinset]
  | zrem r members =>
    refine ⟨(h.deleteAll members).1, fun m => ?_⟩
    rw [on, (h.deleteAll members).2, hm, onMembers, Finset.mem_sdiff, mem_toFinset]

theorem mem_on {n : ScoredMember} (hn : n ∈ z.nodes ∨ n ∈ call.added rt) (hna : n.score.isNaN = true) :
    n ∈ (call.on rt z).nodes := by
  cases call with
  | zadd r pairs =>
    rw [on, zaddLoop_eq]
    exact SkipList.mem_insertAll_of_isNaN _ hn hna
  | zrem r members => exact SkipList.mem_deleteAll_of_isNaN (hn.resolve_right not_mem_nil) hna members

variable {calls : List ZCall}

theorem holdsOnce_run (h : z.Ordered) (hm : ∀ m, m ∈ z.dict ↔ m ∈ s)
    (hn : ∀ call ∈ calls, ∀ n ∈ call.added rt, n.score.isNaN = false) :
    (calls.foldl (on rt) z).HoldsOnce (calls.foldl (onMembers rt) s) := by
  induction calls generalizing z s with
  | nil => exact h.holdsOnce hm
  | cons c calls ih =>
    obtain ⟨ho, hme⟩ := ordered_on h hm (hn c (by simp))
    exact ih ho hme fun c hc => hn c (mem_cons_of_mem _ hc)

theorem mem_run {n : ScoredMember} (hn : n ∈ z.nodes ∨ ∃ call ∈ calls, n ∈ call.added rt) (hna : n.score.isNaN = true) :
    n ∈ (calls.foldl (on rt) z).nodes := by
  induction calls generalizing z with
  | nil => simpa using hn
  | cons c calls ih =>
    refine ih ?_
    rw [exists_mem_cons_iff] at hn
    rcases hn with hn | hn | hn
    · exact .inl (mem_on (.inl hn) hna)
    · exact .inl (mem_on (.inr hn) hna)
    · exact .inr hn

end ZCall

/-- A run leaves a sorted set that holds each member once exactly if it inserts no NaN. -/
theorem holds_once_iff (rt : Runtime) (calls : List ZCall) :
    (calls.foldl (ZCall.on rt) .new).HoldsOnce (calls.foldl (ZCall.onMembers rt) ∅) ↔
      ∀ call ∈ calls, ∀ n ∈ call.added rt, n.score.isNaN = false := by
  constructor
  · intro h call hc n hn
    by_contra hna
    rw [Bool.not_eq_false] at hna
    rw [h.comparable (ZCall.mem_run (.inr ⟨call, hc, hn⟩) hna)] at hna
    cases hna
  · exact ZCall.holdsOnce_run SkipList.ordered_new fun m => iff_of_false Finmap.notMem_empty (Finset.notMem_empty m)

/-- The same member twice with the score `nan`, which no `ZREM` removes. -/
theorem nan_member_stays :
    let rt := { Runtime.plain with parseFloat := fun text => if text = "nan" then some 0x7FF8000000000001 else none }
    let add := ZCall.zadd (.plain 0) ["nan", "a"]
    ([add, add, .zrem (.plain 0) ["a"]].foldl (ZCall.on rt) .new).nodes.map ScoredMember.member = ["a", "a"] ∧
      [add, add, .zrem (.plain 0) ["a"]].foldl (ZCall.onMembers rt) ∅ = ∅ := by
  refine ⟨by with_unfolding_all rfl, by with_unfolding_all rfl⟩

end VortexKV
