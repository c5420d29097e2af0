import VortexKV.Keyspace

/-!
# The counter of keys

`keyCount` is adjusted by hand in each method of the keyspace, and wrongly by `SetString` where it replaces an entry of
another type (`Miscounts`). It is exact throughout a run if and only if the run has none (`keyCount_exact_iff`).
-/

namespace VortexKV

open KeyedStore List

/-- A call of a method of the keyspace; `op` stands for the methods of `KsOp`. -/
inductive KsCall
  | op (key : Bytes) (o : KsOp)
  | setString (key val : Bytes)
  | delete (keys : List Bytes)
  | evictLRU (shuffle : List Bytes → List Bytes) (targetCount : Int)
  | flushDB
  | reaper (orders : Fin 16 → List Bytes → List Bytes) (picks : Fin 16 → Fin 256)

namespace Keyspace

def call (now : Int) (ks : Keyspace) : KsCall → Keyspace
  | .op key o => ((Prog.op (I := Ks) key o).run (ksStep now) ks).2
  | .setString key val => ks.setString now key val
  | .delete keys => (delete keys ks).2
  | .evictLRU shuffle targetCount => (evictLRU shuffle (if targetCount ≤ 0 then 10 else targetCount.toNat) ks).2
  | .flushDB => flushDB
  | .reaper orders picks => reaperPass orders picks now ks

def callAll (ks : Keyspace) (calls : List (Int × KsCall)) : Keyspace := calls.foldl (fun ks c => ks.call c.1 c.2) ks

def totalEntries (ks : Keyspace) : Nat := ((List.range 256).map fun i => (shardKeys id i ks).length).sum

def Miscounts (ks : Keyspace) : KsCall → Prop
  | .setString key _ => ∃ e, ks.entries.lookup key = some e ∧ e.value.string? = none
  | _ => False

instance (ks : Keyspace) : (c : KsCall) → Decidable (ks.Miscounts c)
  | .setString key _ => decidable_of_iff ((ks.entries.lookup key).any fun e => e.value.string?.isNone) (by
      simp [Miscounts, Option.any_eq_true])
  | .op .. | .delete _ | .evictLRU .. | .flushDB | .reaper .. => isFalse id

def NoneMiscounts : Keyspace → List (Int × KsCall) → Prop
  | _, [] => True
  | ks, c :: calls => ¬ ks.Miscounts c.2 ∧ NoneMiscounts (ks.call c.1 c.2) calls

/-- The calls that miscounted since the last `FlushDB`, on top of `n` from before. -/
def miscounted : Nat → Keyspace → List (Int × KsCall) → Nat
  | n, _, [] => n
  | n, ks, (now, c) :: calls =>
    miscounted (match c with
      | .flushDB => 0
      | c => if ks.Miscounts c then n + 1 else n) (ks.call now c) calls

section

variable {ks : Keyspace} {now : Int}

theorem totalEntries_eq : ks.totalEntries = mapLen ks.entries := by
  have hp : ((List.range 256).flatMap fun i => ks.shardKeys id i).Perm (sortedKeys ks.entries) := by
    refine (perm_ext_iff_of_nodup (nodup_shardKeys fun _ _ => .refl _) (nodup_sortedList _)).2 fun k => ?_
    simp only [mem_flatMap, mem_range, mem_shardKeys fun _ => List.Perm.refl _]
    refine ⟨fun ⟨i, _, hk, _⟩ => mem_sortedKeys.2 hk, fun hk => ?_⟩
    exact ⟨_, shardOf_lt k, mem_sortedKeys.1 hk, rfl⟩
  rw [← length_sortedKeys, ← hp.length_eq, length_flatMap, totalEntries]

theorem count_eq_totalEntries_iff : ks.count = ks.totalEntries ↔ ks.excess = 0 := by
  rw [totalEntries_eq, Store.excess, mapLen]
  omega

/-! ### One call -/

theorem cellSize_created (e : Entry) (c : Option Entry) :
    Store.cellSize (none : Option Entry) - Store.cellSize c + 1 = Store.cellSize (some e) - Store.cellSize c := by
  simp only [Store.cellSize, Option.isSome_none, Option.isSome_some, Bool.false_eq_true, if_false, if_true]
  omega

theorem counts_ksStep : Prog.Counts (ksStep now) := by
  intro o c
  obtain ⟨live, hd⟩ : ∃ live, dropExpired now c = (live, Store.cellSize live - Store.cellSize c) := by
    cases c with
    | none => exact ⟨none, rfl⟩
    | some e =>
      rw [dropExpired]
      split
      · exact ⟨none, rfl⟩
      · exact ⟨some e, rfl⟩
  cases o with
  | set v exp => cases c <;> rfl
  | put v => cases c <;> rfl
  | get | expire ttl =>
    simp only [ksStep, hd]
    cases live <;> rfl
  | setNX v | getOrCreate new =>
    simp only [ksStep, hd]
    cases live with
    | none => exact cellSize_created _ c
    | some e => rfl
  | persist =>
    simp only [ksStep, hd]
    cases live with
    | none => rfl
    | some e =>
      dsimp only
      split <;> rfl
  | incrBy delta =>
    simp only [ksStep, hd]
    rcases live with _ | ⟨s | _ | _ | _ | _ | _ | _, exp, acc⟩
    · exact cellSize_created _ c
    · dsimp only
      split <;> rfl
    all_goals rfl
  | append val =>
    simp only [ksStep, hd]
    rcases live with _ | ⟨s | _ | _ | _ | _ | _ | _, exp, acc⟩
    · exact cellSize_created _ c
    all_goals rfl

theorem excess_put_none {k : Bytes} (h : k ∈ ks.entries) : (ks.put k none (-1)).excess = ks.excess := by
  obtain ⟨e, he⟩ := Finmap.mem_iff.1 h
  rw [Store.excess_put, he]
  simp [Store.cellSize]

theorem excess_delete (keys : List Bytes) (ks : Keyspace) : (delete keys ks).2.excess = ks.excess := by
  induction keys generalizing ks with
  | nil => rfl
  | cons k keys ih =>
    rw [delete]
    split
    · rename_i hk
      exact (ih _).trans (excess_put_none hk)
    · exact ih ks

theorem excess_reapEntry (k : Bytes) : (reapEntry now ks k).excess = ks.excess := by
  unfold reapEntry
  split
  · rfl
  · rename_i e he
    split
    · exact excess_put_none (Finmap.mem_iff.2 ⟨e, he⟩)
    · rfl

theorem excess_foldl {α : Type} {f : Keyspace → α → Keyspace} (hf : ∀ ks a, (f ks a).excess = ks.excess) (l : List α)
    (ks : Keyspace) : (l.foldl f ks).excess = ks.excess := by
  induction l generalizing ks with
  | nil => rfl
  | cons a l ih => exact (ih _).trans (hf ks a)

theorem excess_reaperPass (orders : Fin 16 → List Bytes → List Bytes) (picks : Fin 16 → Fin 256) :
    (reaperPass orders picks now ks).excess = ks.excess :=
  excess_foldl (fun _ _ => excess_foldl (fun _ k => excess_reapEntry k) _ _) _ _

theorem excess_setString (key val : Bytes) :
    (ks.setString now key val).excess = ks.excess + if ks.Miscounts (.setString key val) then 1 else 0 := by
  unfold setString
  rcases hl : ks.entries.lookup key with _ | ⟨v, exp, acc⟩
  · rw [Store.excess_put, hl, if_neg (by simp [Miscounts, hl])]
    rfl
  · rcases v with s | _ | _ | _ | _ | _ | _
    · rw [Store.excess_put, hl, if_neg (by simp [Miscounts, hl, Datum.string?])]
      rfl
    all_goals
      rw [Store.excess_put, hl, if_pos (by simp [Miscounts, hl, Datum.string?])]
      rfl

theorem excess_empty : empty.excess = 0 := rfl

theorem excess_call (c : KsCall) : (ks.call now c).excess =
    match c with
    | .flushDB => 0
    | c => if ks.Miscounts c then ks.excess + 1 else ks.excess := by
  cases c with
  | op key o => exact (Prog.run_excess counts_ksStep _ _).trans (if_neg id).symm
  | setString key val =>
    rw [call, excess_setString]
    by_cases h : ks.Miscounts (.setString key val) <;> simp [h]
  | delete keys => exact (excess_delete keys ks).trans (if_neg id).symm
  | evictLRU shuffle target =>
    obtain ⟨keys, hev⟩ := evictLRU_eq shuffle (if target ≤ 0 then 10 else target.toNat) ks
    rw [call, hev]
    exact (excess_delete keys ks).trans (if_neg id).symm
  | flushDB => rfl
  | reaper orders picks => exact (excess_reaperPass orders picks).trans (if_neg id).symm

/-! ### A whole run -/

theorem excess_callAll (calls : List (Int × KsCall)) {n : Nat} (h : ks.excess = n) :
    (ks.callAll calls).excess = miscounted n ks calls := by
  induction calls generalizing ks n with
  | nil => exact h
  | cons c calls ih =>
    obtain ⟨now, c⟩ := c
    refine ih ?_
    rw [excess_call]
    cases c with
    | flushDB => rfl
    | op key o | delete keys | evictLRU shuffle target | reaper orders picks => simp [Miscounts, h]
    | setString key val =>
      dsimp only
      split <;> simp [h]

/-- From a state where the counter is exact: it stays so through the run if and only if no call miscounts. -/
theorem exact_throughout_iff (calls : List (Int × KsCall)) (h : ks.excess = 0) :
    (∀ n, (ks.callAll (calls.take n)).excess = 0) ↔ NoneMiscounts ks calls := by
  induction calls generalizing ks with
  | nil => simp [callAll, NoneMiscounts, h]
  | cons c calls ih =>
    have hstep : (ks.call c.1 c.2).excess = 0 ↔ ¬ ks.Miscounts c.2 := by
      rw [excess_call]
      obtain ⟨now, c⟩ := c
      cases c with
      | flushDB => simp [Miscounts]
      | op key o | delete keys | evictLRU shuffle target | reaper orders picks => simp [Miscounts, h]
      | setString key val =>
        split <;> simp_all
    constructor
    · intro ha
      have ho : (ks.call c.1 c.2).excess = 0 := ha 1
      exact ⟨hstep.1 ho, (ih ho).1 fun n => ha (n + 1)⟩
    · rintro ⟨hm, hr⟩ n
      cases n with
      | zero => exact h
      | succ n => exact (ih (hstep.2 hm)).2 hr n

end

end Keyspace

/-- After any calls the counter is the number of entries plus the miscounts since the last `FlushDB`; it is exact
all along if and only if no `SetString` of the run meets an entry of another type. -/
theorem keyCount_exact_iff (calls : List (Int × KsCall)) :
    (Keyspace.empty.callAll calls).count = (Keyspace.empty.callAll calls).totalEntries + Keyspace.miscounted 0 .empty calls ∧
      ((∀ n, (Keyspace.empty.callAll (calls.take n)).count = (Keyspace.empty.callAll (calls.take n)).totalEntries) ↔
        Keyspace.NoneMiscounts .empty calls) := by
  constructor
  · have he := Keyspace.excess_callAll calls (n := 0) Keyspace.excess_empty
    rw [Store.excess] at he
    rw [Keyspace.totalEntries_eq, mapLen]
    omega
  · simp only [Keyspace.count_eq_totalEntries_iff]
    exact Keyspace.exact_throughout_iff calls Keyspace.excess_empty

theorem setString_miscounts :
    let ks := Keyspace.empty.callAll [(0, .op "k" (.getOrCreate (.hash ∅))), (0, .setString "k" "v")]
    ks.count = 2 ∧ ks.totalEntries = 1 := by
  refine ⟨rfl, ?_⟩
  rw [Keyspace.totalEntries_eq]
  decide

end VortexKV
