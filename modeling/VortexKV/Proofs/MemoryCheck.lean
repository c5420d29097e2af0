import VortexKV.Executor

/-!
# The memory check

`memoryCheck_iff`: the check that follows a write lets it through and leaves the keyspace alone exactly when
it does not find the limit exceeded (`MemoryOver`); eviction that helps has removed keys.
-/

namespace VortexKV

open KeyedStore

variable {ω : Env}

def MemoryOver (ω : Env) (e : Engine) : Prop :=
  0 < e.maxMemory ∧ (e.memCheckCounter + 1) % 2048 = 0 ∧ e.maxMemory < (ω []).alloc 0

/-! ### Eviction -/

theorem lookup_delete_none (keys : List Bytes) {ks : Keyspace} {k : Bytes} (h : ks.entries.lookup k = none) :
    (ks.delete keys).2.entries.lookup k = none := by
  induction keys generalizing ks with
  | nil => exact h
  | cons key keys ih =>
    unfold Keyspace.delete
    split
    · refine ih ?_
      by_cases hk : k = key
      · rw [hk, Store.lookup_put]
      · rw [Store.lookup_put_ne _ hk, h]
    · exact ih h

theorem exists_deleted {keys : List Bytes} {ks : Keyspace} (h : (ks.delete keys).1 ≠ 0) :
    ∃ k, ks.entries.lookup k ≠ none ∧ (ks.delete keys).2.entries.lookup k = none := by
  induction keys generalizing ks with
  | nil => exact absurd rfl h
  | cons key keys ih =>
    unfold Keyspace.delete at h ⊢
    split at h
    · rename_i hk
      rw [if_pos hk]
      refine ⟨key, fun hn => Finmap.lookup_eq_none.1 hn hk, ?_⟩
      exact lookup_delete_none keys (Store.lookup_put ..)
    · rename_i hk
      rw [if_neg hk]
      exact ih h

theorem lookup_evictLoop_none (maxMemory rounds i : Nat) {ks : Keyspace} {k : Bytes} (h : ks.entries.lookup k = none) :
    (evictLoop ω maxMemory rounds i ks).2.entries.lookup k = none := by
  induction rounds generalizing i ks with
  | zero => exact h
  | succ rounds ih =>
    obtain ⟨keys, hev⟩ := Keyspace.evictLRU_eq (ω.sub i []).shuffle 50 ks
    have hdel : (ks.delete keys).2.entries.lookup k = none := lookup_delete_none _ h
    simp only [evictLoop, hev]
    split_ifs
    · exact hdel
    · exact ih _ hdel
    · exact h

theorem exists_evicted (rounds : Nat) {maxMemory i : Nat} {ks : Keyspace} (ho : maxMemory < (ω []).alloc i)
    (h : (evictLoop ω maxMemory (rounds + 1) i ks).1 = false) :
    ∃ k, ks.entries.lookup k ≠ none ∧ (evictLoop ω maxMemory (rounds + 1) i ks).2.entries.lookup k = none := by
  obtain ⟨keys, hev⟩ := Keyspace.evictLRU_eq (ω.sub i []).shuffle 50 ks
  simp only [evictLoop, ho, if_true, hev] at h ⊢
  split at h
  · cases h
  · rename_i hc
    obtain ⟨k, hs, hn⟩ := exists_deleted hc
    rw [if_neg hc]
    exact ⟨k, hs, lookup_evictLoop_none _ _ _ hn⟩

theorem memoryCheck_evicts {e : Engine} (ho : MemoryOver ω e) (h : (memoryCheck ω e true).1 = false) :
    ∃ k, e.ks.entries.lookup k ≠ none ∧ (memoryCheck ω e true).2.ks.entries.lookup k = none := by
  obtain ⟨h0, hc, ha⟩ := ho
  have hrw : memoryCheck ω e true = if e.evictionPolicy = lit "allkeys-lru" then
      ((evictLoop ω e.maxMemory 5 0 e.ks).1, { e with
        memCheckCounter := e.memCheckCounter + 1, ks := (evictLoop ω e.maxMemory 5 0 e.ks).2 })
      else (true, { e with memCheckCounter := e.memCheckCounter + 1 }) := by
    unfold memoryCheck
    rw [if_neg (by simp; omega)]
    dsimp only
    rw [if_neg (by omega)]
  rw [hrw] at h ⊢
  split at h
  · rename_i hp
    rw [if_pos hp]
    exact exists_evicted 4 ha h
  · cases h

theorem memoryCheck_iff (e : Engine) :
    ((memoryCheck ω e true).1 = false ∧ (memoryCheck ω e true).2.ks = e.ks) ↔ ¬ MemoryOver ω e := by
  by_cases ho : MemoryOver ω e
  · simp only [ho, not_true_eq_false, iff_false, not_and]
    intro hf hks
    obtain ⟨k, hs, hn⟩ := memoryCheck_evicts ho hf
    exact hs (hks ▸ hn)
  · simp only [ho, not_false_eq_true, iff_true]
    unfold memoryCheck
    dsimp only
    rw [MemoryOver] at ho
    split_ifs with h₁ h₂
    · exact ⟨rfl, rfl⟩
    · exact ⟨rfl, rfl⟩
    all_goals
      exact absurd ⟨by simp at h₁; omega, by omega, by omega⟩ ho

theorem sessions_memoryCheck (ω : Env) (e : Engine) (w : Bool) : (memoryCheck ω e w).2.sessions = e.sessions := by
  simp only [memoryCheck]
  split_ifs <;> rfl

end VortexKV
