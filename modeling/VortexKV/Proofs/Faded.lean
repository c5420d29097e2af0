import VortexKV.Proofs.KeyCount
import VortexKV.Rdb

/-!
# Keyspaces with and without their expired entries

`Keyspace.Fades t ks ks'`: the second keyspace is the first without some of the entries that have expired at time `t`.
No operation on an entry tells the two apart (`Fades.run`); `Delete` and the counter of keys do (`delete_count_iff`,
`count_purge_iff`).
-/

namespace VortexKV

open KeyedStore List Finmap

namespace Keyspace

def Dead (t : Int) (ks : Keyspace) (k : Bytes) : Prop := ∃ e, ks.entries.lookup k = some e ∧ e.isExpired t = true

def NoneDead (t : Int) (ks : Keyspace) : Prop := ∀ k, ¬ ks.Dead t k

end Keyspace

/-- The cell is the same, or empty where the other holds an expired entry. -/
def Faded (t : Int) (c c' : Option Entry) : Prop := c' = c ∨ c' = none ∧ ∃ e, c = some e ∧ e.isExpired t = true

structure Keyspace.Fades (t : Int) (ks ks' : Keyspace) : Prop where
  cells : ∀ k, Faded t (ks.entries.lookup k) (ks'.entries.lookup k)
  excess : ks'.excess = ks.excess

section

variable {t now : Int} {ks ks' : Keyspace} {c c' : Option Entry} {k : Bytes}

/-! ### Cells -/

theorem faded_ksStep (hn : t ≤ now) (o : KsOp) (h : Faded t c c') :
    (ksStep now o c).1 = (ksStep now o c').1 ∧ Faded t (ksStep now o c).2.1 (ksStep now o c').2.1 := by
  rcases h with rfl | ⟨rfl, e, rfl, he⟩
  · exact ⟨rfl, .inl rfl⟩
  have hd : dropExpired now (some e) = (none, -1) := by
    rw [dropExpired, if_pos (isExpired_mono hn he)]
  cases o with
  | put v => exact ⟨rfl, .inr ⟨rfl, _, rfl, he⟩⟩
  | set v exp => exact ⟨rfl, .inl rfl⟩
  | _ =>
    simp only [ksStep, hd]
    exact ⟨rfl, .inl rfl⟩

theorem Faded.live (h : Faded t c c') (hc : ∀ e, c = some e → e.isExpired t = false) : c' = c := by
  rcases h with h | ⟨rfl, e, rfl, he⟩
  · exact h
  · rw [hc e rfl] at he
    cases he

namespace Keyspace

/-! ### Programs -/

theorem Fades.run {α : Type} (h : ks.Fades t ks') (hn : t ≤ now) (p : KsProg α) :
    (p.run (ksStep now) ks).1 = (p.run (ksStep now) ks').1 ∧
      Fades t (p.run (ksStep now) ks).2 (p.run (ksStep now) ks').2 := by
  obtain ⟨hr, hce⟩ := Prog.run_sim (R := Faded t) (fun o _ _ _ hc => faded_ksStep hn o hc) p.only_true h.cells
  refine ⟨hr, hce, ?_⟩
  rw [Prog.run_excess counts_ksStep, Prog.run_excess counts_ksStep, h.excess]

/-! ### Purging -/

theorem Fades.lookup_eq (h : ks.Fades t ks') (hk : ¬ ks.Dead t k) : ks'.entries.lookup k = ks.entries.lookup k := by
  refine (h.cells k).live fun e he => ?_
  by_contra hex
  exact hk ⟨e, he, by simpa using hex⟩

theorem Fades.eq (h : ks.Fades t ks') (hn : ks.NoneDead t) : ks' = ks := by
  have he : ks'.entries = ks.entries := ext_lookup fun k => h.lookup_eq (hn k)
  refine Store.ext_lookup (fun k => h.lookup_eq (hn k)) ?_
  have hex := h.excess
  simp only [Store.excess, he] at hex
  omega

theorem Fades.mem (h : ks.Fades t ks') (hk : k ∈ ks'.entries) : k ∈ ks.entries := by
  obtain ⟨e, he⟩ := mem_iff.1 hk
  rcases h.cells k with hs | ⟨hn, -⟩
  · exact mem_iff.2 ⟨e, hs ▸ he⟩
  · rw [he] at hn
    cases hn

theorem Fades.dead_of_notMem (h : ks.Fades t ks') (hk : k ∈ ks.entries) (hk' : k ∉ ks'.entries) : ks.Dead t k := by
  rw [← lookup_eq_none] at hk'
  rcases h.cells k with hs | ⟨-, e, he, hex⟩
  · rw [hk'] at hs
    exact absurd hk (lookup_eq_none.1 hs.symm)
  · exact ⟨e, he, hex⟩

theorem lookup_delete (keys : List Bytes) (ks : Keyspace) (k : Bytes) :
    (delete keys ks).2.entries.lookup k = if k ∈ keys then none else ks.entries.lookup k := by
  induction keys generalizing ks with
  | nil => simp [delete]
  | cons a keys ih =>
    unfold delete
    by_cases ha : k = a
    · subst ha
      split
      · simp [ih]
      · rename_i hk
        rw [ih, lookup_eq_none.2 hk]
        simp
    · split
      · rw [ih, Store.lookup_put_ne _ ha]
        simp [ha]
      · rw [ih]
        simp [ha]

theorem Fades.delete (h : ks.Fades t ks') (keys : List Bytes) :
    Fades t (Keyspace.delete keys ks).2 (Keyspace.delete keys ks').2 := by
  refine ⟨fun k => ?_, by rw [excess_delete, excess_delete, h.excess]⟩
  rw [lookup_delete, lookup_delete]
  split
  · exact .inl rfl
  · exact h.cells k

end Keyspace

/-! ### Listings -/

theorem pairwise_sortedList (s : Finset Bytes) : (sortedList s).Pairwise fun a b => bytesLe a b = true := by
  obtain ⟨m, hm⟩ := s
  induction m using Quotient.inductionOn with
  | h l => exact pairwise_insertionSort _ l

theorem sortedList_filter {s s' : Finset Bytes} (h : s' ⊆ s) : sortedList s' = (sortedList s).filter (· ∈ s') := by
  refine List.Perm.eq_of_pairwise' (pairwise_sortedList s') ((pairwise_sortedList s).filter _) ?_
  refine (perm_ext_iff_of_nodup (nodup_sortedList s') ((nodup_sortedList s).filter _)).2 fun x => ?_
  rw [mem_filter, mem_sortedList, mem_sortedList, decide_eq_true_eq]
  exact ⟨fun hx => ⟨h hx, hx⟩, And.right⟩

/-- A loop over a map meets the entries that are left in the same order when others have been removed. -/
def Readings.Stable (r : Readings) : Prop := ∀ (p : Bytes → Bool) l, r.shuffle (l.filter p) = (r.shuffle l).filter p

section

variable {r : Readings}

theorem Keyspace.Fades.shardKeys (h : ks.Fades t ks') (hr : r.Stable) (i : Nat) :
    ks'.shardKeys r.shuffle i = (ks.shardKeys r.shuffle i).filter (· ∈ ks'.entries) := by
  have hs : ks'.entries.keys ⊆ ks.entries.keys := fun k hk => Finmap.mem_keys.2 (h.mem (Finmap.mem_keys.1 hk))
  rw [Keyspace.shardKeys, Keyspace.shardKeys, ← hr, sortedKeys, sortedList_filter hs, filter_filter,
    filter_filter, sortedKeys]
  congr 1
  refine filter_congr fun k _ => ?_
  simp only [Finmap.mem_keys, Bool.and_comm]

theorem Keyspace.Fades.listing {β : Type} {f f' : Bytes → Option β} (h : ks.Fades t ks') (hr : r.Stable) (i : Nat)
    (hs : ∀ k, ks'.entries.lookup k = ks.entries.lookup k → f' k = f k)
    (hf : ∀ k e, ks.entries.lookup k = some e → e.isExpired t = true → f k = none) :
    (ks'.shardKeys r.shuffle i).filterMap f' = (ks.shardKeys r.shuffle i).filterMap f := by
  rw [h.shardKeys hr, filterMap_filter]
  refine filterMap_congr fun k hk => ?_
  have hm := ((mem_shardKeys r.shuffle_perm).1 hk).1
  by_cases hk' : k ∈ ks'.entries
  · rcases h.cells k with hc | ⟨hn, -⟩
    · simp [hk', hs k hc]
    · exact absurd hk' (lookup_eq_none.1 hn)
  · obtain ⟨e, he, hex⟩ := h.dead_of_notMem hm hk'
    simp [hk', hf k e he hex]

theorem Keyspace.Fades.keys (h : ks.Fades t ks') (hr : r.Stable) (hn : t ≤ now)
    (pathMatch : Bytes → Bytes → Option Bool) (pattern : Bytes) :
    ks'.keys r.shuffle pathMatch now pattern = ks.keys r.shuffle pathMatch now pattern := by
  unfold Keyspace.keys
  congr 1
  funext i
  rw [← filterMap_eq_filter, ← filterMap_eq_filter]
  refine h.listing hr i (fun k hk => ?_) fun k e hk he => ?_
  · simp only [Option.guard, hk]
  · simp [Option.guard, hk, isExpired_mono hn he]

theorem Keyspace.Fades.dump (h : ks.Fades t ks') (hr : r.Stable) (hn : t ≤ r.nowMilli) :
    dumpAllRDBEntries r ks' = dumpAllRDBEntries r ks := by
  unfold dumpAllRDBEntries
  congr 1
  funext i
  refine h.listing hr i (fun k hk => ?_) fun k e hk he => ?_
  · simp only [hk]
  · simp [hk, isExpired_mono hn he]

end

end

end VortexKV
