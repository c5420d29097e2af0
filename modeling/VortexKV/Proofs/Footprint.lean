import VortexKV.Proofs.DataEffects

/-!
# The footprint of a data command

A command on keys depends on the entries of its keys and changes no other (`local_action`). The commands on
the whole keyspace are `KEYS`, `DBSIZE`, `FLUSHDB` and `FLUSHALL`.
-/

namespace VortexKV

open KeyedStore Prog

def DataCmd.keyed : DataCmd → Bool
  | keys | dbsize | flushdb | flushall => false
  | _ => true

section

variable {P : Bytes → Prop}

theorem within_handleZAdd (rt : Runtime) (r : Readings) (args : List Bytes) :
    (handleZAdd rt r args).Within (FirstKey args) := by
  unfold handleZAdd
  split
  · split
    · exact within_pure _ _
    · refine Prog.Within.bind (within_op (I := Ks) firstKey_cons _) fun d : Datum => ?_
      split
      · exact within_pure _ _
      · exact Prog.Within.bind (within_op (I := Ks) firstKey_cons _) fun _ => within_pure _ _
  · exact within_pure _ _

theorem within_xaddTo (rt : Runtime) (r : Readings) {key : Bytes} (hk : P key) (id : Bytes) (fields : List Bytes)
    (maxlen : Int) (s : Stream) : (xaddTo rt r key id fields maxlen s).Within P := by
  unfold xaddTo
  split
  · exact within_pure _ _
  · exact Prog.Within.bind (within_op (I := Ks) hk _) fun _ => within_pure _ _

theorem within_handleXAdd (rt : Runtime) (r : Readings) (args : List Bytes) :
    (handleXAdd rt r args).Within (FirstKey args) := by
  unfold handleXAdd
  split
  · rename_i key rest
    have hto := fun id fields maxlen s =>
      within_xaddTo (P := FirstKey (key :: rest)) rt r firstKey_cons id fields maxlen s
    split
    · exact within_pure _ _
    split
    · exact within_pure _ _
    · split
      · exact within_pure _ _
      · refine Prog.Within.bind (within_op (I := Ks) firstKey_cons _) fun d : Option (Datum × Int) => ?_
        rcases d with _ | ⟨d, t⟩
        · exact Prog.Within.bind (within_op (I := Ks) firstKey_cons _) fun _ => hto _ _ _ _
        · dsimp only
          split
          · exact within_pure _ _
          · exact hto _ _ _ _
    · exact within_pure _ _
  · exact within_pure _ _

theorem within_readGroupStreams (r : Readings) (group consumer : Bytes) (count : Int) (noAck : Bool)
    {pairs : List (Bytes × Bytes)} (h : ∀ x ∈ pairs, P x.1) :
    (readGroupStreams r group consumer count noAck pairs).Within P := by
  induction pairs with
  | nil => exact within_pure _ _
  | cons x rest ih =>
    obtain ⟨k, id⟩ := x
    have hk : P k := h (k, id) (by simp)
    have hr := ih fun x hx => h x (by simp [hx])
    refine Prog.Within.bind (within_op (I := Ks) hk _) fun d : Option (Datum × Int) => ?_
    rcases d with _ | ⟨d, t⟩
    · exact hr
    · cases d with
      | stream s =>
        dsimp only
        split
        · exact within_pure _ _
        · refine Prog.Within.bind (within_op (I := Ks) hk _) fun _ => Prog.Within.bind hr fun x => ?_
          cases x <;> exact within_pure _ _
      | _ => exact hr

theorem within_handleXReadGroup (rt : Runtime) (r : Readings) (args : List Bytes) :
    (handleXReadGroup rt r args).Within (· ∈ readKeys rt true (args.drop 3)) := by
  unfold handleXReadGroup
  split
  · rename_i g group consumer opts
    unfold readKeys
    simp only [List.drop_succ_cons, List.drop_zero]
    split_ifs
    · exact within_pure _ _
    rcases readOptions rt true opts (-1) (-1) false with _ | ⟨count, block, noAck, rest⟩
    · exact within_pure _ _
    rcases hp : streamPairs rest with _ | pairs
    · simp only [hp]
      exact within_pure _ _
    simp only [hp]
    refine Prog.Within.bind (within_readGroupStreams r group consumer count noAck fun x hx => List.mem_map_of_mem hx)
      fun x => ?_
    cases x <;> exact within_pure _ _
  · exact within_pure _ _

theorem local_delete (keys : List Bytes) :
    Store.Local (· ∈ keys) fun ks : Keyspace => (wrote (.integer (ks.delete keys).1), (ks.delete keys).2) := by
  suffices h : Store.Local (· ∈ keys) fun ks : Keyspace => Keyspace.delete keys ks by
    refine ⟨h.frame, fun hst => ?_⟩
    obtain ⟨h₁, h₂⟩ := h.agree hst
    exact ⟨by simp only [h₁], h₂⟩
  induction keys with
  | nil => exact ⟨fun _ _ _ => rfl, fun h => ⟨rfl, h, by simp [Keyspace.delete]⟩⟩
  | cons k keys ih =>
    refine ⟨fun s k' hk' => ?_, fun {s t} hst => ?_⟩
    · obtain ⟨hne, hkeys⟩ : k' ≠ k ∧ k' ∉ keys := by simpa using hk'
      unfold Keyspace.delete
      split
      · exact (ih.frame _ hkeys).trans (Store.lookup_put_ne _ hne _ _)
      · exact ih.frame _ hkeys
    · have hm : k ∈ s.entries ↔ k ∈ t.entries := by
        rw [Finmap.mem_iff, Finmap.mem_iff, hst k (by simp)]
      unfold Keyspace.delete
      by_cases hs : k ∈ s.entries
      · rw [if_pos hs, if_pos (hm.1 hs)]
        have hp : ∀ k' ∈ k :: keys, (s.put k none (-1)).entries.lookup k' = (t.put k none (-1)).entries.lookup k' := by
          intro k' hk'
          by_cases hkk : k' = k
          · rw [hkk, Store.lookup_put, Store.lookup_put]
          · rw [Store.lookup_put_ne _ hkk, Store.lookup_put_ne _ hkk, hst k' hk']
        obtain ⟨h₁, h₂, h₃⟩ := ih.agree fun k' hk' => hp k' (by simp [hk'])
        refine ⟨by rw [h₁], fun k' hk' => ?_, by simp only [Store.count_put] at h₃ ⊢; omega⟩
        by_cases hkeys : k' ∈ keys
        · exact h₂ k' hkeys
        · exact (ih.frame _ hkeys).trans ((hp k' hk').trans (ih.frame _ hkeys).symm)
      · rw [if_neg hs, if_neg (mt hm.2 hs)]
        obtain ⟨h₁, h₂, h₃⟩ := ih.agree fun k' hk' => hst k' (by simp [hk'])
        refine ⟨h₁, fun k' hk' => ?_, h₃⟩
        by_cases hkeys : k' ∈ keys
        · exact h₂ k' hkeys
        · exact (ih.frame _ hkeys).trans ((hst k' hk').trans (ih.frame _ hkeys).symm)

theorem within_action (rt : Runtime) (r : Readings) (args : List Bytes) {c : DataCmd} (hc : c.keyed = true)
    (hd : c ≠ .del) : ∃ p, c.action rt r args = .prog p ∧ p.Within (c.Uses rt args) := by
  by_cases hpl : c.isPlain = true
  · obtain ⟨p, hp, hh⟩ := honest_plain rt r args c hpl
    have hu : c.Uses rt args = FirstKey args := by cases c <;> first | rfl | cases hpl
    rw [hu]
    exact ⟨p, hp, hh.within⟩
  cases c
  case mset => exact ⟨_, rfl, (honest_cmdMSet args).within⟩
  case mget => exact ⟨_, rfl, (honest_cmdMGet args).within⟩
  case «exists» => exact ⟨_, rfl, (honest_cmdExists args).within⟩
  case zadd => exact ⟨_, rfl, within_handleZAdd rt r args⟩
  case xadd => exact ⟨_, rfl, within_handleXAdd rt r args⟩
  case xread => exact ⟨_, rfl, (reads_handleXRead rt args).within⟩
  case xgroup => exact ⟨_, rfl, (honest_handleXGroup rt args).within⟩
  case xinfo => exact ⟨_, rfl, (reads_handleXInfo rt r args).within⟩
  case xreadgroup => exact ⟨_, rfl, within_handleXReadGroup rt r args⟩
  case del => exact absurd rfl hd
  all_goals first | exact absurd rfl hpl | cases hc

theorem local_action (rt : Runtime) (r : Readings) (args : List Bytes) {c : DataCmd} (hc : c.keyed = true) (now : Int) :
    Store.Local (c.Uses rt args) ((c.action rt r args).run now) := by
  by_cases hd : c = .del
  · subst hd
    simp only [DataCmd.action]
    split
    · exact (within_pure (I := Ks) _ (wrongArgs "del")).isLocal (S := ksStep now)
    · exact local_delete args
  · obtain ⟨p, hp, hw⟩ := within_action rt r args hc hd
    rw [hp]
    exact hw.isLocal

end

end VortexKV
