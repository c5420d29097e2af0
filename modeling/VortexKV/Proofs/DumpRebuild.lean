import VortexKV.Proofs.Rebuild

/-!
# A keyspace from its dump

`dump_rebuilds`: the commands of `DumpAllCommands` give the keyspace again exactly if every live entry is `Rebuildable` and
has no expiry time. The dump is a sequence of blocks, and no block touches the key of another.
-/

namespace VortexKV

open KeyedStore List

def dumpBlocks (rt : Runtime) (ω : Env) (now : Int) (ks : Keyspace) : List (Bytes × List Command) :=
  (List.range 256).flatMap fun i => (ks.shardKeys (ω.sub i []).shuffle i).zipIdx.map fun (k, j) =>
    (k, (ks.entries.lookup k).elim [] (dumpEntry rt ((ω.sub i).sub j) now k))

section

variable {rt : Runtime} {ω ω' : Env} {now : Int} {i : Nat} {k : Bytes} {ks : Keyspace}

theorem dumpAllCommands_eq (rt : Runtime) (ω : Env) (ks : Keyspace) :
    dumpAllCommands rt ω ks = (dumpBlocks rt ω (ω []).nowMilli ks).flatMap Prod.snd := by
  simp only [dumpAllCommands, dumpBlocks, flatMap_assoc, flatMap_map]
  rfl

theorem keys_dumpBlocks : (dumpBlocks rt ω now ks).map Prod.fst =
    (List.range 256).flatMap fun i => ks.shardKeys (ω.sub i []).shuffle i := by
  simp only [dumpBlocks, map_flatMap, map_map]
  refine congrArg (List.flatMap · _) (funext fun i => ?_)
  exact zipIdx_map_fst 0 _

theorem nodup_dumpBlocks : ((dumpBlocks rt ω now ks).map Prod.fst).Nodup := by
  rw [keys_dumpBlocks]
  exact nodup_shardKeys fun i => (ω.sub i []).shuffle_perm

theorem mem_dumpBlocks {b : Bytes × List Command} (h : b ∈ dumpBlocks rt ω now ks) :
    ∃ i j en, ks.entries.lookup b.1 = some en ∧ b.2 = dumpEntry rt ((ω.sub i).sub j) now b.1 en := by
  obtain ⟨i, -, hb⟩ := mem_flatMap.1 h
  obtain ⟨⟨k, j⟩, hk, rfl⟩ := mem_map.1 hb
  have hm := (mem_shardKeys (ω.sub i []).shuffle_perm).1 (fst_mem_of_mem_zipIdx hk)
  obtain ⟨en, hen⟩ := Option.isSome_iff_exists.1 (Finmap.lookup_isSome.2 hm.1)
  exact ⟨i, j, en, hen, by dsimp only at hen ⊢; rw [hen]; rfl⟩

theorem exists_dumpBlock (rt : Runtime) (ω : Env) (now : Int) {en : Entry} (h : ks.entries.lookup k = some en) :
    ∃ i j, (k, dumpEntry rt ((ω.sub i).sub j) now k en) ∈ dumpBlocks rt ω now ks := by
  have hm : k ∈ ks.shardKeys (ω.sub (Keyspace.shardOf k) []).shuffle (Keyspace.shardOf k) :=
    (mem_shardKeys (ω.sub _ []).shuffle_perm).2 ⟨Finmap.lookup_isSome.1 (by rw [h]; rfl), rfl⟩
  obtain ⟨j, hj⟩ := mem_iff_getElem?.1 hm
  refine ⟨Keyspace.shardOf k, j, mem_flatMap.2 ⟨_, mem_range.2 (shardOf_lt k), mem_map.2
    ⟨(k, j), mem_zipIdx_iff_getElem?.2 hj, ?_⟩⟩⟩
  dsimp only
  rw [h]
  rfl

/-! ### The blocks -/

theorem Leaves.mono {cs : List Command} {Q R : Option (Datum × Int) → Prop} (h : Leaves rt ω i cs k ks Q) (hQR : ∀ x, Q x → R x) :
    Leaves rt ω i cs k ks R := by
  obtain ⟨ks', ha, hf, hQ⟩ := h
  exact ⟨ks', ha, hf, hQR _ hQ⟩

theorem leaves_dump (d : Datum) (ω' : Env) (hn : ks.content k = none) :
    Leaves rt ω i (d.dump rt ω' k) k ks fun _ => True := by
  cases d with
  | string s => exact (leaves_string ω' s).mono fun _ _ => trivial
  | hash h => exact (leaves_hash ω' h hn).mono fun _ _ => trivial
  | list l => exact (leaves_list ω' l hn).mono fun _ _ => trivial
  | set s => exact (leaves_set ω' s hn).mono fun _ _ => trivial
  | zset z => exact (leaves_zset ω' z hn).mono fun _ _ => trivial
  | vector v => exact (leaves_vector ω' v hn).mono fun _ _ => trivial
  | stream s =>
    refine (leaves_numbered (fun c hc => ?_) hn).mono fun _ _ => trivial
    obtain ⟨⟨e, n⟩, -, rfl⟩ := mem_map.1 hc
    exact ⟨_, rfl⟩

theorem applyAll_expireAt (cs : List Command) (x : Int) :
    Keyspace.applyAll rt ω i (cs ++ if x > 0 then [[lit "PEXPIREAT", k, formatInt x]] else []) ks =
      Keyspace.applyAll rt ω i cs ks := by
  have hn : ∀ i ks, Keyspace.applyAll rt ω i (if x > 0 then [[lit "PEXPIREAT", k, formatInt x]] else []) ks = .ok ks := by
    intro i ks
    split
    · have hu := (ofName_dump rt.unicode).2.2.2.2.2.2.2
      rfl
    · rfl
  rw [applyAll_append]
  cases Keyspace.applyAll rt ω i cs ks with
  | error s => rfl
  | ok ks' => exact hn _ _

theorem leaves_dumpEntry {en : Entry} {Q : Option (Datum × Int) → Prop} (hl : en.isExpired now = false) :
    Leaves rt ω i (dumpEntry rt ω' now k en) k ks Q ↔ Leaves rt ω i (en.value.dump rt ω' k) k ks Q := by
  rw [dumpEntry, hl]
  unfold Leaves
  simp only [Bool.false_eq_true, if_false, applyAll_expireAt]

theorem leaves_blocks {bs : List (Bytes × List Command)} (hkeys : (bs.map Prod.fst).Nodup)
    (hbs : ∀ b ∈ bs, ∀ i ks, ks.content b.1 = none → Leaves rt ω i b.2 b.1 ks fun _ => True)
    (hn : ∀ b ∈ bs, ks.content b.1 = none) :
    ∃ ks', Keyspace.applyAll rt ω i (bs.flatMap Prod.snd) ks = .ok ks' ∧
      (∀ k, (∀ b ∈ bs, b.1 ≠ k) → ks'.content k = ks.content k) ∧
      ∀ b ∈ bs, ∃ i₁ ks₁, ks₁.content b.1 = none ∧ Leaves rt ω i₁ b.2 b.1 ks₁ (· = ks'.content b.1) := by
  induction bs generalizing i ks with
  | nil => exact ⟨ks, rfl, fun _ _ => rfl, nofun⟩
  | cons b bs ih =>
    rw [map_cons, nodup_cons] at hkeys
    have ho : ∀ b' ∈ bs, b'.1 ≠ b.1 := fun b' hb' heq => hkeys.1 (heq ▸ mem_map_of_mem hb')
    obtain ⟨ks₁, ha, hf, -⟩ := hbs b (by simp) i ks (hn b (by simp))
    obtain ⟨ks', hr, hfr, hbl⟩ := @ih (i + b.2.length) ks₁ hkeys.2 (fun b hb => hbs b (by simp [hb]))
      fun b' hb' => (hf _ (ho b' hb')).trans (hn b' (by simp [hb']))
    refine ⟨ks', ?_, fun k hk => ?_, fun b' hb' => ?_⟩
    · rw [flatMap_cons, applyAll_append, ha]
      exact hr
    · rw [hfr k fun b' hb' => hk b' (by simp [hb']), hf k (hk b (by simp)).symm]
    · rcases mem_cons.1 hb' with rfl | hb'
      · exact ⟨i, ks, hn _ (by simp), ks₁, ha, hf, (hfr b'.1 ho).symm⟩
      · exact hbl b' hb'

theorem onKeyspace_dump (rt : Runtime) (ω : Env) (k : Bytes) (d : Datum) : ∀ c ∈ d.dump rt ω k, OnKeyspace rt c := by
  obtain ⟨hset, hh, hr, hs, hz, hv, hx, -⟩ := ofName_dump rt.unicode
  have ha : ∀ {name : Bytes} {args : List Bytes} {d : DataCmd}, Cmd.ofName (toUpperFast rt.unicode name) = .data d →
      ∀ c ∈ dumpArgs name k args, OnKeyspace rt c := by
    intro name args d hn c hc
    unfold dumpArgs at hc
    split at hc
    · cases hc
    · rw [mem_singleton.1 hc]
      exact .inl ⟨d, hn⟩
  intro c hc
  cases d with
  | string s =>
    rw [mem_singleton.1 hc]
    exact .inl ⟨_, hset⟩
  | hash h => exact ha hh c hc
  | list l => exact ha hr c hc
  | set s => exact ha hs c hc
  | zset z => exact ha hz c hc
  | vector v =>
    obtain ⟨id, -, rfl⟩ := mem_map.1 hc
    exact .inl ⟨_, hv⟩
  | stream s =>
    obtain ⟨⟨e, n⟩, -, rfl⟩ := mem_map.1 hc
    exact .inl ⟨_, hx⟩

theorem onKeyspace_dumpAll (rt : Runtime) (ω : Env) (ks : Keyspace) : ∀ c ∈ dumpAllCommands rt ω ks, OnKeyspace rt c := by
  intro c hc
  rw [dumpAllCommands_eq] at hc
  obtain ⟨b, hb, hc⟩ := mem_flatMap.1 hc
  obtain ⟨i, j, en, -, hd⟩ := mem_dumpBlocks hb
  rw [hd, dumpEntry] at hc
  split at hc
  · cases hc
  rcases mem_append.1 hc with hc | hc
  · exact onKeyspace_dump rt _ _ _ c hc
  · split at hc
    · rw [mem_singleton.1 hc]
      exact .inr (ofName_dump rt.unicode).2.2.2.2.2.2.2
    · cases hc

theorem applyAll_dump (rt : Runtime) (ω ω' : Env) (ks : Keyspace) :
    ∃ ks', Keyspace.applyAll rt ω' 0 (dumpAllCommands rt ω ks) Keyspace.empty = .ok ks' ∧ ∀ k,
      (Keyspace.view (ω []).nowMilli ks k = none → ks'.content k = none) ∧
      ∀ d x, Keyspace.view (ω []).nowMilli ks k = some (d, x) → ∃ i j i₁ ks₁, ks₁.content k = none ∧
        Leaves rt ω' i₁ (d.dump rt ((ω.sub i).sub j) k) k ks₁ (· = ks'.content k) := by
  have he : ∀ k, Keyspace.content Keyspace.empty k = none := fun k => by
    change cellContent ((∅ : GoMap Entry).lookup k) = none
    rw [Finmap.lookup_empty]
    rfl
  have hbs : ∀ b ∈ dumpBlocks rt ω (ω []).nowMilli ks, ∀ i ks', ks'.content b.1 = none →
      Leaves rt ω' i b.2 b.1 ks' fun _ => True := by
    intro b hb i₁ ks₁ hn
    obtain ⟨i, j, en, -, hd⟩ := mem_dumpBlocks hb
    rw [hd]
    cases hl : en.isExpired (ω []).nowMilli with
    | true =>
      rw [dumpEntry, if_pos hl]
      exact leaves_nil trivial
    | false => exact (leaves_dumpEntry hl).2 (leaves_dump en.value _ hn)
  obtain ⟨ks', ha, hf, hbl⟩ := leaves_blocks (i := 0) nodup_dumpBlocks hbs fun b _ => he b.1
  rw [← dumpAllCommands_eq] at ha
  refine ⟨ks', ha, fun k => ?_⟩
  unfold Keyspace.view
  cases hen : ks.entries.lookup k with
  | none =>
    refine ⟨fun _ => ?_, by rintro _ _ ⟨⟩⟩
    rw [hf k fun b hb heq => ?_, he]
    obtain ⟨i, j, en, hb, -⟩ := mem_dumpBlocks hb
    rw [heq, hen] at hb
    cases hb
  | some en =>
    obtain ⟨i, j, hm⟩ := exists_dumpBlock rt ω (ω []).nowMilli hen
    obtain ⟨i₁, ks₁, hn, hle⟩ := hbl _ hm
    cases hl : en.isExpired (ω []).nowMilli with
    | true =>
      have hv : liveCell (ω []).nowMilli (some en) = none := by simp [liveCell, dropExpired, hl]
      rw [hv]
      refine ⟨fun _ => ?_, by rintro _ _ ⟨⟩⟩
      rw [dumpEntry, if_pos hl] at hle
      obtain ⟨y, hy, hy'⟩ := hle.both (leaves_nil rfl)
      exact hy.symm.trans (hy'.symm.trans hn)
    | false =>
      have hv : liveCell (ω []).nowMilli (some en) = some (en.value, en.expiresAt) := by simp [liveCell, dropExpired, hl]
      rw [hv]
      refine ⟨by rintro ⟨⟩, fun d x hdx => ?_⟩
      cases hdx
      exact ⟨i, j, i₁, ks₁, hn, (leaves_dumpEntry hl).1 hle⟩

end

/-- Executed on an empty engine, the dump at clock time `now` gives the live entries. -/
def Keyspace.Rebuilds (rt : Runtime) (now : Int) (ks : Keyspace) : Prop :=
  ∀ ω ω' e own, (ω []).nowMilli = now → e.Applies own → e.maxMemory = 0 → e.ks = Keyspace.empty →
    ∃ e', applyCommands rt own ω' 0 (dumpAllCommands rt ω ks) e = .ok e' ∧
      ∀ k, Keyspace.content e'.ks k = Keyspace.view now ks k

def Keyspace.Rebuildable (rt : Runtime) (now : Int) (ks : Keyspace) : Prop :=
  ∀ k d x, Keyspace.view now ks k = some (d, x) → d.Rebuildable rt ∧ x = 0

/-- A keyspace is what its dump gives exactly if all its live entries are rebuildable. -/
theorem dump_rebuilds (rt : Runtime) (now : Int) (ks : Keyspace) : ks.Rebuilds rt now ↔ ks.Rebuildable rt now := by
  constructor
  · intro h k d x hv
    refine Datum.rebuildable_of_leaves (k := k) (.plain now) fun σ hσ ω' => ?_
    let ω : Env := fun _ => { Readings.plain now with shuffle := σ, shuffle_perm := hσ }
    have hno : (ω []).nowMilli = now := Int.mul_ediv_cancel now (by decide)
    obtain ⟨ks', ha, hkeys⟩ := applyAll_dump rt ω ω' ks
    obtain ⟨e', he, hc⟩ := h ω ω' _ _ hno (applies_replayEngine Keyspace.empty) rfl rfl
    obtain ⟨e'', hex, hks, -⟩ := applyCommands_ok (applies_replayEngine Keyspace.empty) rfl (onKeyspace_dumpAll rt ω ks) ha
    cases he.symm.trans hex
    rw [hno] at hkeys
    obtain ⟨i, j, i₁, ks₁, hn, hl⟩ := (hkeys k).2 d x hv
    rw [← hks, hc, hv] at hl
    exact ⟨i₁, ks₁, hn, hl⟩
  · rintro h ω ω' e own rfl happlies hmem hempty
    obtain ⟨ks', ha, hkeys⟩ := applyAll_dump rt ω ω' ks
    obtain ⟨e', he, hks, -⟩ := applyCommands_ok happlies hmem (onKeyspace_dumpAll rt ω ks) (hempty ▸ ha)
    refine ⟨e', he, fun k => ?_⟩
    rw [hks]
    rcases hv : Keyspace.view (ω []).nowMilli ks k with _ | ⟨d, x⟩
    · exact (hkeys k).1 hv
    · obtain ⟨i, j, i₁, ks₁, hn, hl⟩ := (hkeys k).2 d x hv
      obtain ⟨hd, rfl⟩ := h k d x hv
      obtain ⟨y, hy, hy'⟩ := hl.both (hd.leaves _ hn)
      exact hy.symm.trans hy'

/-- The dump of a key set with `SETEX`: the new key never expires. -/
theorem expiry_not_rebuilt : ∃ v e' e'', execute .plain (.plain 0) loggingEngine 0 "conn-1" ["SETEX", "k", "10", "v"] = .ok (v, e') ∧
    Keyspace.view 0 e'.ks "k" = some (.string "v", 10000) ∧
    applyCommands .plain aofReplay (.plain 0) 0 (dumpAllCommands .plain (.plain 0) e'.ks) (replayEngine Keyspace.empty) = .ok e'' ∧
    Keyspace.content e''.ks "k" = some (.string "v", 0) := by
  obtain ⟨v, e', hset, hv⟩ : ∃ v e', execute .plain (.plain 0) loggingEngine 0 "conn-1" ["SETEX", "k", "10", "v"] = .ok (v, e') ∧
      Keyspace.view 0 e'.ks "k" = some (.string "v", 10000) := ⟨_, _, rfl, by decide⟩
  obtain ⟨ks', ha, hkeys⟩ := applyAll_dump .plain (.plain 0) (.plain 0) e'.ks
  obtain ⟨e'', he, hks, -⟩ := applyCommands_ok (applies_replayEngine Keyspace.empty) rfl
    (onKeyspace_dumpAll .plain (.plain 0) e'.ks) ha
  refine ⟨v, e', e'', hset, hv, he, ?_⟩
  obtain ⟨i, j, i₁, ks₁, -, hl⟩ := (hkeys "k").2 _ _ hv
  obtain ⟨y, hy, hy'⟩ := hl.both (leaves_string _ _)
  rw [hks, ← hy, hy']

end VortexKV
