import VortexKV.Commands
import VortexKV.Threads

/-!
# SET NX among other clients

Clients take a lock with `SET k v NX` or `SETNX k v`. `SETNX` is one operation, so exactly one gets it (`holder_turn`). `SET`
looks for the key in one operation and stores in another, and a client in between gets it as well (`granted_both`).
-/

namespace VortexKV

open KeyedStore Threads List

/-- A command that takes a lock. The options of `SET` may be in any order and spelling, as long as they set `NX`
and not `XX`; its time to live counts from the client's own clock. -/
inductive LockCommand (rt : Runtime)
  | set (r : Readings) (val : Bytes) (opts : List Bytes) (ttl : Int)
      (nx : setOptions rt opts 0 false false = .ok (ttl, true, false))
  | setnx (val : Bytes) (rest : List Bytes)

namespace LockCommand

variable {rt : Runtime}

def program (k : Bytes) : LockCommand rt → KsProg Outcome
  | set r val opts _ _ => handleSet rt r (k :: val :: opts)
  | setnx val rest => cmdSetNX (k :: val :: rest)

def val : LockCommand rt → Bytes
  | set _ val _ _ _ => val
  | setnx val _ => val

def granted : LockCommand rt → Outcome
  | set .. => wrote ok
  | setnx .. => wrote (.integer 1)

def refused : LockCommand rt → Outcome
  | set .. => reply .nil
  | setnx .. => reply (.integer 0)

def isSetnx : LockCommand rt → Bool
  | set .. => false
  | setnx .. => true

def store (k : Bytes) (r : Readings) (val : Bytes) (ttl : Int) : KsProg Outcome := do
  KsProg.set k (.string val) (if ttl > 0 then wrap64 (r.fastNow + ttl) else 0)
  pure (wrote ok)

theorem program_set (k : Bytes) (r : Readings) (val : Bytes) (opts : List Bytes) (ttl : Int)
    (nx : setOptions rt opts 0 false false = .ok (ttl, true, false)) :
    (set r val opts ttl nx).program k =
      (KsProg.get k >>= fun found => if found.isSome then pure (reply .nil) else store k r val ttl) := by
  simp only [program, handleSet, nx, if_true, Bool.true_and, Bool.false_and, Bool.or_false]
  rfl

theorem granted_ne_refused (c : LockCommand rt) : c.granted ≠ c.refused := by
  cases c <;> exact nofun

end LockCommand

/-- No entry, or one that has expired at time `t`. -/
def Keyspace.Absent (t : Int) (k : Bytes) (ks : Keyspace) : Prop :=
  ∀ en, ks.entries.lookup k = some en → en.isExpired t = true

theorem Keyspace.Absent.dropExpired {t now : Int} {k : Bytes} {ks : Keyspace} (h : ks.Absent t k) (ht : t ≤ now) :
    (dropExpired now (ks.entries.lookup k)).1 = none := by
  cases hk : ks.entries.lookup k with
  | none => rfl
  | some en => rw [VortexKV.dropExpired, if_pos (isExpired_mono ht (h en hk))]

section

variable {ι : Type} [DecidableEq ι] {rt : Runtime} (k : Bytes) (cs : ι → LockCommand rt)

def attempt (ks : Keyspace) : System ι Int Keyspace Outcome := ⟨fun i => ofProg ksStep ((cs i).program k), ks⟩

/-- The lock excludes: not two clients have it, and the value under the key is that of the one who has. -/
structure Excludes (s : System ι Int Keyspace Outcome) : Prop where
  unique : ∀ i j, s.threads i = .ret (cs i).granted → s.threads j = .ret (cs j).granted → i = j
  value : ∀ i, s.threads i = .ret (cs i).granted →
    ∃ en, s.shared.entries.lookup k = some en ∧ en.value = .string (cs i).val

/-- Nobody has the lock yet, or client `i` has it. -/
structure Holder (t : Int) (s : System ι Int Keyspace Outcome) (holder : Option ι) : Prop where
  others : ∀ i, holder ≠ some i →
    s.threads i = ofProg ksStep ((cs i).program k) ∨ s.threads i = .ret (cs i).refused
  free : holder = none → s.shared.Absent t k
  held : ∀ i, holder = some i → s.threads i = .ret (cs i).granted ∧
    ∃ a, s.shared.entries.lookup k = some ⟨.string (cs i).val, 0, a⟩

variable {k cs} {t now : Int} {s : System ι Int Keyspace Outcome} {ks : Keyspace}

theorem Holder.excludes {ho : Option ι} (h : Holder k cs t s ho) : Excludes k cs s := by
  have hg : ∀ i, s.threads i = .ret (cs i).granted → ho = some i := by
    intro i hi
    by_contra hne
    rcases h.others i hne with hs | hs
    · rw [hs] at hi
      rcases hc : cs i with ⟨r, val, opts, ttl, nx⟩ | ⟨val, rest⟩
      · rw [hc, LockCommand.program_set] at hi
        cases hi
      · rw [hc] at hi
        cases hi
    · rw [hs] at hi
      exact (cs i).granted_ne_refused (Code.ret.inj hi).symm
  refine ⟨fun i j hi hj => ?_, fun i hi => ?_⟩
  · exact Option.some.inj ((hg i hi).symm.trans (hg j hj))
  · obtain ⟨a, ha⟩ := (h.held i (hg i hi)).2
    exact ⟨_, ha, rfl⟩

theorem setnx_absent (val : Bytes) (rest : List Bytes) (h : (dropExpired now (ks.entries.lookup k)).1 = none) :
    (ofProg ksStep (cmdSetNX (k :: val :: rest))).next now ks = .ret (wrote (.integer 1)) ∧
      ∃ d, (ofProg ksStep (cmdSetNX (k :: val :: rest))).effect now ks = ks.put k (some ⟨.string val, 0, now⟩) d := by
  have hstep : ksStep now (.setNX (.string val)) (ks.entries.lookup k) =
      (true, some ⟨.string val, 0, now⟩, (dropExpired now (ks.entries.lookup k)).2 + 1) := by
    simp only [ksStep]
    generalize dropExpired now (ks.entries.lookup k) = x at h ⊢
    obtain ⟨c, d⟩ := x
    obtain rfl : c = none := h
    rfl
  change ofProg ksStep ((fun r : Bool => if r then pure (wrote (.integer 1)) else pure (reply (.integer 0)) : Bool → KsProg Outcome)
    (ksStep now (.setNX (.string val)) (ks.entries.lookup k)).1) = _ ∧ ∃ d, ks.put k
      (ksStep now (.setNX (.string val)) (ks.entries.lookup k)).2.1
      (ksStep now (.setNX (.string val)) (ks.entries.lookup k)).2.2 = _
  rw [hstep]
  exact ⟨rfl, _, rfl⟩

theorem setnx_present (now : Int) (val : Bytes) (rest : List Bytes) {v : Datum} {a : Int} (h : ks.entries.lookup k = some ⟨v, 0, a⟩) :
    (ofProg ksStep (cmdSetNX (k :: val :: rest))).next now ks = .ret (reply (.integer 0)) ∧
      (ofProg ksStep (cmdSetNX (k :: val :: rest))).effect now ks = ks := by
  have hstep : ksStep now (.setNX (.string val)) (ks.entries.lookup k) = (false, some ⟨v, 0, a⟩, 0) := by
    rw [h]
    rfl
  change ofProg ksStep ((fun r : Bool => if r then pure (wrote (.integer 1)) else pure (reply (.integer 0)) : Bool → KsProg Outcome)
    (ksStep now (.setNX (.string val)) (ks.entries.lookup k)).1) = _ ∧ ks.put k
      (ksStep now (.setNX (.string val)) (ks.entries.lookup k)).2.1
      (ksStep now (.setNX (.string val)) (ks.entries.lookup k)).2.2 = _
  rw [hstep]
  exact ⟨rfl, Store.put_self h⟩

theorem holder_turn (hcs : ∀ i, (cs i).isSetnx = true) (ht : t ≤ now) {ho : Option ι} (h : Holder k cs t s ho)
    (i : ι) : ∃ hol, Holder k cs t (s.turn (i, now)) hol := by
  by_cases hi : ho = some i
  · exact ⟨ho, by rw [System.turn_ret (h.held i hi).1]; exact h⟩
  rcases h.others i hi with hs | hs
  swap
  · exact ⟨ho, by rw [System.turn_ret hs]; exact h⟩
  rcases hc : cs i with ⟨r, val, opts, ttl, nx⟩ | ⟨val, rest⟩
  · have := hcs i
    rw [hc] at this
    cases this
  replace hs : s.threads i = ofProg ksStep (cmdSetNX (k :: val :: rest)) := by rw [hs, hc]; rfl
  have hse := s.turn_threads_self i now
  have hsh : (s.turn (i, now)).shared = (s.threads i).effect now s.shared := rfl
  rw [hs] at hse hsh
  cases ho with
  | none =>
    obtain ⟨hn, d, he⟩ := setnx_absent val rest ((h.free rfl).dropExpired ht)
    refine ⟨some i, fun j hj => ?_, nofun, fun j hj => ?_⟩
    · rw [System.turn_threads_ne s (fun hji => hj (congrArg some hji.symm))]
      exact h.others j nofun
    · obtain rfl := Option.some.inj hj
      rw [hse, hsh, hc]
      exact ⟨hn, now, by rw [he, Store.lookup_put]; rfl⟩
  | some j =>
    obtain ⟨hj, a, ha⟩ := h.held j rfl
    obtain ⟨hn, he⟩ := setnx_present now val rest ha
    refine ⟨some j, fun j' hj' => ?_, nofun, fun j' hj' => ?_⟩
    · by_cases hji : j' = i
      · rw [hji, hse, hc]
        exact .inr hn
      · rw [System.turn_threads_ne s hji]
        exact h.others j' hj'
    · rw [System.turn_threads_ne s fun hji => hi (hj'.trans (congrArg some hji)), hsh, he]
      exact h.held j' hj'

/-! ### `SET` with `NX` -/

theorem set_absent (r : Readings) (val : Bytes) (opts : List Bytes) (ttl : Int)
    (nx : setOptions rt opts 0 false false = .ok (ttl, true, false))
    (h : (dropExpired now (ks.entries.lookup k)).1 = none) :
    (ofProg ksStep ((LockCommand.set r val opts ttl nx).program k)).next now ks =
        ofProg ksStep (LockCommand.store k r val ttl) ∧
      ((ofProg ksStep ((LockCommand.set r val opts ttl nx).program k)).effect now ks).entries.lookup k = none := by
  have hstep : ksStep now .get (ks.entries.lookup k) = (none, none, (dropExpired now (ks.entries.lookup k)).2) := by
    simp only [ksStep]
    generalize dropExpired now (ks.entries.lookup k) = x at h ⊢
    obtain ⟨c, d⟩ := x
    obtain rfl : c = none := h
    rfl
  rw [LockCommand.program_set]
  change ofProg ksStep ((fun found : Option (Datum × Int) => if found.isSome then pure (reply .nil)
    else LockCommand.store k r val ttl : Option (Datum × Int) → KsProg Outcome)
      (ksStep now .get (ks.entries.lookup k)).1) = _ ∧ (ks.put k (ksStep now .get (ks.entries.lookup k)).2.1
      (ksStep now .get (ks.entries.lookup k)).2.2).entries.lookup k = none
  rw [hstep]
  exact ⟨rfl, Store.lookup_put ..⟩

theorem run_program_absent (c : LockCommand rt) (h : (dropExpired now (ks.entries.lookup k)).1 = none) :
    ((c.program k).run (ksStep now) ks).1 = c.granted := by
  rcases c with ⟨r, val, opts, ttl, nx⟩ | ⟨val, rest⟩
  · rw [LockCommand.program_set, Prog.run_bind, run_get]
    rw [h]
    rfl
  · have hn := (setnx_absent val rest h).1
    rw [← alone_ofProg, Code.alone_next, LockCommand.program, hn]
    rfl

theorem granted_both (h : ks.Absent t k) {i j : ι} (hij : i ≠ j) (hi : (cs i).isSetnx = false) :
    ∃ sched, (∀ p ∈ sched, p.2 = t) ∧ ((attempt k cs ks).run sched).threads i = .ret (cs i).granted ∧
      ((attempt k cs ks).run sched).threads j = .ret (cs j).granted := by
  rcases hc : cs i with ⟨r, val, opts, ttl, nx⟩ | ⟨val, rest⟩
  swap
  · rw [hc] at hi
    cases hi
  obtain ⟨hne, he⟩ := set_absent r val opts ttl nx (h.dropExpired (le_refl t))
  -- Client `i` looks for the key, client `j` runs, client `i` stores.
  let s₁ := (attempt k cs ks).turn (i, t)
  have hs : s₁.threads i = ofProg ksStep (LockCommand.store k r val ttl) := by
    rw [System.turn_threads_self]
    simpa only [attempt, hc] using hne
  have hj : s₁.threads j = ofProg ksStep ((cs j).program k) := System.turn_threads_ne _ hij.symm _
  have hf : s₁.shared.entries.lookup k = none := by
    simpa only [s₁, System.turn, attempt, hc] using he
  obtain ⟨n, hn⟩ := s₁.run_alone j t
  rw [hj, alone_ofProg, run_program_absent (cs j) (by rw [hf]; rfl)] at hn
  have hr : (attempt k cs ks).run ((i, t) :: (List.replicate n (j, t) ++ [(i, t)])) =
      System.turn ⟨Function.update s₁.threads j (.ret (cs j).granted), (((cs j).program k).run (ksStep t) s₁.shared).2⟩
        (i, t) := by
    rw [System.run_cons, System.run_append, hn]
    rfl
  refine ⟨(i, t) :: (List.replicate n (j, t) ++ [(i, t)]), ?_, ?_, ?_⟩
  · intro p hp
    simp only [mem_cons, mem_append, mem_replicate, not_mem_nil, or_false] at hp
    rcases hp with rfl | ⟨_, rfl⟩ | rfl <;> rfl
  · rw [hr, System.turn_threads_self]
    simp only [Function.update_of_ne hij, hs]
    rfl
  · rw [hr, System.turn_threads_ne _ hij.symm]
    exact Function.update_self ..

variable (k) in
/-- What a `SET` goes through when no other client writes the key. -/
inductive SetStage (r : Readings) (val : Bytes) (opts : List Bytes) (ttl : Int)
    (nx : setOptions rt opts 0 false false = .ok (ttl, true, false)) : Code Int Keyspace Outcome → Keyspace → Prop
  | looking (ks : Keyspace) : SetStage r val opts ttl nx (ofProg ksStep ((LockCommand.set r val opts ttl nx).program k)) ks
  | storing (ks : Keyspace) : SetStage r val opts ttl nx (ofProg ksStep (LockCommand.store k r val ttl)) ks
  | refused (ks : Keyspace) : SetStage r val opts ttl nx (.ret (reply .nil)) ks
  | granted {ks : Keyspace} {en : Entry} (hen : ks.entries.lookup k = some en) (hval : en.value = .string val) :
      SetStage r val opts ttl nx (.ret (wrote ok)) ks

theorem SetStage.turn {r : Readings} {val : Bytes} {opts : List Bytes} {ttl : Int}
    {nx : setOptions rt opts 0 false false = .ok (ttl, true, false)} {code : Code Int Keyspace Outcome}
    (h : SetStage k r val opts ttl nx code ks) (now : Int) :
    SetStage k r val opts ttl nx (code.next now ks) (code.effect now ks) := by
  cases h with
  | looking =>
    rw [LockCommand.program_set]
    have hn : (ofProg ksStep (KsProg.get k >>= fun found => if found.isSome then pure (reply .nil)
        else LockCommand.store k r val ttl)).next now ks =
      ofProg ksStep ((fun found : Option (Datum × Int) => if found.isSome then pure (reply .nil)
        else LockCommand.store k r val ttl : Option (Datum × Int) → KsProg Outcome)
          (ksStep now .get (ks.entries.lookup k)).1) := rfl
    rw [hn]
    generalize (ksStep now .get (ks.entries.lookup k)).1 = found
    cases found with
    | none => exact .storing _
    | some d => exact .refused _
  | storing =>
    have hen : ((ofProg ksStep (LockCommand.store k r val ttl)).effect now ks).entries.lookup k =
        some ⟨.string val, if ttl > 0 then wrap64 (r.fastNow + ttl) else 0, now⟩ := Store.lookup_put ks k (some _) _
    exact .granted hen rfl
  | refused => exact .refused ks
  | granted hen hv => exact .granted hen hv

/-- `SET NX` and `SETNX` are a lock for any clients, schedule and clock readings from time `t` on, exactly when
all clients use `SETNX` or there is only one. -/
theorem setNX_excludes_iff (rt : Runtime) (k : Bytes) (cs : ι → LockCommand rt) :
    (∀ t ks sched, Keyspace.Absent t k ks → (∀ p ∈ sched, t ≤ p.2) → Excludes k cs ((attempt k cs ks).run sched)) ↔
      (∀ i, (cs i).isSetnx = true) ∨ Subsingleton ι := by
  constructor
  · intro h
    by_contra hco
    obtain ⟨hset, hm⟩ := not_or.1 hco
    obtain ⟨i, hi⟩ := not_forall.1 hset
    obtain ⟨j, hij⟩ : ∃ j, i ≠ j := by
      by_contra hal
      exact hm ⟨fun a b => (not_not.1 (not_exists.1 hal a)).symm.trans (not_not.1 (not_exists.1 hal b))⟩
    have ha : Keyspace.Absent 0 k .empty := fun en hen => by cases hen
    have hi : (cs i).isSetnx = false := by simpa using hi
    obtain ⟨sched, hcl, hgi, hgj⟩ := granted_both ha hij hi
    exact hij ((h 0 .empty sched ha fun p hp => (hcl p hp).ge).unique i j hgi hgj)
  · rintro hcs t ks sched ha hcl
    by_cases hal : ∀ i, (cs i).isSetnx = true
    · -- The lock passes from nobody to one client and stays there.
      obtain ⟨ho, hold⟩ : ∃ ho, Holder k cs t ((attempt k cs ks).run sched) ho :=
        System.run_inv (J := fun s => ∃ ho, Holder k cs t s ho)
          (fun s i now ht ⟨ho, hold⟩ => holder_turn hal ht hold i) hcl
          ⟨none, fun i _ => .inl rfl, fun _ => ha, nofun⟩
      exact hold.excludes
    · have hon : Subsingleton ι := hcs.resolve_left hal
      obtain ⟨i, hi⟩ := not_forall.1 hal
      rcases hc : cs i with ⟨r, val, opts, ttl, nx⟩ | ⟨val, rest⟩
      swap
      · exact absurd (by rw [hc]; rfl) hi
      have hst : SetStage k r val opts ttl nx (((attempt k cs ks).run sched).threads i)
          ((attempt k cs ks).run sched).shared := by
        refine System.run_inv (J := fun s => SetStage k r val opts ttl nx (s.threads i) s.shared) ?_ hcl ?_
        · intro s j now _ hs
          obtain rfl := hon.elim i j
          rw [System.turn_threads_self]
          exact hs.turn now
        · simp only [attempt, hc]
          exact .looking ks
      refine ⟨fun _ _ _ _ => hon.elim .., fun j hj => ?_⟩
      obtain rfl := hon.elim i j
      rw [hj, hc] at hst
      generalize hg : (Code.ret (LockCommand.set r val opts ttl nx).granted : Code Int Keyspace Outcome) = code at hst
      cases hst with
      | looking => rw [LockCommand.program_set] at hg; cases hg
      | storing => cases hg
      | refused => cases hg
      | granted hen hv => exact ⟨_, hen, by rw [hc]; exact hv⟩

/-- Two clients with `SET k v NX`: the first looks for the key, the second runs, the first stores. Both are answered
with `OK`. -/
theorem setNX_granted_twice :
    let cs : Bool → LockCommand .plain := fun b => .set (.plain 0) (if b then "1" else "2") ["NX"] 0 (by decide)
    let s := (attempt "lock" cs .empty).run [(true, 0), (false, 0), (false, 0), (true, 0)]
    s.threads true = .ret (wrote ok) ∧ s.threads false = .ret (wrote ok) ∧ ¬ Excludes "lock" cs s := by
  intro cs s
  exact ⟨rfl, rfl, fun h => Bool.noConfusion (h.unique true false rfl rfl)⟩

end

end VortexKV
