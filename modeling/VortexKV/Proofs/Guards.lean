import VortexKV.Executor

/-!
# Guards

The checks before a command is buffered or run: `Passed` says what a command that no check refuses has passed
(`guards_passed`, `Passed.guards`). Once the keys of a command are known, every check lets it through or answers
with an error (`guards_returns`).
-/

namespace VortexKV

def Unauthenticated (e : Engine) (s : ClientSession) (own cmd : Bytes) : Prop :=
  e.password ≠ [] ∧ s.authenticated = false ∧ internalConn own = false ∧ cmd ≠ lit "AUTH" ∧ cmd ≠ lit "QUIT"

def WritesToReplica (e : Engine) (own cmd : Bytes) : Prop :=
  e.repl.map (·.readOnly) = some true ∧ own ≠ replicaStream ∧ own ≠ aofReplay ∧ isWriteCommand cmd = true

structure Passed (rt : Runtime) (e : Engine) (s : ClientSession) (own cmd : Bytes) (args : List Bytes) : Prop where
  login : ¬ Unauthenticated e s own cmd
  acl : aclGuard rt e s own cmd args = .ok none
  replica : ¬ WritesToReplica e own cmd
  cluster : clusterGuard e own cmd args = .ok none

variable {rt : Runtime} {e : Engine} {s : ClientSession} {own cmd : Bytes} {args keys : List Bytes}

theorem guards_passed (h : guards rt e s own cmd args = .ok none) : Passed rt e s own cmd args := by
  unfold guards at h
  split at h
  · cases h
  rename_i hl
  rcases ha : aclGuard rt e s own cmd args with stop | _ | v
  · rw [ha] at h; cases h
  · rw [ha] at h
    dsimp only at h
    split at h
    · cases h
    rename_i hr
    exact ⟨by simpa [Unauthenticated] using hl, ha, hr, h⟩
  · rw [ha] at h; cases h

theorem Passed.guards (h : Passed rt e s own cmd args) : VortexKV.guards rt e s own cmd args = .ok none := by
  unfold VortexKV.guards
  rw [if_neg (by simpa [Unauthenticated] using h.login), h.acl]
  exact (if_neg h.replica).trans h.cluster

theorem aclGuard_unasked (h : s.authenticated = false ∨ internalConn own = true) :
    aclGuard rt e s own cmd args = .ok none := by
  unfold aclGuard
  split
  · rfl
  · rw [if_neg (by rcases h with h | h <;> simp [h])]

theorem guards_callers (hint : internalConn own = true) :
    guards rt e s own cmd args = .ok none ↔ ¬ WritesToReplica e own cmd := by
  refine ⟨fun h => (guards_passed h).replica, fun h => Passed.guards ⟨?_, aclGuard_unasked (.inr hint), h, ?_⟩⟩
  · rintro ⟨-, -, he, -⟩
    rw [hint] at he
    cases he
  · unfold clusterGuard
    split
    · rfl
    · rw [if_neg (by simp [hint])]

theorem aclGuard_returns (hk : extractCommandKeys cmd args = .ok keys) :
    ∃ o : Option Bytes, aclGuard rt e s own cmd args = .ok (o.map .error) := by
  unfold aclGuard
  split
  · exact ⟨none, rfl⟩
  · rename_i acl _
    split
    · rw [hk]
      exact ⟨(acl.refusal rt s.username cmd keys).map (lit "NOPERM " ++ ·), by rw [Option.map_map]; rfl⟩
    · exact ⟨none, rfl⟩

theorem slotGuard_returns (cm : ClusterManager) (keys : List Bytes) :
    ∃ o : Option Bytes, slotGuard cm keys = o.map .error := by
  cases keys with
  | nil => exact ⟨none, rfl⟩
  | cons key keys =>
    unfold slotGuard
    dsimp only
    split
    · exact ⟨some _, rfl⟩
    · split
      · exact ⟨some _, rfl⟩
      · split
        · exact ⟨some _, rfl⟩
        · exact ⟨none, rfl⟩

theorem guards_returns (hk : extractCommandKeys cmd args = .ok keys) :
    ∃ o : Option Bytes, guards rt e s own cmd args = .ok (o.map .error) := by
  unfold guards
  obtain ⟨_ | msg, ha⟩ := @aclGuard_returns rt e s own cmd args keys hk
  all_goals rw [ha]
  · split
    · exact ⟨some _, rfl⟩
    dsimp only [Option.map_none]
    split
    · exact ⟨some _, rfl⟩
    unfold clusterGuard
    split
    · exact ⟨none, rfl⟩
    · rename_i cm _
      split
      · rw [hk]
        exact (slotGuard_returns cm keys).imp fun _ => congrArg Except.ok
      · exact ⟨none, rfl⟩
  · split
    · exact ⟨some _, rfl⟩
    · exact ⟨some msg, rfl⟩

end VortexKV
