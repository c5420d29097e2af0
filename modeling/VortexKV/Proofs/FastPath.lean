import VortexKV.Reactor
import VortexKV.Proofs.Guards
import VortexKV.Proofs.MemoryCheck

/-!
# The reactor's shortcuts against the executor

`fastPath_eq_slowPath_iff`: for which inputs the shortcuts answer as the executor would. They skip the ACL check, `SET`
counts a key again, `DEL` skips the memory check, and `PING` is answered before authentication and in a transaction.
-/

namespace VortexKV

open KeyedStore List

variable {s cmd name key : Bytes} {args : List Bytes} {scripts : Scripts} {v : Value} {e' : Engine}

/-! ### Names -/

theorem packCmd_cons (b : UInt8) (h : (packCmd s).toNat < 2 ^ 24) :
    (packCmd (b :: s)).toNat = (b ||| 0x20).toNat + 256 * (packCmd s).toNat := by
  have hb : (b ||| 0x20).toNat < 2 ^ 8 := UInt8.toNat_lt _
  rw [show packCmd (b :: s) = (b ||| 0x20).toUInt32 ||| (packCmd s <<< 8) from rfl, UInt32.toNat_or,
    UInt32.toNat_shiftLeft, UInt8.toNat_toUInt32]
  generalize (b ||| 0x20).toNat = m at *
  generalize (packCmd s).toNat = n at *
  rw [show (UInt32.toNat 8 % 32) = 8 from rfl, Nat.shiftLeft_eq, Nat.mod_eq_of_lt (by omega), Nat.or_comm,
    Nat.mul_comm, ← Nat.two_pow_add_eq_or_of_lt hb]
  omega

theorem packCmd_lt (h : s.length ≤ 4) : (packCmd s).toNat < 2 ^ (8 * s.length) := by
  induction s with
  | nil => decide
  | cons b s ih =>
    have hs : s.length < 4 := h
    have ih := ih (by omega)
    have hle : 2 ^ (8 * s.length) ≤ 2 ^ 24 := Nat.pow_le_pow_right (by decide) (by omega)
    have hb : (b ||| 0x20).toNat < 256 := UInt8.toNat_lt _
    rw [packCmd_cons b (by omega), length_cons, Nat.mul_add, Nat.pow_add]
    omega

/-- The packed code of a name determines its bytes up to letter case. -/
theorem packCmd_inj {t : Bytes} (hl : s.length = t.length) (h4 : s.length ≤ 4) (h : packCmd s = packCmd t) :
    s.map (· ||| 0x20) = t.map (· ||| 0x20) := by
  induction s generalizing t with
  | nil => rw [eq_nil_of_length_eq_zero hl.symm]
  | cons b s ih =>
    cases t with
    | nil => simp at hl
    | cons c t =>
      have hst : s.length = t.length := by simpa using hl
      have hs : s.length < 4 := h4
      have h₁ := packCmd_lt (s := s) (by omega)
      have h₂ := packCmd_lt (s := t) (by omega)
      rw [← hst] at h₂
      have hle : 2 ^ (8 * s.length) ≤ 2 ^ 24 := Nat.pow_le_pow_right (by decide) (by omega)
      have h' := congrArg UInt32.toNat h
      rw [packCmd_cons b (by omega), packCmd_cons c (by omega)] at h'
      have hb : (b ||| 0x20).toNat < 256 := UInt8.toNat_lt _
      have hc : (c ||| 0x20).toNat < 256 := UInt8.toNat_lt _
      rw [map_cons, map_cons, ih hst (by omega) (UInt32.toNat_inj.1 (by omega)),
        UInt8.toNat_inj.1 (show (b ||| 0x20).toNat = (c ||| 0x20).toNat by omega)]

theorem upperByte_letter {b : UInt8} (h : isLower (b ||| 0x20) = true) :
    b < 0x80 ∧ upperByte b = upperByte (b ||| 0x20) ∧ (isLower b = false → upperByte b = b) := by
  have key : ∀ n : Fin 256, isLower (UInt8.ofNat n ||| 0x20) = true → UInt8.ofNat n < 0x80 ∧
      upperByte (UInt8.ofNat n) = upperByte (UInt8.ofNat n ||| 0x20) ∧
      (isLower (UInt8.ofNat n) = false → upperByte (UInt8.ofNat n) = UInt8.ofNat n) := by
    decide +kernel
  have hb := key ⟨b.toNat, b.toNat_lt⟩
  simp only [UInt8.ofNat_toNat] at hb
  exact hb h

theorem toUpperFast_letters (u : Unicode) (h : ∀ c ∈ s, isLower (c ||| 0x20) = true) :
    toUpperFast u s = (s.map (· ||| 0x20)).map upperByte := by
  have hup : s.map upperByte = (s.map (· ||| 0x20)).map upperByte := by
    rw [map_map]
    exact map_congr_left fun c hc => (upperByte_letter (h c hc)).2.1
  unfold toUpperFast
  split
  · rw [toUpper_ascii u (all_eq_true.2 fun c hc => decide_eq_true (upperByte_letter (h c hc)).1), hup]
  · rename_i hl
    rw [← hup]
    refine (map_id s).symm.trans (map_congr_left fun c hc => ?_)
    refine ((upperByte_letter (h c hc)).2.2 ?_).symm
    simpa using fun hc' => hl (any_eq_true.2 ⟨c, hc, hc'⟩)

theorem toUpperFast_of_code (u : Unicode) {t : Bytes} (ht : t.length ≤ 4)
    (h : (if s.length = t.length then packCmd s else 0) = packCmd t) (h0 : packCmd t ≠ 0)
    (hlo : (t.map (· ||| 0x20)).all isLower = true) :
    toUpperFast u s = (t.map (· ||| 0x20)).map upperByte := by
  split at h
  · rename_i hl
    have hst := packCmd_inj hl (by omega) h
    rw [toUpperFast_letters u, hst]
    intro c hc
    exact all_eq_true.1 hlo _ (hst ▸ mem_map_of_mem hc)
  · exact absurd h.symm h0

/-! ### Replies -/

theorem appendValue_error (msg : Bytes) : appendValue (.error msg) = 45 :: (msg ++ CRLF) := by
  simp [Value.error, appendValue]

theorem appendValue_bulkString (s : Bytes) : appendValue (.bulkString s) = appendBulkString s := by
  cases s <;> simp [Value.bulkString, appendValue]

theorem formatInt_digit {n : Int} (h0 : 0 ≤ n) (h : n < 10) : formatInt n = [(48 + n.toNat).toUInt8] := by
  obtain ⟨m, rfl⟩ := Int.eq_ofNat_of_zero_le h0
  have hm : m < 10 := by omega
  interval_cases m <;> decide

theorem appendValue_integer (n : Int) : appendValue (.integer n) = 58 :: (formatInt n ++ CRLF) := by
  simp only [Value.integer, appendValue]
  by_cases h : 0 ≤ n ∧ n < 10
  · rw [formatInt_digit h.1 h.2]
    simp [h]
  · simp [h]

/-! ### The executor on the shortcut's inputs -/

section

variable (rt : Runtime) (ω : Env) (e : Engine) (p : Nat) (connID : Bytes)

def AclAllows (cmd : Bytes) (args : List Bytes) : Prop := aclGuard rt e (e.sessions p) connID cmd args = .ok none

def PingAllowed (args : List Bytes) : Prop :=
  guards rt e (e.sessions p) connID "PING" args = .ok none ∧ (e.sessions p).inMulti = false

variable {rt ω e p connID}

theorem guards_of_simple (h : isSimpleSession e p = true) (cmd : Bytes) (args : List Bytes) :
    guards rt e (e.sessions p) connID cmd args = aclGuard rt e (e.sessions p) connID cmd args := by
  simp only [isSimpleSession, Bool.and_eq_true, decide_eq_true_eq] at h
  obtain ⟨⟨⟨-, hpw⟩, hcl⟩, hro⟩ := h
  have hcu : clusterGuard e connID cmd args = .ok none := by
    unfold clusterGuard
    cases hc : e.cluster with
    | none => rfl
    | some cm => simp_all
  unfold guards
  simp only [hpw, hro, hcu]
  rcases aclGuard rt e (e.sessions p) connID cmd args with s | _ | v <;> simp

theorem execute_of_simple (h : isSimpleSession e p = true) (name : Bytes) (args : List Bytes)
    (hn : toUpperFast rt.unicode name = cmd) :
    execute rt ω e p connID (name :: args) =
      match aclGuard rt e (e.sessions p) connID cmd args with
      | .error s => .error s
      | .ok (some v) => .ok (v, e)
      | .ok none => runCommand rt (luaScripts rt) ω e connID name args cmd := by
  have hm : (e.sessions p).inMulti = false := by
    simp only [isSimpleSession, Bool.and_eq_true] at h
    simpa using h.1.1.1.1
  simp only [execute, executeCommandWithSession, hn, guards_of_simple h, hm]
  rcases aclGuard rt e (e.sessions p) connID cmd args with s | _ | v <;> rfl

theorem runCommand_of_read
    (h : dispatch rt (ω []) (scripts ω) e connID cmd args = .ok (v, false, e')) :
    runCommand rt scripts ω e connID name args cmd = .ok (v, e') := by
  simp [runCommand, h, touchKeys, memoryCheck]

/-! ### One shortcut at a time -/

/-- What the two paths are compared on: the bytes, the keyspace with its key count, the sessions. -/
def observed (a : Appended) : Except Stop (Bytes × Keyspace × (Nat → ClientSession)) :=
  a.map fun (out, e) => (out, e.ks, e.sessions)

def liveValue (now : Int) (ks : Keyspace) (key : Bytes) : Option Datum :=
  (dropExpired now (ks.entries.lookup key)).1.map Entry.value

def appended (x : Executed) : Appended := x.map fun (v, e) => (appendValue v, e)

/-- A shortcut that answers `out`, which is no error, does what the executor does exactly when the ACL
check passes and the command itself does. -/
theorem shortcut_iff (hs : isSimpleSession e p = true) {out : Bytes} (hn : toUpperFast rt.unicode name = cmd) (keys : List Bytes) (hk : extractCommandKeys cmd args = .ok keys)
    (ho : out.head? ≠ some 45) :
    observed (.ok (out, e')) = observed (slowPath rt ω e p connID (name :: args)) ↔
      AclAllows rt e p connID cmd args ∧ observed (.ok (out, e')) =
        observed (appended (runCommand rt (luaScripts rt) ω e connID name args cmd)) := by
  rw [slowPath, execute_of_simple hs name args hn]
  obtain ⟨_ | msg, ha⟩ := @aclGuard_returns rt e (e.sessions p) connID cmd args keys hk
  · simp only [AclAllows, ha, Option.map_none, true_and]
    rfl
  · simp only [AclAllows, ha, Option.map_some]
    constructor
    · intro h
      simp only [observed, Except.map, Except.ok.injEq, Prod.mk.injEq, appendValue_error] at h
      exact absurd (h.1 ▸ rfl) ho
    · rintro ⟨h, -⟩
      simp at h

theorem fastGet_iff (hs : isSimpleSession e p = true)
    (hn : toUpperFast rt.unicode name = lit "GET") :
    observed (fastGet rt ω e p connID name key) = observed (slowPath rt ω e p connID [name, key]) ↔
      AclAllows rt e p connID "GET" [key] ∨
        ∃ d, liveValue (ω []).fastNow e.ks key = some d ∧ d.string? = none := by
  have hd := dispatch_data rt (ω []) (luaScripts rt ω) e connID [key]
    (show Cmd.ofName (lit "GET") = .data .get by decide)
  have hk : extractCommandKeys (lit "GET") [key] = .ok [key] := rfl
  simp only [DataCmd.action, Action.run, cmdGet, Prog.run_bind, run_get, liveValue, fastGet] at hd ⊢
  rcases hx : dropExpired (ω []).fastNow (e.ks.entries.lookup key) with ⟨_ | en, d⟩
  · simp only [hx, Option.map_none] at hd ⊢
    rw [shortcut_iff hs hn _ hk (by decide), runCommand_of_read hd]
    simp [observed, appended, Except.map, Value.nil, appendValue]
  · obtain ⟨hc, rfl⟩ := dropExpired_some hx
    simp only [hx, Store.put_self hc, Option.map_some, Option.some.injEq, exists_eq_left'] at hd ⊢
    rcases hv : en.value with s | _ | _ | _ | _ | _ | _
    · simp only [hv, Datum.string?] at hd ⊢
      rw [shortcut_iff hs hn _ hk (by simp [appendBulkString]), runCommand_of_read hd]
      simp [observed, appended, Except.map, appendValue_bulkString]
    all_goals simp [Datum.string?]

theorem runCommand_of_unwatched
    (e' : Engine) (h : dispatch rt (ω []) (scripts ω) e connID cmd args = .ok (v, true, e'))
    (hw : e'.watchedCount = 0) :
    runCommand rt scripts ω e connID name args cmd =
      if (memoryCheck ω e' true).1 then .ok (oom, (memoryCheck ω e' true).2)
      else .ok (v, (memoryCheck ω e' true).2.persist connID (name :: args)) := by
  simp [runCommand, h, touchKeys, hw]

theorem runCommand_of_write
    (h : dispatch rt (ω []) (scripts ω) e connID cmd args = .ok (v, true, e')) (hw : e'.watchedCount = 0)
    (hm : e'.maxMemory = 0) :
    runCommand rt scripts ω e connID name args cmd = .ok (v, e'.persist connID (name :: args)) := by
  simp [runCommand_of_unwatched _ h hw, memoryCheck, hm]

theorem fastWrites_def : fastWrites e p = true ↔ isSimpleSession e p = true ∧ e.aof = none ∧ e.repl = none ∧
    e.maxMemory = 0 ∧ e.watchedCount = 0 := by
  simp [fastWrites, and_assoc]

theorem setString_eq_iff (now : Int) (key val : Bytes) (ks : Keyspace) :
    ks.setString now key val = ((KsProg.set key (.string val) 0).run (ksStep now) ks).2 ↔
      ∀ en, ks.entries.lookup key = some en → en.value.string?.isSome := by
  simp only [run_set]
  have hc : ks.put key (some ⟨.string val, 0, now⟩) 1 ≠ ks.put key (some ⟨.string val, 0, now⟩) 0 :=
    fun h => by simpa using congrArg Store.count h
  rcases hl : ks.entries.lookup key with _ | ⟨v, exp, acc⟩
  · simp [Keyspace.setString, hl]
  · rcases v with s | _ | _ | _ | _ | _ | _ <;> simp [Keyspace.setString, hl, Datum.string?, hc]

theorem fastSet_iff (ω : Env) (connID : Bytes) (hf : fastWrites e p = true) {val : Bytes}
    (hn : toUpperFast rt.unicode name = lit "SET") :
    observed (fastSet ω e key val) = observed (slowPath rt ω e p connID [name, key, val]) ↔
      AclAllows rt e p connID "SET" [key, val] ∧
        ∀ en, e.ks.entries.lookup key = some en → en.value.string?.isSome := by
  obtain ⟨hs, -, -, hm, hw⟩ := fastWrites_def.1 hf
  have hd := dispatch_data rt (ω []) (luaScripts rt ω) e connID
    [key, val] (show Cmd.ofName (lit "SET") = .data .set by decide)
  simp only [DataCmd.action, Action.run, handleSet, setOptions] at hd
  rw [fastSet, shortcut_iff hs hn [key] rfl (by decide), ← setString_eq_iff (ω []).fastNow key val e.ks,
    runCommand_of_write hd hw hm]
  simp [observed, appended, Except.map, Engine.persist, appendValue, ok, Value.simpleString, respOK]

theorem fastIncr_iff (hf : fastWrites e p = true) {c : DataCmd} {delta : Int}
    (hn : toUpperFast rt.unicode name = cmd) (hk : extractCommandKeys cmd [key] = .ok [key])
    (hc : Cmd.ofName cmd = .data c) (ha : c.action rt (ω []) [key] = .prog (handleIncrBy delta [key])) :
    observed (fastIncr rt ω e p connID name key delta) = observed (slowPath rt ω e p connID [name, key]) ↔
      AclAllows rt e p connID cmd [key] ∨
        ∃ d, liveValue (ω []).fastNow e.ks key = some d ∧ d.integer? = none := by
  obtain ⟨hs, -, -, hm, hw⟩ := fastWrites_def.1 hf
  have hd := dispatch_data rt (ω []) (luaScripts rt ω) e connID [key] hc
  simp only [ha, Action.run, handleIncrBy, Prog.run_bind, run_incrBy] at hd
  simp only [fastIncr, run_incrBy, liveValue]
  rcases hx : dropExpired (ω []).fastNow (e.ks.entries.lookup key) with ⟨_ | en, d⟩
  · simp only [hx, Option.map_none] at hd ⊢
    rw [shortcut_iff hs hn _ hk (by simp), runCommand_of_write hd hw hm]
    simp [observed, appended, Except.map, Engine.persist, appendValue_integer]
  · obtain ⟨hc, rfl⟩ := dropExpired_some hx
    simp only [hx, Option.map_some, Option.some.injEq, exists_eq_left'] at hd ⊢
    cases hi : en.value.integer? with
    | none => simp [Store.put_self hc]
    | some n =>
      simp only [hi] at hd ⊢
      rw [shortcut_iff hs hn _ hk (by simp), runCommand_of_write hd hw hm]
      simp [observed, appended, Except.map, Engine.persist, appendValue_integer]

/-! ### `DEL` and the memory check -/

theorem fastDel_iff (hs : isSimpleSession e p = true) (hw : e.watchedCount = 0)
    (hn : toUpperFast rt.unicode name = lit "DEL") :
    observed (fastDel e key) = observed (slowPath rt ω e p connID [name, key]) ↔
      AclAllows rt e p connID "DEL" [key] ∧ ¬ MemoryOver ω e := by
  have hd := dispatch_data rt (ω []) (luaScripts rt ω) e connID [key]
    (show Cmd.ofName (lit "DEL") = .data .del by decide)
  have hr : (if (e.ks.delete [key]).1 > 0 then respOne else respZero) =
      appendValue (.integer (e.ks.delete [key]).1) := by
    simp only [Keyspace.delete]
    split <;> rfl
  rw [fastDel, shortcut_iff hs hn [key] rfl (by split <;> decide), hr]
  refine and_congr_right fun _ => ?_
  obtain ⟨e', he'⟩ : ∃ e', e' = { e with ks := (e.ks.delete [key]).2 } := ⟨_, rfl⟩
  rw [← show MemoryOver ω e' ↔ MemoryOver ω e by rw [he']; exact Iff.rfl, ← memoryCheck_iff,
    runCommand_of_unwatched e' (hd.trans (by rw [he']; rfl)) (by rw [he']; exact hw), ← he']
  have hse := sessions_memoryCheck ω e' true
  generalize memoryCheck ω e' true = m at *
  obtain ⟨_ | _, e''⟩ := m
  · simp only [observed, appended, Except.map, Bool.false_eq_true, if_false, Except.ok.injEq, Prod.mk.injEq,
      true_and, Engine.persist]
    exact ⟨fun h => h.1.symm, fun h => ⟨h.symm, hse.symm⟩⟩
  · simp only [observed, appended, Except.map, if_true, Except.ok.injEq, Prod.mk.injEq, oom, appendValue_error,
      appendValue_integer]
    simp

/-! ### `PING` -/

theorem fastPing_iff (ω : Env) (args : List Bytes) {out : Bytes} (hn : toUpperFast rt.unicode name = lit "PING")
    (ho : out.head? ≠ some 45) (hq : out ≠ lit "+QUEUED" ++ CRLF)
    (hr : dispatch rt (ω []) (luaScripts rt ω) e connID "PING" args = e.replies v) (hv : appendValue v = out) :
    observed (.ok (out, e)) = observed (slowPath rt ω e p connID (name :: args)) ↔
      PingAllowed rt e p connID args := by
  unfold PingAllowed
  have hk : extractCommandKeys (lit "PING") args = .ok [] := by cases args <;> rfl
  rw [slowPath, execute, executeCommandWithSession]
  simp only [hn]
  obtain ⟨_ | msg, hg⟩ := @guards_returns rt e (e.sessions p) connID _ _ _ hk
  · simp only [hg, Option.map_none, true_and]
    cases hm : (e.sessions p).inMulti with
    | false => simp [runCommand_of_read hr, observed, Except.map, hv]
    | true =>
      have hb : bufferCommand rt (luaScripts rt) ω e connID p (lit "PING") (name :: args) =
          .ok (.simpleString "QUEUED", e.setSession p fun s => { s with txQueue := s.txQueue ++ [name :: args] }) :=
        rfl
      simp only [if_true, hb, observed, Except.map, Except.ok.injEq, Prod.mk.injEq]
      exact ⟨fun h => absurd h.1 hq, fun h => by simp at h⟩
  · simp only [hg, Option.map_some]
    simp only [observed, Except.map, appendValue_error, Except.ok.injEq, Prod.mk.injEq]
    exact ⟨fun h => absurd (h.1 ▸ rfl) ho, fun h => by simp at h⟩

end

/-! ### All commands -/

section

variable (rt : Runtime) (ω : Env) (e : Engine) (p : Nat) (connID : Bytes)

/-- The inputs on which the shortcuts do what the executor does: an answered `GET`, `SET`, `DEL`, `INCR`
or `DECR` is one the ACL permits (`GET` of another type and `INCR` of no number go to the executor anyhow),
`SET` does not replace a value of another type, `DEL` does not meet the memory limit, and `PING` comes on
an authenticated session outside a transaction. -/
def ShortcutsAgree : Command → Prop
  | [] => False
  | [name] => asCmd4 name = cmdPingCode → PingAllowed rt e p connID []
  | [name, key] =>
    (asCmd3 name = cmdGetCode ∧ isSimpleSession e p → AclAllows rt e p connID "GET" [key] ∨
      ∃ d, liveValue (ω []).fastNow e.ks key = some d ∧ d.string? = none) ∧
    (asCmd3 name = cmdDelCode ∧ isSimpleSession e p ∧ e.aof = none ∧ e.repl = none ∧ e.watchedCount = 0 →
      AclAllows rt e p connID "DEL" [key] ∧ ¬ MemoryOver ω e) ∧
    (asCmd4 name = cmdPingCode → PingAllowed rt e p connID [key]) ∧
    (asCmd4 name = cmdIncrCode ∧ fastWrites e p → AclAllows rt e p connID "INCR" [key] ∨
      ∃ d, liveValue (ω []).fastNow e.ks key = some d ∧ d.integer? = none) ∧
    (asCmd4 name = cmdDecrCode ∧ fastWrites e p → AclAllows rt e p connID "DECR" [key] ∨
      ∃ d, liveValue (ω []).fastNow e.ks key = some d ∧ d.integer? = none)
  | [name, key, val] =>
    asCmd3 name = cmdSetCode ∧ fastWrites e p → AclAllows rt e p connID "SET" [key, val] ∧
      ∀ en, e.ks.entries.lookup key = some en → en.value.string?.isSome
  | _ => True

theorem asCmd3_eq_zero (h : asCmd4 name ≠ 0) : asCmd3 name = 0 := by
  unfold asCmd4 at h
  unfold asCmd3
  split at h
  · rw [if_neg (by omega)]
  · exact absurd rfl h

theorem fastPath_eq_slowPath_iff (args : Command) (hq : isQuit args = false) :
    observed (fastPath rt ω e p connID args) = observed (slowPath rt ω e p connID args) ↔
      ShortcutsAgree rt ω e p connID args := by
  unfold fastPath
  rw [if_neg (by simp [hq])]
  match args with
  | [] =>
    simp only [ShortcutsAgree, iff_false, slowPath, execute, executeCommandWithSession]
    simp [observed, Except.map, appendValue_error]
  | [name] =>
    simp only [ShortcutsAgree]
    split
    · rename_i hpi
      have hn : toUpperFast rt.unicode name = lit "PING" :=
        toUpperFast_of_code rt.unicode (t := lit "ping") (by decide) hpi (by decide) (by decide)
      simpa only [hpi, true_imp_iff] using
        fastPing_iff ω [] (v := .simpleString "PONG") hn (by decide) (by decide) rfl (by decide)
    · rename_i hpi
      simp [hpi]
  | [name, key] =>
    simp only [ShortcutsAgree]
    by_cases h4 : asCmd4 name = 0
    · -- a name of three letters or none of the names
      have hpi : asCmd4 name ≠ cmdPingCode := by rw [h4]; decide
      have hin : asCmd4 name ≠ cmdIncrCode := by rw [h4]; decide
      have hde : asCmd4 name ≠ cmdDecrCode := by rw [h4]; decide
      simp only [hpi, hin, hde, false_and, if_false, false_imp_iff, and_true]
      split_ifs with hget hdel
      · have hn : toUpperFast rt.unicode name = lit "GET" :=
          toUpperFast_of_code rt.unicode (t := lit "get") (by decide) hget.1 (by decide) (by decide)
        have hdel : asCmd3 name ≠ cmdDelCode := by rw [hget.1]; decide
        rw [fastGet_iff hget.2 hn]
        exact ⟨fun h => ⟨fun _ => h, fun hd => absurd hd.1 hdel⟩, fun h => h.1 hget⟩
      · have hn : toUpperFast rt.unicode name = lit "DEL" :=
          toUpperFast_of_code rt.unicode (t := lit "del") (by decide) hdel.1 (by decide) (by decide)
        rw [fastDel_iff hdel.2.1 hdel.2.2.2.2 hn]
        exact ⟨fun h => ⟨fun hg => absurd hg hget, fun _ => h⟩, fun h => h.2 hdel⟩
      · exact ⟨fun _ => ⟨fun hg => absurd hg hget, fun hd => absurd hd hdel⟩, fun _ => rfl⟩
    · have hget : asCmd3 name ≠ cmdGetCode := by rw [asCmd3_eq_zero h4]; decide
      have hdel : asCmd3 name ≠ cmdDelCode := by rw [asCmd3_eq_zero h4]; decide
      simp only [hget, hdel, false_and, if_false, false_imp_iff, true_and]
      split_ifs with hpi hin hde
      · have hn : toUpperFast rt.unicode name = lit "PING" :=
          toUpperFast_of_code rt.unicode (t := lit "ping") (by decide) hpi (by decide) (by decide)
        have hin : asCmd4 name ≠ cmdIncrCode := by rw [hpi]; decide
        have hde : asCmd4 name ≠ cmdDecrCode := by rw [hpi]; decide
        rw [fastPing_iff ω [key] (v := .bulkString key) hn (by simp [appendBulkString])
          (by simp [appendBulkString, lit]) rfl (appendValue_bulkString key)]
        exact ⟨fun h => ⟨fun _ => h, fun hi => absurd hi.1 hin, fun hd => absurd hd.1 hde⟩,
          fun h => h.1 hpi⟩
      · have hn : toUpperFast rt.unicode name = lit "INCR" :=
          toUpperFast_of_code rt.unicode (t := lit "incr") (by decide) hin.1 (by decide) (by decide)
        have hde : asCmd4 name ≠ cmdDecrCode := by rw [hin.1]; decide
        rw [fastIncr_iff hin.2 hn rfl (c := .incr) (by decide) rfl]
        exact ⟨fun h => ⟨fun hp => absurd hp hpi, fun _ => h, fun hd => absurd hd.1 hde⟩,
          fun h => h.2.1 hin⟩
      · have hn : toUpperFast rt.unicode name = lit "DECR" :=
          toUpperFast_of_code rt.unicode (t := lit "decr") (by decide) hde.1 (by decide) (by decide)
        rw [fastIncr_iff hde.2 hn rfl (c := .decr) (by decide) rfl]
        exact ⟨fun h => ⟨fun hp => absurd hp hpi, fun hi => absurd hi hin, fun _ => h⟩,
          fun h => h.2.2 hde⟩
      · exact ⟨fun _ => ⟨fun hp => absurd hp hpi, fun hi => absurd hi hin, fun hd => absurd hd hde⟩,
          fun _ => rfl⟩
  | [name, key, val] =>
    simp only [ShortcutsAgree]
    split
    · rename_i hset
      have hn : toUpperFast rt.unicode name = lit "SET" :=
        toUpperFast_of_code rt.unicode (t := lit "set") (by decide) hset.1 (by decide) (by decide)
      simpa only [hset, and_self, true_imp_iff] using fastSet_iff ω connID hset.2 hn
    · rename_i hset
      simp [hset]
  | _ :: _ :: _ :: _ :: _ => simp [ShortcutsAgree]

end

/-! ### Concrete inputs -/

def confinedEngine : Engine :=
  { replayEngine (Keyspace.empty.put (lit "secret") (some ⟨.string "xyz", 0, 0⟩) 1) with
    acl := some (ACLManager.setUser (ACLManager.new []) { username := "app", keyPatterns := ["app:*"] })
    sessions := fun _ => { authenticated := true, username := "app" } }

theorem fastPath_eq_slowPath_iff_get :
    isQuit [lit "GET", lit "secret"] = false ∧
      (observed (fastPath .plain (.plain 0) confinedEngine 0 "conn-1" ["GET", "secret"]) =
          observed (slowPath .plain (.plain 0) confinedEngine 0 "conn-1" ["GET", "secret"]) ↔
        ShortcutsAgree .plain (.plain 0) confinedEngine 0 "conn-1" ["GET", "secret"]) :=
  ⟨by decide, fastPath_eq_slowPath_iff _ _ _ _ _ _ (by decide)⟩

theorem fastPath_ignores_acl :
    (fastPath .plain (.plain 0) confinedEngine 0 "conn-1" ["GET", "secret"]).map Prod.fst =
        .ok (appendBulkString "xyz") ∧
      (slowPath .plain (.plain 0) confinedEngine 0 "conn-1" ["GET", "secret"]).map Prod.fst =
        .ok (lit "-NOPERM key 'secret' violates allowed namespace pattern(s) for user 'app'" ++ CRLF) ∧
      observed (fastPath .plain (.plain 0) confinedEngine 0 "conn-1" ["GET", "secret"]) ≠
        observed (slowPath .plain (.plain 0) confinedEngine 0 "conn-1" ["GET", "secret"]) := by
  refine ⟨rfl, rfl, fun h => ?_⟩
  have hb := congrArg (Except.map Prod.fst) h
  exact absurd hb (by decide)

end VortexKV
