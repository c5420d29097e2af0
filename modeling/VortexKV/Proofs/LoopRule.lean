import VortexKV.EventLoop
import VortexKV.Proofs.ParserSafety

/-!
# A rule for the loops over received commands

The loops over `readBuf` and over the ring buffer take one command after the other and stop where the parser does. What
every command keeps, as a relation between the bytes left and the connection, holds where they stop (`LoopEnd`,
`onRead_rule`).
-/

namespace VortexKV

open List

variable {σ : Type} {exec : Command → σ → Bytes × σ}

/-- How a loop stops: `I` holds of the bytes left and the connection there. -/
inductive LoopEnd (I : Bytes → Conn σ → Prop) : Except Stop (Conn σ) → Prop
  | panicked {rest c stop} (h : I rest c) (hparse : parseCommandInto 16 rest = .error stop) : LoopEnd I (.error stop)
  | refused {rest c} (h : I rest c) (hparse : parseCommandInto 16 rest = .ok .protocolError) : LoopEnd I (.ok c.protocolError)
  | waiting {rest c} (h : I rest c) (hparse : parseCommandInto 16 rest = .ok .incomplete) (hrest : c.inRing.contents = rest) :
      LoopEnd I (.ok c.flushWrite)

theorem inRing_flushWrite {c : Conn σ} : c.flushWrite.inRing = c.inRing := by
  rw [Conn.flushWrite]
  split
  case isTrue => rfl
  case isFalse =>
    dsimp only
    split
    · rw [Conn.closeConn]
      split <;> rfl
    · rfl

theorem inRing_executeCommand {c : Conn σ} {args : Command} : (c.executeCommand exec args).inRing = c.inRing := by
  rw [Conn.executeCommand]
  split
  · rfl
  · split
    · rw [Conn.closeConn]
      split <;> exact inRing_flushWrite
    · rfl

theorem onRead_full (exec : Command → σ → Bytes × σ) {c : Conn σ} {buf : Bytes} (ho : c.closed = false)
    (hf : ¬ (buf.length < readBufLen ∨ c.inRing.isEmpty = true)) :
    c.onRead exec (.data buf) = .ok { c with inRing := c.inRing.write buf } := by
  obtain ⟨hlen, hring⟩ := not_or.1 hf
  simp only [Conn.onRead, ho, hring, Bool.false_eq_true, if_false, if_neg hlen]

theorem flushWrite_accepting {c : Conn σ} (hw : c.writes = []) : c.flushWrite =
    { c with outBuf := [], log := c.log ++ if c.outBuf = [] then [] else [.wrote c.outBuf] } := by
  obtain ⟨ring, engine, outBuf, closed, writes, log⟩ := c
  obtain rfl : writes = [] := hw
  cases outBuf with
  | nil => simp [Conn.flushWrite]
  | cons b bs => simp [Conn.flushWrite, writeAll, Conn.record]

section Rule

/- A property of the bytes left and the connection, whatever its ring buffer, that each command keeps. -/
variable (I : Bytes → Conn σ → Prop) (hring : ∀ {buf c} b, I buf c → I buf { c with inRing := b })
  (hstep : ∀ {buf c args consumed}, I buf c → parseCommandInto 16 buf = .ok (.command args consumed) →
    I (buf.drop consumed) (c.executeCommand exec args)) {c : Conn σ}

include hring hstep

theorem drain_rule {n : Nat} (h : I c.inRing.contents c) (hn : c.inRing.contents.length < n) : LoopEnd I (c.drain exec n) := by
  induction n generalizing c with
  | zero => exact absurd hn (Nat.not_lt_zero _)
  | succ n ih =>
    have hs (hp : parseCommandInto 16 c.inRing.contents = .ok .incomplete) : LoopEnd I (.ok c.drained) := by
      rw [Conn.drained]
      split
      case isTrue he => exact .waiting (hring _ h) hp (c.inRing.isEmpty_iff.1 he).symm
      case isFalse => exact .waiting h hp rfl
    rw [Conn.drain, RingBuffer.data_eq]
    split
    case isTrue hni => exact hs (by rw [hni]; rfl)
    case isFalse =>
      cases hp : parseCommandInto 16 c.inRing.contents with
      | error stop => exact .panicked h hp
      | ok res =>
        cases res with
        | protocolError => exact .refused h hp
        | incomplete => exact hs hp
        | command args consumed =>
          obtain ⟨hpo, hle⟩ := consumed_bounds hp
          have hc := c.inRing.contents_advanceRead consumed
          refine ih ?_ ?_
          · rw [inRing_executeCommand, hc]
            exact hstep (hring _ h) hp
          · rw [inRing_executeCommand, hc, length_drop]
            omega

theorem pipeline_rule {n : Nat} {buf : Bytes} (h : I buf c) (he : c.inRing.contents = []) (hn : buf.length ≤ n) :
    LoopEnd I (c.pipeline exec n buf) := by
  have hni (h : I [] c) : LoopEnd I (.ok c.flushWrite) := .waiting h rfl he
  induction n generalizing c buf with
  | zero =>
    rw [eq_nil_of_length_eq_zero (Nat.le_zero.1 hn)] at h
    exact hni h
  | succ n ih =>
    rw [Conn.pipeline]
    split
    case isTrue hb => exact hni (hb ▸ h)
    case isFalse =>
      cases hp : parseCommandInto 16 buf with
      | error stop => exact .panicked h hp
      | ok res =>
        cases res with
        | protocolError => exact .refused h hp
        | incomplete => exact .waiting (hring _ h) hp (by rw [RingBuffer.contents_write, he]; rfl)
        | command args consumed =>
          obtain ⟨hpo, hle⟩ := consumed_bounds hp
          have hem : (c.executeCommand exec args).inRing.contents = [] := by rw [inRing_executeCommand, he]
          refine ih (hstep h hp) hem ?_ fun h => .waiting h rfl hem
          rw [length_drop]
          omega

theorem drainRing_rule (h : I c.inRing.contents c) : LoopEnd I (c.drainRing exec) :=
  drain_rule I hring hstep h (by rw [RingBuffer.length_contents]; exact Nat.lt_succ_self _)

theorem direct_rule {buf : Bytes} (h : I buf c) (he : c.inRing.contents = []) : LoopEnd I (c.direct exec buf) := by
  rw [Conn.direct]
  cases hp : parseCommandInto 16 buf with
  | error stop => exact .panicked h hp
  | ok res =>
    cases res with
    | protocolError => exact .refused h hp
    | incomplete =>
      refine drainRing_rule I hring hstep ?_
      rw [RingBuffer.contents_write, he]
      exact hring _ h
    | command args consumed =>
      refine pipeline_rule I hring hstep (hstep h hp) (by rw [inRing_executeCommand, he]) ?_
      rw [length_drop]
      exact Nat.sub_le ..

theorem onRead_rule {buf : Bytes} (ho : c.closed = false) (hr : buf.length < readBufLen ∨ c.inRing.isEmpty = true)
    (h : I (c.inRing.contents ++ buf) c) : LoopEnd I (c.onRead exec (.data buf)) := by
  rw [Conn.onRead, if_neg (by simp [ho])]
  split
  case isTrue he =>
    rw [c.inRing.isEmpty_iff.1 he] at h
    exact direct_rule I hring hstep h (c.inRing.isEmpty_iff.1 he)
  case isFalse he =>
    rw [if_pos (hr.resolve_right he)]
    exact drainRing_rule I hring hstep (by rw [RingBuffer.contents_write]; exact hring _ h)

theorem onRead_again_rule (ho : c.closed = false) (h : I c.inRing.contents c) :
    LoopEnd I (c.onRead exec .again) ∨ c.inRing.isEmpty = true ∧ c.onRead exec .again = .ok c := by
  rw [Conn.onRead, if_neg (by simp [ho])]
  split
  case isTrue he => exact .inr ⟨he, rfl⟩
  case isFalse => exact .inl (drainRing_rule I hring hstep h)

end Rule

end VortexKV
