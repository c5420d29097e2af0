import VortexKV.Proofs.LoopRule

/-!
# The event loop after `QUIT` and after a flush

`QUIT` closes the connection inside the loops over received commands, and they go on with what follows it. Nothing does
if it is the last of them (`quit_ends`). A flush that the socket does not take in full leaves bytes for which no event is
registered; it takes them unless a write answers `EAGAIN` (`output_flushed`).
-/

namespace VortexKV

open List

variable {σ : Type} {exec : Command → σ → Bytes × σ} {c c' : Conn σ}

/-! ### `QUIT` -/

/-- After `QUIT` come its reply and the close, and nothing else. -/
def Conn.QuitEnds (c : Conn σ) : Prop :=
  ∀ before q after, c.log = before ++ .ran q :: after → isQuit q = true → ∃ bs, after = [.wrote bs, .closed]

def afterCommands : Nat → Bytes → Option Bytes
  | 0, buf => some buf
  | n + 1, buf => match parseCommandInto 16 buf with
    | .ok (.command _ consumed) => afterCommands n (buf.drop consumed)
    | _ => none

/-- No `QUIT` among the commands is followed by another one or by what is no command. -/
def QuitLast (buf : Bytes) : Prop := ∀ n rest q consumed, afterCommands n buf = some rest →
  parseCommandInto 16 rest = .ok (.command q consumed) → isQuit q = true → parseCommandInto 16 (rest.drop consumed) = .ok .incomplete

def Conn.pending (c : Conn σ) : ReadResult → Bytes
  | .data buf => c.inRing.contents ++ buf
  | _ => c.inRing.contents

theorem QuitLast.drop {buf : Bytes} {args : Command} {consumed : Nat} (h : QuitLast buf)
    (hp : parseCommandInto 16 buf = .ok (.command args consumed)) : QuitLast (buf.drop consumed) := by
  intro n rest q k hr
  refine h (n + 1) rest q k ?_
  rw [afterCommands, hp]
  exact hr

/-- Open, with a socket that takes everything and no `QUIT` so far. -/
structure Conn.Running (c : Conn σ) : Prop where
  isOpen : c.closed = false
  accepts : c.writes = []
  noQuit : ∀ q, .ran q ∈ c.log → isQuit q = false

theorem Conn.Running.quitEnds (h : c.Running) : c.QuitEnds := by
  intro before q after hl hq
  have := h.noQuit q (by rw [hl]; simp)
  rw [hq] at this
  cases this

def Conn.Fine (c : Conn σ) : Prop := c.Running ∨ c.closed = true ∧ c.QuitEnds

theorem Conn.Running.flushWrite (h : c.Running) : c.flushWrite.Running := by
  rw [flushWrite_accepting h.accepts]
  refine ⟨h.isOpen, h.accepts, fun q hq => h.noQuit q ?_⟩
  simp only [mem_append] at hq
  rcases hq with hq | hq
  · exact hq
  · split at hq <;> simp at hq

theorem Conn.Running.closeConn (h : c.Running) : c.closeConn.Fine := by
  rw [Conn.closeConn, if_neg (by simp [h.isOpen])]
  refine .inr ⟨rfl, fun before q after hl hq => ?_⟩
  have hm : LoopEvent.ran q ∈ before ++ .ran q :: after := by simp
  rw [← hl] at hm
  have := h.noQuit q (by simpa [Conn.record] using hm)
  rw [hq] at this
  cases this

theorem Conn.Running.protocolError (h : c.Running) : c.protocolError.Fine := by
  have ho : ({ c with outBuf := c.outBuf ++ lit "-ERR protocol error" ++ CRLF } : Conn σ).Running := ⟨h.isOpen, h.accepts, h.noQuit⟩
  exact ho.flushWrite.closeConn

theorem Conn.Running.ring (h : c.Running) (b : RingBuffer) : ({ c with inRing := b } : Conn σ).Running :=
  ⟨h.isOpen, h.accepts, h.noQuit⟩

theorem Conn.Running.executeCommand (h : c.Running) {args : Command} (ha : isQuit args = false) : (c.executeCommand exec args).Running := by
  have hl : ∀ q, .ran q ∈ c.log ++ [.ran args] → isQuit q = false := by
    intro q hq
    rcases mem_append.1 hq with hq | hq
    · exact h.noQuit q hq
    · cases mem_singleton.1 hq
      exact ha
  rw [Conn.executeCommand]
  split
  case isTrue => exact ⟨h.isOpen, h.accepts, hl⟩
  case isFalse =>
    rw [if_neg (by simp [ha])]
    exact ⟨h.isOpen, h.accepts, hl⟩

theorem Conn.Running.quit (exec : Command → σ → Bytes × σ) (h : c.Running) {q : Command} (hq : isQuit q = true) :
    (c.executeCommand exec q).closed = true ∧ (c.executeCommand exec q).outBuf = [] ∧ (c.executeCommand exec q).QuitEnds := by
  have hne : q ≠ [] := fun h => by rw [h] at hq; cases hq
  have ho : c.outBuf ++ respOK ≠ [] := by simp [respOK, lit, CRLF]
  have he : c.executeCommand exec q =
      { c with outBuf := [], closed := true, log := c.log ++ [.ran q, .wrote (c.outBuf ++ respOK), .closed] } := by
    rw [Conn.executeCommand, if_neg hne, if_pos hq, flushWrite_accepting (by exact h.accepts), Conn.closeConn]
    simp [Conn.record, h.isOpen, ho]
  rw [he]
  refine ⟨rfl, rfl, fun before q' after hl hq' => ⟨c.outBuf ++ respOK, ?_⟩⟩
  rcases append_eq_append_iff.1 hl with ⟨as, rfl, has⟩ | ⟨bs, hbs, has⟩
  · cases as with
    | nil => exact (List.cons.inj has).2.symm
    | cons ev as =>
      -- What is logged after this `QUIT` are no commands.
      have ht : [.wrote (c.outBuf ++ respOK), .closed] = as ++ .ran q' :: after := (List.cons.inj has).2
      have hm : LoopEvent.ran q' ∈ as ++ .ran q' :: after := by simp
      rw [← ht] at hm
      simp at hm
  · cases bs with
    | nil => exact (List.cons.inj has).2
    | cons ev bs =>
      have := h.noQuit q' (by rw [hbs, (List.cons.inj has).1]; simp)
      rw [hq'] at this
      cases this

/-- Running with no `QUIT` followed by anything, or after a `QUIT` that nothing follows. -/
def QuitOrder (rest : Bytes) (c : Conn σ) : Prop :=
  c.Running ∧ QuitLast rest ∨ (c.closed = true ∧ c.outBuf = [] ∧ c.QuitEnds) ∧ parseCommandInto 16 rest = .ok .incomplete

theorem QuitOrder.ring {rest : Bytes} (b : RingBuffer) (h : QuitOrder rest c) : QuitOrder rest { c with inRing := b } :=
  h.imp_left fun h => ⟨h.1.ring b, h.2⟩

theorem QuitOrder.step {rest : Bytes} {args : Command} {consumed : Nat} (h : QuitOrder rest c)
    (hp : parseCommandInto 16 rest = .ok (.command args consumed)) : QuitOrder (rest.drop consumed) (c.executeCommand exec args) := by
  rcases h with ⟨h, hl⟩ | ⟨-, hs⟩
  · cases hq : isQuit args with
    | false => exact .inl ⟨h.executeCommand hq, hl.drop hp⟩
    | true => exact .inr ⟨h.quit exec hq, hl 0 rest args consumed rfl hp hq⟩
  · rw [hs] at hp
    cases hp

theorem fine_of_loopEnd (h : LoopEnd QuitOrder (.ok c')) : c'.Fine := by
  generalize hr : Except.ok c' = result at h
  cases h with
  | panicked => cases hr
  | refused h hp =>
    cases hr
    rcases h with ⟨h, -⟩ | ⟨-, hs⟩
    · exact h.protocolError
    · rw [hs] at hp
      cases hp
  | waiting h =>
    cases hr
    rcases h with ⟨h, -⟩ | ⟨⟨hc, ho, he⟩, -⟩
    · exact .inl h.flushWrite
    · rw [Conn.flushWrite, if_pos ho]
      exact .inr ⟨hc, he⟩

theorem onRead_fine {r : ReadResult} (h : c.Fine) (hl : c.closed = false → QuitLast (c.pending r)) (hc' : c.onRead exec r = .ok c') : c'.Fine := by
  rcases h with h | ⟨hc, hen⟩
  swap
  · rw [Conn.onRead.eq_def, if_pos hc] at hc'
    cases hc'
    exact .inr ⟨hc, hen⟩
  have hl := hl h.isOpen
  cases r with
  | eof | failed =>
    rw [Conn.onRead, if_neg (by simp [h.isOpen])] at hc'
    cases hc'
    exact h.closeConn
  | again =>
    rcases onRead_again_rule QuitOrder QuitOrder.ring QuitOrder.step h.isOpen (.inl ⟨h, hl⟩) with he | ⟨-, heq⟩
    · rw [hc'] at he
      exact fine_of_loopEnd he
    · rw [heq] at hc'
      cases hc'
      exact .inl h
  | data buf =>
    by_cases hr : buf.length < readBufLen ∨ c.inRing.isEmpty = true
    · refine fine_of_loopEnd ?_
      rw [← hc']
      exact onRead_rule QuitOrder QuitOrder.ring QuitOrder.step h.isOpen hr (.inl ⟨h, hl⟩)
    · rw [onRead_full exec h.isOpen hr] at hc'
      cases hc'
      exact .inl (h.ring _)

/-- In every run in which each read leaves no `QUIT` with anything after it, nothing is executed or written after
`QUIT` but its reply. -/
theorem quit_ends (ringSize : Int) (e : σ) (reads : List ReadResult)
    (hl : ∀ before r after c, reads = before ++ r :: after → (Conn.accepted ringSize e []).serve exec before = .ok c → c.closed = false →
      QuitLast (c.pending r)) (c : Conn σ) (hc : (Conn.accepted ringSize e []).serve exec reads = .ok c) : c.QuitEnds := by
  have hf : c.Fine := by
    induction reads using List.reverseRecOn generalizing c with
    | nil =>
      cases hc
      exact .inl ⟨rfl, rfl, nofun⟩
    | append_singleton reads r ih =>
      rw [Conn.serve, foldlM_append, ← Conn.serve] at hc
      cases hs : (Conn.accepted ringSize e []).serve exec reads with
      | error stop => rw [hs] at hc; cases hc
      | ok c₁ =>
        rw [hs] at hc
        refine onRead_fine (ih (fun before r' after c hr => hl before r' (after ++ [r]) c (by rw [hr]; simp)) c₁ hs)
          (hl reads r [] c₁ rfl hs) ((bind_pure _).symm.trans hc)
  rcases hf with h | ⟨-, h⟩
  exacts [h.quitEnds, h]

theorem quit_ends_alone : ∃ c, (Conn.accepted 4 () []).serve (fun _ _ => (respPONG, ())) [.data (lit "QUIT\r\n")] = .ok c ∧ c.QuitEnds := by
  refine ⟨_, rfl, quit_ends 4 () [.data (lit "QUIT\r\n")] (fun before r after c hr hc _ => ?_) _ rfl⟩
  have hp : parseCommandInto 16 (lit "QUIT\r\n") = .ok (.command [lit "QUIT"] 6) := by decide +kernel
  rcases before with _ | ⟨r', before⟩
  · cases hc
    obtain rfl := (List.cons.inj hr).1
    rintro (_ | _ | n) rest q consumed hrest hcmd hq
    · cases hrest
      cases hp.symm.trans hcmd
      rfl
    · cases hrest
      cases hcmd
    · cases hrest
  · simp at hr

/-- `PING` after `QUIT` in one read: it is executed, and its reply written to a closed descriptor. -/
theorem ping_after_quit : ∃ c, (Conn.accepted 4 () []).serve (fun _ _ => (respPONG, ())) [.data (lit "QUIT\r\nPING\r\n")] = .ok c ∧
    c.log = [.ran [lit "QUIT"], .wrote respOK, .closed, .ran [lit "PING"], .wrote respPONG] ∧ ¬ c.QuitEnds := by
  refine ⟨_, rfl, by decide +kernel, fun h => ?_⟩
  obtain ⟨bs, hbs⟩ := h [] [lit "QUIT"] [.wrote respOK, .closed, .ran [lit "PING"], .wrote respPONG] (by decide +kernel) (by decide +kernel)
  simp at hbs

/-! ### Output that is left -/

def Conn.WillFlush (c : Conn σ) : Prop := c.closed = true ∨ c.outBuf = [] ∨ .epollout ∈ registered

/-- No write to come answers `EAGAIN`, and nothing is left to write. -/
structure Conn.Flushed (c : Conn σ) : Prop where
  writes : .again ∉ c.writes
  output : c.closed = true ∨ c.outBuf = []

theorem writeAll_left {ws : List WriteResult} (h : .again ∉ ws) (buf : Bytes) :
    ((writeAll ws buf).broken = true ∨ (writeAll ws buf).left = []) ∧ .again ∉ (writeAll ws buf).writes := by
  induction ws, buf using writeAll.induct with
  | case1 ws => simpa [writeAll] using h
  | case2 buf hb => simp [writeAll]
  | case3 n ws buf hb ih =>
    rw [writeAll]
    · exact ih fun hm => h (mem_cons_of_mem _ hm)
    · exact hb
  | case4 ws buf hb => exact absurd mem_cons_self h
  | case5 ws buf hb =>
    rw [writeAll]
    · exact ⟨.inl rfl, fun hm => h (mem_cons_of_mem _ hm)⟩
    · exact hb

theorem flushed_closeConn (h : .again ∉ c.writes) : c.closeConn.Flushed := by
  rw [Conn.closeConn]
  split
  case isTrue hc => exact ⟨h, .inl hc⟩
  case isFalse => exact ⟨h, .inl rfl⟩

theorem flushed_flushWrite (h : .again ∉ c.writes) : c.flushWrite.Flushed := by
  obtain ⟨hl, hws⟩ := writeAll_left h c.outBuf
  rw [Conn.flushWrite]
  split
  case isTrue ho => exact ⟨h, .inr ho⟩
  case isFalse =>
    dsimp only
    split
    case isTrue => exact flushed_closeConn hws
    case isFalse hok => exact ⟨hws, .inr (hl.resolve_left hok)⟩

theorem flushed_protocolError (h : .again ∉ c.writes) : c.protocolError.Flushed :=
  flushed_closeConn (flushed_flushWrite (by exact h)).writes

theorem writes_executeCommand (h : .again ∉ c.writes) (args : Command) : .again ∉ (c.executeCommand exec args).writes := by
  rw [Conn.executeCommand]
  split
  · exact h
  · split
    · exact (flushed_closeConn (flushed_flushWrite (by exact h)).writes).writes
    · exact h

theorem flushed_of_loopEnd (h : LoopEnd (fun _ c => .again ∉ c.writes) (.ok c')) : c'.Flushed := by
  generalize hr : Except.ok c' = result at h
  cases h with
  | panicked => cases hr
  | refused h => cases hr; exact flushed_protocolError h
  | waiting h => cases hr; exact flushed_flushWrite h

theorem flushed_onRead {r : ReadResult} (h : c.Flushed) (hc' : c.onRead exec r = .ok c') : c'.Flushed := by
  cases ho : c.closed with
  | true =>
    rw [Conn.onRead.eq_def, if_pos ho] at hc'
    cases hc'
    exact h
  | false =>
    cases r with
    | eof | failed =>
      rw [Conn.onRead, if_neg (by simp [ho])] at hc'
      cases hc'
      exact flushed_closeConn h.writes
    | again =>
      rcases onRead_again_rule (fun _ c => .again ∉ c.writes) (fun _ h => h) (fun h _ => writes_executeCommand h _) ho h.writes with he | ⟨-, heq⟩
      · rw [hc'] at he
        exact flushed_of_loopEnd he
      · rw [heq] at hc'
        cases hc'
        exact h
    | data buf =>
      by_cases hr : buf.length < readBufLen ∨ c.inRing.isEmpty = true
      · refine flushed_of_loopEnd ?_
        rw [← hc']
        exact onRead_rule (fun _ c => .again ∉ c.writes) (fun _ h => h) (fun h _ => writes_executeCommand h _) ho hr h.writes
      · rw [onRead_full exec ho hr] at hc'
        cases hc'
        exact ⟨h.writes, h.output⟩

/-- If no write answers `EAGAIN`, no bytes are left behind after any event. -/
theorem output_flushed (ringSize : Int) (e : σ) (writes : List WriteResult) (hw : .again ∉ writes) (reads : List ReadResult) (c : Conn σ)
    (hc : (Conn.accepted ringSize e writes).serve exec reads = .ok c) : c.WillFlush := by
  have hru : ∀ c₀ : Conn σ, c₀.Flushed → c₀.serve exec reads = .ok c → c.Flushed := by
    clear hc
    induction reads with
    | nil => intro c₀ h hc; cases hc; exact h
    | cons r reads ih =>
      intro c₀ h hc
      rw [Conn.serve, foldlM_cons] at hc
      cases hr : c₀.onRead exec r with
      | error stop => rw [hr] at hc; cases hc
      | ok c₁ =>
        rw [hr] at hc
        exact ih c₁ (flushed_onRead h hr) hc
  rcases (hru _ ⟨hw, .inr rfl⟩ hc).output with h | h
  exacts [.inl h, .inr (.inl h)]

theorem output_flushed_ping : ∃ c, (Conn.accepted 4 () [.wrote 2]).serve (fun _ _ => (respPONG, ())) [.data (lit "PING\r\n")] = .ok c ∧
    c.WillFlush := by
  refine ⟨_, rfl, ?_⟩
  exact @output_flushed Unit (fun _ _ => (respPONG, ())) 4 () [.wrote 2] (by simp) [.data (lit "PING\r\n")] _ rfl

/-- A socket that takes nothing for one write and its fifty retries: the reply stays in the buffer of an open connection, with
no event for a writable socket. -/
theorem pong_left : ∃ c, (Conn.accepted 4 () (List.replicate 51 .again)).serve (fun _ _ => (respPONG, ())) [.data (lit "PING\r\n")] = .ok c ∧
    c.outBuf = respPONG ∧ c.closed = false ∧ ¬ c.WillFlush := by
  refine ⟨_, rfl, by decide +kernel, by decide +kernel, ?_⟩
  rintro (h | h | h)
  · exact absurd h (by decide +kernel)
  · exact absurd h (by decide +kernel)
  · exact absurd h (by decide)

/-! ### Bytes that are written -/

theorem sent_retryWrite (k : Nat) (ws : List WriteResult) (buf : Bytes) : (retryWrite k ws buf).sent ++ (retryWrite k ws buf).left = buf := by
  fun_induction retryWrite k ws buf with
  | case1 | case5 => rfl
  | case2 => exact append_nil _
  | case3 => exact take_append_drop _ _
  | case4 _ _ _ ih => exact ih

theorem sent_writeAll (ws : List WriteResult) (buf : Bytes) : (writeAll ws buf).sent ++ (writeAll ws buf).left = buf := by
  fun_induction writeAll ws buf with
  | case1 | case5 => rfl
  | case2 => exact append_nil _
  | case3 n ws buf _ f ih =>
    rw [append_assoc, ih, take_append_drop]
  | case4 => exact sent_retryWrite ..

theorem output_flushWrite (h : c.flushWrite.closed = false) : c.closed = false ∧ c.flushWrite.output = c.output := by
  by_cases ho : c.outBuf = []
  · rw [Conn.flushWrite, if_pos ho] at h ⊢
    exact ⟨h, rfl⟩
  rw [Conn.flushWrite, if_neg ho] at h ⊢
  dsimp only at h ⊢
  split at h
  · rw [Conn.closeConn] at h
    split at h
    case isTrue hc => exact absurd h (by simp [hc])
    case isFalse => cases h
  · rename_i hb
    rw [if_neg hb]
    refine ⟨h, ?_⟩
    simp only [Conn.output, Conn.record, flatMap_append, append_assoc, flatMap_singleton, sent_writeAll]

/-- A reply is appended to the output, or the output is flushed. -/
inductive OutputCall
  | reply (bs : Bytes)
  | flush

def Conn.outputCall (c : Conn σ) : OutputCall → Conn σ
  | .reply bs => { c with outBuf := c.outBuf ++ bs }
  | .flush => c.flushWrite

def allReplies (calls : List OutputCall) : Bytes := calls.flatMap fun
  | .reply bs => bs
  | .flush => []

/-- As long as the connection is open, what the socket has taken and the output buffer are all that was appended, in order. -/
theorem bytes_conserved (calls : List OutputCall) (c : Conn σ) (h : (calls.foldl Conn.outputCall c).closed = false) :
    (calls.foldl Conn.outputCall c).output = c.output ++ allReplies calls ∧ c.closed = false := by
  induction calls generalizing c with
  | nil => exact ⟨(append_nil _).symm, h⟩
  | cons call calls ih =>
    obtain ⟨hr, ho⟩ := ih _ h
    cases call with
    | reply bs =>
      refine ⟨hr.trans ?_, ho⟩
      simp only [Conn.output, Conn.outputCall, allReplies, flatMap_cons, append_assoc]
    | flush =>
      obtain ⟨hc, hou⟩ := output_flushWrite ho
      exact ⟨hr.trans (congrArg (· ++ allReplies calls) hou), hc⟩

theorem bytes_conserved_partial :
    ([.reply respPONG, .flush, .reply respOK, .flush].foldl Conn.outputCall (Conn.accepted 4 () [.wrote 2, .again, .wrote 1, .wrote 0])).output =
      respPONG ++ respOK :=
  (bytes_conserved _ _ (by decide +kernel)).1

end VortexKV
