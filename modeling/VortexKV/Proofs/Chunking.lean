import VortexKV.Proofs.LoopRule

/-!
# Commands cut into reads

The parser waits at a part of a command (`Wire.complete`), so each round of the loops takes exactly the next one
(`parse_received`), however the bytes are cut into reads (`chunking`), but for an end of input right after a read that fills
`readBuf` (`executed_before_eof_iff`).
-/

namespace VortexKV

open List

variable {p t rest : Bytes} {args : Command}

/-! ### Whole commands and parts of them -/

/-- The bytes of a command: an array of bulk strings, or a line with something on it. -/
inductive Wire : Command → Bytes → Prop
  | array {args : Command} (hlen : args.length ≤ maxStrings) (h : ∀ a ∈ args, a.length < 2 ^ 62) : Wire args (serializeCommand args)
  | inline {line : Bytes} (hline : 10 ∉ line) (harray : line.head? ≠ some 42) (hblank : splitFields (inlineLine line) ≠ []) :
      Wire (splitFields (inlineLine line)) (line ++ [10])

/-- The parser takes the command whatever follows, and waits for the rest of a part. -/
structure Complete (args : Command) (bs : Bytes) : Prop where
  whole : ∀ s, parseCommandInto 16 (bs ++ s) = .ok (.command args bs.length)
  part : ∀ p t, t ≠ [] → p ++ t = bs → parseCommandInto 16 p = .ok .incomplete
  nonempty : bs ≠ []

theorem cut_append {x y : Bytes} (ht : t ≠ []) (h : p ++ t = x ++ y) :
    (∃ u, u ≠ [] ∧ p ++ u = x) ∨ ∃ q, p = x ++ q ∧ q ++ t = y := by
  rcases append_eq_append_iff.1 h with ⟨u, rfl, rfl⟩ | ⟨q, rfl, rfl⟩
  · by_cases hu : u = []
    · exact .inr ⟨[], by simp [hu], by simp [hu]⟩
    · exact .inl ⟨u, hu, rfl⟩
  · exact .inr ⟨q, rfl, rfl⟩

theorem notMem_of_part {line : Bytes} (hl : 10 ∉ line) (ht : t ≠ []) (h : p ++ t = line ++ [10]) : 10 ∉ p := by
  rcases cut_append ht h with ⟨u, -, rfl⟩ | ⟨q, rfl, hq⟩
  · exact fun hp => hl (mem_append_left _ hp)
  · rw [((append_eq_singleton_iff.1 hq).resolve_right fun h => ht h.2).1, append_nil]
    exact hl

theorem ten_notMem_header {t : UInt8} (ht : t ≠ 10) (n : Nat) : 10 ∉ t :: formatUint n ++ [13] := by
  have := ten_notMem_formatUint n
  simp [ht.symm, this]

theorem parseBulk_part {a : Bytes} (ha : a.length < 2 ^ 62) (ht : t ≠ []) (h : p ++ t = serializeArg a) :
    parseBulk p = .ok .incomplete := by
  rcases cut_append ht h with ⟨u, hu, hp⟩ | ⟨q, rfl, hq⟩
  · have hte := notMem_of_part (ten_notMem_header (show (36 : UInt8) ≠ 10 by decide) a.length) hu (hp.trans (by simp [CRLF]))
    cases p with
    | nil => rfl
    | cons c p =>
      obtain rfl : c = 36 := (List.cons.inj hp).1
      rw [parseBulk, if_neg (by simp), if_neg (by simp), splitLine_eq_none hte]
  · have hlen := congrArg List.length hq
    rw [length_append, length_append, show CRLF.length = 2 from rfl] at hlen
    have := length_pos_of_ne_nil ht
    rw [parseBulk_header ha, if_pos (by omega)]

theorem parseBulks_part (h : ∀ a ∈ args, a.length < 2 ^ 62) (size : Nat) (acc : Command) (ht : t ≠ [])
    (hp : p ++ t = args.flatMap serializeArg) : parseBulks size args.length acc p = .ok .incomplete := by
  induction args generalizing acc p with
  | nil => exact absurd (append_eq_nil_iff.1 hp).2 ht
  | cons a args ih =>
    have ha := h a mem_cons_self
    rw [length_cons, parseBulks]
    rcases cut_append ht hp with ⟨u, hu, hp⟩ | ⟨q, rfl, hq⟩
    · rw [parseBulk_part ha hu hp]
      rfl
    · rw [parseBulk_serialize ha]
      exact ih (fun a ha => h a (mem_cons_of_mem _ ha)) _ hq

theorem Wire.complete {bs : Bytes} (h : Wire args bs) : Complete args bs := by
  cases h with
  | array hlen h =>
    refine ⟨parse_serialize hlen h 16, fun p t ht hp => ?_, by simp [serializeCommand]⟩
    rcases cut_append ht hp with ⟨u, hu, hp⟩ | ⟨q, rfl, hq⟩
    · have hte := notMem_of_part (ten_notMem_header (show (42 : UInt8) ≠ 10 by decide) args.length) hu (hp.trans (by simp [CRLF]))
      cases p with
      | nil => rfl
      | cons c p =>
        obtain rfl : c = 42 := (List.cons.inj hp).1
        rw [parseCommandInto, if_pos rfl, parseRESPArrayInto, splitLine_eq_none hte]
    · rw [parse_array hlen, parseBulks_part h _ _ ht hq]
  | @inline line hl ha hb =>
    have hi (s : Bytes) (hs : s ≠ []) (hh : s.head? ≠ some 42) : parseCommandInto 16 s = .ok (parseInlineCommandInto s) := by
      cases s with
      | nil => exact absurd rfl hs
      | cons c s => exact if_neg fun hc => hh (congrArg some hc)
    have hne : line ≠ [] := fun h => hb (by rw [h]; rfl)
    refine ⟨fun s => ?_, fun p t ht hp => ?_, by simp⟩
    · have hh : (line ++ [10] ++ s).head? ≠ some 42 := by
        cases line with
        | nil => exact absurd rfl hne
        | cons c line => exact ha
      rw [hi _ (by simp) hh, parseInlineCommandInto, append_assoc, singleton_append, splitLine_append hl,
        length_append]
      rfl
    · by_cases hn : p = []
      · rw [hn]
        rfl
      have hh : p.head? ≠ some 42 := by
        cases p with
        | nil => exact absurd rfl hn
        | cons c p =>
          cases line with
          | nil => exact absurd rfl hne
          | cons d line => rw [List.head?_cons, (List.cons.inj hp).1]; exact ha
      rw [hi p hn hh, parseInlineCommandInto, splitLine_eq_none (notMem_of_part hl ht hp)]

/-! ### Serving a row of commands -/

abbrev Sent := Command × Bytes

abbrev wire (todo : List Sent) : Bytes := todo.flatMap Prod.snd

def Underway (p : Bytes) (todo : List Sent) : Prop := ∀ x rest, todo = x :: rest → p.length < x.2.length

variable {σ : Type} (exec : Command → σ → Bytes × σ)

def answers (cs : List Command) (e : σ) : Bytes × σ :=
  cs.foldl (fun x c => if c = [] then x else (x.1 ++ (exec c x.2).1, (exec c x.2).2)) ([], e)

/-- The connection has executed these commands and has their replies; it is open and takes every write. -/
structure Served (e₀ : σ) (done : List Command) (c : Conn σ) : Prop where
  commands : c.commands = done
  replies : (c.output, c.engine) = answers exec done e₀
  isOpen : c.closed = false
  accepts : c.writes = []

variable {exec} {e₀ : σ} {done : List Command} {c : Conn σ} {todo : List Sent} {future : Bytes}

theorem served_accepted (ringSize : Int) : Served exec e₀ [] (.accepted ringSize e₀ []) := ⟨rfl, rfl, rfl, rfl⟩

theorem Served.ring (h : Served exec e₀ done c) (b : RingBuffer) : Served exec e₀ done { c with inRing := b } :=
  ⟨h.commands, h.replies, h.isOpen, h.accepts⟩

theorem Served.flushWrite (h : Served exec e₀ done c) : Served exec e₀ done c.flushWrite := by
  rw [flushWrite_accepting h.accepts]
  refine ⟨?_, ?_, h.isOpen, h.accepts⟩
  · rw [← h.commands]
    split <;> simp [Conn.commands]
  · rw [← h.replies]
    split <;> simp_all [Conn.output]

theorem Served.executeCommand (h : Served exec e₀ done c) (hq : isQuit args = false) :
    Served exec e₀ (done ++ [args]) (c.executeCommand exec args) := by
  have hr := h.replies
  have ha : answers exec (done ++ [args]) e₀ =
      if args = [] then (c.output, c.engine) else (c.output ++ (exec args c.engine).1, (exec args c.engine).2) := by
    rw [answers, foldl_concat, ← answers, ← hr]
  unfold Conn.executeCommand
  by_cases hn : args = []
  · rw [if_pos hn] at ha ⊢
    refine ⟨?_, ?_, h.isOpen, h.accepts⟩
    · simp [Conn.commands, Conn.record, ← h.commands]
    · rw [ha]
      simp [Conn.output, Conn.record]
  · rw [if_neg hn] at ha ⊢
    rw [if_neg (by simp [hq])]
    refine ⟨?_, ?_, h.isOpen, h.accepts⟩
    · simp [Conn.commands, Conn.record, ← h.commands]
    · rw [ha]
      simp [Conn.output, Conn.record]

/-- Some of the commands are executed, and these bytes of the others have been received. -/
def Partway (exec : Command → σ → Bytes × σ) (e₀ : σ) (done : List Command) (todo : List Sent) (future rest : Bytes) (c : Conn σ) : Prop :=
  ∃ ran next, todo = ran ++ next ∧ Served exec e₀ (done ++ ran.map Prod.fst) c ∧ rest ++ future = wire next

/-- The bytes received of the others are in the ring buffer, and less than a command. -/
def Advanced (exec : Command → σ → Bytes × σ) (e₀ : σ) (done : List Command) (todo : List Sent) (future : Bytes)
    (result : Except Stop (Conn σ)) : Prop :=
  ∃ c ran next, result = .ok c ∧ todo = ran ++ next ∧ Served exec e₀ (done ++ ran.map Prod.fst) c ∧
    c.inRing.contents ++ future = wire next ∧ Underway c.inRing.contents next

section Loops

variable (htodo : ∀ x ∈ todo, Complete x.1 x.2 ∧ isQuit x.1 = false)

include htodo

theorem underway_nil : Underway [] todo := by
  rintro x rest rfl
  exact length_pos_of_ne_nil (htodo x mem_cons_self).1.nonempty

theorem parse_received (h : rest ++ future = wire todo) :
    parseCommandInto 16 rest = .ok .incomplete ∧ Underway rest todo ∨ ∃ x next, todo = x :: next ∧
      parseCommandInto 16 rest = .ok (.command x.1 x.2.length) ∧ rest.drop x.2.length ++ future = wire next := by
  cases todo with
  | nil =>
    obtain rfl := (append_eq_nil_iff.1 h).1
    exact .inl ⟨rfl, nofun⟩
  | cons x next =>
    have hx := (htodo x mem_cons_self).1
    have hw (q : Bytes) (hr : rest = x.2 ++ q) (hq : q ++ future = wire next) : ∃ y next', x :: next = y :: next' ∧
        parseCommandInto 16 rest = .ok (.command y.1 y.2.length) ∧ rest.drop y.2.length ++ future = wire next' := by
      rw [hr]
      exact ⟨x, next, rfl, hx.whole q, by rw [drop_left]; exact hq⟩
    rcases append_eq_append_iff.1 h with ⟨t, ht, hf⟩ | ⟨q, hr, hq⟩
    · by_cases hn : t = []
      · rw [hn] at ht hf
        exact .inr (hw [] (by simpa using ht.symm) hf)
      · refine .inl ⟨hx.part rest t hn ht.symm, ?_⟩
        rintro y next' hy
        cases hy
        rw [ht, length_append]
        exact Nat.lt_add_of_pos_right (length_pos_of_ne_nil hn)
    · exact .inr (hw q hr hq.symm)

theorem partway_step {consumed : Nat} (h : Partway exec e₀ done todo future rest c)
    (hp : parseCommandInto 16 rest = .ok (.command args consumed)) :
    Partway exec e₀ done todo future (rest.drop consumed) (c.executeCommand exec args) := by
  obtain ⟨ran, next, rfl, hs, hr⟩ := h
  rcases parse_received (fun x hx => htodo x (mem_append_right _ hx)) hr with ⟨hw, -⟩ | ⟨x, next, rfl, hc, hd⟩
  · rw [hw] at hp
    cases hp
  · rw [hc] at hp
    cases hp
    refine ⟨ran ++ [x], next, by simp, ?_, hd⟩
    have := hs.executeCommand (htodo x (by simp)).2
    simpa using this

theorem advanced_of_loopEnd {result : Except Stop (Conn σ)} (h : LoopEnd (Partway exec e₀ done todo future) result) :
    Advanced exec e₀ done todo future result := by
  cases h with
  | panicked h hp | refused h hp =>
    obtain ⟨ran, next, rfl, -, hr⟩ := h
    rcases parse_received (fun x hx => htodo x (mem_append_right _ hx)) hr with ⟨hw, -⟩ | ⟨x, next, rfl, hcm, -⟩
    · rw [hw] at hp
      cases hp
    · rw [hcm] at hp
      cases hp
  | waiting h hp hc =>
    obtain ⟨ran, next, rfl, hs, hr⟩ := h
    rcases parse_received (fun x hx => htodo x (mem_append_right _ hx)) hr with ⟨-, hu⟩ | ⟨x, next, rfl, hcm, -⟩
    · refine ⟨_, ran, next, rfl, rfl, hs.flushWrite, ?_, ?_⟩ <;> rw [inRing_flushWrite, hc]
      exacts [hr, hu]
    · rw [hcm] at hp
      cases hp

end Loops

theorem Partway.ring (b : RingBuffer) (h : Partway exec e₀ done todo future rest c) :
    Partway exec e₀ done todo future rest { c with inRing := b } := by
  obtain ⟨ran, next, htodo, hs, hr⟩ := h
  exact ⟨ran, next, htodo, hs.ring b, hr⟩

/-! ### Reads -/

def incoming (reads : List ReadResult) : Bytes := reads.flatMap fun
  | .data bs => bs
  | _ => []

def ReadResult.Alive (r : ReadResult) : Prop := r = .again ∨ ∃ bs, r = .data bs

theorem onRead_advanced (htodo : ∀ x ∈ todo, Complete x.1 x.2 ∧ isQuit x.1 = false) (h : Served exec e₀ done c) {buf : Bytes}
    (hw : c.inRing.contents ++ (buf ++ future) = wire todo) (hr : buf.length < readBufLen ∨ c.inRing.isEmpty = true) :
    Advanced exec e₀ done todo future (c.onRead exec (.data buf)) := by
  have hp : Partway exec e₀ done todo future (c.inRing.contents ++ buf) c :=
    ⟨[], todo, rfl, by simpa using h, by rw [append_assoc, hw]⟩
  exact advanced_of_loopEnd htodo (onRead_rule _ Partway.ring (partway_step htodo) h.isOpen hr hp)

theorem onRead_again (htodo : ∀ x ∈ todo, Complete x.1 x.2 ∧ isQuit x.1 = false) (h : Served exec e₀ done c)
    (hw : c.inRing.contents ++ future = wire todo) : Advanced exec e₀ done todo future (c.onRead exec .again) := by
  have hp : Partway exec e₀ done todo future c.inRing.contents c := ⟨[], todo, rfl, by simpa using h, hw⟩
  rcases onRead_again_rule _ Partway.ring (partway_step htodo) h.isOpen hp with hen | ⟨he, heq⟩
  · exact advanced_of_loopEnd htodo hen
  · refine ⟨c, [], todo, heq, rfl, by simpa using h, hw, ?_⟩
    rw [c.inRing.isEmpty_iff.1 he]
    exact underway_nil htodo

theorem serve_served (htodo : ∀ x ∈ todo, Complete x.1 x.2 ∧ isQuit x.1 = false) (h : Served exec e₀ done c) {reads : List ReadResult}
    (hre : ∀ r ∈ reads, r.Alive) (hw : c.inRing.contents ++ (incoming reads ++ future) = wire todo) :
    ∃ c' ran rest, c.serve exec reads = .ok c' ∧ todo = ran ++ rest ∧ Served exec e₀ (done ++ ran.map Prod.fst) c' ∧
      c'.inRing.contents ++ future = wire rest := by
  induction reads generalizing c done todo with
  | nil => exact ⟨c, [], todo, rfl, rfl, by simpa using h, hw⟩
  | cons r reads ih =>
    have hn (hr : Advanced exec e₀ done todo (incoming reads ++ future) (c.onRead exec r)) :
        ∃ c' ran rest, c.serve exec (r :: reads) = .ok c' ∧ todo = ran ++ rest ∧ Served exec e₀ (done ++ ran.map Prod.fst) c' ∧
          c'.inRing.contents ++ future = wire rest := by
      obtain ⟨c₁, ran, rest, hc, rfl, hse, hwr, -⟩ := hr
      obtain ⟨c', ran', rest', hc', rfl, hs, hwi⟩ := ih (fun x hx => htodo x (mem_append_right _ hx)) hse
        (fun r hr => hre r (mem_cons_of_mem _ hr)) hwr
      refine ⟨c', ran ++ ran', rest', ?_, (append_assoc ..).symm, by simpa using hs, hwi⟩
      rw [Conn.serve, foldlM_cons, hc]
      exact hc'
    rcases hre r mem_cons_self with rfl | ⟨buf, rfl⟩
    · exact hn (onRead_again htodo h hw)
    · rw [incoming, flatMap_cons, append_assoc] at hw
      by_cases hra : buf.length < readBufLen ∨ c.inRing.isEmpty = true
      · exact hn (onRead_advanced htodo h hw hra)
      · rw [← append_assoc, ← RingBuffer.contents_write] at hw
        obtain ⟨c', ran, rest, hc', hrs⟩ := ih htodo (h.ring _) (fun r hr => hre r (mem_cons_of_mem _ hr)) hw
        refine ⟨c', ran, rest, ?_, hrs⟩
        rw [Conn.serve, foldlM_cons, onRead_full exec h.isOpen hra]
        exact hc'

theorem serve_append (exec : Command → σ → Bytes × σ) (c : Conn σ) (reads reads' : List ReadResult) :
    c.serve exec (reads ++ reads') = (c.serve exec reads).bind (Conn.serve exec reads') := foldlM_append

theorem Advanced.all {result : Except Stop (Conn σ)} (h : Advanced exec e₀ done todo [] result) :
    ∃ c, result = .ok c ∧ Served exec e₀ (done ++ todo.map Prod.fst) c ∧ c.inRing.contents = [] := by
  obtain ⟨c, ran, rest, hc, rfl, hs, hw, hu⟩ := h
  rw [append_nil] at hw
  cases rest with
  | nil => exact ⟨c, hc, by simpa using hs, hw⟩
  | cons x rest =>
    have hlt := hu x rest rfl
    rw [hw, wire, flatMap_cons, length_append] at hlt
    omega

theorem complete_of_wire {cmds : List Sent} (h : ∀ x ∈ cmds, Wire x.1 x.2 ∧ isQuit x.1 = false) :
    ∀ x ∈ cmds, Complete x.1 x.2 ∧ isQuit x.1 = false := fun x hx => ⟨(h x hx).1.complete, (h x hx).2⟩

/-- However the bytes of the commands are cut into reads, each command is executed once, in order, and the replies are
those of the commands in a row. -/
theorem chunking (cmds : List Sent) (hcm : ∀ x ∈ cmds, Wire x.1 x.2 ∧ isQuit x.1 = false) (reads : List ReadResult)
    (hr : ∀ r ∈ reads, r.Alive) (hsp : incoming reads = wire cmds) (ringSize : Int) (e : σ) :
    ∃ c, (Conn.accepted ringSize e []).serve exec (reads ++ [.again]) = .ok c ∧ c.commands = cmds.map Prod.fst ∧
      (c.output, c.engine) = answers exec (cmds.map Prod.fst) e ∧ c.inRing.contents = [] ∧ c.closed = false := by
  have htodo := complete_of_wire hcm
  obtain ⟨c₁, ran, rest, hc', rfl, hs, hw⟩ := serve_served htodo (served_accepted ringSize) hr
    (by rw [append_nil, hsp]; rfl)
  obtain ⟨c, hc, hs, he⟩ := (onRead_again (fun x hx => htodo x (mem_append_right _ hx)) hs hw).all
  refine ⟨c, ?_, by simpa using hs.commands, by simpa using hs.replies, he, hs.isOpen⟩
  rw [serve_append, hc']
  exact (bind_pure _).trans hc

theorem chunking_ping : ∃ c, (Conn.accepted 4 () []).serve (fun _ _ => (respPONG, ()))
      ([.data (lit "*1\r\n$4"), .again, .data (lit "\r\nPING\r\n")] ++ [.again]) = .ok c ∧ c.commands = [[lit "PING"]] ∧
    (c.output, c.engine) = answers (fun _ _ => (respPONG, ())) [[lit "PING"]] () ∧ c.inRing.contents = [] ∧ c.closed = false :=
  chunking [([lit "PING"], serializeCommand [lit "PING"])] (by
    intro x hx
    obtain rfl := mem_singleton.1 hx
    exact ⟨.array (by decide) (by decide), by decide +kernel⟩) _ (by
    intro r hr
    simp only [mem_cons, not_mem_nil, or_false] at hr
    rcases hr with rfl | rfl | rfl
    exacts [.inr ⟨_, rfl⟩, .inl rfl, .inr ⟨_, rfl⟩]) (by decide +kernel) 4 ()

/-! ### The end of input -/

/-- The commands are executed before the connection is closed, exactly if the last read does not fill `readBuf` or finds
nothing in the ring buffer. -/
theorem executed_before_eof_iff (cmds : List Sent) (hcd : ∀ x ∈ cmds, Wire x.1 x.2 ∧ isQuit x.1 = false) (reads : List ReadResult)
    (hre : ∀ r ∈ reads, r.Alive) {last : Bytes} (hl : last ≠ []) (hsp : incoming reads ++ last = wire cmds) (ringSize : Int) (e : σ) :
    ∃ before c, (Conn.accepted ringSize e []).serve exec reads = .ok before ∧
      (Conn.accepted ringSize e []).serve exec (reads ++ [.data last, .eof]) = .ok c ∧ c.closed = true ∧
      (c.commands = cmds.map Prod.fst ↔ last.length < readBufLen ∨ before.inRing.isEmpty = true) := by
  have htodo := complete_of_wire hcd
  obtain ⟨before, ran, rest, hb, rfl, hs, hw⟩ := serve_served htodo (served_accepted ringSize) hre hsp
  have he (c : Conn σ) (hc : before.onRead exec (.data last) = .ok c) (ho : c.closed = false) :
      (Conn.accepted ringSize e []).serve exec (reads ++ [.data last, .eof]) = .ok c.closeConn := by
    rw [serve_append, hb]
    change (before.onRead exec (.data last)).bind (Conn.serve exec [.eof]) = _
    rw [hc]
    simp [Except.bind, Conn.serve, Conn.onRead, ho]
  have hco (c : Conn σ) (ho : c.closed = false) : c.closeConn.closed = true ∧ c.closeConn.commands = c.commands := by
    simp [Conn.closeConn, ho, Conn.record, Conn.commands]
  refine ⟨before, ?_⟩
  by_cases hr : last.length < readBufLen ∨ before.inRing.isEmpty = true
  · obtain ⟨c, hc, hse, -⟩ := (onRead_advanced (fun x hx => htodo x (mem_append_right _ hx)) hs
      (by rw [append_nil, hw]) hr).all
    obtain ⟨hcl, hcm⟩ := hco c hse.isOpen
    refine ⟨c.closeConn, hb, he c hc hse.isOpen, hcl, iff_of_true ?_ hr⟩
    rw [hcm, hse.commands]
    simp
  · have hc := onRead_full exec hs.isOpen hr
    obtain ⟨hcl, hcm⟩ := hco { before with inRing := before.inRing.write last } hs.isOpen
    refine ⟨_, hb, he _ hc hs.isOpen, hcl, iff_of_false (fun heq => ?_) hr⟩
    -- The last command is not complete before the last read, so it is not among those executed.
    have hsa := hs.commands
    rw [hcm] at heq
    change before.commands = _ at heq
    rw [hsa, nil_append, map_append, self_eq_append_right, map_eq_nil_iff] at heq
    rw [heq] at hw
    exact hl (append_eq_nil_iff.1 hw).2

theorem executed_before_eof_ping : ∃ before c, (Conn.accepted 4 () []).serve (fun _ _ => (respPONG, ())) [.data (lit "PI")] = .ok before ∧
    (Conn.accepted 4 () []).serve (fun _ _ => (respPONG, ())) ([.data (lit "PI")] ++ [.data (lit "NG\r\n"), .eof]) = .ok c ∧ c.closed = true ∧
      (c.commands = [[lit "PING"]] ↔ (lit "NG\r\n").length < readBufLen ∨ before.inRing.isEmpty = true) :=
  executed_before_eof_iff [([lit "PING"], lit "PING\r" ++ [10])] (by
    intro x hx
    obtain rfl := mem_singleton.1 hx
    have hf : splitFields (inlineLine (lit "PING\r")) = [lit "PING"] := by decide +kernel
    refine ⟨?_, by decide +kernel⟩
    rw [← hf]
    exact .inline (by decide) (by decide) (by rw [hf]; simp)) _ (by
    intro r hr
    obtain rfl := mem_singleton.1 hr
    exact .inr ⟨_, rfl⟩) (by decide) (by decide +kernel) 4 ()

theorem lost_at_eof {buf : Bytes} (hfu : buf.length = readBufLen) : ∃ c,
    (Conn.accepted 4 () []).serve (fun _ _ => ([], ())) [.data [42], .data buf, .eof] = .ok c ∧ c.closed = true ∧ c.commands = [] := by
  let first : Conn Unit := { Conn.accepted 4 () [] with inRing := (RingBuffer.new 4).write [42] }
  have hf : (Conn.accepted 4 () []).onRead (fun _ _ => ([], ())) (.data [42]) = .ok first := rfl
  have hs : first.onRead (fun _ _ => ([], ())) (.data buf) = .ok { first with inRing := first.inRing.write buf } :=
    onRead_full _ rfl (by rw [hfu]; exact not_or_intro (Nat.lt_irrefl _) (by decide +kernel))
  refine ⟨{ first with inRing := first.inRing.write buf }.closeConn, ?_, rfl, rfl⟩
  rw [Conn.serve, foldlM_cons, hf]
  change (first.onRead (fun _ _ => ([], ())) (.data buf)).bind (Conn.serve _ [.eof]) = _
  rw [hs]
  rfl

theorem length_echo {text : Bytes} (h : text.length = 65513) : (serializeCommand [lit "ECHO", text]).tail.length = readBufLen := by
  have hd : (formatUint 2).length = 1 ∧ (formatUint 4).length = 1 ∧ (formatUint 65513).length = 5 := by decide +kernel
  have he : (lit "ECHO").length = 4 := rfl
  simp only [serializeCommand, serializeArg, flatMap_cons, flatMap_nil, cons_append, tail_cons, length_append,
    length_cons, length_nil, Nat.zero_add, Nat.reduceAdd, h, he, hd]
  rfl

/-- An `ECHO` of 65513 bytes, in a read of one byte and one that fills `readBuf`. -/
theorem echo_lost_at_eof : ∃ text, text.length = 65513 ∧
    let bytes := serializeCommand [lit "ECHO", text]
    bytes = 42 :: bytes.tail ∧ bytes.tail.length = readBufLen ∧ ∃ c,
      (Conn.accepted 4 () []).serve (fun _ _ => ([], ())) [.data [42], .data bytes.tail, .eof] = .ok c ∧ c.closed = true ∧ c.commands = [] := by
  have he (text : Bytes) (h : text.length = 65513) : let bytes := serializeCommand [lit "ECHO", text]
      bytes = 42 :: bytes.tail ∧ bytes.tail.length = readBufLen ∧ ∃ c,
        (Conn.accepted 4 () []).serve (fun _ _ => ([], ())) [.data [42], .data bytes.tail, .eof] = .ok c ∧ c.closed = true ∧ c.commands = [] :=
    ⟨rfl, length_echo h, lost_at_eof (length_echo h)⟩
  exact ⟨List.replicate 65513 120, length_replicate, he _ length_replicate⟩

end VortexKV
