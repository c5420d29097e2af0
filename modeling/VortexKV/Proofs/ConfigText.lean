import VortexKV.Proofs.SlotOwners

/-!
# The configuration file read back

The lines of `saveConfigLocked`, as `parseAndMergeNodesTextLocked` reads them: the last one always gives the epoch
(`epoch_restored`), and the line of a node with plain texts is read as what was written (`nodeLine_format`).
-/

namespace VortexKV

open List

variable {ts : List Bytes} {n : ClusterNode}

/-! ### Lines -/

theorem splitByte_ne_nil (b : UInt8) (s : Bytes) : splitByte b s ≠ [] := by
  cases s with
  | nil => nofun
  | cons c s =>
    unfold splitByte
    split
    · nofun
    · split <;> nofun

theorem splitByte_append (b : UInt8) (s t : Bytes) : splitByte b (s ++ b :: t) = splitByte b s ++ splitByte b t := by
  induction s with
  | nil => exact if_pos rfl
  | cons c s ih =>
    rw [cons_append, splitByte, splitByte, ih]
    split
    · rfl
    · obtain ⟨p, ps, hps⟩ := exists_cons_of_ne_nil (splitByte_ne_nil b s)
      rw [hps]
      rfl

theorem splitByte_of_notMem {b : UInt8} {s : Bytes} (h : b ∉ s) : splitByte b s = [s] := by
  induction s with
  | nil => rfl
  | cons c s ih =>
    rw [mem_cons, not_or] at h
    rw [splitByte, if_neg (Ne.symm h.1), ih h.2]

theorem splitByte_flatMap (h : ∀ t ∈ ts, 10 ∉ t) (rest : Bytes) :
    splitByte 10 (ts.flatMap (· ++ lit "\n") ++ rest) = ts ++ splitByte 10 rest := by
  induction ts with
  | nil => rfl
  | cons t ts ih =>
    rw [flatMap_cons, append_assoc, append_assoc]
    refine (splitByte_append 10 t (ts.flatMap (· ++ lit "\n") ++ rest)).trans ?_
    rw [splitByte_of_notMem (h t (by simp)), ih fun t ht => h t (by simp [ht])]
    rfl

theorem notMem_ten_join (h : ∀ t ∈ ts, PlainText t) : 10 ∉ joinBytes (lit " ") ts := by
  intro hm
  rcases lt_of_mem_join h hm with heq | hp
  · cases heq
  · exact absurd hp (by decide)

theorem trimSpace_join (h : ∀ t ∈ ts, PlainText t) : trimSpace (joinBytes (lit " ") ts) = joinBytes (lit " ") ts := by
  have ha : ∀ c ∈ joinBytes (lit " ") ts, c.toNat < 128 := by
    intro c hc
    rcases lt_of_mem_join h hc with rfl | hc
    · decide
    · exact hc.2
  have hh : ∀ c ∈ (joinBytes (lit " ") ts).head?, PlainByte c := by
    cases ts with
    | nil => nofun
    | cons t ts =>
      have ht := h t (by simp)
      obtain ⟨c, t, rfl⟩ := exists_cons_of_ne_nil ht.ne_nil
      have hc := ht.bytes c (by simp)
      cases ts with
      | nil =>
        rintro _ ⟨⟩
        exact hc
      | cons u ts =>
        rintro _ ⟨⟩
        exact hc
  have hl : ∀ c ∈ (joinBytes (lit " ") ts).getLast?, PlainByte c := by
    clear ha hh
    induction ts with
    | nil => nofun
    | cons t ts ih =>
      have ht := h t (by simp)
      cases ts with
      | nil =>
        intro c hc
        exact ht.bytes c (mem_of_getLast? hc)
      | cons u ts =>
        intro c hc
        have hne : joinBytes (lit " ") (u :: ts) ≠ [] := by
          intro hn
          have hsp : splitFields (joinBytes (lit " ") (u :: ts)) = u :: ts := splitFields_join fun t ht => h t (by simp [ht])
          rw [hn] at hsp
          cases hsp
        rw [joinBytes_cons, ← append_assoc, List.getLast?_append_of_ne_nil _ hne] at hc
        exact ih (fun t ht => h t (by simp [ht])) c hc
  unfold trimSpace
  rw [runeTexts_ascii ha]
  have hd : ∀ s : Bytes, (∀ c ∈ s.head?, PlainByte c) → (s.map ([·])).dropWhile isSpaceText = s.map ([·]) := by
    intro s hs
    cases s with
    | nil => rfl
    | cons c s => rw [map_cons, dropWhile_cons_of_neg (by rw [isSpaceText_plain (hs c rfl)]; nofun)]
  rw [hd _ hh, ← map_reverse, hd _ (by rwa [List.head?_reverse]), ← map_reverse, reverse_reverse]
  simp [flatten_eq_flatMap, flatMap_map]

namespace ClusterManager

variable {cm cm' : ClusterManager} {q s : Nat}

/-! ### The epoch -/

def varFields (epoch : Nat) : List Bytes := [lit "vars", lit "currentEpoch", formatUint epoch, lit "lastVoteEpoch", lit "0"]

theorem plainText_varFields (epoch : Nat) : ∀ t ∈ varFields epoch, PlainText t := by
  intro t ht
  unfold varFields at ht
  simp only [mem_cons, not_mem_nil, or_false] at ht
  rcases ht with rfl | rfl | rfl | rfl | rfl
  · decide
  · decide
  · exact plainText_formatUint epoch
  · decide
  · decide

theorem varLine_eq (epoch : Nat) :
    lit "vars currentEpoch " ++ formatUint epoch ++ lit " lastVoteEpoch 0\n" = joinBytes (lit " ") (varFields epoch) ++ lit "\n" := by
  simp only [varFields, joinBytes, append_assoc]
  rfl

theorem mergeLine_vars (seed : NodeSeed) (nowMilli : Int) (cm : ClusterManager) {epoch : Nat} (h : epoch < 2 ^ 64) :
    mergeLine seed nowMilli cm (joinBytes (lit " ") (varFields epoch)) = { cm with currentEpoch := epoch } := by
  have hp := plainText_varFields epoch
  have hv : lit "vars " <+: joinBytes (lit " ") (varFields epoch) := ⟨joinBytes (lit " ") (varFields epoch).tail, rfl⟩
  unfold mergeLine
  dsimp only
  rw [trimSpace_join hp, splitFields_join hp, if_neg (by nofun), if_pos hv]
  change readVars (if lit "currentEpoch" = lit "currentEpoch" then _ else _) [lit "lastVoteEpoch", lit "0"] = _
  rw [if_pos rfl, StreamID.parseUint64_formatUint h]
  rfl

theorem mergeLine_nil (seed : NodeSeed) (nowMilli : Int) (cm : ClusterManager) : mergeLine seed nowMilli cm [] = cm := rfl

theorem parse_saveConfig (seed : NodeSeed) (nowMilli : Int) (cm : ClusterManager) (h : cm.currentEpoch < 2 ^ 64) (cm₀ : ClusterManager) :
    cm₀.parseAndMergeNodesText seed nowMilli cm.saveConfig =
      { (splitByte 10 (joinBytes (lit "\n") cm.nodeTexts)).foldl (mergeLine seed nowMilli) cm₀ with currentEpoch := cm.currentEpoch } := by
  have hs : splitByte 10 cm.saveConfig =
      splitByte 10 (joinBytes (lit "\n") cm.nodeTexts) ++ [joinBytes (lit " ") (varFields cm.currentEpoch), []] := by
    rw [saveConfig_eq, formatNodes, append_assoc, varLine_eq]
    refine (splitByte_append 10 _ _).trans ?_
    congr 1
    refine (splitByte_append 10 _ []).trans ?_
    rw [splitByte_of_notMem (notMem_ten_join (plainText_varFields _))]
    rfl
  unfold parseAndMergeNodesText
  rw [hs, foldl_append, foldl_cons, foldl_cons, mergeLine_vars seed nowMilli _ h, mergeLine_nil]
  rfl

theorem epoch_restored (seed : NodeSeed) (nowMilli : Int) (ip : Bytes) (port busPort : Int) (h : cm.currentEpoch < 2 ^ 64) :
    (newClusterManager seed nowMilli ip port busPort (some cm.saveConfig)).currentEpoch = cm.currentEpoch := by
  unfold newClusterManager
  dsimp only
  rw [parse_saveConfig seed nowMilli cm h]

end ClusterManager

/-! ### The line of a node -/

theorem plainText_formatInt (n : Int) : PlainText (formatInt n) := by
  refine ⟨?_, fun c hc => ?_⟩
  · unfold formatInt
    split
    · nofun
    · exact formatUint_ne_nil _
  · rcases mem_formatInt hc with rfl | hc
    · decide
    · exact ⟨by omega, by omega⟩

theorem cutAtLast_append {c : UInt8} {t : Bytes} (h : c ∉ t) (s : Bytes) : cutAtLast c (s ++ c :: t) = some (s, t) := by
  unfold cutAtLast
  rw [reverse_append, reverse_cons, append_assoc, singleton_append, cutAt_append (by simpa using h)]
  simp

namespace ClusterNode

/-- A node whose texts are plain and whose numbers fit, as the file needs it. -/
structure Plain (n : ClusterNode) : Prop where
  id : PlainText n.id
  notVars : n.id ≠ lit "vars"
  ip : PlainText n.ip
  noAt : 64 ∉ n.ip
  port : -2 ^ 63 ≤ n.port ∧ n.port < 2 ^ 63
  busPort : 0 < n.busPort ∧ n.busPort < 2 ^ 63
  masterID : PlainText n.masterID
  linkState : PlainText n.linkState

def addrText (n : ClusterNode) : Bytes := n.ip ++ lit ":" ++ formatInt n.port ++ lit "@" ++ formatInt n.busPort

theorem Plain.parseAddr (h : n.Plain) : ClusterManager.parseAddr n.addrText = (n.ip, n.port, n.busPort) := by
  have hat : (64 : UInt8) ∉ n.ip ++ lit ":" ++ formatInt n.port := by
    rw [mem_append, mem_append]
    rintro ((hm | hm) | hm)
    · exact h.noAt hm
    · exact absurd hm (by decide)
    · rcases mem_formatInt hm with heq | heq
      · cases heq
      · exact absurd heq (by decide)
  have hc : (58 : UInt8) ∉ formatInt n.port := by
    intro hm
    rcases mem_formatInt hm with heq | heq
    · cases heq
    · exact absurd heq (by decide)
  have hcu : cutAt 64 n.addrText = some (n.ip ++ lit ":" ++ formatInt n.port, formatInt n.busPort) := by
    unfold addrText
    rw [append_assoc (n.ip ++ lit ":" ++ formatInt n.port)]
    exact cutAt_append hat _
  have hl : cutAtLast 58 (n.ip ++ lit ":" ++ formatInt n.port) = some (n.ip, formatInt n.port) := by
    rw [append_assoc]
    exact cutAtLast_append hc _
  unfold ClusterManager.parseAddr
  rw [hcu]
  dsimp only
  rw [hl]
  dsimp only
  rw [parseInt64_formatInt h.port.1 h.port.2, parseInt64_formatInt (by have := h.busPort.1; omega) h.busPort.2]
  rfl

def flagsText (isMyself : Bool) (n : ClusterNode) : Bytes :=
  joinBytes (lit ",") ((if isMyself then [lit "myself"] else []) ++ [if n.role = .master then lit "master" else lit "slave"] ++
    if n.fail then [lit "fail"] else if n.pFail then [lit "fail?"] else [])

theorem flagsText_spec (isMyself : Bool) (n : ClusterNode) : PlainText (n.flagsText isMyself) ∧
    (lit "slave" <:+: n.flagsText isMyself ↔ n.role = .slave) ∧ (lit "myself" <:+: n.flagsText isMyself ↔ isMyself = true) := by
  unfold flagsText
  generalize n.role = role
  generalize n.fail = fail
  generalize n.pFail = pFail
  cases isMyself <;> cases role <;> cases fail <;> cases pFail <;> decide

def nodeFields (isMyself : Bool) (n : ClusterNode) : List Bytes :=
  [n.id, n.addrText, n.flagsText isMyself, n.masterID, formatInt n.pingSent, formatInt n.pongRecv, formatUint n.epoch, n.linkState]

def rangeFields (n : ClusterNode) : List Bytes := if n.role = .master then n.slotTexts else []

theorem Plain.fields (h : n.Plain) (isMyself : Bool) : ∀ t ∈ n.nodeFields isMyself ++ n.rangeFields, PlainText t := by
  intro t ht
  rcases mem_append.1 ht with ht | ht
  · unfold nodeFields at ht
    simp only [mem_cons, not_mem_nil, or_false] at ht
    rcases ht with rfl | rfl | rfl | rfl | rfl | rfl | rfl | rfl
    · exact h.id
    · unfold addrText
      rw [append_assoc, append_assoc, append_assoc]
      refine h.ip.append fun c hc => ?_
      simp only [mem_append] at hc
      rcases hc with hc | hc | hc | hc
      · rw [mem_singleton.1 hc]
        decide
      · exact (plainText_formatInt _).bytes c hc
      · rw [mem_singleton.1 hc]
        decide
      · exact (plainText_formatInt _).bytes c hc
    · exact (n.flagsText_spec isMyself).1
    · exact h.masterID
    · exact plainText_formatInt _
    · exact plainText_formatInt _
    · exact plainText_formatUint _
    · exact h.linkState
  · unfold rangeFields at ht
    split at ht
    · exact n.plainText_slotTexts t ht
    · cases ht

theorem joinBytes_append_fields (sep : Bytes) {us : List Bytes} (ht : ts ≠ []) (hu : us ≠ []) :
    joinBytes sep (ts ++ us) = joinBytes sep ts ++ sep ++ joinBytes sep us := by
  induction ts with
  | nil => exact absurd rfl ht
  | cons t ts ih =>
    cases ts with
    | nil =>
      obtain ⟨u, us, rfl⟩ := exists_cons_of_ne_nil hu
      rfl
    | cons t' ts =>
      rw [cons_append, cons_append, joinBytes_cons, joinBytes_cons, ← cons_append, ih (by nofun)]
      simp

theorem Plain.formatNodeLine_eq (h : n.Plain) (isMyself : Bool) :
    n.formatNodeLine isMyself = joinBytes (lit " ") (n.nodeFields isMyself ++ n.rangeFields) := by
  have hs : n.slotStr = joinBytes (lit " ") n.rangeFields := by
    unfold slotStr rangeFields
    split
    · exact n.slotRangesString_eq
    · rfl
  have hr : n.slotStr = [] ↔ n.rangeFields = [] := by
    rw [hs]
    constructor
    · intro hn
      have hsp : splitFields (joinBytes (lit " ") n.rangeFields) = n.rangeFields := splitFields_join fun t ht => h.fields isMyself t (by simp [ht])
      rw [hn] at hsp
      exact hsp.symm.trans rfl
    · intro hn
      rw [hn]
      rfl
  have hl : n.formatNodeLine isMyself =
      if n.slotStr ≠ [] then joinBytes (lit " ") (n.nodeFields isMyself) ++ lit " " ++ n.slotStr else joinBytes (lit " ") (n.nodeFields isMyself) := by
    unfold formatNodeLine nodeFields addrText flagsText
    rw [if_neg h.masterID.ne_nil]
  rw [hl]
  split
  · rename_i hne
    rw [joinBytes_append_fields _ (by nofun) fun hn => hne (hr.2 hn), hs]
  · rename_i hn
    rw [hr.1 (not_not.1 hn), append_nil]

def toLine (isMyself : Bool) (n : ClusterNode) : ClusterManager.NodeLine where
  id := n.id
  ip := n.ip
  port := n.port
  busPort := n.busPort
  myself := isMyself
  role := n.role
  masterID := n.masterID
  epoch := parseUintValue (formatUint n.epoch)
  linkState := n.linkState
  slots := if n.role = .master then n.slotsList else []

theorem Plain.parseNodeLine (h : n.Plain) (isMyself : Bool) :
    ClusterManager.parseNodeLine (n.nodeFields isMyself ++ n.rangeFields) = some (n.toLine isMyself) := by
  obtain ⟨-, hsl, hmy⟩ := n.flagsText_spec isMyself
  have hro : (if lit "slave" <:+: n.flagsText isMyself then NodeRole.slave else .master) = n.role := by
    cases hr : n.role with
    | master => exact if_neg fun hs => by cases hr.symm.trans (hsl.1 hs)
    | slave => exact if_pos (hsl.2 hr)
  have hso : (if n.rangeFields ≠ [] ∧ n.role = .master then (parseSlotRanges (joinBytes (lit " ") n.rangeFields)).getD [] else []) =
      if n.role = .master then n.slotsList else [] := by
    unfold rangeFields
    by_cases hm : n.role = .master
    · rw [if_pos hm, if_pos hm, n.parseSlotRanges_text]
      split
      · rfl
      · rename_i hn
        have he : n.slotTexts = [] := by
          by_contra hne
          exact hn ⟨hne, hm⟩
        have hp := n.parseSlotRanges_text
        rw [he] at hp
        exact Option.some.inj ((show parseSlotRanges [] = some [] from rfl).symm.trans hp)
    · rw [if_neg hm, if_neg hm, if_neg fun ha => hm ha.2]
  simp only [nodeFields, cons_append, nil_append, ClusterManager.parseNodeLine, h.parseAddr, hro, hso, hmy]
  unfold toLine
  rw [Bool.decide_eq_true]

end ClusterNode

end VortexKV
