import VortexKV.Proofs.Users
import VortexKV.Proofs.KeyExtraction
import VortexKV.Proofs.SlotClaims
import VortexKV.EngineRuns

/-!
# What takes a right away

Which commands and bus events can turn an acceptance of the guards into a refusal (`DispatchEvent.Restricts`,
`TurnsReplica`, `DispatchEvent.Takes`, `BusEvent.Takes`), and that the others do not.
-/

namespace VortexKV

open List Finmap

/-! ### Users -/

namespace ACLManager

/-- A token of `ACL SETUSER` that may take a right away. `+@all` is one: it ends the rights of an admin. -/
def Withdraws (tok : Bytes) : Prop :=
  tok = lit "off" ∨ tok.head? = some 126 ∨ tok = lit "+@all" ∨ tok = lit "+@write" ∨ tok = lit "readwrite" ∨ tok = lit "+@read" ∨
    tok = lit "readonly"

end ACLManager

structure ACLUser.Wider (u u' : ACLUser) : Prop where
  username : u'.username = u.username
  enabled : u.enabled = true → u'.enabled = true
  isAdmin : u.isAdmin = true → u'.isAdmin = true
  readOnly : u'.readOnly = true → u.readOnly = true
  keyPatterns : u.keyPatterns ⊆ u'.keyPatterns

section

variable {rt : Runtime} {acl acl' : ACLManager} {u u' u'' : ACLUser} {username cmd own : Bytes} {args keys toks : List Bytes}
  {e e' : Engine} {d : DispatchEvent}

theorem ACLUser.Wider.refl (u : ACLUser) : u.Wider u := ⟨rfl, id, id, id, List.Subset.refl _⟩

theorem ACLUser.Wider.trans (h : u.Wider u') (h' : u'.Wider u'') : u.Wider u'' :=
  ⟨h'.username.trans h.username, fun he => h'.enabled (h.enabled he), fun ha => h'.isAdmin (h.isAdmin ha), fun hr => h.readOnly (h'.readOnly hr),
    fun _ hp => h'.keyPatterns (h.keyPatterns hp)⟩

theorem ACLUser.wider_applyToken (u : ACLUser) {tok : Bytes} (h : ¬ ACLManager.Withdraws tok) : u.Wider (ACLManager.applyToken u tok) := by
  simp only [ACLManager.Withdraws, not_or] at h
  obtain ⟨ho, hkeys, h₁, h₂, h₃, h₄, h₅⟩ := h
  unfold ACLManager.applyToken
  rw [if_neg ho, if_neg hkeys, if_neg (not_or.2 ⟨h₁, not_or.2 ⟨h₂, h₃⟩⟩), if_neg (not_or.2 ⟨h₄, h₅⟩)]
  split_ifs
  · exact ⟨rfl, fun _ => rfl, id, id, List.Subset.refl _⟩
  · exact ⟨rfl, id, id, id, List.Subset.refl _⟩
  · exact ⟨rfl, id, fun _ => rfl, fun h => absurd h Bool.false_ne_true, List.Subset.refl _⟩
  · exact .refl u

theorem ACLUser.wider_tokens (u : ACLUser) (h : ∀ tok ∈ toks, ¬ ACLManager.Withdraws tok) : u.Wider (toks.foldl ACLManager.applyToken u) := by
  induction toks generalizing u with
  | nil => exact .refl u
  | cons tok toks ih => exact (u.wider_applyToken (h tok (by simp))).trans (ih _ fun t ht => h t (by simp [ht]))

theorem ACLManager.matches_mono {k : Bytes} {ps ps' : List Bytes} (hs : ps ⊆ ps') (h : matchesAnyPattern rt k ps = true) :
    matchesAnyPattern rt k ps' = true := by
  obtain ⟨p, hp, hm⟩ := any_eq_true.1 h
  exact any_eq_true.2 ⟨p, hs hp, hm⟩

theorem ACLUser.Wider.refusal (h : u.Wider u') (hu : acl.lookup (ACLManager.orDefault username) = some u)
    (hu' : acl'.lookup (ACLManager.orDefault username) = some u') (hr : acl.refusal rt username cmd keys = none) :
    acl'.refusal rt username cmd keys = none := by
  unfold ACLManager.refusal at hr ⊢
  simp only [hu] at hr
  simp only [hu']
  split_ifs at hr with h₁ h₂ h₃
  rw [if_neg, if_neg, if_neg, Option.map_eq_none_iff, List.find?_eq_none]
  · rw [Option.map_eq_none_iff, List.find?_eq_none] at hr
    intro k hk
    have hm := hr k hk
    simp only [Bool.not_eq_true', Bool.not_eq_false] at hm ⊢
    exact ACLManager.matches_mono h.keyPatterns hm
  · intro hb
    simp only [Bool.and_eq_true, Bool.not_eq_true', decide_eq_true_eq] at hb h₃
    refine h₃ ⟨⟨?_, h.readOnly hb.1.2⟩, hb.2⟩
    cases ha : u.isAdmin with
    | false => rfl
    | true => rw [h.isAdmin ha] at hb; cases hb.1.1
  · intro hb
    simp only [Bool.and_eq_true, Bool.not_eq_true', decide_eq_true_eq] at hb h₂
    refine h₂ ⟨?_, hb.2⟩
    cases ha : u.isAdmin with
    | false => rfl
    | true => rw [h.isAdmin ha] at hb; cases hb.1
  · simpa using h.enabled (by simpa using h₁)

def ACLManager.Widens (rt : Runtime) (acl acl' : ACLManager) (username : Bytes) : Prop :=
  ∀ cmd keys, acl.refusal rt username cmd keys = none → acl'.refusal rt username cmd keys = none

theorem ACLManager.Widens.of_lookup (h : acl'.lookup (orDefault username) = acl.lookup (orDefault username)) : acl.Widens rt acl' username := by
  intro cmd keys hr
  unfold refusal at hr ⊢
  simp only [h]
  exact hr

theorem ACLManager.lookup_of_refusal (h : acl.refusal rt username cmd keys = none) : ∃ u, acl.lookup (orDefault username) = some u := by
  unfold refusal at h
  dsimp only at h
  split at h
  · cases h
  · rename_i u hu
    exact ⟨u, hu⟩

def DispatchEvent.Restricts (rt : Runtime) (d : DispatchEvent) (username : Bytes) : Prop :=
  Cmd.ofName d.cmd = .acl ∧ ∃ sub name toks, d.args = sub :: name :: toks ∧ name = ACLManager.orDefault username ∧
    (toUpper rt.unicode sub = lit "SETUSER" ∧ (∃ tok ∈ toks, ACLManager.Withdraws tok) ∨ toUpper rt.unicode sub = lit "DELUSER")

theorem ACLManager.Ok.setUser_widens (hok : acl.Ok) (name : Bytes) (h : name = orDefault username → ∀ tok ∈ toks, ¬ Withdraws tok) :
    acl.Widens rt (acl.setUser (toks.foldl applyToken ((acl.lookup name).getD { username := name }))) username := by
  intro cmd keys hr
  obtain ⟨u, hu⟩ := lookup_of_refusal hr
  have hna : (toks.foldl applyToken ((acl.lookup name).getD { username := name })).username = name := by
    have hto : ∀ (u : ACLUser) tok, (applyToken u tok).username = u.username := by
      intro u tok
      unfold applyToken
      split_ifs <;> rfl
    have hf : ∀ (u : ACLUser), (toks.foldl applyToken u).username = u.username := by
      induction toks with
      | nil => exact fun _ => rfl
      | cons tok toks ih => exact fun u => (ih (fun hn t ht => h hn t (by simp [ht])) _).trans (hto u tok)
    rw [hf]
    cases hl : acl.lookup name with
    | none => rfl
    | some u => exact (hok.user hl).1
  by_cases hn : name = orDefault username
  · subst hn
    rw [hu, Option.getD_some] at hna ⊢
    have hw := u.wider_tokens (h rfl)
    obtain ⟨u', hu', hw'⟩ : ∃ u', (acl.setUser (toks.foldl applyToken u)).lookup (orDefault username) = some u' ∧ u.Wider u' := by
      rw [ACLManager.setUser, hna, lookup_insert]
      refine ⟨_, rfl, ?_⟩
      split_ifs with hk
      · refine ⟨hna.symm.trans hw.username, hw.enabled, hw.isAdmin, hw.readOnly, ?_⟩
        have hni := hw.keyPatterns
        rw [hk] at hni
        rw [subset_nil.1 hni]
        exact nil_subset _
      · exact hw
    exact hw'.refusal hu hu' hr
  · refine Widens.of_lookup ?_ cmd keys hr
    rw [ACLManager.setUser, hna, lookup_insert_of_ne _ (Ne.symm hn)]

theorem ACLManager.Ok.syncDefault_widens (hok : acl.Ok) (password : Bytes) : acl.Widens rt (acl.syncDefault password) username := by
  intro cmd keys hr
  obtain ⟨u, hu⟩ := lookup_of_refusal hr
  rcases usersKept_syncDefault hok password (orDefault username) with heq | ⟨-, heq⟩
  · exact Widens.of_lookup heq cmd keys hr
  · rw [hu] at heq
    have hw : u.Wider { u with password := password } := ⟨rfl, id, id, id, List.Subset.refl _⟩
    exact hw.refusal hu heq hr

theorem ACLManager.deleteUser_widens {name : Bytes} (h : name ≠ orDefault username) : acl.Widens rt (acl.deleteUser name).2 username := by
  unfold deleteUser
  split_ifs
  · exact .of_lookup rfl
  · exact .of_lookup (lookup_erase_ne (Ne.symm h))

structure UsersWiden (rt : Runtime) (username : Bytes) (e e' : Engine) : Prop where
  absent : e.acl = none → e'.acl = none
  present : ∀ acl, e.acl = some acl → ∃ acl', e'.acl = some acl' ∧ acl.Widens rt acl' username

theorem UsersWiden.of_eq (h : e'.acl = e.acl) : UsersWiden rt username e e' :=
  ⟨fun hn => h.trans hn, fun acl ha => ⟨acl, h.trans ha, .of_lookup rfl⟩⟩

theorem DispatchEvent.Leads.aclOk (h : d.Leads rt e') (hok : ∀ acl, d.before.acl = some acl → acl.Ok) : ∀ acl, e'.acl = some acl → acl.Ok := by
  obtain ⟨-, hac, -⟩ := h.access
  generalize e'.acl = acl' at hac
  cases hac with
  | same => exact hok
  | sync ha hc =>
    rintro _ ⟨⟩
    exact (hok _ ha).syncDefault _
  | setUser ha hc har hs had =>
    rintro _ ⟨⟩
    exact (hok _ ha).setUser _
  | deleteUser ha hc har hs had =>
    rintro _ ⟨⟩
    exact (hok _ ha).deleteUser _

theorem DispatchEvent.Leads.usersWiden (h : d.Leads rt e') (hok : ∀ acl, d.before.acl = some acl → acl.Ok) (hd : ¬ d.Restricts rt username) :
    UsersWiden rt username d.before e' := by
  obtain ⟨-, hal, -⟩ := h.access
  generalize hac : e'.acl = acl' at hal
  have hs : ∀ {acl acl₁}, d.before.acl = some acl → acl' = some acl₁ → acl.Widens rt acl₁ username → UsersWiden rt username d.before e' := by
    intro acl acl₁ ha ha' hw
    refine ⟨fun hn => ?_, fun acl₀ h₀ => ⟨acl₁, hac.trans ha', ?_⟩⟩
    · cases ha.symm.trans hn
    · cases ha.symm.trans h₀
      exact hw
  cases hal with
  | same => exact .of_eq hac
  | sync ha hc => exact hs ha rfl ((hok _ ha).syncDefault_widens _)
  | @setUser acl sub name toks ha hc har hsu had =>
    refine hs ha rfl ((hok _ ha).setUser_widens name fun hn tok ht hw => ?_)
    exact hd ⟨hc, sub, name, toks, har, hn, .inl ⟨hsu, tok, ht, hw⟩⟩
  | @deleteUser acl sub name rest ha hc har hsu had =>
    refine hs ha rfl (ACLManager.deleteUser_widens fun hn => ?_)
    exact hd ⟨hc, sub, name, rest, har, hn, .inr hsu⟩

/-! ### The replica role -/

def DispatchEvent.TurnsReplica (rt : Runtime) (d : DispatchEvent) : Prop :=
  Cmd.ofName d.cmd = .replicaof ∧ ∃ host port rest, d.args = host :: port :: rest ∧
    ¬ (toUpper rt.unicode host = lit "NO" ∧ toUpper rt.unicode port = lit "ONE")

theorem DispatchEvent.Leads.notReadOnly (h : d.Leads rt e') (hd : ¬ d.TurnsReplica rt) (hro : e'.ReadOnly) : d.before.ReadOnly := by
  by_cases hc : Cmd.ofName d.cmd = .replicaof
  · obtain ⟨v, w, e₁, hr, hf⟩ := h
    rw [Engine.ReadOnly, readOnly_finish hf] at hro
    simp only [DispatchEvent.result, dispatch, hc] at hr
    cases ha : d.args with
    | nil => rw [ha] at hr; cases hr; exact hro
    | cons host rest =>
      cases hre : rest with
      | nil => rw [ha, hre] at hr; cases hr; exact hro
      | cons port rest =>
        rw [ha, hre] at hr
        unfold cmdReplicaOf at hr
        dsimp only at hr
        split_ifs at hr with hno
        · cases hr
          -- `NO ONE` leaves no replica read-only
          cases hrp : d.before.repl with
          | none => simp [hrp] at hro
          | some rm =>
            rw [Engine.ReadOnly, hrp]
            simp only [hrp, Option.map_some, Option.some.injEq, Replication.promoteToMaster] at hro ⊢
            split_ifs at hro
            exact hro
        · exact absurd ⟨hc, host, port, rest, ha.trans (by rw [hre]), hno⟩ hd
  · rw [Engine.ReadOnly, ← h.readOnly_eq hc]
    exact hro

end

/-! ### Slots -/

namespace ClusterManager

variable {cm cm' cm'' : ClusterManager} {T : Nat → Prop} {s q : Nat}

def Owns (cm : ClusterManager) (s : Nat) : Prop := ∃ q, cm.slotMap s = some q ∧ (cm.heap q).id = cm.selfNode.id

/-- The manager stays in order, and of its own slots the node keeps all but those that are taken. -/
structure Holds (T : Nat → Prop) (cm cm' : ClusterManager) : Prop where
  allocated : cm'.Allocated
  enabled : cm'.enabled = cm.enabled
  owns : ∀ s, ¬ T s → cm.Owns s → cm'.Owns s

theorem Holds.refl (h : cm.Allocated) : Holds T cm cm := ⟨h, rfl, fun _ _ h => h⟩

theorem Holds.trans (h : Holds T cm cm') (h' : Holds T cm' cm'') : Holds T cm cm'' :=
  ⟨h'.allocated, h'.enabled.trans h.enabled, fun s hs ho => h'.owns s hs (h.owns s hs ho)⟩

theorem Holds.sameTables (h : cm.Allocated) (hs : SameTables cm cm') : Holds T cm cm' := by
  refine ⟨h.sameTables hs, hs.enabled, ?_⟩
  rintro s - ⟨q, hq, hid⟩
  refine ⟨q, by rw [hs.slotMap, hq], ?_⟩
  rw [hs.id, hid, selfNode, selfNode, hs.self, hs.id]

theorem Holds.slotsOnly (h : cm.Allocated) (hs : SlotsOnly cm cm') (ha : ∀ s q, cm'.slotMap s = some q → cm.slotMap s = some q ∨ q < cm.next)
    (hm : ∀ s, ¬ T s → cm'.slotMap s = cm.slotMap s ∨ ∃ q, cm'.slotMap s = some q ∧ (cm.heap q).id = cm.selfNode.id) : Holds T cm cm' := by
  refine ⟨h.congr hs.self hs.nodes hs.next ha, by rw [hs.rest], ?_⟩
  rintro s hT ⟨q, hq, hid⟩
  rcases hm s hT with hm | ⟨q', hq', hi⟩
  · exact ⟨q, hm.trans hq, by rw [hs.id, hs.selfID, hid]⟩
  · exact ⟨q', hq', by rw [hs.id, hs.selfID, hi]⟩

theorem Allocated.holds_addSlots (h : cm.Allocated) {slots : List Nat} (hok : cm.addSlots slots = .ok cm') : Holds T cm cm' := by
  obtain ⟨rfl, -⟩ := addSlots_ok hok
  rw [foldl_gain_self]
  refine .slotsOnly h (slotsOnly_gains slots cm.self cm) (fun s q hq => ?_) fun s _ => ?_
  · rw [slotMap_gains] at hq
    split at hq
    · cases hq
      exact .inr h.self
    · exact .inl hq
  · rw [slotMap_gains]
    split
    · exact .inr ⟨cm.self, rfl, rfl⟩
    · exact .inl rfl

theorem slotMap_frees (l : List Nat) (cm : ClusterManager) (s : Nat) :
    (l.foldl (fun cm s => cm.freeSlot cm.self s) cm).slotMap s = if s ∈ l then none else cm.slotMap s := by
  induction l generalizing cm with
  | nil => rfl
  | cons j l ih =>
    rw [foldl_cons, ih]
    change (if s ∈ l then none else Function.update cm.slotMap j none s) = _
    rw [Function.update_apply]
    by_cases hl : s ∈ l <;> by_cases hj : s = j <;> simp [hl, hj]

theorem Allocated.holds_delSlots (h : cm.Allocated) {slots : List Nat} (hok : cm.delSlots slots = .ok cm') (hT : ∀ s ∈ slots, T s) : Holds T cm cm' := by
  obtain ⟨rfl, -⟩ := delSlots_ok hok
  refine .slotsOnly h (.foldl (fun cm s => slotsOnly_free cm cm.self s) slots cm) (fun s q hq => .inl ?_) fun s hs => .inl ?_
  · rw [slotMap_frees] at hq
    split at hq
    · cases hq
    · exact hq
  · rw [slotMap_frees]
    exact if_neg fun hme => hs (hT s hme)

theorem slotMap_give (cm : ClusterManager) (q j s : Nat) : (cm.giveSlot q j).slotMap s = if s = j then some q else cm.slotMap s := by
  unfold giveSlot
  rw [slotMap_gain]
  split
  · rfl
  · split
    · split <;> rfl
    · rfl

theorem Allocated.holds_setSlot (h : cm.Allocated) {slot : Nat} {sub target : Bytes} (hok : cm.setSlot slot sub target = .ok cm')
    (hT : ∀ q, sub = lit "NODE" → cm.nodes.lookup target = some q → (cm.heap q).id ≠ cm.selfNode.id → T slot) : Holds T cm cm' := by
  obtain ⟨-, hsa | ⟨hn, q, hq, hsa⟩⟩ := setSlot_ok hok
  · exact .sameTables h hsa
  have hg : Holds T cm (cm.giveSlot q slot) := by
    refine .slotsOnly h (slotsOnly_give cm q slot) (fun s q' hq' => ?_) fun s hs => ?_
    · rw [slotMap_give] at hq'
      split at hq'
      · cases hq'
        exact .inr (h.nodes _ _ hq)
      · exact .inl hq'
    · rw [slotMap_give]
      split
      · rename_i hsl
        refine .inr ⟨q, rfl, ?_⟩
        by_contra hid
        exact hs (hsl ▸ hT q hn hq hid)
      · exact .inl rfl
  exact hg.trans (.sameTables hg.allocated hsa)

theorem Allocated.holds_removeNode (h : cm.Allocated) {nodeID : Bytes} (hok : cm.removeNode nodeID = .ok cm')
    (hT : ∀ q, cm.nodes.lookup nodeID = some q → ∀ s, cm.slotMap s = some q → T s) : Holds T cm cm' := by
  obtain ⟨-, target, hq, rfl⟩ := removeNode_ok hok
  refine ⟨⟨h.self, fun k q hk => h.nodes k q (lookup_erase_some.1 hk).2, fun j q hj => ?_⟩, rfl, ?_⟩
  · dsimp only at hj
    split at hj
    · cases hj
    · exact h.slots j q hj
  · rintro s hs ⟨q, hq', hid⟩
    refine ⟨q, ?_, hid⟩
    dsimp only
    rw [if_neg fun hc => hs (hT target hq s hc.2)]
    exact hq'

theorem Allocated.holds_replicate (h : cm.Allocated) {masterID : Bytes} (hok : cm.replicate masterID = .ok cm') (hT : ∀ s, T s) : Holds T cm cm' := by
  obtain rfl := replicate_ok hok
  refine ⟨h.congr rfl rfl rfl fun j q hj => .inl ?_, rfl, fun s hs => absurd (hT s) hs⟩
  dsimp only at hj
  split at hj
  · cases hj
  · exact hj

theorem Allocated.holds_reset (h : cm.Allocated) (hT : ∀ s, T s) : Holds T cm cm.reset := by
  refine ⟨⟨h.self, fun k q hk => ?_, fun _ _ hj => nomatch hj⟩, rfl, fun s hs => absurd (hT s) hs⟩
  rw [(lookup_insert_empty.1 hk).2]
  exact h.self

theorem Allocated.holds_gain (h : cm.Allocated) (hs : SlotsOnly cm cm') (hm : cm'.slotMap = cm.slotMap) (j : Nat) :
    Holds T cm (cm'.gainSlot cm.self j) := by
  refine .slotsOnly h (hs.trans (slotsOnly_gain _ _ _)) (fun s q hq => ?_) fun s _ => ?_
  · rw [slotMap_gain, hm] at hq
    split at hq
    · cases hq
      exact .inr h.self
    · exact .inl hq
  · rw [slotMap_gain, hm]
    split
    · exact .inr ⟨cm.self, rfl, rfl⟩
    · exact .inl rfl

theorem Allocated.holds_takeOver (h : cm.Allocated) (failedMasterID : Bytes) (j : Nat) : Holds T cm (takeOver failedMasterID cm j) := by
  unfold takeOver
  split
  · split_ifs
    · exact h.holds_gain (slotsOnly_lose cm _ j) rfl j
    · exact h.holds_gain (.refl cm) rfl j
    · exact .refl h
  · split_ifs
    · exact h.holds_gain (.refl cm) rfl j
    · exact .refl h

theorem Allocated.holds_promoted (h : cm.Allocated) (failedMasterID : Bytes) : Holds T cm (cm.promoted failedMasterID) := by
  have ha : ∀ (l : List Nat) (cm : ClusterManager), cm.Allocated → Holds T cm (l.foldl (takeOver failedMasterID) cm) := by
    intro l
    induction l with
    | nil => exact fun cm h => .refl h
    | cons j l ih =>
      intro cm h
      have ht : Holds T cm (takeOver failedMasterID cm j) := h.holds_takeOver failedMasterID j
      exact ht.trans (ih _ ht.allocated)
  unfold ClusterManager.promoted
  have hr : Holds T cm (cm.setNode cm.self fun n => { n with role := .master, masterID := "-" }) := by
    have hid : ∀ q, ((cm.setNode cm.self fun n => { n with role := .master, masterID := "-" }).heap q).id = (cm.heap q).id := by
      intro q
      rw [heap_setNode]
      split <;> rfl
    refine ⟨h.congr rfl rfl rfl fun _ _ hq => .inl hq, rfl, ?_⟩
    rintro s - ⟨q, hq, hqi⟩
    exact ⟨q, hq, ((hid q).trans hqi).trans (hid cm.self).symm⟩
  exact hr.trans (ha _ _ hr.allocated)

theorem Allocated.ids_receive (h : cm.Allocated) (r : Readings) (seed : NodeSeed) (p : BusPacket) :
    (cm.receive r seed p).enabled = cm.enabled ∧ (cm.receive r seed p).self = cm.self ∧
      ∀ q, q < cm.next → ((cm.receive r seed p).heap q).id = (cm.heap q).id := by
  have hr := h.registerSender r seed p
  have he : (cm.registerSender r seed p).2.enabled = cm.enabled := by
    unfold ClusterManager.registerSender
    split <;> rfl
  rw [receive_eq]
  generalize cm.registerSender r seed p = x at *
  obtain ⟨sender, cm₁⟩ := x
  have hg := sameTables_greet cm₁ r p sender
  split
  · have hs : SlotsOnly (cm₁.greet r p sender) ((cm₁.greet r p sender).syncSlots sender p) := by
      unfold ClusterManager.syncSlots
      exact .foldl (fun cm s => slotsOnly_claim cm sender p s) _ _
    refine ⟨?_, (hs.self.trans hg.self).trans hr.self, fun q hq => ?_⟩
    · rw [hs.rest]
      exact hg.enabled.trans he
    · rw [hs.id, hg.id, hr.heap q hq]
  · exact ⟨hg.enabled.trans he, hg.self.trans hr.self, fun q hq => by rw [hg.id, hr.heap q hq]⟩

end ClusterManager

/-- A bus event that takes a slot of the node itself: the packet of another master that claims it, with an epoch that is
not below the node's own. -/
def BusEvent.Takes (cm : ClusterManager) (s : Nat) : BusEvent → Prop
  | packet _ seed p => ∃ q, cm.slotMap s = some q ∧ (cm.heap q).id = cm.selfNode.id ∧ cm.Moves seed p s q
  | _ => False

open ClusterManager in
theorem BusEvent.holds {ev : BusEvent} {cm cm' : ClusterManager} (h : cm.Allocated) (hstep : ClusterManager.step ev.op cm = some cm') :
    Holds (fun s => 16384 ≤ s ∨ ev.Takes cm s) cm cm' := by
  cases ev with
  | packet r seed p =>
    obtain ⟨resp, hok⟩ := ok_of_step hstep
    obtain ⟨he, hse, hid⟩ := h.ids_receive r seed p
    have hr : Holds (fun s => 16384 ≤ s ∨ BusEvent.Takes cm s (.packet r seed p)) cm (cm.receive r seed p) := by
      refine ⟨h.receive r seed p, he, ?_⟩
      rintro s hs ⟨q, hq, hqi⟩
      obtain ⟨hlt, ht⟩ := not_or.1 hs
      rcases h.moves r seed p (not_le.1 hlt) hq with ⟨hk, -⟩ | ⟨-, -, hm⟩
      · refine ⟨q, hk, ?_⟩
        rw [selfNode, hse, hid q (h.slots s q hq), hid cm.self h.self]
        exact hqi
      · exact absurd ⟨q, hq, hqi, hm⟩ ht
    exact hr.trans (.sameTables hr.allocated (sameTables_processPacket hok))
  | heartbeat ω =>
    obtain ⟨beat, hok⟩ := ok_of_step hstep
    exact .sameTables h (sameTables_heartbeatStep hok)
  | election failedMasterID =>
    obtain ⟨el, hok⟩ := ok_of_step hstep
    exact .sameTables h (sameTables_startElection hok)
  | promotion r failedMasterID =>
    obtain ⟨ann, hok⟩ := ok_of_step hstep
    rcases promoteReplica_cases hok with heq | ⟨-, heq⟩
    · cases heq
      exact .refl h
    · cases heq
      exact h.holds_promoted failedMasterID

/-! ### `CLUSTER` -/

def Readings.MeetSound (r : Readings) : Prop :=
  ∀ cm ip port busPort cm', r.meet cm ip port busPort = .ok cm' → cm.Allocated → cm'.Allocated ∧ cm'.enabled = cm.enabled

/-- A subcommand of `CLUSTER` that takes a slot of the node itself. -/
def ClusterManager.Cedes (rt : Runtime) (r : Readings) (cm : ClusterManager) (args : List Bytes) : ClusterSub → Nat → Prop
  | .meet, s => ∃ ip port busPort cm', r.meet cm ip port busPort = .ok cm' ∧ ¬ cm'.Owns s
  | .delslots, s => ∃ slots, parseSlots args = .ok slots ∧ s ∈ slots
  | .setslot, s => ∃ slot action opts, args = slot :: action :: opts ∧ parseSlot slot = .ok s ∧
      toUpper rt.unicode (toUpper rt.unicode action) = lit "NODE" ∧
      ∃ q, cm.nodes.lookup (opts.headD []) = some q ∧ (cm.heap q).id ≠ cm.selfNode.id
  | .forget, s => ∃ id rest q, args = id :: rest ∧ cm.nodes.lookup id = some q ∧ cm.slotMap s = some q
  | .replicate, _ | .reset, _ => True
  | _, _ => False

def DispatchEvent.Takes (rt : Runtime) (d : DispatchEvent) (s : Nat) : Prop :=
  Cmd.ofName d.cmd = .cluster ∧ ∃ cm name args sub, d.before.cluster = some cm ∧ d.args = name :: args ∧
    ClusterSub.ofName (toUpper rt.unicode name) = some sub ∧ cm.Cedes rt (d.env []) args sub s

section

variable {rt : Runtime} {r : Readings} {e e' : Engine} {cm cm' : ClusterManager} {T : Nat → Prop} {v : Value} {w : Bool} {args : List Bytes}

structure ClusterHolds (T : Nat → Prop) (e e' : Engine) : Prop where
  absent : e.cluster = none → e'.cluster = none
  present : ∀ cm, e.cluster = some cm → cm.Allocated → ∃ cm', e'.cluster = some cm' ∧ cm.Holds T cm'

theorem ClusterHolds.of_eq (h : e'.cluster = e.cluster) : ClusterHolds T e e' :=
  ⟨fun hn => h.trans hn, fun cm hcm ha => ⟨cm, h.trans hcm, .refl ha⟩⟩

theorem ClusterHolds.change {x : Except Bytes ClusterManager} (hcm : e.cluster = some cm) (hx : ∀ cm', x = .ok cm' → cm.Allocated → cm.Holds T cm')
    (h : changeCluster e x = .ok (v, w, e')) : ClusterHolds T e e' := by
  cases x with
  | error m =>
    cases h
    exact .of_eq rfl
  | ok cm₁ =>
    cases h
    refine ⟨fun hn => (nomatch hcm.symm.trans hn), fun cm₀ h₀ ha => ⟨cm₁, rfl, ?_⟩⟩
    cases hcm.symm.trans h₀
    exact hx cm₁ rfl ha

theorem clusterHolds_clusterCommand {sub : ClusterSub} (hcm : e.cluster = some cm) (hm : r.MeetSound)
    (h : clusterCommand rt r e cm args sub = .ok (v, w, e')) : ClusterHolds (cm.Cedes rt r args sub) e e' := by
  cases sub with
  | meet =>
    simp only [clusterCommand] at h
    repeat' split at h
    all_goals first
      | (cases h; exact .of_eq rfl)
      | skip
    refine .change hcm (fun cm' hok ha => ?_) h
    generalize hx : r.meet _ _ _ _ = x at hok
    cases x with
    | error m => cases hok
    | ok cm₁ =>
      cases hok
      obtain ⟨hal, hen⟩ := hm _ _ _ _ _ hx ha
      refine ⟨hal, hen, fun s hs _ => ?_⟩
      by_contra hno
      exact hs ⟨_, _, _, _, hx, hno⟩
  | addslots =>
    simp only [clusterCommand] at h
    split at h
    · cases h; exact .of_eq rfl
    · refine .change hcm (fun cm' hok ha => ?_) h
      obtain ⟨slots, -, had⟩ := Except.bind_eq_ok hok
      exact ha.holds_addSlots had
  | delslots =>
    simp only [clusterCommand] at h
    split at h
    · cases h; exact .of_eq rfl
    · refine .change hcm (fun cm' hok ha => ?_) h
      obtain ⟨slots, hsl, hdel⟩ := Except.bind_eq_ok hok
      exact ha.holds_delSlots hdel fun s hs => ⟨slots, hsl, hs⟩
  | setslot =>
    simp only [clusterCommand] at h
    split at h
    · rename_i slot action opts
      refine .change hcm (fun cm' hok ha => ?_) h
      obtain ⟨n, hn, hset⟩ := Except.bind_eq_ok hok
      exact ha.holds_setSlot hset fun q hnd hq hid => ⟨slot, action, opts, rfl, hn, hnd, q, hq, hid⟩
    · cases h; exact .of_eq rfl
  | forget =>
    simp only [clusterCommand] at h
    split at h
    · rename_i id rest
      exact .change hcm (fun cm' hok ha => ha.holds_removeNode hok fun q hq s hs => ⟨id, rest, q, rfl, hq, hs⟩) h
    · cases h; exact .of_eq rfl
  | replicate =>
    simp only [clusterCommand] at h
    split at h
    · exact .change hcm (fun cm' hok ha => ha.holds_replicate hok fun _ => trivial) h
    · cases h; exact .of_eq rfl
  | reset =>
    simp only [clusterCommand] at h
    refine .change hcm (fun cm' hok ha => ?_) h
    cases hok
    exact ha.holds_reset fun _ => trivial
  | saveconfig =>
    simp only [clusterCommand] at h
    split at h <;> cases h <;> exact .of_eq rfl
  | _ =>
    cases h
    exact .of_eq rfl

theorem ClusterHolds.mono {T' : Nat → Prop} (hT : ∀ s, T s → T' s) (h : ClusterHolds T e e') : ClusterHolds T' e e' := by
  refine ⟨h.absent, fun cm hcm ha => ?_⟩
  obtain ⟨cm', hc, hh⟩ := h.present cm hcm ha
  exact ⟨cm', hc, hh.allocated, hh.enabled, fun s hs => hh.owns s fun ht => hs (hT s ht)⟩

theorem clusterHolds_handle (hm : r.MeetSound)
    (hT : ∀ cm name rest sub s, e.cluster = some cm → args = name :: rest → ClusterSub.ofName (toUpper rt.unicode name) = some sub →
      cm.Cedes rt r rest sub s → T s)
    (h : handleClusterCommand rt r e args = .ok (v, w, e')) : ClusterHolds T e e' := by
  cases args with
  | nil => cases h; exact .of_eq rfl
  | cons name args =>
    simp only [handleClusterCommand] at h
    cases hsu : ClusterSub.ofName (toUpper rt.unicode name) with
    | none => rw [hsu] at h; cases h; exact .of_eq rfl
    | some sub =>
      rw [hsu] at h
      cases sub with
      | keyslot | countkeysinslot | getkeysinslot =>
        dsimp only at h
        repeat' split at h
        all_goals
          cases h
          exact .of_eq rfl
      | _ =>
        cases hcm : e.cluster with
        | none =>
          rw [hcm] at h
          cases h
          exact .of_eq rfl
        | some cm =>
          rw [hcm] at h
          exact (clusterHolds_clusterCommand hcm hm h).mono fun s hs => hT cm name args _ s hcm rfl hsu hs

theorem DispatchEvent.Leads.clusterHolds {d : DispatchEvent} (h : d.Leads rt e') (hm : (d.env []).MeetSound) :
    ClusterHolds (d.Takes rt) d.before e' := by
  obtain ⟨v, w, e₁, hr, hfi⟩ := h
  have hf : e'.cluster = e₁.cluster := by
    obtain ⟨_, _, _, rfl | rfl⟩ := finish_shape hfi <;> rfl
  have hd : ClusterHolds (d.Takes rt) d.before e₁ := by
    by_cases hda : ∃ c, Cmd.ofName d.cmd = .data c
    · obtain ⟨c, hc⟩ := hda
      rw [(dispatch_data_eq hc hr).2]
      exact .of_eq rfl
    by_cases hc : Cmd.ofName d.cmd = .cluster
    · have hh : handleClusterCommand rt (d.env []) d.before d.args = .ok (v, w, e₁) := by
        simpa only [DispatchEvent.result, dispatch, hc] using hr
      exact clusterHolds_handle hm (fun cm name rest sub s hcm har hs hce => ⟨hc, cm, name, rest, sub, hcm, har, hs, hce⟩) hh
    · exact .of_eq ((dispatch_effect (fun c hc => hda ⟨c, hc⟩) hr).cluster hc)
  exact ⟨fun hn => hf.trans (hd.absent hn), fun cm hcm ha => by rw [hf]; exact hd.present cm hcm ha⟩

end

end VortexKV
