import VortexKV.Trace
import Mathlib.Logic.Relation

/-!
# The table of client sessions

The part of the engine that WATCH, MULTI and AUTH work on. `ClientStep own` lists what a command of the
connection `own` can do to it, one constructor per kind of change; every invariant of the table and every
statement about another connection's session is proved once, over these.
-/

namespace VortexKV

open Finmap Function

variable {id : Bytes} {q p : Nat}

structure Clients where
  sessions : Nat → ClientSession
  nextSession : Nat
  clientSessions : GoMap Nat
  watchedCount : Int

def Engine.clients (e : Engine) : Clients := ⟨e.sessions, e.nextSession, e.clientSessions, e.watchedCount⟩

namespace Clients

variable (t : Clients)

def session? (id : Bytes) : Option ClientSession := (t.clientSessions.lookup id).map t.sessions

def watched (id : Bytes) : Finset Bytes := (t.session? id).elim ∅ ClientSession.watchedKeys

def watchers : Finset Bytes := t.clientSessions.keys.filter fun id => t.watched id ≠ ∅

/-- No session is shared, new sessions are new, and the counter counts the watchers. -/
structure Ok : Prop where
  inj : ∀ {id id' : Bytes} {p : Nat}, t.clientSessions.lookup id = some p →
    t.clientSessions.lookup id' = some p → id = id'
  lt : ∀ {id : Bytes} {p : Nat}, t.clientSessions.lookup id = some p → p < t.nextSession
  count : t.watchedCount = t.watchers.card

/-- Whether a session watches, as the counter counts it. -/
def weight (s : ClientSession) : Int := if s.watchedKeys = ∅ then 0 else 1

/-- A session is replaced and the counter follows. -/
def replace (p : Nat) (s : ClientSession) : Clients :=
  { t with
    sessions := Function.update t.sessions p s
    watchedCount := t.watchedCount - weight (t.sessions p) + weight s }

end Clients

/-- What a command of connection `own` can do to the table; `rel` says whether it may end a watch. -/
inductive ClientStep (own : Bytes) (rel : Prop) : Clients → Clients → Prop
  | login {t : Clients} (s : ClientSession) (hnew : t.clientSessions.lookup own = none)
      (hs : s.watchedKeys = ∅) :
      ClientStep own rel t ⟨Function.update t.sessions t.nextSession s, t.nextSession + 1,
        t.clientSessions.insert own t.nextSession, t.watchedCount⟩
  | change {t : Clients} {p : Nat} (s : ClientSession) (hp : t.clientSessions.lookup own = some p)
      (ha : s.txAborted = (t.sessions p).txAborted) (hw : (t.sessions p).watchedKeys ⊆ s.watchedKeys) :
      ClientStep own rel t (t.replace p s)
  | release {t : Clients} {p : Nat} (hr : rel) (s : ClientSession) (hp : t.clientSessions.lookup own = some p) :
      ClientStep own rel t (t.replace p s)
  | touch {t : Clients} (key : Bytes) :
      ClientStep own rel t { t with sessions := fun p =>
        if key ∈ (t.sessions p).watchedKeys ∧ ∃ id ∈ t.clientSessions.keys, t.clientSessions.lookup id = some p
        then { t.sessions p with txAborted := true } else t.sessions p }

abbrev ClientSteps (own : Bytes) (rel : Prop) : Clients → Clients → Prop :=
  Relation.ReflTransGen (ClientStep own rel)

/-! ### Other connections -/

/-- What stays of a connection's session while others run. -/
structure Unaffected (s s' : ClientSession) : Prop where
  authenticated : s'.authenticated = s.authenticated
  username : s'.username = s.username
  inMulti : s'.inMulti = s.inMulti
  txQueue : s'.txQueue = s.txQueue
  watchedKeys : s'.watchedKeys = s.watchedKeys
  txAborted : s.txAborted = true → s'.txAborted = true

theorem Unaffected.of_eq {s s' : ClientSession} (h : s' = s) : Unaffected s s' := by
  subst h; exact ⟨rfl, rfl, rfl, rfl, rfl, id⟩

theorem Unaffected.trans {s s' s'' : ClientSession} (h : Unaffected s s') (h' : Unaffected s' s'') :
    Unaffected s s'' :=
  ⟨h'.authenticated.trans h.authenticated, h'.username.trans h.username, h'.inMulti.trans h.inMulti,
    h'.txQueue.trans h.txQueue, h'.watchedKeys.trans h.watchedKeys, fun ha => h'.txAborted (h.txAborted ha)⟩

section

variable {own : Bytes} {rel : Prop} {t t' : Clients}

theorem ClientStep.mono {rel' : Prop} (hr : rel → rel') (h : ClientStep own rel t t') :
    ClientStep own rel' t t' := by
  cases h with
  | login s hn hs => exact .login s hn hs
  | change s hp ha hw => exact .change s hp ha hw
  | release h s hp => exact .release (hr h) s hp
  | touch key => exact .touch key

theorem ClientSteps.mono {rel' : Prop} (hr : rel → rel') (h : ClientSteps own rel t t') :
    ClientSteps own rel' t t' := Relation.ReflTransGen.mono (fun _ _ => ClientStep.mono hr) _ _ h

/-- Another connection keeps its session, and all of it but the abort flag keeps its value. -/
theorem ClientStep.others (h : ClientStep own rel t t') (ht : t.Ok) (hid : id ≠ own)
    (hq : t.clientSessions.lookup id = some q) :
    t'.clientSessions.lookup id = some q ∧ Unaffected (t.sessions q) (t'.sessions q) := by
  have hne : ∀ {p : Nat}, t.clientSessions.lookup own = some p → q ≠ p := fun hp heq =>
    hid (ht.inj hq (heq ▸ hp))
  cases h with
  | login s hn hs =>
    exact ⟨by rw [lookup_insert_of_ne _ hid]; exact hq,
      .of_eq (update_of_ne (ht.lt hq).ne _ _)⟩
  | change s hp => exact ⟨hq, .of_eq (update_of_ne (hne hp) _ _)⟩
  | release hr s hp => exact ⟨hq, .of_eq (update_of_ne (hne hp) _ _)⟩
  | touch key =>
    refine ⟨hq, ?_⟩
    dsimp only
    split
    · exact ⟨rfl, rfl, rfl, rfl, rfl, fun _ => rfl⟩
    · exact .of_eq rfl

/-! ### The invariant -/

theorem Clients.mem_watchers : id ∈ t.watchers ↔ t.watched id ≠ ∅ := by
  rw [Clients.watchers, Finset.mem_filter, and_iff_right_iff_imp, Clients.watched, Clients.session?]
  intro h
  cases hl : t.clientSessions.lookup id with
  | none => rw [hl] at h; exact absurd rfl h
  | some p => exact mem_keys.2 (mem_iff.2 ⟨p, hl⟩)

theorem Clients.watched_of_lookup (h : t.clientSessions.lookup id = some p) :
    t.watched id = (t.sessions p).watchedKeys := by
  simp [Clients.watched, Clients.session?, h]

theorem Clients.card_watchers (own : Bytes) (h : ∀ id, id ≠ own → t'.watched id = t.watched id) :
    (t'.watchers.card : Int) = t.watchers.card - (if t.watched own = ∅ then 0 else 1) +
      (if t'.watched own = ∅ then 0 else 1) := by
  have hc : ∀ t : Clients, (t.watchers.card : Int) = (t.watchers.erase own).card +
      if t.watched own = ∅ then 0 else 1 := by
    intro t
    split
    · rename_i he
      rw [Finset.erase_eq_of_notMem (fun hm => Clients.mem_watchers.1 hm he)]; simp
    · rename_i he
      rw [← Finset.card_erase_add_one (Clients.mem_watchers.2 he)]; simp
  have her : t'.watchers.erase own = t.watchers.erase own := by
    ext id
    simp only [Finset.mem_erase, Clients.mem_watchers]
    exact and_congr_right fun hid => by rw [h id hid]
  rw [hc t', hc t, her]
  ring

theorem Clients.Ok.replace (ht : t.Ok) (hp : t.clientSessions.lookup own = some p)
    (s : ClientSession) : (t.replace p s).Ok := by
  refine ⟨ht.inj, ht.lt, ?_⟩
  have how : (t.replace p s).watched own = s.watchedKeys := by
    rw [Clients.watched_of_lookup (t := t.replace p s) (p := p) hp]; simp [Clients.replace]
  have ho : ∀ id, id ≠ own → (t.replace p s).watched id = t.watched id := by
    intro id hid
    cases hl : t.clientSessions.lookup id with
    | none => simp [Clients.watched, Clients.session?, Clients.replace, hl]
    | some q =>
      have hne : q ≠ p := by
        rintro rfl
        exact hid (ht.inj hl hp)
      rw [Clients.watched_of_lookup (t := t.replace p s) hl, Clients.watched_of_lookup hl,
        show (t.replace p s).sessions q = t.sessions q from update_of_ne hne _ _]
  rw [Clients.card_watchers own ho, how, Clients.watched_of_lookup hp, ← ht.count]
  rfl

theorem ClientStep.ok (h : ClientStep own rel t t') (ht : t.Ok) : t'.Ok := by
  have hco : ∀ {t' : Clients}, t'.watchedCount = t.watchedCount → (∀ id, t'.watched id = t.watched id) →
      t'.watchedCount = t'.watchers.card := by
    intro t' hc hw
    rw [hc, ht.count, Clients.card_watchers own (fun id _ => hw id), hw own]
    ring
  cases h with
  | login s hn hs =>
    have hlo : ∀ {id : Bytes} {p : Nat}, (t.clientSessions.insert own t.nextSession).lookup id = some p →
        id = own ∧ p = t.nextSession ∨ t.clientSessions.lookup id = some p := by
      intro id p h
      by_cases hid : id = own
      · subst hid
        rw [lookup_insert] at h
        exact .inl ⟨rfl, (Option.some.inj h).symm⟩
      · rw [lookup_insert_of_ne _ hid] at h
        exact .inr h
    refine ⟨fun h h' => ?_, fun h => ?_, hco rfl fun id => ?_⟩
    · rcases hlo h with ⟨rfl, rfl⟩ | h₁ <;> rcases hlo h' with ⟨rfl, h₂⟩ | h₂
      · rfl
      · exact absurd (ht.lt h₂) (lt_irrefl _)
      · exact absurd (ht.lt h₁) (by omega)
      · exact ht.inj h₁ h₂
    · rcases hlo h with ⟨-, rfl⟩ | h
      · exact Nat.lt_succ_self _
      · exact Nat.lt_succ_of_lt (ht.lt h)
    · by_cases hid : id = own
      · subst hid
        simp [Clients.watched, Clients.session?, hn, hs]
      · simp only [Clients.watched, Clients.session?, lookup_insert_of_ne _ hid]
        cases hl : t.clientSessions.lookup id with
        | none => rfl
        | some q => simp [update_of_ne (ht.lt hl).ne]
  | change s hp => exact ht.replace hp s
  | release hr s hp => exact ht.replace hp s
  | touch key =>
    refine ⟨ht.inj, ht.lt, hco rfl fun id => ?_⟩
    simp only [Clients.watched, Clients.session?]
    cases t.clientSessions.lookup id with
    | none => rfl
    | some q =>
      dsimp only [Option.map_some, Option.elim_some]
      split <;> rfl

theorem ClientSteps.ok (h : ClientSteps own rel t t') (ht : t.Ok) : t'.Ok := by
  induction h with
  | refl => exact ht
  | tail _ hstep ih => exact hstep.ok ih

theorem ClientSteps.others (h : ClientSteps own rel t t') (ht : t.Ok) (hid : id ≠ own)
    (hq : t.clientSessions.lookup id = some q) :
    t'.clientSessions.lookup id = some q ∧ Unaffected (t.sessions q) (t'.sessions q) := by
  induction h with
  | refl => exact ⟨hq, .of_eq rfl⟩
  | tail hs hstep ih =>
    have hn := hstep.others (ClientSteps.ok hs ht) hid ih.1
    exact ⟨hn.1, ih.2.trans hn.2⟩

theorem ClientStep.keeps (h : ClientStep own rel t t')
    (hq : t.clientSessions.lookup id = some q) : t'.clientSessions.lookup id = some q := by
  cases h with
  | login s hn hs =>
    have hid : id ≠ own := by
      rintro rfl
      rw [hq] at hn
      cases hn
    rw [lookup_insert_of_ne _ hid]
    exact hq
  | change s hp => exact hq
  | release hr s hp => exact hq
  | touch key => exact hq

theorem ClientSteps.keeps (h : ClientSteps own rel t t')
    (hq : t.clientSessions.lookup id = some q) : t'.clientSessions.lookup id = some q := by
  induction h with
  | refl => exact hq
  | tail _ hstep ih => exact hstep.keeps ih

theorem Clients.Ok.singleton (hid : t.clientSessions = Finmap.singleton id p)
    (hp : p < t.nextSession) (hw : (t.sessions p).watchedKeys = ∅) (hc : t.watchedCount = 0) : t.Ok := by
  have hlo : ∀ {id' q}, t.clientSessions.lookup id' = some q → id' = id ∧ q = p := by
    intro id' q h
    have hm : id' ∈ t.clientSessions := mem_iff.2 ⟨q, h⟩
    rw [hid, mem_singleton] at hm
    rw [hid, hm, lookup_singleton_eq] at h
    exact ⟨hm, (Option.some.inj h).symm⟩
  refine ⟨fun h h' => (hlo h).1.trans (hlo h').1.symm, fun h => (hlo h).2 ▸ hp, ?_⟩
  have hn : t.watchers = ∅ := Finset.eq_empty_of_forall_notMem fun id' hi => by
    rw [Clients.mem_watchers, Clients.watched, Clients.session?] at hi
    cases hl : t.clientSessions.lookup id' with
    | none => rw [hl] at hi; exact hi rfl
    | some q =>
      rw [hl, (hlo hl).2] at hi
      exact hi hw
  rw [hn]
  exact hc

theorem Clients.Ok.clear {e : Engine} (hok : e.clients.Ok) (own : Bytes) : (e.clearClientSession own).clients.Ok := by
  unfold Engine.clearClientSession
  cases hl : e.clientSessions.lookup own with
  | none => exact hok
  | some p =>
    have he : ∀ {id q}, (e.clientSessions.erase own).lookup id = some q →
        id ≠ own ∧ e.clientSessions.lookup id = some q := by
      intro id q h
      have hid : id ≠ own := by
        rintro rfl
        rw [lookup_erase] at h
        cases h
      exact ⟨hid, by rwa [lookup_erase_ne hid] at h⟩
    refine ⟨fun h h' => hok.inj (he h).2 (he h').2, fun h => hok.lt (he h).2, ?_⟩
    rw [Clients.card_watchers (t := e.clients) own, ← hok.count, Clients.watched_of_lookup (t := e.clients) hl]
    · simp only [Clients.watched, Clients.session?, Engine.clients, lookup_erase]
      split_ifs <;> simp_all
    · intro id hid
      simp only [Clients.watched, Clients.session?, Engine.clients, lookup_erase_ne hid]

end

end VortexKV
