import VortexKV.Containers
import VortexKV.Proofs.SortedSet
import Mathlib.Algebra.BigOperators.Group.Finset.Basic

/-!
# Containers created by several clients at once

Clients run commands that create a container, all on one key that is missing. With `GetOrCreate` they only add to what
is there (`created_kept`); with `Get` and `Set` one may replace what another has filled in between (`xadd_entry_lost`).
-/

namespace VortexKV

open KeyedStore Threads List

variable {p : Creation} {all pairs : List Bytes}

/-! ### What a command adds -/

def memberOrder : List Bytes → List Bytes
  | _ :: m :: rest => m :: memberOrder rest
  | _ => []

/-- The container holds what the command has added when it was answered with `v`. -/
def Creation.HeldIn (v : Value) : Creation → Datum → Prop
  | xadd _ fields _, .stream s => ∃ e ∈ s.entries, v = .bulkString e.id ∧ e.fields = Hash.ofPairs fields ∅ ∧
      e.order = fieldOrder fields
  | vadd id _, .vector ix => id ∈ ix.vectors
  | push _ x xs, .list l => ∀ y ∈ x :: xs, y ∈ l
  | sadd m ms, .set s => ∀ y ∈ m :: ms, y ∈ s
  | hset pairs, .hash h => ∀ f ∈ fieldOrder pairs, f ∈ h
  | zadd pairs, .zset z => ∀ m ∈ memberOrder pairs, m ∈ z.dict
  | xgroup group _, .stream s => group ∈ s.groups
  | _, _ => False

def Creation.pushed (x : Bytes) : Creation → Nat
  | push _ v vs => (v :: vs).count x
  | _ => 0

def listCount (x : Bytes) : Option Datum → Nat
  | some (.list l) => l.count x
  | _ => 0

def Heap.stored (k : Bytes) (h : Heap) : Option Datum :=
  (h.slots.entries.lookup k).bind fun sl => if sl.expiresAt = 0 then h.objects[sl.ref]? else none

def Heap.Missing (t : Int) (k : Bytes) (h : Heap) : Prop :=
  ∀ sl, h.slots.entries.lookup k = some sl → sl.isExpired t = true

/-! ### Growing containers -/

/-- How often a container holds an element, a field or a member. -/
def Datum.amount (x : Bytes) : Datum → Nat
  | list l => l.count x
  | set s => if x ∈ s then 1 else 0
  | hash m => if x ∈ m then 1 else 0
  | zset z => if x ∈ z.dict then 1 else 0
  | _ => 0

/-- A container of the same type with at least as much in it. -/
structure Datum.Grown (d d' : Datum) : Prop where
  type : d'.type = d.type
  amount : ∀ x, d.amount x ≤ d'.amount x

theorem Datum.Grown.refl (d : Datum) : d.Grown d := ⟨rfl, fun _ => le_rfl⟩

theorem Datum.Grown.trans {a b c : Datum} (h₁ : a.Grown b) (h₂ : b.Grown c) : a.Grown c :=
  ⟨h₂.type.trans h₁.type, fun x => (h₁.amount x).trans (h₂.amount x)⟩

theorem Datum.of_type (d : Datum) : (d.type = lit "list" → ∃ l, d = .list l) ∧ (d.type = lit "set" → ∃ s, d = .set s) ∧
    (d.type = lit "hash" → ∃ m, d = .hash m) ∧ (d.type = lit "zset" → ∃ z, d = .zset z) := by
  cases d <;> refine ⟨?_, ?_, ?_, ?_⟩ <;> intro h <;>
    first | exact ⟨_, rfl⟩ | exact absurd h (by simp only [Datum.type]; decide)

theorem Datum.Grown.listCount {d d' : Datum} (h : d.Grown d') (x : Bytes) : listCount x (some d) ≤ listCount x (some d') := by
  cases d with
  | list l =>
    obtain ⟨l', rfl⟩ := d'.of_type.1 h.type
    exact h.amount x
  | _ => exact Nat.zero_le _

namespace Creation

def names : Creation → List Bytes
  | push _ v vs => v :: vs
  | sadd m ms => m :: ms
  | hset pairs => fieldOrder pairs
  | zadd pairs => memberOrder pairs
  | _ => []

variable {p : Creation} {v : Value} {d d' : Datum}

theorem HeldIn.type (hp : p.splits = false) (h : p.HeldIn v d) : d.type = p.new.type := by
  cases p <;> cases hp <;> cases d <;> first | rfl | exact h.elim

theorem heldIn_iff (hp : p.splits = false) (hd : d.type = p.new.type) : p.HeldIn v d ↔ ∀ y ∈ p.names, 0 < d.amount y := by
  cases p with
  | xadd | vadd | xgroup => cases hp
  | push left x xs =>
    obtain ⟨l, rfl⟩ := d.of_type.1 hd
    simp only [HeldIn, names, Datum.amount, count_pos_iff]
  | sadd m ms =>
    obtain ⟨s, rfl⟩ := d.of_type.2.1 hd
    simp [HeldIn, names, Datum.amount, Nat.pos_iff_ne_zero]
  | hset pairs =>
    obtain ⟨m, rfl⟩ := d.of_type.2.2.1 hd
    simp [HeldIn, names, Datum.amount, Nat.pos_iff_ne_zero]
  | zadd pairs =>
    obtain ⟨z, rfl⟩ := d.of_type.2.2.2 hd
    simp [HeldIn, names, Datum.amount, Nat.pos_iff_ne_zero]

theorem HeldIn.grown (hp : p.splits = false) (h : p.HeldIn v d) (hd : d.Grown d') : p.HeldIn v d' := by
  have ht := h.type hp
  rw [heldIn_iff hp ht] at h
  rw [heldIn_iff hp (hd.type.trans ht)]
  exact fun y hy => (h y hy).trans_le (hd.amount y)

end Creation

def Heap.Ready (t : Int) (k : Bytes) (h : Heap) : Prop :=
  ∀ sl, h.slots.entries.lookup k = some sl → sl.isExpired t = true ∨ sl.expiresAt = 0 ∧ sl.ref < h.objects.length

/-- The container under the key stays, and no container loses anything. -/
structure Grows (t : Int) (k : Bytes) (h h' : Heap) : Prop where
  ready : h.Ready t k → h'.Ready t k
  slot : h.Ready t k → ∀ sl, h.slots.entries.lookup k = some sl → sl.expiresAt = 0 →
    ∃ sl', h'.slots.entries.lookup k = some sl' ∧ sl'.ref = sl.ref ∧ sl'.expiresAt = 0
  objects : ∀ (ref : Nat) (d : Datum), h.objects[ref]? = some d → ∃ d', h'.objects[ref]? = some d' ∧ d.Grown d'

section

variable {t now : Int} {k type : Bytes} {h h' h'' : Heap} {ref : Nat} {d : Datum} {names : List Bytes}

theorem Grows.refl (t : Int) (k : Bytes) (h : Heap) : Grows t k h h :=
  ⟨id, fun _ sl hsl he => ⟨sl, hsl, rfl, he⟩, fun _ d hd => ⟨d, hd, .refl d⟩⟩

theorem Grows.trans (h₁ : Grows t k h h') (h₂ : Grows t k h' h'') : Grows t k h h'' := by
  refine ⟨fun hr => h₂.ready (h₁.ready hr), fun hr sl hsl hep => ?_, fun ref d hd => ?_⟩
  · obtain ⟨sl', hl, hrf, hex⟩ := h₁.slot hr sl hsl hep
    obtain ⟨sl'', hs, hre, he⟩ := h₂.slot (h₁.ready hr) sl' hl hex
    exact ⟨sl'', hs, hre.trans hrf, he⟩
  · obtain ⟨d', hd', hgr⟩ := h₁.objects ref d hd
    obtain ⟨d'', hd'', hg⟩ := h₂.objects ref d' hd'
    exact ⟨d'', hd'', hgr.trans hg⟩

structure Heap.Linked (h : Heap) (k : Bytes) (ref : Nat) (type : Bytes) (names : List Bytes) (d : Datum) : Prop where
  slot : ∃ sl, h.slots.entries.lookup k = some sl ∧ sl.expiresAt = 0 ∧ sl.ref = ref
  object : h.objects[ref]? = some d
  type : d.type = type
  holds : ∀ y ∈ names, 0 < d.amount y

theorem Heap.Linked.stored (hl : h.Linked k ref type names d) : h.stored k = some d := by
  obtain ⟨sl, hsl, he, rfl⟩ := hl.slot
  rw [Heap.stored, hsl, Option.bind_some, if_pos he, hl.object]

theorem Heap.linked_of_stored (hd : h.stored k = some d) : ∃ ref, h.Linked k ref d.type [] d := by
  obtain ⟨sl, hsl, hif⟩ := Option.bind_eq_some_iff.1 hd
  split at hif
  · rename_i he
    exact ⟨sl.ref, ⟨sl, hsl, he, rfl⟩, hif, rfl, nofun⟩
  · cases hif

theorem Heap.Linked.ready (hl : h.Linked k ref type names d) : h.Ready t k := by
  obtain ⟨sl, hsl, he, rfl⟩ := hl.slot
  intro sl' hs
  rw [hsl] at hs
  obtain rfl := Option.some.inj hs
  exact .inr ⟨he, (List.getElem?_eq_some_iff.1 hl.object).1⟩

theorem Heap.Linked.grows (hl : h.Linked k ref type names d) (hg : Grows t k h h') :
    ∃ d', h'.Linked k ref type names d' ∧ d.Grown d' := by
  obtain ⟨sl, hsl, hex, rfl⟩ := hl.slot
  obtain ⟨sl', hs, hr, he⟩ := hg.slot hl.ready sl hsl hex
  obtain ⟨d', hd', hgr⟩ := hg.objects _ d hl.object
  exact ⟨d', ⟨⟨sl', hs, he, hr⟩, hd', hgr.type.trans hl.type, fun y hy => (hl.holds y hy).trans_le (hgr.amount y)⟩, hgr⟩

theorem Grows.stored (hg : Grows t k h h') (hd : h.stored k = some d) : ∃ d', h'.stored k = some d' ∧ d.Grown d' := by
  obtain ⟨ref, hl⟩ := Heap.linked_of_stored hd
  obtain ⟨d', hl', hgr⟩ := hl.grows hg
  exact ⟨d', hl'.stored, hgr⟩

theorem Grows.listCount (hg : Grows t k h h') (x : Bytes) :
    listCount x (h.stored k) ≤ listCount x (h'.stored k) := by
  cases hd : h.stored k with
  | none => exact Nat.zero_le _
  | some d =>
    obtain ⟨d', hd', hgr⟩ := hg.stored hd
    rw [hd']
    exact hgr.listCount x

/-! ### The keyspace operations -/

theorem Heap.Ready.live (hr : h.Ready t k) (ht : t ≤ now) :
    (h.live now k).1 = none ∨ ∃ sl, h.slots.entries.lookup k = some sl ∧ sl.expiresAt = 0 ∧ sl.ref < h.objects.length ∧
      h.live now k = (some sl, 0) := by
  rw [Heap.live]
  cases hsl : h.slots.entries.lookup k with
  | none => exact .inl rfl
  | some sl =>
    rcases hr sl hsl with he | ⟨he, hlt⟩
    · have : sl.isExpired now = true := by
        simp only [Slot.isExpired, Bool.and_eq_true, decide_eq_true_eq] at he ⊢
        omega
      exact .inl (by simp only [if_pos this])
    · have : ¬ sl.isExpired now = true := by simp [Slot.isExpired, he]
      exact .inr ⟨sl, rfl, he, hlt, if_neg this⟩

theorem Heap.Ready.getOrCreate (hr : h.Ready t k) (ht : t ≤ now) (new : Datum) : Grows t k h (h.getOrCreate k new now).2 ∧
    ∃ d, (h.getOrCreate k new now).2.Linked k (h.getOrCreate k new now).1.1 (h.getOrCreate k new now).1.2 [] d := by
  rw [Heap.getOrCreate]
  rcases hr.live ht with hn | ⟨sl, hsl, he, hlt, hli⟩
  · rw [hn]
    have hl : Heap.Linked ⟨h.slots.put k (some ⟨h.objects.length, 0, now⟩) ((h.live now k).2 + 1), h.objects ++ [new]⟩ k
        h.objects.length new.type [] new := ⟨⟨_, Store.lookup_put .., rfl, rfl⟩, by simp, rfl, nofun⟩
    refine ⟨⟨fun _ => hl.ready, fun _ sl hsl he => ?_, fun ref d hd => ⟨d, ?_, .refl d⟩⟩, new, hl⟩
    · have hli : (h.live now k).1 = some sl := by
        rw [Heap.live, hsl]
        simp [Slot.isExpired, he]
      rw [hn] at hli
      cases hli
    · exact (List.getElem?_append_left (List.getElem?_eq_some_iff.1 hd).1).trans hd
  · rw [hli]
    simp only [Option.bind_some, List.getElem?_eq_getElem hlt, Option.map_some]
    have hl : Heap.Linked { h with slots := h.slots.put k (some { sl with lastAccessedAt := now }) 0 } k sl.ref
        h.objects[sl.ref].type [] h.objects[sl.ref] :=
      ⟨⟨_, Store.lookup_put .., he, rfl⟩, List.getElem?_eq_getElem hlt, rfl, nofun⟩
    refine ⟨⟨fun _ => hl.ready, fun _ sl' hs hex => ?_, fun ref d hd => ⟨d, hd, .refl d⟩⟩, _, hl⟩
    rw [hsl] at hs
    obtain rfl := Option.some.inj hs
    exact ⟨_, Store.lookup_put .., rfl, hex⟩

theorem grows_set {d' : Datum} (hd : h.objects[ref]? = some d) (hg : d.Grown d') :
    Grows t k h { h with objects := h.objects.set ref d' } := by
  refine ⟨fun hr sl hsl => ?_, fun _ sl hsl he => ⟨sl, hsl, rfl, he⟩, fun ref' d₁ hd' => ?_⟩
  · simpa only [length_set] using hr sl hsl
  · by_cases hre : ref = ref'
    · subst hre
      rw [hd] at hd'
      obtain rfl := Option.some.inj hd'
      exact ⟨d', by simp [(List.getElem?_eq_some_iff.1 hd).1], hg⟩
    · exact ⟨d₁, by rw [List.getElem?_set_ne hre, hd'], .refl d₁⟩

/-! ### The commands -/

/-- The last action of a command that is answered with success: the container under the key holds what it has added. -/
def Adds (k : Bytes) (p : Creation) (o : Outcome) (h h' : Heap) : Prop := ∀ v, o = wrote v →
  (∃ d, h'.stored k = some d ∧ p.HeldIn v d) ∧
    (∀ x, listCount x (h.stored k) + p.pushed x ≤ listCount x (h'.stored k))

theorem fails_ne_wrote (e : Bytes) (v : Value) : fails e ≠ wrote v := fun h => Bool.noConfusion (Prod.mk.inj (Except.ok.inj h)).2

theorem adds_fails (p : Creation) (e : Bytes) (h h' : Heap) : Adds k p (fails e) h h' := fun v hv => absurd hv (fails_ne_wrote e v)

section Bodies

variable {rt : Runtime} {r : Readings}

theorem obeys_locked {α β : Type} {as : Datum → Option α} {f : α → β × Datum} {dflt : β} {g : β → HeapCode}
    (new : List Bytes) (hp : p.splits = false) (hli : h.Linked k ref p.new.type names d)
    (has : ∀ d, d.type = p.new.type → ∃ a, as d = some a)
    (hf : ∀ d a, as d = some a → d.Grown (f a).2 ∧ ∀ y ∈ new, 0 < (f a).2.amount y)
    (hc : ∀ d a x, as d = some a → listCount x (some d) + p.pushed x ≤ listCount x (some (f a).2))
    (hla : ∀ a v, g (f a).1 = .ret (wrote v) → ∀ y ∈ p.names, y ∈ new ++ names)
    (hn : ∀ h' a, h'.Linked k ref p.new.type (new ++ names) (f a).2 → (g (f a).1).Obeys (t ≤ ·) (Grows t k) (Adds k p) h') :
    (locked as ref f dflt >>= g).Obeys (t ≤ ·) (Grows t k) (Adds k p) h := by
  refine Code.obeys_atomic fun h' now _ hgr => ?_
  obtain ⟨d', hl', -⟩ := hli.grows hgr
  obtain ⟨a, ha⟩ := has d' hl'.type
  obtain ⟨hg, had⟩ := hf d' a ha
  have hu : h'.update ref (onType as f dflt) dflt = ((f a).1, { h' with objects := h'.objects.set ref (f a).2 }) := by
    simp only [Heap.update, hl'.object, onType, ha]
  have hl : Heap.Linked { h' with objects := h'.objects.set ref (f a).2 } k ref p.new.type (new ++ names) (f a).2 := by
    refine ⟨hl'.slot, by simp [(List.getElem?_eq_some_iff.1 hl'.object).1], hg.type.trans hl'.type, fun y hy => ?_⟩
    rcases mem_append.1 hy with hy | hy
    · exact had y hy
    · exact (hl'.holds y hy).trans_le (hg.amount y)
  rw [hu]
  refine ⟨grows_set hl'.object hg, fun o ho v hv => ?_, hn _ a hl⟩
  subst hv
  rw [hl'.stored, hl.stored]
  exact ⟨⟨_, rfl, (Creation.heldIn_iff hp hl.type).2 fun y hy => hl.holds y (hla a v ho y hy)⟩, fun x => hc d' a x ha⟩

theorem count_pushAll (left : Bool) (vs l : List Bytes) (x : Bytes) : (pushAll left vs l).count x = l.count x + vs.count x := by
  cases left
  · simp [pushAll, GoList.rPush]
  · simp [pushAll, GoList.lPush, Nat.add_comm]

theorem obeys_pushOn (left : Bool) (v : Bytes) (vs : List Bytes) (hl : h.Linked k ref "list" names d) :
    (pushOn left v vs ref).Obeys (t ≤ ·) (Grows t k) (Adds k (.push left v vs)) h := by
  refine obeys_locked (p := .push left v vs) (v :: vs) rfl hl (fun d hd => ?_) (fun d l hd => ⟨⟨?_, fun x => ?_⟩, fun y hy => ?_⟩)
    (fun d l x hd => ?_) (fun _ _ _ y hy => mem_append_left _ hy) fun _ _ _ => trivial
  · obtain ⟨l, rfl⟩ := d.of_type.1 hd
    exact ⟨l, rfl⟩
  · cases d <;> cases hd
    rfl
  · cases d <;> cases hd
    exact (Nat.le_add_right ..).trans (count_pushAll ..).ge
  · exact (count_pos_iff.2 hy).trans_le ((Nat.le_add_left ..).trans (count_pushAll ..).ge)
  · cases d <;> cases hd
    exact (count_pushAll left (v :: vs) l x).ge

theorem Datum.Grown.set {s s' : Finset Bytes} (hs : s ⊆ s') : (Datum.set s).Grown (.set s') := by
  refine ⟨rfl, fun x => ?_⟩
  simp only [Datum.amount]
  split
  · rw [if_pos (hs ‹_›)]
  · exact Nat.zero_le _

theorem Datum.Grown.insert {β : Type} (m : GoMap β) (f x : Bytes) (v : β) : (if x ∈ m then 1 else 0) ≤ if x ∈ m.insert f v then 1 else 0 := by
  split
  · rw [if_pos (Finmap.mem_insert.2 (.inr ‹_›))]
  · exact Nat.zero_le _

theorem obeys_saddOn (m : Bytes) (ms : List Bytes) (hl : h.Linked k ref "set" names d) :
    (saddOn m ms ref).Obeys (t ≤ ·) (Grows t k) (Adds k (.sadd m ms)) h := by
  have hg : ∀ d s, Datum.set? d = some s → d.Grown (.set (GoSet.add (m :: ms) s).2) := by
    rintro (_ | _ | _ | s | _ | _ | _) s hs <;> cases hs
    rw [GoSet.add_eq]
    exact .set Finset.subset_union_right
  refine obeys_locked (p := .sadd m ms) (m :: ms) rfl hl (fun d hd => ?_) (fun d s hd => ⟨hg d s hd, fun y hy => ?_⟩)
    (fun d s x hd => (hg d s hd).listCount x) (fun _ _ _ y hy => mem_append_left _ hy) fun _ _ _ => trivial
  · obtain ⟨s, rfl⟩ := d.of_type.2.1 hd
    exact ⟨s, rfl⟩
  · rw [GoSet.add_eq, Datum.amount, if_pos (Finset.mem_union_left _ (mem_toFinset.2 hy))]
    exact Nat.one_pos

theorem mem_done {done rest : List Bytes} {x : Bytes} (h : ∀ y ∈ all, y ∈ done ∨ y ∈ x :: rest) (y : Bytes) (hy : y ∈ all) :
    y ∈ [x] ++ done ∨ y ∈ rest := by
  rcases h y hy with h | h
  · exact .inl (mem_cons_of_mem _ h)
  · rcases mem_cons.1 h with rfl | h
    · exact .inl mem_cons_self
    · exact .inr h

theorem fieldOrder_of_ret {n : Nat} {o : Outcome} (h : hsetOn ref n pairs = .ret o) : fieldOrder pairs = [] := by
  rcases pairs with _ | ⟨f, _ | ⟨v, rest⟩⟩
  · rfl
  · rfl
  · cases h

theorem obeys_hsetOn (n : Nat) (pairs : List Bytes)
    (ha : ∀ f ∈ fieldOrder all, f ∈ names ∨ f ∈ fieldOrder pairs) (hl : h.Linked k ref "hash" names d) :
    (hsetOn ref n pairs).Obeys (t ≤ ·) (Grows t k) (Adds k (.hset all)) h := by
  induction n, pairs using hsetOn.induct generalizing h names d with
  | case2 pairs n hp =>
    rcases pairs with _ | ⟨f, _ | ⟨v, rest⟩⟩
    · trivial
    · trivial
    · exact absurd rfl (hp f v rest)
  | case1 n f v rest ih =>
    have hg : ∀ d m, Datum.hash? d = some m → d.Grown (.hash (Hash.set f v m).2) := by
      rintro (_ | m | _ | _ | _ | _ | _) m hm <;> cases hm
      exact ⟨rfl, fun x => Datum.Grown.insert m f x v⟩
    rw [hsetOn]
    refine obeys_locked (p := .hset all) [f] rfl hl (fun d hd => ?_) (fun d m hd => ⟨hg d m hd, fun y hy => ?_⟩)
      (fun d m x hd => (hg d m hd).listCount x) (fun m w hw y hy => ?_) fun h' m hl' => ih _ (mem_done ha) hl'
    · obtain ⟨m, rfl⟩ := d.of_type.2.2.1 hd
      exact ⟨m, rfl⟩
    · rw [mem_singleton.1 hy, Datum.amount, Hash.set, if_pos (Finmap.mem_insert.2 (.inl rfl))]
      exact Nat.one_pos
    · refine (mem_done ha y hy).resolve_right fun hy => ?_
      rw [fieldOrder_of_ret hw] at hy
      cases hy

theorem memberOrder_of_ret {n : Nat} {v : Value} (h : zaddOn rt r ref n pairs = .ret (wrote v)) :
    memberOrder pairs = [] := by
  rcases pairs with _ | ⟨s, _ | ⟨m, rest⟩⟩
  · rfl
  · rfl
  · simp only [zaddOn] at h
    split at h
    · exact absurd (Code.ret.inj h) (fails_ne_wrote _ _)
    · cases h

theorem obeys_zaddOn (n : Nat) (pairs : List Bytes)
    (ha : ∀ m ∈ memberOrder all, m ∈ names ∨ m ∈ memberOrder pairs) (hli : h.Linked k ref "zset" names d) :
    (zaddOn rt r ref n pairs).Obeys (t ≤ ·) (Grows t k) (Adds k (.zadd all)) h := by
  induction n, pairs using zaddOn.induct rt generalizing h names d with
  | case3 pairs n hp =>
    rcases pairs with _ | ⟨s, _ | ⟨m, rest⟩⟩
    · trivial
    · trivial
    · exact absurd rfl (hp s m rest)
  | case1 n score member rest hs =>
    simp only [zaddOn, hs]
    trivial
  | case2 n score member rest x hs ih =>
    have ht : ∀ d : Datum, d.type = lit "zset" → ∃ z, d.zset? = some z := fun d hd => by
      obtain ⟨z, rfl⟩ := d.of_type.2.2.2 hd
      exact ⟨z, rfl⟩
    have hl : ∀ d z, Datum.zset? d = some z → d.Grown (.zset z) := by
      rintro (_ | _ | _ | _ | z | _ | _) z hz <;> cases hz
      exact .refl _
    have hg : ∀ d z, Datum.zset? d = some z → d.Grown (.zset (z.insert r.near x member)) := by
      rintro (_ | _ | _ | _ | z | _ | _) z hz <;> cases hz
      refine ⟨rfl, fun y => ?_⟩
      simp only [Datum.amount, SkipList.dict_insert]
      exact Datum.Grown.insert z.dict member y x
    simp only [zaddOn, hs]
    refine obeys_locked (p := .zadd all) [] rfl hli ht (fun d z hd => ⟨hl d z hd, nofun⟩)
      (fun d z x hd => (hl d z hd).listCount x) nofun fun h' z hl' => ?_
    refine obeys_locked (p := .zadd all) [member] rfl hl' ht (fun d z hd => ⟨hg d z hd, fun y hy => ?_⟩)
      (fun d z x hd => (hg d z hd).listCount x) (fun z w hw y hy => ?_) fun h'' z hl'' => ih _ (mem_done ha) hl''
    · rw [mem_singleton.1 hy, Datum.amount, SkipList.dict_insert, if_pos (Finmap.mem_insert.2 (.inl rfl))]
      exact Nat.one_pos
    · refine (mem_done ha y hy).resolve_right fun hy => ?_
      rw [memberOrder_of_ret hw] at hy
      cases hy

/-! ### Whole commands -/

def Creation.Proper : Creation → Prop
  | hset pairs | zadd pairs => 2 ≤ pairs.length
  | _ => True

theorem exists_pair (h : 2 ≤ pairs.length) : ∃ a b rest, pairs = a :: b :: rest := by
  rcases pairs with _ | ⟨a, _ | ⟨b, rest⟩⟩
  · simp at h
  · simp at h
  · exact ⟨a, b, rest, rfl⟩

theorem obeys_on (hp : p.splits = false) (hpr : p.Proper) (hl : h.Linked k ref p.new.type [] d) :
    (∀ h₀ o, p.on rt r ref = .ret o → Adds k p o h₀ h) ∧ (p.on rt r ref).Obeys (t ≤ ·) (Grows t k) (Adds k p) h := by
  cases p with
  | xadd | vadd | xgroup => cases hp
  | push left v vs => exact ⟨nofun, obeys_pushOn left v vs hl⟩
  | sadd m ms => exact ⟨nofun, obeys_saddOn m ms hl⟩
  | hset pairs =>
    refine ⟨fun h₀ o ho => ?_, obeys_hsetOn 0 pairs (fun f hf => .inr hf) hl⟩
    obtain ⟨f, v, rest, rfl⟩ := exists_pair hpr
    cases ho
  | zadd pairs =>
    refine ⟨fun h₀ o ho => ?_, obeys_zaddOn 0 pairs (fun f hf => .inr hf) hl⟩
    obtain ⟨score, m, rest, rfl⟩ := exists_pair hpr
    simp only [Creation.on, zaddOn] at ho
    split at ho
    · rw [← Code.ret.inj ho]
      exact adds_fails _ _ _ _
    · cases ho

theorem obeys_safe (hp : p.splits = false) (hpr : p.Proper) (hr : h.Ready t k) :
    (p.code rt r k).Obeys (t ≤ ·) (Grows t k) (Adds k p) h := by
  rw [Creation.code, if_neg (by simp [hp])]
  refine Code.obeys_atomic fun h' now ht hh' => ?_
  obtain ⟨hg, d, hl⟩ := (hh'.ready hr).getOrCreate ht p.new
  generalize h'.getOrCreate k p.new now = found at hg hl
  obtain ⟨⟨ref, type⟩, h''⟩ := found
  dsimp only at hg hl ⊢
  refine ⟨hg, ?_⟩
  by_cases hty : type = p.new.type
  · subst hty
    rw [if_neg (by simp)]
    have hon : _ ∧ (p.on rt r ref).Obeys (t ≤ ·) (Grows t k) (Adds k p) h'' := obeys_on hp hpr hl
    exact ⟨hon.1 h', hon.2⟩
  · rw [if_pos hty]
    exact ⟨fun o ho => by rw [← Code.ret.inj ho]; exact adds_fails _ _ _ _, trivial⟩

end Bodies

end

/-! ### Any number of clients -/

namespace CreateCommand

variable {rt : Runtime}

/-- Whether the command comes to create its container with `Get` and `Set`. -/
def splits (c : CreateCommand rt) : Bool := match c.plan with
  | .ok p => p.splits
  | .error _ => false

def pushed (x : Bytes) (c : CreateCommand rt) : Nat := match c.plan with
  | .ok p => p.pushed x
  | .error _ => 0

theorem proper_of_plan {c : CreateCommand rt} (h : c.plan = .ok p) : p.Proper := by
  cases c with
  | hset args | zadd args =>
    rw [plan] at h
    split at h
    · cases h
    · rename_i hlen
      cases h
      exact not_lt.1 fun hlt => hlen (.inl hlt)
  | xadd args =>
    simp only [plan] at h
    split at h
    · cases h
    · split at h
      · cases h
      · split at h <;> cases h
        trivial
      · cases h
  | vadd args =>
    simp only [plan] at h
    split at h
    · split at h <;> cases h
      trivial
    · cases h
  | lpush args | rpush args | sadd args =>
    simp only [plan] at h
    split at h <;> cases h
    trivial
  | xgroup =>
    cases h
    trivial

end CreateCommand

section Clients

variable {ι : Type} [DecidableEq ι] {rt : Runtime} (rs : ι → Readings) (k : Bytes) (cs : ι → CreateCommand rt)

def creators (h : Heap) : System ι Int Heap Outcome := ⟨fun i => (cs i).code (rs i) k, h⟩

/-- Nothing that was answered with success is lost: the container under the key holds what each such command has
added, a list each element as often as they have pushed it. -/
structure Kept (s : System ι Int Heap Outcome) : Prop where
  held : ∀ i p v, (cs i).plan = .ok p → s.threads i = .ret (wrote v) → ∃ d, s.shared.stored k = some d ∧ p.HeldIn v d
  counted : ∀ F : Finset ι, (∀ i ∈ F, ∃ v, s.threads i = .ret (wrote v)) →
    ∀ x, ∑ i ∈ F, (cs i).pushed x ≤ listCount x (s.shared.stored k)

variable {rs k cs} {t : Int} {h : Heap} {sched : List (ι × Int)}

theorem Heap.Missing.ready (hm : h.Missing t k) : h.Ready t k := fun sl hsl => .inl (hm sl hsl)

def AddsOf (k : Bytes) (c : CreateCommand rt) (o : Outcome) (h h' : Heap) : Prop := ∀ p, c.plan = .ok p → Adds k p o h h'

omit [DecidableEq ι] in
theorem obeys_creators (hcs : ∀ i, (cs i).splits = false) (hr : h.Ready t k) (i : ι) :
    ((creators rs k cs h).threads i).Obeys (t ≤ ·) (Grows t k) (AddsOf k (cs i)) h := by
  have hi := hcs i
  simp only [creators, CreateCommand.code]
  rw [CreateCommand.splits] at hi
  cases hp : (cs i).plan with
  | error e => trivial
  | ok p =>
    have ha : AddsOf k (cs i) = Adds k p := by
      funext o h h'
      simp [AddsOf, hp]
    rw [hp] at hi
    rw [ha]
    exact obeys_safe hi (CreateCommand.proper_of_plan hp) hr

omit [DecidableEq ι] in
theorem creators_unanswered (i : ι) (v : Value) : (creators rs k cs h).threads i ≠ .ret (wrote v) := by
  intro hv
  simp only [creators, CreateCommand.code] at hv
  cases hp : (cs i).plan with
  | error e =>
    rw [hp] at hv
    exact fails_ne_wrote e v (Code.ret.inj hv)
  | ok p =>
    rw [hp] at hv
    cases p <;> cases hv

theorem Kept.turn {s : System ι Int Heap Outcome} {i : ι} {now : Int} (hs : Kept k cs s) (hcs : ∀ i, (cs i).splits = false)
    (hg : Grows t k s.shared (s.turn (i, now)).shared)
    (hl : ∀ o, (s.turn (i, now)).threads i = .ret o → AddsOf k (cs i) o s.shared (s.turn (i, now)).shared) :
    Kept k cs (s.turn (i, now)) := by
  refine ⟨fun j p v hpl hj => ?_, fun F hF x => ?_⟩
  · by_cases hji : j = i
    · subst hji
      exact (hl _ hj p hpl v rfl).1
    · rw [System.turn_threads_ne s hji] at hj
      obtain ⟨d, hd, hin⟩ := hs.held j p v hpl hj
      obtain ⟨d', hd', hgr⟩ := hg.stored hd
      have hp := hcs j
      rw [CreateCommand.splits, hpl] at hp
      exact ⟨d', hd', hin.grown hp hgr⟩
  · have ho : ∀ j ∈ F.erase i, ∃ v, s.threads j = .ret (wrote v) := by
      intro j hj
      obtain ⟨hji, hjF⟩ := Finset.mem_erase.1 hj
      have := hF j hjF
      rwa [System.turn_threads_ne s hji] at this
    have hb := hs.counted (F.erase i) ho x
    by_cases hiF : i ∈ F
    · obtain ⟨v, hv⟩ := hF i hiF
      rw [← Finset.add_sum_erase F _ hiF, CreateCommand.pushed]
      cases hpl : (cs i).plan with
      | error e =>
        rw [Nat.zero_add]
        exact hb.trans (hg.listCount x)
      | ok p =>
        have ha := (hl _ hv p hpl v rfl).2 x
        dsimp only
        omega
    · rw [Finset.erase_eq_of_notMem hiF] at hb
      exact hb.trans (hg.listCount x)

/-- Clients that all create their container with `GetOrCreate` lose nothing they were told has been added, at any
point of any schedule. -/
theorem created_kept (hcs : ∀ i, (cs i).splits = false) (hm : h.Missing t k) (hc : ∀ p ∈ sched, t ≤ p.2) :
    Kept k cs ((creators rs k cs h).run sched) := by
  refine System.run_obeys (Grows.refl t k) Grows.trans (fun _ _ _ hs hg hl => hs.turn hcs hg hl) hc
    (obeys_creators hcs hm.ready) ⟨fun i p v _ hv => absurd hv (creators_unanswered i v), fun F hF x => ?_⟩
  have he : F = ∅ := Finset.eq_empty_iff_forall_notMem.2 fun i hi => (hF i hi).elim fun v hv => creators_unanswered i v hv
  rw [he, Finset.sum_empty]
  exact Nat.zero_le _

theorem created_kept_pushes :
    let cs : Bool → CreateCommand .plain := fun b => .lpush [if b then "x" else "y"]
    Kept "k" cs ((creators (fun _ => .plain 0) "k" cs .empty).run [(true, 0), (false, 0), (false, 0), (true, 0)]) :=
  created_kept (t := 0) (fun _ => rfl) (fun sl hsl => by simp [Heap.empty] at hsl) (by decide)

/-- Two clients with `XADD`, both of which find no stream: the second one's stream replaces the first one's, and
with it the entry the first was told has been added. -/
theorem xadd_entry_lost :
    let cs : Bool → CreateCommand .plain := fun b => .xadd [if b then "1-1" else "2-2", "field", "value"]
    let s := (creators (fun _ => .plain 0) "k" cs .empty).run
      [(true, 0), (false, 0), (true, 0), (true, 0), (false, 0), (false, 0)]
    s.threads true = .ret (wrote (.bulkString "1-1")) ∧ s.threads false = .ret (wrote (.bulkString "2-2")) ∧ ¬ Kept "k" cs s := by
  intro cs s
  have ht : s.threads true = .ret (wrote (.bulkString "1-1")) := by with_unfolding_all rfl
  refine ⟨ht, by with_unfolding_all rfl, fun hk => ?_⟩
  obtain ⟨d, hd, hh⟩ := hk.held true (.xadd "1-1" ["field", "value"] (-1)) _ (by with_unfolding_all rfl) ht
  have hi : ((s.shared.stored "k").bind Datum.stream?).map (fun t => t.entries.map StreamEntry.id) = some [lit "2-2"] := by
    with_unfolding_all rfl
  rw [hd] at hi
  cases d with
  | stream t =>
    obtain ⟨e, he, hid, -⟩ := hh
    have hi : t.entries.map StreamEntry.id = [lit "2-2"] := Option.some.inj hi
    have hm := mem_map_of_mem (f := StreamEntry.id) he
    rw [hi, mem_singleton] at hm
    rw [hm] at hid
    exact absurd (congrArg Value.bulk hid) (by decide)
  | _ => exact hh

end Clients

end VortexKV
