import VortexKV.GoString
import Mathlib.Data.Finmap
import Mathlib.Data.List.Sort

/-!
# Lists, sets, hashes, sorted sets and vector indexes

The values a key can hold, one section per file of `internal/datastruct` (streams are in `Stream`). A Go map is a finite map;
`sortedKeys` lists its keys in one fixed order, from which a reading makes the order of a `range` loop.

A sorted set is its level-0 chain and its dictionary. Where a search ends (`seek`) does not depend on the levels above, but
next to a NaN, which compares with nothing, it does, and is a reading of the environment.
-/

namespace VortexKV

open List

abbrev GoMap (β : Type) := Finmap fun _ : Bytes => β

/-- Go's `<` on strings. -/
def bytesLt : Bytes → Bytes → Bool
  | _, [] => false
  | [], _ :: _ => true
  | a :: s, b :: t => a < b || (a == b && bytesLt s t)

def bytesLe (s t : Bytes) : Bool := !bytesLt t s

theorem bytesLt_irrefl (s : Bytes) : bytesLt s s = false := by
  induction s with
  | nil => rfl
  | cons a s ih => simp [bytesLt, ih]

theorem bytesLt_trans {s t u : Bytes} (h₁ : bytesLt s t = true) (h₂ : bytesLt t u = true) :
    bytesLt s u = true := by
  induction s generalizing t u with
  | nil => cases u with
    | nil => cases t <;> simp [bytesLt] at h₂
    | cons => rfl
  | cons a s ih =>
    cases t with
    | nil => simp [bytesLt] at h₁
    | cons b t =>
      cases u with
      | nil => simp [bytesLt] at h₂
      | cons c u =>
        simp only [bytesLt, Bool.or_eq_true, decide_eq_true_eq, Bool.and_eq_true, beq_iff_eq] at *
        rcases h₁ with h₁ | ⟨rfl, h₁⟩ <;> rcases h₂ with h₂ | ⟨rfl, h₂⟩
        · exact .inl (UInt8.lt_trans h₁ h₂)
        · exact .inl h₁
        · exact .inl h₂
        · exact .inr ⟨rfl, ih h₁ h₂⟩

theorem bytesLt_trichotomy (s t : Bytes) : bytesLt s t = true ∨ s = t ∨ bytesLt t s = true := by
  induction s generalizing t with
  | nil => cases t <;> simp [bytesLt]
  | cons a s ih =>
    cases t with
    | nil => simp [bytesLt]
    | cons b t =>
      simp only [bytesLt, Bool.or_eq_true, decide_eq_true_eq, Bool.and_eq_true, beq_iff_eq, List.cons.injEq]
      rcases Nat.lt_trichotomy a.toNat b.toNat with h | h | h
      · exact .inl (.inl (UInt8.lt_iff_toNat_lt.2 h))
      · obtain rfl := UInt8.toNat_inj.1 h
        rcases ih t with h | rfl | h
        · exact .inl (.inr ⟨rfl, h⟩)
        · exact .inr (.inl ⟨rfl, rfl⟩)
        · exact .inr (.inr (.inr ⟨rfl, h⟩))
      · exact .inr (.inr (.inl (UInt8.lt_iff_toNat_lt.2 h)))

instance : Std.Total (fun s t => bytesLe s t = true) := ⟨fun s t => by
  simp only [bytesLe, Bool.not_eq_true']
  by_contra hc
  simp only [not_or, Bool.not_eq_false] at hc
  have := bytesLt_trans hc.1 hc.2
  rw [bytesLt_irrefl] at this
  cases this⟩

instance : IsTrans Bytes (fun s t => bytesLe s t = true) := ⟨fun s t u h₁ h₂ => by
  simp only [bytesLe, Bool.not_eq_true'] at *
  rcases bytesLt_trichotomy s t with h | rfl | h
  · rcases bytesLt_trichotomy t u with h' | rfl | h'
    · have hsu := bytesLt_trans h h'
      cases hus : bytesLt u s with
      | false => rfl
      | true =>
        have := bytesLt_trans hsu hus
        rw [bytesLt_irrefl] at this
        cases this
    · exact h₁
    · rw [h₂] at h'; cases h'
  · exact h₂
  · rw [h₁] at h; cases h⟩

instance : Std.Antisymm (fun s t => bytesLe s t = true) := ⟨fun s t h₁ h₂ => by
  simp only [bytesLe, Bool.not_eq_true'] at h₁ h₂
  rcases bytesLt_trichotomy s t with h | h | h
  · rw [h₂] at h; cases h
  · exact h
  · rw [h₁] at h; cases h⟩

def sortedList (s : Finset Bytes) : List Bytes :=
  Quotient.liftOn s.val (List.insertionSort fun s t => bytesLe s t) fun l₁ l₂ h =>
    List.Perm.eq_of_pairwise' (pairwise_insertionSort _ l₁) (pairwise_insertionSort _ l₂)
      ((perm_insertionSort _ l₁).trans (h.trans (perm_insertionSort _ l₂).symm))

theorem coe_sortedList (s : Finset Bytes) : (sortedList s : Multiset Bytes) = s.val := by
  obtain ⟨m, hm⟩ := s
  induction m using Quotient.inductionOn with
  | h l => exact Multiset.coe_eq_coe.2 (perm_insertionSort _ l)

theorem mem_sortedList {s : Finset Bytes} {x : Bytes} : x ∈ sortedList s ↔ x ∈ s := by
  rw [← Multiset.mem_coe, coe_sortedList, Finset.mem_val]

theorem nodup_sortedList (s : Finset Bytes) : (sortedList s).Nodup := by
  rw [← Multiset.coe_nodup, coe_sortedList]; exact s.nodup

def sortedKeys {β : Type} (m : GoMap β) : List Bytes := sortedList m.keys

theorem mem_sortedKeys {β : Type} {m : GoMap β} {k : Bytes} : k ∈ sortedKeys m ↔ k ∈ m :=
  mem_sortedList.trans Finmap.mem_keys

def mapLen {β : Type} (m : GoMap β) : Nat := m.keys.card

theorem length_sortedKeys {β : Type} (m : GoMap β) : (sortedKeys m).length = mapLen m := by
  rw [← Multiset.coe_card]
  exact congrArg Multiset.card (coe_sortedList m.keys)

/-- How a call can fail to return: a run-time panic, or a wait that never ends. -/
inductive Stop
  | panic
  | hang
deriving DecidableEq, Repr

/-! ### Lists -/

namespace GoList

def lPush (values items : List Bytes) : List Bytes := values.reverse ++ items

def rPush (values items : List Bytes) : List Bytes := items ++ values

/-- `List.LPop`: the elements popped (`none` for an empty list) and those left. A negative count makes
the allocation of the result panic. -/
def lPop (count : Int) (items : List Bytes) : Except Stop (Option (List Bytes) × List Bytes) :=
  if items = [] then .ok (none, items)
  else
    let count := min count items.length
    if count < 0 then .error .panic
    else .ok (some (items.take count.toNat), items.drop count.toNat)

def rPop (count : Int) (items : List Bytes) : Except Stop (Option (List Bytes) × List Bytes) :=
  if items = [] then .ok (none, items)
  else
    let count := min count items.length
    if count < 0 then .error .panic
    else .ok (some (items.reverse.take count.toNat), items.take (items.length - count.toNat))

/-- The bounds `start`, `stop` of a range of a sequence of length `n`, negative ones counted from the
end; `none` when the range is empty. -/
def clampRange (n start stop : Int) : Option (Nat × Nat) :=
  if n = 0 then none
  else
    let start := if start < 0 then n + start else start
    let stop := if stop < 0 then n + stop else stop
    let start := if start < 0 then 0 else start
    let stop := if stop ≥ n then n - 1 else stop
    if start > stop ∨ start ≥ n then none else some (start.toNat, stop.toNat)

def slice {α : Type} (l : List α) (start stop : Int) : List α :=
  match clampRange l.length start stop with
  | none => []
  | some (i, j) => (l.drop i).take (j - i + 1)

def range (start stop : Int) (items : List Bytes) : List Bytes := slice items start stop

def index (i : Int) (items : List Bytes) : Option Bytes :=
  let i := if i < 0 then items.length + i else i
  if i < 0 then none else items[i.toNat]?

end GoList

/-! ### Sets and hashes -/

namespace GoSet

/-- `Set.Add`: how many members are new, and the set. -/
def add : List Bytes → Finset Bytes → Nat × Finset Bytes
  | [], s => (0, s)
  | m :: ms, s => if m ∈ s then add ms s else ((add ms (insert m s)).1 + 1, (add ms (insert m s)).2)

theorem add_eq (l : List Bytes) (s : Finset Bytes) : (add l s).2 = l.toFinset ∪ s := by
  induction l generalizing s with
  | nil => simp [add]
  | cons m l ih =>
    unfold add
    split
    · rename_i hm
      rw [ih]
      ext x
      simp only [Finset.mem_union, mem_toFinset, mem_cons]
      constructor
      · rintro (h | h)
        · exact .inl (.inr h)
        · exact .inr h
      · rintro ((rfl | h) | h)
        · exact .inr hm
        · exact .inl h
        · exact .inr h
    · rw [ih]
      ext x
      simp only [Finset.mem_union, mem_toFinset, mem_cons, Finset.mem_insert]
      tauto

def rem : List Bytes → Finset Bytes → Nat × Finset Bytes
  | [], s => (0, s)
  | m :: ms, s => if m ∈ s then ((rem ms (s.erase m)).1 + 1, (rem ms (s.erase m)).2) else rem ms s

end GoSet

namespace Hash

/-- `Hash.Set`: 1 for a new field, 0 for an old one. -/
def set (field value : Bytes) (h : GoMap Bytes) : Nat × GoMap Bytes :=
  (if field ∈ h then 0 else 1, h.insert field value)

def setPairs : List Bytes → GoMap Bytes → Nat × GoMap Bytes
  | f :: v :: rest, h => ((set f v h).1 + (setPairs rest (set f v h).2).1, (setPairs rest (set f v h).2).2)
  | _, h => (0, h)

/-- The map built from alternating keys and values, later pairs overwriting earlier ones. -/
def ofPairs : List Bytes → GoMap Bytes → GoMap Bytes
  | f :: v :: rest, m => ofPairs rest (m.insert f v)
  | _, m => m

def mset (kvs h : GoMap Bytes) : GoMap Bytes := kvs ∪ h

def del : List Bytes → GoMap Bytes → Nat × GoMap Bytes
  | [], h => (0, h)
  | f :: fs, h => if f ∈ h then ((del fs (h.erase f)).1 + 1, (del fs (h.erase f)).2) else del fs h

/-- `Hash.IncrBy`: `none` when the field holds no integer. -/
def incrBy (field : Bytes) (delta : Int) (h : GoMap Bytes) : Option (Int × GoMap Bytes) :=
  match h.lookup field with
  | none => some (wrap64 (0 + delta), h.insert field (formatInt (wrap64 (0 + delta))))
  | some v => (parseInt64 v).map fun n =>
      (wrap64 (n + delta), h.insert field (formatInt (wrap64 (n + delta))))

end Hash

/-! ### Sorted sets -/

abbrev F64 := UInt64

namespace F64

def mag (x : F64) : Nat := x.toNat % 2 ^ 63

def isNaN (x : F64) : Bool := 0x7FF0000000000000 < mag x

/-- The place of a number that is not NaN in the order of numbers; both zeros have the same. -/
def key (x : F64) : Int := if x.toNat < 2 ^ 63 then mag x else -(mag x : Int)

def lt (x y : F64) : Bool := !isNaN x && !isNaN y && decide (key x < key y)

def eq (x y : F64) : Bool := !isNaN x && !isNaN y && decide (key x = key y)

end F64

structure ScoredMember where
  member : Bytes
  score : F64
deriving DecidableEq, Repr

structure SkipList where
  nodes : List ScoredMember
  dict : GoMap F64
deriving DecidableEq

namespace SkipList

def new : SkipList := ⟨[], ∅⟩

/-- The comparison of the search loops: the node comes before `(score, member)`. -/
def precedes (score : F64) (member : Bytes) (n : ScoredMember) : Bool :=
  F64.lt n.score score || (F64.eq n.score score && bytesLt n.member member)

/-- Where the search for `(score, member)` ends: a number of nodes. `near` says where it ends in a
chain with a NaN in it. -/
def seek (near : List ScoredMember → F64 → Bytes → Nat) (nodes : List ScoredMember) (score : F64)
    (member : Bytes) : Nat :=
  if nodes.any (F64.isNaN ·.score) then min (near nodes score member) nodes.length
  else (nodes.takeWhile (precedes score member)).length

variable (near : List ScoredMember → F64 → Bytes → Nat)

/-- `SkipList.deleteUnsafe`. -/
def delete (member : Bytes) (z : SkipList) : Bool × SkipList :=
  match z.dict.lookup member with
  | none => (false, z)
  | some score =>
    let pos := seek near z.nodes score member
    match z.nodes[pos]? with
    | some t =>
      if F64.eq t.score score ∧ t.member = member then (true, ⟨z.nodes.eraseIdx pos, z.dict.erase member⟩)
      else (false, z)
    | none => (false, z)

def insert (score : F64) (member : Bytes) (z : SkipList) : SkipList :=
  let z := if member ∈ z.dict then (delete near member z).2 else z
  let pos := seek near z.nodes score member
  ⟨z.nodes.take pos ++ ⟨member, score⟩ :: z.nodes.drop pos, z.dict.insert member score⟩

def deleteAll : List Bytes → SkipList → Nat × SkipList
  | [], z => (0, z)
  | m :: ms, z =>
    let (ok, z) := delete near m z
    let (n, z) := deleteAll ms z
    (if ok then n + 1 else n, z)

def getScore (member : Bytes) (z : SkipList) : Option F64 := z.dict.lookup member

/-- `SkipList.GetRank`. The header's member is the empty string, so for that member the search may
stop at the header, depending on the heights of the nodes; `early` says whether it does. -/
def getRank (early : Bool) (nearRank : Int) (member : Bytes) (z : SkipList) : Int :=
  if member ∉ z.dict then -1
  else if z.nodes.any (F64.isNaN ·.score) then nearRank
  else if member = [] ∧ early then -1
  else z.nodes.findIdx (·.member = member)

def range (start stop : Int) (reverse : Bool) (z : SkipList) : List ScoredMember :=
  GoList.slice (if reverse then z.nodes.reverse else z.nodes) start stop

end SkipList

/-! ### Vector indexes -/

/-- The stored vectors; the search graph over them is not part of the value. -/
structure VectorIndex where
  dimension : Nat
  vectors : GoMap (List UInt32)
deriving DecidableEq

namespace VectorIndex

def new (dim : Nat) : VectorIndex := ⟨dim, ∅⟩

/-- `VectorIndex.Add`: `none` for a dimension mismatch. -/
def add (id : Bytes) (vec : List UInt32) (v : VectorIndex) : Option VectorIndex :=
  if 0 < v.dimension ∧ vec.length ≠ v.dimension then none
  else some ⟨if v.dimension = 0 then vec.length else v.dimension, v.vectors.insert id vec⟩

def delete : List Bytes → VectorIndex → Nat × VectorIndex
  | [], v => (0, v)
  | id :: ids, v =>
    if id ∈ v.vectors then
      ((delete ids ⟨v.dimension, v.vectors.erase id⟩).1 + 1, (delete ids ⟨v.dimension, v.vectors.erase id⟩).2)
    else delete ids v

end VectorIndex

end VortexKV
