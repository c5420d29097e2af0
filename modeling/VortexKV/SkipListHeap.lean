import VortexKV.Datastruct
import VortexKV.SpanChain
import Mathlib.Data.BitVec
import Mathlib.Order.Defs.LinearOrder

/-!
# The skip list and its pointers

`internal/datastruct/skiplist.go` with the nodes on a heap. A node is named by its address; a pointer that may be `nil` or
the header is an option. Scores and members are from any linear orders; `Span`, ranks and `Length` are 64 bits wide. An
operation is `none` where the code would follow a pointer to nothing, index outside of a slice or not end.
-/

namespace VortexKV

open SpanChain

abbrev SkipListLevel := Link Nat (BitVec 64)

def skipListMaxLevel : Nat := 32

structure SkipListNode (S M : Type) where
  member : M
  score : S
  backward : Option Nat
  level : List SkipListLevel
deriving DecidableEq

/-- `SkipList`; of the header only its levels are used. -/
structure SkipListHeap (S M : Type) where
  header : List SkipListLevel
  tail : Option Nat
  length : BitVec 64
  level : Nat
  dict : Finmap fun _ : M => S
  heap : List (SkipListNode S M)

namespace SkipListHeap

variable {S M : Type} [LinearOrder S] [LinearOrder M]

def new : SkipListHeap S M := ⟨List.replicate skipListMaxLevel ⟨none, 0⟩, none, 0, 1, ∅, []⟩

/-- `randomLevel`, for the outcomes of the comparisons that the loop makes. -/
def randomLevel (draw : Nat → Bool) : Nat :=
  let rec loop : Nat → Nat → Nat
    | 0, lvl => lvl
    | k + 1, lvl => if draw lvl then loop k (lvl + 1) else lvl
  loop (skipListMaxLevel - 1) 1

/-- `x.Level[i]`, for the header or a node. -/
def row (sl : SkipListHeap S M) (i : Nat) : Option Nat → Option SkipListLevel
  | none => sl.header[i]?
  | some a => sl.heap[a]?.bind fun n => n.level[i]?

def setRow (sl : SkipListHeap S M) (i : Nat) (x : Option Nat) (l : SkipListLevel) : Option (SkipListHeap S M) :=
  match x with
  | none => if i < sl.header.length then some { sl with header := sl.header.set i l } else none
  | some a => match sl.heap[a]? with
    | none => none
    | some n => if i < n.level.length then some { sl with heap := sl.heap.set a { n with level := n.level.set i l } } else none

def push (sl : SkipListHeap S M) (nd : SkipListNode S M) : SkipListHeap S M := { sl with heap := sl.heap ++ [nd] }

def setBackward (sl : SkipListHeap S M) (a : Nat) (b : Option Nat) : Option (SkipListHeap S M) :=
  match sl.heap[a]? with
  | none => none
  | some n => some { sl with heap := sl.heap.set a { n with backward := b } }

def setPrevious (sl : SkipListHeap S M) (next b : Option Nat) : Option (SkipListHeap S M) :=
  match next with
  | some a => sl.setBackward a b
  | none => some { sl with tail := b }

def goes (sl : SkipListHeap S M) (score : S) (member : M) (a : Nat) : Option Bool :=
  sl.heap[a]?.map fun n => n.score < score || (n.score = score && n.member < member)

/-- The loop over the levels from the top, with what is already in `update` and `rank`. -/
def searchFrom (sl : SkipListHeap S M) (score : S) (member : M) :
    Nat → Option Nat → BitVec 64 → List (Option Nat × BitVec 64) → Option (List (Option Nat × BitVec 64))
  | 0, _, _, acc => some acc
  | i + 1, x, rank, acc => do
    let (x, rank) ← walk (sl.row i) (sl.goes score member) (sl.heap.length + 1) x rank
    sl.searchFrom score member i x rank ((x, rank) :: acc)

/-- `update` and `rank` of the levels in use. -/
def search (sl : SkipListHeap S M) (score : S) (member : M) : Option (List (Option Nat × BitVec 64)) :=
  sl.searchFrom score member sl.level none 0 []

def forLevels {σ : Type} (f : Nat → σ → Option σ) : Nat → Nat → σ → Option σ
  | _, 0, s => some s
  | i, k + 1, s => (f i s).bind (forLevels f (i + 1) k)

def raise (i : Nat) (sl : SkipListHeap S M) : Option (SkipListHeap S M) := do
  let l ← sl.row i none
  sl.setRow i none { l with span := sl.length }

def splice (n : Nat) (path : List (Option Nat × BitVec 64)) (rank₀ : BitVec 64) (i : Nat) (sl : SkipListHeap S M) :
    Option (SkipListHeap S M) := do
  let (u, rank) ← path[i]?
  let l ← sl.row i u
  let sl ← sl.setRow i (some n) ⟨l.forward, l.span - (rank₀ - rank)⟩
  sl.setRow i u ⟨some n, rank₀ - rank + 1⟩

def widen (path : List (Option Nat × BitVec 64)) (i : Nat) (sl : SkipListHeap S M) : Option (SkipListHeap S M) := do
  let (u, _) ← path[i]?
  let l ← sl.row i u
  sl.setRow i u { l with span := l.span + 1 }

/-- `Insert` of a member that is not there. -/
def insertNew (level : Nat) (score : S) (member : M) (sl : SkipListHeap S M) : Option (SkipListHeap S M) := do
  let found ← sl.search score member
  let path := found ++ List.replicate (level - sl.level) (none, 0)
  let sl ← forLevels raise sl.level (level - sl.level) sl
  let sl := { sl with level := max sl.level level }
  let n := sl.heap.length
  let (u, rank₀) ← path[0]?
  let sl ← forLevels (splice n path rank₀) 0 level (sl.push ⟨member, score, none, List.replicate level ⟨none, 0⟩⟩)
  let sl ← forLevels (widen path) level (sl.level - level) sl
  let sl ← sl.setBackward n u
  let l ← sl.row 0 (some n)
  let sl ← sl.setPrevious l.forward (some n)
  some { sl with length := sl.length + 1, dict := sl.dict.insert member score }

def unlink (t : Nat) (path : List (Option Nat × BitVec 64)) (i : Nat) (sl : SkipListHeap S M) : Option (SkipListHeap S M) := do
  let (u, _) ← path[i]?
  let l ← sl.row i u
  if l.forward = some t then do
    let lt ← sl.row i (some t)
    sl.setRow i u ⟨lt.forward, l.span + (lt.span - 1)⟩
  else sl.setRow i u { l with span := l.span - 1 }

def lowerLevel (header : List SkipListLevel) : Nat → Option Nat
  | l + 2 => do
    let k ← header[l + 1]?
    if k.forward = none then lowerLevel header (l + 1) else some (l + 2)
  | l => some l

def deleteUnsafe (member : M) (sl : SkipListHeap S M) : Option (Bool × SkipListHeap S M) :=
  match sl.dict.lookup member with
  | none => some (false, sl)
  | some score => do
    let path ← sl.search score member
    let (x, _) ← path[0]?
    match (← sl.row 0 x).forward with
    | none => some (false, sl)
    | some t => do
      let target ← sl.heap[t]?
      if target.score = score ∧ target.member = member then do
        let sl ← forLevels (unlink t path) 0 sl.level sl
        let l ← sl.row 0 (some t)
        let sl ← sl.setPrevious l.forward target.backward
        let level ← lowerLevel sl.header sl.level
        some (true, { sl with level := level, length := sl.length - 1, dict := sl.dict.erase member })
      else some (false, sl)

def insert (draw : Nat → Bool) (score : S) (member : M) (sl : SkipListHeap S M) : Option (SkipListHeap S M) := do
  let sl ← if member ∈ sl.dict then (sl.deleteUnsafe member).map Prod.snd else some sl
  sl.insertNew (randomLevel draw) score member

def delete (member : M) (sl : SkipListHeap S M) : Option (Bool × SkipListHeap S M) := sl.deleteUnsafe member

/-! ### Ranks -/

/-- Whether the node is the one of the score and the member or comes before. -/
def upTo (sl : SkipListHeap S M) (score : S) (member : M) (a : Nat) : Option Bool :=
  sl.heap[a]?.map fun n => n.score < score || (n.score = score && n.member ≤ member)

/-- The loop over the levels in `GetRank` and in `GetElementByRank`: where `stop` ends it and the steps to there. -/
def descend (sl : SkipListHeap S M) (goes : Nat → BitVec 64 → Option Bool) (stop : Option Nat → BitVec 64 → Option Bool) :
    Nat → Option Nat → BitVec 64 → Option (Option (Option Nat × BitVec 64))
  | 0, _, _ => some none
  | i + 1, x, rank => do
    let (x, rank) ← walkBy (sl.row i) goes (sl.heap.length + 1) x rank
    if ← stop x rank then some (some (x, rank)) else sl.descend goes stop i x rank

def memberAt (sl : SkipListHeap S M) (empty : M) : Option Nat → Option M
  | none => some empty
  | some a => sl.heap[a]?.map SkipListNode.member

def getRank (sl : SkipListHeap S M) (empty member : M) : Option Int :=
  match sl.dict.lookup member with
  | none => some (-1)
  | some score => do
    match ← sl.descend (fun a _ => sl.upTo score member a) (fun x _ => (sl.memberAt empty x).map (· = member)) sl.level none 0 with
    | some (_, rank) => some (rank - 1).toInt
    | none => some (-1)

/-- `GetElementByRank`: `nil`, the header (`some none`) or a node. -/
def getElementByRank (sl : SkipListHeap S M) (rank : BitVec 64) : Option (Option (Option Nat)) := do
  let found ← sl.descend (fun _ steps => some (steps ≤ rank)) (fun _ steps => some (steps = rank)) sl.level none 0
  some (found.map Prod.fst)

/-- The loops of `Range`: at most `k` nodes, from `node` on. -/
def collect (sl : SkipListHeap S M) (next : Nat → Option (Option Nat)) : Nat → Option Nat → Option (List (M × S))
  | k + 1, some a => do
    let n ← sl.heap[a]?
    let rest ← sl.collect next k (← next a)
    some ((n.member, n.score) :: rest)
  | _, _ => some []

def range (sl : SkipListHeap S M) (start stop : Int) (reverse : Bool) : Option (List (M × S)) :=
  match GoList.clampRange sl.length.toInt start stop with
  | none => some []
  | some (start, stop) => do
    match ← sl.getElementByRank (if reverse then sl.length - start else start + 1) with
    | none => some []
    -- the header is no node of the list
    | some none => none
    | some node =>
      sl.collect (fun a => if reverse then sl.heap[a]?.map SkipListNode.backward else (sl.row 0 (some a)).map Link.forward)
        (stop - start + 1) node

inductive Call (S M : Type)
  | insert (draw : Nat → Bool) (score : S) (member : M)
  | delete (member : M)

def Call.step : Call S M → SkipListHeap S M → Option (SkipListHeap S M)
  | insert draw score member, sl => sl.insert draw score member
  | delete member, sl => (sl.delete member).map Prod.snd

def run : List (Call S M) → SkipListHeap S M → Option (SkipListHeap S M)
  | [], sl => some sl
  | c :: cs, sl => (c.step sl).bind (run cs)

end SkipListHeap

end VortexKV
