import VortexKV.Cluster
import VortexKV.Keyspace
import VortexKV.Resp

/-!
# What the engine takes from outside

`Runtime` is the part of Go's library that the model leaves open. `Readings` is what one command may find differently each
time it runs: the clocks, the order of a map loop, memory figures, telemetry texts, and the runs of scripts, given as
the calls they make (`LuaProg`, `WasmProg`).
-/

namespace VortexKV

/-- A run of a Lua script, as `runScript` sees it: calls of `redis.call`, then the reply. -/
inductive LuaProg
  | done (reply : Value)
  | call (args : List Bytes) (next : Value → LuaProg)

/-- A run of a WebAssembly function: calls of the host functions, then the reply. -/
inductive WasmProg
  | done (reply : Value)
  | get (key : Bytes) (next : Option Bytes → WasmProg)
  | set (key val : Bytes) (next : WasmProg)
  | del (key : Bytes) (next : WasmProg)

structure Runtime where
  unicode : Unicode
  /-- `strconv.Quote` -/
  quote : Bytes → Bytes
  /-- `strconv.ParseFloat(s, 64)`, by the bits of the result -/
  parseFloat : Bytes → Option F64
  /-- `float32(strconv.ParseFloat(s, 32))` -/
  parseFloat32 : Bytes → Option UInt32
  /-- `strconv.FormatFloat(x, 'f', -1, 64)` -/
  formatFloat : F64 → Bytes
  /-- `fmt.Sprintf("%f", x)` -/
  formatFloat32 : UInt32 → Bytes
  /-- The score text of `VSIM`: Euclidean (`true`) or cosine -/
  vectorScore : Bool → List UInt32 → List UInt32 → Bytes
  /-- `filepath.Match`, `none` for a bad pattern -/
  pathMatch : Bytes → Bytes → Option Bool
  /-- `ComputeSHA1` -/
  sha1hex : Bytes → Bytes
  hexDecode : Bytes → Except Bytes Bytes
  /-- The error text of `CompileModule`, if any -/
  wasmCompile : Bytes → Option Bytes

structure Readings where
  /-- `FastNowMilli`, the cached clock -/
  fastNow : Int
  /-- `time.Now`, in nanoseconds -/
  now : Int
  /-- The successive readings of `MemStats.Alloc` -/
  alloc : Nat → Nat
  shuffle : List Bytes → List Bytes
  shuffle_perm : ∀ l, (shuffle l).Perm l
  near : List ScoredMember → F64 → Bytes → Nat
  rankEarly : Bool
  rankNear : Int
  /-- The reply of `VectorIndex.Search`: ids and score texts -/
  vectorSearch : VectorIndex → List UInt32 → Int → Bytes → Int → List (Bytes × Bytes)
  vectorInfo : VectorIndex → List (Bytes × Bytes)
  published : Int
  /-- The text of `GenerateRedisInfo` up to the number of keys, and `GenerateReplicationInfo` -/
  info : Bytes
  replicationInfo : Bytes
  slowLogs : List Value
  clusterNodes : Bytes
  clusterSlots : Value
  clusterInfo : Bytes
  /-- What `CLUSTER MEET` makes of the node table, or its error -/
  meet : ClusterManager → Bytes → Int → Int → Except Bytes ClusterManager
  /-- The error of writing the RDB file, if any -/
  saveError : Option Bytes
  /-- The error of writing the cluster's configuration file, if any -/
  saveConfigError : Option Bytes
  lua : Bytes → List Bytes → List Bytes → LuaProg
  wasm : Bytes → Bytes → List Int → WasmProg

/-- `time.Now().UnixMilli()`. -/
def Readings.nowMilli (r : Readings) : Int := r.now / 1000000

/-- The readings of a command and, below it, those of the commands it runs: the queue of a transaction,
the calls of a script. -/
abbrev Env := List Nat → Readings

def Env.sub (ω : Env) (i : Nat) : Env := fun path => ω (i :: path)

/-! ### A plain environment for concrete runs -/

/-- A runtime that knows no letters beyond ASCII and no numbers but small ones. -/
def Runtime.plain : Runtime where
  unicode := ⟨id, id⟩
  quote := id
  parseFloat s := ([(lit "0", 0), (lit "1", 0x3FF0000000000000), (lit "2", 0x4000000000000000)].find?
    (·.1 = s)).map Prod.snd
  parseFloat32 s := ([(lit "0", 0), (lit "1", 0x3F800000)].find? (·.1 = s)).map Prod.snd
  formatFloat x := if x = 0 then "0" else if x = 0x3FF0000000000000 then "1" else "2"
  formatFloat32 x := if x = 0 then "0.000000" else "1.000000"
  vectorScore _ _ _ := "1.000000"
  pathMatch pattern name := some (pattern = name)
  sha1hex s := s
  hexDecode s := .ok s
  wasmCompile _ := none

/-- Both clocks at a whole number of milliseconds, map loops in sorted order, no memory in use. -/
def Readings.plain (milli : Int) : Readings where
  fastNow := milli
  now := milli * 1000000
  alloc _ := 0
  shuffle l := l
  shuffle_perm _ := .refl _
  near _ _ _ := 0
  rankEarly := false
  rankNear := 0
  vectorSearch _ _ _ _ _ := []
  vectorInfo _ := []
  published := 0
  info := []
  replicationInfo := []
  slowLogs := []
  clusterNodes := []
  clusterSlots := .ofArray []
  clusterInfo := []
  meet cm _ _ _ := .ok cm
  saveError := none
  saveConfigError := none
  lua _ _ _ := .done .nil
  wasm _ _ _ := .done .nil

def Env.plain (milli : Int) : Env := fun _ => Readings.plain milli

end VortexKV
