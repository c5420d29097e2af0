import VortexKV.Rdb
import VortexKV.Codec

/-!
# The bytes of a snapshot

`SaveRDB` and `LoadRDB` on the bytes of the file (`internal/persistence/rdb.go`, `crc64.go`). A load hands entries to its handler
as it reads them, so its outcome is the entries it handed over together with the result. The handler is that of `NewEngine`,
which never fails.
-/

namespace VortexKV

open Codec

/-! ### The checksum -/

def crcPoly : UInt64 := 0xad93d23594c935a9

def crcBit (crc : UInt64) : UInt64 := if crc &&& 1 ≠ 0 then (crc >>> 1) ^^^ crcPoly else crc >>> 1

def crc64Entry (i : UInt8) : UInt64 := (List.range 8).foldl (fun crc _ => crcBit crc) i.toUInt64

def crc64 (data : Bytes) : UInt64 := data.foldl (fun crc b => crc64Entry (crc.toUInt8 ^^^ b) ^^^ (crc >>> 8)) 0

/-! ### Writing -/

def opcodeAUX : UInt8 := 0xFA
def opcodeRESIZEDB : UInt8 := 0xFB
def opcodeEXPIRETIMEMS : UInt8 := 0xFC
def opcodeEXPIRETIME : UInt8 := 0xFD
def opcodeSELECTDB : UInt8 := 0xFE
def opcodeEOF : UInt8 := 0xFF

def RDBValue.type : RDBValue → UInt8
  | string _ => 0
  | list _ => 1
  | set _ => 2
  | zset _ => 3
  | hash _ => 4
  | stream _ => 6
  | vector _ _ => 240

def rdbMagicHeader : Bytes := "REDIS0009"

def writeString (s : Bytes) : Bytes := putUvarint s.length ++ s

def writeStrings (items : List Bytes) : Bytes := putUvarint items.length ++ items.flatMap writeString

def writePair (f v : Bytes) : Bytes := writeString f ++ writeString v

def writePairs (r : Readings) (m : GoMap Bytes) : Bytes :=
  putUvarint (mapLen m) ++ (r.shuffle (sortedKeys m)).flatMap fun f => writePair f ((m.lookup f).getD [])

def writeScored (it : ScoredMember) : Bytes := leBytes 8 it.score.toNat ++ writeString it.member

/-- `encodeValue`, of a value that has the type of its type byte. -/
def encodeValue (ω : Env) : RDBValue → Bytes
  | .string s => writeString s
  | .list items => writeStrings items
  | .set members => writeStrings members
  | .hash fields => writePairs (ω []) fields
  | .zset items => putUvarint items.length ++ items.flatMap writeScored
  | .stream items => putUvarint items.length ++
      items.zipIdx.flatMap fun (it, j) => writeString it.1 ++ writePairs (ω.sub j []) it.2
  | .vector dim vectors => putUvarint dim ++ (putUvarint (mapLen vectors) ++
      ((ω []).shuffle (sortedKeys vectors)).flatMap fun id =>
        writeString id ++ ((vectors.lookup id).getD []).flatMap fun f => leBytes 4 f.toNat)

def RDBEntry.isExpired (now : Int) (en : RDBEntry) : Bool := en.expiresAt > 0 && en.expiresAt ≤ now

def encodeEntry (ω : Env) (en : RDBEntry) : Bytes :=
  (if en.expiresAt > 0 then opcodeEXPIRETIMEMS :: leBytes 8 en.expiresAt.toNat else []) ++
    en.value.type :: (writeString en.key ++ encodeValue ω en.value)

def encodeEntries (ω : Env) (entries : List RDBEntry) : Bytes := entries.zipIdx.flatMap fun (en, i) => encodeEntry (ω.sub i) en

def encodePayload (now : Int) (ω : Env) (entries : List RDBEntry) (aux : GoMap Bytes) : Bytes :=
  let valid := entries.filter fun en => !en.isExpired now
  rdbMagicHeader ++ (((ω []).shuffle (sortedKeys aux)).flatMap (fun k => opcodeAUX :: writePair k ((aux.lookup k).getD [])) ++
    (opcodeSELECTDB :: putUvarint 0 ++ (opcodeRESIZEDB :: putUvarint valid.length ++ putUvarint (valid.filter (·.expiresAt > 0)).length ++
      (encodeEntries ω valid ++ [opcodeEOF]))))

/-- The file that `SaveRDB` writes at a clock time. -/
def saveRDBFile (now : Int) (ω : Env) (entries : List RDBEntry) (aux : GoMap Bytes) : Bytes :=
  encodePayload now ω entries aux ++ leBytes 8 (crc64 (encodePayload now ω entries aux)).toNat

/-! ### Reading -/

inductive RDBError
  | tooShort
  | invalidHeader
  | eof
  | unexpectedEOF
  | overflow
  | unsupportedType
  | crcMismatch
deriving DecidableEq, Repr

inductive RDBFailure
  | stop (s : Stop)
  | error (e : RDBError)
deriving DecidableEq

abbrev RDBDecoder := Decoder RDBFailure

def RDBError.ofVarint : VarintError → RDBError
  | .eof => .eof
  | .unexpectedEOF => .unexpectedEOF
  | .overflow => .overflow

def readVarint : RDBDecoder Nat := fun s =>
  match readUvarint s with
  | (.ok n, s) => .ok (n, s)
  | (.error e, _) => .error (.error (.ofVarint e))

def skipVarint : RDBDecoder Unit := fun s => .ok ((), (readUvarint s).2)

/-- `make` of a slice of `n` elements of this size: above the address space of a process it panics. -/
def allocate (size n : Nat) : RDBDecoder Unit := fun s => if 2 ^ 48 < size * n then .error (.stop .panic) else .ok ((), s)

def readFull (n : Nat) : RDBDecoder Bytes := fun s =>
  if n ≤ s.length then .ok (s.take n, s.drop n) else .error (.error (if s = [] then .eof else .unexpectedEOF))

def readByte : RDBDecoder UInt8 := fun
  | [] => .error (.error .eof)
  | b :: s => .ok (b, s)

def readString : RDBDecoder Bytes := do
  let n ← readVarint
  allocate 1 n
  readFull n

def readStrings : RDBDecoder (List Bytes) := do
  let n ← readVarint
  allocate 16 n
  times readString n

def readPair (m : GoMap Bytes) : RDBDecoder (GoMap Bytes) := do
  let f ← readString
  let v ← readString
  return m.insert f v

def readPairs : RDBDecoder (GoMap Bytes) := do
  let n ← readVarint
  loop readPair n ∅

def readScored : RDBDecoder ScoredMember := do
  let b8 ← readFull 8
  let member ← readString
  return ⟨member, (ofLE b8).toUInt64⟩

def readStreamItem : RDBDecoder (Bytes × GoMap Bytes) := do
  let id ← readString
  let fields ← readPairs
  return (id, fields)

def readFloat32 : RDBDecoder UInt32 := do
  let b4 ← readFull 4
  return (ofLE b4).toUInt32

def readVector (dim : Nat) (m : GoMap (List UInt32)) : RDBDecoder (GoMap (List UInt32)) := do
  let id ← readString
  allocate 4 dim
  let vec ← times readFloat32 dim
  return m.insert id vec

def decodeValue (type : UInt8) : RDBDecoder RDBValue :=
  if type = 0 then do
    let s ← readString
    return .string s
  else if type = 1 then do
    let items ← readStrings
    return .list items
  else if type = 2 then do
    let members ← readStrings
    return .set members
  else if type = 4 then do
    let fields ← readPairs
    return .hash fields
  else if type = 3 then do
    let n ← readVarint
    allocate 24 n
    let items ← times readScored n
    return .zset items
  else if type = 6 then do
    let n ← readVarint
    allocate 24 n
    let items ← times readStreamItem n
    return .stream items
  else if type = 240 then do
    let dim ← readVarint
    let count ← readVarint
    let vectors ← loop (readVector dim) count ∅
    return .vector dim vectors
  else fun _ => .error (.error .unsupportedType)

/-- What one round of the loop of `LoadRDB` reads. -/
inductive RDBRecord
  | eof
  | aux (k v : Bytes)
  | other
  | entry (en : RDBEntry)

/-- The expiry time before an entry, and the type byte. -/
def readExpiry (b : UInt8) : RDBDecoder (Int × UInt8) :=
  if b = opcodeEXPIRETIME then do
    let b4 ← readFull 4
    let t ← readByte
    return (ofLE b4 * 1000, t)
  else if b = opcodeEXPIRETIMEMS then do
    let b8 ← readFull 8
    let t ← readByte
    return (wrap64 (ofLE b8), t)
  else return (0, b)

def readRecord (b : UInt8) : RDBDecoder RDBRecord :=
  if b = opcodeEOF then return .eof
  else if b = opcodeAUX then do
    let k ← readString
    let v ← readString
    return .aux k v
  else if b = opcodeSELECTDB then do
    skipVarint
    return .other
  else if b = opcodeRESIZEDB then do
    skipVarint
    skipVarint
    return .other
  else do
    let (expiresAt, t) ← readExpiry b
    let key ← readString
    let value ← decodeValue t
    return .entry ⟨key, value, expiresAt⟩

/-- The entries handed over, and the aux fields or the error. -/
abbrev RDBLoad := Except Stop (List RDBEntry × Except RDBError (GoMap Bytes))

/-- What the loop of `LoadRDB` does with a record at a clock time; `next` is the rest of the loop. -/
def loadRecord (now : Int) (aux : GoMap Bytes) (next : GoMap Bytes → Bytes → RDBLoad) : Except RDBFailure (RDBRecord × Bytes) → RDBLoad
  | .error (.stop p) => .error p
  | .error (.error e) => .ok ([], .error e)
  | .ok (.eof, _) => .ok ([], .ok aux)
  | .ok (.aux k v, s) => next (aux.insert k v) s
  | .ok (.other, s) => next aux s
  | .ok (.entry en, s) => if en.isExpired now then next aux s else (next aux s).map fun x => (en :: x.1, x.2)

def loadLoop (now : Int) : Nat → GoMap Bytes → Bytes → RDBLoad
  | 0, aux, _ => .ok ([], .ok aux)
  | _ + 1, aux, [] => .ok ([], .ok aux)
  | fuel + 1, aux, b :: s => loadRecord now aux (loadLoop now fuel) ((readRecord b).run s)

/-- The stored checksum, where zero stands for none. -/
def checksumRight (payload crcBytes : Bytes) : Bool := ofLE crcBytes = 0 || (crc64 payload).toNat = ofLE crcBytes

/-- `LoadRDB` on the bytes of the file. Every round of its loop takes a byte, so the length is fuel enough. -/
def loadRDBFile (now : Int) (file : Bytes) : RDBLoad :=
  if file.length < 9 + 1 + 8 then .ok ([], .error .tooShort)
  else
    let payload := file.take (file.length - 8)
    if payload.take 5 ≠ lit "REDIS" then .ok ([], .error .invalidHeader)
    else (loadLoop now payload.length ∅ (payload.drop 9)).map fun (entries, result) => (entries, match result with
      | .error e => .error e
      | .ok aux => if checksumRight payload (file.drop (file.length - 8)) then .ok aux else .error .crcMismatch)

end VortexKV
