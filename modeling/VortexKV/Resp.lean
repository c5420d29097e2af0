import VortexKV.GoString

/-!
# RESP values, their serialisation and the buffered reader

`Value` is the Go struct with all its fields. A reader is a function from the bytes not yet read to a result and the bytes
left; `readValue` recurses through arrays, so it carries a depth bound, which `readCommand` cannot exhaust.
-/

namespace VortexKV

structure Value where
  type : UInt8
  str : Bytes := []
  num : Int := 0
  bulk : Option Bytes := none
  array : List Value := []
  bool : Bool := false
  null : Bool := false
deriving Inhabited

namespace Value

def simpleString (s : Bytes) : Value := { type := 43, str := s }
def error (msg : Bytes) : Value := { type := 45, str := msg }
def integer (n : Int) : Value := { type := 58, num := n }
def bulkString (s : Bytes) : Value := { type := 36, bulk := some s }
def nil : Value := { type := 36, null := true }
def nullArray : Value := { type := 42, null := true }
def ofArray (items : List Value) : Value := { type := 42, array := items }

def toBytes (v : Value) : Bytes :=
  if v.type = 43 ∨ v.type = 45 then v.str
  else if v.type = 58 then formatInt v.num
  else if v.type = 36 then if v.null then "(nil)" else v.bulk.getD []
  else if v.type = 42 then
    if v.null then "(nil)" else lit "[" ++ formatUint v.array.length ++ lit " items]"
  else []

end Value

def CRLF : Bytes := [13, 10]

/-! ### Writing commands -/

def serializeArg (arg : Bytes) : Bytes := 36 :: formatUint arg.length ++ CRLF ++ (arg ++ CRLF)

/-- `resp.SerializeCommand`, and `Writer.WriteStringArray` on a non-nil slice. -/
def serializeCommand (args : List Bytes) : Bytes :=
  42 :: formatUint args.length ++ CRLF ++ args.flatMap serializeArg

/-! ### Writing values -/

def writeSimpleString (s : Bytes) : Bytes :=
  if s = lit "OK" then lit "+OK" ++ CRLF else if s = lit "PONG" then lit "+PONG" ++ CRLF else 43 :: (s ++ CRLF)

def writeInteger (n : Int) : Bytes :=
  if n = 0 then lit ":0" ++ CRLF else if n = 1 then lit ":1" ++ CRLF else 58 :: (formatInt n ++ CRLF)

mutual

/-- What `Writer.WriteValue` writes; `serializeArg` is `WriteBulkString`. -/
def writeValue : Value → Bytes
  | ⟨type, str, num, bulk, array, bool, null⟩ =>
    if type = 43 then writeSimpleString str
    else if type = 45 then 45 :: (str ++ CRLF)
    else if type = 58 then writeInteger num
    else if type = 36 then
      if null then lit "$-1" ++ CRLF else bulk.elim (lit "$-1" ++ CRLF) serializeArg
    else if type = 42 then
      if null then lit "*-1" ++ CRLF else 42 :: (formatUint array.length ++ CRLF ++ writeValues array)
    else serializeArg (Value.toBytes ⟨type, str, num, bulk, array, bool, null⟩)

def writeValues : List Value → Bytes
  | [] => []
  | v :: vs => writeValue v ++ writeValues vs

end

mutual

/-- `SerializeValue`, which writes nothing for a type that it does not know. -/
def serializeValue : Value → Bytes
  | ⟨type, str, num, bulk, array, _, null⟩ =>
    if type = 43 then 43 :: (str ++ CRLF)
    else if type = 45 then 45 :: (str ++ CRLF)
    else if type = 58 then 58 :: (formatInt num ++ CRLF)
    else if type = 36 then if null then lit "$-1" ++ CRLF else serializeArg (bulk.getD [])
    else if type = 42 then
      if null then lit "*-1" ++ CRLF else 42 :: (formatUint array.length ++ CRLF ++ serializeValues array)
    else []

def serializeValues : List Value → Bytes
  | [] => []
  | v :: vs => serializeValue v ++ serializeValues vs

end

/-! ### Reading -/

inductive ReadError
  | eof
  | unexpectedEOF
  | bufferFull
  | invalidSyntax
  | bulkTooLarge
  | multibulkTooLarge
  | expectedArray (got : UInt8)
deriving DecidableEq, Repr

abbrev Read (α : Type) := Except ReadError (α × Bytes)

def MaxBulkLength : Int := 512 * 1024 * 1024

def MaxArrayLength : Int := 1024 * 1024

/-- The size of the `bufio.Reader`'s buffer, which bounds a line. -/
def readBufferSize : Nat := 64 * 1024

def splitLine : Bytes → Option (Bytes × Bytes)
  | [] => none
  | c :: s => if c = 10 then some ([], s) else (splitLine s).map fun p => (c :: p.1, p.2)

/-- `Reader.readLine`: a line ends with CR LF or with LF alone. -/
def readLine (s : Bytes) : Read Bytes :=
  match splitLine s with
  | none => .error (if s.length < readBufferSize then .eof else .bufferFull)
  | some (line, rest) =>
    if readBufferSize < line.length + 1 then .error .bufferFull
    else if line.getLast? = some 13 then .ok (line.dropLast, rest)
    else .ok (line, rest)

/-- `Reader.readBulk`, after the `$`. -/
def readBulk (s : Bytes) : Read Value :=
  (readLine s).bind fun (line, rest) =>
    match parseInt64 line with
    | none => .error .invalidSyntax
    | some length =>
      if length = -1 then .ok (.nil, rest)
      else if length < -1 ∨ MaxBulkLength < length then .error .bulkTooLarge
      else
        let n := length.toNat
        if rest = [] then .error .eof
        else if rest.length < n + 2 then .error .unexpectedEOF
        else if (rest.drop n).take 2 = CRLF then .ok (.bulkString (rest.take n), rest.drop (n + 2))
        else .error .invalidSyntax

/-- `length` values in a row, each read by `read`. -/
def readItems (read : Bytes → Read Value) : Nat → Bytes → Read (List Value)
  | 0, s => .ok ([], s)
  | n + 1, s =>
    (read s).bind fun (v, s) => (readItems read n s).bind fun (vs, s) => .ok (v :: vs, s)

/-- `Reader.readArray`, after the `*`. -/
def readArray (read : Bytes → Read Value) (s : Bytes) : Read Value :=
  (readLine s).bind fun (line, rest) =>
    match parseInt64 line with
    | none => .error .invalidSyntax
    | some length =>
      if length = -1 then .ok (.nullArray, rest)
      else if length < -1 then .error .invalidSyntax
      else if MaxArrayLength < length then .error .multibulkTooLarge
      else (readItems read length.toNat rest).bind fun (items, rest) => .ok (.ofArray items, rest)

/-- `parseCommandLine`'s loop: `quote` is the open quote character, `cur` the argument being read. -/
def splitCommandLine (quote : Option UInt8) (cur : Bytes) : Bytes → List Bytes
  | [] => if cur = [] then [] else [cur]
  | c :: s =>
    match quote with
    | some q =>
      if c = q then splitCommandLine none cur s
      else if c = 92 then
        match s with
        | c' :: s' => splitCommandLine quote (cur ++ [c']) s'
        | [] => [cur ++ [c]]
      else splitCommandLine quote (cur ++ [c]) s
    | none =>
      if c = 34 ∨ c = 39 then splitCommandLine (some c) cur s
      else if c = 32 ∨ c = 9 then
        if cur = [] then splitCommandLine none [] s else cur :: splitCommandLine none [] s
      else splitCommandLine none (cur ++ [c]) s

def parseCommandLine (cmd : Bytes) : List Bytes := splitCommandLine none [] cmd

/-- `Reader.readInline`: a line that starts with no type byte. -/
def readInline (first : UInt8) (s : Bytes) : Read Value :=
  (readLine s).bind fun (line, rest) =>
    .ok (.ofArray ((parseCommandLine (first :: line)).map .bulkString), rest)

def readValue : Nat → Bytes → Read Value
  | 0, _ => .error .eof
  | _, [] => .error .eof
  | depth + 1, c :: s =>
    if c = 43 then (readLine s).bind fun (line, rest) => .ok (.simpleString line, rest)
    else if c = 45 then (readLine s).bind fun (line, rest) => .ok (.error line, rest)
    else if c = 58 then
      (readLine s).bind fun (line, rest) =>
        match parseInt64 line with
        | none => .error .invalidSyntax
        | some n => .ok (.integer n, rest)
    else if c = 36 then readBulk s
    else if c = 42 then readArray (readValue depth) s
    else if c = 95 then (readLine s).bind fun (_, rest) => .ok (.nil, rest)
    else if c = 35 then
      (readLine s).bind fun (line, rest) =>
        .ok ({ type := 35, bool := line.head? = some 116 }, rest)
    else readInline c s

/-- How `ReadCommand` turns an element of the array into an argument. -/
def Value.toArg (v : Value) : Bytes :=
  if v.type = 36 then v.bulk.getD []
  else if v.type = 43 then v.str
  else if v.type = 58 then formatInt v.num
  else v.toBytes

def readCommand (s : Bytes) : Read (List Bytes) :=
  (readValue (s.length + 1) s).bind fun (v, rest) =>
    if v.type = 42 then .ok (v.array.map Value.toArg, rest)
    else if v.type = 36 then .ok ([v.bulk.getD []], rest)
    else .error (.expectedArray v.type)

end VortexKV
