import VortexKV.Aof
import VortexKV.ClusterConfig

/-!
# The reactor's parser

`internal/reactor/parser.go`. It works on the bytes a connection has sent so far and is called again with more of them
when a command is not complete. Counts and lengths are read digit by digit into an `int`, which may wrap.
-/

namespace VortexKV

inductive ParseResult
  | incomplete
  | protocolError
  /-- The arguments, and the number of bytes that they took. -/
  | command (args : Command) (consumed : Nat)
deriving DecidableEq

def fastAtoi (n : Int) : Bytes → Option Int
  | [] => some n
  | c :: s => (digitVal c).bind fun d => fastAtoi (wrap64 (n * 10 + d)) s

/-- What a header declares, from the line without its newline: the digits between the type byte and the CR. -/
def arrayCount (line : Bytes) : Option Int := fastAtoi 0 line.tail.dropLast

def bulkLength (line : Bytes) : Option Int :=
  match line.tail.dropLast with
  | 45 :: ds => (fastAtoi 0 ds).map fun n => wrap64 (-n)
  | ds => fastAtoi 0 ds

/-- A header is a type byte, its digits and CR. -/
def IsHeader (line : Bytes) : Prop := 2 ≤ line.length ∧ line.getLast? = some 13

instance (line : Bytes) : Decidable (IsHeader line) := inferInstanceAs (Decidable (_ ∧ _))

inductive BulkResult
  | incomplete
  | protocolError
  | arg (arg rest : Bytes)
deriving DecidableEq

def parseBulk (s : Bytes) : Except Stop BulkResult :=
  if s = [] then .ok .incomplete
  else if s.head? ≠ some 36 then .ok .protocolError
  else match splitLine s with
    | none => .ok .incomplete
    | some (line, rest) =>
      if ¬ IsHeader line then .ok .protocolError
      else match bulkLength line with
        | none => .ok .protocolError
        | some bulkLen =>
          if bulkLen = -1 then .ok (.arg [] rest)
          else if bulkLen < 0 then .ok .protocolError
          else if (rest.length : Int) < wrap64 (bulkLen + 2) then .ok .incomplete
          else match rest[bulkLen.toNat]?, rest[bulkLen.toNat + 1]? with
            | some c, some d =>
              if c = 13 ∧ d = 10 then .ok (.arg (rest.take bulkLen.toNat) (rest.drop (bulkLen.toNat + 2)))
              else .ok .protocolError
            -- the sum with the length wrapped, and the index is out of range
            | _, _ => .error .panic

def parseBulks (size : Nat) : Nat → Command → Bytes → Except Stop ParseResult
  | 0, args, s => .ok (.command args (size - s.length))
  | n + 1, args, s => (parseBulk s).bind fun
    | .incomplete => .ok .incomplete
    | .protocolError => .ok .protocolError
    | .arg a rest => parseBulks size n (args ++ [a]) rest

/-- The largest capacity for which `make([]string, 0, n)` does not panic. -/
def maxStrings : Int := 2 ^ 48 / 16

/-- `parseRESPArrayInto`, with the capacity of the slice that is reused. -/
def parseRESPArrayInto (cap : Nat) (data : Bytes) : Except Stop ParseResult :=
  match splitLine data with
  | none => .ok .incomplete
  | some (line, rest) =>
    if ¬ IsHeader line then .ok .protocolError
    else match arrayCount line with
      | none => .ok .protocolError
      | some count =>
        if count = 0 then .ok (.command [] (line.length + 1))
        else if cap < count ∧ maxStrings < count then .error .panic
        else parseBulks data.length count.toNat [] rest

/-- The line of an inline command without its line ending. -/
def inlineLine (line : Bytes) : Bytes := if line.getLast? = some 13 then line.dropLast else line

def parseInlineCommandInto (data : Bytes) : ParseResult :=
  match splitLine data with
  | none => .incomplete
  | some (line, _) => .command (splitFields (inlineLine line)) (line.length + 1)

def parseCommandInto (cap : Nat) (data : Bytes) : Except Stop ParseResult :=
  match data with
  | [] => .ok .incomplete
  | c :: _ => if c = 42 then parseRESPArrayInto cap data else .ok (parseInlineCommandInto data)

end VortexKV
