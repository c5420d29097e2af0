import VortexKV.Resp

/-!
# The append-only file

The file is its bytes. `OpenAOF` opens it for appending and leaves what is there as it is, so writing
after a reopen continues behind whatever a crash left (`writeCommands`). `replay` delivers the non-empty
commands it reads and stops at the first error, the end of the file included.
-/

namespace VortexKV

abbrev Command := List Bytes

/-- `AOF.WriteCommand` on a file with these bytes. -/
def writeCommand (file : Bytes) (args : Command) : Bytes := file ++ serializeCommand args

def writeCommands (file : Bytes) (cs : List Command) : Bytes := cs.foldl writeCommand file

/-- `OpenAOF` on an existing file: the bytes stay, writes go to the end. -/
def openAOF (file : Bytes) : Bytes := file

/-- The loop of `persistence.Replay`: the commands handed to the handler. -/
def replayLoop : Nat → Bytes → List Command
  | 0, _ => []
  | fuel + 1, s =>
    match readCommand s with
    | .error _ => []
    | .ok (cmd, rest) => if cmd = [] then replayLoop fuel rest else cmd :: replayLoop fuel rest

/-- `persistence.Replay`. Every command takes at least a byte, so the length of the file is fuel enough. -/
def replay (file : Bytes) : List Command := replayLoop (file.length + 1) file

/-- `ReadCommand` again and again. -/
def readLoop : Nat → Bytes → List Command × ReadError
  | 0, _ => ([], .eof)
  | fuel + 1, s =>
    match readCommand s with
    | .error e => ([], e)
    | .ok (cmd, rest) => (cmd :: (readLoop fuel rest).1, (readLoop fuel rest).2)

/-- The commands that repeated `ReadCommand` yields, and the error that ends them. -/
def readCommands (s : Bytes) : List Command × ReadError := readLoop (s.length + 1) s

/-- The commands of `cs` that lie whole in the bytes `p`. -/
def complete : List Command → Bytes → List Command
  | [], _ => []
  | c :: cs, p =>
    if (serializeCommand c).length ≤ p.length then
      c :: complete cs (p.drop (serializeCommand c).length)
    else []

/-- A command that the reader takes back: not empty, and within the reader's limits. -/
def Recordable (c : Command) : Prop :=
  c ≠ [] ∧ c.length ≤ MaxArrayLength.toNat ∧ ∀ a ∈ c, a.length ≤ MaxBulkLength.toNat

instance (c : Command) : Decidable (Recordable c) := by unfold Recordable; infer_instance

theorem writeCommands_eq (file : Bytes) (cs : List Command) :
    writeCommands file cs = file ++ cs.flatMap serializeCommand := by
  induction cs generalizing file with
  | nil => simp [writeCommands]
  | cons c cs ih =>
    rw [writeCommands, List.foldl_cons, ← writeCommands, ih, writeCommand, List.flatMap_cons,
      List.append_assoc]

end VortexKV
