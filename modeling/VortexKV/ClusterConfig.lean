import VortexKV.Cluster
import VortexKV.Stream

/-!
# The configuration file of a cluster node

The texts of `internal/cluster/node.go` and `cluster.go`: a node as a line of `CLUSTER NODES`, the configuration
file made of such lines, and `parseAndMergeNodesTextLocked`, which reads them into the node table. A new manager
gives itself a new ID and then reads the file.
-/

namespace VortexKV

/-! ### Splitting texts -/

/-- `strings.Split` at a byte. -/
def splitByte (b : UInt8) : Bytes → List Bytes
  | [] => [[]]
  | c :: s =>
    if c = b then [] :: splitByte b s
    else match splitByte b s with
      | [] => [[c]]
      | p :: ps => (c :: p) :: ps

/-- `unicode.IsSpace`. -/
def isSpaceRune (r : Nat) : Bool :=
  r ∈ [9, 10, 11, 12, 13, 32, 0x85, 0xA0, 0x1680, 0x2028, 0x2029, 0x202F, 0x205F, 0x3000] || (0x2000 ≤ r && r ≤ 0x200A)

/-- The encodings of the runes of a string; `fuel` is at least the length. -/
def runeTexts : Nat → Bytes → List Bytes
  | 0, _ => []
  | _, [] => []
  | fuel + 1, s => s.take (max 1 (decodeRune s).2) :: runeTexts fuel (s.drop (max 1 (decodeRune s).2))

def isSpaceText (t : Bytes) : Bool := isSpaceRune (decodeRune t).1

def trimSpace (s : Bytes) : Bytes :=
  (((runeTexts s.length s).dropWhile isSpaceText).reverse.dropWhile isSpaceText).reverse.flatten

/-- The loop of `strings.Fields`; `cur` is the field under way. -/
def fieldLoop (cur : Bytes) : List Bytes → List Bytes
  | [] => if cur = [] then [] else [cur]
  | t :: ts =>
    if isSpaceText t then (if cur = [] then fieldLoop [] ts else cur :: fieldLoop [] ts)
    else fieldLoop (cur ++ t) ts

/-- `strings.Fields`. -/
def splitFields (s : Bytes) : List Bytes := fieldLoop [] (runeTexts s.length s)

/-- `strings.Join`. -/
def joinBytes (sep : Bytes) : List Bytes → Bytes
  | [] => []
  | [t] => t
  | t :: ts => t ++ sep ++ joinBytes sep ts

/-- The bytes before and after the last `c`. -/
def cutAtLast (c : UInt8) (s : Bytes) : Option (Bytes × Bytes) :=
  (cutAt c s.reverse).map fun p => (p.2.reverse, p.1.reverse)

/-- The value of `strconv.ParseUint`, its error dropped. -/
def parseUintValue (s : Bytes) : Nat := (parseUint64 s).getD (if uintOverflows 0 s then 2 ^ 64 - 1 else 0)

/-- `%d` of `fmt.Sscanf` into a `uint16`: the number and what follows. -/
def scanUint16 (s : Bytes) : Option (Nat × Bytes) :=
  let digits := s.takeWhile fun c => (digitVal c).isSome
  (parseUint64 digits).bind fun n => if n < 2 ^ 16 then some (n, s.drop digits.length) else none

/-! ### Slot ranges -/

namespace ClusterNode

@[irreducible] def slotsList (n : ClusterNode) : List Nat := (List.range 16384).filter (· ∈ n.slots)

def rangeText (start stop : Nat) : Bytes :=
  if start = stop then formatUint start else formatUint start ++ lit "-" ++ formatUint stop

/-- The loop of `SlotRangesString`. -/
def rangeTexts (start prev : Nat) : List Nat → List Bytes
  | [] => [rangeText start prev]
  | curr :: rest => if curr = prev + 1 then rangeTexts start curr rest else rangeText start prev :: rangeTexts curr curr rest

def slotRangesString (n : ClusterNode) : Bytes :=
  match n.slotsList with
  | [] => []
  | s :: rest => joinBytes (lit " ") (rangeTexts s s rest)

def slotStr (n : ClusterNode) : Bytes := if n.role = .master then n.slotRangesString else []

def formatNodeLine (isMyself : Bool) (n : ClusterNode) : Bytes :=
  let role := if n.role = .master then lit "master" else lit "slave"
  let flags := (if isMyself then [lit "myself"] else []) ++ [role] ++
    if n.fail then [lit "fail"] else if n.pFail then [lit "fail?"] else []
  let masterID := if n.masterID = [] then lit "-" else n.masterID
  let line := joinBytes (lit " ") [n.id, n.ip ++ lit ":" ++ formatInt n.port ++ lit "@" ++ formatInt n.busPort,
    joinBytes (lit ",") flags, masterID, formatInt n.pingSent, formatInt n.pongRecv, formatUint n.epoch, n.linkState]
  if n.slotStr ≠ [] then line ++ lit " " ++ n.slotStr else line

end ClusterNode

/-- A word of `ParseSlotRanges`. -/
def parseSlotRange (p : Bytes) : Option (List Nat) :=
  if 45 ∈ p then
    (scanUint16 p).bind fun (start, rest) => match rest with
      | 45 :: rest => (scanUint16 rest).bind fun (stop, _) =>
          if start > stop ∨ stop ≥ 16384 then none else some (List.range' start (stop + 1 - start))
      | _ => none
  else (scanUint16 p).bind fun (s, _) => if s ≥ 16384 then none else some [s]

def parseSlotRanges (spec : Bytes) : Option (List Nat) :=
  ((splitFields spec).mapM parseSlotRange).map fun ls => ls.flatten.insertionSort (· ≤ ·)

/-! ### The file -/

namespace ClusterManager

/-- The lines of the nodes: the node itself, then the peers in the order of their keys. -/
def nodeTexts (cm : ClusterManager) : List Bytes :=
  cm.selfNode.formatNodeLine true ::
    ((sortedKeys cm.nodes).filter (· ≠ cm.selfNode.id)).filterMap fun id => (cm.nodes.lookup id).map fun q => (cm.heap q).formatNodeLine false

def formatNodes (cm : ClusterManager) : Bytes := joinBytes (lit "\n") cm.nodeTexts ++ lit "\n"

/-- `saveConfigLocked`: the text that it writes. -/
def saveConfig (cm : ClusterManager) : Bytes :=
  cm.nodeTexts.flatMap (· ++ lit "\n") ++ (lit "vars currentEpoch " ++ formatUint cm.currentEpoch ++ lit " lastVoteEpoch 0\n")

/-- The address part of a line: IP, port and bus port. -/
def parseAddr (addr : Bytes) : Bytes × Int × Int :=
  let (addr, busPort) := match cutAt 64 addr with
    | some (addr, bus) => (addr, (parseInt64 bus).getD 17379)
    | none => (addr, 17379)
  match cutAtLast 58 addr with
  | some (ip, port) => (ip, (parseInt64 port).getD 7379, busPort)
  | none => (lit "127.0.0.1", 7379, busPort)

def readVars (cm : ClusterManager) : List Bytes → ClusterManager
  | name :: value :: rest =>
    let cm := if name = lit "currentEpoch" then
        match parseUint64 value with
        | some ep => { cm with currentEpoch := ep }
        | none => cm
      else cm
    readVars cm rest
  | _ => cm

def knownNode (seed : NodeSeed) (nowMilli : Int) (cm : ClusterManager) (id ip : Bytes) (port busPort : Int) (role : NodeRole) :
    Nat × ClusterManager :=
  match cm.nodes.lookup id with
  | some q => (q, cm)
  | none => (cm.next, cm.enter id (newNode seed nowMilli id ip port busPort role))

structure NodeLine where
  id : Bytes
  ip : Bytes
  port : Int
  busPort : Int
  myself : Bool
  role : NodeRole
  masterID : Bytes
  epoch : Nat
  linkState : Bytes
  /-- The slots, if there is a ninth field and the role is that of a master -/
  slots : List Nat

def parseNodeLine (parts : List Bytes) : Option NodeLine :=
  match parts with
  | id :: addr :: flags :: masterID :: _ :: _ :: epoch :: linkState :: ranges =>
    let (ip, port, busPort) := parseAddr addr
    let role := if lit "slave" <:+: flags then .slave else .master
    some { id, ip, port, busPort, role, masterID, linkState
           myself := lit "myself" <:+: flags
           epoch := parseUintValue epoch
           slots := if ranges ≠ [] ∧ role = .master then (parseSlotRanges (joinBytes (lit " ") ranges)).getD [] else [] }
  | _ => none

def linePeer (seed : NodeSeed) (nowMilli : Int) (cm : ClusterManager) (l : NodeLine) : Nat × ClusterManager :=
  let (q, cm) := cm.knownNode seed nowMilli l.id l.ip l.port l.busPort l.role
  (q, cm.setNode q fun n => { n with masterID := l.masterID, epoch := l.epoch, linkState := l.linkState })

def lineSelf (cm : ClusterManager) (l : NodeLine) : ClusterManager :=
  cm.setNode cm.self fun n => { n with
    id := l.id, ip := l.ip, port := l.port, busPort := l.busPort, role := l.role, masterID := l.masterID
    epoch := l.epoch, linkState := l.linkState }

def lineNode (seed : NodeSeed) (nowMilli : Int) (cm : ClusterManager) (l : NodeLine) : Nat × ClusterManager :=
  if l.myself then
    if cm.selfNode.id = [] ∨ cm.selfNode.id = l.id then (cm.self, cm.lineSelf l) else cm.linePeer seed nowMilli l
  else if l.id = cm.selfNode.id then (cm.self, cm)
  else cm.linePeer seed nowMilli l

def mergeNode (seed : NodeSeed) (nowMilli : Int) (cm : ClusterManager) (l : NodeLine) : ClusterManager :=
  let (q, cm) := cm.lineNode seed nowMilli l
  l.slots.foldl (fun cm s => cm.gainSlot q s) cm

def mergeLine (seed : NodeSeed) (nowMilli : Int) (cm : ClusterManager) (line : Bytes) : ClusterManager :=
  let line := trimSpace line
  if line = [] then cm
  else if lit "vars " <+: line then cm.readVars (splitFields line).tail
  else match parseNodeLine (splitFields line) with
    | none => cm
    | some l => cm.mergeNode seed nowMilli l

def parseAndMergeNodesText (seed : NodeSeed) (nowMilli : Int) (cm : ClusterManager) (text : Bytes) : ClusterManager :=
  (splitByte 10 text).foldl (mergeLine seed nowMilli) cm

end ClusterManager

/-- The manager of a node that is alone, before `NewClusterManager` reads the file. -/
def loneManager (seed : NodeSeed) (nowMilli : Int) (ip : Bytes) (port busPort : Int) : ClusterManager :=
  let port := if port ≤ 0 then 7379 else port
  let busPort := if busPort ≤ 0 then port + 10000 else busPort
  let self := newNode seed nowMilli [] ip port busPort .master
  { enabled := true
    self := 0
    heap := fun _ => self
    nodes := (∅ : GoMap Nat).insert self.id 0
    slotMap := fun _ => none
    currentEpoch := 1
    lastVoteEpoch := 0
    migratingSlots := fun _ => none
    importingSlots := fun _ => none
    failReports := ∅
    nodeTimeout := 2000 * 1000000
    next := 1 }

/-- `NewClusterManager`, with the contents of the configuration file if there is one. -/
def newClusterManager (seed : NodeSeed) (nowMilli : Int) (ip : Bytes) (port busPort : Int) (file : Option Bytes) : ClusterManager :=
  match file with
  | none => loneManager seed nowMilli ip port busPort
  | some text => (loneManager seed nowMilli ip port busPort).parseAndMergeNodesText seed nowMilli text

end VortexKV
