import VortexKV.RingBuffer
import VortexKV.ReactorParser
import VortexKV.Reactor

/-!
# The event loop of a connection

`handleRead`, `flushWrite`, `closeConn` and the registration with epoll in `internal/reactor/reactor_linux.go`, for one
connection. What the socket answers is given from outside. `handleRead` is cut at its reads: with unread bytes in the ring
buffer it reads again, which are as many calls of `onRead`. The engine is a parameter: `exec` gives what a command appends.
-/

namespace VortexKV

/-- What `syscall.Read` into `readBuf` gives. -/
inductive ReadResult
  | data (bs : Bytes)
  | eof
  | again
  | failed

/-- What `syscall.Write` gives: the socket takes `n` bytes, or all if there are fewer. -/
inductive WriteResult
  | wrote (n : Nat)
  | again
  | failed

inductive LoopEvent
  | ran (args : Command)
  | wrote (bs : Bytes)
  | closed
deriving DecidableEq

def readBufLen : Nat := 64 * 1024

structure Conn (σ : Type) where
  inRing : RingBuffer
  engine : σ
  outBuf : Bytes := []
  closed : Bool := false
  /-- The answers to the writes to come; after them every write takes all bytes. -/
  writes : List WriteResult := []
  log : List LoopEvent := []

/-- What becomes of the bytes that are to be written: those the socket takes, those left, and whether the connection broke. -/
structure Flush where
  writes : List WriteResult
  sent : Bytes
  left : Bytes
  broken : Bool := false

/-- The retries after the first `EAGAIN`: the first one that succeeds ends them, even if bytes are left. -/
def retryWrite : Nat → List WriteResult → Bytes → Flush
  | 0, ws, buf => ⟨ws, [], buf, false⟩
  | _ + 1, [], buf => ⟨[], buf, [], false⟩
  | _ + 1, .wrote n :: ws, buf => ⟨ws, buf.take n, buf.drop n, false⟩
  | k + 1, .again :: ws, buf => retryWrite k ws buf
  | _ + 1, .failed :: ws, buf => ⟨ws, [], buf, true⟩

def writeAll : List WriteResult → Bytes → Flush
  | ws, [] => ⟨ws, [], [], false⟩
  | [], buf => ⟨[], buf, [], false⟩
  | .wrote n :: ws, buf =>
    let f := writeAll ws (buf.drop n)
    { f with sent := buf.take n ++ f.sent }
  | .again :: ws, buf => retryWrite 50 ws buf
  | .failed :: ws, buf => ⟨ws, [], buf, true⟩

namespace Conn

variable {σ : Type}

def record (c : Conn σ) (ev : LoopEvent) : Conn σ := { c with log := c.log ++ [ev] }

def closeConn (c : Conn σ) : Conn σ := if c.closed then c else { c with closed := true }.record .closed

def flushWrite (c : Conn σ) : Conn σ :=
  if c.outBuf = [] then c
  else
    let f := writeAll c.writes c.outBuf
    if f.broken then ({ c with writes := f.writes }.record (.wrote f.sent)).closeConn
    else { c with writes := f.writes, outBuf := f.left }.record (.wrote f.sent)

def protocolError (c : Conn σ) : Conn σ :=
  { c with outBuf := c.outBuf ++ lit "-ERR protocol error" ++ CRLF }.flushWrite.closeConn

variable (exec : Command → σ → Bytes × σ)

def executeCommand (args : Command) (c : Conn σ) : Conn σ :=
  let c := c.record (.ran args)
  if args = [] then c
  else if isQuit args then { c with outBuf := c.outBuf ++ respOK }.flushWrite.closeConn
  else { c with outBuf := c.outBuf ++ (exec args c.engine).1, engine := (exec args c.engine).2 }

/-- The loop over commands in `readBuf`, and the flush after it. Each round takes a byte or more. -/
def pipeline : Nat → Bytes → Conn σ → Except Stop (Conn σ)
  | 0, _, c => .ok c.flushWrite
  | n + 1, buf, c =>
    if buf = [] then .ok c.flushWrite
    else (parseCommandInto 16 buf).bind fun
      | .protocolError => .ok c.protocolError
      | .incomplete => .ok { c with inRing := c.inRing.write buf }.flushWrite
      | .command args consumed => pipeline n (buf.drop consumed) (c.executeCommand exec args)

def drained (c : Conn σ) : Conn σ := (if c.inRing.isEmpty then { c with inRing := c.inRing.reset } else c).flushWrite

def drain : Nat → Conn σ → Except Stop (Conn σ)
  | 0, c => .ok c.drained
  | n + 1, c =>
    if c.inRing.data = [] then .ok c.drained
    else (parseCommandInto 16 c.inRing.data).bind fun
      | .protocolError => .ok c.protocolError
      | .incomplete => .ok c.drained
      | .command args consumed => drain n ({ c with inRing := c.inRing.advanceRead consumed }.executeCommand exec args)

def drainRing (c : Conn σ) : Except Stop (Conn σ) := c.drain exec (c.inRing.len + 1)

/-- The first command of a read with nothing in the ring buffer. -/
def direct (buf : Bytes) (c : Conn σ) : Except Stop (Conn σ) :=
  (parseCommandInto 16 buf).bind fun
    | .protocolError => .ok c.protocolError
    | .incomplete => { c with inRing := c.inRing.write buf }.drainRing exec
    | .command args consumed => (c.executeCommand exec args).pipeline exec buf.length (buf.drop consumed)

/-- What `handleRead` does with one read. -/
def onRead (c : Conn σ) (r : ReadResult) : Except Stop (Conn σ) :=
  if c.closed then .ok c
  else match r with
    | .eof | .failed => .ok c.closeConn
    | .again => if c.inRing.isEmpty then .ok c else c.drainRing exec
    | .data buf =>
      if c.inRing.isEmpty then c.direct exec buf
      else
        let c := { c with inRing := c.inRing.write buf }
        -- a read that fills `readBuf` is followed by another before anything is parsed
        if buf.length < readBufLen then c.drainRing exec else .ok c

def serve (reads : List ReadResult) (c : Conn σ) : Except Stop (Conn σ) := reads.foldlM (onRead exec) c

def commands (c : Conn σ) : List Command := c.log.filterMap fun
  | .ran args => some args
  | _ => none

/-- What has been appended for the client: the bytes written, and those still to be. -/
def output (c : Conn σ) : Bytes := (c.log.flatMap fun
  | .wrote bs => bs
  | _ => []) ++ c.outBuf

end Conn

inductive EpollFlag
  | epollin
  | epollout
  | epollerr
  | epollhup
deriving DecidableEq

/-- What `acceptConns` registers for a connection; nothing changes it until the close. `run` closes the connection on the
last two and calls `handleRead` on the first. -/
def registered : List EpollFlag := [.epollin, .epollerr, .epollhup]

/-- A connection as `acceptConns` makes it, with the size from the configuration. -/
def Conn.accepted {σ : Type} (ringSize : Int) (engine : σ) (writes : List WriteResult) : Conn σ :=
  { inRing := .new ringSize, engine, writes }

end VortexKV
