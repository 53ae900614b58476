import SmartTunnel.Base.Run
import SmartTunnel.Model.TCPController

/-!
# The threads of a `ChannelV4TCP`

`run` connects to the remote and writes to it what it polls; `ChannelReader` sends what it reads
to the client and ends in `remoteClosed`, however it came to its end; the keep-alive thread and
the close timer may end in `onTermination`, and `close` may be called from anywhere. What a
thread does between two waits is one step, a list of calls of the controller.

`close` removes the channel from its manager, interrupts the reader and calls `terminate`, which
interrupts the packet processor and the close timer and cancels the keep-alive. A reader that is
interrupted and a keep-alive that is cancelled still come to their end.

`ChannelReader.run` is the loop of that reader on everything that a remote sends.
-/

namespace SmartTunnel

open Jvm

namespace ChannelV4TCP

/-- The thread of `run`. -/
inductive Writer
  | connecting
  | polling
  | ended
  deriving DecidableEq, Repr

/-- The thread of `ChannelReader`. -/
inductive Reader
  | notStarted
  | reading
  /-- Out of the loop, and `remoteClosed` is still to be called. -/
  | leaving
  | ended
  deriving DecidableEq, Repr

/-- The thread of `KeepAliveThread`. -/
inductive KeepAlive
  | notStarted
  | running
  | ended
  deriving DecidableEq, Repr

end ChannelV4TCP

open ChannelV4TCP

structure ChannelV4TCP where
  mTCPController : TCPController
  writer : Writer := .connecting
  mRemoteReaderThread : Reader := .notStarted
  mKeepAliveThread : KeepAlive := .notStarted
  /-- `mStop` of the keep-alive: `terminate` was called. -/
  mStop : Bool := false
  /-- The close timer has run out. -/
  timerEnded : Bool := false
  deriving DecidableEq, Repr

namespace ChannelV4TCP

inductive Event
  /-- `connect` returned. -/
  | connected
  /-- `connect` raised. -/
  | connectFails
  /-- The packet processor takes a client packet. -/
  | client (pk : Segment)
  /-- A packet is polled; `written`: the remote is connected and takes it. -/
  | poll (written : Bool)
  /-- The reader got a chunk; `closed`: nothing more is available and the remote is gone. -/
  | chunk (data : Bytes) (psh closed : Bool)
  /-- The reader got to the end of the stream. -/
  | endOfStream
  /-- The remote is gone, or reading it raised. -/
  | readerCloses
  /-- The reader comes to its end. -/
  | readerLeaves
  /-- The interval of the keep-alive has passed. -/
  | doWork
  /-- The loop of the keep-alive has ended: cancelled, or no answer within the interval. -/
  | onTimeOut
  /-- The close timer has run out. -/
  | closeTimer
  | close
  deriving DecidableEq, Repr

/-- The queue lets `poll` return. -/
def canPoll (s : ChannelV4TCP) : Bool :=
  s.writer = .polling ∧ (TCPPacketQueue.poll s.mTCPController.mRemotePacketQueue).isSome

/-- The close timer was started and not interrupted. -/
def timerRuns (s : ChannelV4TCP) : Bool :=
  s.mTCPController.mTimerThread ∧ s.timerEnded = false ∧ s.mStop = false

/-- What a step calls. -/
def calls (s : ChannelV4TCP) : Event → List TCPController.Event
  | .connected => if s.writer = .connecting then [.connected] else []
  | .connectFails => if s.writer = .connecting then [.terminate] else []
  | .client pk => [.client pk]
  | .poll written =>
    if s.canPoll then
      if written then [.poll] else [.poll, .terminate]
    else []
  | .chunk data psh closed =>
    if s.mRemoteReaderThread = .reading ∧ data ≠ [] then
      if closed then [.packetFromRemote data psh, .close] else [.packetFromRemote data psh]
    else []
  | .endOfStream => []
  | .readerCloses => if s.mRemoteReaderThread = .reading then [.terminate] else []
  | .readerLeaves => if s.mRemoteReaderThread = .leaving then [.remoteClosed] else []
  | .doWork => if s.mKeepAliveThread = .running ∧ s.mStop = false then [.tick] else []
  | .onTimeOut => if s.mKeepAliveThread = .running then [.terminate] else []
  | .closeTimer => if s.timerRuns then [.terminate] else []
  | .close => [.terminate]

/-- The threads after a step. -/
def threads (s : ChannelV4TCP) : Event → ChannelV4TCP
  | .connected =>
    if s.writer = .connecting then { s with writer := .polling, mKeepAliveThread := .running } else s
  | .connectFails => if s.writer = .connecting then { s with writer := .ended } else s
  | .poll written => if s.canPoll ∧ written = false then { s with writer := .ended } else s
  | .endOfStream => if s.mRemoteReaderThread = .reading then { s with mRemoteReaderThread := .leaving } else s
  | .readerCloses => if s.mRemoteReaderThread = .reading then { s with mRemoteReaderThread := .leaving } else s
  | .readerLeaves => if s.mRemoteReaderThread = .leaving then { s with mRemoteReaderThread := .ended } else s
  | .onTimeOut => if s.mKeepAliveThread = .running then { s with mKeepAliveThread := .ended } else s
  | .closeTimer => if s.timerRuns then { s with timerEnded := true } else s
  | _ => s

/-- The controller is called; it may establish the connection or terminate. -/
def call (s : ChannelV4TCP) (calls : List TCPController.Event) : ChannelV4TCP :=
  let c := Run.run TCPController.step s.mTCPController calls
  let effects := c.log.drop s.mTCPController.log.length
  { s with
    mTCPController := c
    mRemoteReaderThread :=
      if .onConnectionEstablished ∈ effects then .reading else s.mRemoteReaderThread
    mStop := s.mStop ∨ .terminate ∈ calls ∨ .onTermination ∈ effects }

def step (s : ChannelV4TCP) (e : Event) : ChannelV4TCP := (s.threads e).call (s.calls e)

end ChannelV4TCP

/-! ## The loop of `ChannelReader` -/

/-- A controller and the loop that feeds it. -/
structure ChannelReader where
  mTCPController : TCPController
  /-- `waitIfWindowIsFull` has returned, and the remote is read. -/
  reading : Bool := false
  deriving DecidableEq, Repr

namespace ChannelReader

inductive Event
  /-- `waitIfWindowIsFull` returns. -/
  | proceeds
  /-- `mRemoteIn.read` returns `data`, and `available` bytes are left. -/
  | read (data : Bytes) (available : ℕ)
  /-- Another thread. -/
  | other (e : TCPController.Event)
  deriving DecidableEq, Repr

/-- The length of the buffer. -/
def bufferLength (s : ChannelReader) : ℕ := s.mTCPController.mMaxSegmentSize.toNat

/-- What a read passes on to the controller; an empty read ends the loop. -/
def passes (s : ChannelReader) (data : Bytes) : Bool :=
  s.reading ∧ data ≠ [] ∧ data.length ≤ s.bufferLength

def step (s : ChannelReader) : Event → ChannelReader
  | .proceeds =>
    -- the thread is started by `onConnectionEstablished`
    if .onConnectionEstablished ∈ s.mTCPController.log ∧ s.mTCPController.windowIsFull = false then
      { s with reading := true }
    else s
  | .read data available =>
    if s.passes data then
      let psh := data.length < s.bufferLength ∨ (data.length = s.bufferLength ∧ available = 0)
      { mTCPController := s.mTCPController.step (.packetFromRemote data psh), reading := false }
    else s
  | .other e => { s with mTCPController := s.mTCPController.step e }

/-! ### `run`, on what a remote sends -/

/-- What the thread finds in one round of the loop. -/
structure Round where
  /-- `isConnected()` at its start. -/
  connected : Bool := true
  /-- What the other threads do until the `read` returns. -/
  others : List TCPController.Event := []
  /-- How many bytes a `read` can return; `none` if it raises. -/
  arrived : Option ℕ
  /-- `available()` after the `read`; `none` if it raises. -/
  available : Option ℕ := some 0
  /-- `available()` when the chunk was passed on. -/
  availableAfter : Option ℕ := some 0
  /-- `isConnected()` when the chunk was passed on. -/
  connectedAfter : Bool := true
  deriving DecidableEq, Repr

/-- How the loop came to its end. -/
inductive Ending
  /-- `read` returned -1. -/
  | endOfStream
  /-- An `IOException`. -/
  | readError
  | notConnected
  /-- `read` returned 0. -/
  | emptyRead
  /-- An exception that `run` does not catch. -/
  | raised (e : JavaException)
  deriving DecidableEq, Repr

structure Loop where
  mTCPController : TCPController
  /-- What the remote has not sent yet. -/
  stream : Bytes
  /-- What went to `packetFromRemote`. -/
  chunks : List Bytes := []
  ended : Option Ending := none
  deriving DecidableEq, Repr

/-- `mRemoteIn.read(buffer)`, `none` for -1. It returns 0 for an empty buffer only. -/
def read (stream : Bytes) (bufferLength arrived : ℕ) : Option Bytes :=
  if bufferLength = 0 then some []
  else if stream = [] then none
  else some (stream.take (max 1 (min arrived bufferLength)))

namespace Loop

/-- `close()` of the channel terminates the controller. -/
def closed (s : Loop) (ending : Ending) : Loop :=
  { s with mTCPController := s.mTCPController.step .terminate, ended := some ending }

/-- When the chunk was passed on: if nothing is left and the remote is gone, the controller closes. -/
def afterChunk (s : Loop) (r : Round) : Loop :=
  match r.availableAfter with
  | none => s.closed .readError
  | some available =>
    if available = 0 ∧ r.connectedAfter = false then
      match Java.exec TCPController.sendFINPacket s.mTCPController with
      | (.ok _, c) => { s with mTCPController := c }
      | (.error e, c) => { s with mTCPController := c, ended := some (.raised e) }
    else s

/-- `packetFromRemote`. -/
def packetFromRemote (s : Loop) (data : Bytes) (psh : Bool) (r : Round) : Loop :=
  match Java.exec (TCPController.sendDataToClient data psh) s.mTCPController with
  | (.ok _, c) => afterChunk { s with mTCPController := c, chunks := s.chunks ++ [data] } r
  | (.error e, c) => { s with mTCPController := c, chunks := s.chunks ++ [data], ended := some (.raised e) }

/-- What was read is passed on, with `psh` if it ends what is available. -/
def pass (bufferLength : ℕ) (s : Loop) (data : Bytes) (r : Round) : Loop :=
  let s := { s with stream := s.stream.drop data.length }
  if data.length < bufferLength then s.packetFromRemote data true r
  else match r.available with
    | none => s.closed .readError
    | some available => s.packetFromRemote data (available = 0) r

/-- One round of the loop. -/
def round (bufferLength : ℕ) (s : Loop) (r : Round) : Loop :=
  if s.ended.isSome then s
  else if r.connected = false then s.closed .notConnected
  else
    let s := { s with mTCPController := Run.run TCPController.step s.mTCPController r.others }
    match r.arrived with
    | none => s.closed .readError
    | some arrived =>
      match read s.stream bufferLength arrived with
      | none => { s with ended := some .endOfStream }
      | some [] => { s with ended := some .emptyRead }
      | some data => s.pass bufferLength data r

end Loop

/-- `run` up to the end of its loop. The buffer keeps the size that it has got at the start. -/
def run (connected : Bool) (c : TCPController) (stream : Bytes) (rounds : List Round) : Loop :=
  let s : Loop := { mTCPController := c, stream := stream }
  if connected then Run.run (Loop.round c.mMaxSegmentSize.toNat) s rounds else s.closed .notConnected

end ChannelReader

end SmartTunnel
