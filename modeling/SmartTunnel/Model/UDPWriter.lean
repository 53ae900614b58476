import SmartTunnel.Model.UDPChannel

/-!
# The threads of a `UDPChannel`

`onNewPacket` adds a packet to `mPacketQueue` and then releases a permit of `writerLock`; `run` polls the
queue, waits for a permit when it is empty, and writes the frames of the packets. The keep-alive thread
writes to the same stream, and `ReaderThread` works on the same table. A step of the system is a step of
one of the threads.
-/

namespace SmartTunnel

open Jvm UDPChannel

/-- Where the thread of `run` stands. -/
inductive WriterAt
  | starting
  | checking
  | polling
  | acquiring
  | framing (packet : PacketV4)
  | writing (packet : PacketV4) (udpgwPacket : Bytes)
  | ended
  deriving DecidableEq

/-- A frame on `mRemoteOut`, and who has written it. -/
inductive Written
  | packet (frame : Bytes)
  | keepAlive (frame : Bytes)
  deriving DecidableEq, Repr

structure UDPWriter where
  channel : UDPChannel := {}
  mPacketQueue : List PacketV4
  /-- The permits of `writerLock`. -/
  permits : ℕ := 0
  /-- The calls of `onNewPacket` that have added their packet and not released yet. -/
  pending : ℕ := 0
  writer : WriterAt := .starting
  /-- `mRemoteOut` is not null. -/
  connected : Bool := false
  out : List Written := []
  deriving DecidableEq

namespace UDPWriter

/-- A semaphore holds at most `Integer.MAX_VALUE` permits. -/
abbrev MAX_PERMITS : ℕ := 2 ^ 31 - 1

/-- The constructor. -/
def create (packet : PacketV4) : UDPWriter where
  mPacketQueue := [packet]

def close (s : UDPWriter) : UDPWriter := { s with channel := { s.channel with mClosed := true } }

/-- The end of `run`, behind the loop and its `catch`. -/
def leave (s : UDPWriter) : UDPWriter := { s.close with writer := .ended }

inductive Event
  /-- The first step of `onNewPacket`. -/
  | add (packet : PacketV4)
  /-- The second step of a call of `onNewPacket`. -/
  | release
  /-- The next step of `run`, with the number that a new client would draw. -/
  | writer (random : Fin SHORT_MAX_VALUE)
  /-- The call that `run` is in raises. -/
  | raise
  /-- The connection is not there when `run` starts. -/
  | notConnected
  /-- `doWork` of the keep-alive thread. -/
  | keepAlive
  /-- A round of `ReaderThread`. -/
  | read (data : Bytes)
  | close
  deriving DecidableEq

/-- `writerLock.release()`; beyond the maximum it raises. -/
def release (s : UDPWriter) : UDPWriter :=
  if s.pending = 0 then s
  else { s with
    pending := s.pending - 1
    permits := if s.permits = MAX_PERMITS then s.permits else s.permits + 1 }

/-- A step of `run`. -/
def writerStep (random : Fin SHORT_MAX_VALUE) (s : UDPWriter) : UDPWriter :=
  match s.writer with
  | .starting => { s with connected := true, writer := .checking }
  | .checking => if s.channel.mClosed then s.leave else { s with writer := .polling }
  | .polling => match s.mPacketQueue with
    | [] => { s with writer := .acquiring }
    | packet :: rest =>
      { s with mPacketQueue := rest, writer := if packet.data.isNone then .checking else .framing packet }
  -- without a permit the thread waits
  | .acquiring => if s.permits = 0 then s else { s with permits := s.permits - 1, writer := .checking }
  -- the frame is made in one step and written in another
  | .framing packet => match Java.exec (generateUdpgwPacket random (some packet)) s.channel with
    | (.ok udpgwPacket, ch) => { s with channel := ch, writer := .writing packet udpgwPacket }
    | (.error _, ch) => { s with channel := ch }.leave
  | .writing _ udpgwPacket => { s with out := s.out ++ [.packet udpgwPacket], writer := .checking }
  | .ended => s

/-- The calls of `run` that may raise: those that connect, `acquire` and `write`. -/
def raise (s : UDPWriter) : UDPWriter :=
  match s.writer with
  | .starting | .acquiring | .writing _ _ => s.leave
  | _ => s

def keepAlive (s : UDPWriter) : UDPWriter :=
  if s.connected then
    match (Java.exec (generateUdpgwPacket 0 none) s.channel).1 with
    | .ok frame => { s with out := s.out ++ [.keepAlive frame] }
    | .error _ => s
  else s

/-- An exception ends the reader, which closes the channel. -/
def read (data : Bytes) (s : UDPWriter) : UDPWriter :=
  if s.connected then
    match Java.exec (createUDPPacket data) s.channel with
    | (.ok _, ch) => { s with channel := ch }
    | (.error _, ch) => { s with channel := ch }.close
  else s

def step (s : UDPWriter) : Event → UDPWriter
  | .add packet => { s with mPacketQueue := s.mPacketQueue ++ [packet], pending := s.pending + 1 }
  | .release => s.release
  | .writer random => s.writerStep random
  | .raise => s.raise
  | .notConnected => if s.writer = .starting then { s with writer := .ended } else s
  | .keepAlive => s.keepAlive
  | .read data => s.read data
  | .close => s.close

end UDPWriter

end SmartTunnel
