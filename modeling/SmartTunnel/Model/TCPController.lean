import SmartTunnel.Model.PacketV4
import SmartTunnel.Model.TCPPacketQueue

/-!
# `TCPController` and its `ChannelV4TCP`

The controller plays the server's part of a client's TCP connection. Segments of the client
are processed one at a time by `PacketProcessor.run`: payload goes to `mRemotePacketQueue`,
from which `ChannelV4TCP.run` polls what it writes to the remote. Chunks read from the remote
are sent to the client and kept in `mClientPackets` until they are acknowledged.

A method that raises ends the thread it runs on and keeps what it wrote. `log` is what an
observer sees: packets queued, polled and handed to the client, oldest first.
-/

namespace SmartTunnel

open Jvm ByteUtil

/-- `TCP.State`. -/
inductive State
  | LISTEN
  | SYN_RECEIVED
  | ESTABLISHED
  | FIN_WAIT_1
  | FIN_WAIT_2
  | CLOSE_WAIT
  | CLOSING
  | LAST_ACK
  | TIME_WAIT
  | CLOSED
  deriving DecidableEq, Repr

/-- A packet of the client, as the packet processor reads it. -/
structure Segment where
  sequenceNumber : BitVec 32
  acknowledgmentNumber : BitVec 32 := 0
  windowSize : BitVec 32 := 0
  flag : TCPFlag
  option : Option TCPOption := none
  data : Option Bytes := none
  deriving DecidableEq, Repr

namespace Segment

/-- The segment of a packet, if it is TCP and its fields are there. -/
def ofPacket (packet : PacketV4) : Option Segment :=
  match packet.mTransmissionProtocol with
  | .udp _ => none
  | .tcp tcp => do
    let flag ← tcp.mFlag
    let sequenceNumber ← tcp.getSequenceNumberIntValue.toOption
    let acknowledgmentNumber ← tcp.getAcknowledgmentNumberIntValue.toOption
    let windowSize ← tcp.getWindowSize.toOption
    return {
      sequenceNumber := sequenceNumber
      acknowledgmentNumber := acknowledgmentNumber
      windowSize := windowSize
      flag := flag
      option := tcp.mTCPOption
      data := packet.data }

def dataLength (pk : Segment) : ℕ := (pk.data.map List.length).getD 0

end Segment

/-- What is seen of a controller. -/
inductive Effect
  /-- `mRemotePacketQueue.put` of a client packet. -/
  | queued (wrapper : TCPPacketWrapper Segment)
  /-- `mRemotePacketQueue.poll` returned. -/
  | polled (wrapper : TCPPacketWrapper Segment)
  /-- The client's FIN was accepted. -/
  | finAccepted
  | onConnectionEstablished
  | onPacketReadyForClient (packet : PacketV4)
  | onTermination
  deriving DecidableEq, Repr

structure TCPController where
  /-- The IP and the TCP header of `mInitialPacket`, the client's SYN. -/
  mInitialHeader : IPV4Header
  mInitialTCP : TCP
  mIpIdentification : BitVec 16
  mRemotePacketQueue : List (TCPPacketWrapper Segment) := []
  mClientPackets : List (TCPPacketWrapper PacketV4) := []
  mState : State := .LISTEN
  mClientSeqNumber : BitVec 32
  mClientNexSeqNumber : BitVec 32
  mRemoteSeqNumber : BitVec 32
  mMaxSegmentSize : BitVec 32 := 0
  mClientWindowSize : BitVec 32
  mClientWindowSizeScale : BitVec 32 := 0
  /-- `startCloseTimer` was called. -/
  mTimerThread : Bool := false
  /-- The packet processor was interrupted, or an exception ended it. -/
  processorEnded : Bool := false
  log : List Effect := []
  deriving DecidableEq, Repr

namespace TCPController

def SERVER_MAX_SEGMENT_SIZE : BitVec 32 := 1400

def mServerWindowSize : ℤ := 65535

def mServerWindowSizeScale : ℤ := 8

/-- `new TCPController` for a client's SYN; `random` is the initial sequence number drawn. -/
def new (header : IPV4Header) (tcp : TCP) (random : BitVec 32) (ipIdentification : BitVec 16) :
    Except JavaException TCPController := do
  let sequenceNumber ← tcp.getSequenceNumberIntValue
  let windowSize ← tcp.getWindowSize
  let maxSegmentSize ← match tcp.mTCPOption with
    | none => pure 0
    | some option => option.getMaximumSegmentSize
  let scale : Byte := (tcp.mTCPOption.map TCPOption.windowScale).getD 0
  return {
    mInitialHeader := header
    mInitialTCP := tcp
    mIpIdentification := ipIdentification
    mClientSeqNumber := sequenceNumber
    mClientNexSeqNumber := sequenceNumber + 1
    mRemoteSeqNumber := random
    mMaxSegmentSize := maxSegmentSize
    mClientWindowSize := windowSize
    mClientWindowSizeScale := if scale ≠ 0 then 1 <<< (scale.toNat % 32) else 0 }

def emit (e : Effect) : Java TCPController Unit := modify fun c => { c with log := c.log ++ [e] }

/-! ## Packets to the client -/

/-- `ChannelV4TCP.generateHeader`, from the remote to the local address. -/
def generateHeader : Java TCPController IPV4Header := do
  let c ← get
  modify fun c => { c with mIpIdentification := c.mIpIdentification + 1 }
  return {
    mSourceAddress := c.mInitialHeader.mDestAddress
    mDestAddress := c.mInitialHeader.mSourceAddress
    mFlag := c.mInitialHeader.mFlag
    mIdentification := some (getByteFromInt (c.mIpIdentification.signExtend 32) 2)
    mProtocol := TCP.PROTOCOL_NUMBER
    mTimeToLive := 60
    mFragmentOffset := c.mInitialHeader.mFragmentOffset
    mTypeOfService := c.mInitialHeader.mTypeOfService }

/-- `TcpPacketCreator.create`. -/
def create (tcp : TCP) (data : Option Bytes) : Java TCPController PacketV4 := do
  let header ← generateHeader
  Java.lift (PacketV4.create header (.tcp tcp) data)

/-- The payload length of the wrapper that `peek` returns. -/
def peekLength : List (TCPPacketWrapper Segment) → ℕ
  | [] => 0
  | pk :: _ => (pk.mPacket.map Segment.dataLength).getD 0

/-- The loop of `makeTcpPacket` looks at the first wrapper in every round. -/
def totalRemainingPacketDataSize (queue : List (TCPPacketWrapper Segment)) : ℕ :=
  (queue.map fun _ => peekLength queue).sum

def advertisedWindow (c : TCPController) : BitVec 32 :=
  let totalWindowSize := mServerWindowSize * mServerWindowSizeScale -
    totalRemainingPacketDataSize c.mRemotePacketQueue
  BitVec.ofInt 32 (totalWindowSize.tdiv mServerWindowSizeScale)

/-- The TCP header of `makeTcpPacket`. -/
def makeTcp (c : TCPController) (flag : TCPFlag) (option : Option TCPOption) : TCP :=
  let tcp : TCP := { mSourcePort := c.mInitialTCP.mDestPort, mDestPort := c.mInitialTCP.mSourcePort }
  let tcp := tcp.setUrgentPointer 0
  let tcp := tcp.setWindowSize c.advertisedWindow
  let tcp := { tcp with mFlag := some flag }
  let tcp := tcp.setAcknowledgmentNumber c.mClientNexSeqNumber
  let tcp := tcp.setSequenceNumber c.mRemoteSeqNumber
  { tcp with mTCPOption := option }

def makeTcpPacket (data : Option Bytes) (flag : TCPFlag) (option : Option TCPOption) :
    Java TCPController PacketV4 := do
  create (makeTcp (← get) flag option) data

/-- The sequence number after a packet: its payload does not count with a SYN or a FIN. -/
def nextSeqNumber (packet : PacketV4) : Except JavaException (BitVec 32) :=
  match packet.mTransmissionProtocol with
  | .udp _ => .ok 0
  | .tcp tcp => do
    let flag ← deref tcp.mFlag
    let sequenceNumber ← tcp.getSequenceNumberIntValue
    if flag.SYN = 1 ∨ flag.FIN = 1 then return sequenceNumber + 1
    else return sequenceNumber + BitVec.ofNat 32 packet.dataLength

def sendToLocal (packet : PacketV4) : Java TCPController Unit := do
  let nextSeqNumber ← Java.lift (nextSeqNumber packet)
  if packet.data.isSome then
    modify fun c => { c with mClientPackets := c.mClientPackets ++ [{
      mPacket := some packet
      sequenceNumber := c.mRemoteSeqNumber
      nextSequenceNumber := nextSeqNumber
      acknowledgeNumber := c.mClientNexSeqNumber }] }
  modify fun c => { c with mRemoteSeqNumber := nextSeqNumber }
  emit (.onPacketReadyForClient packet)

/-- Every packet to the client but a retransmission: made, then sent. -/
def makeAndSend (data : Option Bytes) (flag : TCPFlag) (option : Option TCPOption) :
    Java TCPController Unit := do
  let packet ← makeTcpPacket data flag option
  sendToLocal packet

def sendACKToClient (option : Option TCPOption) : Java TCPController Unit :=
  makeAndSend none TCPFlag.ACKOnly option

def setState (state : State) : Java TCPController Unit := modify fun c => { c with mState := state }

/-- The payload of the last packet in `mClientPackets`, which FIN and RST carry again. -/
def lastData (c : TCPController) : Option (Option Bytes) :=
  c.mClientPackets.getLast?.map fun w => w.mPacket.bind PacketV4.data

/-- FIN or RST: with the payload of the last unacknowledged packet, and then with PSH. -/
def sendClosing (flag : TCPFlag) : Java TCPController Unit := do
  match (← get).lastData with
  | none => makeAndSend none flag none
  | some data => makeAndSend data { flag with PSH := 1 } none

def sendFINPacket : Java TCPController Unit := do
  setState (if (← get).mState = .ESTABLISHED then .FIN_WAIT_1 else .LAST_ACK)
  sendClosing TCPFlag.FIN_ACK

def serverOption (op : TCPOption) : TCPOption :=
  { op.setMaximumSegmentSize SERVER_MAX_SEGMENT_SIZE with
    selectiveAcknowledgmentPermitted := true
    windowScale := BitVec.ofInt 8 mServerWindowSizeScale }

def handshake : Java TCPController Unit := do
  setState .SYN_RECEIVED
  makeAndSend none TCPFlag.SYN_ACK (some (serverOption {}))

def sendCloseConnectionToClient : Java TCPController Unit := sendClosing TCPFlag.RST_ACK

def sendKeepAlivePacket : Java TCPController Unit := do
  modify fun c => { c with mRemoteSeqNumber := c.mRemoteSeqNumber - 1 }
  makeAndSend (some [0]) TCPFlag.ACKOnly none

/-- `packetFromRemote`: a chunk that ends what is available is sent without PSH. -/
def sendDataToClient (data : Bytes) (push : Bool) : Java TCPController Unit :=
  makeAndSend (some data) (if push then TCPFlag.ACKOnly else TCPFlag.PSH_ACK) none

def terminate : Java TCPController Unit := do
  sendCloseConnectionToClient
  modify fun c => { c with processorEnded := true }

/-- `TcpListener.onTermination`: the channel closes and terminates the controller. -/
def onTermination : Java TCPController Unit := do
  emit .onTermination
  terminate

/-- `waitIfWindowIsFull` waits as long as this holds: the window of the client's last segment is zero. -/
def windowIsFull (c : TCPController) : Bool := c.mClientWindowSize = 0

/-! ## The packet processor -/

def updateClientSeqNumber (pk : Segment) : Java TCPController Unit :=
  modify fun c => { c with
    mClientSeqNumber := pk.sequenceNumber
    mClientNexSeqNumber := pk.sequenceNumber + (match pk.data with
      | some data => BitVec.ofNat 32 data.length
      | none => if pk.flag.SYN = 1 ∨ pk.flag.FIN = 1 then 1 else 0) }

def createPacketWrapper (pk : Option Segment) (seqNumber nextSeqNumber ackNumber : BitVec 32) (push : Bool) :
    TCPPacketWrapper Segment where
  mPacket := pk
  sequenceNumber := seqNumber
  nextSequenceNumber := nextSeqNumber
  acknowledgeNumber := ackNumber
  push := push

/-- The wrapper of a client packet. -/
def wrapperOf (pk : Segment) (push : Bool) : TCPPacketWrapper Segment :=
  createPacketWrapper (some pk) pk.sequenceNumber (pk.sequenceNumber + BitVec.ofNat 32 pk.dataLength)
    pk.acknowledgmentNumber push

/-- A wrapper, and a placeholder for the packet after it. Each put takes the lock of the queue anew: `PacketProcessor` lets
other threads in between. -/
def putToQueue (wrapper : TCPPacketWrapper Segment) : Java TCPController Unit := do
  modify fun c => { c with mRemotePacketQueue := TCPPacketQueue.put wrapper c.mRemotePacketQueue }
  emit (.queued wrapper)
  let next := createPacketWrapper none wrapper.nextSequenceNumber 0 0 false
  modify fun c => { c with mRemotePacketQueue := TCPPacketQueue.put next c.mRemotePacketQueue }

/-- The variables of `generateSacks`, and `get(i - 1).getNextSequenceNumber()`. -/
structure SackScan where
  findLeftEdge : Bool := false
  findRightEdge : Bool := false
  leftEdge : BitVec 32 := 0
  previousNext : BitVec 32 := 0
  sacks : List SACK := []
  deriving DecidableEq, Repr

/-- One round of `generateSacks`. -/
def SackScan.round (s : SackScan) (tw : TCPPacketWrapper Segment) : SackScan :=
  let s :=
    if tw.mPacket.isNone then
      if ¬ s.findLeftEdge then { s with findLeftEdge := true }
      else if s.findRightEdge then
        { s with
          sacks := s.sacks ++ [⟨s.leftEdge, s.previousNext⟩]
          findLeftEdge := false
          findRightEdge := false }
      else s
    else if s.findLeftEdge then { s with leftEdge := tw.nextSequenceNumber, findRightEdge := true }
    else s
  { s with previousNext := tw.nextSequenceNumber }

def generateSacks (queue : List (TCPPacketWrapper Segment)) : List SACK :=
  (queue.foldl SackScan.round {}).sacks

/-- `sendACKToClient` with SACK blocks. -/
def sendSacks (sacks : List SACK) : Java TCPController Unit := do
  let option ← Java.lift (TCPOption.setSelectiveAcknowledgment {} sacks)
  sendACKToClient (some option)

/-- A segment that does not start at `mClientNexSeqNumber`. -/
def outOfSequence (pk : Segment) : Java TCPController Unit := do
  let next := (← get).mClientNexSeqNumber
  match pk.data with
  | some data =>
    if pk.sequenceNumber = next - 1 then
      -- a keep-alive of the client
      sendSacks [⟨pk.sequenceNumber, pk.sequenceNumber + BitVec.ofNat 32 data.length⟩]
    else if next.toInt < pk.sequenceNumber.toInt then
      putToQueue (wrapperOf pk (pk.flag.PSH = 1))
      sendSacks (generateSacks (← get).mRemotePacketQueue)
    else
      -- a duplicate is discarded
      return ()
  | none => if pk.flag.RST = 1 then onTermination

def removeAcknowledgedPackets (acknowledgmentNumber : BitVec 32) : Java TCPController Unit :=
  modify fun c => { c with mClientPackets :=
    match c.mClientPackets.findIdx? fun w => w.nextSequenceNumber == acknowledgmentNumber with
    | some removeIndex => c.mClientPackets.drop (removeIndex + 1)
    | none => c.mClientPackets }

/-- The loop of `findLossPacket`, from block `sacIndex` on. The test before `break` never
holds, so the walk goes on behind the last block. -/
def findLossPacket (sacks : List (Option SACK)) : List (TCPPacketWrapper PacketV4) → ℕ → BitVec 32 →
    Except JavaException (List (TCPPacketWrapper PacketV4))
  | [], _, _ => .ok []
  | pwr :: allPackets, sacIndex, acknowledgmentNumber =>
    match sacks[sacIndex]? with
    | none => .error .arrayIndexOutOfBounds
    | some sack =>
      if pwr.sequenceNumber = acknowledgmentNumber then do
        let sack ← deref sack
        if pwr.nextSequenceNumber = sack.leftEdge then
          if sacks.length < sacIndex + 1 then return [pwr]
          else return pwr :: (← findLossPacket sacks allPackets (sacIndex + 1) sack.rightEdge)
        else return pwr :: (← findLossPacket sacks allPackets sacIndex acknowledgmentNumber)
      else findLossPacket sacks allPackets sacIndex acknowledgmentNumber

/-- The packets that a SACK makes the controller send again. -/
def lossPackets (c : TCPController) (sacks : List (Option SACK)) (acknowledgmentNumber : BitVec 32) :
    Except JavaException (List PacketV4) := do
  return (← findLossPacket sacks c.mClientPackets 0 acknowledgmentNumber).filterMap TCPPacketWrapper.mPacket

def resendPacketsToClient (sacks : List (Option SACK)) (acknowledgmentNumber : BitVec 32) :
    Java TCPController Unit := do
  let lostPackets ← Java.lift ((← get).lossPackets sacks acknowledgmentNumber)
  modify fun c => { c with log := c.log ++ lostPackets.map .onPacketReadyForClient }

/-- The acknowledgment of a segment without payload. -/
def acknowledge (pk : Segment) : Java TCPController Unit := do
  match (← get).mState with
  | .ESTABLISHED =>
    match pk.option with
    | some option =>
      match ← Java.lift option.getSelectiveAcknowledgmentIntValues with
      | some sacks => resendPacketsToClient sacks pk.acknowledgmentNumber
      | none => return ()
    | none => removeAcknowledgedPackets pk.acknowledgmentNumber
  | .FIN_WAIT_1 =>
    setState .FIN_WAIT_2
    modify fun c => { c with mTimerThread := true }
  | .LAST_ACK => onTermination
  | .SYN_RECEIVED =>
    emit .onConnectionEstablished
    setState .ESTABLISHED
  | _ => return ()

/-- Payload in sequence goes to the queue. -/
def queueInSequence (pk : Segment) (push : Bool) : Java TCPController Unit := do
  putToQueue (wrapperOf pk push)
  updateClientSeqNumber pk

def acceptSynAck (pk : Segment) : Java TCPController Unit := do
  updateClientSeqNumber pk
  sendACKToClient (some (serverOption {}))

def acceptFin (pk : Segment) : Java TCPController Unit := do
  updateClientSeqNumber pk
  emit .finAccepted
  if (← get).mState = .ESTABLISHED then
    setState .CLOSE_WAIT
    sendACKToClient none
    setState .LAST_ACK
    sendFINPacket
  else
    setState .TIME_WAIT
    sendACKToClient none

/-- A segment that starts at `mClientNexSeqNumber`. -/
def inSequence (pk : Segment) : Java TCPController Unit := do
  if pk.flag.SYN = 1 ∧ pk.flag.ACK = 1 then acceptSynAck pk
  if pk.flag.PSH = 1 then queueInSequence pk true
  else if pk.flag.ACK = 1 ∧ pk.flag.FIN = 0 ∧ pk.flag.RST = 0 then
    if pk.data.isSome then queueInSequence pk false else acknowledge pk
  if pk.flag.RST = 1 then onTermination
  if pk.flag.FIN = 1 then acceptFin pk

/-- One round of `PacketProcessor.run`. -/
def process (pk : Segment) : Java TCPController Unit := do
  if pk.flag.SYN = 1 ∧ pk.flag.ACK = 0 then return ()
  else
    modify fun c => { c with mClientWindowSize := pk.windowSize }
    if pk.sequenceNumber ≠ (← get).mClientNexSeqNumber then outOfSequence pk
    else inSequence pk

/-! ## The threads -/

/-- What can happen to a controller and its channel. -/
inductive Event
  /-- `onChannelConnected`. -/
  | connected
  /-- The packet processor takes a client packet. -/
  | client (pk : Segment)
  /-- The writer thread polls the queue. -/
  | poll
  | packetFromRemote (data : Bytes) (push : Bool)
  /-- The keep-alive interval has passed. -/
  | tick
  | close
  | remoteClosed
  | terminate
  deriving DecidableEq, Repr

/-- A client packet; an exception ends the processor. -/
def packetFromClient (pk : Segment) (c : TCPController) : TCPController :=
  if c.processorEnded then c
  else match Java.exec (process pk) c with
    | (.ok _, c') => c'
    | (.error _, c') => { c' with processorEnded := true }

def pollQueue (c : TCPController) : TCPController :=
  match TCPPacketQueue.poll c.mRemotePacketQueue with
  | none => c
  | some (w, queue) => { c with mRemotePacketQueue := queue, log := c.log ++ [.polled w] }

/-- One atomic step. -/
def step (c : TCPController) : Event → TCPController
  | .connected => (Java.exec handshake c).2
  | .client pk => packetFromClient pk c
  | .poll => pollQueue c
  | .packetFromRemote data push => (Java.exec (sendDataToClient data push) c).2
  | .tick => (Java.exec sendKeepAlivePacket c).2
  | .close => (Java.exec sendFINPacket c).2
  | .remoteClosed => (Java.exec sendFINPacket c).2
  | .terminate => (Java.exec TCPController.terminate c).2

end TCPController

end SmartTunnel
