import SmartTunnel.Model.TCPController

/-!
# `SshChannelManager`

Every packet of a client goes to the channel of its flow, which its first packet creates.
Channels and their threads are kept in two maps under the same id. A channel that closes is
looked up by `Channel.equals`, in the order of the map's iterator, which Java leaves open.
-/

namespace SmartTunnel

open Jvm ByteUtil

namespace PacketV4

def getSourceAddress (p : PacketV4) : Bytes := p.mIPV4Header.mSourceAddress

def getDestAddress (p : PacketV4) : Bytes := p.mIPV4Header.mDestAddress

def getSourcePort (p : PacketV4) : Bytes := p.mTransmissionProtocol.getSourcePort

def getDestPort (p : PacketV4) : Bytes := p.mTransmissionProtocol.getDestPort

def getProtocolNumber (p : PacketV4) : Byte := p.mIPV4Header.mProtocol

/-- `getTransmissionProtocol() instanceof UDP`. -/
def isUDP (p : PacketV4) : Bool :=
  match p.mTransmissionProtocol with
  | .tcp _ => false
  | .udp _ => true

end PacketV4

/-- The classes of channels. -/
inductive ChannelClass
  | SshChannelV4TCP
  | DNSChannel
  | UDPChannel
  deriving DecidableEq, Repr

/-- A channel object: `ref` is its identity, `initialPacket` what it was constructed from. -/
structure Channel where
  ref : ℕ
  getClass : ChannelClass
  id : String
  initialPacket : PacketV4
  mLocalPort : Bytes
  mRemotePort : Bytes
  mLocalAddress : Bytes
  mRemoteAddress : Bytes
  deriving DecidableEq, Repr

/-- `Channel.equals`. -/
def Channel.equals (channel o : Channel) : Bool :=
  channel.ref == o.ref ||
    (channel.getClass == o.getClass && channel.mLocalPort == o.mLocalPort &&
      channel.mLocalAddress == o.mLocalAddress)

/-- `new Thread(channel)`, named after the channel. -/
structure ChannelThread where
  channel : ℕ
  name : String
  deriving DecidableEq, Repr

namespace SshChannelManager

/-- What is seen of the manager. -/
inductive Effect
  /-- A channel took the packet it was constructed from. -/
  | constructed (channel : Channel)
  | onNewPacket (channel : Channel) (packet : PacketV4)
  | interrupt (thread : ChannelThread)
  deriving DecidableEq, Repr

end SshChannelManager

structure SshChannelManager where
  mChannels : AList fun _ : String => Channel
  mThreads : AList fun _ : String => ChannelThread
  udpgwPort : BitVec 32
  /-- The identity of the next object. -/
  nextRef : ℕ := 0
  log : List SshChannelManager.Effect := []

namespace SshChannelManager

/-- `new SshChannelManager`. -/
def new (udpgwPort : BitVec 32) : SshChannelManager where
  mChannels := ∅
  mThreads := ∅
  udpgwPort := udpgwPort

def emit (e : Effect) : Java SshChannelManager Unit := modify fun m => { m with log := m.log ++ [e] }

/-- UDP, but not to port 53. -/
def isOtherUDP (packet : PacketV4) : Except JavaException Bool := do
  if packet.isUDP then return (← getIntValue packet.getDestPort) ≠ 53 else return false

/-- `String.format(Locale.US, "%s_%d_to_%s_%d_%d", …)`. -/
def flowId (packet : PacketV4) : Except JavaException String := do
  let sourcePort ← getIntValue packet.getSourcePort
  let destPort ← getIntValue packet.getDestPort
  return IPV4Header.getIPAddress packet.getSourceAddress ++ "_" ++ Int.repr sourcePort.toInt ++ "_to_" ++
    IPV4Header.getIPAddress packet.getDestAddress ++ "_" ++ Int.repr destPort.toInt ++ "_" ++
    Int.repr packet.getProtocolNumber.toInt

/-- The id of the channel of a packet. -/
def channelId (packet : PacketV4) : Except JavaException String := do
  if ← isOtherUDP packet then return "udp_channel" else flowId packet

/-- The constructor of `Channel`. -/
def newChannel (ref : ℕ) (getClass : ChannelClass) (id : String) (packet : PacketV4) : Channel where
  ref := ref
  getClass := getClass
  id := id
  initialPacket := packet
  mLocalPort := packet.getSourcePort
  mRemotePort := packet.getDestPort
  mLocalAddress := packet.getSourceAddress
  mRemoteAddress := packet.getDestAddress

/-- The channel for the first packet of a flow, if it may have one; `random` is what the
constructor of a TCP channel draws. -/
def createChannel (random : BitVec 32 × BitVec 16) (ref : ℕ) (channelId : String) (pk : PacketV4) :
    Except JavaException (Option Channel) :=
  match pk.mTransmissionProtocol with
  | .tcp tcp => do
    -- no channel unless the packet opens a connection
    let flag ← deref tcp.mFlag
    if flag.SYN = 0 then return none
    let _ ← TCPController.new pk.mIPV4Header tcp random.1 random.2
    return some (newChannel ref .SshChannelV4TCP channelId pk)
  | .udp _ => do
    if (← getIntValue pk.getDestPort) = 53 then return some (newChannel ref .DNSChannel channelId pk)
    else return some (newChannel ref .UDPChannel channelId pk)

/-- The channel and its thread are put under the id, and the thread is started. -/
def register (channelId : String) (channel : Channel) (m : SshChannelManager) : SshChannelManager :=
  { m with
    mChannels := m.mChannels.insert channelId channel
    mThreads := m.mThreads.insert channelId ⟨channel.ref, channelId⟩
    nextRef := m.nextRef + 1
    log := m.log ++ [.constructed channel] }

def sendToRemoteServer (random : BitVec 32 × BitVec 16) (packet : PacketV4) : Java SshChannelManager Unit := do
  -- no udpgw port was set, so no UDP channel is started
  if (← Java.lift (isOtherUDP packet)) ∧ (← get).udpgwPort = 0 then return ()
  else
    let channelId ← Java.lift (channelId packet)
    match (← get).mChannels.lookup channelId with
    | some channel => emit (.onNewPacket channel packet)
    | none =>
      match ← Java.lift (createChannel random (← get).nextRef channelId packet) with
      | none => return ()
      | some channel => modify (register channelId channel)

/-- `removeChannel`, where `keySet` is iterated in the order `ids`: the first entry that
equals the channel is removed and its thread interrupted. -/
def removeChannel (ids : List String) (channel : Channel) (m : SshChannelManager) : SshChannelManager :=
  match ids.find? fun id => (m.mChannels.lookup id).any channel.equals with
  | none => m
  | some id => { m with
      mChannels := m.mChannels.erase id
      mThreads := m.mThreads.erase id
      log := m.log ++ ((m.mThreads.lookup id).map Effect.interrupt).toList }

inductive Event
  | sendToRemoteServer (packet : PacketV4) (random : BitVec 32 × BitVec 16)
  | removeChannel (channel : Channel) (ids : List String)
  deriving DecidableEq, Repr

/-- One call. An exception leaves it and changes nothing. -/
def step (m : SshChannelManager) : Event → SshChannelManager
  | .sendToRemoteServer packet random => (Java.exec (SshChannelManager.sendToRemoteServer random packet) m).2
  | .removeChannel channel ids => SshChannelManager.removeChannel ids channel m

end SshChannelManager

end SmartTunnel
