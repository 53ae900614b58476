import SmartTunnel.Model.PacketV4

/-!
# `UDPClient` and `UDPChannel`

All UDP flows share one connection to a udpgw server. A flow is an entry of
`mUDPClients`, its index the id byte of its frames; from 256 entries on the oldest is
replaced. `generateUdpgwPacket` frames a datagram for the server, `createUDPPacket` makes
a datagram of what was read from it, and `ReaderThread.run` feeds it one `read` at a time.
-/

namespace SmartTunnel

open Jvm ByteUtil

structure UDPClient where
  /-- The identification of the next IP header. -/
  id : BitVec 16 := 0
  localPort : BitVec 32
  localAddress : Bytes
  remotePort : BitVec 32
  remoteAddress : Bytes
  deriving DecidableEq, Repr

/-- `UDPClient.equals` does not compare `id`. -/
def UDPClient.equals (a b : UDPClient) : Bool :=
  a.localPort == b.localPort && a.remotePort == b.remotePort && a.localAddress == b.localAddress &&
    a.remoteAddress == b.remoteAddress

structure UDPChannel where
  mUDPClients : List UDPClient := []
  mClientIdCounter : ℕ := 0
  mClosed : Bool := false
  deriving DecidableEq, Repr

namespace UDPChannel

def MAX_CLIENT_ID : ℕ := 255

/-- `Short.MAX_VALUE`. -/
abbrev SHORT_MAX_VALUE : ℕ := 32767

instance : NeZero SHORT_MAX_VALUE := ⟨by decide⟩

/-- `ArrayList.get`. -/
def clientAt (clients : List UDPClient) (i : ℤ) : Except JavaException UDPClient :=
  if i < 0 then .error .indexOutOfBounds
  else match clients[i.toNat]? with
    | none => .error .indexOutOfBounds
    | some client => .ok client

/-! ## To the server -/

def getDataLength (data : Bytes) : Bytes :=
  [BitVec.ofNat 8 (data.length % 256), BitVec.ofNat 8 (data.length / 256)]

/-- A client that is not in the table takes the slot at the counter. -/
def addClient (client : UDPClient) (ch : UDPChannel) : UDPChannel :=
  { ch with
    mUDPClients :=
      if ch.mClientIdCounter < ch.mUDPClients.length then ch.mUDPClients.set ch.mClientIdCounter client
      else ch.mUDPClients ++ [client]
    mClientIdCounter := if MAX_CLIENT_ID < ch.mClientIdCounter + 1 then 0 else ch.mClientIdCounter + 1 }

/-- The flag and the id byte of an outgoing packet: `0` and the index of a known client, or
`2` and the slot of a new one. -/
def assignId (random : Fin SHORT_MAX_VALUE) (client : UDPClient) : Java UDPChannel (Byte × ℕ) := do
  let ch ← get
  match ch.mUDPClients.findIdx? client.equals with
  | some i => return (0, i)
  | none =>
    modify (addClient { client with id := BitVec.ofNat 16 random })
    return (2, ch.mClientIdCounter)

/-- `generateUdpgwPacket`; a null packet gives the keep-alive frame. `random` is the value
drawn for the identification of a new client. -/
def generateUdpgwPacket (random : Fin SHORT_MAX_VALUE) : Option PacketV4 → Java UDPChannel Bytes
  | none => do
    let payload ← Java.lift (ByteBuffer.layout 3 [some [1], some [0], some [0]])
    return getDataLength payload ++ payload
  | some packet => do
    let destAddress := packet.mIPV4Header.mDestAddress
    let destPort := packet.mTransmissionProtocol.getDestPort
    let localPort ← Java.lift (getIntValue packet.mTransmissionProtocol.getSourcePort)
    let remotePort ← Java.lift (getIntValue destPort)
    let (newPacketFlag, packetId) ← assignId random
      { localPort := localPort, localAddress := packet.mIPV4Header.mSourceAddress,
        remotePort := remotePort, remoteAddress := destAddress }
    let data ← Java.lift (deref packet.data)
    let payload ← Java.lift (ByteBuffer.layout (data.length + 3 + destAddress.length + destPort.length)
      [some [newPacketFlag], some [BitVec.ofNat 8 packetId], some [0], some destAddress, some destPort,
        some data])
    return getDataLength payload ++ payload

/-! ## From the server -/

/-- What `createUDPPacket` reads before it looks at the table. -/
structure UdpgwFields where
  payload : Bytes
  flags : Bytes
  destAddr : Bytes
  destPort : Bytes
  deriving DecidableEq, Repr

def payloadLength (payloadLengthBytes : Bytes) : Except JavaException ℤ := do
  return (← aget payloadLengthBytes 1).toInt * 256 + (← aget payloadLengthBytes 0).toInt

def readFields (data : Bytes) : Except JavaException UdpgwFields := do
  let payloadLengthBytes ← copyOfRange data 0 2
  let payloadLength ← payloadLength payloadLengthBytes
  let payload ← copyOfRange data 2 (payloadLength + 2)
  let flags ← copyOfRange payload 0 3
  let destAddr ← copyOfRange payload 3 (3 + 4)
  let destPort ← copyOfRange payload 7 (7 + 2)
  return ⟨payload, flags, destAddr, destPort⟩

def udpData (payload : Bytes) : Except JavaException Bytes := copyOfRange payload 9 payload.length

/-- The IP header of a datagram to a client. -/
def responseHeader (client : UDPClient) : IPV4Header where
  mSourceAddress := client.remoteAddress
  mDestAddress := client.localAddress
  mTimeToLive := 20
  mFlag := 0b010
  mTypeOfService := 0
  mFragmentOffset := 0
  mProtocol := UDP.PROTOCOL_NUMBER
  mIdentification := some (getByteFromInt (client.id.signExtend 32) 0)

/-- `client.id = (short) (client.id + 1)` for the client at index `i`. -/
def bumpId (i : ℕ) (ch : UDPChannel) : UDPChannel :=
  { ch with mUDPClients := ch.mUDPClients.modify i fun client => { client with id := client.id + 1 } }

def createUDPPacket (data : Bytes) : Java UDPChannel (Option PacketV4) := do
  let fields ← Java.lift (readFields data)
  let index := (← Java.lift (aget fields.flags 1)).toInt
  let client ← Java.lift (clientAt (← get).mUDPClients index)
  if client.remoteAddress ≠ fields.destAddr ∧ fields.destPort ≠ getByteFromInt client.remotePort 2 then
    return none
  let udpData ← Java.lift (udpData fields.payload)
  let header := responseHeader client
  modify (bumpId index.toNat)
  let udp := UDP.ofInts client.remotePort client.localPort
  let packet ← Java.lift (PacketV4.create header (.udp udp) (some udpData))
  return some packet

/-- `ReaderThread.run` on the results of its `read` calls, up to the end of the stream: the
packets it hands to `sendToLocal`, and the channel after it. An exception closes the channel. -/
def readerThread : List Bytes → UDPChannel → List PacketV4 × UDPChannel
  | [], ch => ([], { ch with mClosed := true })
  | read :: reads, ch =>
    if ch.mClosed then ([], ch)
    else match Java.exec (createUDPPacket read) ch with
      | (.ok (some packet), ch') =>
        let (packets, ch'') := readerThread reads ch'
        (packet :: packets, ch'')
      | (.ok none, ch') => readerThread reads ch'
      | (.error _, ch') => ([], { ch' with mClosed := true })

/-- One round of `run`: a packet without payload is skipped, an exception closes the channel. -/
def sendPacket (random : Fin SHORT_MAX_VALUE) (packet : PacketV4) (ch : UDPChannel) : UDPChannel :=
  if packet.data.isNone then ch
  else match Java.exec (generateUdpgwPacket random (some packet)) ch with
    | (.ok _, ch') => ch'
    | (.error _, ch') => { ch' with mClosed := true }

end UDPChannel

end SmartTunnel
