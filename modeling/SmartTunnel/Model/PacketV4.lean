import SmartTunnel.Model.IPV4Header
import SmartTunnel.Model.TCP

/-!
# `PacketV4` and the parser of `PacketManager`

A packet is an IPv4 header, a transport header and a payload that may be null.
`getPacketBytes` serialises it; `getPacket` parses a datagram read from the tun device.
An exception raised while the packet is built makes `getPacket` return null, one raised
by `IPV4Header.fromHeaderByte` leaves it. `LocalReader.run` parses one datagram after the
other and catches neither.
-/

namespace SmartTunnel

open Jvm ByteUtil

inductive TransmissionProtocol
  | tcp (t : TCP)
  | udp (u : UDP)
  deriving DecidableEq, Repr

namespace TransmissionProtocol

def getHeaderLength : TransmissionProtocol → Except JavaException ℕ
  | tcp t => t.getHeaderLength
  | udp u => .ok u.getHeaderLength

def getProtocolNumber : TransmissionProtocol → Byte
  | tcp _ => TCP.PROTOCOL_NUMBER
  | udp _ => UDP.PROTOCOL_NUMBER

def getSourcePort : TransmissionProtocol → Bytes
  | tcp t => t.mSourcePort
  | udp u => u.mSourcePort

def getDestPort : TransmissionProtocol → Bytes
  | tcp t => t.mDestPort
  | udp u => u.mDestPort

/-- Dispatch of a method on the class of the object. -/
def dispatch {α : Type} (onTcp : Java TCP α) (onUdp : Java UDP α) : Java TransmissionProtocol α :=
  ExceptT.mk fun s => match s with
    | tcp t => ((Java.exec onTcp t).1, tcp (Java.exec onTcp t).2)
    | udp u => ((Java.exec onUdp u).1, udp (Java.exec onUdp u).2)

def calculateChecksum (sourceIP destIP : Bytes) (data : Option Bytes) : Java TransmissionProtocol Unit :=
  dispatch (TCP.calculateChecksum sourceIP destIP data) (UDP.calculateChecksum sourceIP destIP data)

def getHeader : Java TransmissionProtocol Bytes := dispatch TCP.getHeader UDP.getHeader

@[simp] theorem exec_dispatch_tcp {α : Type} (onTcp : Java TCP α) (onUdp : Java UDP α) (t : TCP) :
    Java.exec (dispatch onTcp onUdp) (tcp t) =
      ((Java.exec onTcp t).1, tcp (Java.exec onTcp t).2) := rfl

@[simp] theorem exec_dispatch_udp {α : Type} (onTcp : Java TCP α) (onUdp : Java UDP α) (u : UDP) :
    Java.exec (dispatch onTcp onUdp) (udp u) =
      ((Java.exec onUdp u).1, udp (Java.exec onUdp u).2) := rfl

end TransmissionProtocol

/-- `Packet.MAX_SIZE`. -/
def MAX_SIZE : ℕ := 32 * 1024

structure PacketV4 where
  mIPV4Header : IPV4Header
  mTransmissionProtocol : TransmissionProtocol
  data : Option Bytes
  deriving DecidableEq, Repr

namespace PacketV4

def dataLength (p : PacketV4) : ℕ := (p.data.map List.length).getD 0

/-- `new PacketV4(IPV4Header, TransmissionProtocol, byte[])`. -/
def create (header : IPV4Header) (protocol : TransmissionProtocol) (data : Option Bytes) :
    Except JavaException PacketV4 := do
  if MAX_SIZE < header.getHeaderLength + (← protocol.getHeaderLength) + (data.map List.length).getD 0 then
    throw .illegalArgument
  return ⟨header, protocol, data⟩

def onHeader {α : Type} (x : Java IPV4Header α) : Java PacketV4 α :=
  Java.onField PacketV4.mIPV4Header (fun h p => { p with mIPV4Header := h }) x

def onProtocol {α : Type} (x : Java TransmissionProtocol α) : Java PacketV4 α :=
  Java.onField PacketV4.mTransmissionProtocol (fun t p => { p with mTransmissionProtocol := t }) x

def getPacketBytes : Java PacketV4 Bytes := do
  let p ← get
  let protocolLength ← Java.lift p.mTransmissionProtocol.getHeaderLength
  let totalLength := p.mIPV4Header.getHeaderLength + protocolLength + p.dataLength
  onHeader (modify fun h =>
    { h with mTotalLength := some (getByteFromInt (BitVec.ofNat 32 totalLength) 2) })
  onHeader (modify fun h => { h with mHeaderChecksum := none })
  let buffer ← Java.lift (ByteBuffer.allocate totalLength)
  let buffer ← Java.lift (buffer.put (some (← onHeader IPV4Header.getHeader)))
  onProtocol (TransmissionProtocol.calculateChecksum p.mIPV4Header.mSourceAddress
    p.mIPV4Header.mDestAddress p.data)
  let buffer ← Java.lift (buffer.put (some (← onProtocol TransmissionProtocol.getHeader)))
  let buffer ← Java.lift (buffer.putAll (if p.data.isSome then [p.data] else []))
  return buffer.array

end PacketV4

namespace PacketManager

/-- The `TransmissionProtocolFactory` of `generatePacketV4`: null for other protocols. -/
def protocolOf (fuel : ℕ) (protocol : Byte) (transmissionLayerData : Bytes) :
    Fueled (Option TransmissionProtocol) :=
  if protocol = TCP.PROTOCOL_NUMBER then do
    return some (.tcp (← TCP.fromTCPHeader fuel transmissionLayerData))
  else if protocol = UDP.PROTOCOL_NUMBER then do
    return some (.udp (← Fueled.lift (UDP.fromHeaderBytes transmissionLayerData)))
  else
    return none

/-- `new PacketV4(byte[], IPV4Header, TransmissionProtocolFactory)`. -/
def newPacketV4 (fuel : ℕ) (packet : Bytes) (header : IPV4Header) : Fueled PacketV4 := do
  if MAX_SIZE < packet.length then throw JavaException.illegalArgument
  let transmissionLayerData ← Fueled.lift (copyOfRange packet header.getHeaderLength packet.length)
  let protocol ← protocolOf fuel header.mProtocol transmissionLayerData
  let protocol ← Fueled.lift (deref protocol)
  let dataOffset ← Fueled.lift protocol.getHeaderLength
  if header.getHeaderLength + dataOffset < packet.length then
    let totalLength ← Fueled.lift (deref header.mTotalLength)
    let totalLength ← Fueled.lift (getIntValue totalLength)
    let data ← Fueled.lift
      (copyOfRange packet (header.getHeaderLength + dataOffset : ℕ) totalLength.toInt)
    return ⟨header, protocol, some data⟩
  else
    return ⟨header, protocol, none⟩

/-- `try { return … } catch (Exception e) { return null; }`. -/
def orNull {α : Type} (x : Fueled α) : Fueled (Option α) :=
  ExceptT.mk ((ExceptT.run x).map fun r => match r with
    | .ok a => .ok (some a)
    | .error _ => .ok none)

def generatePacketV4 (fuel : ℕ) (packetBytes : Bytes) : Fueled (Option PacketV4) := do
  let header ← Fueled.lift (IPV4Header.fromHeaderByte packetBytes)
  orNull (newPacketV4 fuel packetBytes header)

def getPacket (fuel : ℕ) (packetBytes : Bytes) : Fueled (Option PacketV4) := do
  let first ← Fueled.lift (aget packetBytes 0)
  let version : Byte := ((first.signExtend 32).sshiftRight 4).setWidth 8
  if version = 4 then generatePacketV4 fuel packetBytes
  else return none

end PacketManager

namespace LocalReader

/-- The rounds of `run` over what it reads from the tun device, with the packets that
`PacketManager.sendToRemoteServer` hands on. A read of nothing is followed by a pause; a
round with a datagram ends when the parser returns, and nothing is handed on for null. -/
inductive Reads : List Bytes → List PacketV4 → Prop
  | nil : Reads [] []
  | idle {datagrams : List Bytes} {packets : List PacketV4} :
      Reads datagrams packets → Reads ([] :: datagrams) packets
  | send {packet : Bytes} {datagrams : List Bytes} {r : Option PacketV4} {packets : List PacketV4} :
      packet ≠ [] → Fueled.Ends (fun n => PacketManager.getPacket n packet) (.ok r) →
      Reads datagrams packets → Reads (packet :: datagrams) (r.toList ++ packets)

end LocalReader

end SmartTunnel
