import SmartTunnel.Base.Stream
import SmartTunnel.Model.SshChannelManager

/-!
# DNS queries over TCP

A query of the client is sent to the server over TCP behind its length in two bytes, and
the answer is handed back as a datagram without them. `DynamicDNSForwarder` and
`DNSForwarder` do so for the datagrams of tun2socks, `DNSChannel` for those of the packet
manager. Each reads the answer with one call. The connection to the server stands.
-/

namespace SmartTunnel

open Jvm ByteUtil

/-- The array that is written to the server. -/
def tcpData (udpData : Bytes) : Except JavaException Bytes := do
  let tcpData := List.replicate (udpData.length + 2) 0
  let lengthBytes := getByteFromInt (BitVec.ofNat 32 udpData.length) 2
  let tcpData ← ArrayUtil.replace tcpData 0 lengthBytes
  ArrayUtil.replace tcpData 2 udpData

/-- `java.net.DatagramPacket`: the first `length` bytes of `data`. -/
structure DatagramPacket where
  data : Bytes
  length : ℕ
  within : length ≤ data.length

/-- `setData(data, 0, data.length)`. -/
def DatagramPacket.ofData (data : Bytes) : DatagramPacket := ⟨data, data.length, le_rfl⟩

/-- The fields of a forwarder, and its sockets. -/
structure Forwarder where
  mPacket : DatagramPacket
  dnsIn : InputStream
  dnsOut : List Bytes := []
  mSocket : List Bytes := []

namespace Forwarder

def send (udpResponseData : Bytes) : Java Forwarder Unit :=
  modify fun f => { f with
    mPacket := .ofData udpResponseData
    mSocket := f.mSocket ++ [udpResponseData] }

/-- `run`, up to the exception that its `catch` takes; the answer is read into `size` bytes. -/
def run (size : ℕ) : Java Forwarder Unit := do
  let packet := (← get).mPacket
  let udpData ← Java.lift (copyOfRange packet.data 0 packet.length)
  let tcpData ← Java.lift (tcpData udpData)
  modify fun f => { f with dnsOut := f.dnsOut ++ [tcpData] }
  match ← Java.onField Forwarder.dnsIn (fun s f => { f with dnsIn := s }) (InputStream.read size) with
  | none => return ()
  | some bytes =>
    if 0 < bytes.length then
      let dnsResponseData := bytes ++ List.replicate (size - bytes.length) 0
      let tcpResponse ← Java.lift (copyOfRange dnsResponseData 0 bytes.length)
      let udpResponseData ← Java.lift (copyOfRange tcpResponse 2 tcpResponse.length)
      send udpResponseData

end Forwarder

/-- `DynamicDNSForwarder.run`. -/
def DynamicDNSForwarder.run (packet : DatagramPacket) (dnsIn : InputStream) : Forwarder :=
  (Java.exec (Forwarder.run 2048) { mPacket := packet, dnsIn := dnsIn }).2

/-- `DNSForwarder.run`, where no debug output parses the answer before it is sent. -/
def DNSForwarder.run (packet : DatagramPacket) (dnsIn : InputStream) : Forwarder :=
  (Java.exec (Forwarder.run 560) { mPacket := packet, dnsIn := dnsIn }).2

/-- A `DNSChannel`, its streams and what it handed to the client. -/
structure DNSChannel where
  channel : Channel
  mInitialPacket : PacketV4
  mRemoteIn : InputStream
  mRemoteOut : List Bytes := []
  sentToLocal : List PacketV4 := []

namespace DNSChannel

def generateHeader (mInitialPacket : PacketV4) (sourceAddress destAddress : Bytes) (ipDataLength : ℕ) :
    IPV4Header :=
  let header : IPV4Header := {
    mSourceAddress := sourceAddress
    mDestAddress := destAddress
    mFlag := mInitialPacket.mIPV4Header.mFlag
    mIdentification := mInitialPacket.mIPV4Header.mIdentification
    mProtocol := mInitialPacket.getProtocolNumber
    mTimeToLive := 30
    mFragmentOffset := mInitialPacket.mIPV4Header.mFragmentOffset
    mTypeOfService := mInitialPacket.mIPV4Header.mTypeOfService }
  { header with
    mTotalLength := some (getByteFromInt (BitVec.ofNat 32 (header.getHeaderLength + ipDataLength)) 2) }

def makeUDPPacket (mInitialPacket : PacketV4) (data sourceAddress destAddress sourcePort destPort : Bytes) :
    Except JavaException PacketV4 :=
  let ipDataLength := 8 + data.length
  let header := generateHeader mInitialPacket sourceAddress destAddress ipDataLength
  PacketV4.create header (.udp { mSourcePort := sourcePort, mDestPort := destPort }) (some data)

def sendDataToClient (data : Bytes) : Java DNSChannel Unit := do
  let c ← get
  let packet ← Java.lift (makeUDPPacket c.mInitialPacket data c.channel.mRemoteAddress c.channel.mLocalAddress
    c.channel.mRemotePort c.channel.mLocalPort)
  modify fun c => { c with sentToLocal := c.sentToLocal ++ [packet] }

/-- `run` on a channel that is connected, up to the exception that its `catch` takes. -/
def runConnected : Java DNSChannel Unit := do
  match (← get).mInitialPacket.data with
  | none => return ()
  | some data =>
    let outData ← Java.lift (tcpData data)
    modify fun c => { c with mRemoteOut := c.mRemoteOut ++ [outData] }
    match ← Java.onField DNSChannel.mRemoteIn (fun s c => { c with mRemoteIn := s }) (InputStream.read MAX_SIZE) with
    | none => return ()
    | some bytes =>
      if 0 < bytes.length then
        let response := bytes ++ List.replicate (MAX_SIZE - bytes.length) 0
        sendDataToClient (← Java.lift (copyOfRange response 2 bytes.length))

def run (channel : DNSChannel) : DNSChannel := (Java.exec runConnected channel).2

end DNSChannel

end SmartTunnel
