import SmartTunnel.Model.PacketProtoDecoder
import SmartTunnel.Model.UDPChannel

/-!
# The udpgw server

The server keeps a UDP socket for each `conid` of a client. A packet of the client is a header, an address and a
datagram; it goes out through the socket of its `conid`, which is opened for it when there is none, when the
packet says so (`UDPGW_CLIENT_FLAG_REBIND`) or when the address is another. A client has at most
`maxConnectionsForClient` of them: then the least recently used one is closed. `Env` is what the server finds
outside: whether memory, a socket and buffers are to be had, and the address of a name server.

The server is one that was started without local port ranges, neither `--local-udp-addrs` nor
`--local-udp-ip6-addrs`: `local_num_ports` is -1, and `connection_init` binds its socket to no port.

`Tunnel` is the server at the other end of a `UDPChannel`, with the packets on the stream between them and the
datagrams in the buffers of the sockets.
-/

namespace SmartTunnel

open Jvm

namespace UdpgwServer

def UDPGW_CLIENT_FLAG_KEEPALIVE : Byte := 1

def UDPGW_CLIENT_FLAG_REBIND : Byte := 2

def UDPGW_CLIENT_FLAG_DNS : Byte := 4

def UDPGW_CLIENT_FLAG_IPV6 : Byte := 8

/-- An address and a port, in the bytes of a packet. -/
inductive BAddr
  | ipv4 (ip port : Bytes)
  | ipv6 (ip port : Bytes)
  deriving DecidableEq, Repr

/-- The options of a server without local port ranges. -/
structure Options where
  udpMtu : ℕ
  maxConnectionsForClient : ℕ
  deriving DecidableEq, Repr

/-- `udpgw_mtu`: a header and the longer kind of address in front of a datagram, but no more than the stream takes. -/
def Options.udpgwMtu (options : Options) : ℕ := min (3 + (max 6 18 + options.udpMtu)) 65535

/-- `socket` tells the UDP sockets that were opened apart. -/
structure Connection where
  socket : ℕ
  conid : BitVec 16
  addr : BAddr
  origAddr : BAddr
  deriving DecidableEq, Repr

/-- The connections of a client: in a tree by their `conid`, and in a list with the least recently used first.
`opened` counts the sockets. -/
structure Client where
  connectionsTree : List Connection := []
  connectionsList : List Connection := []
  numConnections : ℕ := 0
  closingConnectionsList : List Connection := []
  opened : ℕ := 0
  deriving DecidableEq, Repr

structure Env where
  /-- `PacketPassFairQueueFlow_IsBusy`: a packet for the client is being sent. -/
  busy : Connection → Bool
  /-- `connection_init` gets its memory and its socket. -/
  opens : Bool
  /-- `BufferWriter_StartPacket` finds a free buffer. -/
  room : Bool
  /-- `dns_addr`, when it is set. -/
  dnsAddr : Option BAddr

/-- A datagram for the buffer of a socket, which sends it to `addr`. -/
structure Datagram where
  socket : ℕ
  addr : BAddr
  data : Bytes
  deriving DecidableEq, Repr

/-! ## Connections -/

def findConnection (client : Client) (conid : BitVec 16) : Option Connection :=
  client.connectionsTree.find? fun con => con.conid == conid

/-- `connection_close`: a connection that is busy is freed later. -/
def connectionClose (env : Env) (con : Connection) (client : Client) : Client :=
  { client with
    connectionsTree := client.connectionsTree.erase con
    connectionsList := client.connectionsList.erase con
    numConnections := client.numConnections - 1
    closingConnectionsList :=
      if env.busy con then client.closingConnectionsList ++ [con] else client.closingConnectionsList }

/-- `connection_send_qflow_busy_handler`. -/
def connectionSendQflowBusyHandler (con : Connection) (client : Client) : Client :=
  { client with closingConnectionsList := client.closingConnectionsList.erase con }

/-- The connection becomes the one that was used last. -/
def touch (con : Connection) (client : Client) : Client :=
  { client with connectionsList := client.connectionsList.erase con ++ [con] }

/-- `connection_send_to_udp`, with the datagram that it puts into the buffer of the socket. -/
def connectionSendToUdp (env : Env) (con : Connection) (data : Bytes) (client : Client) : Client × List Datagram :=
  (touch con client, if env.room then [⟨con.socket, con.addr, data⟩] else [])

/-- `connection_init` without a local port range. Its datagram goes to the socket by a job, which runs behind the
handler of the packet and before the next packet: of the jobs that are set the last one runs first. -/
def connectionInit (env : Env) (conid : BitVec 16) (addr origAddr : BAddr) (data : Bytes) (client : Client) :
    Client × List Datagram :=
  if env.opens then
    let con : Connection := ⟨client.opened, conid, addr, origAddr⟩
    connectionSendToUdp env con data
      { client with
        connectionsTree := con :: client.connectionsTree
        connectionsList := client.connectionsList ++ [con]
        numConnections := client.numConnections + 1
        opened := client.opened + 1 }
  else (client, [])

/-! ## A packet of the client -/

/-- The address of a packet, and the datagram behind it. -/
def parseAddr (flags : Byte) (data : Bytes) : Option (BAddr × Bytes) :=
  if flags &&& UDPGW_CLIENT_FLAG_IPV6 ≠ 0 then
    if data.length < 18 then none else some (.ipv6 (data.take 16) ((data.drop 16).take 2), data.drop 18)
  else
    if data.length < 6 then none else some (.ipv4 (data.take 4) ((data.drop 4).take 2), data.drop 6)

/-- With as many connections as allowed the least recently used one is closed. -/
def closeLeastRecentlyUsed (options : Options) (env : Env) (client : Client) : Client :=
  if client.numConnections = options.maxConnectionsForClient then
    match client.connectionsList with
    | least :: _ => connectionClose env least client
    | [] => client
  else client

/-- The rest of `client_recv_if_handler_send`, for a datagram of the connection `conid` to `origAddr`. -/
def serve (options : Options) (env : Env) (flags : Byte) (conid : BitVec 16) (origAddr : BAddr) (data : Bytes)
    (client : Client) : Client × List Datagram :=
  let found := findConnection client conid
  -- an old connection is closed if needed
  let (con, client) := match found with
    | some con =>
      if flags &&& UDPGW_CLIENT_FLAG_REBIND ≠ 0 ∨ con.origAddr ≠ origAddr then (none, connectionClose env con client)
      else (some con, client)
    | none => (none, client)
  match con with
  | some con => connectionSendToUdp env con data client
  | none =>
    let addr := if flags &&& UDPGW_CLIENT_FLAG_DNS ≠ 0 then env.dnsAddr.getD origAddr else origAddr
    connectionInit env conid addr origAddr data (closeLeastRecentlyUsed options env client)

/-- `client_recv_if_handler_send`. -/
def clientRecvIfHandlerSend (options : Options) (env : Env) (data : Bytes) (client : Client) :
    Client × List Datagram :=
  match data with
  | flags :: low :: high :: data =>
    if flags &&& UDPGW_CLIENT_FLAG_KEEPALIVE ≠ 0 then (client, [])
    else
      match parseAddr flags data with
      | none => (client, [])
      | some (origAddr, data) =>
        if options.udpMtu < data.length then (client, [])
        else serve options env flags (BitVec.ofNat 16 (low.toNat + 256 * high.toNat)) origAddr data client
  | _ => (client, [])

/-! ## To the client -/

/-- The packet of `connection_send_to_client` for a datagram that came in. -/
def replyPacket (con : Connection) (data : Bytes) : Bytes :=
  let conid : Bytes := [BitVec.ofNat 8 (con.conid.toNat % 256), BitVec.ofNat 8 (con.conid.toNat / 256)]
  match con.origAddr with
  | .ipv4 ip port => [0] ++ conid ++ ip ++ port ++ data
  | .ipv6 ip port => [UDPGW_CLIENT_FLAG_IPV6] ++ conid ++ ip ++ port ++ data

/-- `connection_udp_recv_if_handler_send`, with the packet it has written for the client. -/
def connectionUdpRecvIfHandlerSend (options : Options) (env : Env) (con : Connection) (data : Bytes)
    (client : Client) : Client × Option Bytes :=
  let packet := replyPacket con data
  (touch con client, if packet.length ≤ options.udpgwMtu ∧ env.room then some packet else none)

/-- What happens to a client besides its packets: a datagram or an error on one of its sockets, and that the
packet it was busy with has been sent. -/
inductive Local
  | datagram (env : Env) (socket : ℕ) (data : Bytes)
  | error (env : Env) (socket : ℕ)
  | sent (socket : ℕ)

/-- The connection with the socket, of those that wait for something. -/
def ofSocket (cons : List Connection) (socket : ℕ) : Option Connection := cons.find? fun con => con.socket == socket

def localStep (options : Options) (client : Client) : Local → Client
  | .datagram env socket data =>
    match ofSocket client.connectionsList socket with
    | some con => (connectionUdpRecvIfHandlerSend options env con data client).1
    | none => client
  | .error env socket =>
    match ofSocket client.connectionsList socket with
    | some con => connectionClose env con client
    | none => client
  | .sent socket =>
    match ofSocket client.closingConnectionsList socket with
    | some con => connectionSendQflowBusyHandler con client
    | none => client

inductive Event
  | packet (env : Env) (data : Bytes)
  | other (e : Local)

def step (options : Options) (client : Client) : Event → Client
  | .packet env data => (clientRecvIfHandlerSend options env data client).1
  | .other e => localStep options client e

end UdpgwServer

/-! ## The tunnel -/

open UdpgwServer in
/-- A channel and the server at its other end. `stream` are the bytes that the writer has put on the stream, `wire`
the packets on it and `served` those that the server has taken from it. `submitted` are the datagrams that went into
the buffers of the sockets, `buffered` those that are still in one and `sent` those that a socket has sent. A packet
on the stream is noted with the datagram it was written for. -/
structure Tunnel where
  channel : UDPChannel := {}
  stream : Bytes := []
  wire : List (Bytes × Option PacketV4) := []
  served : List (Bytes × Option PacketV4) := []
  client : UdpgwServer.Client := {}
  submitted : List (UdpgwServer.Datagram × Option PacketV4) := []
  buffered : List (UdpgwServer.Datagram × Option PacketV4) := []
  sent : List (UdpgwServer.Datagram × Option PacketV4) := []

namespace Tunnel

inductive Event
  /-- The writer of the channel takes a packet. -/
  | write (random : Fin UDPChannel.SHORT_MAX_VALUE) (packet : PacketV4)
  | keepAlive
  /-- The reader of the channel makes a packet of what it read. -/
  | read (data : Bytes)
  /-- The server takes a packet from the stream. -/
  | serve (env : UdpgwServer.Env)
  /-- Something else happens at the server. -/
  | other (e : UdpgwServer.Local)
  /-- A socket sends the first datagram of its buffer. -/
  | send (socket : ℕ)

/-- A frame behind its length, put on the stream. -/
def put (frame : Bytes) (packet : Option PacketV4) (t : Tunnel) : Tunnel :=
  { t with
    stream := t.stream ++ frame
    wire := t.wire ++ [(frame.drop 2, packet)] }

/-- What is left in the buffers: `connection_free_udp` frees the one of a connection that is closed. -/
def keptBuffers (client : UdpgwServer.Client) (ds : List (UdpgwServer.Datagram × Option PacketV4)) :
    List (UdpgwServer.Datagram × Option PacketV4) :=
  ds.filter fun d => (UdpgwServer.ofSocket client.connectionsTree d.1.socket).isSome

def step (options : UdpgwServer.Options) (t : Tunnel) : Event → Tunnel
  | .write random packet =>
    if t.channel.mClosed || packet.data.isNone then t
    else match Java.exec (UDPChannel.generateUdpgwPacket random (some packet)) t.channel with
      | (.ok frame, ch) => { t with channel := ch }.put frame (some packet)
      | (.error _, ch) => { t with channel := { ch with mClosed := true } }
  | .keepAlive =>
    if t.channel.mClosed then t
    else match Java.exec (UDPChannel.generateUdpgwPacket 0 none) t.channel with
      | (.ok frame, ch) => { t with channel := ch }.put frame none
      | (.error _, ch) => { t with channel := { ch with mClosed := true } }
  | .read data =>
    if t.channel.mClosed then t
    else match Java.exec (UDPChannel.createUDPPacket data) t.channel with
      | (.ok _, ch) => { t with channel := ch }
      | (.error _, ch) => { t with channel := { ch with mClosed := true } }
  | .serve env =>
    match t.wire with
    | [] => t
    | (data, packet) :: wire =>
      let (client, datagrams) := UdpgwServer.clientRecvIfHandlerSend options env data t.client
      { t with
        wire := wire
        served := t.served ++ [(data, packet)]
        client := client
        submitted := t.submitted ++ datagrams.map (·, packet)
        buffered := keptBuffers client (t.buffered ++ datagrams.map (·, packet)) }
  | .other e =>
    let client := UdpgwServer.localStep options t.client e
    { t with client := client, buffered := keptBuffers client t.buffered }
  | .send socket =>
    -- the limit of `BDatagram` or `EAGAIN` make it wait, another error closes the connection
    match t.buffered.find? fun d => d.1.socket == socket with
    | some d => { t with buffered := t.buffered.eraseP fun d => d.1.socket == socket, sent := t.sent ++ [d] }
    | none => t

end Tunnel

end SmartTunnel
