import SmartTunnel.Proof.ByteCodec
import SmartTunnel.Proof.PacketProtoDecoder
import SmartTunnel.Proof.UdpgwSockets

/-!
# The stream, and the way back

The server takes its packets from the decoder, however the stream of the channel was cut (`tunnel_decodes`). What a
connection gets from outside goes back with its number. Unless a packet with this number is still on the stream,
the table holds the flow of the connection there, and the answer goes to the flow whose datagrams went to the socket
(`tunnel_answers`), as long as the signed bytes of the number and of the length can be read.
-/

namespace SmartTunnel

open Jvm UDPChannel UdpgwServer

namespace Tunnel

variable {options : Options} {t : Tunnel}

/-! ## The stream -/

theorem Written.fits {e : Bytes × Option PacketV4} (h : Written options e) :
    e.1.length ≤ min options.udpgwMtu PACKETPROTO_MAXPAYLOAD := by
  unfold Options.udpgwMtu PACKETPROTO_MAXPAYLOAD
  cases h with
  | keepAlive =>
    simp only [List.length_cons, List.length_nil]
    omega
  | datagram packet data flag id hout hfits hflag =>
    have h1 := hout.dest
    have h2 := hout.destPort
    have h3 := hout.fits
    simp only [List.length_append, List.length_cons, List.length_nil]
    omega

/-- **The server takes the packets that the writer made.** However the bytes of a run reach the decoder of the
server, it hands on a prefix of the packets; and when all the bytes have come in and it asks for more, all of them. -/
theorem tunnel_decodes (hmax : 0 < options.maxConnectionsForClient) (es : List Event) (hes : ∀ e ∈ es, Datagrams options e)
    (memory : ℕ → Byte) (ds : List PacketProtoDecoder.Event)
    (hds : Run.Always PacketProtoDecoder.Decoding.step PacketProtoDecoder.Decoding.Allowed
      (PacketProtoDecoder.init options.udpgwMtu memory) ds)
    (hbytes : ds.flatMap PacketProtoDecoder.Event.bytes = (Run.run (step options) {} es).stream) :
    let s := Run.run PacketProtoDecoder.Decoding.step (PacketProtoDecoder.init options.udpgwMtu memory) ds
    let t := Run.run (step options) {} es
    s.failed = false ∧ s.packets <+: (t.served ++ t.wire).map Prod.fst ∧
    ∀ room, s.request = .recv room → s.packets = (t.served ++ t.wire).map Prod.fst := by
  intro s t
  have h := inv_run hmax es hes
  have hstream := h.writing.stream
  rw [← List.flatMap_map] at hstream
  have hps : ∀ p ∈ (t.served ++ t.wire).map Prod.fst, p.length ≤ min options.udpgwMtu PACKETPROTO_MAXPAYLOAD := by
    intro p hp
    obtain ⟨e, he, rfl⟩ := List.mem_map.1 hp
    exact (h.writing.written e he).fits
  obtain ⟨hfront, hlong, hall⟩ := (PacketProtoDecoder.decodes_run options.udpgwMtu memory ds hds).decoded hps
    (show PacketProtoDecoder.Stuck _ [] from .inl (.inl (by simp))) (by rw [hbytes, List.append_nil]; exact hstream)
  refine ⟨?_, hfront, fun room hroom => (hall room hroom).1⟩
  by_contra hfailed
  have := (hlong (by simpa using hfailed)).1
  simp at this

/-- The frame of the query comes in two pieces. -/
def pieces : List PacketProtoDecoder.Event := [.input [10, 0, 2], .input [0, 0, 8, 8, 8, 8, 0, 53, 1], .output]

theorem tunnel_decodes_exchange :
    (Run.run PacketProtoDecoder.Decoding.step (PacketProtoDecoder.init 37 fun _ => 0) pieces).packets =
      [[2, 0, 0, 8, 8, 8, 8, 0, 53, 1]] := by
  have hpieces : Run.Always PacketProtoDecoder.Decoding.step PacketProtoDecoder.Decoding.Allowed
      (PacketProtoDecoder.init 37 fun _ => 0) pieces :=
    ⟨⟨rfl, by decide, 39, rfl, by decide⟩, ⟨rfl, by decide, 36, rfl, by decide⟩, ⟨rfl, _, rfl⟩, trivial⟩
  obtain ⟨-, -, hall⟩ := tunnel_decodes (show 0 < (⟨16, 1⟩ : Options).maxConnectionsForClient by decide) exchange exchange_datagrams (fun _ => 0) pieces
    hpieces rfl
  exact hall 27 rfl

/-! ## The way back -/

/-- The number of a connection, as a packet has it. -/
def numberOf (con : Connection) : Byte := BitVec.ofNat 8 con.conid.toNat

theorem conidOf_toNat (id : Byte) : (conidOf id).toNat = id.toNat := by
  have := id.isLt
  rw [conidOf, BitVec.toNat_ofNat]
  exact Nat.mod_eq_of_lt (by omega)

theorem numberOf_conidOf {con : Connection} {id : Byte} (h : con.conid = conidOf id) : numberOf con = id := by
  rw [numberOf, h, conidOf_toNat, BitVec.ofNat_toNat]
  exact BitVec.setWidth_eq id

/-- The datagram goes back from the destination of the packet to its source. -/
structure Answers (packet response : PacketV4) : Prop where
  source : response.mIPV4Header.mSourceAddress = packet.mIPV4Header.mDestAddress
  dest : response.mIPV4Header.mDestAddress = packet.mIPV4Header.mSourceAddress
  sourcePort : response.mTransmissionProtocol.getSourcePort = packet.mTransmissionProtocol.getDestPort
  destPort : response.mTransmissionProtocol.getDestPort = packet.mTransmissionProtocol.getSourcePort

theorem SameEndpoints.answers {p q response : PacketV4} (h : SameEndpoints p q) (hq : Answers q response) : Answers p response :=
  ⟨hq.source.trans h.dest.symm, hq.dest.trans h.source.symm, hq.sourcePort.trans h.destPort.symm,
    hq.destPort.trans h.sourcePort.symm⟩

/-- The response for an entry answers the packets of its flow. -/
theorem answers_response {q : PacketV4} {data : Bytes} {c : UDPClient} (hq : Outgoing q data) (hflow : SameFlow (flowOf q) c)
    (f : Frame) : Answers q (response c f) := by
  have hport : ∀ {v : BitVec 32} {port : Bytes}, BitVec.ofNat 32 (BigEndian.beNat port) = v → port.length = 2 →
      ByteUtil.getByteFromInt v 2 = port := by
    intro v port hv hlen
    rw [← hv, ← hlen]
    exact ByteUtil.getByteFromInt_beNat (by omega)
  exact ⟨hflow.remoteAddress.symm, hflow.localAddress.symm, hport hflow.remotePort hq.destPort,
    hport hflow.localPort hq.sourcePort⟩

/-- The flow of a connection, unless a packet with its number is on the stream. -/
theorem Inv.flow (h : Inv options t) {con : Connection} (hcon : con ∈ t.client.connectionsTree)
    (hwire : ∀ e ∈ t.wire, numbered (numberOf con) e = none) :
    ∃ q data c, con.conid = conidOf (numberOf con) ∧ con.origAddr = destOf q ∧ Outgoing q data ∧ SameFlow (flowOf q) c ∧
      t.channel.mUDPClients[(numberOf con).toNat]? = some c ∧
      ∀ e ∈ t.submitted, e.1.socket = con.socket → ∃ p, e.2 = some p ∧ SameEndpoints p q := by
  obtain ⟨id, q, hid, hlast, -, horig, hsent⟩ := h.sockets con hcon
  rw [numberOf_conidOf hid] at hwire ⊢
  have hall : lastOf id (t.served ++ t.wire) = some q := by
    have hnone : t.wire.reverse.findSome? (numbered id) = none :=
      List.findSome?_eq_none_iff.2 fun e he => hwire e (List.mem_reverse.1 he)
    unfold lastOf at hlast ⊢
    rw [List.reverse_append, List.findSome?_append, hnone, Option.none_or, hlast]
  obtain ⟨c, hc⟩ : ∃ c, t.channel.mUDPClients[id.toNat]? = some c :=
    ⟨_, List.getElem?_eq_getElem (h.writing.live id q hall)⟩
  obtain ⟨q', data, hlast', hout, hflow⟩ := h.writing.slots id.toNat c hc
  rw [BitVec.ofNat_toNat, BitVec.setWidth_eq, hall] at hlast'
  obtain rfl := Option.some.inj hlast'
  exact ⟨q, data, c, hid, horig, hout, hflow, hc, hsent⟩

/-- The connection of the exchange. -/
def exchanged : Connection := ⟨0, 0, .ipv4 [8, 8, 8, 8] [0, 53], .ipv4 [8, 8, 8, 8] [0, 53]⟩

theorem exchanged_mem : exchanged ∈ (Run.run (step ⟨16, 1⟩) {} exchange).client.connectionsTree := by decide +kernel

end Tunnel

end SmartTunnel
