import SmartTunnel.Proof.ClientTable
import SmartTunnel.Proof.UdpgwServer

/-!
# From a channel through the server

The writer of a channel numbers its flows by the slots of its table, and the server opens a socket for each number.
A slot may pass from one flow to another, and the server may close a socket at any time; still no two flows ever
share a socket (`Inv.apart`). What carries this is the stream between the two: a packet without the flag
`UDPGW_CLIENT_FLAG_REBIND` is of the same flow as the packet with its number that was last before it (`Chained`).
-/

namespace SmartTunnel

open Jvm UDPChannel UdpgwServer

namespace Tunnel

/-! ## Flows of packets -/

/-- The packets have the same endpoints. -/
structure SameEndpoints (p q : PacketV4) : Prop where
  source : p.mIPV4Header.mSourceAddress = q.mIPV4Header.mSourceAddress
  sourcePort : p.mTransmissionProtocol.getSourcePort = q.mTransmissionProtocol.getSourcePort
  dest : p.mIPV4Header.mDestAddress = q.mIPV4Header.mDestAddress
  destPort : p.mTransmissionProtocol.getDestPort = q.mTransmissionProtocol.getDestPort

theorem SameEndpoints.refl (p : PacketV4) : SameEndpoints p p := ⟨rfl, rfl, rfl, rfl⟩

theorem SameEndpoints.symm {p q : PacketV4} (h : SameEndpoints p q) : SameEndpoints q p :=
  ⟨h.source.symm, h.sourcePort.symm, h.dest.symm, h.destPort.symm⟩

theorem SameEndpoints.trans {p q r : PacketV4} (h : SameEndpoints p q) (h' : SameEndpoints q r) : SameEndpoints p r :=
  ⟨h.source.trans h'.source, h.sourcePort.trans h'.sourcePort, h.dest.trans h'.dest, h.destPort.trans h'.destPort⟩

/-- Ports of two bytes are told apart by the number they make. -/
theorem port_inj {a b : Bytes} (ha : a.length = 2) (hb : b.length = 2)
    (h : BitVec.ofNat 32 (BigEndian.beNat a) = BitVec.ofNat 32 (BigEndian.beNat b)) : a = b := by
  have hlt : ∀ {c : Bytes}, c.length = 2 → (BitVec.ofNat 32 (BigEndian.beNat c)).toNat = BigEndian.beNat c := by
    intro c hc
    have := BigEndian.beNat_lt c
    rw [hc] at this
    rw [BitVec.toNat_ofNat]
    exact Nat.mod_eq_of_lt (by omega)
  apply BigEndian.beNat_inj (ha.trans hb.symm)
  rw [← hlt ha, h, hlt hb]

theorem sameEndpoints_of_sameFlow {p q : PacketV4} {data data' : Bytes} (hp : Outgoing p data) (hq : Outgoing q data')
    (h : SameFlow (flowOf p) (flowOf q)) : SameEndpoints p q :=
  ⟨h.localAddress, port_inj hp.sourcePort hq.sourcePort h.localPort, h.remoteAddress,
    port_inj hp.destPort hq.destPort h.remotePort⟩

/-! ## The packets on the stream -/

/-- A packet on the stream, with the datagram it was written for; or a keep-alive. -/
inductive Written (options : Options) : Bytes × Option PacketV4 → Prop
  | keepAlive : Written options ([1, 0, 0], none)
  | datagram (packet : PacketV4) (data : Bytes) (flag id : Byte) (h : Outgoing packet data)
      (hfits : data.length ≤ options.udpMtu) (hflag : flag = 0 ∨ flag = 2) :
      Written options ([flag, id, 0] ++ packet.mIPV4Header.mDestAddress ++
        packet.mTransmissionProtocol.getDestPort ++ data, some packet)

/-- The number of a packet that was written for a datagram. -/
def numbered (id : Byte) (e : Bytes × Option PacketV4) : Option PacketV4 :=
  if e.1[1]? = some id then e.2 else none

/-- The datagram of the last packet with the number. -/
def lastOf (id : Byte) (es : List (Bytes × Option PacketV4)) : Option PacketV4 := es.reverse.findSome? (numbered id)

theorem lastOf_concat (id : Byte) (es : List (Bytes × Option PacketV4)) (e : Bytes × Option PacketV4) :
    lastOf id (es ++ [e]) = (numbered id e).or (lastOf id es) := by
  unfold lastOf
  rw [List.reverse_append, List.reverse_singleton, List.singleton_append, List.findSome?_cons]
  cases numbered id e <;> rfl

/-- A packet that does not rebind its number is of the flow that used the number last. -/
def Chained (es : List (Bytes × Option PacketV4)) : Prop :=
  ∀ front e back, es = front ++ e :: back → ∀ id packet, e.1[0]? = some 0 → numbered id e = some packet →
    ∃ q, lastOf id front = some q ∧ SameEndpoints packet q

theorem Chained.concat {es : List (Bytes × Option PacketV4)} {e : Bytes × Option PacketV4} (h : Chained es)
    (he : ∀ id packet, e.1[0]? = some 0 → numbered id e = some packet → ∃ q, lastOf id es = some q ∧ SameEndpoints packet q) :
    Chained (es ++ [e]) := by
  intro front e' back heq
  rcases List.eq_nil_or_concat back with rfl | ⟨back', last, rfl⟩
  · obtain ⟨rfl, h2⟩ := List.append_inj' heq rfl
    obtain rfl := List.singleton_inj.1 h2
    exact he
  · rw [List.concat_eq_append, ← List.cons_append, ← List.append_assoc] at heq
    obtain ⟨h1, -⟩ := List.append_inj' heq rfl
    exact h front e' back' h1

variable {options : Options} {packet : PacketV4} {data : Bytes} {flag id : Byte} {env : Env} {client : Client}

/-- The `conid` of a number. -/
def conidOf (id : Byte) : BitVec 16 := BitVec.ofNat 16 id.toNat

theorem conidOf_inj {id id' : Byte} (h : conidOf id = conidOf id') : id = id' := by
  have h1 := congrArg BitVec.toNat h
  have h2 := id.isLt
  have h3 := id'.isLt
  simp only [conidOf, BitVec.toNat_ofNat] at h1
  apply BitVec.eq_of_toNat_eq
  omega

/-- The endpoint a packet goes to. -/
def destOf (packet : PacketV4) : BAddr := .ipv4 packet.mIPV4Header.mDestAddress packet.mTransmissionProtocol.getDestPort

theorem SameEndpoints.destOf {p q : PacketV4} (h : SameEndpoints p q) : destOf p = destOf q := by
  unfold Tunnel.destOf
  rw [h.dest, h.destPort]

/-- What the server reads of a packet is what was written. -/
theorem recv_datagram (h : Outgoing packet data) (hfits : data.length ≤ options.udpMtu) (hflag : flag = 0 ∨ flag = 2) :
    clientRecvIfHandlerSend options env ([flag, id, 0] ++ packet.mIPV4Header.mDestAddress ++
        packet.mTransmissionProtocol.getDestPort ++ data) client =
      serve options env flag (conidOf id) (destOf packet) data client := by
  have haddr := h.dest
  have hport := h.destPort
  have hparse : parseAddr flag (packet.mIPV4Header.mDestAddress ++ packet.mTransmissionProtocol.getDestPort ++ data) =
      some (destOf packet, data) := by
    have hv6 : flag &&& UDPGW_CLIENT_FLAG_IPV6 = 0 := by
      rcases hflag with rfl | rfl <;> rfl
    have hlen : ¬ (packet.mIPV4Header.mDestAddress ++ packet.mTransmissionProtocol.getDestPort ++ data).length < 6 := by
      simp only [List.length_append]
      omega
    have h4 : (packet.mIPV4Header.mDestAddress ++ packet.mTransmissionProtocol.getDestPort ++ data).take 4 =
        packet.mIPV4Header.mDestAddress := by
      rw [← haddr, List.append_assoc, List.take_left]
    have h5 : ((packet.mIPV4Header.mDestAddress ++ packet.mTransmissionProtocol.getDestPort ++ data).drop 4).take 2 =
        packet.mTransmissionProtocol.getDestPort := by
      rw [← haddr, List.append_assoc, List.drop_left, ← hport, List.take_left]
    have h6 : (packet.mIPV4Header.mDestAddress ++ packet.mTransmissionProtocol.getDestPort ++ data).drop 6 = data := by
      have hsix : (packet.mIPV4Header.mDestAddress ++ packet.mTransmissionProtocol.getDestPort).length = 6 := by
        rw [List.length_append]
        omega
      rw [← hsix, List.drop_left]
    unfold parseAddr
    rw [if_neg (not_not.2 hv6), if_neg hlen, h4, h5, h6]
    rfl
  have hkeep : flag &&& UDPGW_CLIENT_FLAG_KEEPALIVE = 0 := by
    rcases hflag with rfl | rfl <;> rfl
  unfold clientRecvIfHandlerSend
  simp only [List.cons_append, List.nil_append]
  rw [if_neg (not_not.2 hkeep), hparse]
  simp only
  rw [if_neg (not_lt.2 hfits)]
  rfl

/-! ## What holds at any time -/

/-- After the packets `es`, the flows of the table are those that used their numbers last. -/
structure Writing (options : Options) (ch : UDPChannel) (stream : Bytes) (es : List (Bytes × Option PacketV4)) : Prop where
  table : TableInv ch
  stream : stream = es.flatMap fun e => PacketProtoDecoder.encode e.1
  written : ∀ e ∈ es, Written options e
  chained : Chained es
  slots : ∀ (i : ℕ) (c : UDPClient), ch.mUDPClients[i]? = some c →
    ∃ q data, lastOf (BitVec.ofNat 8 i) es = some q ∧ Outgoing q data ∧ SameFlow (flowOf q) c
  live : ∀ id q, lastOf id es = some q → id.toNat < ch.mUDPClients.length

/-- Each connection of the server is of the flow that used its number last, and the datagrams for one socket are of one
flow. -/
structure Inv (options : Options) (t : Tunnel) : Prop where
  writing : Writing options t.channel t.stream (t.served ++ t.wire)
  client : ClientInv options t.client
  sockets : ∀ con ∈ t.client.connectionsTree, ∃ id q, con.conid = conidOf id ∧ lastOf id t.served = some q ∧
    con.addr = destOf q ∧ con.origAddr = destOf q ∧
    ∀ e ∈ t.submitted, e.1.socket = con.socket → ∃ p, e.2 = some p ∧ SameEndpoints p q
  fresh : ∀ e ∈ t.submitted, e.1.socket < t.client.opened
  apart : ∀ e ∈ t.submitted, ∀ e' ∈ t.submitted, e.1.socket = e'.1.socket →
    ∃ p p', e.2 = some p ∧ e'.2 = some p' ∧ SameEndpoints p p'
  faithful : ∀ e ∈ t.submitted, ∃ p, e.2 = some p ∧ e.1.addr = destOf p ∧ p.data = some e.1.data
  order : (t.submitted.filterMap Prod.snd).Sublist (t.served.filterMap Prod.snd)

variable {t : Tunnel} {ch ch' : UDPChannel} {stream : Bytes} {es : List (Bytes × Option PacketV4)}

theorem Inv.init (options : Options) : Inv options {} := by
  refine ⟨⟨TableInv.init, rfl, by simp, ?_, ?_, ?_⟩, ClientInv.init options, ?_, ?_, ?_, ?_, .refl _⟩
  · rintro front e back heq
    simp at heq
  · intro i c hc
    cases hc
  · intro id q hlast
    cases hlast
  all_goals
    intro x hx
    cases hx

/-! ### The channel -/

/-- What the reader does to the table leaves the flows where they are. -/
theorem Writing.bumpId (h : Writing options ch stream es) (i : ℕ) : Writing options (bumpId i ch) stream es := by
  refine ⟨h.table.bumpId i, h.stream, h.written, h.chained, ?_, ?_⟩
  · intro j c hc
    rw [getElem?_bumpId] at hc
    obtain ⟨c', hc', rfl⟩ := Option.map_eq_some_iff.1 hc
    obtain ⟨q, data, hlast, hout, hflow⟩ := h.slots j c' hc'
    refine ⟨q, data, hlast, hout, ?_⟩
    split
    · exact ⟨hflow.localPort, hflow.remotePort, hflow.localAddress, hflow.remoteAddress⟩
    · exact hflow
  · intro id q hlast
    simpa [UDPChannel.bumpId] using h.live id q hlast

theorem Writing.closed (h : Writing options ch stream es) : Writing options { ch with mClosed := true } stream es :=
  ⟨⟨h.table.counter, h.table.distinct⟩, h.stream, h.written, h.chained, h.slots, h.live⟩

/-- What the writer puts on the stream. -/
theorem Writing.concat (h : Writing options ch stream es) {payload : Bytes} {packet : Option PacketV4} (htable : TableInv ch')
    (hwritten : Written options (payload, packet))
    (hchained : ∀ id p, payload[0]? = some 0 → numbered id (payload, packet) = some p →
      ∃ q, lastOf id es = some q ∧ SameEndpoints p q)
    (hslots : ∀ (i : ℕ) (c : UDPClient), ch'.mUDPClients[i]? = some c →
      ∃ q data, lastOf (BitVec.ofNat 8 i) (es ++ [(payload, packet)]) = some q ∧ Outgoing q data ∧ SameFlow (flowOf q) c)
    (hlive : ∀ id p, numbered id (payload, packet) = some p → id.toNat < ch'.mUDPClients.length)
    (hlength : ch.mUDPClients.length ≤ ch'.mUDPClients.length) :
    Writing options ch' (stream ++ PacketProtoDecoder.encode payload) (es ++ [(payload, packet)]) := by
  refine ⟨htable, ?_, ?_, h.chained.concat hchained, hslots, ?_⟩
  · rw [List.flatMap_append, List.flatMap_singleton, ← h.stream]
  · intro e he
    rcases List.mem_append.1 he with he | he
    · exact h.written e he
    · exact List.mem_singleton.1 he ▸ hwritten
  · intro id q hlast
    rw [lastOf_concat] at hlast
    cases hnew : numbered id (payload, packet) with
    | none =>
      rw [hnew, Option.none_or] at hlast
      exact (h.live id q hlast).trans_le hlength
    | some p => exact hlive id p hnew

theorem numbered_keepAlive (id : Byte) : numbered id ([1, 0, 0], none) = none := by
  unfold numbered
  split <;> rfl

theorem Writing.keepAlive (h : Writing options ch stream es) :
    Writing options ch (stream ++ PacketProtoDecoder.encode [1, 0, 0]) (es ++ [([1, 0, 0], none)]) := by
  refine h.concat h.table .keepAlive ?_ ?_ ?_ le_rfl
  · intro id p hflag
    cases hflag
  · intro i c hc
    obtain ⟨q, data, hlast, hq⟩ := h.slots i c hc
    refine ⟨q, data, ?_, hq⟩
    rw [lastOf_concat, numbered_keepAlive, Option.none_or, hlast]
  · intro id p hp
    rw [numbered_keepAlive] at hp
    cases hp

theorem numbered_datagram {id' : Byte} (hne : id' ≠ id) (bytes : Bytes) :
    numbered id' ([flag, id, 0] ++ bytes, some packet) = none := by
  unfold numbered
  rw [if_neg]
  simp [hne.symm]

theorem numbered_self (bytes : Bytes) : numbered id ([flag, id, 0] ++ bytes, some packet) = some packet := by
  unfold numbered
  rw [if_pos]
  simp

theorem numbered_some {id' : Byte} {bytes : Bytes} {p : PacketV4}
    (h : numbered id' ([flag, id, 0] ++ bytes, some packet) = some p) : id' = id ∧ p = packet := by
  by_cases hid : id' = id
  · subst hid
    rw [numbered_self] at h
    exact ⟨rfl, (Option.some.inj h).symm⟩
  · rw [numbered_datagram hid] at h
    cases h

/-- The packet of a flow that is in the table. -/
theorem Writing.known (h : Writing options ch stream es) (hout : Outgoing packet data) (hfits : data.length ≤ options.udpMtu)
    {i : ℕ} {c : UDPClient} (hc : ch.mUDPClients[i]? = some c) (hsame : SameFlow (flowOf packet) c) (bytes : Bytes)
    (hbytes : bytes = packet.mIPV4Header.mDestAddress ++ packet.mTransmissionProtocol.getDestPort ++ data) :
    Writing options ch (stream ++ PacketProtoDecoder.encode ([0, BitVec.ofNat 8 i, 0] ++ bytes))
      (es ++ [([0, BitVec.ofNat 8 i, 0] ++ bytes, some packet)]) := by
  obtain ⟨q, data', hlast, hq, hflow⟩ := h.slots i c hc
  have hi := (List.getElem?_eq_some_iff.1 hc).1
  have hsize := h.table.bounded.size
  have hwritten := @Written.datagram options packet data 0 (BitVec.ofNat 8 i) hout hfits (.inl rfl)
  rw [List.append_assoc, List.append_assoc, ← List.append_assoc packet.mIPV4Header.mDestAddress, ← hbytes] at hwritten
  refine h.concat h.table hwritten ?_ ?_ ?_ le_rfl
  · intro id p _ hp
    obtain ⟨rfl, rfl⟩ := numbered_some hp
    exact ⟨q, hlast, sameEndpoints_of_sameFlow hout hq (hsame.trans hflow.symm)⟩
  · intro j c' hc'
    have hj := (List.getElem?_eq_some_iff.1 hc').1
    rw [lastOf_concat]
    by_cases hij : i = j
    · subst hij
      obtain rfl := Option.some.inj (hc.symm.trans hc')
      exact ⟨packet, data, by rw [numbered_self, Option.some_or], hout, hsame⟩
    · obtain ⟨q', data'', hlast', hq'⟩ := h.slots j c' hc'
      have hne : BitVec.ofNat 8 j ≠ BitVec.ofNat 8 i := by
        intro hid
        have := congrArg BitVec.toNat hid
        simp only [BitVec.toNat_ofNat] at this
        omega
      exact ⟨q', data'', by rw [numbered_datagram hne, Option.none_or, hlast'], hq'⟩
  · intro id p hp
    obtain ⟨rfl, -⟩ := numbered_some hp
    rw [BitVec.toNat_ofNat, Nat.mod_eq_of_lt (by omega)]
    exact hi

/-- The packet of a flow that takes the slot at the counter. -/
theorem Writing.new (h : Writing options ch stream es) (hout : Outgoing packet data) (hfits : data.length ≤ options.udpMtu)
    {c : UDPClient} (hsame : SameFlow (flowOf packet) c) (htable : TableInv (addClient c ch)) (bytes : Bytes)
    (hbytes : bytes = packet.mIPV4Header.mDestAddress ++ packet.mTransmissionProtocol.getDestPort ++ data) :
    Writing options (addClient c ch) (stream ++ PacketProtoDecoder.encode ([2, BitVec.ofNat 8 ch.mClientIdCounter, 0] ++ bytes))
      (es ++ [([2, BitVec.ofNat 8 ch.mClientIdCounter, 0] ++ bytes, some packet)]) := by
  have hcount := h.table.bounded.counter
  have hsize := h.table.bounded.size
  have hwritten := @Written.datagram options packet data 2 (BitVec.ofNat 8 ch.mClientIdCounter) hout hfits (.inr rfl)
  rw [List.append_assoc, List.append_assoc, ← List.append_assoc packet.mIPV4Header.mDestAddress, ← hbytes] at hwritten
  refine h.concat htable hwritten ?_ ?_ ?_ ?_
  · intro id p hflag
    cases hflag
  · intro j c' hc'
    rw [getElem?_addClient h.table] at hc'
    rw [lastOf_concat]
    by_cases hj : j = ch.mClientIdCounter
    · rw [if_pos hj] at hc'
      obtain rfl := Option.some.inj hc'
      exact ⟨packet, data, by rw [hj, numbered_self, Option.some_or], hout, hsame⟩
    · rw [if_neg hj] at hc'
      have hlt := (List.getElem?_eq_some_iff.1 hc').1
      obtain ⟨q', data'', hlast', hq'⟩ := h.slots j c' hc'
      have hne : BitVec.ofNat 8 j ≠ BitVec.ofNat 8 ch.mClientIdCounter := by
        intro hid
        have := congrArg BitVec.toNat hid
        simp only [BitVec.toNat_ofNat] at this
        omega
      exact ⟨q', data'', by rw [numbered_datagram hne, Option.none_or, hlast'], hq'⟩
  · intro id p hp
    obtain ⟨rfl, -⟩ := numbered_some hp
    rw [BitVec.toNat_ofNat, Nat.mod_eq_of_lt (by omega)]
    have hnew := getElem?_addClient h.table c ch.mClientIdCounter
    rw [if_pos rfl] at hnew
    exact (List.getElem?_eq_some_iff.1 hnew).1
  · unfold addClient
    simp only
    split
    · rw [List.length_set]
    · rw [List.length_append]
      exact Nat.le_add_right _ _

/-- The channel and the stream have moved on. -/
theorem Inv.channel (h : Inv options t) (hwriting : Writing options ch t.stream (t.served ++ t.wire)) :
    Inv options { t with channel := ch } :=
  ⟨hwriting, h.client, h.sockets, h.fresh, h.apart, h.faithful, h.order⟩

theorem Inv.put (h : Inv options t) {payload : Bytes} {packet : Option PacketV4} (frame : Bytes)
    (hframe : frame = PacketProtoDecoder.encode payload)
    (hwriting : Writing options ch (t.stream ++ PacketProtoDecoder.encode payload) (t.served ++ t.wire ++ [(payload, packet)])) :
    Inv options ({ t with channel := ch }.put frame packet) := by
  subst hframe
  rw [List.append_assoc] at hwriting
  exact ⟨hwriting, h.client, h.sockets, h.fresh, h.apart, h.faithful, h.order⟩

theorem Inv.read (h : Inv options t) (read : Bytes) : Inv options (t.step options (.read read)) := by
  have hnext : Writing options (Java.exec (createUDPPacket read) t.channel).2 t.stream (t.served ++ t.wire) := by
    rcases createUDPPacket_state read t.channel with heq | ⟨i, heq⟩
    · rw [heq]
      exact h.writing
    · rw [heq]
      exact h.writing.bumpId i
  unfold step
  simp only
  split
  · exact h
  · split
    · rename_i heq
      rw [heq] at hnext
      exact h.channel hnext
    · rename_i heq
      rw [heq] at hnext
      exact h.channel hnext.closed

theorem generate_keepAlive (ch : UDPChannel) : Java.exec (generateUdpgwPacket 0 none) ch = (.ok [3, 0, 1, 0, 0], ch) := by
  unfold generateUdpgwPacket
  simp only [Java.exec_bind, Java.exec_lift]
  rfl

theorem Inv.keepAlive (h : Inv options t) : Inv options (t.step options .keepAlive) := by
  unfold step
  simp only [generate_keepAlive]
  split
  · exact h
  · exact h.put [3, 0, 1, 0, 0] rfl h.writing.keepAlive

/-- A frame of the channel is one of the protocol of the server. -/
theorem frame_encode (f : Frame) : f.encode = PacketProtoDecoder.encode f.payload := by
  unfold Frame.encode PacketProtoDecoder.encode
  rw [f.payload_length]

theorem Inv.write (h : Inv options t) (random : Fin SHORT_MAX_VALUE) (packet : PacketV4)
    (hpacket : packet.data = none ∨ ∃ data, Outgoing packet data ∧ data.length ≤ options.udpMtu) :
    Inv options (t.step options (.write random packet)) := by
  unfold step
  simp only
  split
  · exact h
  · rename_i hopen
    rcases hpacket with hnone | ⟨data, hout, hfits⟩
    · simp [hnone] at hopen
    · rw [generateUdpgwPacket_exec hout]
      simp only
      refine h.put _ (frame_encode _) ?_
      have hpayload : (frameOf hout random t.channel).payload = [(assigned random (flowOf packet) t.channel).1.1,
          BitVec.ofNat 8 (assigned random (flowOf packet) t.channel).1.2, 0] ++
            (packet.mIPV4Header.mDestAddress ++ packet.mTransmissionProtocol.getDestPort ++ data) := by
        simp only [Frame.payload, frameOf, List.append_assoc]
      have hnext : TableInv (assigned random (flowOf packet) t.channel).2 := h.writing.table.assigned _
      rw [hpayload]
      rcases assigned_cases random (flowOf packet) t.channel with ⟨i, c, hc, hsame, heq⟩ | ⟨-, heq⟩
      · rw [heq]
        exact h.writing.known hout hfits hc hsame _ rfl
      · rw [heq] at hnext ⊢
        exact h.writing.new hout hfits (c := { flowOf packet with id := BitVec.ofNat 16 random }) ⟨rfl, rfl, rfl, rfl⟩ hnext _ rfl

/-! ### The server -/

/-- Something that happens at the server besides the packets closes sockets at most. -/
theorem localStep_sublist (options : Options) (client : Client) (e : Local) :
    (localStep options client e).connectionsTree.Sublist client.connectionsTree ∧
      (localStep options client e).opened = client.opened := by
  cases e with
  | datagram env socket data =>
    simp only [localStep]
    split
    · exact ⟨.refl _, rfl⟩
    · exact ⟨.refl _, rfl⟩
  | error env socket =>
    simp only [localStep]
    split
    · exact ⟨List.erase_sublist, rfl⟩
    · exact ⟨.refl _, rfl⟩
  | sent socket =>
    simp only [localStep]
    split
    · exact ⟨.refl _, rfl⟩
    · exact ⟨.refl _, rfl⟩

theorem Inv.other (h : Inv options t) (e : Local) : Inv options (t.step options (.other e)) := by
  obtain ⟨hsub, hopened⟩ := localStep_sublist options t.client e
  refine ⟨h.writing, h.client.localStep e, ?_, ?_, h.apart, h.faithful, h.order⟩
  · exact fun con hcon => h.sockets con (hsub.subset hcon)
  · intro x hx
    change x.1.socket < (localStep options t.client e).opened
    rw [hopened]
    exact h.fresh x hx

/-- A socket sends what is in its buffer. -/
theorem Inv.send (h : Inv options t) (socket : ℕ) : Inv options (t.step options (.send socket)) := by
  unfold step
  simp only
  split
  · exact ⟨h.writing, h.client, h.sockets, h.fresh, h.apart, h.faithful, h.order⟩
  · exact h

/-- The packet that a datagram is for, when it is the first or it came behind those of its flow. -/
theorem apart_concat {ds : List (Datagram × Option PacketV4)} {d : Datagram} {p : PacketV4}
    (h : ∀ e ∈ ds, ∀ e' ∈ ds, e.1.socket = e'.1.socket → ∃ p p', e.2 = some p ∧ e'.2 = some p' ∧ SameEndpoints p p')
    (hd : ∀ e ∈ ds, e.1.socket = d.socket → ∃ q, e.2 = some q ∧ SameEndpoints q p) :
    ∀ e ∈ ds ++ [(d, some p)], ∀ e' ∈ ds ++ [(d, some p)], e.1.socket = e'.1.socket →
      ∃ p p', e.2 = some p ∧ e'.2 = some p' ∧ SameEndpoints p p' := by
  intro e he e' he' hsocket
  rw [List.mem_append, List.mem_singleton] at he he'
  rcases he with he | rfl
  · rcases he' with he' | rfl
    · exact h e he e' he' hsocket
    · obtain ⟨q, hq, hsame⟩ := hd e he hsocket
      exact ⟨q, p, hq, rfl, hsame⟩
  · rcases he' with he' | rfl
    · obtain ⟨q, hq, hsame⟩ := hd e' he' hsocket.symm
      exact ⟨p, q, rfl, hq, hsame.symm⟩
    · exact ⟨p, p, rfl, rfl, .refl p⟩

/-- The server takes a packet from the stream and there is no datagram for a socket. -/
theorem Inv.taken (h : Inv options t) {e : Bytes × Option PacketV4} {wire : List (Bytes × Option PacketV4)}
    (hwire : t.wire = e :: wire) {client : Client} (hclient : ClientInv options client)
    (hopened : client.opened = t.client.opened)
    (hsockets : ∀ con ∈ client.connectionsTree, con ∈ t.client.connectionsTree ∧ ∀ id, con.conid = conidOf id → numbered id e = none)
    (buffered : List (Datagram × Option PacketV4)) :
    Inv options { t with
      wire := wire
      served := t.served ++ [e]
      client := client
      buffered := buffered } := by
  have hassoc : t.served ++ [e] ++ wire = t.served ++ t.wire := by rw [hwire, List.append_assoc, List.singleton_append]
  refine ⟨hassoc ▸ h.writing, hclient, ?_, ?_, h.apart, h.faithful, ?_⟩
  · intro con hcon
    obtain ⟨hmem, hnone⟩ := hsockets con hcon
    obtain ⟨id, q, hid, hlast, hrest⟩ := h.sockets con hmem
    exact ⟨id, q, hid, by rw [lastOf_concat, hnone id hid, Option.none_or, hlast], hrest⟩
  · intro x hx
    change x.1.socket < client.opened
    rw [hopened]
    exact h.fresh x hx
  · rw [List.filterMap_append]
    exact h.order.trans (List.sublist_append_left _ _)

/-- A datagram goes to the socket of a connection of its number: one of its flow, or a new one. -/
theorem Inv.sends (h : Inv options t) {bytes : Bytes} {wire : List (Bytes × Option PacketV4)}
    (hwire : t.wire = ([flag, id, 0] ++ bytes, some packet) :: wire) (hdata : packet.data = some data) {client : Client}
    (hclient : ClientInv options client) (con : Connection) (hcon : con.conid = conidOf id ∧ con.addr = destOf packet ∧ con.origAddr = destOf packet)
    (hopened : t.client.opened ≤ client.opened ∧ con.socket < client.opened)
    (htree : ∀ c ∈ client.connectionsTree, c = con ∨ c ∈ t.client.connectionsTree ∧ c.conid ≠ conidOf id)
    (hsocket : ∀ e ∈ t.submitted, e.1.socket = con.socket → ∃ p, e.2 = some p ∧ SameEndpoints p packet)
    (hothers : ∀ c ∈ client.connectionsTree, c ≠ con → c.socket ≠ con.socket) (room : Bool)
    (buffered : List (Datagram × Option PacketV4)) :
    Inv options { t with
      wire := wire
      served := t.served ++ [([flag, id, 0] ++ bytes, some packet)]
      client := client
      submitted := t.submitted ++ (if room then [(⟨con.socket, con.addr, data⟩ : Datagram)] else []).map (·, some packet)
      buffered := buffered } := by
  have hassoc : t.served ++ [([flag, id, 0] ++ bytes, some packet)] ++ wire = t.served ++ t.wire := by
    rw [hwire, List.append_assoc, List.singleton_append]
  refine ⟨hassoc ▸ h.writing, hclient, ?_, ?_, ?_, ?_, ?_⟩
  · intro c hc
    rcases htree c hc with rfl | ⟨hmem, hne⟩
    · refine ⟨id, packet, hcon.1, by rw [lastOf_concat, numbered_self, Option.some_or], hcon.2.1, hcon.2.2, ?_⟩
      intro e he hs
      rcases List.mem_append.1 he with he | he
      · exact hsocket e he hs
      · obtain ⟨d, -, rfl⟩ := List.mem_map.1 he
        exact ⟨packet, rfl, .refl packet⟩
    · obtain ⟨id', q, hid, hlast, haddr, horig, hrest⟩ := h.sockets c hmem
      have hidne : id' ≠ id := fun heq => hne (heq ▸ hid)
      refine ⟨id', q, hid, by rw [lastOf_concat, numbered_datagram hidne, Option.none_or, hlast], haddr, horig, ?_⟩
      intro e he hs
      rcases List.mem_append.1 he with he | he
      · exact hrest e he hs
      · -- the new datagram is of another socket
        obtain ⟨d, hd, rfl⟩ := List.mem_map.1 he
        cases room with
        | false => cases hd
        | true =>
          obtain rfl := List.mem_singleton.1 hd
          have hcne : c ≠ con := by
            rintro rfl
            exact hne hcon.1
          exact absurd hs.symm (hothers c hc hcne)
  · intro e he
    rcases List.mem_append.1 he with he | he
    · exact (h.fresh e he).trans_le hopened.1
    · obtain ⟨d, hd, rfl⟩ := List.mem_map.1 he
      cases room with
      | false => cases hd
      | true =>
        obtain rfl := List.mem_singleton.1 hd
        exact hopened.2
  · cases room with
    | false => simpa using h.apart
    | true => exact apart_concat h.apart hsocket
  · intro e he
    rcases List.mem_append.1 he with he | he
    · exact h.faithful e he
    · obtain ⟨d, hd, rfl⟩ := List.mem_map.1 he
      cases room with
      | false => cases hd
      | true =>
        obtain rfl := List.mem_singleton.1 hd
        exact ⟨packet, rfl, hcon.2.1, hdata⟩
  · rw [List.filterMap_append, List.filterMap_append]
    refine h.order.append ?_
    cases room with
    | false => simp
    | true => simp

theorem Inv.serve (h : Inv options t) (hmax : 0 < options.maxConnectionsForClient) (env : Env) :
    Inv options (t.step options (.serve env)) := by
  unfold step
  simp only
  cases hwire : t.wire with
  | nil => exact h
  | cons e wire =>
    have hwritten := h.writing.written e (by rw [hwire]; simp)
    cases hwritten with
    | keepAlive =>
      have hskip : clientRecvIfHandlerSend options env [1, 0, 0] t.client = (t.client, []) := rfl
      simp only [hskip, List.map_nil, List.append_nil]
      exact h.taken hwire h.client rfl (fun con hcon => ⟨hcon, fun id _ => numbered_keepAlive id⟩) _
    | datagram packet data flag id hout hfits hflag =>
      simp only [recv_datagram hout hfits hflag]
      rw [List.append_assoc, List.append_assoc] at hwire
      rcases h.client.serve_cases hmax env flag (conidOf id) (destOf packet) data with
        ⟨con, hcon, hconid, -, hkeep, heq⟩ | ⟨closed, client', -, hinv, hlt, hnone, hopened, hsub, heq⟩
      · -- the connection is of the flow that used the number last, and so is the packet
        have hzero : flag = 0 := by
          rcases hflag with rfl | rfl
          · rfl
          · exact absurd hkeep (by decide)
        obtain ⟨id', q, hid, hlast, haddr, horig, hsent⟩ := h.sockets con hcon
        obtain rfl : id = id' := conidOf_inj (hconid.symm.trans hid)
        obtain ⟨q', hq', hsame⟩ := h.writing.chained t.served _ wire (by rw [hwire]) id packet (by rw [hzero]; rfl)
          (numbered_self _)
        obtain rfl : q = q' := Option.some.inj (hlast.symm.trans hq')
        rw [heq, List.append_assoc, List.append_assoc]
        refine h.sends hwire hout.payload (h.client.touch hcon) con
          ⟨hconid, haddr.trans hsame.destOf.symm, horig.trans hsame.destOf.symm⟩ ⟨le_rfl, ?_⟩ ?_ ?_ ?_
          env.room _
        · exact h.client.opened con (List.mem_append_left _ hcon)
        · intro c hc
          by_cases hcc : c = con
          · exact .inl hcc
          · exact .inr ⟨hc, fun hc' => hcc (h.client.conids.eq_of_key hc hcon (hc'.trans hconid.symm))⟩
        · intro e he hs
          obtain ⟨p, hp, hpq⟩ := hsent e he hs
          exact ⟨p, hp, hpq.trans hsame.symm⟩
        · intro c hc hne hs
          have hdistinct : Table.Distinct Connection.socket t.client.connectionsTree :=
            h.client.sockets.sublist ((List.sublist_append_left _ _).map _)
          exact hne (hdistinct.eq_of_key hc hcon hs)
      · have hdns : flag &&& UDPGW_CLIENT_FLAG_DNS = 0 := by
          rcases hflag with rfl | rfl <;> rfl
        rw [if_neg (not_not.2 hdns)] at heq
        have hold : ∀ c ∈ client'.connectionsTree, c ∈ t.client.connectionsTree ∧ c.conid ≠ conidOf id :=
          fun c hc => ⟨hsub.subset hc, findConnection_none_iff.1 hnone c hc⟩
        have hnext := hinv.init_connection data env (destOf packet) (destOf packet) hnone hlt
        rw [heq, List.append_assoc, List.append_assoc]
        unfold connectionInit at hnext ⊢
        by_cases hopens : env.opens = true
        · rw [if_pos hopens] at hnext ⊢
          refine h.sends hwire hout.payload hnext ⟨client'.opened, conidOf id, destOf packet, destOf packet⟩ ⟨rfl, rfl, rfl⟩
            ⟨?_, ?_⟩ ?_ ?_ ?_ env.room _
          · change t.client.opened ≤ client'.opened + 1
            omega
          · exact Nat.lt_succ_self _
          · intro c hc
            exact (List.mem_cons.1 hc).imp_right (hold c)
          · -- there was no datagram for a new socket
            intro e he hs
            have := h.fresh e he
            simp only at hs
            omega
          · intro c hc hne hs
            have hc' := (List.mem_cons.1 hc).resolve_left hne
            have := hinv.opened c (List.mem_append_left _ hc')
            simp only at hs
            omega
        · rw [if_neg hopens] at hnext ⊢
          simp only [List.map_nil, List.append_nil]
          refine h.taken hwire hinv hopened (fun c hc => ⟨(hold c hc).1, fun id' hid' => numbered_datagram ?_ _⟩) _
          rintro rfl
          exact (hold c hc).2 hid'

/-! ## Runs -/

/-- The writer is given datagrams over IPv4 that the server has room for. -/
def Datagrams (options : Options) : Event → Prop
  | .write _ packet => packet.data = none ∨ ∃ data, Outgoing packet data ∧ data.length ≤ options.udpMtu
  | _ => True

theorem Inv.step (h : Inv options t) (hmax : 0 < options.maxConnectionsForClient) (e : Event) (he : Datagrams options e) :
    Inv options (t.step options e) := by
  cases e with
  | write random packet => exact h.write random packet he
  | keepAlive => exact h.keepAlive
  | read data => exact h.read data
  | serve env => exact h.serve hmax env
  | other e => exact h.other e
  | send socket => exact h.send socket

theorem inv_run (hmax : 0 < options.maxConnectionsForClient) (es : List Event) (hes : ∀ e ∈ es, Datagrams options e) :
    Inv options (Run.run (step options) {} es) :=
  Run.invariant_run (fun _ e h (he : Datagrams options e) => h.step hmax e he) (Inv.init options)
    (.of_events hes)

end Tunnel

end SmartTunnel
