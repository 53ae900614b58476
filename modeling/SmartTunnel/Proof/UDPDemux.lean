import SmartTunnel.Base.Halting
import SmartTunnel.Proof.Udpgw

/-!
# Responses and the client table

`createUDPPacket_cases` says what any read does to a table: nothing, or the entry that it selects is
answered. `createUDPPacket_encode` says which of these a frame does: it raises, it is dropped, or it
is answered by a datagram to the entry that its id selects. From it, for every table that
sending and receiving can make (`Reachable`):

* `endpoints_agree_iff`: when a datagram is only made for a frame of the entry's remote
  endpoint.
* `demultiplexed_iff`: when a frame is answered or dropped, and does not close the channel.
-/

namespace SmartTunnel

open Jvm BigEndian ByteUtil

namespace UDPChannel

/-! ## Reachable tables -/

/-- The channels that sending and receiving can make. -/
inductive Reachable : UDPChannel → Prop
  | init : Reachable {}
  | sent {ch : UDPChannel} (random : Fin SHORT_MAX_VALUE) {packet : PacketV4} : Reachable ch →
      (∀ data, packet.data = some data → Outgoing packet data) → Reachable (sendPacket random packet ch)
  | received {ch : UDPChannel} (read : Bytes) : Reachable ch →
      Reachable (Java.exec (createUDPPacket read) ch).2

/-- The endpoints of an entry are IPv4 addresses and ports. -/
structure UDPClientOK (client : UDPClient) : Prop where
  localAddress : client.localAddress.length = 4
  remoteAddress : client.remoteAddress.length = 4
  localPort : client.localPort.toNat < 2 ^ 16
  remotePort : client.remotePort.toNat < 2 ^ 16

structure TableOK (ch : UDPChannel) : Prop where
  clients : ∀ client ∈ ch.mUDPClients, UDPClientOK client
  counter : ch.mClientIdCounter ≤ MAX_CLIENT_ID
  size : ch.mUDPClients.length ≤ MAX_CLIENT_ID + 1

theorem flowOf_ok {packet : PacketV4} {data : Bytes} (h : Outgoing packet data) : UDPClientOK (flowOf packet) := by
  have hport : ∀ port : Bytes, port.length = 2 → (BitVec.ofNat 32 (beNat port)).toNat < 2 ^ 16 := by
    intro port hl
    have hlt := beNat_lt port
    rw [hl] at hlt
    rw [BitVec.toNat_ofNat, Nat.mod_eq_of_lt (by omega)]
    exact hlt
  exact ⟨h.source, h.dest, hport _ h.sourcePort, hport _ h.destPort⟩

theorem addClient_ok {ch : UDPChannel} {client : UDPClient} (h : TableOK ch) (hc : UDPClientOK client) :
    TableOK (addClient client ch) := by
  have hcount := h.counter
  have hsize := h.size
  refine ⟨?_, ?_, ?_⟩
  · intro c hmem
    simp only [addClient] at hmem
    split at hmem
    · rcases List.mem_or_eq_of_mem_set hmem with hm | rfl
      · exact h.clients c hm
      · exact hc
    · rcases List.mem_append.1 hmem with hm | hm
      · exact h.clients c hm
      · rw [List.mem_singleton] at hm
        rw [hm]; exact hc
  · simp only [addClient]
    split <;> omega
  · simp only [addClient]
    split
    · rw [List.length_set]; exact hsize
    · rw [List.length_append, List.length_singleton]; omega

theorem assigned_ok {ch : UDPChannel} {client : UDPClient} (random : Fin SHORT_MAX_VALUE) (h : TableOK ch)
    (hc : UDPClientOK client) : TableOK (assigned random client ch).2 := by
  unfold assigned
  split
  · exact h
  · exact addClient_ok h ⟨hc.localAddress, hc.remoteAddress, hc.localPort, hc.remotePort⟩

theorem bumpId_ok {ch : UDPChannel} (i : ℕ) (h : TableOK ch) : TableOK (bumpId i ch) := by
  refine ⟨?_, h.counter, ?_⟩
  · intro c hc
    obtain ⟨j, hj, rfl⟩ := List.mem_iff_getElem.1 hc
    simp only [bumpId, List.length_modify] at hj
    simp only [bumpId, List.getElem_modify]
    have hold := h.clients _ (List.getElem_mem hj)
    split
    · exact ⟨hold.localAddress, hold.remoteAddress, hold.localPort, hold.remotePort⟩
    · exact hold
  · simp only [bumpId, List.length_modify]; exact h.size

/-- The two length bytes are read signed, so a payload is shorter than half of what they can say. -/
theorem readFields_payload {read : Bytes} {fields : UdpgwFields} (h : readFields read = .ok fields) :
    fields.payload.length ≤ 32639 := by
  unfold readFields at h
  obtain ⟨lengthBytes, -, h⟩ := bind_ok_iff.1 h
  obtain ⟨len, hlen, h⟩ := bind_ok_iff.1 h
  obtain ⟨payload, hpayload, h⟩ := bind_ok_iff.1 h
  obtain ⟨flags, -, h⟩ := bind_ok_iff.1 h
  obtain ⟨destAddr, -, h⟩ := bind_ok_iff.1 h
  obtain ⟨destPort, -, h⟩ := bind_ok_iff.1 h
  unfold payloadLength at hlen
  obtain ⟨high, -, hlen⟩ := bind_ok_iff.1 hlen
  obtain ⟨low, -, hlen⟩ := bind_ok_iff.1 hlen
  have hval : high.toInt * 256 + low.toInt = len := Except.ok.inj hlen
  have hhigh := BitVec.toInt_lt (x := high)
  have hlow := BitVec.toInt_lt (x := low)
  have hsize := copyOfRange_length hpayload
  rw [← Except.ok.inj h]
  change payload.length ≤ 32639
  omega

/-- The index that a read names. -/
def selected (read : Bytes) : Option ℤ := do
  let fields ← (readFields read).toOption
  let index ← (aget fields.flags 1).toOption
  return index.toInt

/-- **What `createUDPPacket` does with a read**: nothing, or a response for the client that the read names,
which takes its identification. -/
theorem createUDPPacket_cases (read : Bytes) (ch : UDPChannel) :
    (∃ r, Java.exec (createUDPPacket read) ch = (r, ch) ∧ ∀ packet, r ≠ .ok (some packet)) ∨
      ∃ (i : ℕ) (client : UDPClient) (packet : PacketV4), selected read = some (i : ℤ) ∧
        ch.mUDPClients[i]? = some client ∧ packet.mIPV4Header = responseHeader client ∧
        Java.exec (createUDPPacket read) ch = (.ok (some packet), bumpId i ch) := by
  unfold selected
  simp only [createUDPPacket, Java.exec_bind, Java.exec_lift, Java.exec_get]
  cases hread : readFields read with
  | error e => exact .inl ⟨_, rfl, by simp⟩
  | ok fields =>
  simp only
  cases hindex : aget fields.flags 1 with
  | error e => exact .inl ⟨_, rfl, by simp⟩
  | ok index =>
  simp only
  cases hclient : clientAt ch.mUDPClients index.toInt with
  | error e => exact .inl ⟨_, rfl, by simp⟩
  | ok client =>
  simp only [Java.exec_ite]
  split
  · exact .inl ⟨_, rfl, by simp⟩
  simp only [Java.exec_bind, Java.exec_lift]
  cases hdata : udpData fields.payload with
  | error e => exact .inl ⟨_, rfl, by simp⟩
  | ok data =>
    -- the packet is not too large, so it is made
    have hcreate : PacketV4.create (responseHeader client) (.udp (UDP.ofInts client.remotePort client.localPort))
        (some data) = .ok ⟨responseHeader client, .udp (UDP.ofInts client.remotePort client.localPort), some data⟩ := by
      have hsize := readFields_payload hread
      have hlen := copyOfRange_length hdata
      have hip : (responseHeader client).getHeaderLength = 20 := rfl
      unfold PacketV4.create
      simp only [TransmissionProtocol.getHeaderLength, UDP.getHeaderLength, hip, bind, Except.bind, Option.map_some,
        Option.getD_some, pure, Except.pure]
      rw [if_neg (by unfold MAX_SIZE; omega)]
    simp only [Java.exec_modify, hcreate]
    unfold clientAt at hclient
    split at hclient
    · cases hclient
    · rename_i hnonneg
      cases hentry : ch.mUDPClients[index.toInt.toNat]? with
      | none =>
        rw [hentry] at hclient
        cases hclient
      | some entry =>
        rw [hentry] at hclient
        obtain rfl : entry = client := Except.ok.inj hclient
        refine .inr ⟨index.toInt.toNat, entry, _, ?_, hentry, rfl, rfl⟩
        rw [Int.toNat_of_nonneg (not_lt.1 hnonneg)]
        change ((aget fields.flags 1).toOption >>= fun index => pure index.toInt) = _
        rw [hindex]
        rfl

/-- It changes at most the identification counter of one entry. -/
theorem createUDPPacket_state (read : Bytes) (ch : UDPChannel) :
    (Java.exec (createUDPPacket read) ch).2 = ch ∨ ∃ i, (Java.exec (createUDPPacket read) ch).2 = bumpId i ch := by
  rcases createUDPPacket_cases read ch with ⟨r, hexec, -⟩ | ⟨i, client, packet, -, -, -, hexec⟩
  · exact .inl (by rw [hexec])
  · exact .inr ⟨i, by rw [hexec]⟩

/-- **Every reachable table is well formed.** -/
theorem Reachable.tableOK {ch : UDPChannel} (h : Reachable ch) : TableOK ch := by
  induction h with
  | init =>
    refine ⟨?_, ?_, ?_⟩
    · intro c hc; cases hc
    · decide
    · decide
  | @sent ch random packet hr hout ih =>
    unfold sendPacket
    cases hd : packet.data with
    | none => exact ih
    | some data =>
      simp only [Option.isNone_some, Bool.false_eq_true, if_false]
      rw [generateUdpgwPacket_exec (hout data hd)]
      exact assigned_ok random ih (flowOf_ok (hout data hd))
  | @received ch read hr ih =>
    rcases createUDPPacket_state read ch with h | ⟨i, h⟩
    · rw [h]; exact ih
    · rw [h]; exact bumpId_ok i ih

/-! ## One response -/

/-- The table entry that the id byte of a frame names. -/
def entry (ch : UDPChannel) (f : Frame) : Option UDPClient := ch.mUDPClients[f.id.toNat]?

/-- The datagram to a client: from its remote to its local endpoint. -/
def response (client : UDPClient) (f : Frame) : PacketV4 where
  mIPV4Header := responseHeader client
  mTransmissionProtocol := .udp (UDP.ofInts client.remotePort client.localPort)
  data := some (f.data.take (f.signedLength.toNat - 9))

/-- The id byte is read signed. -/
theorem clientAt_id (ch : UDPChannel) (f : Frame) :
    clientAt ch.mUDPClients f.id.toInt = if f.id.toNat < 128 then
      match entry ch f with
        | none => .error .indexOutOfBounds
        | some client => .ok client
      else .error .indexOutOfBounds := by
  have hid := f.id.isLt
  unfold clientAt
  by_cases h : f.id.toNat < 128
  · have hint : f.id.toInt = f.id.toNat := BitVec.toInt_eq_toNat_of_lt (by omega)
    rw [if_pos h, hint, if_neg (by omega), Int.toNat_natCast]
    rfl
  · have hint : f.id.toInt < 0 := by
      rw [BitVec.toInt_eq_toNat_cond, if_neg (by omega)]; omega
    rw [if_neg h, if_pos hint]

/-- The largest signed length leaves room for both headers. -/
theorem create_response {client : UDPClient} {f : Frame} (h : f.Readable) :
    PacketV4.create (responseHeader client) (.udp (UDP.ofInts client.remotePort client.localPort))
      (some (f.data.take (f.signedLength.toNat - 9))) = .ok (response client f) := by
  have hle : f.signedLength ≤ 32639 := by
    rw [f.signedLength_eq]
    rcases h with h | ⟨h1, h2⟩ <;> split_ifs <;> omega
  have hlen : (f.data.take (f.signedLength.toNat - 9)).length ≤ f.signedLength.toNat - 9 :=
    List.length_take_le _ _
  have hip : (responseHeader client).getHeaderLength = 20 := rfl
  unfold PacketV4.create
  simp only [TransmissionProtocol.getHeaderLength, UDP.getHeaderLength, hip, bind, Except.bind,
    Option.map_some, Option.getD_some, pure, Except.pure]
  rw [if_neg (by unfold MAX_SIZE; omega)]
  rfl

/-- **What `createUDPPacket` makes of a frame.** -/
theorem createUDPPacket_encode (f : Frame) (ch : UDPChannel) :
    Java.exec (createUDPPacket f.encode) ch =
      if f.Readable then
        if f.id.toNat < 128 then
          match entry ch f with
          | none => (.error .indexOutOfBounds, ch)
          | some client =>
            if client.remoteAddress ≠ f.addr ∧ f.port ≠ getByteFromInt client.remotePort 2 then (.ok none, ch)
            else (.ok (some (response client f)), bumpId f.id.toNat ch)
        else (.error .indexOutOfBounds, ch)
      else (.error .illegalArgument, ch) := by
  have haget : aget [f.flag, f.id, f.reserved] 1 = .ok f.id := rfl
  simp only [createUDPPacket, Java.exec_bind, Java.exec_lift, Java.exec_get, readFields_encode]
  by_cases h : f.Readable
  · simp only [if_pos h, haget, clientAt_id]
    by_cases hid : f.id.toNat < 128
    · have hint : f.id.toInt.toNat = f.id.toNat := by
        rw [BitVec.toInt_eq_toNat_of_lt (by omega)]; rfl
      simp only [if_pos hid]
      cases entry ch f with
      | none => rfl
      | some client =>
        simp only [Java.exec_ite, Java.exec_pure, Java.exec_bind, Java.exec_lift, udpData_readPayload h,
          Java.exec_modify, create_response h, hint]
    · simp only [if_neg hid]
  · simp only [if_neg h]

/-- A datagram is made iff the frame is readable and one of the two comparisons succeeds. -/
theorem createUDPPacket_returns_iff {f : Frame} {ch ch' : UDPChannel} {pk : PacketV4} :
    Java.exec (createUDPPacket f.encode) ch = (.ok (some pk), ch') ↔
      f.Readable ∧ f.id.toNat < 128 ∧ ∃ client, entry ch f = some client ∧
        (client.remoteAddress = f.addr ∨ f.port = getByteFromInt client.remotePort 2) ∧
          pk = response client f ∧ ch' = bumpId f.id.toNat ch := by
  rw [createUDPPacket_encode]
  by_cases h : f.Readable
  · by_cases hid : f.id.toNat < 128
    · rw [if_pos h, if_pos hid]
      cases entry ch f with
      | none => simp
      | some client =>
        by_cases hm : client.remoteAddress ≠ f.addr ∧ f.port ≠ getByteFromInt client.remotePort 2
        · simp only [if_pos hm]
          refine iff_of_false (by simp) ?_
          rintro ⟨-, -, c, hc, hor, -⟩
          obtain rfl := Option.some.inj hc
          exact hor.elim hm.1 hm.2
        · simp only [if_neg hm]
          constructor
          · intro heq
            simp only [Prod.mk.injEq, Except.ok.injEq, Option.some.injEq] at heq
            refine ⟨h, hid, client, rfl, ?_, heq.1.symm, heq.2.symm⟩
            by_contra hc
            exact hm (not_or.1 hc)
          · rintro ⟨-, -, c, hc, -, rfl, rfl⟩
            obtain rfl := Option.some.inj hc
            rfl
    · rw [if_pos h, if_neg hid]
      refine iff_of_false (by simp) (fun hc => hid hc.2.1)
  · rw [if_neg h]
    refine iff_of_false (by simp) (fun hc => h hc.1)

theorem entry_ok {ch : UDPChannel} {f : Frame} {client : UDPClient} (h : TableOK ch)
    (he : entry ch f = some client) : UDPClientOK client := h.clients client (List.mem_of_getElem? he)

/-- Two-byte ports are compared as numbers. -/
theorem port_eq_iff {client : UDPClient} (hc : UDPClientOK client) (f : Frame) :
    f.port = getByteFromInt client.remotePort 2 ↔ client.remotePort.toNat = beNat f.port := by
  have hl := getByteFromInt_two_length hc.remotePort
  constructor
  · intro h
    rw [h, beNat_getByteFromInt]
  · intro h
    exact beNat_inj (by rw [hl, f.port_length]) (by rw [beNat_getByteFromInt, h])

/-- The remote endpoint of an entry is the one a frame names. -/
structure FromEndpoint (client : UDPClient) (f : Frame) : Prop where
  addr : client.remoteAddress = f.addr
  port : client.remotePort.toNat = beNat f.port

/-- A packet goes from the remote to the local endpoint of an entry. -/
structure Addressed (client : UDPClient) (pk : PacketV4) : Prop where
  source : pk.mIPV4Header.mSourceAddress = client.remoteAddress
  dest : pk.mIPV4Header.mDestAddress = client.localAddress
  sourcePort : beNat pk.mTransmissionProtocol.getSourcePort = client.remotePort.toNat
  destPort : beNat pk.mTransmissionProtocol.getDestPort = client.localPort.toNat

theorem response_addressed (client : UDPClient) (f : Frame) : Addressed client (response client f) :=
  ⟨rfl, rfl, beNat_getByteFromInt _ _, beNat_getByteFromInt _ _⟩

/-- Every datagram that is made for a frame comes from the endpoint that the frame names,
and goes to the entry that it selects. -/
def EndpointsAgree (ch : UDPChannel) (f : Frame) : Prop :=
  ∀ pk ch', Java.exec (createUDPPacket f.encode) ch = (.ok (some pk), ch') →
    ∃ client, entry ch f = some client ∧ FromEndpoint client f ∧ Addressed client pk

/-- **When no datagram is misdelivered**: unless a readable frame with a live id below 128
matches its entry in exactly one of address and port. -/
theorem endpoints_agree_iff {ch : UDPChannel} (hr : Reachable ch) (f : Frame) :
    EndpointsAgree ch f ↔ (f.Readable → f.id.toNat < 128 → ∀ client, entry ch f = some client →
      (client.remoteAddress = f.addr ↔ client.remotePort.toNat = beNat f.port)) := by
  constructor
  · intro h hread hid client he
    have hc := entry_ok hr.tableOK he
    -- one match is enough for a datagram, and then both hold
    have hboth : (client.remoteAddress = f.addr ∨ f.port = getByteFromInt client.remotePort 2) →
        FromEndpoint client f := by
      intro hor
      obtain ⟨c, he', hfrom, -⟩ := h _ _ (createUDPPacket_returns_iff.2 ⟨hread, hid, client, he, hor, rfl, rfl⟩)
      obtain rfl := Option.some.inj (he.symm.trans he')
      exact hfrom
    exact ⟨fun ha => (hboth (.inl ha)).port, fun hp => (hboth (.inr ((port_eq_iff hc f).2 hp))).addr⟩
  · intro h pk ch' hret
    obtain ⟨hread, hid, client, he, hor, rfl, -⟩ := createUDPPacket_returns_iff.1 hret
    have hiff := h hread hid client he
    refine ⟨client, he, ?_, response_addressed client f⟩
    rcases hor with ha | hp
    · exact ⟨ha, hiff.1 ha⟩
    · have hp' := (port_eq_iff (entry_ok hr.tableOK he) f).1 hp
      exact ⟨hiff.2 hp', hp'⟩

/-- The channel after a DNS query to `8.8.8.8`. -/
def queried : UDPChannel := sendPacket 7 (dnsQuery [1, 2, 3]) {}

theorem queried_reachable : Reachable queried := by
  refine .sent 7 .init ?_
  intro data hd
  obtain rfl := Option.some.inj hd
  exact dnsQuery_outgoing (by decide)

/-- A frame of one byte for the first entry. -/
def reply (high low : Byte) : Frame where
  flag := 0
  id := 0
  reserved := 0
  addr := [8, 8, 8, 8]
  port := [high, low]
  data := [9]
  addr_length := rfl
  port_length := rfl
  fits := by decide

theorem endpoints_agree_reply : EndpointsAgree queried (reply 0 53) := by
  refine (endpoints_agree_iff queried_reachable _).2 ?_
  intro _ _ client he
  have hclient : entry queried (reply 0 53) = some
      { id := 7, localPort := 51201, localAddress := [10, 0, 0, 2], remotePort := 53,
        remoteAddress := [8, 8, 8, 8] } := by decide +kernel
  obtain rfl := Option.some.inj (hclient.symm.trans he)
  exact iff_of_true rfl (by decide +kernel)

/-- A frame of port 443 of the host that was asked is delivered to the DNS client. -/
theorem reply_misdelivered : Reachable queried ∧ ¬ EndpointsAgree queried (reply 1 187) := by
  refine ⟨queried_reachable, fun h => ?_⟩
  have hclient : entry queried (reply 1 187) = some
      { id := 7, localPort := 51201, localAddress := [10, 0, 0, 2], remotePort := 53,
        remoteAddress := [8, 8, 8, 8] } := by decide +kernel
  obtain ⟨c, he, hfrom, -⟩ := h _ _ (createUDPPacket_returns_iff.2
    ⟨by decide, by decide, _, hclient, .inl rfl, rfl, rfl⟩)
  obtain rfl := Option.some.inj (hclient.symm.trans he)
  exact absurd hfrom.port (by decide +kernel)

/-- A frame is answered, or dropped when its id is not live, and never raises. -/
def Demultiplexed (ch : UDPChannel) (f : Frame) : Prop :=
  ∃ r ch', Java.exec (createUDPPacket f.encode) ch = (.ok r, ch') ∧
    (∀ client, entry ch f = some client → FromEndpoint client f → ∃ pk, r = some pk ∧ Addressed client pk) ∧
    (entry ch f = none → r = none)

/-- **When a frame is demultiplexed**: when its id is live and below 128, and its length is
not read as a negative number. -/
theorem demultiplexed_iff (ch : UDPChannel) (f : Frame) :
    Demultiplexed ch f ↔ f.id.toNat < 128 ∧ f.id.toNat < ch.mUDPClients.length ∧ f.Readable := by
  have hlive : f.id.toNat < ch.mUDPClients.length ↔ ∃ client, entry ch f = some client := by
    unfold entry
    constructor
    · intro h; exact ⟨_, List.getElem?_eq_getElem h⟩
    · rintro ⟨client, h⟩; exact (List.getElem?_eq_some_iff.1 h).1
  unfold Demultiplexed
  rw [hlive, createUDPPacket_encode]
  constructor
  · rintro ⟨r, ch', heq, -, -⟩
    by_cases hread : f.Readable
    · by_cases hid : f.id.toNat < 128
      · refine ⟨hid, ?_, hread⟩
        rw [if_pos hread, if_pos hid] at heq
        cases he : entry ch f with
        | none => rw [he] at heq; simp at heq
        | some client => exact ⟨client, rfl⟩
      · rw [if_pos hread, if_neg hid] at heq; simp at heq
    · rw [if_neg hread] at heq; simp at heq
  · rintro ⟨hid, ⟨client, he⟩, hread⟩
    rw [if_pos hread, if_pos hid, he]
    by_cases hm : client.remoteAddress ≠ f.addr ∧ f.port ≠ getByteFromInt client.remotePort 2
    · refine ⟨none, ch, by simp only [if_pos hm], ?_, fun _ => rfl⟩
      intro c hc hfrom
      obtain rfl := Option.some.inj hc
      exact absurd hfrom.addr hm.1
    · refine ⟨some (response client f), bumpId f.id.toNat ch, by simp only [if_neg hm], ?_,
        fun h => by simp at h⟩
      intro c hc _
      obtain rfl := Option.some.inj hc
      exact ⟨_, rfl, response_addressed client f⟩

/-- Before any datagram is sent, a frame raises instead of being dropped. -/
theorem reply_not_demultiplexed : Reachable {} ∧ ¬ Demultiplexed {} (reply 0 53) := by
  refine ⟨.init, ?_⟩
  rintro ⟨r, ch', heq, -, -⟩
  rw [createUDPPacket_encode, if_pos (by decide), if_pos (by decide)] at heq
  cases heq

end UDPChannel

end SmartTunnel
