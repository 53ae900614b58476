import SmartTunnel.Model.UDPChannel
import SmartTunnel.Proof.Checksums

/-!
# udpgw frames

A frame is a little-endian length and a payload: flag, id, a reserved byte, the remote
endpoint, and the data. `createUDPPacket` reads both length bytes signed:

* `readFields_encode`: a frame whose signed length is not negative is read up to that length.
* `generateUdpgwPacket_ok`: what is written is a frame.
* `udpgw_recovers_iff`: the lengths for which reading gives back what was written.
-/

namespace SmartTunnel

open Jvm ByteUtil

namespace UDPChannel

/-- A frame of the udpgw protocol. -/
structure Frame where
  flag : Byte
  id : Byte
  reserved : Byte
  addr : Bytes
  port : Bytes
  data : Bytes
  addr_length : addr.length = 4
  port_length : port.length = 2
  fits : data.length + 9 ≤ 65535
  deriving DecidableEq

namespace Frame

def length (f : Frame) : ℕ := f.data.length + 9

def payload (f : Frame) : Bytes := [f.flag, f.id, f.reserved] ++ f.addr ++ f.port ++ f.data

def encode (f : Frame) : Bytes :=
  [BitVec.ofNat 8 (f.length % 256), BitVec.ofNat 8 (f.length / 256)] ++ f.payload

/-- The length as `createUDPPacket` reads it. -/
def signedLength (f : Frame) : ℤ :=
  (BitVec.ofNat 8 (f.length / 256)).toInt * 256 + (BitVec.ofNat 8 (f.length % 256)).toInt

/-- The lengths that are not read as a negative number. -/
def Readable (f : Frame) : Prop := f.length < 128 ∨ (256 ≤ f.length ∧ f.length < 32768)

instance (f : Frame) : Decidable f.Readable := inferInstanceAs (Decidable (_ ∨ _))

variable (f : Frame)

theorem payload_length : f.payload.length = f.length := by
  have h1 := f.addr_length
  have h2 := f.port_length
  simp only [payload, length, List.length_append, List.length_cons, List.length_nil]
  omega

theorem signedLength_eq : f.signedLength = f.length - (if f.length % 256 < 128 then 0 else 256) -
    (if f.length / 256 < 128 then 0 else 65536) := by
  have hf := f.fits
  unfold signedLength
  set n := f.length with hn
  have hlt : n < 65536 := by rw [hn, length]; omega
  have h1 : (BitVec.ofNat 8 (n / 256)).toNat = n / 256 := by
    rw [BitVec.toNat_ofNat]; exact Nat.mod_eq_of_lt (by omega)
  have h2 : (BitVec.ofNat 8 (n % 256)).toNat = n % 256 := by
    rw [BitVec.toNat_ofNat]; exact Nat.mod_eq_of_lt (by omega)
  rw [BitVec.toInt_eq_toNat_cond, BitVec.toInt_eq_toNat_cond, h1, h2]
  split_ifs <;> omega

theorem signedLength_nonneg_iff : 0 ≤ f.signedLength ↔ f.Readable := by
  have hf := f.fits
  rw [signedLength_eq, Readable]
  have : f.length < 65536 := by rw [length]; omega
  split_ifs <;> omega

/-- A readable length is read right or 256 too small, and never below the fixed part. -/
theorem Readable.signedLength {f : Frame} (h : f.Readable) :
    9 ≤ f.signedLength ∧ f.signedLength ≤ f.length := by
  have h9 : 9 ≤ f.length := by unfold Frame.length; omega
  rw [signedLength_eq]
  rcases h with h | ⟨h1, h2⟩ <;> split_ifs <;> omega

theorem signedLength_exact_iff : f.signedLength = f.length ↔ f.length % 256 < 128 ∧ f.length < 32768 := by
  have hf := f.fits
  have : f.length < 65536 := by rw [length]; omega
  rw [signedLength_eq]
  split_ifs <;> omega

end Frame

/-! ## Reading -/

variable {f : Frame}

/-- The payload as far as it is read. -/
def Frame.readPayload (f : Frame) : Bytes := f.payload.take f.signedLength.toNat

theorem readPayload_eq (h : f.Readable) :
    f.readPayload = [f.flag, f.id, f.reserved] ++ f.addr ++ f.port ++ f.data.take (f.signedLength.toNat - 9) := by
  have h9 := h.signedLength.1
  have h1 := f.addr_length
  have h2 := f.port_length
  unfold Frame.readPayload Frame.payload
  rw [List.take_append, List.take_of_length_le]
  · congr 2
    simp only [List.length_append, List.length_cons, List.length_nil]
    omega
  · simp only [List.length_append, List.length_cons, List.length_nil]
    omega

theorem readPayload_length (h : f.Readable) : f.readPayload.length = f.signedLength.toNat := by
  have h9 := h.signedLength
  rw [Frame.readPayload, List.length_take, f.payload_length]
  omega

theorem payloadLength_encode (f : Frame) : payloadLength
    [BitVec.ofNat 8 (f.length % 256), BitVec.ofNat 8 (f.length / 256)] = .ok f.signedLength := rfl

/-- **A frame is read up to its signed length; a negative one raises.** -/
theorem readFields_encode (f : Frame) :
    readFields f.encode = if f.Readable then
      .ok ⟨f.readPayload, [f.flag, f.id, f.reserved], f.addr, f.port⟩ else .error .illegalArgument := by
  have hlen : copyOfRange f.encode 0 2 =
      .ok [BitVec.ofNat 8 (f.length % 256), BitVec.ofNat 8 (f.length / 256)] := by
    have := copyOfRange_slice (a := f.encode) (i := 0) (j := 2) (by omega) (by simp [Frame.encode])
    simpa [Frame.encode] using this
  simp only [readFields, hlen, bind, Except.bind, payloadLength_encode]
  by_cases h : f.Readable
  · rw [if_pos h]
    obtain ⟨h9, hle⟩ := h.signedLength
    obtain ⟨L, hL⟩ := Int.eq_ofNat_of_zero_le (show 0 ≤ f.signedLength by omega)
    have hp : copyOfRange f.encode 2 (f.signedLength + 2) = .ok f.readPayload := by
      have := copyOfRange_slice (a := f.encode) (i := 2) (j := L + 2) (by omega)
        (by simp only [Frame.encode, List.length_append, f.payload_length]; simp; omega)
      rw [hL]
      simpa [Frame.encode, Frame.readPayload, hL] using this
    have hplen := readPayload_length h
    have ha := f.addr_length
    have hpt := f.port_length
    -- flags, address and port, one behind the other
    have h0 : copyOfRange f.readPayload 0 3 = .ok [f.flag, f.id, f.reserved] := by
      have := copyOfRange_slice (a := f.readPayload) (i := 0) (j := 3) (by omega) (by omega)
      push_cast at this
      rw [this, readPayload_eq h]
      simp
    have h3 : copyOfRange f.readPayload 3 7 = .ok f.addr := by
      have := copyOfRange_slice (a := f.readPayload) (i := 3) (j := 7) (by omega) (by omega)
      push_cast at this
      rw [this, readPayload_eq h]
      simp [← ha]
    have h7 : copyOfRange f.readPayload 7 9 = .ok f.port := by
      have := copyOfRange_slice (a := f.readPayload) (i := 7) (j := 9) (by omega) (by omega)
      push_cast at this
      rw [this, readPayload_eq h, List.append_assoc, List.drop_left' (by simp [ha])]
      simp [← hpt]
    simp only [hp, h0, show (3 + 4 : ℤ) = 7 from rfl, h3, show (7 + 2 : ℤ) = 9 from rfl, h7, pure, Except.pure]
  · rw [if_neg h]
    -- a range that ends before it begins raises
    have hneg : f.signedLength < 0 := by
      by_contra hc
      exact h (f.signedLength_nonneg_iff.1 (by omega))
    unfold copyOfRange
    rw [if_pos (by omega)]

/-- The data of a frame as it is read. -/
theorem udpData_readPayload (h : f.Readable) :
    udpData f.readPayload = .ok (f.data.take (f.signedLength.toNat - 9)) := by
  have h9 := h.signedLength.1
  have hplen := readPayload_length h
  have ha := f.addr_length
  have hpt := f.port_length
  have := copyOfRange_slice (a := f.readPayload) (i := 9) (j := f.readPayload.length) (by omega) le_rfl
  have hdrop : f.readPayload.drop 9 = f.data.take (f.signedLength.toNat - 9) := by
    rw [readPayload_eq h]
    exact List.drop_left' (by simp [ha, hpt])
  unfold udpData
  push_cast at this
  rw [this, hdrop, List.take_of_length_le]
  rw [hplen, List.length_take]
  omega

/-! ## Writing -/

/-- An outgoing datagram: IPv4 endpoints and a payload that fits into a frame. -/
structure Outgoing (packet : PacketV4) (data : Bytes) : Prop where
  source : packet.mIPV4Header.mSourceAddress.length = 4
  dest : packet.mIPV4Header.mDestAddress.length = 4
  sourcePort : packet.mTransmissionProtocol.getSourcePort.length = 2
  destPort : packet.mTransmissionProtocol.getDestPort.length = 2
  payload : packet.data = some data
  fits : data.length + 9 ≤ 65535

/-- The table entry of an outgoing datagram, before it has an identification. -/
def flowOf (packet : PacketV4) : UDPClient where
  localPort := BitVec.ofNat 32 (BigEndian.beNat packet.mTransmissionProtocol.getSourcePort)
  localAddress := packet.mIPV4Header.mSourceAddress
  remotePort := BitVec.ofNat 32 (BigEndian.beNat packet.mTransmissionProtocol.getDestPort)
  remoteAddress := packet.mIPV4Header.mDestAddress

variable {packet : PacketV4} {data : Bytes} {random : Fin SHORT_MAX_VALUE}

/-- What `assignId` returns, and the channel after it. -/
def assigned (random : Fin SHORT_MAX_VALUE) (client : UDPClient) (ch : UDPChannel) : (Byte × ℕ) × UDPChannel :=
  match ch.mUDPClients.findIdx? client.equals with
  | some i => ((0, i), ch)
  | none => ((2, ch.mClientIdCounter), addClient { client with id := BitVec.ofNat 16 random } ch)

theorem assignId_exec (random : Fin SHORT_MAX_VALUE) (client : UDPClient) (ch : UDPChannel) :
    Java.exec (assignId random client) ch =
      (.ok (assigned random client ch).1, (assigned random client ch).2) := by
  unfold assignId assigned
  simp only [Java.exec_bind, Java.exec_get]
  cases ch.mUDPClients.findIdx? client.equals with
  | some i => rfl
  | none => rfl

/-- The frame of an outgoing datagram. -/
def frameOf (h : Outgoing packet data) (random : Fin SHORT_MAX_VALUE) (ch : UDPChannel) : Frame where
  flag := (assigned random (flowOf packet) ch).1.1
  id := BitVec.ofNat 8 (assigned random (flowOf packet) ch).1.2
  reserved := 0
  addr := packet.mIPV4Header.mDestAddress
  port := packet.mTransmissionProtocol.getDestPort
  data := data
  addr_length := h.dest
  port_length := h.destPort
  fits := h.fits

/-- **What is written is a frame.** -/
theorem generateUdpgwPacket_exec (h : Outgoing packet data) (ch : UDPChannel) :
    Java.exec (generateUdpgwPacket random (some packet)) ch =
      (.ok (frameOf h random ch).encode, (assigned random (flowOf packet) ch).2) := by
  have hsp : getIntValue packet.mTransmissionProtocol.getSourcePort =
      .ok (flowOf packet).localPort := getIntValue_eq (by rw [h.sourcePort]; omega)
  have hdp : getIntValue packet.mTransmissionProtocol.getDestPort =
      .ok (flowOf packet).remotePort := getIntValue_eq (by rw [h.destPort]; omega)
  have hfit := h.fits
  have ha := h.dest
  have hpt := h.destPort
  set f := frameOf h random ch with hf
  have hlayout : ByteBuffer.layout (data.length + 3 + packet.mIPV4Header.mDestAddress.length +
      packet.mTransmissionProtocol.getDestPort.length)
      [some [(assigned random (flowOf packet) ch).1.1],
        some [BitVec.ofNat 8 (assigned random (flowOf packet) ch).1.2], some [0],
        some packet.mIPV4Header.mDestAddress, some packet.mTransmissionProtocol.getDestPort, some data] =
          .ok f.payload := by
    have hfull : ([[f.flag], [f.id], [0], packet.mIPV4Header.mDestAddress,
        packet.mTransmissionProtocol.getDestPort, data] : List Bytes).flatten.length = data.length + 3 +
          packet.mIPV4Header.mDestAddress.length + packet.mTransmissionProtocol.getDestPort.length := by
      simp only [List.flatten_cons, List.flatten_nil, List.length_append, List.length_cons, List.length_nil]
      omega
    have := ByteBuffer.layout_full hfull (by omega)
    simpa [Frame.payload, hf, frameOf] using this
  have hclient : (⟨0, (flowOf packet).localPort, packet.mIPV4Header.mSourceAddress,
      (flowOf packet).remotePort, packet.mIPV4Header.mDestAddress⟩ : UDPClient) = flowOf packet := rfl
  have hlen : getDataLength f.payload =
      [BitVec.ofNat 8 (f.length % 256), BitVec.ofNat 8 (f.length / 256)] := by
    rw [getDataLength, f.payload_length]
  simp only [generateUdpgwPacket, Java.exec_bind, Java.exec_lift, hsp, hdp, hclient, assignId_exec, h.payload,
    deref_some]
  rw [hlayout]
  simp only [Java.exec_pure, hlen]
  rfl

/-- Reading `written` gives its flag and id bytes, and the given endpoint and data. -/
def Recovers (written addr port data : Bytes) : Prop :=
  ∃ fields, readFields written = .ok fields ∧ fields.flags = (written.drop 2).take 3 ∧
    fields.destAddr = addr ∧ fields.destPort = port ∧ udpData fields.payload = .ok data

theorem recovers_encode_iff (f : Frame) :
    Recovers f.encode f.addr f.port f.data ↔ f.length % 256 < 128 ∧ f.length < 32768 := by
  rw [← f.signedLength_exact_iff]
  unfold Recovers
  rw [readFields_encode]
  constructor
  · rintro ⟨fields, hr, -, -, -, hd⟩
    by_cases h : f.Readable
    · rw [if_pos h] at hr
      obtain rfl := Except.ok.inj hr
      obtain ⟨h9, hle⟩ := h.signedLength
      -- the data are complete only if their length was read right
      have hlen := congrArg List.length (Except.ok.inj ((udpData_readPayload h).symm.trans hd))
      rw [List.length_take] at hlen
      unfold Frame.length at hle ⊢
      push_cast at hle ⊢
      omega
    · rw [if_neg h] at hr; cases hr
  · intro hexact
    have h : f.Readable := f.signedLength_nonneg_iff.1 (by rw [hexact]; omega)
    rw [if_pos h]
    refine ⟨_, rfl, rfl, rfl, rfl, ?_⟩
    rw [udpData_readPayload h, hexact, List.take_of_length_le]
    unfold Frame.length
    omega

/-- **Which datagrams the udpgw codec carries.** Reading back the frame that was written for
a datagram gives its destination and its payload iff neither byte of the length is negative. -/
theorem udpgw_recovers_iff (h : Outgoing packet data) (random : Fin SHORT_MAX_VALUE) (ch : UDPChannel) :
    (∃ written ch', Java.exec (generateUdpgwPacket random (some packet)) ch = (.ok written, ch') ∧
      Recovers written packet.mIPV4Header.mDestAddress packet.mTransmissionProtocol.getDestPort data) ↔
        (data.length + 9) % 256 < 128 ∧ data.length + 9 < 32768 := by
  have hiff := recovers_encode_iff (frameOf h random ch)
  rw [generateUdpgwPacket_exec h]
  constructor
  · rintro ⟨written, ch', heq, hr⟩
    obtain ⟨h1, -⟩ := Prod.mk.inj heq
    obtain rfl := Except.ok.inj h1
    exact hiff.1 hr
  · intro hl
    exact ⟨_, _, rfl, hiff.2 hl⟩

/-- A DNS query as it is read from the tun device. -/
def dnsQuery (data : Bytes) : PacketV4 where
  mIPV4Header := { mSourceAddress := [10, 0, 0, 2], mDestAddress := [8, 8, 8, 8], mProtocol := 17 }
  mTransmissionProtocol := .udp { mSourcePort := [200, 1], mDestPort := [0, 53] }
  data := some data

theorem dnsQuery_outgoing {data : Bytes} (h : data.length + 9 ≤ 65535) : Outgoing (dnsQuery data) data :=
  ⟨rfl, rfl, rfl, rfl, rfl, h⟩

theorem dnsQuery_recovers : ∃ written ch',
    Java.exec (generateUdpgwPacket 7 (some (dnsQuery [1, 2, 3]))) {} = (.ok written, ch') ∧
      Recovers written [8, 8, 8, 8] [0, 53] [1, 2, 3] :=
  (udpgw_recovers_iff (dnsQuery_outgoing (by decide)) 7 {}).2 (by decide)

/-- A payload of 119 bytes makes a length of 128, which is read as a negative number. -/
theorem longQuery_not_recovered :
    let data : Bytes := List.replicate 119 7
    Outgoing (dnsQuery data) data ∧
      ¬ ∃ written ch', Java.exec (generateUdpgwPacket 7 (some (dnsQuery data))) {} = (.ok written, ch') ∧
        Recovers written [8, 8, 8, 8] [0, 53] data := by
  intro data
  have h : Outgoing (dnsQuery data) data := dnsQuery_outgoing (by decide)
  refine ⟨h, ?_⟩
  rintro ⟨written, ch', heq, hr⟩
  rw [generateUdpgwPacket_exec h] at heq
  obtain ⟨h1, -⟩ := Prod.mk.inj heq
  obtain rfl := Except.ok.inj h1
  have hl : (data.length + 9) % 256 < 128 := ((recovers_encode_iff _).1 hr).1
  exact absurd hl (by decide)

end UDPChannel

end SmartTunnel
