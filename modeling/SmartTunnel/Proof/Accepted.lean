import SmartTunnel.Model.TCPController
import SmartTunnel.Proof.HeaderCodec

/-!
# What is in an accepted packet

`Arrays.copyOfRange` pads with zeros, and of the array length, the total length and the two header
lengths the parser compares only some. `Accepted`: the datagrams for which `getPacket` returns a
packet. `Accurate`: the packet holds the bytes of the datagram, and nothing else.

* `getPacket_some_iff`: **what `getPacket` returns.**
* `ofPacket_getPacket`: the segment that the packet processor reads of a packet.
* `accepted_accurate_iff`: the datagrams of which no packet with other bytes is made.
-/

namespace SmartTunnel

open Jvm BigEndian ByteUtil

variable {p s : Bytes}

/-! ## The transport header of any segment -/

/-- The length of the header that is read. -/
theorem fromTCPHeader_getHeaderLength {t : TCP} (h : Fueled.Ends (fun n => TCP.fromTCPHeader n s) (.ok t)) :
    t.getHeaderLength = .ok (if HasOptions s then tcpHeaderLength s else 20) := by
  obtain ⟨-, ⟨hopt, op, ⟨n, hop⟩, rfl⟩ | ⟨hopt, rfl⟩⟩ := fromTCPHeader_some_iff.1 h
  · have hbytes : TCP.optionBytes { parsedTCP s with mTCPOption := some op } = .ok (paddedArea s) := by
      simp [TCP.optionBytes, TCPOption.getBytes, TCPOption.fromByte_options hop]
    have hlen := hopt.2
    unfold TCP.getHeaderLength
    rw [hbytes, if_pos hopt]
    simp only [bind, Except.bind, pure, Except.pure, paddedArea, List.takeD_length, Except.ok.injEq]
    omega
  · rw [if_neg hopt]
    rfl

theorem fromHeaderBytes_returns_iff : (∃ u, UDP.fromHeaderBytes s = .ok u) ↔ 6 ≤ s.length := by
  constructor
  · rintro ⟨u, hu⟩
    by_contra h6
    have hcopy : copyOfRange s 6 8 = .error .arrayIndexOutOfBounds := by
      unfold copyOfRange
      rw [if_neg (by decide), if_pos (.inr (by omega))]
    unfold UDP.fromHeaderBytes at hu
    simp only [bind_ok_iff, hcopy, reduceCtorEq, false_and, exists_false, and_false] at hu
  · intro h6
    have h0 := copyOfRange_pairAt (p := s) (i := 0) (by omega)
    have h2 := copyOfRange_pairAt (p := s) (i := 2) (by omega)
    have h4 := copyOfRange_pairAt (p := s) (i := 4) (by omega)
    have hsum := copyOfRange_pairAt (p := s) (i := 6) h6
    have hall := copyOfRange_pad (a := s) (i := 0) (j := 8) (by omega) (by omega)
    push_cast at h0 h2 h4 hsum hall
    unfold UDP.fromHeaderBytes
    simp only [bind_ok_iff, h0, h2, h4, hsum, hall, Except.ok.injEq, exists_eq_left']
    exact ⟨_, rfl⟩

/-! ## The packet -/

/-- The header length that the parser works with. -/
def headerLengthRead (p : Bytes) : ℕ := max 20 (ipHeaderLength p)

/-- The length of the transport header that the parser works with. -/
def transportLengthRead (p : Bytes) : ℕ :=
  if byteAt p 9 = TCP.PROTOCOL_NUMBER then
    if HasOptions (transmissionLayerData p) then tcpHeaderLength (transmissionLayerData p) else 20
  else 8

/-- **What `protocolOf` returns.** -/
theorem protocolOf_some_iff {protocol : Byte} {t : TransmissionProtocol} :
    Fueled.Ends (fun n => PacketManager.protocolOf n protocol s) (.ok (some t)) ↔
      (protocol = TCP.PROTOCOL_NUMBER ∧ ∃ tcp, Fueled.Ends (fun n => TCP.fromTCPHeader n s) (.ok tcp) ∧ t = .tcp tcp) ∨
        (protocol = UDP.PROTOCOL_NUMBER ∧ ∃ udp, UDP.fromHeaderBytes s = .ok udp ∧ t = .udp udp) := by
  by_cases htcp : protocol = TCP.PROTOCOL_NUMBER
  · subst htcp
    have hudp : ¬ TCP.PROTOCOL_NUMBER = UDP.PROTOCOL_NUMBER := by decide
    refine Fueled.ends_bind_iff.trans ?_
    simp [hudp, eq_comm]
  · by_cases hudp : protocol = UDP.PROTOCOL_NUMBER
    · subst hudp
      refine Fueled.ends_lift_bind_iff.trans ?_
      simp only [htcp, false_and, true_and, false_or]
      apply exists_congr
      intro udp
      rw [Fueled.ends_const_iff]
      simp [eq_comm]
    · have hall : (fun n => PacketManager.protocolOf n protocol s) = fun _ => pure none := by
        funext n
        unfold PacketManager.protocolOf
        rw [if_neg htcp, if_neg hudp]
      rw [hall, Fueled.ends_const_iff]
      simp [htcp, hudp]

theorem protocolOf_getHeaderLength {t : TransmissionProtocol}
    (h : Fueled.Ends (fun n => PacketManager.protocolOf n (byteAt p 9) (transmissionLayerData p)) (.ok (some t))) :
    t.getHeaderLength = .ok (transportLengthRead p) := by
  unfold transportLengthRead
  rcases protocolOf_some_iff.1 h with ⟨htcp, tcp, hends, rfl⟩ | ⟨hudp, udp, -, rfl⟩
  · rw [if_pos htcp]
    exact fromTCPHeader_getHeaderLength hends
  · rw [if_neg (by rw [hudp]; decide)]
    rfl

/-- The payload that is copied for a total length, up to which the array is padded. -/
def payloadRead (p : Bytes) : Except JavaException (Option Bytes) :=
  if headerLengthRead p + transportLengthRead p < p.length then
    some <$> copyOfRange p (headerLengthRead p + transportLengthRead p : ℕ) (wordAt p 2)
  else .ok none

theorem totalLength_toInt (p : Bytes) : (BitVec.ofNat 32 (wordAt p 2)).toInt = wordAt p 2 := by
  have hlt := wordAt_lt p 2
  have hn : (BitVec.ofNat 32 (wordAt p 2)).toNat = wordAt p 2 := by
    rw [BitVec.toNat_ofNat]
    exact Nat.mod_eq_of_lt (by omega)
  rw [BitVec.toInt_eq_toNat_of_lt (by omega), hn]

/-- The payload is copied behind the transport header `t`. -/
theorem run_payload (p : Bytes) (t : TransmissionProtocol) :
    ExceptT.run (if headerLengthRead p + transportLengthRead p < p.length then do
        let totalLength ← Fueled.lift (deref (paddedHeader p).mTotalLength)
        let totalLength ← Fueled.lift (getIntValue totalLength)
        let data ← Fueled.lift (copyOfRange p (headerLengthRead p + transportLengthRead p : ℕ) totalLength.toInt)
        return ⟨paddedHeader p, t, some data⟩
      else return ⟨paddedHeader p, t, none⟩ : Fueled PacketV4) =
        some ((payloadRead p).map fun data => ⟨paddedHeader p, t, data⟩) := by
  have htotal : getIntValue (pairAt p 2) = .ok (BitVec.ofNat 32 (wordAt p 2)) := getIntValue_two _ _
  have hfield : (paddedHeader p).mTotalLength = some (pairAt p 2) := rfl
  unfold payloadRead
  by_cases hlt : headerLengthRead p + transportLengthRead p < p.length
  · rw [if_pos hlt, if_pos hlt]
    simp only [Fueled.run_bind, Fueled.run_lift, hfield, deref_some, htotal, totalLength_toInt]
    rcases copyOfRange p (headerLengthRead p + transportLengthRead p : ℕ) (wordAt p 2) with e | d <;> rfl
  · rw [if_neg hlt, if_neg hlt]
    rfl

/-- **What `newPacketV4` returns** for the header that was read. -/
theorem newPacketV4_some_iff {pk : PacketV4} (hsize : p.length ≤ MAX_SIZE) (hin : headerLengthRead p ≤ p.length) :
    Fueled.Ends (fun n => PacketManager.newPacketV4 n p (paddedHeader p)) (.ok pk) ↔
      ∃ t data, Fueled.Ends (fun n => PacketManager.protocolOf n (byteAt p 9) (transmissionLayerData p)) (.ok (some t)) ∧
        payloadRead p = .ok data ∧ pk = ⟨paddedHeader p, t, data⟩ := by
  have hlen : (paddedHeader p).getHeaderLength = headerLengthRead p := paddedHeader_getHeaderLength p
  have hseg : copyOfRange p (headerLengthRead p) p.length = .ok (transmissionLayerData p) := by
    rw [copyOfRange_slice hin le_rfl, List.take_of_length_le (by simp)]
    rfl
  unfold PacketManager.newPacketV4
  simp only [if_neg (not_lt.2 hsize), hlen, hseg]
  refine Fueled.ends_lift_bind_iff.trans ?_
  simp only [Except.ok.injEq, exists_eq_left']
  refine Fueled.ends_bind_iff.trans ?_
  -- behind the transport header no fuel is needed
  constructor
  · rintro ⟨_ | t, hends, hrun⟩
    · cases hrun
    · simp only [deref_some, protocolOf_getHeaderLength hends, Fueled.run_bind, Fueled.run_lift] at hrun
      rw [run_payload] at hrun
      cases hdata : payloadRead p with
      | error e =>
        rw [hdata] at hrun
        cases hrun
      | ok data =>
        rw [hdata] at hrun
        cases hrun
        exact ⟨t, data, hends, rfl, rfl⟩
  · rintro ⟨t, data, hends, hdata, rfl⟩
    refine ⟨some t, hends, ?_⟩
    simp only [deref_some, protocolOf_getHeaderLength hends, Fueled.run_bind, Fueled.run_lift]
    rw [run_payload, hdata]
    rfl

/-! ## Acceptance -/

/-- The transport header can be read. -/
def TransportReads (p : Bytes) : Prop :=
  (byteAt p 9 = TCP.PROTOCOL_NUMBER ∧ 18 ≤ (transmissionLayerData p).length ∧
    (HasOptions (transmissionLayerData p) → TCPOption.WalkReturns (paddedArea (transmissionLayerData p)))) ∨
  (byteAt p 9 = UDP.PROTOCOL_NUMBER ∧ 6 ≤ (transmissionLayerData p).length)

/-- **The datagrams of which a packet is made.** -/
structure Accepted (p : Bytes) : Prop where
  version : (byteAt p 0).toNat / 16 = 4
  size : p.length ≤ MAX_SIZE
  header : headerLengthRead p ≤ p.length
  transport : TransportReads p
  payload : headerLengthRead p + transportLengthRead p < p.length →
    headerLengthRead p + transportLengthRead p ≤ wordAt p 2

theorem transportReads_iff : TransportReads p ↔
    ∃ t, Fueled.Ends (fun n => PacketManager.protocolOf n (byteAt p 9) (transmissionLayerData p)) (.ok (some t)) := by
  unfold TransportReads
  simp only [protocolOf_some_iff, fromTCPHeader_some_iff, ← fromHeaderBytes_returns_iff, ← TCPOption.fromByte_returns_iff]
  constructor
  · rintro (⟨htcp, h18, hwalk⟩ | ⟨hudp, u, hu⟩)
    · by_cases hopt : HasOptions (transmissionLayerData p)
      · obtain ⟨op, hop⟩ := hwalk hopt
        exact ⟨_, .inl ⟨htcp, _, ⟨h18, .inl ⟨hopt, op, hop, rfl⟩⟩, rfl⟩⟩
      · exact ⟨_, .inl ⟨htcp, _, ⟨h18, .inr ⟨hopt, rfl⟩⟩, rfl⟩⟩
    · exact ⟨_, .inr ⟨hudp, u, hu, rfl⟩⟩
  · rintro ⟨t, ⟨htcp, tcp, ⟨h18, hcase⟩, -⟩ | ⟨hudp, u, hu, -⟩⟩
    · refine .inl ⟨htcp, h18, fun hopt => ?_⟩
      rcases hcase with ⟨-, op, hop, -⟩ | ⟨hnot, -⟩
      · exact ⟨op, hop⟩
      · exact absurd hopt hnot
    · exact .inr ⟨hudp, u, hu⟩

theorem payloadRead_returns_iff : (∃ data, payloadRead p = .ok data) ↔
    (headerLengthRead p + transportLengthRead p < p.length →
      headerLengthRead p + transportLengthRead p ≤ wordAt p 2) := by
  unfold payloadRead
  by_cases hlt : headerLengthRead p + transportLengthRead p < p.length
  · rw [if_pos hlt]
    simp only [hlt, true_imp_iff]
    by_cases hle : headerLengthRead p + transportLengthRead p ≤ wordAt p 2
    · rw [copyOfRange_pad hle hlt.le]
      exact iff_of_true ⟨_, rfl⟩ hle
    · have hcopy : copyOfRange p (headerLengthRead p + transportLengthRead p : ℕ) (wordAt p 2) = .error .illegalArgument :=
        if_pos (by omega)
      rw [hcopy]
      refine iff_of_false ?_ hle
      rintro ⟨data, hdata⟩
      cases hdata
  · rw [if_neg hlt]
    exact iff_of_true ⟨_, rfl⟩ fun h => absurd h hlt

theorem orNull_some_iff {α : Type} {x : ℕ → Fueled α} {a : α} :
    Fueled.Ends (fun n => PacketManager.orNull (x n)) (.ok (some a)) ↔ Fueled.Ends x (.ok a) := by
  unfold Fueled.Ends PacketManager.orNull
  apply exists_congr
  intro n
  rcases hx : ExceptT.run (x n) with _ | (e | b) <;> simp [hx]

/-- A packet that is made lies in its bounds. -/
theorem newPacketV4_inside {header : IPV4Header} {pk : PacketV4}
    (h : Fueled.Ends (fun n => PacketManager.newPacketV4 n p header) (.ok pk)) :
    p.length ≤ MAX_SIZE ∧ header.getHeaderLength ≤ p.length := by
  unfold PacketManager.newPacketV4 at h
  by_cases hsize : MAX_SIZE < p.length
  · simp only [if_pos hsize] at h
    obtain ⟨n, hn⟩ := h
    cases hn
  · refine ⟨not_lt.1 hsize, ?_⟩
    simp only [if_neg hsize] at h
    obtain ⟨s, hs, -⟩ := Fueled.ends_lift_bind_iff.1 h
    by_contra hlt
    have hcopy : copyOfRange p header.getHeaderLength p.length = .error .illegalArgument := if_pos (by omega)
    rw [hcopy] at hs
    cases hs

theorem paddedHeader_inside (hin : headerLengthRead p ≤ p.length) : paddedHeader p = parsedHeader p := by
  unfold headerLengthRead at hin
  have hpadded := fromHeaderByte_padded (p := p) (by omega) (fun _ => by omega)
  rw [fromHeaderByte_eq (by omega) (by omega)] at hpadded
  exact (Except.ok.inj hpadded).symm

/-- **What `getPacket` returns.** -/
theorem getPacket_some_iff {pk : PacketV4} :
    Fueled.Ends (fun n => PacketManager.getPacket n p) (.ok (some pk)) ↔
      (byteAt p 0).toNat / 16 = 4 ∧ p.length ≤ MAX_SIZE ∧ headerLengthRead p ≤ p.length ∧
        ∃ t data, Fueled.Ends (fun n => PacketManager.protocolOf n (byteAt p 9) (transmissionLayerData p)) (.ok (some t)) ∧
          payloadRead p = .ok data ∧ pk = ⟨parsedHeader p, t, data⟩ := by
  constructor
  · intro h
    unfold PacketManager.getPacket at h
    obtain ⟨first, hfirst, h⟩ := Fueled.ends_lift_bind_iff.1 h
    have hpos : 0 < p.length := by
      by_contra hzero
      obtain ⟨e, he⟩ := TCPOption.aget_error (a := p) (k := 0) (.inr (by omega))
      rw [he] at hfirst
      cases hfirst
    have hb := aget_byteAt hpos
    push_cast at hb
    obtain rfl := Except.ok.inj (hb.symm.trans hfirst)
    by_cases hv : (byteAt p 0).toNat / 16 = 4
    · simp only [version_iff, if_pos hv] at h
      unfold PacketManager.generatePacketV4 at h
      obtain ⟨header, hheader, h⟩ := Fueled.ends_lift_bind_iff.1 h
      have hnew := orNull_some_iff.1 h
      obtain ⟨hsize, hin⟩ := newPacketV4_inside hnew
      by_cases hread : HeaderReads p
      · obtain rfl := Except.ok.inj ((fromHeaderByte_padded hread.address hread.options).symm.trans hheader)
        rw [paddedHeader_getHeaderLength] at hin
        obtain ⟨t, data, hends, hdata, rfl⟩ := (newPacketV4_some_iff hsize hin).1 hnew
        refine ⟨hv, hsize, hin, t, data, hends, hdata, ?_⟩
        rw [paddedHeader_inside hin]
      · obtain ⟨e, he⟩ := fromHeaderByte_raises hread
        rw [he] at hheader
        cases hheader
    · simp only [version_iff, if_neg hv] at h
      obtain ⟨n, hn⟩ := h
      cases hn
  · rintro ⟨hv, hsize, hin, t, data, hends, hdata, rfl⟩
    have hin' := hin
    unfold headerLengthRead at hin'
    have hb := aget_byteAt (p := p) (i := 0) (by omega)
    push_cast at hb
    unfold PacketManager.getPacket
    refine Fueled.ends_lift_bind_iff.2 ⟨_, hb, ?_⟩
    simp only [version_iff, if_pos hv]
    unfold PacketManager.generatePacketV4
    refine Fueled.ends_lift_bind_iff.2 ⟨_, fromHeaderByte_eq (by omega) (by omega), ?_⟩
    rw [orNull_some_iff, ← paddedHeader_inside hin]
    exact (newPacketV4_some_iff hsize hin).2 ⟨t, data, hends, hdata, rfl⟩

/-- **Which datagrams are accepted.** -/
theorem accepted_iff : (∃ pk, Fueled.Ends (fun n => PacketManager.getPacket n p) (.ok (some pk))) ↔ Accepted p := by
  simp only [getPacket_some_iff]
  constructor
  · rintro ⟨pk, hv, hsize, hin, t, data, hends, hdata, -⟩
    exact ⟨hv, hsize, hin, transportReads_iff.2 ⟨t, hends⟩, payloadRead_returns_iff.1 ⟨data, hdata⟩⟩
  · rintro ⟨hv, hsize, hin, htransport, hpayload⟩
    obtain ⟨t, hends⟩ := transportReads_iff.1 htransport
    obtain ⟨data, hdata⟩ := payloadRead_returns_iff.2 hpayload
    exact ⟨_, hv, hsize, hin, t, data, hends, hdata, rfl⟩

/-! ## The segment of a packet -/

theorem fromTCPHeader_fixed {t : TCP} (h : Fueled.Ends (fun n => TCP.fromTCPHeader n s) (.ok t)) :
    { t with mTCPOption := none } = parsedTCP s := by
  obtain ⟨-, ⟨-, op, -, rfl⟩ | ⟨-, rfl⟩⟩ := fromTCPHeader_some_iff.1 h <;> rfl

/-- **An accepted packet is a segment for the packet processor exactly if it is TCP**, and then the numbers, the window
and the flags are those at their places behind the IP header. -/
theorem ofPacket_getPacket {pk : PacketV4} (h : Fueled.Ends (fun n => PacketManager.getPacket n p) (.ok (some pk))) :
    (byteAt p 9 = TCP.PROTOCOL_NUMBER → ∃ tcp, pk.mTransmissionProtocol = .tcp tcp ∧ Segment.ofPacket pk = some {
        sequenceNumber := BitVec.ofNat 32 (beNat (quadAt (transmissionLayerData p) 4))
        acknowledgmentNumber := BitVec.ofNat 32 (beNat (quadAt (transmissionLayerData p) 8))
        windowSize := BitVec.ofNat 32 (wordAt (transmissionLayerData p) 14)
        flag := TCPFlag.fromByte (byteAt (transmissionLayerData p) 13)
        option := tcp.mTCPOption
        data := pk.data }) ∧
      (byteAt p 9 ≠ TCP.PROTOCOL_NUMBER → Segment.ofPacket pk = none) := by
  obtain ⟨-, -, -, t, data, hends, -, rfl⟩ := getPacket_some_iff.1 h
  rcases protocolOf_some_iff.1 hends with ⟨htcp, tcp, htends, rfl⟩ | ⟨hudp, udp, -, rfl⟩
  · refine ⟨fun _ => ⟨tcp, rfl, ?_⟩, fun hne => absurd htcp hne⟩
    have hfixed := fromTCPHeader_fixed htends
    have hflag : tcp.mFlag = some (TCPFlag.fromByte (byteAt (transmissionLayerData p) 13)) := congrArg TCP.mFlag hfixed
    have hseq : tcp.mSequenceNumber = some (quadAt (transmissionLayerData p) 4) := congrArg TCP.mSequenceNumber hfixed
    have hack : tcp.mAcknowledgmentNumber = some (quadAt (transmissionLayerData p) 8) := congrArg TCP.mAcknowledgmentNumber hfixed
    have hwindow : tcp.mWindowSize = some (pairAt (transmissionLayerData p) 14) := congrArg TCP.mWindowSize hfixed
    have hfour : ∀ i, getIntValue (quadAt (transmissionLayerData p) i) =
        .ok (BitVec.ofNat 32 (beNat (quadAt (transmissionLayerData p) i))) := fun i => getIntValue_eq (by simp)
    have htwo : getIntValue (pairAt (transmissionLayerData p) 14) = .ok (BitVec.ofNat 32 (wordAt (transmissionLayerData p) 14)) :=
      getIntValue_two _ _
    simp only [Segment.ofPacket, TCP.getSequenceNumberIntValue, TCP.getAcknowledgmentNumberIntValue, TCP.getWindowSize, hflag,
      hseq, hack, hwindow, deref_some, bind, Except.bind, Option.bind, hfour, htwo, Except.toOption, pure]
  · exact ⟨fun htcp => absurd (hudp.symm.trans htcp) (by decide), fun _ => rfl⟩

/-! ## Accuracy -/

/-- The fields of the header are the bytes at their places. -/
structure HeaderOf (p : Bytes) (h : IPV4Header) : Prop where
  typeOfService : h.mTypeOfService = byteAt p 1
  totalLength : h.mTotalLength = some (pairAt p 2)
  identification : h.mIdentification = some (pairAt p 4)
  flag : h.mFlag.toNat = (byteAt p 6).toNat / 32
  fragmentOffset : h.mFragmentOffset.toNat = wordAt p 6 % 8192
  timeToLive : h.mTimeToLive = byteAt p 8
  protocol : h.mProtocol = byteAt p 9
  checksum : h.mHeaderChecksum = some (pairAt p 10)
  source : h.mSourceAddress = quadAt p 12
  dest : h.mDestAddress = quadAt p 16
  options : h.mOptions.getD [] = (p.take (ipHeaderLength p)).drop 20

/-- The TCP header lies in the segment and its fields are the bytes at their places. -/
structure TCPHeaderOf (s : Bytes) (t : TCP) : Prop where
  dataOffset : 20 ≤ tcpHeaderLength s
  inside : tcpHeaderLength s ≤ s.length
  source : t.mSourcePort = pairAt s 0
  dest : t.mDestPort = pairAt s 2
  seq : t.mSequenceNumber = some (quadAt s 4)
  ack : t.mAcknowledgmentNumber = some (quadAt s 8)
  offset : t.dataOffset.toNat = (byteAt s 12).toNat / 16
  flag : ∃ f : TCPFlag, t.mFlag = some f ∧ f.IsBits ∧ f.getByte = byteAt s 13
  window : t.mWindowSize = some (pairAt s 14)
  checksum : t.mChecksum = some (pairAt s 16)
  urgent : t.mUrgentPointer = some (pairAt s 18)
  options : t.optionBytes = .ok (optionArea s)

/-- The UDP header lies in the segment and its fields are the bytes at their places. -/
structure UDPHeaderOf (s : Bytes) (u : UDP) : Prop where
  inside : 8 ≤ s.length
  source : u.mSourcePort = pairAt s 0
  dest : u.mDestPort = pairAt s 2
  length : u.mDatagramLength = some (pairAt s 4)
  checksum : u.mChecksum = some (pairAt s 6)

/-- The transport header of the segment `s` has `k` bytes and the fields of `t`. -/
def TransportOf (s : Bytes) (k : ℕ) : TransmissionProtocol → Prop
  | .tcp t => k = tcpHeaderLength s ∧ TCPHeaderOf s t
  | .udp u => k = 8 ∧ UDPHeaderOf s u

/-- **The packet is what is in the datagram.** All lengths lie in the datagram, the fields of the headers are
its bytes, and the payload is what stands between the headers and the total length. -/
structure Accurate (p : Bytes) (pk : PacketV4) : Prop where
  ihl : 5 ≤ (byteAt p 0).toNat % 16
  inside : ipHeaderLength p ≤ p.length
  total : wordAt p 2 ≤ p.length
  header : HeaderOf p pk.mIPV4Header
  transport : ∃ k, TransportOf (segment p) k pk.mTransmissionProtocol ∧
    pk.data.getD [] = (p.take (wordAt p 2)).drop (ipHeaderLength p + k)

/-- The lengths in the datagram agree with each other and with its own length, and the reserved flag is
clear. -/
structure Consistent (p : Bytes) : Prop where
  ihl : 5 ≤ (byteAt p 0).toNat % 16
  total : wordAt p 2 ≤ p.length
  reserved : (byteAt p 6).toNat < 128
  tcp : byteAt p 9 = TCP.PROTOCOL_NUMBER →
    20 ≤ tcpHeaderLength (segment p) ∧ tcpHeaderLength (segment p) ≤ (segment p).length
  udp : byteAt p 9 = UDP.PROTOCOL_NUMBER → 8 ≤ (segment p).length

theorem isBits_fromByte : ∀ b : Byte, (TCPFlag.fromByte b).IsBits ∧ (TCPFlag.fromByte b).getByte = b := by
  have hbits : ∀ b : Byte, ((TCPFlag.fromByte b).CWR = 0 ∨ (TCPFlag.fromByte b).CWR = 1) ∧
      ((TCPFlag.fromByte b).ECE = 0 ∨ (TCPFlag.fromByte b).ECE = 1) ∧
      ((TCPFlag.fromByte b).URG = 0 ∨ (TCPFlag.fromByte b).URG = 1) ∧
      ((TCPFlag.fromByte b).ACK = 0 ∨ (TCPFlag.fromByte b).ACK = 1) ∧
      ((TCPFlag.fromByte b).PSH = 0 ∨ (TCPFlag.fromByte b).PSH = 1) ∧
      ((TCPFlag.fromByte b).RST = 0 ∨ (TCPFlag.fromByte b).RST = 1) ∧
      ((TCPFlag.fromByte b).SYN = 0 ∨ (TCPFlag.fromByte b).SYN = 1) ∧
      ((TCPFlag.fromByte b).FIN = 0 ∨ (TCPFlag.fromByte b).FIN = 1) ∧ (TCPFlag.fromByte b).getByte = b := by
    decide +kernel
  intro b
  obtain ⟨cwr, ece, urg, ack, psh, rst, syn, fin, hbyte⟩ := hbits b
  exact ⟨⟨cwr, ece, urg, ack, psh, rst, syn, fin⟩, hbyte⟩

theorem dataOffset_toNat : ∀ b : Byte,
    ((((b.setWidth 32 : BitVec 32).sshiftRight 4).setWidth 8 : Byte).toNat) = b.toNat / 16 := by
  decide +kernel

/-- A header of enough words is read right iff the reserved flag is clear. -/
theorem headerOf_parsed_iff (hihl : 20 ≤ ipHeaderLength p) :
    HeaderOf p (parsedHeader p) ↔ (byteAt p 6).toNat < 128 := by
  have hsplit : (parsedHeader p).mFlag.toNat =
      if (byteAt p 6).toNat < 128 then (byteAt p 6).toNat / 32 else (byteAt p 6).toNat / 32 + 248 :=
    IPV4Header.flag_split _
  constructor
  · intro h
    by_contra hlarge
    have hflag := h.flag
    rw [hsplit, if_neg hlarge] at hflag
    omega
  · intro hres
    refine ⟨rfl, rfl, rfl, ?_, ?_, rfl, rfl, rfl, rfl, rfl, parsedHeader_options hihl⟩
    · rw [hsplit, if_pos hres]
    · change ((BitVec.ofNat 32 (wordAt p 6) &&& 0x1FFF : BitVec 32).setWidth 16).toNat = _
      rw [BitVec.toNat_setWidth, low_bits (wordAt_lt p 6)]
      omega

/-- A TCP header that lies in the segment is read right. -/
theorem tcpHeaderOf_parsed {t : TCP} (h20 : 20 ≤ tcpHeaderLength s) (hin : tcpHeaderLength s ≤ s.length)
    (h : Fueled.Ends (fun n => TCP.fromTCPHeader n s) (.ok t)) : TCPHeaderOf s t := by
  obtain ⟨n, hn⟩ := h
  obtain ⟨hfixed, hopts⟩ := fromTCPHeader_parsed h20 hin hn
  exact {
    dataOffset := h20
    inside := hin
    source := congrArg TCP.mSourcePort hfixed
    dest := congrArg TCP.mDestPort hfixed
    seq := congrArg TCP.mSequenceNumber hfixed
    ack := congrArg TCP.mAcknowledgmentNumber hfixed
    offset := (congrArg (fun t : TCP => t.dataOffset.toNat) hfixed).trans (dataOffset_toNat _)
    flag := ⟨_, congrArg TCP.mFlag hfixed, isBits_fromByte _⟩
    window := congrArg TCP.mWindowSize hfixed
    checksum := congrArg TCP.mChecksum hfixed
    urgent := congrArg TCP.mUrgentPointer hfixed
    options := hopts }

/-- What is copied of a datagram in which all lengths lie. -/
theorem payloadRead_inside {data : Option Bytes} (htotal : wordAt p 2 ≤ p.length) (hdata : payloadRead p = .ok data) :
    data.getD [] = (p.take (wordAt p 2)).drop (headerLengthRead p + transportLengthRead p) := by
  unfold payloadRead at hdata
  by_cases hlt : headerLengthRead p + transportLengthRead p < p.length
  · have hle := payloadRead_returns_iff.1 ⟨data, by unfold payloadRead; exact hdata⟩ hlt
    rw [if_pos hlt, copyOfRange_slice hle htotal] at hdata
    obtain rfl := Except.ok.inj hdata
    rw [List.drop_take]
    rfl
  · rw [if_neg hlt] at hdata
    obtain rfl := Except.ok.inj hdata
    rw [List.drop_eq_nil_of_le]
    · rfl
    · rw [List.length_take]
      omega

/-- **Of a consistent datagram an accurate packet is made.** -/
theorem Consistent.accurate {pk : PacketV4} (hc : Consistent p)
    (h : Fueled.Ends (fun n => PacketManager.getPacket n p) (.ok (some pk))) : Accurate p pk := by
  obtain ⟨-, -, hin, t, data, hends, hdata, rfl⟩ := getPacket_some_iff.1 h
  have hihl : 20 ≤ ipHeaderLength p := by
    have := hc.ihl
    unfold ipHeaderLength
    omega
  have hlen : headerLengthRead p = ipHeaderLength p := max_eq_right hihl
  have hseg : transmissionLayerData p = segment p := congrArg p.drop hlen
  have hpayload := payloadRead_inside hc.total hdata
  rw [hlen] at hin hpayload
  rw [hseg] at hends
  refine ⟨hc.ihl, hin, hc.total, (headerOf_parsed_iff hihl).2 hc.reserved, ?_⟩
  refine ⟨transportLengthRead p, ?_, hpayload⟩
  unfold transportLengthRead
  rw [hseg]
  rcases protocolOf_some_iff.1 hends with ⟨htcp, tcp, htends, rfl⟩ | ⟨hudp, udp, hu, rfl⟩
  · obtain ⟨h20, htin⟩ := hc.tcp htcp
    refine ⟨?_, tcpHeaderOf_parsed h20 htin htends⟩
    rw [if_pos htcp]
    by_cases hopt : HasOptions (segment p)
    · rw [if_pos hopt]
    · rw [if_neg hopt]
      unfold HasOptions at hopt
      omega
  · have h8 := hc.udp hudp
    rw [fromHeaderBytes_eq h8] at hu
    obtain rfl := Except.ok.inj hu
    refine ⟨?_, h8, rfl, rfl, rfl, rfl⟩
    rw [if_neg (by rw [hudp]; decide)]

/-- **A datagram of which an accurate packet is made is consistent.** -/
theorem Accurate.consistent {pk : PacketV4} (ha : Accurate p pk)
    (h : Fueled.Ends (fun n => PacketManager.getPacket n p) (.ok (some pk))) : Consistent p := by
  obtain ⟨-, -, -, t, data, hends, -, rfl⟩ := getPacket_some_iff.1 h
  have hihl : 20 ≤ ipHeaderLength p := by
    have := ha.ihl
    unfold ipHeaderLength
    omega
  obtain ⟨k, htransport, -⟩ := ha.transport
  refine ⟨ha.ihl, ha.total, (headerOf_parsed_iff hihl).1 ha.header, fun htcp => ?_, fun hudp => ?_⟩
  · rcases protocolOf_some_iff.1 hends with ⟨-, tcp, -, rfl⟩ | ⟨hudp, -⟩
    · exact ⟨htransport.2.dataOffset, htransport.2.inside⟩
    · rw [htcp] at hudp
      exact absurd hudp (by decide)
  · rcases protocolOf_some_iff.1 hends with ⟨htcp, -⟩ | ⟨-, udp, -, rfl⟩
    · rw [hudp] at htcp
      exact absurd htcp (by decide)
    · exact htransport.2.inside

/-- **Of which datagrams only accurate packets are made**: those that are not accepted, and those whose
lengths agree. -/
theorem accepted_accurate_iff (p : Bytes) :
    (∀ pk, Fueled.Ends (fun n => PacketManager.getPacket n p) (.ok (some pk)) → Accurate p pk) ↔
      (Accepted p → Consistent p) := by
  constructor
  · intro h hacc
    obtain ⟨pk, hpk⟩ := accepted_iff.2 hacc
    exact (h pk hpk).consistent hpk
  · intro h pk hpk
    exact (h (accepted_iff.1 ⟨pk, hpk⟩)).accurate hpk

/-- A UDP datagram from 10.0.0.2 to 8.8.8.8 with one byte of payload, whose total length says four. -/
def shortDatagram : Bytes :=
  [0x45, 0, 0, 32, 0, 1, 0, 0, 64, 17, 0, 0, 10, 0, 0, 2, 8, 8, 8, 8, 0xC0, 1, 0, 53, 0, 12, 0, 0, 1]

/-- **Not every accepted packet is accurate**: of a datagram with one byte of payload a packet with four is
made. -/
theorem shortDatagram_invented : ¬ ∀ pk,
    Fueled.Ends (fun n => PacketManager.getPacket n shortDatagram) (.ok (some pk)) → Accurate shortDatagram pk := by
  intro h
  have hacc : Accepted shortDatagram :=
    ⟨by decide, by decide, by decide, .inr ⟨by decide, by decide⟩, by decide⟩
  obtain ⟨pk, hpk⟩ := accepted_iff.2 hacc
  exact absurd (h pk hpk).total (by decide)

end SmartTunnel
