import SmartTunnel.Model.PacketV4
import SmartTunnel.Proof.OptionWalk
import SmartTunnel.Proof.Serialise

/-!
# Parsing a well-formed datagram

A datagram is read through `byteAt` and `wordAt`. `WellFormed` is the IPv4 datagram of the
RFCs, with a TCP or a UDP segment; the parser keeps each of its fields:

* `fromHeaderByte_eq`: the IP header is `parsedHeader`.
* `fromTCPHeader_eq`: the TCP header is `parsedTCP` with what the option walk makes.
* `getPacket_ok_iff`, `run_newPacketV4`: the packet is the parsed headers and the payload, if
  the option walk ends.
-/

namespace SmartTunnel

open Jvm BigEndian ByteUtil

/-! ## Fields of a datagram -/

/-- The 16-bit field at `i`. -/
def wordAt (p : Bytes) (i : ℕ) : ℕ := (byteAt p i).toNat * 256 + (byteAt p (i + 1)).toNat

def pairAt (p : Bytes) (i : ℕ) : Bytes := [byteAt p i, byteAt p (i + 1)]

def quadAt (p : Bytes) (i : ℕ) : Bytes := [byteAt p i, byteAt p (i + 1), byteAt p (i + 2), byteAt p (i + 3)]

@[simp] theorem quadAt_length (p : Bytes) (i : ℕ) : (quadAt p i).length = 4 := rfl

def ipHeaderLength (p : Bytes) : ℕ := (byteAt p 0).toNat % 16 * 4

/-- The transport segment of a datagram. -/
def segment (p : Bytes) : Bytes := p.drop (ipHeaderLength p)

def tcpHeaderLength (s : Bytes) : ℕ := (byteAt s 12).toNat / 16 * 4

def optionArea (s : Bytes) : Bytes := (s.take (tcpHeaderLength s)).drop 20

/-- The ones' complement sum of the pseudo-header and the segment. -/
def transportSum (p : Bytes) : ℕ :=
  OnesComplement.sum (pseudoHeader (quadAt p 12) (quadAt p 16) (byteAt p 9) (segment p).length ++ segment p)

structure WellFormedIP (p : Bytes) : Prop where
  version : (byteAt p 0).toNat / 16 = 4
  ihl : 20 ≤ ipHeaderLength p
  inside : ipHeaderLength p ≤ p.length
  reserved : (byteAt p 6).toNat < 128
  total : wordAt p 2 = p.length
  size : p.length ≤ MAX_SIZE
  checksum : OnesComplement.sum (p.take (ipHeaderLength p)) = 0xFFFF
  checksum_ne_zero : wordAt p 10 ≠ 0

structure WellFormedTCP (p : Bytes) : Prop extends WellFormedIP p where
  protocol : byteAt p 9 = TCP.PROTOCOL_NUMBER
  dataOffset : 20 ≤ tcpHeaderLength (segment p)
  tcp_inside : tcpHeaderLength (segment p) ≤ (segment p).length
  tcp_reserved : (byteAt (segment p) 12).toNat % 16 = 0
  options : TCPOption.Options (fun _ => True) (optionArea (segment p))
  transport : transportSum p = 0xFFFF
  transport_ne_zero : wordAt (segment p) 16 ≠ 0

structure WellFormedUDP (p : Bytes) : Prop extends WellFormedIP p where
  protocol : byteAt p 9 = UDP.PROTOCOL_NUMBER
  udp_inside : 8 ≤ (segment p).length
  length : wordAt (segment p) 4 = (segment p).length
  transport : transportSum p = 0xFFFF
  transport_ne_zero : wordAt (segment p) 6 ≠ 0

/-- A well-formed IPv4 TCP or UDP datagram. -/
def WellFormed (p : Bytes) : Prop := WellFormedTCP p ∨ WellFormedUDP p

/-! ## Slices -/

section Slices

variable {p : Bytes} {i : ℕ}

theorem drop_eq_byteAt (h : i < p.length) : p.drop i = byteAt p i :: p.drop (i + 1) := by
  rw [List.drop_eq_getElem_cons h]
  simp [byteAt, List.getD_eq_getElem?_getD, h]

theorem drop_eq_pairAt (h : i + 2 ≤ p.length) : p.drop i = pairAt p i ++ p.drop (i + 2) := by
  rw [drop_eq_byteAt (by omega), drop_eq_byteAt (by omega)]
  rfl

theorem drop_eq_quadAt (h : i + 4 ≤ p.length) : p.drop i = quadAt p i ++ p.drop (i + 4) := by
  rw [drop_eq_pairAt (by omega), drop_eq_pairAt (by omega)]
  rfl

/-- Past the end a zero is read, as a copy is padded there. -/
theorem copyOfRange_pairAt (h : i ≤ p.length) :
    copyOfRange p i ((i + 2 : ℕ) : ℤ) = .ok (pairAt p i) := by
  rw [copyOfRange_pad (by omega) h, Nat.add_sub_cancel_left]
  simp [pairAt, byteAt]

theorem copyOfRange_quadAt (h : i ≤ p.length) :
    copyOfRange p i ((i + 4 : ℕ) : ℤ) = .ok (quadAt p i) := by
  rw [copyOfRange_pad (by omega) h, Nat.add_sub_cancel_left]
  simp [quadAt, byteAt]

theorem wordAt_lt (p : Bytes) (i : ℕ) : wordAt p i < 2 ^ 16 := by
  have h1 := (byteAt p i).isLt
  have h2 := (byteAt p (i + 1)).isLt
  unfold wordAt
  omega

theorem getByteFromInt_wordAt {v : BitVec 32} (h : v.toNat = wordAt p i) :
    getByteFromInt v 2 = pairAt p i := getByteFromInt_two h

end Slices

/-! ## The IP header -/

/-- The header that `fromHeaderByte` makes of a datagram. -/
def parsedHeader (p : Bytes) : IPV4Header where
  mSourceAddress := quadAt p 12
  mDestAddress := quadAt p 16
  mTypeOfService := byteAt p 1
  mTotalLength := some (pairAt p 2)
  mIdentification := some (pairAt p 4)
  mFlag := (((byteAt p 6).signExtend 32).sshiftRight 5).setWidth 8
  mFragmentOffset := (BitVec.ofNat 32 (wordAt p 6) &&& 0x1FFF).setWidth 16
  mTimeToLive := byteAt p 8
  mProtocol := byteAt p 9
  mHeaderChecksum := some (pairAt p 10)
  mOptions := if 20 < ipHeaderLength p then some ((p.take (ipHeaderLength p)).drop 20) else none

theorem low_nibble : ∀ b : Byte, (b.signExtend 32 &&& 0xF : BitVec 32).toNat = b.toNat % 16 := by
  decide +kernel

theorem high_nibble : ∀ b : Byte, b.toNat / 16 = 4 →
    (((b.signExtend 32).sshiftRight 4).setWidth 8 : Byte) = 4 := by decide +kernel

variable {p : Bytes}

/-- The header that `fromHeaderByte` makes of a datagram that may be too short for its options. -/
def paddedHeader (p : Bytes) : IPV4Header :=
  { parsedHeader p with
    mOptions := if 20 < ipHeaderLength p then some ((p.drop 20).takeD (ipHeaderLength p - 20) 0) else none }

/-- Only the options can still raise once the destination address starts in the datagram. -/
theorem fromHeaderByte_fields (h16 : 16 ≤ p.length) :
    IPV4Header.fromHeaderByte p = (do
      let options ←
        if 20 < ipHeaderLength p then some <$> copyOfRange p 20 (ipHeaderLength p) else .ok none
      return { parsedHeader p with mOptions := options }) := by
  have h12 := copyOfRange_quadAt (p := p) (i := 12) (by omega)
  have hdest := copyOfRange_quadAt (p := p) (i := 16) h16
  have h2 := copyOfRange_pairAt (p := p) (i := 2) (by omega)
  have h4 := copyOfRange_pairAt (p := p) (i := 4) (by omega)
  have h6 := copyOfRange_pairAt (p := p) (i := 6) (by omega)
  have h10 := copyOfRange_pairAt (p := p) (i := 10) (by omega)
  have b0 := aget_byteAt (p := p) (i := 0) (by omega)
  have b1 := aget_byteAt (p := p) (i := 1) (by omega)
  have b6 := aget_byteAt (p := p) (i := 6) (by omega)
  have b8 := aget_byteAt (p := p) (i := 8) (by omega)
  have b9 := aget_byteAt (p := p) (i := 9) (by omega)
  have hint : getIntValue (pairAt p 6) = .ok (BitVec.ofNat 32 (wordAt p 6)) := getIntValue_two _ _
  push_cast at h12 hdest h2 h4 h6 h10 b0 b1 b6 b8 b9
  simp only [IPV4Header.fromHeaderByte, h12, hdest, h2, h4, h6, h10, b0, b1, b6, b8, b9, hint, low_nibble,
    bind, Except.bind, pure, Except.pure, ← ipHeaderLength.eq_def]
  rfl

/-- **The header that is read.** The destination address and the options are padded. -/
theorem fromHeaderByte_padded (h16 : 16 ≤ p.length) (hopts : 20 < ipHeaderLength p → 20 ≤ p.length) :
    IPV4Header.fromHeaderByte p = .ok (paddedHeader p) := by
  rw [fromHeaderByte_fields h16]
  unfold paddedHeader
  by_cases hopt : 20 < ipHeaderLength p
  · have hslice := copyOfRange_pad (a := p) (i := 20) (j := ipHeaderLength p) (by omega) (hopts hopt)
    push_cast at hslice
    rw [if_pos hopt, if_pos hopt, hslice]
    rfl
  · rw [if_neg hopt, if_neg hopt]
    rfl

theorem fromHeaderByte_eq (h20 : 20 ≤ p.length) (hin : ipHeaderLength p ≤ p.length) :
    IPV4Header.fromHeaderByte p = .ok (parsedHeader p) := by
  rw [fromHeaderByte_padded (by omega) (fun _ => h20)]
  -- nothing is padded
  have hslice : (p.drop 20).takeD (ipHeaderLength p - 20) 0 = (p.take (ipHeaderLength p)).drop 20 := by
    rw [List.takeD_eq_take _ (by rw [List.length_drop]; omega), List.drop_take]
  simp only [paddedHeader, hslice]
  rfl

theorem parsedHeader_getHeaderLength (hihl : 20 ≤ ipHeaderLength p) (hin : ipHeaderLength p ≤ p.length) :
    (parsedHeader p).getHeaderLength = ipHeaderLength p := by
  unfold IPV4Header.getHeaderLength IPV4Header.optionLength parsedHeader
  by_cases hopt : 20 < ipHeaderLength p
  · simp only [hopt, if_true, Option.map_some, Option.getD_some, List.length_drop, List.length_take]
    omega
  · simp only [hopt, if_false, Option.map_none, Option.getD_none]
    omega

theorem parsedHeader_options (hihl : 20 ≤ ipHeaderLength p) :
    (parsedHeader p).mOptions.getD [] = (p.take (ipHeaderLength p)).drop 20 := by
  unfold parsedHeader
  by_cases hopt : 20 < ipHeaderLength p
  · simp [hopt]
  · simp only [hopt, if_false, Option.getD_none]
    rw [List.drop_eq_nil_of_le]
    rw [List.length_take]; omega

/-! ## The TCP header -/

/-- The fixed part of the header that `fromTCPHeader` makes of a segment. -/
def parsedTCP (s : Bytes) : TCP where
  mSourcePort := pairAt s 0
  mDestPort := pairAt s 2
  mSequenceNumber := some (quadAt s 4)
  mAcknowledgmentNumber := some (quadAt s 8)
  dataOffset := (((byteAt s 12).setWidth 32).sshiftRight 4).setWidth 8
  mFlag := some (TCPFlag.fromByte (byteAt s 13))
  mWindowSize := some (pairAt s 14)
  mChecksum := some (pairAt s 16)
  mUrgentPointer := some (pairAt s 18)

theorem dataOffset_toInt : ∀ b : Byte,
    ((((b.setWidth 32 : BitVec 32).sshiftRight 4).setWidth 8 : Byte).toInt) = (b.toNat / 16 : ℕ) := by
  decide +kernel

/-- The urgent pointer is padded where the segment ends before it. -/
theorem fixedPart_eq {s : Bytes} (h18 : 18 ≤ s.length) : TCP.fixedPart s = .ok (parsedTCP s) := by
  have h0 := copyOfRange_pairAt (p := s) (i := 0) (by omega)
  have h2 := copyOfRange_pairAt (p := s) (i := 2) (by omega)
  have h4 := copyOfRange_quadAt (p := s) (i := 4) (by omega)
  have h8 := copyOfRange_quadAt (p := s) (i := 8) (by omega)
  have h14 := copyOfRange_pairAt (p := s) (i := 14) (by omega)
  have h16 := copyOfRange_pairAt (p := s) (i := 16) (by omega)
  have h18 := copyOfRange_pairAt (p := s) (i := 18) (by omega)
  have b12 := aget_byteAt (p := s) (i := 12) (by omega)
  have b13 := aget_byteAt (p := s) (i := 13) (by omega)
  push_cast at h0 h2 h4 h8 h14 h16 h18 b12 b13
  simp only [TCP.fixedPart, h0, h2, h4, h8, h14, h16, h18, b12, b13, bind, Except.bind, pure, Except.pure]
  rfl

/-- A TCP header parsed from `s`: the fixed part, and the bytes of the option area. -/
structure ParsedTCP (s : Bytes) (t : TCP) : Prop where
  fixed : { t with mTCPOption := none } = parsedTCP s
  optionBytes : t.optionBytes = .ok (optionArea s)

variable {s : Bytes}

theorem optionArea_length (hin : tcpHeaderLength s ≤ s.length) :
    (optionArea s).length = tcpHeaderLength s - 20 := by
  simp only [optionArea, List.length_drop, List.length_take]; omega

theorem tcpHeaderLength_le (s : Bytes) : tcpHeaderLength s ≤ 60 := by
  have := (byteAt s 12).isLt
  unfold tcpHeaderLength; omega

theorem parsedTCP_dataOffset (s : Bytes) : (parsedTCP s).dataOffset.toInt * 4 = tcpHeaderLength s := by
  have hoff : (parsedTCP s).dataOffset.toInt = ((byteAt s 12).toNat / 16 : ℕ) := dataOffset_toInt _
  rw [hoff]
  unfold tcpHeaderLength
  push_cast
  rfl

/-- The option area that `fromTCPHeader` copies, padded where the segment ends before it. -/
def paddedArea (s : Bytes) : Bytes := (s.drop 20).takeD (tcpHeaderLength s - 20) 0

/-- The segment is one whose options are read. -/
def HasOptions (s : Bytes) : Prop := 20 < s.length ∧ 20 < tcpHeaderLength s

instance (s : Bytes) : Decidable (HasOptions s) := inferInstanceAs (Decidable (_ ∧ _))

theorem paddedArea_eq (hin : tcpHeaderLength s ≤ s.length) : paddedArea s = optionArea s := by
  unfold paddedArea optionArea
  rw [List.takeD_eq_take _ (by rw [List.length_drop]; omega), List.drop_take]

theorem fixedPart_raises (h : s.length < 18) : ∃ e, TCP.fixedPart s = .error e := by
  have h18 : copyOfRange s 18 20 = .error .arrayIndexOutOfBounds := by
    unfold copyOfRange
    rw [if_neg (by decide), if_pos (.inr (by omega))]
  cases hf : TCP.fixedPart s with
  | error e => exact ⟨e, rfl⟩
  | ok t =>
    unfold TCP.fixedPart at hf
    simp only [bind_ok_iff, h18, reduceCtorEq, false_and, exists_false, and_false] at hf

/-- **`fromTCPHeader` reads the fixed part and walks the option area**, if there is one. -/
theorem fromTCPHeader_eq (n : ℕ) (h18 : 18 ≤ s.length) :
    TCP.fromTCPHeader n s = if HasOptions s then do
        let option ← TCPOption.fromByte n (paddedArea s)
        return { parsedTCP s with mTCPOption := some option }
      else pure (parsedTCP s) := by
  have hoff := parsedTCP_dataOffset s
  have hcond : (20 < s.length ∧ 5 < (parsedTCP s).dataOffset.toInt) ↔ HasOptions s := by
    unfold HasOptions
    omega
  unfold TCP.fromTCPHeader
  rw [fixedPart_eq h18, Fueled.lift_ok_bind]
  by_cases hopt : HasOptions s
  · have harea : copyOfRange s 20 ((parsedTCP s).dataOffset.toInt * 4) = .ok (paddedArea s) := by
      rw [hoff]
      exact copyOfRange_pad (i := 20) hopt.2.le hopt.1.le
    rw [if_pos (hcond.2 hopt), if_pos hopt, harea, Fueled.lift_ok_bind]
  · rw [if_neg (mt hcond.1 hopt), if_neg hopt]

/-- What it returns for any segment. -/
theorem fromTCPHeader_some_iff {t : TCP} :
    Fueled.Ends (fun n => TCP.fromTCPHeader n s) (.ok t) ↔ 18 ≤ s.length ∧
      ((HasOptions s ∧ ∃ op, Fueled.Ends (fun n => TCPOption.fromByte n (paddedArea s)) (.ok op) ∧
          t = { parsedTCP s with mTCPOption := some op }) ∨
        (¬ HasOptions s ∧ t = parsedTCP s)) := by
  by_cases h18 : 18 ≤ s.length
  · simp only [fromTCPHeader_eq _ h18, h18, true_and]
    by_cases hopt : HasOptions s
    · simp only [hopt, if_true, true_and, not_true_eq_false, false_and, or_false]
      refine Fueled.ends_bind_iff.trans (exists_congr fun op => ?_)
      simp [eq_comm]
    · simp only [hopt, if_false, false_and, not_false_eq_true, true_and, false_or]
      refine Fueled.ends_const_iff.trans ?_
      simp [eq_comm, ExceptT.run_pure]
  · obtain ⟨e, he⟩ := fixedPart_raises (not_le.1 h18)
    unfold TCP.fromTCPHeader
    rw [Fueled.ends_lift_bind_iff]
    simp [he, h18]

/-- The same, with the fuel, for a segment that holds its header. -/
theorem run_fromTCPHeader (n : ℕ) (h20 : 20 ≤ tcpHeaderLength s) (hin : tcpHeaderLength s ≤ s.length) :
    ExceptT.run (TCP.fromTCPHeader n s) =
      if 20 < tcpHeaderLength s then
        match ExceptT.run (TCPOption.fromByte n (optionArea s)) with
        | none => none
        | some (.error e) => some (.error e)
        | some (.ok op) => some (.ok { parsedTCP s with mTCPOption := some op })
      else some (.ok (parsedTCP s)) := by
  rw [fromTCPHeader_eq n (by omega), paddedArea_eq hin]
  by_cases hopt : 20 < tcpHeaderLength s
  · have hhas : HasOptions s := ⟨by omega, hopt⟩
    rw [if_pos hhas, if_pos hopt, Fueled.run_bind]
    rcases ExceptT.run (TCPOption.fromByte n (optionArea s)) with _ | (e | op)
    all_goals rfl
  · rw [if_neg fun h => hopt h.2, if_neg hopt]
    rfl

/-- **What `fromTCPHeader` returns.** -/
theorem fromTCPHeader_parsed {n : ℕ} {t : TCP} (h20 : 20 ≤ tcpHeaderLength s)
    (hin : tcpHeaderLength s ≤ s.length) (h : ExceptT.run (TCP.fromTCPHeader n s) = some (.ok t)) :
    ParsedTCP s t := by
  rw [run_fromTCPHeader n h20 hin] at h
  by_cases hopt : 20 < tcpHeaderLength s
  · rw [if_pos hopt] at h
    rcases hr : ExceptT.run (TCPOption.fromByte n (optionArea s)) with _ | (e | op)
    · rw [hr] at h; cases h
    · rw [hr] at h; cases h
    · rw [hr] at h
      cases h
      refine ⟨rfl, ?_⟩
      simp [TCP.optionBytes, TCPOption.getBytes, TCPOption.fromByte_options hr]
  · rw [if_neg hopt] at h
    cases h
    refine ⟨rfl, ?_⟩
    have hnil : optionArea s = [] := List.eq_nil_of_length_eq_zero (by rw [optionArea_length hin]; omega)
    rw [hnil]
    rfl

/-- **`fromTCPHeader` returns iff it knows every option.** -/
theorem fromTCPHeader_ends_iff (h20 : 20 ≤ tcpHeaderLength s) (hin : tcpHeaderLength s ≤ s.length)
    (hopts : TCPOption.Options (fun _ => True) (optionArea s)) :
    (∃ n t, ExceptT.run (TCP.fromTCPHeader n s) = some (.ok t)) ↔
      TCPOption.Options TCPOption.Known (optionArea s) := by
  have hlen := optionArea_length hin
  have h60 := tcpHeaderLength_le s
  by_cases hopt : 20 < tcpHeaderLength s
  · constructor
    · rintro ⟨n, t, h⟩
      by_contra hu
      have hd := TCPOption.fromByte_diverges hopts hu (by omega) n
      rw [run_fromTCPHeader n h20 hin, if_pos hopt, hd] at h
      cases h
    · intro hk
      have hne : optionArea s ≠ [] := List.ne_nil_of_length_pos (by omega)
      obtain ⟨op, n, hn⟩ := TCPOption.fromByte_ends hk (by omega) hne
      have hn' : ExceptT.run (TCPOption.fromByte n (optionArea s)) = some (.ok op) := hn
      refine ⟨n, { parsedTCP s with mTCPOption := some op }, ?_⟩
      rw [run_fromTCPHeader n h20 hin, if_pos hopt, hn']
  · have hnil : optionArea s = [] := List.eq_nil_of_length_eq_zero (by omega)
    constructor
    · intro _
      rw [hnil]
      exact .nil
    · intro _
      refine ⟨0, parsedTCP s, ?_⟩
      rw [run_fromTCPHeader 0 h20 hin, if_neg hopt]

/-! ## The UDP header and the packet -/

/-- The header that `fromHeaderBytes` makes of a segment. -/
def parsedUDP (s : Bytes) : UDP where
  mSourcePort := pairAt s 0
  mDestPort := pairAt s 2
  mDatagramLength := some (pairAt s 4)
  mChecksum := some (pairAt s 6)
  mHeader := some (s.take 8)

theorem fromHeaderBytes_eq (h8 : 8 ≤ s.length) : UDP.fromHeaderBytes s = .ok (parsedUDP s) := by
  have h0 := copyOfRange_pairAt (p := s) (i := 0) (by omega)
  have h2 := copyOfRange_pairAt (p := s) (i := 2) (by omega)
  have h4 := copyOfRange_pairAt (p := s) (i := 4) (by omega)
  have h6 := copyOfRange_pairAt (p := s) (i := 6) (by omega)
  have hh := copyOfRange_slice (a := s) (i := 0) (j := 8) (by omega) h8
  push_cast at h0 h2 h4 h6 hh
  simp only [UDP.fromHeaderBytes, h0, h2, h4, h6, hh, bind, Except.bind, pure, Except.pure]
  rfl

/-- The payload from byte `k` on; null when there is none. -/
def payloadFrom (p : Bytes) (k : ℕ) : Option Bytes := if k < p.length then some (p.drop k) else none

theorem payloadFrom_getD (p : Bytes) (k : ℕ) : (payloadFrom p k).getD [] = p.drop k := by
  unfold payloadFrom
  split
  · rfl
  · rw [List.drop_eq_nil_of_le (by omega)]; rfl

/-- The packet is built from the parsed IP header. -/
theorem getPacket_ok_iff {n : ℕ} {pk : PacketV4} (h : WellFormedIP p) :
    ExceptT.run (PacketManager.getPacket n p) = some (.ok (some pk)) ↔
      ExceptT.run (PacketManager.newPacketV4 n p (parsedHeader p)) = some (.ok pk) := by
  have h1 := h.ihl
  have h2 := h.inside
  have b0 := aget_byteAt (p := p) (i := 0) (by omega)
  push_cast at b0
  simp only [PacketManager.getPacket, PacketManager.generatePacketV4, Fueled.run_bind, Fueled.run_lift, b0,
    if_pos (high_nibble _ h.version), fromHeaderByte_eq (le_trans h1 h2) h2]
  simp only [PacketManager.orNull, ExceptT.run_mk]
  rcases ExceptT.run (PacketManager.newPacketV4 n p (parsedHeader p)) with _ | (e | pk')
  all_goals simp

/-- The segment is what `protocolOf` reads, and the payload what follows its header. -/
theorem run_newPacketV4 {n : ℕ} (h : WellFormedIP p) :
    ExceptT.run (PacketManager.newPacketV4 n p (parsedHeader p)) =
      match ExceptT.run (PacketManager.protocolOf n (byteAt p 9) (segment p)) with
      | none => none
      | some (.error e) => some (.error e)
      | some (.ok none) => some (.error .nullPointer)
      | some (.ok (some t)) => match t.getHeaderLength with
        | .error e => some (.error e)
        | .ok k => match (if ipHeaderLength p + k < p.length then
            some <$> copyOfRange p (ipHeaderLength p + k : ℕ) p.length else .ok none) with
          | .error e => some (.error e)
          | .ok data => some (.ok ⟨parsedHeader p, t, data⟩) := by
  have hlen := parsedHeader_getHeaderLength h.ihl h.inside
  have hseg := copyOfRange_slice (a := p) (i := ipHeaderLength p) (j := p.length) h.inside le_rfl
  have hseg' : copyOfRange p (ipHeaderLength p) p.length = .ok (segment p) := by
    rw [hseg, List.take_of_length_le (by simp)]; rfl
  have hsize := h.size
  have htotal : getIntValue (pairAt p 2) = .ok (BitVec.ofNat 32 p.length) := by
    rw [← h.total]; exact getIntValue_two _ _
  have hint : (BitVec.ofNat 32 p.length).toInt = p.length := by
    unfold MAX_SIZE at hsize
    have hn : (BitVec.ofNat 32 p.length).toNat = p.length := by
      rw [BitVec.toNat_ofNat]; exact Nat.mod_eq_of_lt (by omega)
    rw [BitVec.toInt_eq_toNat_of_lt (by omega), hn]
  simp only [PacketManager.newPacketV4, if_neg (show ¬ MAX_SIZE < p.length by omega), hlen, hseg',
    Fueled.run_bind, Fueled.run_lift, show (parsedHeader p).mProtocol = byteAt p 9 from rfl,
    show (parsedHeader p).mTotalLength = some (pairAt p 2) from rfl]
  simp only [pure, ExceptT.pure]
  rcases ExceptT.run (PacketManager.protocolOf n (byteAt p 9) (segment p)) with _ | (e | (_ | t))
  · rfl
  · rfl
  · rfl
  · simp only [deref_some]
    rcases t.getHeaderLength with e | k
    · rfl
    · simp only
      by_cases hk : ipHeaderLength p + k < p.length
      · simp only [hk, if_true, Fueled.run_bind, Fueled.run_lift, htotal, hint]
        rcases copyOfRange p ((ipHeaderLength p + k : ℕ) : ℤ) p.length with e | d <;> rfl
      · simp only [hk, if_false]; rfl

/-- **The packet of a transport header of `k` bytes.** -/
theorem newPacketV4_ok {n k : ℕ} {t : TransmissionProtocol} (h : WellFormedIP p)
    (ht : ExceptT.run (PacketManager.protocolOf n (byteAt p 9) (segment p)) = some (.ok (some t)))
    (hk : t.getHeaderLength = .ok k) :
    ExceptT.run (PacketManager.newPacketV4 n p (parsedHeader p)) =
      some (.ok ⟨parsedHeader p, t, payloadFrom p (ipHeaderLength p + k)⟩) := by
  rw [run_newPacketV4 h, ht]
  simp only [hk, payloadFrom]
  by_cases hlt : ipHeaderLength p + k < p.length
  · rw [if_pos hlt, if_pos hlt, copyOfRange_slice hlt.le le_rfl, List.take_of_length_le (by simp)]
    rfl
  · rw [if_neg hlt, if_neg hlt]

end SmartTunnel
