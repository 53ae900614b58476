import SmartTunnel.Proof.Checksums
import SmartTunnel.Proof.Parse

/-!
# Parsing and serialising a datagram

`roundTrips_iff`: which well-formed datagrams `getPacketBytes` gives back byte for byte
after `getPacket` parsed them. Three kinds are not:

* with CWR set, `TCPFlag.getByte` is negative, `dataOffsetAndFlags` takes four bytes and the
  header buffer overflows;
* with an option kind that `TCPOption.fromByte` does not name, the parser never ends;
* a checksum written as `0xFFFF` is the other zero of the one that is recomputed.
-/

namespace SmartTunnel

open Jvm BigEndian ByteUtil

/-- `getPacket` returns a packet whose `getPacketBytes` gives the datagram back. -/
def RoundTrips (p : Bytes) : Prop :=
  ∃ pk, Fueled.Ends (fun n => PacketManager.getPacket n p) (.ok (some pk)) ∧
    (Java.exec PacketV4.getPacketBytes pk).1 = .ok p

/-- What the code asks of a well-formed datagram. -/
def Reproducible (p : Bytes) : Prop :=
  wordAt p 10 ≠ 0xFFFF ∧
    (byteAt p 9 = TCP.PROTOCOL_NUMBER → wordAt (segment p) 16 ≠ 0xFFFF ∧
      (byteAt (segment p) 13).toNat < 128 ∧
      TCPOption.Options TCPOption.Known (optionArea (segment p))) ∧
    (byteAt p 9 = UDP.PROTOCOL_NUMBER → wordAt (segment p) 6 ≠ 0xFFFF)

/-- **The recomputed checksum is the one that was there, unless that was `0xFFFF`.** -/
theorem computeChecksum_restores {pre post : Bytes} {a b : Byte} (he : Even pre.length)
    (hpos : 0 < (OnesComplement.words (pre ++ 0 :: 0 :: post)).sum)
    (hv : OnesComplement.sum (pre ++ a :: b :: post) = 0xFFFF) :
    computeChecksum (pre ++ 0 :: 0 :: post) = [a, b] ↔ a.toNat * 256 + b.toNat ≠ 0xFFFF := by
  obtain ⟨x, y, hxy, hval⟩ := computeChecksum_pair (pre ++ 0 :: 0 :: post)
  have hr : 0 < OnesComplement.sum (pre ++ 0 :: 0 :: post) := by
    unfold OnesComplement.sum OnesComplement.rep
    rw [if_neg (by omega)]; omega
  have hle : OnesComplement.sum (pre ++ 0 :: 0 :: post) ≤ 0xFFFF := OnesComplement.rep_le _
  rw [hxy]
  constructor
  · intro h
    simp only [List.cons.injEq, and_true] at h
    rw [← h.1, ← h.2]
    omega
  · intro h
    rcases OnesComplement.checksum_unique he hpos hv with hc | ⟨hc, -⟩
    · apply beNat_inj (by simp)
      rw [beNat_two, beNat_two, hval, hc]
    · exact absurd hc h

/-- A slice that begins with known bytes. -/
theorem take_split {p front : Bytes} {k n : ℕ} (hk : front.length = k) (hp : p = front ++ p.drop k)
    (hn : k ≤ n) : p.take n = front ++ (p.take n).drop k := by
  have h : p.take k = front := by
    conv_lhs => rw [hp]
    exact List.take_left' hk
  conv_lhs => rw [← List.take_append_drop k (p.take n), List.take_take, Nat.min_eq_left hn, h]

/-! ## The IP header -/

section IP

variable {p : Bytes}

/-- The header bytes of a datagram before its checksum, field by field. -/
def ipFront (p : Bytes) : Bytes :=
  [byteAt p 0, byteAt p 1] ++ pairAt p 2 ++ pairAt p 4 ++ pairAt p 6 ++ [byteAt p 8, byteAt p 9]

/-- The header bytes of a datagram after its checksum. -/
def ipBack (p : Bytes) : Bytes := quadAt p 12 ++ quadAt p 16 ++ (p.take (ipHeaderLength p)).drop 20

theorem take_ipHeader (hihl : 20 ≤ ipHeaderLength p) (hin : ipHeaderLength p ≤ p.length) :
    p.take (ipHeaderLength p) = ipFront p ++ byteAt p 10 :: byteAt p 11 :: ipBack p := by
  have hp : p = (ipFront p ++ byteAt p 10 :: byteAt p 11 :: (quadAt p 12 ++ quadAt p 16)) ++ p.drop 20 := by
    conv_lhs => rw [← List.drop_zero (l := p)]
    rw [drop_eq_quadAt (by omega), drop_eq_quadAt (by omega), drop_eq_quadAt (by omega),
      drop_eq_quadAt (by omega), drop_eq_quadAt (by omega)]
    rfl
  rw [take_split (k := 20) rfl hp hihl, ipBack]
  simp

theorem version_and_ihl : ∀ b : Byte, b.toNat / 16 = 4 →
    ((((4 : BitVec 32) <<< 4) ||| BitVec.ofNat 32 (b.toNat % 16)).setWidth 8 : Byte) = b := by
  decide +kernel

theorem flag_bits : ∀ b : Byte, b.toNat < 128 →
    (((((b.signExtend 32).sshiftRight 5).setWidth 8 : Byte).signExtend 32) : BitVec 32).toNat = b.toNat / 32 := by
  decide +kernel

theorem low_bits {w : ℕ} (h : w < 2 ^ 16) : (BitVec.ofNat 32 w &&& 0x1FFF : BitVec 32).toNat = w % 8192 := by
  have hmod := Nat.and_two_pow_sub_one_eq_mod w 13
  rw [BitVec.toNat_and, BitVec.toNat_ofNat, Nat.mod_eq_of_lt (by omega)]
  simpa using hmod

theorem offset_bits {x : BitVec 16} (h : x.toNat < 8192) :
    (x.signExtend 32 &&& 0x1FFF : BitVec 32).toNat = x.toNat := by
  have hse : x.signExtend 32 = x.setWidth 32 :=
    BitVec.signExtend_eq_setWidth_of_msb_false (BitVec.msb_eq_false_iff_two_mul_lt.2 (by omega))
  have hmod := Nat.and_two_pow_sub_one_eq_mod x.toNat 13
  rw [hse, BitVec.toNat_and, BitVec.toNat_setWidth, Nat.mod_eq_of_lt (by omega)]
  simp only [BitVec.reduceToNat]
  norm_num at hmod ⊢
  omega

/-- The flag stands above the fragment offset. -/
theorem flagAndFragmentOffset_eq {h : IPV4Header} (hflag : (h.mFlag.signExtend 32 : BitVec 32).toNat < 8)
    (hoff : h.mFragmentOffset.toNat < 8192) :
    h.flagAndFragmentOffset.toNat = (h.mFlag.signExtend 32 : BitVec 32).toNat * 8192 + h.mFragmentOffset.toNat := by
  unfold IPV4Header.flagAndFragmentOffset
  rw [BitVec.toNat_or, offset_bits hoff, BitVec.toNat_shiftLeft, Nat.shiftLeft_eq, Nat.mod_eq_of_lt (by omega),
    Nat.mul_comm, ← Nat.two_pow_add_eq_or_of_lt (by omega)]

/-- The flag and fragment offset are written back as they were, when the top bit is clear. -/
theorem flagAndFragmentOffset_toNat (h : (byteAt p 6).toNat < 128) :
    (parsedHeader p).flagAndFragmentOffset.toNat = wordAt p 6 := by
  have h7 := (byteAt p 7).isLt
  have hf : ((parsedHeader p).mFlag.signExtend 32 : BitVec 32).toNat = (byteAt p 6).toNat / 32 := flag_bits _ h
  have hoff : (parsedHeader p).mFragmentOffset.toNat = wordAt p 6 % 8192 := by
    change ((BitVec.ofNat 32 (wordAt p 6) &&& 0x1FFF : BitVec 32).setWidth 16).toNat = _
    rw [BitVec.toNat_setWidth, low_bits (wordAt_lt p 6)]
    omega
  rw [flagAndFragmentOffset_eq (by omega) (by omega), hf, hoff]
  unfold wordAt
  omega

/-- What `generateInitialHeader` puts for a header that was read. -/
theorem parts_parsed (hver : (byteAt p 0).toNat / 16 = 4) (hihl : 20 ≤ ipHeaderLength p)
    (hin : ipHeaderLength p ≤ p.length) :
    ((parsedHeader p).parts (pairAt p 2) (pairAt p 4)).flatten =
      [byteAt p 0, byteAt p 1] ++ pairAt p 2 ++ pairAt p 4 ++
        getByteFromInt (parsedHeader p).flagAndFragmentOffset 2 ++ [byteAt p 8, byteAt p 9] ++ 0 :: 0 :: ipBack p := by
  have hv : (parsedHeader p).versionAndIHL = byteAt p 0 := by
    have hq : (parsedHeader p).getHeaderLength / 4 = (byteAt p 0).toNat % 16 := by
      rw [parsedHeader_getHeaderLength hihl hin]
      unfold ipHeaderLength
      omega
    unfold IPV4Header.versionAndIHL
    rw [hq]
    exact version_and_ihl _ hver
  have hback : (parsedHeader p).afterChecksum = ipBack p := by
    change quadAt p 12 ++ quadAt p 16 ++ (parsedHeader p).mOptions.getD [] = _
    rw [parsedHeader_options hihl]
    rfl
  rw [IPV4Header.parts_flatten, hback]
  unfold IPV4Header.beforeChecksum
  rw [hv]
  rfl

/-- **The IP header is laid out as it was read**, but for the checksum. -/
theorem generateInitialHeader_header (hver : (byteAt p 0).toNat / 16 = 4) (hihl : 20 ≤ ipHeaderLength p)
    (hin : ipHeaderLength p ≤ p.length) (hres : (byteAt p 6).toNat < 128) :
    (parsedHeader p).generateInitialHeader = .ok (ipFront p ++ 0 :: 0 :: ipBack p) := by
  have hflag : getByteFromInt (parsedHeader p).flagAndFragmentOffset 2 = pairAt p 6 :=
    getByteFromInt_wordAt (flagAndFragmentOffset_toNat hres)
  have hparts : ((parsedHeader p).parts (pairAt p 2) (pairAt p 4)).flatten = ipFront p ++ 0 :: 0 :: ipBack p := by
    rw [parts_parsed hver hihl hin, hflag]
    rfl
  have h60 : ipHeaderLength p ≤ 60 := by
    unfold ipHeaderLength
    omega
  have htotal : (parsedHeader p).mTotalLength = some (pairAt p 2) := rfl
  have hident : (parsedHeader p).mIdentification = some (pairAt p 4) := rfl
  rw [IPV4Header.generateInitialHeader_eq htotal hident,
    parsedHeader_getHeaderLength hihl hin, ByteBuffer.layout_full _ (by omega), hparts]
  have hlen := congrArg List.length (take_ipHeader hihl hin)
  rw [hparts]
  simp only [List.length_append, List.length_cons, List.length_take] at hlen ⊢
  omega

theorem generateInitialHeader_parsed (h : WellFormedIP p) :
    ((parsedHeader p).reset p.length).generateInitialHeader =
      .ok (ipFront p ++ 0 :: 0 :: ipBack p) := by
  have hsize := h.size
  unfold MAX_SIZE at hsize
  have htl : getByteFromInt (BitVec.ofNat 32 p.length) 2 = pairAt p 2 := by
    apply getByteFromInt_wordAt
    rw [h.total, BitVec.toNat_ofNat]
    exact Nat.mod_eq_of_lt (by omega)
  rw [← generateInitialHeader_header h.version h.ihl h.inside h.reserved]
  unfold IPV4Header.generateInitialHeader IPV4Header.reset
  rw [htl]
  rfl

/-- The header that is serialised, and when it is the one that was read. -/
theorem getHeader_parsed (h : WellFormedIP p) :
    ∃ header h', Java.exec IPV4Header.getHeader ((parsedHeader p).reset p.length) = (.ok header, h') ∧
      header.length = ipHeaderLength p ∧
      (header = p.take (ipHeaderLength p) ↔ wordAt p 10 ≠ 0xFFFF) := by
  have hfront : (ipFront p).length = 10 := rfl
  have hpos : 0 < (OnesComplement.words (ipFront p ++ 0 :: 0 :: ipBack p)).sum := by
    have := h.version
    simp only [ipFront, List.cons_append, OnesComplement.words, List.sum_cons]
    omega
  have hsum := h.checksum
  rw [take_ipHeader h.ihl h.inside] at hsum
  obtain ⟨x, y, hxy, -⟩ := computeChecksum_pair (ipFront p ++ 0 :: 0 :: ipBack p)
  have hiff := computeChecksum_restores (by rw [hfront]; decide) hpos hsum
  rw [IPV4Header.getHeader_exec _ rfl, generateInitialHeader_parsed h]
  simp only [hxy, ArrayUtil.replace_middle hfront]
  refine ⟨_, _, rfl, ?_, ?_⟩
  · have := congrArg List.length (take_ipHeader h.ihl h.inside)
    have h2 := h.inside
    simp only [List.length_append, List.length_cons, List.length_take] at this ⊢
    omega
  · rw [take_ipHeader h.ihl h.inside, List.append_cancel_left_eq, ← show (_ ↔ wordAt p 10 ≠ 0xFFFF) from hiff, hxy]
    simp

end IP

/-! ## The transport header -/

section Transport

variable {source dest b : Bytes} {data : Option Bytes}

/-- The checksum buffer takes the pseudo-header, the header and the payload. -/
theorem pseudoHeader_puts (hs : source.length = 4) (hd : dest.length = 4) (protocol : Byte)
    (hn : (b ++ data.getD []).length < 2 ^ 16) :
    let n := 12 + b.length + (data.map List.length).getD 0
    let pseudo := pseudoHeader source dest protocol (b ++ data.getD []).length
    ByteBuffer.allocate n = .ok ⟨n, []⟩ ∧
      ByteBuffer.putAll ⟨n, []⟩ [some source, some dest, some [0, protocol],
        some (getByteFromInt (BitVec.ofNat 32 (b.length + (data.map List.length).getD 0)) 2)] =
          .ok ⟨n, pseudo⟩ ∧
      ByteBuffer.putAll ⟨n, pseudo⟩ ([some b] ++ (if data.isSome then [data] else [])) =
        .ok ⟨n, pseudo ++ (b ++ data.getD [])⟩ ∧
      (⟨n, pseudo ++ (b ++ data.getD [])⟩ : ByteBuffer).array = pseudo ++ (b ++ data.getD []) := by
  intro n pseudo
  have hdata : (data.map List.length).getD 0 = (data.getD []).length := by cases data <;> simp
  have hl : (b ++ data.getD []).length = b.length + (data.map List.length).getD 0 := by
    rw [List.length_append, hdata]
  have hp : pseudo.length = 12 := pseudoHeader_length hs hd _ _
  rw [hl] at hn
  refine ⟨ByteBuffer.allocate_eq (by omega), ?_, ?_, ?_⟩
  · have := ByteBuffer.putAll_map_some (n := n) [source, dest, [0, protocol],
      getByteFromInt (BitVec.ofNat 32 (b.length + (data.map List.length).getD 0)) 2] []
      (by rw [getByteFromInt_length_bytes hn]; simp [hs, hd]; omega)
    rw [getByteFromInt_length_bytes hn] at this ⊢
    simpa [pseudo, pseudoHeader, hl] using this
  · have := ByteBuffer.putAll_map_some (n := n) (b :: data.toList) pseudo
      (by rw [hp]; cases data <;> simp [n]; omega)
    cases data <;> simpa using this
  · apply ByteBuffer.array_full
    rw [List.length_append, hp, hl]; omega

theorem TCP.calculateChecksum_returns {t : TCP} (hs : source.length = 4) (hd : dest.length = 4)
    (hlen : t.getHeaderLength = .ok b.length) (hg : t.generateInitialHeader = .ok b)
    (hn : (b ++ data.getD []).length < 2 ^ 16) :
    Java.exec (TCP.calculateChecksum source dest data) t = (.ok (), { t with
      mHeader := some b
      mChecksum := some (computeChecksum (pseudoHeader source dest TCP.PROTOCOL_NUMBER
        (b ++ data.getD []).length ++ (b ++ data.getD []))) }) := by
  obtain ⟨h₀, h₁, h₂, h₃⟩ := pseudoHeader_puts hs hd TCP.PROTOCOL_NUMBER hn
  simp only [TCP.calculateChecksum, Java.exec_bind, Java.exec_get, Java.exec_lift, hlen, h₀, h₁, hg,
    Java.exec_modify, h₂, h₃]

theorem UDP.calculateChecksum_returns {u : UDP} (hs : source.length = 4) (hd : dest.length = 4)
    (hlen : b.length = 8) (hg : u.generateInitialHeader data = .ok b)
    (hn : (b ++ data.getD []).length < 2 ^ 16) :
    ∃ dl, Java.exec (UDP.calculateChecksum source dest data) u = (.ok (), { u with
      mDatagramLength := dl
      mHeader := some b
      mChecksum := some (computeChecksum (pseudoHeader source dest UDP.PROTOCOL_NUMBER
        (b ++ data.getD []).length ++ (b ++ data.getD []))) }) := by
  obtain ⟨h₀, h₁, h₂, h₃⟩ := pseudoHeader_puts hs hd UDP.PROTOCOL_NUMBER hn
  rw [hlen] at h₀ h₁ h₂ h₃
  refine ⟨some (getByteFromInt (BitVec.ofNat 32 (8 + (data.map List.length).getD 0)) 2), ?_⟩
  have hg' : ∀ dl, UDP.generateInitialHeader { u with mDatagramLength := dl } data = .ok b := fun _ => hg
  simp only [UDP.calculateChecksum, UDP.getHeaderLength, Java.exec_bind, Java.exec_get, Java.exec_lift,
    Java.exec_modify, h₀, h₁, hg', h₂, h₃]

/-- The recomputed transport checksum is the one that was there, unless that was `0xFFFF`. -/
theorem computeChecksum_transport {p front back tail : Bytes} {protocol x y : Byte} {n : ℕ}
    (he : Even front.length) (hproto : 0 < protocol.toNat)
    (hv : OnesComplement.sum (pseudoHeader (quadAt p 12) (quadAt p 16) protocol n ++
      ((front ++ x :: y :: back) ++ tail)) = 0xFFFF) :
    computeChecksum (pseudoHeader (quadAt p 12) (quadAt p 16) protocol n ++
      ((front ++ 0 :: 0 :: back) ++ tail)) = [x, y] ↔ x.toNat * 256 + y.toNat ≠ 0xFFFF := by
  set pseudo := pseudoHeader (quadAt p 12) (quadAt p 16) protocol n with hpseudo
  have hp : Even pseudo.length := by rw [hpseudo, pseudoHeader_length rfl rfl]; decide
  have hassoc : ∀ a b : Byte, pseudo ++ ((front ++ a :: b :: back) ++ tail) =
      (pseudo ++ front) ++ a :: b :: (back ++ tail) := by simp
  have hpos : 0 < (OnesComplement.words ((pseudo ++ front) ++ 0 :: 0 :: (back ++ tail))).sum := by
    rw [List.append_assoc, OnesComplement.words_append _ hp, List.sum_append, hpseudo]
    simp only [pseudoHeader, quadAt, List.cons_append, List.nil_append, OnesComplement.words,
      List.sum_cons]
    omega
  rw [hassoc] at hv ⊢
  exact computeChecksum_restores (by rw [List.length_append]; exact hp.add he) hpos hv

end Transport

/-! ## The TCP header -/

section TCPHeader

variable {p s : Bytes} {t : TCP}

/-- The header bytes of a segment before its checksum, field by field. -/
def tcpFront (s : Bytes) : Bytes :=
  pairAt s 0 ++ pairAt s 2 ++ quadAt s 4 ++ quadAt s 8 ++ pairAt s 12 ++ pairAt s 14

/-- The header bytes of a segment after its checksum. -/
def tcpBack (s : Bytes) : Bytes := pairAt s 18 ++ optionArea s

theorem take_tcpHeader (h20 : 20 ≤ tcpHeaderLength s) (hin : tcpHeaderLength s ≤ s.length) :
    s.take (tcpHeaderLength s) = tcpFront s ++ byteAt s 16 :: byteAt s 17 :: tcpBack s := by
  have hp : s = (tcpFront s ++ byteAt s 16 :: byteAt s 17 :: pairAt s 18) ++ s.drop 20 := by
    conv_lhs => rw [← List.drop_zero (l := s)]
    rw [drop_eq_quadAt (by omega), drop_eq_quadAt (by omega), drop_eq_quadAt (by omega),
      drop_eq_quadAt (by omega), drop_eq_quadAt (by omega)]
    rfl
  rw [take_split (k := 20) rfl hp h20, tcpBack, optionArea]
  simp

theorem getByte_fromByte : ∀ b : Byte, b.toNat < 128 →
    ((TCPFlag.fromByte b).getByte.signExtend 32 : BitVec 32).toNat = b.toNat := by decide +kernel

/-- With CWR set the flag byte is negative. -/
theorem getByte_fromByte_negative : ∀ b : Byte, 128 ≤ b.toNat →
    2 ^ 31 ≤ ((TCPFlag.fromByte b).getByte.signExtend 32 : BitVec 32).toNat := by decide +kernel

theorem dataOffset_shifted : ∀ b : Byte,
    ((BitVec.ofNat 8 (b.toNat / 16)).signExtend 32 <<< 12 : BitVec 32).toNat = b.toNat / 16 * 4096 := by
  decide +kernel

theorem dataOffsetAndFlags_parsed (ht : ParsedTCP s t) (h20 : 20 ≤ tcpHeaderLength s)
    (hin : tcpHeaderLength s ≤ s.length) :
    t.dataOffsetAndFlags (optionArea s).length =
      ((BitVec.ofNat 8 ((byteAt s 12).toNat / 16)).signExtend 32 <<< 12) |||
        (TCPFlag.fromByte (byteAt s 13)).getByte.signExtend 32 := by
  have hf : t.mFlag = some (TCPFlag.fromByte (byteAt s 13)) := congrArg TCP.mFlag ht.fixed
  have hq : 5 + (optionArea s).length / 4 = (byteAt s 12).toNat / 16 := by
    rw [optionArea_length hin]
    unfold tcpHeaderLength at *
    omega
  unfold TCP.dataOffsetAndFlags
  rw [hf, hq]

theorem dataOffsetAndFlags_toNat (ht : ParsedTCP s t) (h20 : 20 ≤ tcpHeaderLength s)
    (hin : tcpHeaderLength s ≤ s.length) (hres : (byteAt s 12).toNat % 16 = 0)
    (hcwr : (byteAt s 13).toNat < 128) :
    (t.dataOffsetAndFlags (optionArea s).length).toNat = wordAt s 12 := by
  rw [dataOffsetAndFlags_parsed ht h20 hin, BitVec.toNat_or, getByte_fromByte _ hcwr, dataOffset_shifted]
  rw [show (byteAt s 12).toNat / 16 * 4096 = 2 ^ 12 * ((byteAt s 12).toNat / 16) by omega,
    ← Nat.two_pow_add_eq_or_of_lt (by omega)]
  change _ = (byteAt s 12).toNat * 256 + (byteAt s 13).toNat
  omega

theorem ParsedTCP.getHeaderLength (ht : ParsedTCP s t) (h20 : 20 ≤ tcpHeaderLength s)
    (hin : tcpHeaderLength s ≤ s.length) : t.getHeaderLength = .ok (tcpHeaderLength s) := by
  have := optionArea_length hin
  simp only [TCP.getHeaderLength, ht.optionBytes, bind, Except.bind, pure, Except.pure, Except.ok.injEq]
  omega

/-- What `generateInitialHeader` puts for a parsed header. -/
theorem ParsedTCP.parts_flatten (ht : ParsedTCP s t) :
    t.generateInitialHeader = ByteBuffer.layout (20 + (optionArea s).length)
      ((t.parts (quadAt s 4) (quadAt s 8) (pairAt s 14) (pairAt s 18) (optionArea s)).map some) ∧
    (t.parts (quadAt s 4) (quadAt s 8) (pairAt s 14) (pairAt s 18) (optionArea s)).flatten =
      pairAt s 0 ++ pairAt s 2 ++ quadAt s 4 ++ quadAt s 8 ++
        getByteFromInt (t.dataOffsetAndFlags (optionArea s).length) 2 ++ pairAt s 14 ++
          0 :: 0 :: tcpBack s := by
  have hsrc : t.mSourcePort = pairAt s 0 := congrArg TCP.mSourcePort ht.fixed
  have hdst : t.mDestPort = pairAt s 2 := congrArg TCP.mDestPort ht.fixed
  refine ⟨TCP.generateInitialHeader_eq ht.optionBytes (congrArg TCP.mSequenceNumber ht.fixed)
    (congrArg TCP.mAcknowledgmentNumber ht.fixed) (congrArg TCP.mWindowSize ht.fixed)
    (congrArg TCP.mUrgentPointer ht.fixed), ?_⟩
  rw [TCP.parts_flatten ht.optionBytes, TCP.beforeChecksum, hsrc, hdst, tcpBack]

/-- **Without CWR the TCP header is laid out as it was read**, but for the checksum. -/
theorem ParsedTCP.generateInitialHeader (ht : ParsedTCP s t) (h20 : 20 ≤ tcpHeaderLength s)
    (hin : tcpHeaderLength s ≤ s.length) (hres : (byteAt s 12).toNat % 16 = 0)
    (hcwr : (byteAt s 13).toNat < 128) :
    t.generateInitialHeader = .ok (tcpFront s ++ 0 :: 0 :: tcpBack s) := by
  obtain ⟨hgen, hflat⟩ := ht.parts_flatten
  have h60 := tcpHeaderLength_le s
  have hlen := optionArea_length hin
  rw [getByteFromInt_wordAt (dataOffsetAndFlags_toNat ht h20 hin hres hcwr)] at hflat
  rw [hgen, ByteBuffer.layout_full _ (by omega), hflat]
  · rfl
  · rw [hflat]
    simp only [tcpBack, pairAt, quadAt, List.length_append, List.length_cons, List.length_nil]
    omega

/-- **With CWR the header buffer overflows.** -/
theorem ParsedTCP.generateInitialHeader_overflow (ht : ParsedTCP s t) (h20 : 20 ≤ tcpHeaderLength s)
    (hin : tcpHeaderLength s ≤ s.length) (hcwr : 128 ≤ (byteAt s 13).toNat) (b : Bytes) :
    t.generateInitialHeader ≠ .ok b := by
  obtain ⟨hgen, hflat⟩ := ht.parts_flatten
  have hneg := getByte_fromByte_negative _ hcwr
  have hbig : 2 ^ 16 ≤ (t.dataOffsetAndFlags (optionArea s).length).toNat := by
    rw [dataOffsetAndFlags_parsed ht h20 hin, BitVec.toNat_or]
    exact le_trans (by omega) (le_trans hneg Nat.right_le_or)
  have hlong := two_lt_getByteFromInt_length hbig
  rw [hgen]
  apply ByteBuffer.layout_overflow
  rw [hflat]
  simp only [tcpBack, pairAt, quadAt, List.length_append, List.length_cons, List.length_nil]
  omega

theorem ParsedTCP.sized (ht : ParsedTCP s t) : t.Sized := by
  have hsrc : t.mSourcePort = pairAt s 0 := congrArg TCP.mSourcePort ht.fixed
  have hdst : t.mDestPort = pairAt s 2 := congrArg TCP.mDestPort ht.fixed
  have hseq : t.mSequenceNumber = some (quadAt s 4) := congrArg TCP.mSequenceNumber ht.fixed
  have hack : t.mAcknowledgmentNumber = some (quadAt s 8) := congrArg TCP.mAcknowledgmentNumber ht.fixed
  have hwin : t.mWindowSize = some (pairAt s 14) := congrArg TCP.mWindowSize ht.fixed
  have hurg : t.mUrgentPointer = some (pairAt s 18) := congrArg TCP.mUrgentPointer ht.fixed
  refine ⟨by rw [hsrc]; rfl, by rw [hdst]; rfl, ?_, ?_, ?_, ?_⟩
  · intro x hx; rw [hseq] at hx; cases hx; rfl
  · intro x hx; rw [hack] at hx; cases hx; rfl
  · intro x hx; rw [hwin] at hx; cases hx; rfl
  · intro x hx; rw [hurg] at hx; cases hx; rfl

end TCPHeader

/-! ## Round trips -/

section Packets

variable {p : Bytes}

theorem drop_segment (p : Bytes) (k : ℕ) : p.drop (ipHeaderLength p + k) = (segment p).drop k := by
  rw [segment, List.drop_drop]

/-- A packet of the parsed IP header, a transport header of `k` bytes and the payload is
serialised to the datagram iff both headers are what was read. -/
theorem getPacketBytes_parsed {t p₁ p₂ : TransmissionProtocol} {th : Bytes} {k : ℕ} (h : WellFormedIP p)
    (hk : t.getHeaderLength = .ok k) (hin : k ≤ (segment p).length)
    (hc : Java.exec (TransmissionProtocol.calculateChecksum (quadAt p 12) (quadAt p 16)
      (payloadFrom p (ipHeaderLength p + k))) t = (.ok (), p₁))
    (hth : Java.exec TransmissionProtocol.getHeader p₁ = (.ok th, p₂)) (htl : th.length = k) :
    (Java.exec PacketV4.getPacketBytes
      ⟨parsedHeader p, t, payloadFrom p (ipHeaderLength p + k)⟩).1 = .ok p ↔
        wordAt p 10 ≠ 0xFFFF ∧ th = (segment p).take k := by
  set pk : PacketV4 := ⟨parsedHeader p, t, payloadFrom p (ipHeaderLength p + k)⟩ with hpk
  have hlen := parsedHeader_getHeaderLength h.ihl h.inside
  have h2 := h.inside
  have hsize := h.size
  unfold MAX_SIZE at hsize
  have hseg : (segment p).length = p.length - ipHeaderLength p := by simp [segment]
  have hdata : pk.data.getD [] = (segment p).drop k := by
    rw [← drop_segment]; exact payloadFrom_getD _ _
  have hdl : pk.dataLength = (segment p).length - k := by
    rw [PacketV4.dataLength_eq, hdata, List.length_drop]
  have htotal : pk.mIPV4Header.getHeaderLength + k + pk.dataLength = p.length := by
    rw [hdl, show pk.mIPV4Header.getHeaderLength = ipHeaderLength p from hlen, hseg]; omega
  obtain ⟨header, h', hh, hhl, hiff⟩ := getHeader_parsed h
  have hret := PacketV4.getPacketBytes_returns (p := pk) hk (by rw [htotal]; exact hh) hc hth
    (by rw [hhl]; exact hlen.symm) htl (by rw [htotal]; omega)
  rw [hret, hdata, Except.ok.injEq, ← hiff]
  have hp : p = p.take (ipHeaderLength p) ++ ((segment p).take k ++ (segment p).drop k) := by
    rw [List.take_append_drop, segment, List.take_append_drop]
  constructor
  · intro heq
    rw [hp] at heq
    obtain ⟨he1, he2⟩ := List.append_inj heq (by rw [hhl, List.length_take]; omega)
    obtain ⟨he3, -⟩ := List.append_inj he2 (by rw [htl, List.length_take]; omega)
    exact ⟨he1, he3⟩
  · rintro ⟨he1, he2⟩
    rw [he1, he2, ← hp]

theorem segment_small (h : WellFormedIP p) : (segment p).length < 2 ^ 16 := by
  have hsize := h.size
  unfold MAX_SIZE at hsize
  simp only [segment, List.length_drop]
  omega

/-- The transport sum of a segment cut after its header. -/
theorem transportSum_split (p : Bytes) (k : ℕ) :
    transportSum p = OnesComplement.sum (pseudoHeader (quadAt p 12) (quadAt p 16) (byteAt p 9)
      (segment p).length ++ ((segment p).take k ++ (segment p).drop k)) := by
  rw [List.take_append_drop]; rfl

/-- **A parsed TCP packet is given back iff CWR is clear and no checksum was `0xFFFF`.** -/
theorem getPacketBytes_tcp {t : TCP} (h : WellFormedTCP p) (ht : ParsedTCP (segment p) t) :
    (Java.exec PacketV4.getPacketBytes ⟨parsedHeader p, .tcp t,
      payloadFrom p (ipHeaderLength p + tcpHeaderLength (segment p))⟩).1 = .ok p ↔
        wordAt p 10 ≠ 0xFFFF ∧ wordAt (segment p) 16 ≠ 0xFFFF ∧ (byteAt (segment p) 13).toNat < 128 := by
  set s := segment p with hs
  set data := payloadFrom p (ipHeaderLength p + tcpHeaderLength s) with hd
  have h20 : 20 ≤ tcpHeaderLength s := h.dataOffset
  have hin : tcpHeaderLength s ≤ s.length := h.tcp_inside
  have hlen := ht.getHeaderLength h20 hin
  by_cases hcwr : (byteAt s 13).toNat < 128
  · have hgen := ht.generateInitialHeader h20 hin h.tcp_reserved hcwr
    have htake := take_tcpHeader h20 hin
    have hfront : (tcpFront s).length = 16 := rfl
    have hblen : ∀ a b : Byte, (tcpFront s ++ a :: b :: tcpBack s).length = tcpHeaderLength s := by
      intro a b
      have := congrArg List.length htake
      simp only [List.length_append, List.length_cons, List.length_take] at this ⊢
      omega
    have hdata : data.getD [] = s.drop (tcpHeaderLength s) := by
      rw [hd, payloadFrom_getD, drop_segment]
    have hseglen : ∀ a b : Byte, ((tcpFront s ++ a :: b :: tcpBack s) ++ data.getD []).length = s.length := by
      intro a b
      rw [List.length_append, hblen, hdata, List.length_drop]; omega
    have hsum := h.transport
    rw [transportSum_split p (tcpHeaderLength s), ← hs, htake, ← hdata, h.protocol] at hsum
    have hiff := computeChecksum_transport (by rw [hfront]; decide) (by decide) hsum
    obtain ⟨x, y, hxy, -⟩ := computeChecksum_pair (pseudoHeader (quadAt p 12) (quadAt p 16)
      TCP.PROTOCOL_NUMBER s.length ++ ((tcpFront s ++ 0 :: 0 :: tcpBack s) ++ data.getD []))
    have hsmall := segment_small h.toWellFormedIP
    rw [← hs, ← hseglen 0 0] at hsmall
    have hcalc := TCP.calculateChecksum_returns (quadAt_length p 12) (quadAt_length p 16)
      (by rw [hblen]; exact hlen) hgen hsmall
    rw [hseglen, hxy] at hcalc
    rw [hxy] at hiff
    have hheader := TCP.getHeader_exec (t := { t with
      mHeader := some (tcpFront s ++ 0 :: 0 :: tcpBack s), mChecksum := some [x, y] }) rfl rfl
    rw [ArrayUtil.replace_middle hfront] at hheader
    rw [getPacketBytes_parsed (t := .tcp t) h.toWellFormedIP hlen hin
      (by rw [TransmissionProtocol.calculateChecksum, TransmissionProtocol.exec_dispatch_tcp, hcalc])
      (by rw [TransmissionProtocol.getHeader, TransmissionProtocol.exec_dispatch_tcp, hheader]) (hblen x y)]
    rw [← hs, htake, List.append_cancel_left_eq]
    have hword : wordAt s 16 ≠ 0xFFFF ↔ [x, y] = [byteAt s 16, byteAt s 17] := hiff.symm
    rw [hword]
    simp [hcwr]
  · refine iff_of_false ?_ (fun hc => hcwr hc.2.2)
    intro hret
    rcases hex : Java.exec PacketV4.getPacketBytes ⟨parsedHeader p, .tcp t, data⟩ with ⟨r, pk'⟩
    rw [hex] at hret
    obtain rfl : r = .ok p := hret
    obtain ⟨k, header, h', p₁, th, p₂, -, -, hc, -, -⟩ := PacketV4.getPacketBytes_inv hex
    simp only [TransmissionProtocol.calculateChecksum, TransmissionProtocol.exec_dispatch_tcp,
      Prod.mk.injEq] at hc
    obtain ⟨b, hb, -⟩ := TCP.calculateChecksum_ok ht.sized rfl rfl (Prod.ext hc.1 rfl)
    exact ht.generateInitialHeader_overflow h20 hin (by omega) b hb

/-- The header bytes of a UDP segment before its checksum. -/
def udpFront (s : Bytes) : Bytes := pairAt s 0 ++ pairAt s 2 ++ pairAt s 4

theorem take_udpHeader {s : Bytes} (h8 : 8 ≤ s.length) :
    s.take 8 = udpFront s ++ byteAt s 6 :: byteAt s 7 :: [] := by
  have hp : s = (udpFront s ++ byteAt s 6 :: byteAt s 7 :: []) ++ s.drop 8 := by
    conv_lhs => rw [← List.drop_zero (l := s)]
    rw [drop_eq_quadAt (by omega), drop_eq_quadAt (by omega)]
    rfl
  conv_lhs => rw [hp]
  exact List.take_left' rfl

/-- **A parsed UDP packet is given back iff no checksum was `0xFFFF`.** -/
theorem getPacketBytes_udp (h : WellFormedUDP p) :
    (Java.exec PacketV4.getPacketBytes ⟨parsedHeader p, .udp (parsedUDP (segment p)),
      payloadFrom p (ipHeaderLength p + 8)⟩).1 = .ok p ↔
        wordAt p 10 ≠ 0xFFFF ∧ wordAt (segment p) 6 ≠ 0xFFFF := by
  set s := segment p with hs
  set data := payloadFrom p (ipHeaderLength p + 8) with hd
  have h8 : 8 ≤ s.length := h.udp_inside
  have hsmall : s.length < 2 ^ 16 := segment_small h.toWellFormedIP
  have hlen : wordAt s 4 = s.length := h.length
  have htake := take_udpHeader h8
  have hdata : data.getD [] = s.drop 8 := by rw [hd, payloadFrom_getD, drop_segment]
  have hdl : (data.map List.length).getD 0 = s.length - 8 := by
    rw [← List.length_drop, ← hdata]; cases data <;> simp
  have hseglen : ∀ a b : Byte, ((udpFront s ++ a :: b :: []) ++ data.getD []).length = s.length := by
    intro a b
    rw [List.length_append, hdata, List.length_drop]
    simp only [udpFront, pairAt, List.length_append, List.length_cons, List.length_nil]
    omega
  have hgen : (parsedUDP s).generateInitialHeader data = .ok (udpFront s ++ 0 :: 0 :: []) := by
    have hl : getByteFromInt (BitVec.ofNat 32 (8 + (data.map List.length).getD 0)) 2 = pairAt s 4 := by
      apply getByteFromInt_wordAt
      rw [BitVec.toNat_ofNat, Nat.mod_eq_of_lt (by omega), hlen, hdl]
      omega
    rw [UDP.generateInitialHeader_eq, UDP.parts, hl, ByteBuffer.layout_full (n := 8) rfl (by omega)]
    rfl
  have hsum := h.transport
  rw [transportSum_split p 8, ← hs, htake, ← hdata, h.protocol] at hsum
  have hfront : (udpFront s).length = 6 := rfl
  have hiff := computeChecksum_transport (by rw [hfront]; decide) (by decide) hsum
  obtain ⟨x, y, hxy, -⟩ := computeChecksum_pair (pseudoHeader (quadAt p 12) (quadAt p 16)
    UDP.PROTOCOL_NUMBER s.length ++ ((udpFront s ++ 0 :: 0 :: []) ++ data.getD []))
  obtain ⟨dl, hcalc⟩ := UDP.calculateChecksum_returns (quadAt_length p 12) (quadAt_length p 16)
    (u := parsedUDP s) rfl hgen (by rw [hseglen]; omega)
  rw [hseglen, hxy] at hcalc
  rw [hxy] at hiff
  have hheader := UDP.getHeader_exec (u := { parsedUDP s with
    mDatagramLength := dl, mHeader := some (udpFront s ++ 0 :: 0 :: []), mChecksum := some [x, y] }) rfl rfl
  rw [ArrayUtil.replace_middle hfront] at hheader
  rw [getPacketBytes_parsed (k := 8) (t := .udp (parsedUDP s)) h.toWellFormedIP rfl h8
    (by rw [TransmissionProtocol.calculateChecksum, TransmissionProtocol.exec_dispatch_udp, hcalc])
    (by rw [TransmissionProtocol.getHeader, TransmissionProtocol.exec_dispatch_udp, hheader]) rfl]
  rw [← hs, htake, List.append_cancel_left_eq]
  have hword : wordAt s 6 ≠ 0xFFFF ↔ [x, y] = [byteAt s 6, byteAt s 7] := hiff.symm
  rw [hword]

/-- TCP: the parser has to end, CWR to be clear and no checksum to be `0xFFFF`. -/
theorem roundTrips_tcp (h : WellFormedTCP p) :
    RoundTrips p ↔ wordAt p 10 ≠ 0xFFFF ∧ wordAt (segment p) 16 ≠ 0xFFFF ∧
      (byteAt (segment p) 13).toNat < 128 ∧
      TCPOption.Options TCPOption.Known (optionArea (segment p)) := by
  have hproto : ∀ n, PacketManager.protocolOf n (byteAt p 9) (segment p) = do
      return some (.tcp (← TCP.fromTCPHeader n (segment p))) := by
    intro n; rw [PacketManager.protocolOf, if_pos h.protocol]
  -- the packet, once the header is parsed
  have hpacket : ∀ {n t}, ExceptT.run (TCP.fromTCPHeader n (segment p)) = some (.ok t) →
      ExceptT.run (PacketManager.newPacketV4 n p (parsedHeader p)) = some (.ok ⟨parsedHeader p, .tcp t,
        payloadFrom p (ipHeaderLength p + tcpHeaderLength (segment p))⟩) := by
    intro n t hn
    refine newPacketV4_ok h.toWellFormedIP ?_
      ((fromTCPHeader_parsed h.dataOffset h.tcp_inside hn).getHeaderLength h.dataOffset h.tcp_inside)
    rw [hproto, Fueled.run_bind, hn]; rfl
  have hends := fromTCPHeader_ends_iff h.dataOffset h.tcp_inside h.options
  constructor
  · rintro ⟨pk, ⟨n, hn⟩, hbytes⟩
    have hnew := (getPacket_ok_iff h.toWellFormedIP).1 hn
    rcases hr : ExceptT.run (TCP.fromTCPHeader n (segment p)) with _ | (e | t)
    · rw [run_newPacketV4 h.toWellFormedIP, hproto, Fueled.run_bind, hr] at hnew; cases hnew
    · rw [run_newPacketV4 h.toWellFormedIP, hproto, Fueled.run_bind, hr] at hnew; cases hnew
    · rw [hpacket hr] at hnew
      obtain rfl := Except.ok.inj (Option.some.inj hnew)
      obtain ⟨hip, htcp, hcwr⟩ :=
        (getPacketBytes_tcp h (fromTCPHeader_parsed h.dataOffset h.tcp_inside hr)).1 hbytes
      exact ⟨hip, htcp, hcwr, hends.1 ⟨n, t, hr⟩⟩
  · rintro ⟨hip, hck, hcwr, hknown⟩
    obtain ⟨n, t, hr⟩ := hends.2 hknown
    exact ⟨_, ⟨n, (getPacket_ok_iff h.toWellFormedIP).2 (hpacket hr)⟩,
      (getPacketBytes_tcp h (fromTCPHeader_parsed h.dataOffset h.tcp_inside hr)).2 ⟨hip, hck, hcwr⟩⟩

/-- UDP: no checksum may be `0xFFFF`. -/
theorem roundTrips_udp (h : WellFormedUDP p) :
    RoundTrips p ↔ wordAt p 10 ≠ 0xFFFF ∧ wordAt (segment p) 6 ≠ 0xFFFF := by
  have htcp : byteAt p 9 ≠ TCP.PROTOCOL_NUMBER := by rw [h.protocol]; decide
  have hpacket : ∀ n, ExceptT.run (PacketManager.newPacketV4 n p (parsedHeader p)) =
      some (.ok ⟨parsedHeader p, .udp (parsedUDP (segment p)), payloadFrom p (ipHeaderLength p + 8)⟩) := by
    intro n
    refine newPacketV4_ok h.toWellFormedIP ?_ rfl
    rw [PacketManager.protocolOf, if_neg htcp, if_pos h.protocol, Fueled.run_bind, Fueled.run_lift,
      fromHeaderBytes_eq h.udp_inside]
    rfl
  constructor
  · rintro ⟨pk, ⟨n, hn⟩, hbytes⟩
    have hnew := (getPacket_ok_iff h.toWellFormedIP).1 hn
    rw [hpacket] at hnew
    obtain rfl := Except.ok.inj (Option.some.inj hnew)
    exact (getPacketBytes_udp h).1 hbytes
  · intro hck
    exact ⟨_, ⟨0, (getPacket_ok_iff h.toWellFormedIP).2 (hpacket 0)⟩, (getPacketBytes_udp h).2 hck⟩

/-- **Which well-formed datagrams survive parsing and serialising.** -/
theorem roundTrips_iff {p : Bytes} (h : WellFormed p) : RoundTrips p ↔ Reproducible p := by
  rcases h with h | h
  · have hudp : byteAt p 9 ≠ UDP.PROTOCOL_NUMBER := by rw [h.protocol]; decide
    rw [roundTrips_tcp h]
    constructor
    · rintro ⟨hip, htcp⟩
      exact ⟨hip, fun _ => htcp, fun hu => absurd hu hudp⟩
    · rintro ⟨hip, htcp, -⟩
      exact ⟨hip, htcp h.protocol⟩
  · have htcp : byteAt p 9 ≠ TCP.PROTOCOL_NUMBER := by rw [h.protocol]; decide
    rw [roundTrips_udp h]
    constructor
    · rintro ⟨hip, hudp⟩
      exact ⟨hip, fun ht => absurd ht htcp, fun _ => hudp⟩
    · rintro ⟨hip, -, hudp⟩
      exact ⟨hip, hudp h.protocol⟩

/-- A segment with PSH and ACK, a timestamp option and three bytes of payload. -/
def timestampDatagram : Bytes :=
  [69, 0, 0, 55, 0, 7, 64, 0, 64, 6, 36, 173, 10, 0, 0, 2, 8, 8, 4, 4,
    192, 1, 0, 80, 0, 0, 0, 1, 0, 0, 0, 2, 128, 24, 255, 255, 54, 214, 0, 0,
    1, 1, 8, 10, 0, 0, 0, 9, 0, 0, 0, 8, 72, 105, 33]

theorem timestampDatagram_options {P : Byte → Prop} (hP : P TCPOption.KIND_TS) :
    TCPOption.Options P (optionArea (segment timestampDatagram)) := by
  have harea : optionArea (segment timestampDatagram) =
      TCPOption.KIND_NO :: TCPOption.KIND_NO :: TCPOption.KIND_TS :: 10 :: ([0, 0, 0, 9, 0, 0, 0, 8] ++ []) := by
    decide +kernel
  rw [harea]
  exact .nop (.nop (.option (by decide) (by decide) hP rfl .nil))

theorem roundTrips_timestampDatagram : WellFormed timestampDatagram ∧ RoundTrips timestampDatagram := by
  have hip : WellFormedIP timestampDatagram := by constructor <;> decide +kernel
  have hwf : WellFormed timestampDatagram := .inl ⟨hip, by decide +kernel, by decide +kernel,
    by decide +kernel, by decide +kernel, timestampDatagram_options trivial, by decide +kernel, by decide +kernel⟩
  refine ⟨hwf, (roundTrips_iff hwf).2 ⟨by decide +kernel, fun _ => ⟨by decide +kernel, by decide +kernel, ?_⟩,
    fun h => absurd h (by decide +kernel)⟩⟩
  exact timestampDatagram_options (by decide)

/-- An ACK with CWR set is well formed and is not given back. -/
theorem cwrDatagram_not_roundTrips :
    let p : Bytes := [69, 0, 0, 40, 0, 7, 64, 0, 64, 6, 36, 188, 10, 0, 0, 2, 8, 8, 4, 4,
      192, 1, 0, 80, 0, 0, 0, 1, 0, 0, 0, 2, 80, 144, 255, 255, 216, 242, 0, 0]
    WellFormed p ∧ ¬ RoundTrips p := by
  intro p
  have hip : WellFormedIP p := by constructor <;> decide +kernel
  have harea : optionArea (segment p) = [] := by decide +kernel
  have hwf : WellFormedTCP p := ⟨hip, by decide +kernel, by decide +kernel, by decide +kernel,
    by decide +kernel, by rw [harea]; exact .nil, by decide +kernel, by decide +kernel⟩
  refine ⟨.inl hwf, fun h => ?_⟩
  have hcwr := ((roundTrips_tcp hwf).1 h).2.2.1
  exact absurd hcwr (by decide +kernel)

end Packets

end SmartTunnel
