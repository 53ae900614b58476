import SmartTunnel.Proof.Serialise

/-!
# Emitted checksums verify

`getPacketBytes` resets the IP checksum and calls `calculateChecksum` on the transport
header, so whatever was cached before is not in its result. `getPacketBytes_verifies`:
after any setters and any earlier serialisations, a datagram that `getPacketBytes`
returns has an IP header and a transport segment (with its pseudo-header) that sum to
`0xFFFF`. The checksum of a UDP datagram is zero for some payloads (`udpChecksum_iff`).
-/

namespace SmartTunnel

open Jvm ByteUtil

/-- A header with the checksum of itself and what follows it in place. -/
theorem sum_with_checksum {front pre post tail : Bytes} {a b : Byte} (hf : Even front.length)
    (hp : Even pre.length)
    (h : a.toNat * 256 + b.toNat =
      0xFFFF - OnesComplement.sum (front ++ ((pre ++ 0 :: 0 :: post) ++ tail))) :
    OnesComplement.sum (front ++ ((pre ++ a :: b :: post) ++ tail)) = 0xFFFF := by
  have he : Even (front ++ pre).length := by rw [List.length_append]; exact hf.add hp
  have hc : a.toNat * 256 + b.toNat =
      0xFFFF - OnesComplement.sum ((front ++ pre) ++ 0 :: 0 :: (post ++ tail)) := by
    simpa [List.append_assoc] using h
  have := OnesComplement.sum_checksum he hc
  simpa [List.append_assoc] using this

namespace IPV4Header

/-- The header as `getPacketBytes` sets it before it serialises it. -/
def reset (h : IPV4Header) (totalLength : ℕ) : IPV4Header :=
  { h with mTotalLength := some (getByteFromInt (BitVec.ofNat 32 totalLength) 2), mHeaderChecksum := none }

theorem Sized.reset {h : IPV4Header} (hsz : h.Sized) (n : ℕ) : (h.reset n).Sized :=
  ⟨hsz.source, hsz.dest, hsz.identification, hsz.options⟩

/-- **The IP header that `getHeader` returns after a reset sums to `0xFFFF`.** -/
theorem getHeader_verifies {h h' : IPV4Header} {b : Bytes} {n : ℕ} (hsz : h.Sized)
    (hb : Java.exec getHeader (h.reset n) = (.ok b, h')) :
    b.length = h.getHeaderLength ∧ OnesComplement.sum b = 0xFFFF := by
  rw [getHeader_exec _ rfl] at hb
  rcases hg : (h.reset n).generateInitialHeader with e | b₀
  · simp [hg] at hb
  obtain ⟨id, -, rfl, hpre, hlen⟩ :=
    generateInitialHeader_ok (hsz.reset n) rfl (two_le_getByteFromInt_length _) hg
  obtain ⟨x, y, hxy, hval⟩ := computeChecksum_pair
    ((h.reset n).beforeChecksum (getByteFromInt (BitVec.ofNat 32 n) 2) id ++ 0 :: 0 :: (h.reset n).afterChecksum)
  simp only [hg, hxy, ArrayUtil.replace_middle hpre, Prod.mk.injEq, Except.ok.injEq] at hb
  obtain ⟨rfl, -⟩ := hb
  refine ⟨?_, ?_⟩
  · rw [show h.getHeaderLength = (h.reset n).getHeaderLength from rfl, ← hlen]; simp
  exact OnesComplement.sum_checksum (by rw [hpre]; decide) hval

end IPV4Header

namespace UDP

/-- What the checksum is computed of: the pseudo-header, the header with zeros for the checksum, the payload. -/
def summed (u : UDP) (source dest : Bytes) (data : Option Bytes) : Bytes :=
  pseudoHeader source dest PROTOCOL_NUMBER (8 + (data.getD []).length) ++
    ((u.beforeChecksum (data.getD []).length ++ 0 :: 0 :: []) ++ data.getD [])

/-- **The header that `calculateChecksum` and `getHeader` give** has the complement of the sum in its place. -/
theorem getHeader_emits {u u₁ u₂ : UDP} {source dest b : Bytes} {data : Option Bytes} (hsz : u.Sized)
    (hs : source.length = 4) (hd : dest.length = 4)
    (h₁ : Java.exec (calculateChecksum source dest data) u = (.ok (), u₁))
    (h₂ : Java.exec getHeader u₁ = (.ok b, u₂)) :
    ∃ x y : Byte, b = u.beforeChecksum (data.getD []).length ++ x :: y :: [] ∧
      (u.beforeChecksum (data.getD []).length).length = 6 ∧
      x.toNat * 256 + y.toNat = 0xFFFF - OnesComplement.sum (u.summed source dest data) := by
  obtain ⟨b₀, hg, rfl⟩ := calculateChecksum_ok hsz hs hd h₁
  obtain ⟨rfl, hpre, hlen⟩ := generateInitialHeader_ok hsz hg
  obtain ⟨x, y, hxy, hval⟩ := computeChecksum_pair (u.summed source dest data)
  have hdatagram : ((u.beforeChecksum (data.getD []).length ++ 0 :: 0 :: []) ++ data.getD []).length =
      8 + (data.getD []).length := by
    rw [List.length_append, hlen]
  rw [hdatagram, ← summed, hxy, getHeader_exec rfl rfl, ArrayUtil.replace_middle hpre] at h₂
  simp only [Prod.mk.injEq, Except.ok.injEq] at h₂
  exact ⟨x, y, h₂.1.symm, hpre, hval⟩

/-- The protocol number keeps the sum from zero. -/
theorem summed_pos (u : UDP) {source dest : Bytes} (data : Option Bytes) (hs : source.length = 4)
    (hd : dest.length = 4) : 0 < (OnesComplement.words (u.summed source dest data)).sum := by
  have heven : Even (source ++ dest).length := by
    rw [List.length_append, hs, hd]
    decide
  have hmem : 17 ∈ OnesComplement.words (u.summed source dest data) := by
    unfold summed pseudoHeader
    simp only [List.append_assoc, List.cons_append]
    rw [← List.append_assoc, OnesComplement.words_append _ heven]
    refine List.mem_append_right _ ?_
    rw [OnesComplement.words]
    exact List.mem_cons_self
  have hle := List.single_le_sum (fun _ _ => Nat.zero_le _) 17 hmem
  omega

end UDP

namespace TransmissionProtocol

def Sized : TransmissionProtocol → Prop
  | tcp t => t.Sized
  | udp u => u.Sized

/-- **The transport header that `calculateChecksum` and `getHeader` give sums, with the
pseudo-header and the payload, to `0xFFFF`.** -/
theorem getHeader_verifies {p p₁ p₂ : TransmissionProtocol} {source dest b : Bytes} {data : Option Bytes}
    (hsz : p.Sized) (hs : source.length = 4) (hd : dest.length = 4)
    (h₁ : Java.exec (calculateChecksum source dest data) p = (.ok (), p₁))
    (h₂ : Java.exec getHeader p₁ = (.ok b, p₂)) :
    p.getHeaderLength = .ok b.length ∧
      OnesComplement.sum (pseudoHeader source dest p.getProtocolNumber (b ++ data.getD []).length ++
        (b ++ data.getD [])) = 0xFFFF := by
  have heven : ∀ proto n, Even (pseudoHeader source dest proto n).length := fun proto n => by
    rw [pseudoHeader_length hs hd]; decide
  cases p with
  | tcp t =>
    simp only [calculateChecksum, exec_dispatch_tcp, Prod.mk.injEq] at h₁
    obtain ⟨hok, rfl⟩ := h₁
    obtain ⟨b₀, hg, ht'⟩ := TCP.calculateChecksum_ok hsz hs hd (Prod.ext hok rfl)
    obtain ⟨pre, post, rfl, hpre, hlen⟩ := TCP.generateInitialHeader_ok hsz hg
    obtain ⟨x, y, hxy, hval⟩ := computeChecksum_pair (pseudoHeader source dest TCP.PROTOCOL_NUMBER
      ((pre ++ 0 :: 0 :: post) ++ data.getD []).length ++ ((pre ++ 0 :: 0 :: post) ++ data.getD []))
    simp only [getHeader, exec_dispatch_tcp, ht', hxy] at h₂
    rw [TCP.getHeader_exec rfl rfl, ArrayUtil.replace_middle hpre] at h₂
    simp only [Prod.mk.injEq, Except.ok.injEq] at h₂
    obtain ⟨rfl, -⟩ := h₂
    refine ⟨by simpa [getHeaderLength] using hlen, ?_⟩
    have := sum_with_checksum (heven _ _) (by rw [hpre]; decide) hval
    simpa [getProtocolNumber] using this
  | udp u =>
    simp only [calculateChecksum, exec_dispatch_udp, Prod.mk.injEq] at h₁
    obtain ⟨hok, rfl⟩ := h₁
    obtain ⟨hhead, rfl⟩ : (Java.exec UDP.getHeader (Java.exec (UDP.calculateChecksum source dest data) u).2).1 = .ok b ∧
        p₂ = .udp (Java.exec UDP.getHeader (Java.exec (UDP.calculateChecksum source dest data) u).2).2 := by
      simpa [getHeader, eq_comm] using h₂
    obtain ⟨x, y, rfl, hpre, hval⟩ := UDP.getHeader_emits hsz hs hd (Prod.ext hok rfl) (Prod.ext hhead rfl)
    have hlen : (u.beforeChecksum (data.getD []).length ++ x :: y :: []).length = 8 := by
      rw [List.length_append, hpre]
      rfl
    have hdatagram : ((u.beforeChecksum (data.getD []).length ++ x :: y :: []) ++ data.getD []).length =
        8 + (data.getD []).length := by
      rw [List.length_append, hlen]
    refine ⟨by rw [hlen]; rfl, ?_⟩
    rw [hdatagram]
    exact sum_with_checksum (heven _ _) (by rw [hpre]; decide) hval

end TransmissionProtocol

/-! ## Runs of setters and serialisations -/

/-- A call on the header objects of a packet. -/
inductive PacketCall
  | setSourceAddress (a : Bytes)
  | setDestAddress (a : Bytes)
  | setTypeOfService (b : Byte)
  | setTotalLength (l : Option Bytes)
  | setIdentification (id : Option Bytes)
  | setFlag (b : Byte)
  | setFragmentOffset (o : BitVec 16)
  | setTimeToLive (b : Byte)
  | setProtocol (b : Byte)
  | setHeaderChecksum (c : Option Bytes)
  | setOptions (o : Option Bytes)
  | setSourcePort (p : Bytes)
  | setDestPort (p : Bytes)
  | setSequenceNumber (s : Option Bytes)
  | setAcknowledgmentNumber (a : Option Bytes)
  | setTCPFlag (f : Option TCPFlag)
  | setWindowSize (w : Option Bytes)
  | setUrgentPointer (u : Option Bytes)
  | setTCPOption (o : Option TCPOption)
  | resetChecksum
  | getHeader
  | calculateHeaderChecksum
  | getProtocolHeader
  | calculateChecksum (source dest : Bytes) (data : Option Bytes)
  | getPacketBytes

namespace PacketV4

/-- The packet after a method that may have raised. -/
def after {α : Type} (x : Java PacketV4 α) (p : PacketV4) : PacketV4 := (Java.exec x p).2

def setHeader (f : IPV4Header → IPV4Header) : Java PacketV4 Unit := onHeader (modify f)

/-- A setter of `TCP` and one of `UDP`, for the transport header the packet has. -/
def setProtocol (f : TCP → TCP) (g : UDP → UDP) : Java PacketV4 Unit :=
  onProtocol (TransmissionProtocol.dispatch (modify f) (modify g))

/-- The packet after a call; setters of `TCP` do nothing to a `UDP`. -/
def call (p : PacketV4) : PacketCall → PacketV4
  | .setSourceAddress a => after (setHeader fun h => { h with mSourceAddress := a }) p
  | .setDestAddress a => after (setHeader fun h => { h with mDestAddress := a }) p
  | .setTypeOfService b => after (setHeader fun h => { h with mTypeOfService := b }) p
  | .setTotalLength l => after (setHeader fun h => { h with mTotalLength := l }) p
  | .setIdentification id => after (setHeader fun h => { h with mIdentification := id }) p
  | .setFlag b => after (setHeader fun h => { h with mFlag := b }) p
  | .setFragmentOffset o => after (setHeader fun h => { h with mFragmentOffset := o }) p
  | .setTimeToLive b => after (setHeader fun h => { h with mTimeToLive := b }) p
  | .setProtocol b => after (setHeader fun h => { h with mProtocol := b }) p
  | .setHeaderChecksum c => after (setHeader fun h => { h with mHeaderChecksum := c }) p
  | .setOptions o => after (setHeader fun h => { h with mOptions := o }) p
  | .setSourcePort s => after (setProtocol ({ · with mSourcePort := s }) ({ · with mSourcePort := s })) p
  | .setDestPort d => after (setProtocol ({ · with mDestPort := d }) ({ · with mDestPort := d })) p
  | .setSequenceNumber s => after (setProtocol ({ · with mSequenceNumber := s }) id) p
  | .setAcknowledgmentNumber a => after (setProtocol ({ · with mAcknowledgmentNumber := a }) id) p
  | .setTCPFlag f => after (setProtocol ({ · with mFlag := f }) id) p
  | .setWindowSize w => after (setProtocol ({ · with mWindowSize := w }) id) p
  | .setUrgentPointer u => after (setProtocol ({ · with mUrgentPointer := u }) id) p
  | .setTCPOption o => after (setProtocol ({ · with mTCPOption := o }) id) p
  | .resetChecksum => after (setProtocol ({ · with mChecksum := some [0, 0] }) id) p
  | .getHeader => after (onHeader IPV4Header.getHeader) p
  | .calculateHeaderChecksum => after (onHeader IPV4Header.calculateChecksum) p
  | .getProtocolHeader => after (onProtocol TransmissionProtocol.getHeader) p
  | .calculateChecksum s d data => after (onProtocol (TransmissionProtocol.calculateChecksum s d data)) p
  | .getPacketBytes => after getPacketBytes p

/-- The field sizes of a well-sized packet. -/
structure Sized (p : PacketV4) : Prop where
  header : p.mIPV4Header.Sized
  protocol : p.mTransmissionProtocol.Sized

section Returns

variable {p p' : PacketV4} {bytes header th : Bytes} {h' : IPV4Header} {p₁ p₂ : TransmissionProtocol} {k : ℕ}

theorem dataLength_eq (p : PacketV4) : p.dataLength = (p.data.getD []).length := by
  unfold dataLength; cases p.data <;> simp

theorem data_parts (p : PacketV4) : (if p.data.isSome then [p.data] else []) = p.data.toList.map some := by
  cases p.data <;> rfl

theorem data_flatten (p : PacketV4) : p.data.toList.flatten = p.data.getD [] := by cases p.data <;> simp

/-- **What a `getPacketBytes` that returned has done**: both headers were returned, and with
their lengths as announced it gives them and the payload. -/
theorem getPacketBytes_inv (h : Java.exec getPacketBytes p = (.ok bytes, p')) :
    ∃ k header h' p₁ th p₂, p.mTransmissionProtocol.getHeaderLength = .ok k ∧
      Java.exec IPV4Header.getHeader
        (p.mIPV4Header.reset (p.mIPV4Header.getHeaderLength + k + p.dataLength)) = (.ok header, h') ∧
      Java.exec (TransmissionProtocol.calculateChecksum p.mIPV4Header.mSourceAddress
        p.mIPV4Header.mDestAddress p.data) p.mTransmissionProtocol = (.ok (), p₁) ∧
      Java.exec TransmissionProtocol.getHeader p₁ = (.ok th, p₂) ∧
      (header.length = p.mIPV4Header.getHeaderLength → th.length = k →
        bytes = header ++ (th ++ p.data.getD [])) := by
  simp only [getPacketBytes, onHeader, onProtocol, Java.exec_bind_ok, Java.exec_get_ok,
    Java.exec_lift_ok, Java.exec_onField_ok, Java.exec_modify_ok, Java.exec_pure_ok] at h
  obtain ⟨_, _, ⟨rfl, rfl⟩, n, p, ⟨hn, rfl⟩, -, _, ⟨_, rfl, rfl⟩, -, _, ⟨_, rfl, rfl⟩, b₀, _, ⟨h₀, rfl⟩,
    header, _, ⟨h', hh, rfl⟩, b₁, _, ⟨h₁, rfl⟩, ⟨⟩, _, ⟨p₁, hc, rfl⟩, th, _, ⟨p₂, hth, rfl⟩,
    b₂, _, ⟨h₂, rfl⟩, b₃, _, ⟨h₃, rfl⟩, rfl, rfl⟩ := h
  refine ⟨n, header, h', p₁, th, p₂, hn, hh, hc, hth, ?_⟩
  -- with headers as long as announced the buffer is full
  rintro hhl rfl
  obtain ⟨hc₀, hle₀, -⟩ := ByteBuffer.allocate_ok h₀
  obtain ⟨rfl, hf₁⟩ := ByteBuffer.put_ok h₁
  obtain ⟨rfl, hf₂⟩ := ByteBuffer.put_ok h₂
  rw [data_parts] at h₃
  obtain ⟨bs, hbs, rfl, hf₃⟩ := ByteBuffer.putAll_ok (by simpa [hc₀] using hf₂) h₃
  obtain rfl := List.map_injective_iff.2 (Option.some_injective _) hbs
  have hdl := dataLength_eq p
  simp only [hc₀, data_flatten, List.nil_append, List.length_append] at hf₃
  rw [ByteBuffer.array_full]
  · simp [hc₀, data_flatten]
  · simp only [hc₀, data_flatten, List.nil_append, List.length_append]
    omega

/-- **When `getPacketBytes` returns.** -/
theorem getPacketBytes_returns (hk : p.mTransmissionProtocol.getHeaderLength = .ok k)
    (hh : Java.exec IPV4Header.getHeader
      (p.mIPV4Header.reset (p.mIPV4Header.getHeaderLength + k + p.dataLength)) = (.ok header, h'))
    (hc : Java.exec (TransmissionProtocol.calculateChecksum p.mIPV4Header.mSourceAddress
      p.mIPV4Header.mDestAddress p.data) p.mTransmissionProtocol = (.ok (), p₁))
    (hth : Java.exec TransmissionProtocol.getHeader p₁ = (.ok th, p₂))
    (hhl : header.length = p.mIPV4Header.getHeaderLength) (htl : th.length = k)
    (hsmall : p.mIPV4Header.getHeaderLength + k + p.dataLength < 2 ^ 31) :
    (Java.exec getPacketBytes p).1 = .ok (header ++ (th ++ p.data.getD [])) := by
  have hdl := dataLength_eq p
  set total := p.mIPV4Header.getHeaderLength + k + p.dataLength with htotal
  have h₁ : (⟨total, []⟩ : ByteBuffer).put (some header) = .ok ⟨total, header⟩ := by
    unfold ByteBuffer.put; simp only [List.length_nil]; rw [if_neg (by omega)]; rfl
  have h₂ : (⟨total, header⟩ : ByteBuffer).put (some th) = .ok ⟨total, header ++ th⟩ := by
    unfold ByteBuffer.put; simp only; rw [if_neg (by omega)]
  have h₃ := ByteBuffer.putAll_map_some (n := total) p.data.toList (header ++ th)
    (by rw [data_flatten, List.length_append]; omega)
  have hreset : ({ p.mIPV4Header with
      mTotalLength := some (getByteFromInt (BitVec.ofNat 32 total) 2)
      mHeaderChecksum := none } : IPV4Header) = p.mIPV4Header.reset total := rfl
  simp only [getPacketBytes, onHeader, onProtocol, Java.exec_bind, Java.exec_get, Java.exec_lift, hk,
    Java.exec_onField, Java.exec_modify, ← htotal, ByteBuffer.allocate_eq hsmall, hreset, hh, h₁, hc,
    hth, h₂, data_parts, h₃, Java.exec_pure, data_flatten]
  rw [ByteBuffer.array_full]
  · simp
  · simp only [List.length_append]; omega

end Returns

/-- **What `getPacketBytes` returns**: the two headers, then the payload. -/
theorem getPacketBytes_ok {p p' : PacketV4} {bytes : Bytes} (hsz : p.Sized)
    (h : Java.exec getPacketBytes p = (.ok bytes, p')) :
    ∃ header segment, bytes = header ++ segment ∧ header.length = p.mIPV4Header.getHeaderLength ∧
      OnesComplement.sum header = 0xFFFF ∧
      OnesComplement.sum (pseudoHeader p.mIPV4Header.mSourceAddress p.mIPV4Header.mDestAddress
        p.mTransmissionProtocol.getProtocolNumber segment.length ++ segment) = 0xFFFF := by
  obtain ⟨k, header, h', p₁, th, p₂, hk, hh, hc, hth, hbytes⟩ := getPacketBytes_inv h
  obtain ⟨hhl, hhs⟩ := IPV4Header.getHeader_verifies hsz.header hh
  obtain ⟨htl, hts⟩ := TransmissionProtocol.getHeader_verifies hsz.protocol hsz.header.source
    hsz.header.dest hc hth
  obtain rfl : k = th.length := Except.ok.inj (hk.symm.trans htl)
  exact ⟨header, th ++ p.data.getD [], hbytes hhl rfl, hhl, hhs, hts⟩

/-- **Emitted checksums verify.** After any calls on a packet's header objects that leave
its fields well sized, the datagram that `getPacketBytes` returns sums to `0xFFFF` over its
IP header, and over the pseudo-header and its transport segment. -/
theorem getPacketBytes_verifies (p : PacketV4) (calls : List PacketCall) {bytes : Bytes} {p' : PacketV4}
    (hsz : (calls.foldl call p).Sized)
    (h : Java.exec getPacketBytes (calls.foldl call p) = (.ok bytes, p')) :
    let q := calls.foldl call p
    let segment := bytes.drop q.mIPV4Header.getHeaderLength
    OnesComplement.sum (bytes.take q.mIPV4Header.getHeaderLength) = 0xFFFF ∧
      OnesComplement.sum (pseudoHeader q.mIPV4Header.mSourceAddress q.mIPV4Header.mDestAddress
        q.mTransmissionProtocol.getProtocolNumber segment.length ++ segment) = 0xFFFF := by
  obtain ⟨header, segment, rfl, hl, h1, h2⟩ := getPacketBytes_ok hsz h
  simp only [← hl, List.take_left, List.drop_left]
  exact ⟨h1, h2⟩

/-- A UDP packet with an odd payload, serialised, given another destination and TTL, and
serialised again. -/
theorem getPacketBytes_verifies_resent :
    let header : IPV4Header :=
      { mSourceAddress := [10, 0, 0, 1], mDestAddress := [8, 8, 8, 8], mIdentification := some [0, 7],
        mFlag := 2, mTimeToLive := 20, mProtocol := 17 }
    let p : PacketV4 := ⟨header, .udp { mSourcePort := [0, 53], mDestPort := [200, 1] }, some [1, 2, 3]⟩
    let q := [PacketCall.getPacketBytes, .setDestAddress [9, 9, 9, 9], .setTimeToLive 5].foldl call p
    ∃ bytes p', Java.exec getPacketBytes q = (.ok bytes, p') ∧
      OnesComplement.sum (bytes.take 20) = 0xFFFF ∧
      OnesComplement.sum (pseudoHeader [10, 0, 0, 1] [9, 9, 9, 9] 17 11 ++ bytes.drop 20) = 0xFFFF := by
  intro header p q
  have hid : q.mIPV4Header.mIdentification = some [0, 7] := by decide +kernel
  have hop : q.mIPV4Header.mOptions = none := by decide +kernel
  have hpn : q.mTransmissionProtocol.getProtocolNumber = 17 := by decide +kernel
  have hsp : q.mTransmissionProtocol.getSourcePort = [0, 53] := by decide +kernel
  have hdp : q.mTransmissionProtocol.getDestPort = [200, 1] := by decide +kernel
  have hsz : q.Sized := by
    refine ⟨⟨by decide +kernel, by decide +kernel, ?_, ?_⟩, ?_⟩
    · intro id h; rw [hid] at h; cases h; rfl
    · intro o h; rw [hop] at h; cases h
    · cases hp : q.mTransmissionProtocol with
      | tcp t => rw [hp] at hpn; cases hpn
      | udp u =>
        rw [hp] at hsp hdp
        exact ⟨congrArg List.length hsp, congrArg List.length hdp⟩
  rcases h : Java.exec getPacketBytes q with ⟨r, p'⟩
  have hr : r.toOption.map List.length = some 31 := by
    rw [show r = (Java.exec getPacketBytes q).1 by rw [h]]; decide +kernel
  cases r with
  | error e => cases hr
  | ok bytes =>
    have hl : bytes.length = 31 := by simpa [Except.toOption] using hr
    obtain ⟨h1, h2⟩ := getPacketBytes_verifies p
      [PacketCall.getPacketBytes, .setDestAddress [9, 9, 9, 9], .setTimeToLive 5] hsz h
    have hhl : q.mIPV4Header.getHeaderLength = 20 := by decide +kernel
    have hsrc : q.mIPV4Header.mSourceAddress = [10, 0, 0, 1] := by decide +kernel
    have hdst : q.mIPV4Header.mDestAddress = [9, 9, 9, 9] := by decide +kernel
    have hlen : (bytes.drop 20).length = 11 := by simp [hl]
    change OnesComplement.sum (bytes.take q.mIPV4Header.getHeaderLength) = 0xFFFF at h1
    change OnesComplement.sum (pseudoHeader q.mIPV4Header.mSourceAddress q.mIPV4Header.mDestAddress
      q.mTransmissionProtocol.getProtocolNumber (bytes.drop q.mIPV4Header.getHeaderLength).length ++
        bytes.drop q.mIPV4Header.getHeaderLength) = 0xFFFF at h2
    rw [hhl] at h1
    rw [hhl, hsrc, hdst, hpn, hlen] at h2
    exact ⟨bytes, p', rfl, h1, h2⟩

/-! ## The checksum of a UDP datagram -/

/-- **The checksum field of an emitted UDP datagram** is zero iff the words it is computed of add up to a
multiple of `0xFFFF`. -/
theorem udpChecksum_iff {p p' : PacketV4} {u : UDP} {bytes : Bytes} (hsz : p.Sized)
    (hudp : p.mTransmissionProtocol = .udp u) (h : Java.exec getPacketBytes p = (.ok bytes, p')) :
    (bytes.drop (p.mIPV4Header.getHeaderLength + 6)).take 2 ≠ [0, 0] ↔
      ¬ 0xFFFF ∣ (OnesComplement.words
        (u.summed p.mIPV4Header.mSourceAddress p.mIPV4Header.mDestAddress p.data)).sum := by
  obtain ⟨k, header, h', p₁, th, p₂, hk, hh, hc, hth, hbytes⟩ := getPacketBytes_inv h
  obtain ⟨hhl, -⟩ := IPV4Header.getHeader_verifies hsz.header hh
  have hu : u.Sized := by
    have := hsz.protocol
    rwa [hudp] at this
  rw [hudp] at hk hc
  simp only [TransmissionProtocol.calculateChecksum, TransmissionProtocol.exec_dispatch_udp, Prod.mk.injEq] at hc
  obtain ⟨hok, rfl⟩ := hc
  simp only [TransmissionProtocol.getHeader, TransmissionProtocol.exec_dispatch_udp, Prod.mk.injEq] at hth
  obtain ⟨hhead, rfl⟩ := hth
  obtain ⟨x, y, rfl, hpre, hval⟩ := UDP.getHeader_emits hu hsz.header.source hsz.header.dest
    (Prod.ext hok rfl) (Prod.ext hhead rfl)
  obtain rfl : 8 = k := Except.ok.inj hk
  -- the checksum is at the end of the UDP header
  have hfield : (bytes.drop (p.mIPV4Header.getHeaderLength + 6)).take 2 = [x, y] := by
    rw [hbytes hhl (by rw [List.length_append, hpre]; rfl), ← List.drop_drop, ← hhl, List.drop_left,
      List.append_assoc, ← hpre, List.drop_left]
    rfl
  have hle : OnesComplement.sum (u.summed p.mIPV4Header.mSourceAddress p.mIPV4Header.mDestAddress p.data) ≤ 0xFFFF :=
    OnesComplement.rep_le _
  have hzero : ([x, y] : Bytes) = [0, 0] ↔ x.toNat * 256 + y.toNat = 0 := by
    constructor
    · rintro ⟨⟩
      rfl
    · intro hsum
      have hx : x = 0 := BitVec.eq_of_toNat_eq (by simp; omega)
      have hy : y = 0 := BitVec.eq_of_toNat_eq (by simp; omega)
      rw [hx, hy]
  have hpos := UDP.summed_pos u p.data hsz.header.source hsz.header.dest
  rw [hfield, not_iff_not, hzero, hval, ← OnesComplement.rep_eq_max_iff hpos]
  unfold OnesComplement.sum at *
  omega

/-- A DNS answer to 8.8.8.8 with a two-byte payload. -/
def dnsAnswer (payload : Bytes) : PacketV4 where
  mIPV4Header :=
    { mSourceAddress := [10, 0, 0, 1], mDestAddress := [8, 8, 8, 8], mIdentification := some [0, 7],
      mFlag := 2, mTimeToLive := 20, mProtocol := 17 }
  mTransmissionProtocol := .udp { mSourcePort := [0, 53], mDestPort := [0xC0, 1] }
  data := some payload

theorem dnsAnswer_sized (payload : Bytes) : (dnsAnswer payload).Sized := by
  refine ⟨⟨rfl, rfl, ?_, ?_⟩, ⟨rfl, rfl⟩⟩
  · rintro id ⟨⟩
    rfl
  · intro o ho
    cases ho

/-- The payload 1, 2 gives a checksum that is not zero. -/
theorem dnsAnswer_checksum : ∃ bytes p', Java.exec getPacketBytes (dnsAnswer [1, 2]) = (.ok bytes, p') ∧
    (bytes.drop 26).take 2 ≠ [0, 0] := by
  rcases h : Java.exec getPacketBytes (dnsAnswer [1, 2]) with ⟨r, p'⟩
  have hr : r.toOption.isSome = true := by
    rw [show r = (Java.exec getPacketBytes (dnsAnswer [1, 2])).1 by rw [h]]
    decide +kernel
  cases r with
  | error e => cases hr
  | ok bytes =>
    refine ⟨bytes, p', rfl, ?_⟩
    exact (udpChecksum_iff (dnsAnswer_sized [1, 2]) rfl h).2 (by decide +kernel)

/-- The payload `25 93` (hexadecimal) brings the sum to `0xFFFF`: the checksum is sent as zero. -/
theorem dnsAnswer_zeroChecksum : (dnsAnswer [0x25, 0x93]).Sized ∧
    ∃ bytes, (Java.exec getPacketBytes (dnsAnswer [0x25, 0x93])).1.toOption = some bytes ∧
      (bytes.drop ((dnsAnswer [0x25, 0x93]).mIPV4Header.getHeaderLength + 6)).take 2 = [0, 0] := by
  refine ⟨dnsAnswer_sized _, ?_⟩
  have hfield : ((Java.exec getPacketBytes (dnsAnswer [0x25, 0x93])).1.toOption.map fun bytes =>
      (bytes.drop ((dnsAnswer [0x25, 0x93]).mIPV4Header.getHeaderLength + 6)).take 2) = some [0, 0] := by
    decide +kernel
  exact Option.map_eq_some_iff.1 hfield

end PacketV4

end SmartTunnel
