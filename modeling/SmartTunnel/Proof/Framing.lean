import SmartTunnel.Model.DNSForwarder
import SmartTunnel.Proof.Flows

/-!
# The framing of DNS over TCP

`tcpData_eq`: a query is written behind its length. The answer is what one call returned
less two bytes, so it is the server's message exactly if the call returned the length and
the message and nothing else (`answers_iff`); `DNSChannel` also has to fit it into a packet, and `DNSForwarder` reads
no more than 560 bytes.
-/

namespace SmartTunnel

open Jvm ByteUtil

/-- A message behind its length in two bytes. -/
def framed (m : Bytes) : Bytes := [BitVec.ofNat 8 (m.length / 256), BitVec.ofNat 8 (m.length % 256)] ++ m

/-- A message that two bytes can measure. -/
structure DnsMessage where
  bytes : Bytes
  pos : 0 < bytes.length
  fits : bytes.length < 65536

variable {m query rest : Bytes} {s : InputStream}

theorem framed_length (m : Bytes) : (framed m).length = m.length + 2 := by
  simp [framed]

theorem drop_framed (m : Bytes) : (framed m).drop 2 = m := rfl

theorem tcpData_eq (h : query.length < 65536) : tcpData query = .ok (framed query) := by
  have hnat : (BitVec.ofNat 32 query.length).toNat = query.length := by
    rw [BitVec.toNat_ofNat]
    omega
  have hlength : getByteFromInt (BitVec.ofNat 32 query.length) 2 =
      [BitVec.ofNat 8 (query.length / 256), BitVec.ofNat 8 (query.length % 256)] := by
    apply getByteFromInt_two
    rw [hnat, BitVec.toNat_ofNat, BitVec.toNat_ofNat]
    omega
  simp only [tcpData, hlength, ArrayUtil.replace, bind, Except.bind]
  rw [if_neg (by simp)]
  simp only [List.take_zero, List.nil_append, List.length_cons, List.length_nil, List.drop_replicate]
  rw [if_neg (by simp; omega)]
  simp [framed]
  omega

/-- What a call returned, less two bytes. -/
theorem payload_eq_iff (hs : s.content = framed m ++ rest) {size : ℕ} (hk : 2 ≤ s.taken size) :
    (s.content.take (s.taken size)).drop 2 = m ↔ s.taken size = m.length + 2 := by
  constructor
  · intro h
    -- what was read is as long as the message behind its length
    have hlen := congrArg List.length h
    rw [List.length_drop, InputStream.length_take_taken] at hlen
    omega
  · intro h
    rw [h, hs, ← framed_length, List.take_left, drop_framed]

theorem content_ne_nil (hs : s.content = framed m ++ rest) : s.content ≠ [] := by
  rw [hs]
  exact List.cons_ne_nil _ _

/-- The start of an array that a call filled. -/
theorem copyOfRange_filled (bytes zeros : Bytes) : copyOfRange (bytes ++ zeros) 0 bytes.length = .ok bytes := by
  have h := copyOfRange_slice (a := bytes ++ zeros) (Nat.zero_le bytes.length) (by simp)
  simpa using h

theorem copyOfRange_two (bytes zeros : Bytes) :
    copyOfRange (bytes ++ zeros) 2 bytes.length =
      if bytes.length < 2 then .error .illegalArgument else .ok (bytes.drop 2) := by
  split_ifs with hlt
  · unfold copyOfRange
    rw [if_pos (by omega)]
  · have h := copyOfRange_slice (a := bytes ++ zeros) (i := 2) (j := bytes.length) (by omega) (by simp)
    rw [Nat.cast_ofNat] at h
    rw [h, List.drop_append_of_le_length (by omega), List.take_append_of_le_length (by simp)]
    simp

/-! ## The forwarders -/

/-- The bytes of a datagram. -/
def DatagramPacket.payload (packet : DatagramPacket) : Bytes := packet.data.take packet.length

namespace Forwarder

/-- **What a forwarder writes, and what it sends.** -/
theorem run_exec {packet : DatagramPacket} {size : ℕ} (hsize : 0 < size) (hq : packet.payload.length < 65536)
    (hs : s.content ≠ []) :
    let f := (Java.exec (run size) { mPacket := packet, dnsIn := s }).2
    f.dnsOut = [framed packet.payload] ∧
      f.mSocket = if s.taken size < 2 then [] else [(s.content.take (s.taken size)).drop 2] := by
  have hdata : copyOfRange packet.data 0 packet.length = .ok packet.payload := by
    have h := copyOfRange_slice (Nat.zero_le packet.length) packet.within
    simpa [DatagramPacket.payload] using h
  have hpos : 0 < s.taken size := InputStream.taken_pos hsize hs
  set bytes := s.content.take (s.taken size) with hbytes
  have hlen : bytes.length = s.taken size := InputStream.length_take_taken size s
  have htwo : copyOfRange bytes 2 bytes.length =
      if bytes.length < 2 then .error .illegalArgument else .ok (bytes.drop 2) := by
    have h := copyOfRange_two bytes []
    rwa [List.append_nil] at h
  simp only [run, Java.exec_bind, Java.exec_get, Java.exec_lift, hdata, tcpData_eq hq, Java.exec_modify,
    Java.exec_onField, InputStream.read_exec hsize hs, ← hbytes]
  rw [← hlen] at hpos ⊢
  simp only [if_pos hpos, Java.exec_bind, Java.exec_lift, copyOfRange_filled, htwo]
  -- behind one byte `copyOfRange` raises, and nothing is sent
  by_cases hshort : bytes.length < 2
  · simp only [if_pos hshort, List.nil_append, and_self]
  · simp only [if_neg hshort, send, Java.exec_modify, List.nil_append, and_self]

/-- The query was written behind its length, and the client got the message. -/
structure Answers (f : Forwarder) (query m : Bytes) : Prop where
  written : f.dnsOut = [framed query]
  delivered : f.mSocket = [m]

theorem answers_iff {packet : DatagramPacket} {size : ℕ} (hsize : 0 < size)
    (hq : packet.payload.length < 65536) (hm : 0 < m.length) (hs : s.content = framed m ++ rest) :
    Answers (Java.exec (run size) { mPacket := packet, dnsIn := s }).2 packet.payload m ↔
      s.taken size = m.length + 2 := by
  obtain ⟨hout, hsocket⟩ := run_exec hsize hq (content_ne_nil hs)
  constructor
  · intro h
    have hdelivered := hsocket.symm.trans h.delivered
    split_ifs at hdelivered with hshort
    exact (payload_eq_iff hs (by omega)).1 (List.singleton_inj.1 hdelivered)
  · intro h
    refine ⟨hout, ?_⟩
    rw [hsocket, if_neg (by omega), (payload_eq_iff hs (by omega)).2 h]

end Forwarder

/-! ## The channel -/

namespace DNSChannel

/-- The packet in which the channel hands `data` to the client. -/
def answer (c : DNSChannel) (data : Bytes) : PacketV4 where
  mIPV4Header := generateHeader c.mInitialPacket c.channel.mRemoteAddress c.channel.mLocalAddress (8 + data.length)
  mTransmissionProtocol := .udp { mSourcePort := c.channel.mRemotePort, mDestPort := c.channel.mLocalPort }
  data := some data

theorem sendDataToClient_exec (data : Bytes) (c : DNSChannel) :
    (Java.exec (sendDataToClient data) c).2 =
      if data.length + 28 ≤ MAX_SIZE then { c with sentToLocal := c.sentToLocal ++ [c.answer data] } else c := by
  have hcreate : makeUDPPacket c.mInitialPacket data c.channel.mRemoteAddress c.channel.mLocalAddress
      c.channel.mRemotePort c.channel.mLocalPort =
        if data.length + 28 ≤ MAX_SIZE then .ok (c.answer data) else .error .illegalArgument := by
    have hlen : (generateHeader c.mInitialPacket c.channel.mRemoteAddress c.channel.mLocalAddress
        (8 + data.length)).getHeaderLength = 20 := rfl
    simp only [makeUDPPacket, PacketV4.create, TransmissionProtocol.getHeaderLength, UDP.getHeaderLength, hlen,
      bind, Except.bind, pure, Except.pure, Option.map_some, Option.getD_some]
    by_cases hfits : data.length + 28 ≤ MAX_SIZE
    · rw [if_neg (by omega), if_pos hfits]
      rfl
    · rw [if_pos (by omega), if_neg hfits]
      rfl
  simp only [sendDataToClient, Java.exec_bind, Java.exec_get, Java.exec_lift, hcreate]
  split_ifs
  · rfl
  · rfl

/-- **What the channel writes, and what it hands to the client.** -/
theorem run_eq {c : DNSChannel} (hc : c.mInitialPacket.data = some query) (hout : c.mRemoteOut = [])
    (hsent : c.sentToLocal = []) (hq : query.length < 65536) (hs : c.mRemoteIn.content ≠ []) :
    let k := c.mRemoteIn.taken MAX_SIZE
    let bytes := c.mRemoteIn.content.take k
    c.run.mRemoteOut = [framed query] ∧
      c.run.sentToLocal = if 2 ≤ k ∧ k + 26 ≤ MAX_SIZE then [c.answer (bytes.drop 2)] else [] := by
  intro k bytes
  have hsize : 0 < MAX_SIZE := by decide
  have hpos : 0 < k := InputStream.taken_pos hsize hs
  have hlen : bytes.length = k := InputStream.length_take_taken MAX_SIZE c.mRemoteIn
  simp only [run, runConnected, Java.exec_bind, Java.exec_get, hc, Java.exec_lift, tcpData_eq hq,
    Java.exec_modify, Java.exec_onField, InputStream.read_exec hsize hs]
  rw [show c.mRemoteIn.content.take (c.mRemoteIn.taken MAX_SIZE) = bytes from rfl]
  rw [← hlen] at hpos ⊢
  simp only [if_pos hpos, Java.exec_bind, Java.exec_lift, copyOfRange_two]
  by_cases hshort : bytes.length < 2
  · simp only [if_pos hshort, hout, hsent, List.nil_append]
    rw [if_neg (by omega)]
    exact ⟨trivial, rfl⟩
  · simp only [if_neg hshort, sendDataToClient_exec, List.length_drop, hout, hsent, List.nil_append]
    by_cases hfits : bytes.length + 26 ≤ MAX_SIZE
    · rw [if_pos (by omega), if_pos (by omega)]
      exact ⟨rfl, rfl⟩
    · rw [if_neg (by omega), if_neg (by omega)]
      exact ⟨rfl, rfl⟩

/-- The query was written behind its length, and the client got the message in one datagram. -/
structure Answers (c : DNSChannel) (query m : Bytes) : Prop where
  written : c.mRemoteOut = [framed query]
  delivered : ∃ packet, c.sentToLocal = [packet] ∧ packet.isUDP = true ∧ packet.data = some m

theorem answers_iff {c : DNSChannel} (hc : c.mInitialPacket.data = some query) (hout : c.mRemoteOut = [])
    (hsent : c.sentToLocal = []) (hq : query.length < 65536) (hm : 0 < m.length)
    (hs : c.mRemoteIn.content = framed m ++ rest) :
    Answers c.run query m ↔ c.mRemoteIn.taken MAX_SIZE = m.length + 2 ∧ m.length + 28 ≤ MAX_SIZE := by
  obtain ⟨hwritten, hdelivered⟩ := run_eq hc hout hsent hq (content_ne_nil hs)
  constructor
  · rintro ⟨-, packet, hpacket, -, hdata⟩
    have heq := hdelivered.symm.trans hpacket
    split_ifs at heq with hk
    obtain rfl := List.singleton_inj.1 heq
    have htaken := (payload_eq_iff hs hk.1).1 (Option.some.inj hdata)
    exact ⟨htaken, by omega⟩
  · rintro ⟨htaken, hfits⟩
    refine ⟨hwritten, c.answer m, ?_, rfl, rfl⟩
    rw [hdelivered, if_pos (by omega), (payload_eq_iff hs (by omega)).2 htaken]

end DNSChannel

/-- **An answer arrives whole exactly if one call returns its length and the message, and
nothing else.** -/
theorem dns_answers_iff (packet : DatagramPacket) (hp : packet.payload.length < 65536) (channel : Channel)
    (initial : PacketV4) (query : Bytes) (hi : initial.data = some query) (hq : query.length < 65536)
    (m : DnsMessage) (rest : Bytes) (s : InputStream) (hs : s.content = framed m.bytes ++ rest) :
    ((DynamicDNSForwarder.run packet s).Answers packet.payload m.bytes ↔ s.taken 2048 = m.bytes.length + 2) ∧
      ((DNSChannel.mk channel initial s [] []).run.Answers query m.bytes ↔
        s.taken MAX_SIZE = m.bytes.length + 2 ∧ m.bytes.length + 28 ≤ MAX_SIZE) :=
  ⟨Forwarder.answers_iff (by decide) hp m.pos hs, DNSChannel.answers_iff hi rfl rfl hq m.pos hs⟩

/-- **The other forwarder reads 560 bytes**, with its own condition: no message of more than 558 bytes arrives, however
the stream is cut. -/
theorem DNSForwarder.answers_iff (packet : DatagramPacket) (hp : packet.payload.length < 65536) (m : DnsMessage)
    (hs : s.content = framed m.bytes ++ rest) :
    ((DNSForwarder.run packet s).Answers packet.payload m.bytes ↔ s.taken 560 = m.bytes.length + 2) ∧
      ((DNSForwarder.run packet s).Answers packet.payload m.bytes → m.bytes.length ≤ 558) := by
  have hiff : (DNSForwarder.run packet s).Answers packet.payload m.bytes ↔ s.taken 560 = m.bytes.length + 2 :=
    Forwarder.answers_iff (by decide) hp m.pos hs
  refine ⟨hiff, fun h => ?_⟩
  have htaken := hiff.1 h
  have hle := InputStream.taken_le 560 s
  omega

/-- A query for `a.` and the answer to it. -/
def queryBytes : Bytes := [0, 7, 1, 0, 0, 1, 0, 0, 0, 0, 0, 0, 1, 97, 0, 0, 1, 0, 1]

def answerBytes : DnsMessage where
  bytes := [0, 7, 129, 128, 0, 1, 0, 0, 0, 0, 0, 0, 1, 97, 0, 0, 1, 0, 1]
  pos := by decide
  fits := by decide

/-- The query as the packet manager hands it to a channel. -/
def queryPacket : PacketV4 := { SshChannelManager.datagramTo [0, 53] with data := some queryBytes }

def queryChannel : Channel := SshChannelManager.newChannel 0 .DNSChannel "" queryPacket

theorem whole_answer_delivered :
    let s : InputStream := { pieces := [framed answerBytes.bytes], nonempty := by decide }
    (DynamicDNSForwarder.run (.ofData queryBytes) s).Answers queryBytes answerBytes.bytes ∧
      (DNSChannel.mk queryChannel queryPacket s [] []).run.Answers queryBytes answerBytes.bytes := by
  intro s
  have h := dns_answers_iff (.ofData queryBytes) (by decide) queryChannel queryPacket queryBytes rfl (by decide)
    answerBytes [] s (by decide)
  exact ⟨h.1.2 (by decide), h.2.2 (by decide)⟩

/-- The length of an answer arrives before the answer: the client gets an empty datagram. -/
theorem split_answer_not_delivered :
    let s : InputStream := { pieces := [[0, 19], answerBytes.bytes], nonempty := by decide }
    s.content = framed answerBytes.bytes ∧
      ¬ (DynamicDNSForwarder.run (.ofData queryBytes) s).Answers queryBytes answerBytes.bytes ∧
      ¬ (DNSChannel.mk queryChannel queryPacket s [] []).run.Answers queryBytes answerBytes.bytes := by
  intro s
  refine ⟨by decide, ?_, ?_⟩
  · rintro ⟨-, hdelivered⟩
    exact absurd hdelivered (by decide +kernel)
  · rintro ⟨-, packet, hpacket, -, hdata⟩
    have hsent : (DNSChannel.mk queryChannel queryPacket s [] []).run.sentToLocal.map PacketV4.data = [some []] := by
      decide +kernel
    rw [hpacket, List.map_singleton, hdata] at hsent
    exact absurd hsent (by decide)

end SmartTunnel
