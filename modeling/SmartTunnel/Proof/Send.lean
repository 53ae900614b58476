import SmartTunnel.Proof.Queue

/-!
# What sending to the client does

`makeAndSend_exec`: a packet is made from the controller's numbers, and either it is too
large and nothing but the identification counter moves, or it is handed to the client,
kept if it has a payload, and `mRemoteSeqNumber` moves past it (`sent`). Every sender is
`makeAndSend` between assignments, so what sending keeps is said once (`SendStable`).
-/

namespace SmartTunnel

open Jvm ByteUtil

namespace TCPController

/-- The packet that an effect hands to the client. -/
def handedPacket : Effect → Option PacketV4
  | .onPacketReadyForClient packet => some packet
  | _ => none

theorem handedPacket_eq_some {e : Effect} {packet : PacketV4} :
    handedPacket e = some packet ↔ e = .onPacketReadyForClient packet := by
  cases e <;> simp [handedPacket]

/-- The IP header of the next packet. -/
def nextHeader (c : TCPController) : IPV4Header where
  mSourceAddress := c.mInitialHeader.mDestAddress
  mDestAddress := c.mInitialHeader.mSourceAddress
  mFlag := c.mInitialHeader.mFlag
  mIdentification := some (getByteFromInt (c.mIpIdentification.signExtend 32) 2)
  mProtocol := TCP.PROTOCOL_NUMBER
  mTimeToLive := 60
  mFragmentOffset := c.mInitialHeader.mFragmentOffset
  mTypeOfService := c.mInitialHeader.mTypeOfService

/-- The next packet. -/
def nextPacket (c : TCPController) (data : Option Bytes) (flag : TCPFlag) (option : Option TCPOption) :
    PacketV4 where
  mIPV4Header := c.nextHeader
  mTransmissionProtocol := .tcp (c.makeTcp flag option)
  data := data

/-- How far a packet moves `mRemoteSeqNumber`. -/
def advance (flag : TCPFlag) (data : Option Bytes) : BitVec 32 :=
  if flag.SYN = 1 ∨ flag.FIN = 1 then 1 else BitVec.ofNat 32 ((data.map List.length).getD 0)

/-- The controller when the identification of a packet was taken. -/
def identified (c : TCPController) : TCPController := { c with mIpIdentification := c.mIpIdentification + 1 }

/-- The controller after a packet was sent. -/
def sent (c : TCPController) (data : Option Bytes) (flag : TCPFlag) (option : Option TCPOption) :
    TCPController :=
  { c with
    mIpIdentification := c.mIpIdentification + 1
    mClientPackets := c.mClientPackets ++ (if data.isSome then [{
      mPacket := some (c.nextPacket data flag option)
      sequenceNumber := c.mRemoteSeqNumber
      nextSequenceNumber := c.mRemoteSeqNumber + advance flag data
      acknowledgeNumber := c.mClientNexSeqNumber }] else [])
    mRemoteSeqNumber := c.mRemoteSeqNumber + advance flag data
    log := c.log ++ [.onPacketReadyForClient (c.nextPacket data flag option)] }

theorem create_eq {header : IPV4Header} {protocol : TransmissionProtocol} {data : Option Bytes} {p : PacketV4}
    (h : PacketV4.create header protocol data = .ok p) : p = ⟨header, protocol, data⟩ := by
  simp only [PacketV4.create, bind, Except.bind, pure, Except.pure] at h
  split at h
  · cases h
  · split at h
    · cases h
    · exact (Except.ok.inj h).symm

variable {data : Option Bytes} {flag : TCPFlag} {option : Option TCPOption}

@[simp] theorem makeTcp_mFlag (c : TCPController) : (c.makeTcp flag option).mFlag = some flag := rfl

@[simp] theorem makeTcp_seq (c : TCPController) :
    (c.makeTcp flag option).getSequenceNumberIntValue = .ok c.mRemoteSeqNumber :=
  getIntValue_getByteFromInt c.mRemoteSeqNumber

@[simp] theorem makeTcp_ack (c : TCPController) :
    (c.makeTcp flag option).getAcknowledgmentNumberIntValue = .ok c.mClientNexSeqNumber :=
  getIntValue_getByteFromInt c.mClientNexSeqNumber

theorem nextSeqNumber_nextPacket (c : TCPController) :
    nextSeqNumber (c.nextPacket data flag option) = .ok (c.mRemoteSeqNumber + advance flag data) := by
  simp only [nextSeqNumber, nextPacket, makeTcp_mFlag, makeTcp_seq, deref_some, bind, Except.bind, advance,
    PacketV4.dataLength]
  split <;> rfl

theorem makeTcpPacket_exec (data : Option Bytes) (flag : TCPFlag) (option : Option TCPOption)
    (c : TCPController) :
    Java.exec (makeTcpPacket data flag option) c =
      match PacketV4.create c.nextHeader (.tcp (c.makeTcp flag option)) data with
      | .error e => (.error e, c.identified)
      | .ok _ => (.ok (c.nextPacket data flag option), c.identified) := by
  have hhdr : Java.exec generateHeader c = (.ok c.nextHeader, c.identified) := rfl
  simp only [makeTcpPacket, create, Java.exec_bind, Java.exec_get, hhdr, Java.exec_lift]
  cases hc : PacketV4.create c.nextHeader (.tcp (c.makeTcp flag option)) data with
  | error e => rfl
  | ok p =>
    obtain rfl : p = c.nextPacket data flag option := create_eq hc
    rfl

/-- The controller after `sendToLocal`; `next` is the number after the packet. -/
def handed (c : TCPController) (packet : PacketV4) (next : BitVec 32) : TCPController :=
  { c with
    mClientPackets := c.mClientPackets ++ (if packet.data.isSome then [{
      mPacket := some packet
      sequenceNumber := c.mRemoteSeqNumber
      nextSequenceNumber := next
      acknowledgeNumber := c.mClientNexSeqNumber }] else [])
    mRemoteSeqNumber := next
    log := c.log ++ [.onPacketReadyForClient packet] }

theorem sendToLocal_exec {packet : PacketV4} {next : BitVec 32} (hnext : nextSeqNumber packet = .ok next)
    (c : TCPController) : Java.exec (sendToLocal packet) c = (.ok (), c.handed packet next) := by
  simp only [sendToLocal, Java.exec_bind, Java.exec_lift, hnext, Java.exec_ite]
  by_cases hd : packet.data.isSome
  · simp only [hd, if_true, Java.exec_modify, emit, handed]
  · simp only [hd, if_false, Java.exec_modify, emit, handed, List.append_nil, Bool.false_eq_true]

/-- **A packet is sent, or is too large and is not.** -/
theorem makeAndSend_exec (data : Option Bytes) (flag : TCPFlag) (option : Option TCPOption)
    (c : TCPController) :
    Java.exec (makeAndSend data flag option) c =
      match PacketV4.create c.nextHeader (.tcp (c.makeTcp flag option)) data with
      | .error e => (.error e, c.identified)
      | .ok _ => (.ok (), c.sent data flag option) := by
  simp only [makeAndSend, Java.exec_bind, makeTcpPacket_exec]
  cases PacketV4.create c.nextHeader (.tcp (c.makeTcp flag option)) data with
  | error e => rfl
  | ok p => exact sendToLocal_exec (nextSeqNumber_nextPacket c) c.identified

/-- Sending keeps what its two outcomes keep. -/
theorem makeAndSend_keeps {I : TCPController → Prop} {data : Option Bytes} {flag : TCPFlag}
    {option : Option TCPOption} (hid : ∀ c, I c → I c.identified)
    (hsent : ∀ c, I c → I (c.sent data flag option)) : Java.Keeps I (makeAndSend data flag option) := by
  intro c hc
  rw [makeAndSend_exec]
  cases PacketV4.create c.nextHeader (.tcp (c.makeTcp flag option)) data with
  | error e => exact hid c hc
  | ok p => exact hsent c hc

/-! ## Properties that no sender changes -/

/-- `I` does not depend on what sending, closing and the end of the processor change. -/
structure SendStable (I : TCPController → Prop) : Prop where
  identified : ∀ c, I c → I c.identified
  sent : ∀ c data flag option, I c → I (c.sent data flag option)
  state : ∀ c state, I c → I { c with mState := state }
  remoteSeq : ∀ c seq, I c → I { c with mRemoteSeqNumber := seq }
  ended : ∀ c, I c → I { c with processorEnded := true }
  terminated : ∀ c, I c → I { c with log := c.log ++ [.onTermination] }

namespace SendStable

variable {I : TCPController → Prop} (h : SendStable I)

include h

theorem makeAndSend (data : Option Bytes) (flag : TCPFlag) (option : Option TCPOption) :
    Java.Keeps I (makeAndSend data flag option) :=
  makeAndSend_keeps h.identified fun c hc => h.sent c data flag option hc

theorem sendACKToClient (option : Option TCPOption) : Java.Keeps I (sendACKToClient option) :=
  h.makeAndSend _ _ _

theorem setState (state : State) : Java.Keeps I (setState state) :=
  Java.Keeps.modify fun c hc => h.state c state hc

theorem sendClosing (flag : TCPFlag) : Java.Keeps I (sendClosing flag) := by
  refine Java.Keeps.bind Java.Keeps.get fun c => ?_
  cases c.lastData with
  | none => exact h.makeAndSend _ _ _
  | some data => exact h.makeAndSend _ _ _

theorem sendFINPacket : Java.Keeps I sendFINPacket :=
  Java.Keeps.bind Java.Keeps.get fun _ =>
    Java.Keeps.bind (h.setState _) fun _ => h.sendClosing _

theorem handshake : Java.Keeps I handshake :=
  Java.Keeps.bind (h.setState _) fun _ => h.makeAndSend _ _ _

theorem sendKeepAlivePacket : Java.Keeps I sendKeepAlivePacket :=
  Java.Keeps.bind (Java.Keeps.modify fun c hc => h.remoteSeq c _ hc) fun _ => h.makeAndSend _ _ _

theorem sendDataToClient (data : Bytes) (push : Bool) : Java.Keeps I (sendDataToClient data push) :=
  h.makeAndSend _ _ _

theorem terminate : Java.Keeps I terminate :=
  Java.Keeps.bind (h.sendClosing _) fun _ => Java.Keeps.modify h.ended

theorem onTermination : Java.Keeps I onTermination :=
  Java.Keeps.bind (Java.Keeps.modify h.terminated) fun _ => h.terminate

theorem sendSacks (sacks : List SACK) : Java.Keeps I (sendSacks sacks) :=
  Java.Keeps.bind (Java.Keeps.lift _) fun _ => h.sendACKToClient _

end SendStable

/-! ## A client -/

/-- What `new TCPController` makes of a SYN. -/
theorem new_ok {header : IPV4Header} {tcp : TCP} {random : BitVec 32} {ident : BitVec 16}
    {c : TCPController} (h : TCPController.new header tcp random ident = .ok c) :
    ∃ isn window maxSegmentSize, tcp.getSequenceNumberIntValue = .ok isn ∧ tcp.getWindowSize = .ok window ∧
      c = {
        mInitialHeader := header
        mInitialTCP := tcp
        mIpIdentification := ident
        mClientSeqNumber := isn
        mClientNexSeqNumber := isn + 1
        mRemoteSeqNumber := random
        mMaxSegmentSize := maxSegmentSize
        mClientWindowSize := window
        mClientWindowSizeScale :=
          if (tcp.mTCPOption.map TCPOption.windowScale).getD 0 ≠ 0 then
            1 <<< (((tcp.mTCPOption.map TCPOption.windowScale).getD 0).toNat % 32)
          else 0 } := by
  simp only [TCPController.new, bind, Except.bind, pure, Except.pure] at h
  rcases hseq : tcp.getSequenceNumberIntValue with e | isn
  · rw [hseq] at h; cases h
  · rw [hseq] at h
    simp only at h
    rcases hw : tcp.getWindowSize with e | window
    · rw [hw] at h; cases h
    rw [hw] at h
    simp only at h
    split at h
    · exact ⟨isn, window, 0, rfl, rfl, (Except.ok.inj h).symm⟩
    · split at h
      · cases h
      · exact ⟨isn, window, _, rfl, rfl, (Except.ok.inj h).symm⟩

/-- A controller before its first segment. -/
theorem new_eq {header : IPV4Header} {tcp : TCP} {random : BitVec 32} {ident : BitVec 16}
    {c : TCPController} (h : TCPController.new header tcp random ident = .ok c) :
    ∃ isn, tcp.getSequenceNumberIntValue = .ok isn ∧ c.mClientNexSeqNumber = isn + 1 ∧
      c.mRemotePacketQueue = [] ∧ c.log = [] ∧ c.mRemoteSeqNumber = random ∧ c.mClientPackets = [] := by
  obtain ⟨isn, window, maxSegmentSize, hseq, -, rfl⟩ := new_ok h
  exact ⟨isn, hseq, rfl, rfl, rfl, rfl, rfl⟩

/-- The IP header of a SYN from `10.0.0.2` to `93.184.216.34`. -/
def clientHeader : IPV4Header where
  mSourceAddress := [10, 0, 0, 2]
  mDestAddress := [93, 184, 216, 34]
  mProtocol := TCP.PROTOCOL_NUMBER

/-- A SYN to port 80. -/
def clientSyn (isn : BitVec 32) : TCP where
  mSourcePort := [200, 0]
  mDestPort := [0, 80]
  mSequenceNumber := some (getByteFromInt isn 4)
  mFlag := some { SYN := 1 }
  mWindowSize := some [255, 255]

/-- The controller of that SYN. -/
def accepting (isn random : BitVec 32) : TCPController where
  mInitialHeader := clientHeader
  mInitialTCP := clientSyn isn
  mIpIdentification := 1
  mClientSeqNumber := isn
  mClientNexSeqNumber := isn + 1
  mRemoteSeqNumber := random
  mClientWindowSize := 65535

theorem clientSyn_sequenceNumber (isn : BitVec 32) : (clientSyn isn).getSequenceNumberIntValue = .ok isn :=
  getIntValue_getByteFromInt isn

theorem new_clientSyn (isn random : BitVec 32) :
    new clientHeader (clientSyn isn) random 1 = .ok (accepting isn random) := by
  have hw : (clientSyn isn).getWindowSize = .ok 65535 := by
    change (clientSyn 0).getWindowSize = .ok 65535
    decide +kernel
  simp only [new, clientSyn_sequenceNumber, hw, bind, Except.bind]
  rfl

end TCPController

end SmartTunnel
