import SmartTunnel.Model.ChannelV4TCP
import SmartTunnel.Proof.Download

/-!
# How a connection is closed

Packets are in order (`Follows`) when nothing comes after a RST, and after a FIN neither payload
behind it nor another FIN. While no RST was sent, the FIN is the packet just before
`mRemoteSeqNumber` and the state is one that does not send again (`Live`); with the RST the packet
processor ends (`Reset`). The threads of the channel do not know of each other's endings:
`closing_disciplined` holds in the runs whose calls are clean (`ClosesCleanly`).
-/

namespace SmartTunnel

open Jvm

namespace TCPController

/-! ## What the client sees -/

/-- The packets handed to the client, oldest first. -/
def packets (log : List Effect) : List PacketV4 := log.filterMap handedPacket

def flagOf (packet : PacketV4) : Option TCPFlag :=
  match packet.mTransmissionProtocol with
  | .tcp tcp => tcp.mFlag
  | .udp _ => none

def finOf (packet : PacketV4) : Bool := (flagOf packet).any fun flag => flag.FIN = 1

def rstOf (packet : PacketV4) : Bool := (flagOf packet).any fun flag => flag.RST = 1

/-- Every byte of `q` is at a number up to the one of the FIN, which is behind the payload of `p`. -/
def NotBehind (p q : PacketV4) : Prop :=
  ∀ i < (bytesOf q).length, ∃ a b, sequenceOf p = some a ∧ sequenceOf q = some b ∧
    (b + BitVec.ofNat 32 i - a).toInt ≤ (bytesOf p).length

/-- The packet `q` may be sent after `p`. -/
structure Follows (p q : PacketV4) : Prop where
  rst : rstOf p = false
  payload : finOf p = true → NotBehind p q
  fin : finOf p = true → finOf q = true → sequenceOf q = sequenceOf p

/-- **The closing discipline.** -/
def Disciplined (log : List Effect) : Prop := (packets log).Pairwise Follows

def NoFin (c : TCPController) : Prop := ∀ p ∈ packets c.log, finOf p = false

def NoReset (c : TCPController) : Prop := ∀ p ∈ packets c.log, rstOf p = false

/-- The payload that a RST would carry again is no longer than that of the FIN. -/
def Fits (c : TCPController) : Prop :=
  ∀ p ∈ packets c.log, finOf p = true → c.lastPayload.length ≤ (bytesOf p).length

/-- The packet processor answers the segment with a RST: it has one, or it acknowledges the FIN. -/
def Resets (c : TCPController) (pk : Segment) : Prop :=
  pk.flag.RST = 1 ∧ (pk.sequenceNumber = c.mClientNexSeqNumber ∨ pk.data = none) ∨
    c.mState = .LAST_ACK ∧ pk.sequenceNumber = c.mClientNexSeqNumber ∧ pk.data = none ∧ pk.flag.PSH ≠ 1 ∧
      pk.flag.ACK = 1 ∧ pk.flag.FIN = 0 ∧ pk.flag.RST = 0

/-- What the controller asks of its callers. After a FIN there is no chunk and no second FIN, and
a RST carries no more than the FIN did; after a RST there is nothing; and no segment in sequence
asks for both endings. -/
def ClosesCleanly (c : TCPController) : Event → Prop
  | .connected => NoFin c ∧ NoReset c
  | .client pk => c.processorEnded = false → ¬ (pk.flag.SYN = 1 ∧ pk.flag.ACK = 0) → (Resets c pk → Fits c) ∧
      (pk.sequenceNumber = c.mClientNexSeqNumber → ¬ (pk.flag.RST = 1 ∧ pk.flag.FIN = 1))
  | .poll => True
  | .packetFromRemote _ _ => NoFin c ∧ NoReset c
  | .tick => NoReset c
  | .close => NoFin c ∧ NoReset c
  | .remoteClosed => NoFin c ∧ NoReset c
  | .terminate => NoReset c ∧ Fits c

instance (c : TCPController) : Decidable (NoFin c) :=
  inferInstanceAs (Decidable (∀ p ∈ packets c.log, finOf p = false))

instance (c : TCPController) : Decidable (NoReset c) :=
  inferInstanceAs (Decidable (∀ p ∈ packets c.log, rstOf p = false))

instance (c : TCPController) : Decidable (Fits c) :=
  inferInstanceAs (Decidable (∀ p ∈ packets c.log, finOf p = true → c.lastPayload.length ≤ (bytesOf p).length))

instance (c : TCPController) (pk : Segment) : Decidable (Resets c pk) :=
  inferInstanceAs (Decidable (_ ∨ _))

instance ClosesCleanly.decidable (c : TCPController) : ∀ e, Decidable (ClosesCleanly c e)
  | .client _ => inferInstanceAs (Decidable (_ → _ → _ ∧ _))
  | .poll => inferInstanceAs (Decidable True)
  | .tick => inferInstanceAs (Decidable (NoReset c))
  | .connected | .packetFromRemote _ _ | .close | .remoteClosed | .terminate => inferInstanceAs (Decidable (_ ∧ _))

section Packets

variable {c : TCPController} {data : Option Bytes} {flag : TCPFlag} {option : Option TCPOption}

@[simp] theorem packets_append (log log' : List Effect) : packets (log ++ log') = packets log ++ packets log' :=
  List.filterMap_append

@[simp] theorem packets_sent : packets (c.sent data flag option).log =
    packets c.log ++ [c.nextPacket data flag option] := packets_append _ _

theorem packets_emit {e : Effect} (he : ∀ packet, e ≠ .onPacketReadyForClient packet) (log : List Effect) :
    packets (log ++ [e]) = packets log := by
  have hnone : handedPacket e = none := by
    rw [Option.eq_none_iff_forall_ne_some]
    intro packet hpacket
    exact he packet (handedPacket_eq_some.1 hpacket)
  rw [packets_append, packets, packets, List.filterMap_cons_none hnone, List.filterMap_nil, List.append_nil]

theorem packets_resent (lost : List PacketV4) : packets (lost.map .onPacketReadyForClient) = lost := by
  induction lost with
  | nil => rfl
  | cons p lost ih =>
    change p :: packets (lost.map .onPacketReadyForClient) = p :: lost
    rw [ih]

@[simp] theorem finOf_nextPacket : finOf (c.nextPacket data flag option) = decide (flag.FIN = 1) := rfl

@[simp] theorem rstOf_nextPacket : rstOf (c.nextPacket data flag option) = decide (flag.RST = 1) := rfl

@[simp] theorem bytesOf_nextPacket : bytesOf (c.nextPacket data flag option) = data.getD [] := rfl

/-- Anything may follow a packet without FIN and RST. -/
theorem follows_of_plain {p q : PacketV4} (hfin : finOf p = false) (hrst : rstOf p = false) : Follows p q := by
  refine ⟨hrst, fun h => ?_, fun h => ?_⟩
  · rw [hfin] at h
    cases h
  · rw [hfin] at h
    cases h

theorem toInt_ofNat_le (n : ℕ) : (BitVec.ofNat 32 n).toInt ≤ n := by
  have hm : (BitVec.ofNat 32 n).toNat ≤ n := by
    rw [BitVec.toNat_ofNat]
    exact Nat.mod_le _ _
  have ht := BitVec.toInt_eq_toNat_cond (BitVec.ofNat 32 n)
  split at ht <;> omega

end Packets

/-! ## Before a RST -/

/-- A state after which no FIN is sent by the packet processor and nothing is sent again. -/
def State.Closes (state : State) : Prop := state ≠ .LISTEN ∧ state ≠ .SYN_RECEIVED ∧ state ≠ .ESTABLISHED

theorem State.closes_FIN_WAIT_2 : State.Closes .FIN_WAIT_2 := ⟨by decide, by decide, by decide⟩

theorem State.closes_TIME_WAIT : State.Closes .TIME_WAIT := ⟨by decide, by decide, by decide⟩

/-- The packets are in order, and those that are kept were sent. -/
structure Ordered (c : TCPController) : Prop where
  disciplined : Disciplined c.log
  noReset : NoReset c
  kept : ∀ w ∈ c.mClientPackets, ∀ p, w.mPacket = some p → p ∈ packets c.log

structure Live (c : TCPController) : Prop extends Ordered c where
  fin : ∀ p ∈ packets c.log, finOf p = true → State.Closes c.mState ∧ sequenceOf p = some (c.mRemoteSeqNumber - 1)

/-- A RST was sent. -/
structure Reset (c : TCPController) : Prop where
  disciplined : Disciplined c.log
  reset : ¬ NoReset c
  ended : c.processorEnded = true

def Closing (c : TCPController) : Prop := Live c ∨ Reset c

section Invariant

variable {c c' : TCPController} {data : Option Bytes} {flag : TCPFlag} {option : Option TCPOption} {pk : Segment}
  {T : Prop}

theorem Closing.disciplined (h : Closing c) : Disciplined c.log := by
  rcases h with h | h
  · exact h.disciplined
  · exact h.disciplined

/-- No FIN was sent while the connection is open. -/
theorem Live.noFin (h : Live c) (hstate : ¬ State.Closes c.mState) : NoFin c := by
  intro p hp
  cases hf : finOf p with
  | false => rfl
  | true => exact absurd (h.fin p hp hf).1 hstate

/-- Fields that the order of the packets does not depend on. -/
theorem Ordered.congr (h : Ordered c) (hlog : packets c'.log = packets c.log)
    (hkept : ∀ w ∈ c'.mClientPackets, w ∈ c.mClientPackets) : Ordered c' where
  disciplined := by
    rw [Disciplined, hlog]
    exact h.disciplined
  noReset := by
    rw [NoReset, hlog]
    exact h.noReset
  kept := by
    rw [hlog]
    intro w hw p hp
    exact h.kept w (hkept w hw) p hp

theorem Live.congr (h : Live c) (hlog : packets c'.log = packets c.log)
    (hkept : ∀ w ∈ c'.mClientPackets, w ∈ c.mClientPackets) (hseq : c'.mRemoteSeqNumber = c.mRemoteSeqNumber)
    (hstate : NoFin c ∨ State.Closes c'.mState) : Live c' := by
  refine ⟨h.toOrdered.congr hlog hkept, ?_⟩
  rw [hlog, hseq]
  intro p hp hf
  refine ⟨?_, (h.fin p hp hf).2⟩
  rcases hstate with hnone | hclosed
  · rw [hnone p hp] at hf
    cases hf
  · exact hclosed

/-- Nothing that the invariant reads has changed. -/
theorem Live.same (h : Live c) (hlog : packets c'.log = packets c.log) (hkept : c'.mClientPackets = c.mClientPackets)
    (hseq : c'.mRemoteSeqNumber = c.mRemoteSeqNumber) (hstate : c'.mState = c.mState) : Live c' := by
  refine ⟨h.toOrdered.congr hlog fun w hw => hkept ▸ hw, ?_⟩
  rw [hlog, hseq, hstate]
  exact h.fin

/-- **A packet without RST is sent.** -/
theorem Ordered.sent (h : Ordered c) (hrst : flag.RST ≠ 1)
    (hfollows : ∀ p ∈ packets c.log, Follows p (c.nextPacket data flag option))
    (hold : ∀ p ∈ packets c.log, finOf p = true →
      State.Closes c.mState ∧ sequenceOf p = some (c.mRemoteSeqNumber + advance flag data - 1))
    (hnew : flag.FIN = 1 → State.Closes c.mState) : Live (c.sent data flag option) := by
  refine ⟨⟨?_, ?_, ?_⟩, ?_⟩
  · rw [Disciplined, packets_sent]
    refine List.pairwise_append.2 ⟨h.disciplined, List.pairwise_singleton _ _, ?_⟩
    intro p hp q hq
    obtain rfl := List.mem_singleton.1 hq
    exact hfollows p hp
  · rw [NoReset, packets_sent]
    intro p hp
    rcases List.mem_append.1 hp with hp | hp
    · exact h.noReset p hp
    · obtain rfl := List.mem_singleton.1 hp
      simpa using hrst
  · -- a packet with payload is kept, and is the one just sent
    rw [packets_sent]
    intro w hw p hp
    rcases List.mem_append.1 hw with hw | hw
    · exact List.mem_append_left _ (h.kept w hw p hp)
    · split at hw
      · obtain rfl := List.mem_singleton.1 hw
        obtain rfl := Option.some.inj hp
        exact List.mem_append_right _ (List.mem_singleton_self _)
      · cases hw
  · rw [packets_sent]
    intro p hp hf
    rcases List.mem_append.1 hp with hp | hp
    · exact hold p hp hf
    · obtain rfl := List.mem_singleton.1 hp
      have hfin : flag.FIN = 1 := by simpa using hf
      refine ⟨hnew hfin, ?_⟩
      change _ = some (c.mRemoteSeqNumber + advance flag data - 1)
      rw [sequenceOf_nextPacket, advance, if_pos (.inr hfin), BitVec.add_sub_cancel]

/-- A packet before the first FIN, or that FIN. -/
theorem Live.sentFresh (h : Live c) (hnone : NoFin c) (hrst : flag.RST ≠ 1)
    (hnew : flag.FIN = 1 → State.Closes c.mState) : Live (c.sent data flag option) := by
  refine h.toOrdered.sent hrst ?_ ?_ hnew
  · intro p hp
    exact follows_of_plain (hnone p hp) (h.noReset p hp)
  · intro p hp hf
    rw [hnone p hp] at hf
    cases hf

/-- A packet without payload, SYN, FIN and RST. -/
theorem Live.sentQuiet (h : Live c) (hsyn : flag.SYN ≠ 1) (hfin : flag.FIN ≠ 1) (hrst : flag.RST ≠ 1) :
    Live (c.sent none flag option) := by
  have hadv : c.mRemoteSeqNumber + advance flag none = c.mRemoteSeqNumber := by
    rw [advance, if_neg (not_or.2 ⟨hsyn, hfin⟩)]
    exact BitVec.add_zero _
  refine h.toOrdered.sent hrst ?_ ?_ fun hf => absurd hf hfin
  · intro p hp
    refine ⟨h.noReset p hp, fun _ i hi => ?_, fun _ hf => ?_⟩
    · cases hi
    · exact absurd (by simpa using hf) hfin
  · intro p hp hf
    rw [hadv]
    exact h.fin p hp hf

theorem makeAndSend_live (hid : Live c) (hsent : Live (c.sent data flag option)) :
    Live (Java.exec (makeAndSend data flag option) c).2 := by
  rw [makeAndSend_exec]
  cases PacketV4.create c.nextHeader (.tcp (c.makeTcp flag option)) data with
  | error e => exact hid.same rfl rfl rfl rfl
  | ok p => exact hsent

theorem Live.handshake (h : Live c) (hnone : NoFin c) : Live (Java.exec TCPController.handshake c).2 := by
  have hstate : Live { c with mState := .SYN_RECEIVED } := h.congr rfl (fun w hw => hw) rfl (.inl hnone)
  simp only [TCPController.handshake, setState, Java.exec_bind, Java.exec_modify]
  exact makeAndSend_live hstate (hstate.sentFresh hnone (by decide) fun hf => absurd hf (by decide))

theorem Live.sendDataToClient (h : Live c) (hnone : NoFin c) (data : Bytes) (push : Bool) :
    Live (Java.exec (TCPController.sendDataToClient data push) c).2 := by
  refine makeAndSend_live h (h.sentFresh hnone ?_ fun hf => absurd hf ?_)
  · cases push <;> decide
  · cases push <;> decide

/-- The byte of a keep-alive is at the number of the FIN or before. -/
theorem Live.sendKeepAlivePacket (h : Live c) : Live (Java.exec TCPController.sendKeepAlivePacket c).2 := by
  set c₁ : TCPController := { c with mRemoteSeqNumber := c.mRemoteSeqNumber - 1 } with hc₁
  have h₁ : Ordered c₁ := h.toOrdered.congr rfl fun w hw => hw
  -- the byte takes the number back to where it was
  have hadv : c₁.mRemoteSeqNumber + advance TCPFlag.ACKOnly (some [0]) = c.mRemoteSeqNumber :=
    BitVec.sub_add_cancel _ _
  change Live (Java.exec (makeAndSend (some [0]) TCPFlag.ACKOnly none) c₁).2
  rw [makeAndSend_exec]
  cases hcreate : PacketV4.create c₁.nextHeader (.tcp (c₁.makeTcp TCPFlag.ACKOnly none)) (some [0]) with
  | error e =>
    -- one byte always fits
    rw [create_fits c₁ (some [0]) (by decide) TCPFlag.ACKOnly] at hcreate
    cases hcreate
  | ok p =>
    refine h₁.sent (by decide) ?_ ?_ fun hf => absurd hf (by decide)
    · intro p hp
      refine ⟨h.noReset p hp, fun hf i hi => ?_, fun _ hf => nomatch hf⟩
      obtain rfl : i = 0 := by simpa using hi
      refine ⟨_, _, (h.fin p hp hf).2, sequenceOf_nextPacket _ _ _, ?_⟩
      simp [hc₁]
    · intro p hp hf
      rw [hadv]
      exact h.fin p hp hf

theorem Live.sendFINPacket (h : Live c) (hnone : NoFin c) : Live (Java.exec TCPController.sendFINPacket c).2 := by
  simp only [TCPController.sendFINPacket, Java.exec_bind, Java.exec_get, setState, Java.exec_modify]
  set c₁ : TCPController := { c with mState := if c.mState = .ESTABLISHED then .FIN_WAIT_1 else .LAST_ACK }
    with hc₁
  have hcloses : State.Closes c₁.mState := by
    rw [hc₁]
    simp only [State.Closes]
    split <;> decide
  have h₁ : Live c₁ := h.congr rfl (fun w hw => hw) rfl (.inr hcloses)
  obtain ⟨data, flag, -, -, -, hrst, hexec⟩ := sendClosing_exec c₁ TCPFlag.FIN_ACK
  rw [hexec]
  exact makeAndSend_live h₁ (h₁.sentFresh hnone (by rw [hrst]; decide) fun _ => hcloses)

/-! ## The RST -/

/-- **A RST ends the connection**, when it carries no more than the FIN did. -/
theorem Live.terminate (h : Live c) (hfits : Fits c) : Closing (Java.exec TCPController.terminate c).2 := by
  obtain ⟨data, flag, hdata, -, hfin, hrst, hexec⟩ := sendClosing_exec c TCPFlag.RST_ACK
  rw [TCPController.terminate, sendCloseConnectionToClient, Java.exec_bind, hexec, makeAndSend_exec]
  cases PacketV4.create c.nextHeader (.tcp (c.makeTcp flag none)) data with
  | error e => exact .inl (h.same rfl rfl rfl rfl)
  | ok p =>
    refine .inr ⟨?_, ?_, rfl⟩
    · change Disciplined (c.sent data flag none).log
      rw [Disciplined, packets_sent]
      refine List.pairwise_append.2 ⟨h.disciplined, List.pairwise_singleton _ _, ?_⟩
      intro p hp q hq
      obtain rfl := List.mem_singleton.1 hq
      refine ⟨h.noReset p hp, fun hf i hi => ?_, fun _ hf => ?_⟩
      · -- byte `i` of the RST is `i + 1` numbers behind the start of the FIN
        refine ⟨_, _, (h.fin p hp hf).2, sequenceOf_nextPacket _ _ _, ?_⟩
        rw [bytesOf_nextPacket, hdata] at hi
        have hle := hfits p hp hf
        have hoffset : c.mRemoteSeqNumber + BitVec.ofNat 32 i - (c.mRemoteSeqNumber - 1) = BitVec.ofNat 32 (i + 1) := by
          rw [BitVec.ofNat_add]
          bv_omega
        have := toInt_ofNat_le (i + 1)
        rw [hoffset]
        push_cast at this ⊢
        omega
      · rw [finOf_nextPacket, hfin] at hf
        exact absurd hf (by decide)
    · intro hnone
      have := hnone (c.nextPacket data flag none) (by
        change _ ∈ packets (c.sent data flag none).log
        simp)
      rw [rstOf_nextPacket, hrst] at this
      exact absurd this (by decide)

theorem Live.emit (h : Live c) {e : Effect} (he : ∀ packet, e ≠ .onPacketReadyForClient packet) :
    Live { c with log := c.log ++ [e] } := h.same (packets_emit he c.log) rfl rfl rfl

theorem Live.onTermination (h : Live c) (hfits : Fits c) : Closing (Java.exec TCPController.onTermination c).2 := by
  have hlog : packets (c.log ++ [.onTermination]) = packets c.log := packets_emit (by simp) c.log
  have h₁ : Live { c with log := c.log ++ [.onTermination] } := h.emit (by simp)
  refine h₁.terminate ?_
  intro p hp
  rw [hlog] at hp
  exact hfits p hp

/-! ## The client's segments -/

/-- The packets are in order, and if `T` a RST may be sent. -/
structure Ready (T : Prop) (c : TCPController) : Prop extends Live c where
  fits : T → Fits c

theorem Ready.same (h : Ready T c) (hlog : packets c'.log = packets c.log)
    (hkept : c'.mClientPackets = c.mClientPackets) (hseq : c'.mRemoteSeqNumber = c.mRemoteSeqNumber)
    (hstate : c'.mState = c.mState) : Ready T c' := by
  refine ⟨h.toLive.same hlog hkept hseq hstate, fun ht => ?_⟩
  rw [Fits, hlog, lastPayload, lastData, hkept]
  exact h.fits ht

theorem sendACKToClient_ready (option : Option TCPOption) : Java.Keeps (Ready T) (sendACKToClient option) := by
  refine makeAndSend_keeps (fun c h => h.same rfl rfl rfl rfl) fun c h => ?_
  refine ⟨h.toLive.sentQuiet (by decide) (by decide) (by decide), fun ht => ?_⟩
  have hlast : (c.sent none TCPFlag.ACKOnly option).lastPayload = c.lastPayload := by
    simp only [lastPayload, lastData, sent, Option.isSome_none, Bool.false_eq_true, if_false, List.append_nil]
  rw [Fits, packets_sent, hlast]
  intro p hp hf
  rcases List.mem_append.1 hp with hp | hp
  · exact h.fits ht p hp hf
  · obtain rfl := List.mem_singleton.1 hp
    cases hf

theorem putToQueue_ready (w : TCPPacketWrapper Segment) : Java.Keeps (Ready T) (putToQueue w) := by
  intro c h
  rw [putToQueue_exec]
  exact h.same (packets_emit (by simp) c.log) rfl rfl rfl

theorem updateClientSeqNumber_ready (pk : Segment) : Java.Keeps (Ready T) (updateClientSeqNumber pk) := by
  intro c h
  rw [updateClientSeqNumber_exec]
  exact h.same rfl rfl rfl rfl

theorem queueInSequence_ready (pk : Segment) (push : Bool) : Java.Keeps (Ready T) (queueInSequence pk push) :=
  Java.Keeps.bind (putToQueue_ready _) fun _ => updateClientSeqNumber_ready pk

theorem acceptSynAck_ready (pk : Segment) : Java.Keeps (Ready T) (acceptSynAck pk) :=
  Java.Keeps.bind (updateClientSeqNumber_ready pk) fun _ => sendACKToClient_ready _

theorem sendSacks_ready (sacks : List SACK) : Java.Keeps (Ready T) (sendSacks sacks) :=
  Java.Keeps.bind (Java.Keeps.lift _) fun _ => sendACKToClient_ready _

theorem Ready.outOfSequence (h : Ready T c) (ht : pk.flag.RST = 1 → pk.data = none → T) :
    Closing (Java.exec (TCPController.outOfSequence pk) c).2 := by
  by_cases hrst : pk.data = none ∧ pk.flag.RST = 1
  · obtain ⟨hd, hset⟩ := hrst
    simp only [TCPController.outOfSequence, Java.exec_bind, Java.exec_get, hd, if_pos hset]
    exact h.toLive.onTermination (h.fits (ht hset hd))
  · have hkeeps : Java.Keeps (Ready T) (TCPController.outOfSequence pk) :=
      outOfSequence_keeps (fun hd hset => absurd ⟨hd, hset⟩ hrst) sendSacks_ready (putToQueue_ready _)
    exact .inl (hkeeps c h).toLive

/-- Packets are sent again only while the connection is established, so before the FIN. -/
theorem Live.resend (h : Live c) (hnone : NoFin c) {lost : List PacketV4}
    (hkept : ∀ p ∈ lost, ∃ w ∈ c.mClientPackets, w.mPacket = some p) :
    Live { c with log := c.log ++ lost.map .onPacketReadyForClient } := by
  have hlog : packets (c.log ++ lost.map .onPacketReadyForClient) = packets c.log ++ lost := by
    rw [packets_append, packets_resent]
  have hmem : ∀ p ∈ packets (c.log ++ lost.map .onPacketReadyForClient), p ∈ packets c.log := by
    rw [hlog]
    intro p hp
    rcases List.mem_append.1 hp with hp | hp
    · exact hp
    · obtain ⟨w, hw, hpk⟩ := hkept p hp
      exact h.kept w hw p hpk
  -- no packet in the log has FIN or RST, so any order of them will do
  refine ⟨⟨?_, fun p hp => h.noReset p (hmem p hp), ?_⟩, fun p hp hf => h.fin p (hmem p hp) hf⟩
  · refine List.pairwise_of_forall_mem_list fun p hp q _ => ?_
    exact follows_of_plain (hnone p (hmem p hp)) (h.noReset p (hmem p hp))
  · intro w hw p hp
    rw [hlog]
    exact List.mem_append_left _ (h.kept w hw p hp)

theorem Ready.acknowledge (h : Ready T c) (ht : c.mState = .LAST_ACK → T) :
    Closing (Java.exec (TCPController.acknowledge pk) c).2 := by
  have hcases := acknowledge_cases c pk
  generalize (Java.exec (TCPController.acknowledge pk) c).2 = c' at hcases ⊢
  cases hcases with
  | removed hstate _ =>
    refine .inl (h.toLive.congr rfl ?_ rfl (.inl (h.noFin (by simp [State.Closes, hstate]))))
    intro w hw
    simp only [removeAcknowledgedPackets, Java.exec_modify] at hw
    split at hw
    · exact List.mem_of_mem_drop hw
    · exact hw
  | resent lost hstate _ hlost =>
    exact .inl (h.toLive.resend (h.noFin (by simp [State.Closes, hstate])) (resent_kept hlost))
  | finAcknowledged _ => exact .inl (h.toLive.congr rfl (fun w hw => hw) rfl (.inr State.closes_FIN_WAIT_2))
  | terminated hstate => exact h.toLive.onTermination (h.fits (ht hstate))
  | established hstate =>
    have hnone : NoFin c := h.noFin (by simp [State.Closes, hstate])
    have hemit : Live { c with log := c.log ++ [.onConnectionEstablished] } := h.toLive.emit (by simp)
    refine .inl (hemit.congr rfl (fun w hw => hw) rfl (.inl ?_))
    rw [NoFin, packets_emit (by simp)]
    exact hnone
  | ignored _ _ _ _ => exact .inl h.toLive

/-- Before the first FIN. -/
def Fresh (c : TCPController) : Prop := Live c ∧ NoFin c

theorem setState_fresh (state : State) : Java.Keeps Fresh (setState state) := by
  intro c h
  exact ⟨h.1.congr rfl (fun w hw => hw) rfl (.inl h.2), h.2⟩

theorem sendACKToClient_fresh (option : Option TCPOption) : Java.Keeps Fresh (sendACKToClient option) := by
  refine makeAndSend_keeps (fun c h => ⟨h.1.same rfl rfl rfl rfl, h.2⟩) fun c h => ?_
  refine ⟨h.1.sentQuiet (by decide) (by decide) (by decide), ?_⟩
  rw [NoFin, packets_sent]
  intro p hp
  rcases List.mem_append.1 hp with hp | hp
  · exact h.2 p hp
  · obtain rfl := List.mem_singleton.1 hp
    rfl

/-- **The client's FIN is answered** with an acknowledgment, and with the FIN of the controller if
the connection is established. -/
theorem Live.answerFin (h : Live c) : Live (Java.exec TCPController.answerFin c).2 := by
  rw [TCPController.answerFin, Java.exec_bind, Java.exec_get]
  simp only [Java.exec_ite]
  split
  · rename_i hstate
    have hfresh : Fresh c := ⟨h, h.noFin (by simp [State.Closes, hstate])⟩
    refine (setState_fresh .CLOSE_WAIT).leads (fun _ h => h.1) (fun _ => ?_) c hfresh
    refine (sendACKToClient_fresh none).leads (fun _ h => h.1) fun _ => ?_
    refine (setState_fresh .LAST_ACK).leads (fun _ h => h.1) fun _ c h => ?_
    exact h.1.sendFINPacket h.2
  · -- the FIN was sent before, or the connection was never established
    have hclosed : Ready False { c with mState := .TIME_WAIT } :=
      ⟨h.congr rfl (fun w hw => hw) rfl (.inr State.closes_TIME_WAIT), False.elim⟩
    exact (sendACKToClient_ready none _ hclosed).toLive

theorem Live.acceptFin (h : Live c) : Live (Java.exec (TCPController.acceptFin pk) c).2 := by
  rw [acceptFin_exec]
  apply Live.answerFin
  exact h.same (packets_emit (by simp) c.log) rfl rfl rfl

/-- A segment with FIN or RST in sequence has nothing acknowledged. -/
theorem takePayload_ready (hend : ¬ (pk.flag.ACK = 1 ∧ pk.flag.FIN = 0 ∧ pk.flag.RST = 0)) :
    Java.Keeps (Ready T) (takePayload pk) := by
  unfold takePayload
  rw [if_neg hend]
  exact Java.Keeps.ite (queueInSequence_ready pk true) (Java.Keeps.pure _)

theorem Ready.takePayload (h : Ready T c) (ht : c.mState = .LAST_ACK → pk.data = none → pk.flag.PSH ≠ 1 → T) :
    Closing (Java.exec (TCPController.takePayload pk) c).2 := by
  unfold TCPController.takePayload
  simp only [Java.exec_ite]
  split_ifs with hpsh hack hdata
  · exact .inl (queueInSequence_ready pk true c h).toLive
  · exact .inl (queueInSequence_ready pk false c h).toLive
  · exact h.acknowledge fun hstate => ht hstate (by simpa using hdata) hpsh
  · exact .inl h.toLive

/-- What follows the payload of a segment. -/
theorem Ready.takeEnd (h : Ready T c) (ht : pk.flag.RST = 1 → T) (hone : ¬ (pk.flag.RST = 1 ∧ pk.flag.FIN = 1)) :
    Closing (Java.exec (TCPController.takeEnd pk) c).2 := by
  unfold TCPController.takeEnd
  by_cases hrst : pk.flag.RST = 1
  · rw [if_pos hrst, if_neg fun hfin => hone ⟨hrst, hfin⟩]
    exact Java.Keeps.after (h.toLive.onTermination (h.fits (ht hrst))) fun _ => Java.Keeps.pure _
  · rw [if_neg hrst, pure_bind]
    by_cases hfin : pk.flag.FIN = 1
    · rw [if_pos hfin]
      exact .inl h.toLive.acceptFin
    · rw [if_neg hfin]
      exact .inl h.toLive

/-- **A segment in sequence keeps the discipline**, unless it asks for both endings. -/
theorem Ready.inSequence (h : Ready T c) (hone : ¬ (pk.flag.RST = 1 ∧ pk.flag.FIN = 1)) (hrst : pk.flag.RST = 1 → T)
    (hlast : c.mState = .LAST_ACK → pk.data = none → pk.flag.PSH ≠ 1 →
      pk.flag.ACK = 1 ∧ pk.flag.FIN = 0 ∧ pk.flag.RST = 0 → T) :
    Closing (Java.exec (TCPController.inSequence pk) c).2 := by
  -- the state is what it was: an answer to SYN and ACK only sends
  set I : TCPController → Prop := fun c₁ => Ready T c₁ ∧ c₁.mState = c.mState with hI
  have hsynack : Java.Keeps I (if pk.flag.SYN = 1 ∧ pk.flag.ACK = 1 then acceptSynAck pk else pure ()) := by
    refine Java.Keeps.ite ?_ (Java.Keeps.pure _)
    intro c₁ h₁
    refine ⟨acceptSynAck_ready pk c₁ h₁.1, ?_⟩
    have hstate : Java.Keeps (fun c₂ => c₂.mState = c.mState) (acceptSynAck pk) :=
      Java.Keeps.bind (Java.Keeps.modify fun c₂ h₂ => h₂) fun _ =>
        makeAndSend_keeps (fun c₂ h₂ => h₂) fun c₂ h₂ => h₂
    exact hstate c₁ h₁.2
  rw [inSequence_eq]
  refine hsynack.leads (fun c₁ h₁ => .inl h₁.1.toLive) (fun _ c₁ h₁ => ?_) c ⟨h, rfl⟩
  by_cases hends : pk.flag.ACK = 1 ∧ pk.flag.FIN = 0 ∧ pk.flag.RST = 0
  · -- neither RST nor FIN: the segment ends with its payload
    have hnone : TCPController.takeEnd pk = pure () := by
      simp only [TCPController.takeEnd, hends.2.1, hends.2.2]
      rfl
    rw [hnone]
    refine Java.Keeps.after (h₁.1.takePayload ?_) fun _ => Java.Keeps.pure _
    intro hstate hdata hpsh
    exact hlast (h₁.2.symm.trans hstate) hdata hpsh hends
  · -- with RST or FIN nothing is acknowledged, and the ending is still to come
    refine (takePayload_ready hends).leads (fun c₂ h₂ => .inl h₂.toLive) (fun _ c₂ h₂ => ?_) c₁ h₁.1
    exact h₂.takeEnd hrst hone

theorem Live.process (h : Live c) (hopen : c.processorEnded = false) (he : ClosesCleanly c (.client pk)) :
    Closing (Java.exec (TCPController.process pk) c).2 := by
  by_cases hsyn : pk.flag.SYN = 1 ∧ pk.flag.ACK = 0
  · rw [process_syn hsyn]
    exact .inl h
  rw [process_exec hsyn]
  obtain ⟨hresets, hone⟩ := he hopen hsyn
  have h₁ : Ready (Resets c pk) { c with mClientWindowSize := pk.windowSize } :=
    Ready.same ⟨h, hresets⟩ rfl rfl rfl rfl
  by_cases hseq : pk.sequenceNumber = c.mClientNexSeqNumber
  · rw [if_neg (not_not.2 hseq)]
    refine h₁.inSequence (hone hseq) (fun hrst => .inl ⟨hrst, .inl hseq⟩) ?_
    intro hstate hdata hpsh hends
    exact .inr ⟨hstate, hseq, hdata, hpsh, hends⟩
  · rw [if_pos hseq]
    exact h₁.outOfSequence fun hrst hdata => .inl ⟨hrst, .inr hdata⟩

/-- **A clean call keeps the discipline.** -/
theorem Closing.step (h : Closing c) {e : Event} (he : ClosesCleanly c e) : Closing (c.step e) := by
  rcases h with h | h
  · cases e with
    | connected => exact .inl (h.handshake he.1)
    | client pk =>
      refine packetFromClient_keeps ?_ c (fun _ => .inl h) fun hopen => ?_
      · rintro c₁ (h₁ | h₁)
        · exact .inl (h₁.same rfl rfl rfl rfl)
        · exact .inr ⟨h₁.disciplined, h₁.reset, rfl⟩
      · exact h.process hopen he
    | poll =>
      change Closing (pollQueue c)
      unfold pollQueue
      split
      · exact .inl h
      · exact .inl (h.same (packets_emit (by simp) c.log) rfl rfl rfl)
    | packetFromRemote data push => exact .inl (h.sendDataToClient he.1 data push)
    | tick => exact .inl h.sendKeepAlivePacket
    | close => exact .inl (h.sendFINPacket he.1)
    | remoteClosed => exact .inl (h.sendFINPacket he.1)
    | terminate => exact h.terminate he.2
  · -- after the RST only the packet processor and the queue are left
    cases e with
    | client pk =>
      refine .inr ?_
      rwa [TCPController.step, packetFromClient, if_pos h.ended]
    | poll =>
      change Closing (pollQueue c)
      unfold pollQueue
      split
      · exact .inr h
      · refine .inr ⟨?_, ?_, h.ended⟩
        · rw [Disciplined, packets_emit (by simp)]
          exact h.disciplined
        · rw [NoReset, packets_emit (by simp)]
          exact h.reset
    | connected => exact absurd he.2 h.reset
    | packetFromRemote data push => exact absurd he.2 h.reset
    | tick => exact absurd he h.reset
    | close => exact absurd he.2 h.reset
    | remoteClosed => exact absurd he.2 h.reset
    | terminate => exact absurd he.1 h.reset

theorem new_live {header : IPV4Header} {tcp : TCP} {random : BitVec 32} {ident : BitVec 16}
    (hnew : TCPController.new header tcp random ident = .ok c) : Live c := by
  obtain ⟨-, -, -, -, hlog, -, hkept⟩ := new_eq hnew
  have hnone : packets c.log = [] := by
    rw [hlog]
    rfl
  refine ⟨⟨?_, ?_, ?_⟩, ?_⟩
  · rw [Disciplined, hnone]
    exact List.Pairwise.nil
  · rw [NoReset, hnone]
    simp
  · rw [hkept]
    simp
  · rw [hnone]
    simp

end Invariant

end TCPController

/-! ## The channel -/

namespace ChannelV4TCP

open TCPController

/-- The calls of a step close cleanly. -/
def ClosesCleanly (s : ChannelV4TCP) (e : Event) : Prop :=
  Run.Always TCPController.step TCPController.ClosesCleanly s.mTCPController (s.calls e)

instance ClosesCleanly.decidable (s : ChannelV4TCP) (e : Event) : Decidable (s.ClosesCleanly e) :=
  inferInstanceAs (Decidable (Run.Always _ _ _ _))

theorem threads_mTCPController (s : ChannelV4TCP) (e : Event) : (s.threads e).mTCPController = s.mTCPController := by
  cases e <;> simp only [threads] <;> split_ifs <;> rfl

/-- The controller of the channel takes the calls. -/
theorem step_mTCPController (s : ChannelV4TCP) (e : Event) :
    (s.step e).mTCPController = Run.run TCPController.step s.mTCPController (s.calls e) := by
  change Run.run TCPController.step (s.threads e).mTCPController (s.calls e) = _
  rw [threads_mTCPController]

/-- **In every run of a channel whose calls close cleanly, the packets to the client are in order.** -/
theorem closing_disciplined {header : IPV4Header} {tcp : TCP} {random : BitVec 32} {ident : BitVec 16}
    {c : TCPController} (hnew : TCPController.new header tcp random ident = .ok c) (es : List Event)
    (hes : Run.Always step ClosesCleanly { mTCPController := c } es) :
    Run.Always step (fun s e => Disciplined (s.step e).mTCPController.log) { mTCPController := c } es := by
  refine Run.Always.of_invariant (I := fun s => Closing s.mTCPController) ?_ (.inl (new_live hnew)) hes
  intro s e h he
  have hnext : Closing (s.step e).mTCPController := by
    rw [step_mTCPController]
    exact Run.invariant_run (fun c e hc he => hc.step he) h he
  exact ⟨hnext.disciplined, hnext⟩

/-- A segment of the client after `isn` 1000 and, with `fin`, its end. -/
def clientSends (acknowledgmentNumber : BitVec 32) (fin : Byte) : Event :=
  .client { sequenceNumber := 1001, acknowledgmentNumber := acknowledgmentNumber, flag := { ACK := 1, FIN := fin } }

/-- The remote sends a byte and closes, the client closes, and the close timer runs out. -/
def remoteCloses : List Event :=
  [.connected, clientSends 5001 0, .chunk [72] true false, clientSends 5002 0, .endOfStream, .readerLeaves,
    clientSends 5003 0, clientSends 5003 1, .closeTimer]

theorem remoteCloses_disciplined :
    Run.Always step (fun s e => Disciplined (s.step e).mTCPController.log)
      { mTCPController := accepting 1000 5000 } remoteCloses ∧
    (packets (Run.run step { mTCPController := accepting 1000 5000 } remoteCloses).mTCPController.log).map
      (fun p => (finOf p, rstOf p)) =
      [(false, false), (false, false), (true, false), (false, false), (false, true)] :=
  ⟨closing_disciplined (new_clientSyn 1000 5000) remoteCloses (by decide +kernel), by decide +kernel⟩

/-- **The keep-alive that `terminate` cancels terminates again.** -/
theorem close_resets_twice : ¬ ∀ (isn random : BitVec 32) (es : List Event),
    Run.Always step (fun s e => Disciplined (s.step e).mTCPController.log)
      { mTCPController := accepting isn random } es := by
  intro h
  have hlast := (h 1000 5000 [.connected, clientSends 5001 0, .close, .onTimeOut]).2.2.2.1
  have hrst := (List.pairwise_iff_getElem.1 hlast 1 2 (by decide +kernel) (by decide +kernel) (by decide)).rst
  exact absurd hrst (by decide +kernel)

end ChannelV4TCP

end SmartTunnel
