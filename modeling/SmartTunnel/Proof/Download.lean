import SmartTunnel.Base.Run
import SmartTunnel.Base.Serial
import SmartTunnel.Proof.Process

/-!
# The bytes that reach the client

`R` is what the remote sent so far and `A` how much of it the client has acknowledged. The
packets that are kept for retransmission lie one after the other in `R` (`Kept`), and the last of
them ends where `R` does; so a packet that is sent, first or again, carries bytes of `R` at its place
or bytes the client has acknowledged (`Faithful`). `sent_faithful`: this holds in every run whose
steps are `Clear`.
-/

namespace SmartTunnel

open Jvm ByteUtil

namespace TCPController

/-! ## What is sent -/

/-- The sequence number of a TCP packet. -/
def sequenceOf (packet : PacketV4) : Option (BitVec 32) :=
  match packet.mTransmissionProtocol with
  | .tcp tcp => tcp.getSequenceNumberIntValue.toOption
  | .udp _ => none

/-- The payload of a packet. -/
def bytesOf (packet : PacketV4) : Bytes := packet.data.getD []

/-- Every byte at a position from `A` on is the byte of `R` there. Positions are counted from the
acknowledged one, which is at most `2 ^ 31` away. -/
def Faithful (isnr : BitVec 32) (R : Bytes) (A : ℕ) (packet : PacketV4) : Prop :=
  match sequenceOf packet with
  | none => False
  | some seq => ∀ i < (bytesOf packet).length,
    (seq + BitVec.ofNat 32 i - (isnr + 1 + BitVec.ofNat 32 A)).toNat < 2 ^ 31 →
      R[A + (seq + BitVec.ofNat 32 i - (isnr + 1 + BitVec.ofNat 32 A)).toNat]? = (bytesOf packet)[i]?

instance (isnr : BitVec 32) (R : Bytes) (A : ℕ) (packet : PacketV4) : Decidable (Faithful isnr R A packet) := by
  unfold Faithful
  cases sequenceOf packet <;> infer_instance

/-- The packet that an effect hands to the client, if any, is faithful. -/
def FaithfulEffect (isnr : BitVec 32) (R : Bytes) (A : ℕ) : Effect → Prop
  | .onPacketReadyForClient packet => Faithful isnr R A packet
  | _ => True

instance (isnr : BitVec 32) (R : Bytes) (A : ℕ) : DecidablePred (FaithfulEffect isnr R A) := by
  intro effect
  cases effect <;> unfold FaithfulEffect <;> infer_instance

/-- All the packets among the effects are faithful. -/
def AllFaithful (isnr : BitVec 32) (R : Bytes) (A : ℕ) (effects : List Effect) : Prop :=
  ∀ effect ∈ effects, FaithfulEffect isnr R A effect

/-- The payload of a packet kept for retransmission. -/
def keptBytes (w : TCPPacketWrapper PacketV4) : Bytes := (w.mPacket.map bytesOf).getD []

/-- The payload of all of them. -/
def buffered (ws : List (TCPPacketWrapper PacketV4)) : ℕ := (ws.map fun w => (keptBytes w).length).sum

/-- The payload that a FIN or a RST would carry. -/
def lastPayload (c : TCPController) : Bytes := (c.lastData.getD none).getD []

/-! ## Runs -/

/-- A controller with what the remote sent, what the client has acknowledged, and the FINs sent. -/
structure Transfer where
  controller : TCPController
  received : Bytes := []
  acknowledged : ℕ := 0
  fins : ℕ := 0

namespace Transfer

/-- The end of what was sent. -/
def sentEnd (s : Transfer) : ℕ := s.received.length + s.fins

/-- The sequence numbers in use. -/
def outstanding (s : Transfer) : ℕ := buffered s.controller.mClientPackets + s.fins

/-- The acknowledged position after an acknowledgment, which counts if it is of something sent. -/
def acknowledgedBy (isnr : BitVec 32) (s : Transfer) (acknowledgmentNumber : BitVec 32) : ℕ :=
  let position := s.acknowledged +
    (acknowledgmentNumber - (isnr + 1 + BitVec.ofNat 32 s.acknowledged)).toNat
  if position ≤ s.sentEnd then position else s.acknowledged

def step (isnr : BitVec 32) (s : Transfer) (e : Event) : Transfer where
  controller := s.controller.step e
  received := match e with
    | .packetFromRemote data _ => s.received ++ data
    | _ => s.received
  acknowledged := match e with
    | .client pk => s.acknowledgedBy isnr pk.acknowledgmentNumber
    | _ => s.acknowledged
  fins := match e with
    | .close => s.fins + 1
    | .remoteClosed => s.fins + 1
    | _ => s.fins

/-- What the step sends is faithful. -/
def SendsFaithful (isnr : BitVec 32) (s : Transfer) (e : Event) : Prop :=
  AllFaithful isnr (s.step isnr e).received (s.step isnr e).acknowledged
    ((s.step isnr e).controller.log.drop s.controller.log.length)

instance (isnr : BitVec 32) (s : Transfer) (e : Event) : Decidable (s.SendsFaithful isnr e) :=
  inferInstanceAs (Decidable (∀ effect ∈ _, _))

/-- The steps of a connection after its handshake; the client only acknowledges. -/
def Transfers : Event → Prop
  | .connected => False
  | .client pk => pk.Plain
  | _ => True

/-- What the code asks of a step. A chunk fits into a packet and does not follow a FIN; a keep-alive
byte repeats an acknowledged byte or a zero; a FIN and a RST have no payload to carry again. Less than
`2 ^ 31` sequence numbers are in use. -/
def Clear (s : Transfer) : Event → Prop
  | .packetFromRemote data _ => (data ≠ [] → s.fins = 0) ∧ data.length ≤ 32728 ∧
      s.outstanding + data.length < 2 ^ 31
  | .tick => (s.acknowledged = s.sentEnd ∨ (s.fins = 0 ∧ s.received.getLast? = some 0)) ∧
      s.outstanding + 1 < 2 ^ 31
  | .close => s.controller.lastPayload = [] ∧ s.outstanding + 1 < 2 ^ 31
  | .remoteClosed => s.controller.lastPayload = [] ∧ s.outstanding + 1 < 2 ^ 31
  | .terminate => s.controller.lastPayload = []
  | .client pk => s.controller.processorEnded = false →
      pk.sequenceNumber = s.controller.mClientNexSeqNumber → pk.data = none → pk.flag.PSH ≠ 1 →
      s.controller.mState = .LAST_ACK → s.controller.lastPayload = []
  | _ => True

instance (s : Transfer) : ∀ e, Decidable (s.Clear e)
  | .packetFromRemote _ _ | .tick | .close | .remoteClosed => inferInstanceAs (Decidable (_ ∧ _))
  | .terminate => inferInstanceAs (Decidable (_ = _))
  | .client _ => inferInstanceAs (Decidable (_ → _ → _ → _ → _ → _))
  | .connected | .poll => inferInstanceAs (Decidable True)

end Transfer

/-! ## The packets that are kept -/

/-- A packet kept at offset `q`: each byte is acknowledged or the byte of `R` there, and it ends
before the end `ν` of what was sent. -/
structure Kept (isnr : BitVec 32) (R : Bytes) (A ν : ℕ) (w : TCPPacketWrapper PacketV4) (q : ℤ) : Prop where
  packet : ∃ pk, w.mPacket = some pk ∧ sequenceOf pk = some (Serial.position (isnr + 1) q)
  bytes : ∀ (i : ℕ) b, (keptBytes w)[i]? = some b → q + i < A ∨ R[(q + i).toNat]? = some b
  next : ∃ e : ℤ, w.nextSequenceNumber = Serial.position (isnr + 1) e ∧ q + (keptBytes w).length ≤ e ∧ e ≤ ν

/-- Each packet is kept, and it and those after it reach the end of `R`. -/
def KeptAll (isnr : BitVec 32) (R : Bytes) (A ν : ℕ) : List (TCPPacketWrapper PacketV4) → Prop
  | [] => True
  | w :: ws => (∃ q, Kept isnr R A ν w q ∧ (R.length : ℤ) ≤ q + buffered (w :: ws)) ∧ KeptAll isnr R A ν ws

section Kept

variable {isnr : BitVec 32} {R R' : Bytes} {A A' ν ν' : ℕ} {q : ℤ} {w : TCPPacketWrapper PacketV4}
  {ws : List (TCPPacketWrapper PacketV4)} {pk : PacketV4}

@[simp] theorem buffered_cons (w : TCPPacketWrapper PacketV4) (ws : List (TCPPacketWrapper PacketV4)) :
    buffered (w :: ws) = (keptBytes w).length + buffered ws := by
  simp [buffered]

@[simp] theorem buffered_append (ws ws' : List (TCPPacketWrapper PacketV4)) :
    buffered (ws ++ ws') = buffered ws + buffered ws' := by
  simp [buffered]

theorem buffered_drop_le (ws : List (TCPPacketWrapper PacketV4)) (n : ℕ) : buffered (ws.drop n) ≤ buffered ws := by
  conv_rhs => rw [← List.take_append_drop n ws, buffered_append]
  exact Nat.le_add_left _ _

/-- More bytes, more acknowledged and more sent. -/
theorem Kept.grow (h : Kept isnr R A ν w q) (hR : R <+: R') (hA : A ≤ A') (hν : ν ≤ ν') :
    Kept isnr R' A' ν' w q := by
  obtain ⟨e, he, hle, hlt⟩ := h.next
  refine ⟨h.packet, ?_, e, he, hle, by omega⟩
  intro i b hb
  rcases h.bytes i b hb with hack | hbyte
  · exact .inl (by omega)
  · obtain ⟨t, rfl⟩ := hR
    have hlt := (List.getElem?_eq_some_iff.1 hbyte).1
    exact .inr (by rw [List.getElem?_append_left hlt, hbyte])

/-- Packets are kept behind those that are. -/
theorem KeptAll.append (h : KeptAll isnr R A ν ws) (hR : R <+: R') (hA : A ≤ A') (hν : ν ≤ ν')
    {more : List (TCPPacketWrapper PacketV4)} (hlen : R'.length ≤ R.length + buffered more)
    (hmore : KeptAll isnr R' A' ν' more) : KeptAll isnr R' A' ν' (ws ++ more) := by
  induction ws with
  | nil => exact hmore
  | cons w ws ih =>
    obtain ⟨⟨q, hw, hreach⟩, hws⟩ := h
    refine ⟨⟨q, hw.grow hR hA hν, ?_⟩, ih hws⟩
    change (R'.length : ℤ) ≤ q + buffered (w :: ws ++ more)
    rw [buffered_append]
    push_cast
    omega

theorem KeptAll.drop (h : KeptAll isnr R A ν ws) (n : ℕ) : KeptAll isnr R A ν (ws.drop n) := by
  induction n generalizing ws with
  | zero => exact h
  | succ n ih =>
    cases ws with
    | nil => trivial
    | cons w ws => exact ih h.2

theorem KeptAll.of_mem (h : KeptAll isnr R A ν ws) (hw : w ∈ ws) :
    ∃ q, Kept isnr R A ν w q ∧ (R.length : ℤ) ≤ q + buffered ws := by
  induction ws with
  | nil => cases hw
  | cons v ws ih =>
    obtain ⟨hv, hws⟩ := h
    rcases List.mem_cons.1 hw with rfl | hw
    · exact hv
    · obtain ⟨q, hkept, hreach⟩ := ih hws hw
      refine ⟨q, hkept, ?_⟩
      rw [buffered_cons]
      push_cast
      omega

/-- The end of a packet that is removed, and what is behind it. -/
theorem KeptAll.removed (h : KeptAll isnr R A ν ws) {n : ℕ} {ack : BitVec 32}
    (hfind : ws.findIdx? (fun w => w.nextSequenceNumber == ack) = some n) :
    ∃ e : ℤ, ack = Serial.position (isnr + 1) e ∧ e ≤ ν ∧
      (R.length : ℤ) ≤ e + buffered (ws.drop (n + 1)) := by
  induction ws generalizing n with
  | nil => cases hfind
  | cons w ws ih =>
    obtain ⟨⟨q, hw, hreach⟩, hws⟩ := h
    rw [List.findIdx?_cons] at hfind
    by_cases hnext : (w.nextSequenceNumber == ack) = true
    · rw [if_pos hnext] at hfind
      obtain rfl := Option.some.inj hfind
      obtain ⟨e, he, hle, hlt⟩ := hw.next
      refine ⟨e, (beq_iff_eq.1 hnext).symm.trans he, hlt, ?_⟩
      rw [buffered_cons] at hreach
      push_cast at hreach
      simp only [List.drop_succ_cons, List.drop_zero]
      omega
    · rw [if_neg hnext] at hfind
      obtain ⟨m, hm, rfl⟩ := Option.map_eq_some_iff.1 hfind
      exact ih hws hm

/-- **A packet that is kept is faithful**, when the acknowledged position is near. -/
theorem Kept.faithful (h : Kept isnr R A ν w q) (hpk : w.mPacket = some pk) (hback : A - q < 2 ^ 31)
    (hahead : ν - A < 2 ^ 31) : Faithful isnr R A pk := by
  obtain ⟨pk', hpk', hseq⟩ := h.packet
  obtain rfl := Option.some.inj (hpk.symm.trans hpk')
  have hbytes : keptBytes w = bytesOf pk := by rw [keptBytes, hpk]; rfl
  obtain ⟨e, -, hle, hlt⟩ := h.next
  rw [hbytes] at hle
  unfold Faithful
  rw [hseq]
  intro i hi hnear
  rw [Serial.position_add, ← Serial.position_natCast] at hnear ⊢
  change Serial.distance _ _ < _ at hnear
  change R[A + Serial.distance _ _]? = _
  by_cases hacked : q + i < A
  · -- an acknowledged byte is far ahead
    have := Serial.distance_of_lt (isnr + 1) hacked (by omega)
    omega
  · have hd := Serial.distance_of_le (isnr + 1) (not_lt.1 hacked) (by omega)
    have hb : (bytesOf pk)[i]? = some (bytesOf pk)[i] := List.getElem?_eq_getElem hi
    rw [hd, hb, show A + (q + i - (A : ℤ)).toNat = (q + i).toNat by omega]
    rcases h.bytes i _ (by rw [hbytes]; exact hb) with hlt' | hbyte
    · exact absurd hlt' hacked
    · exact hbyte

end Kept

/-! ## The invariant -/

/-- The controller when `R` was received from the remote, `A` of it acknowledged by the client, and
`F` packets with FIN sent. -/
structure Downloading (isnr : BitVec 32) (R : Bytes) (A F : ℕ) (c : TCPController) : Prop where
  next : c.mRemoteSeqNumber = Serial.position (isnr + 1) (R.length + F : ℕ)
  acked : A ≤ R.length + F
  /-- What is not acknowledged is kept. -/
  reaches : R.length ≤ A + buffered c.mClientPackets
  kept : KeptAll isnr R A (R.length + F) c.mClientPackets
  bounded : buffered c.mClientPackets + F < 2 ^ 31

/-- The invariant within a step that started with `n` effects: what it sent so far is faithful. -/
structure Sending (isnr : BitVec 32) (R : Bytes) (A F n : ℕ) (c : TCPController) : Prop
    extends Downloading isnr R A F c where
  started : n ≤ c.log.length
  faithful : AllFaithful isnr R A (c.log.drop n)

section Invariant

variable {isnr : BitVec 32} {R R' : Bytes} {A A' F n : ℕ} {c : TCPController} {w : TCPPacketWrapper PacketV4}
  {pk : PacketV4}

theorem Downloading.faithful_of_mem (h : Downloading isnr R A F c) (hw : w ∈ c.mClientPackets)
    (hpk : w.mPacket = some pk) : Faithful isnr R A pk := by
  obtain ⟨q, hkept, hreach⟩ := h.kept.of_mem hw
  have hb := h.bounded
  have ha := h.acked
  have hr := h.reaches
  exact hkept.faithful hpk (by omega) (by omega)

/-- The client acknowledges more. -/
theorem Downloading.acknowledge (h : Downloading isnr R A F c) (hA : A ≤ A') (hle : A' ≤ R.length + F) :
    Downloading isnr R A' F c := by
  refine ⟨h.next, hle, ?_, ?_, h.bounded⟩
  · have := h.reaches
    omega
  · have hnone : KeptAll isnr R A' (R.length + F) [] := trivial
    have := h.kept.append (List.prefix_refl R) hA le_rfl (by simp) hnone
    rwa [List.append_nil] at this

theorem sequenceOf_nextPacket (data : Option Bytes) (flag : TCPFlag) (option : Option TCPOption) :
    sequenceOf (c.nextPacket data flag option) = some c.mRemoteSeqNumber := by
  simp only [sequenceOf, nextPacket, makeTcp_seq]
  rfl

/-- **A packet at offset `q` is sent.** `q` is where the last packet ended, or one before. -/
theorem Downloading.sent (h : Downloading isnr R A F c) (data : Option Bytes) (flag : TCPFlag)
    (option : Option TCPOption) (q : ℤ) {F' : ℕ} (hF : F ≤ F') (hR : R <+: R')
    (hlen : R'.length ≤ R.length + (data.getD []).length)
    (hnext : Serial.position (isnr + 1) q + advance flag data = Serial.position (isnr + 1) (R'.length + F' : ℕ))
    (hend : q + (data.getD []).length ≤ (R'.length + F' : ℕ))
    (hback : (R'.length : ℤ) ≤ q + (data.getD []).length)
    (hbytes : ∀ (i : ℕ) b, (data.getD [])[i]? = some b → q + i < A ∨ R'[(q + i).toNat]? = some b)
    (hbound : buffered c.mClientPackets + (data.getD []).length + F' < 2 ^ 31) :
    Downloading isnr R' A F'
      ({ c with mRemoteSeqNumber := Serial.position (isnr + 1) q }.sent data flag option) := by
  have hgrow := hR.length_le
  have hacked := h.acked
  have hreach := h.reaches
  -- the packet is kept if it has a payload, even an empty one
  set more := ({ c with mRemoteSeqNumber := Serial.position (isnr + 1) q }.sent data flag option).mClientPackets.drop
    c.mClientPackets.length with hmore
  have hpackets : ({ c with mRemoteSeqNumber := Serial.position (isnr + 1) q }.sent data flag
      option).mClientPackets = c.mClientPackets ++ more := by
    rw [hmore, TCPController.sent, List.drop_left]
  have hbuf : buffered more = (data.getD []).length := by
    rw [hmore, TCPController.sent, List.drop_left]
    cases data <;> simp [buffered, keptBytes, bytesOf, nextPacket]
  have hkept : KeptAll isnr R' A (R'.length + F') more := by
    rw [hmore, TCPController.sent, List.drop_left]
    cases data with
    | none => trivial
    | some d =>
      refine ⟨⟨q, ⟨⟨_, rfl, sequenceOf_nextPacket _ _ _⟩, hbytes, _, hnext, hend, le_rfl⟩, ?_⟩, trivial⟩
      simpa [buffered, keptBytes, bytesOf, nextPacket] using hback
  refine ⟨hnext, by omega, ?_, ?_, ?_⟩
  · rw [hpackets, buffered_append]
    omega
  · rw [hpackets]
    exact h.kept.append hR le_rfl (by omega) (by omega) hkept
  · rw [hpackets, buffered_append]
    omega

theorem allFaithful_append {es es' : List Effect} :
    AllFaithful isnr R A (es ++ es') ↔ AllFaithful isnr R A es ∧ AllFaithful isnr R A es' :=
  List.forall_mem_append

/-- Nothing was sent yet. -/
theorem allFaithful_fresh (log : List Effect) : AllFaithful isnr R A (log.drop log.length) := by
  rw [List.drop_length]
  intro effect he
  cases he

/-- What was sent is kept, or has no payload. -/
theorem Downloading.sending_sent {data : Option Bytes} {flag : TCPFlag} {option : Option TCPOption}
    (hd : Downloading isnr R A F (c.sent data flag option)) (hn : n ≤ c.log.length)
    (hold : AllFaithful isnr R A (c.log.drop n)) : Sending isnr R A F n (c.sent data flag option) := by
  have hpacket : Faithful isnr R A (c.nextPacket data flag option) := by
    cases data with
    | none =>
      unfold Faithful
      rw [sequenceOf_nextPacket]
      intro i hi
      exact absurd hi (Nat.not_lt_zero i)
    | some d =>
      obtain ⟨w, hw, hpk⟩ : ∃ w ∈ (c.sent (some d) flag option).mClientPackets,
          w.mPacket = some (c.nextPacket (some d) flag option) :=
        ⟨_, List.mem_append_right _ (List.mem_singleton_self _), rfl⟩
      exact hd.faithful_of_mem hw hpk
  refine ⟨hd, ?_, ?_⟩
  · simp only [TCPController.sent, List.length_append]
    omega
  · simp only [TCPController.sent]
    rw [List.drop_append_of_le_length hn, allFaithful_append]
    refine ⟨hold, ?_⟩
    intro effect he
    obtain rfl := List.mem_singleton.1 he
    exact hpacket

/-- What the download depends on. -/
def downloadView (c : TCPController) : BitVec 32 × List (TCPPacketWrapper PacketV4) × List Effect :=
  (c.mRemoteSeqNumber, c.mClientPackets, c.log)

theorem Sending.of_view {c' : TCPController} (h : Sending isnr R A F n c)
    (hv : c'.downloadView = c.downloadView) : Sending isnr R A F n c' := by
  simp only [downloadView, Prod.mk.injEq] at hv
  obtain ⟨hnext, hpackets, hlog⟩ := hv
  refine ⟨⟨?_, h.acked, ?_, ?_, ?_⟩, ?_, ?_⟩
  · rw [hnext]
    exact h.next
  · rw [hpackets]
    exact h.reaches
  · rw [hpackets]
    exact h.kept
  · rw [hpackets]
    exact h.bounded
  · rw [hlog]
    exact h.started
  · rw [hlog]
    exact h.faithful

/-- Faithful packets are sent again. -/
theorem Sending.log_append (h : Sending isnr R A F n c) {effects : List Effect}
    (he : AllFaithful isnr R A effects) : Sending isnr R A F n { c with log := c.log ++ effects } := by
  have hn := h.started
  refine ⟨⟨h.next, h.acked, h.reaches, h.kept, h.bounded⟩, ?_, ?_⟩
  · simp only [List.length_append]
    omega
  · rw [List.drop_append_of_le_length hn, allFaithful_append]
    exact ⟨h.faithful, he⟩

/-- An effect that is not a packet for the client. -/
theorem Sending.emit (h : Sending isnr R A F n c) {e : Effect} (he : ∀ packet, e ≠ .onPacketReadyForClient packet) :
    Sending isnr R A F n { c with log := c.log ++ [e] } := by
  refine h.log_append ?_
  intro effect heff
  obtain rfl := List.mem_singleton.1 heff
  cases effect with
  | onPacketReadyForClient packet => exact absurd rfl (he packet)
  | _ => trivial

/-- A packet without payload, SYN and FIN. -/
theorem Sending.sendQuiet (h : Sending isnr R A F n c) {data : Option Bytes} (hdata : data.getD [] = [])
    {flag : TCPFlag} (hsyn : flag.SYN ≠ 1) (hfin : flag.FIN ≠ 1) (option : Option TCPOption) :
    Sending isnr R A F n (c.sent data flag option) := by
  have hadv : advance flag data = 0 := by
    rw [advance, if_neg (by rintro (h1 | h1) <;> contradiction)]
    cases data with
    | none => rfl
    | some d =>
      obtain rfl : d = [] := hdata
      rfl
  have hsent := h.toDownloading.sent data flag option (R.length + F : ℕ) le_rfl
    (List.prefix_refl R) (by omega)
    (by rw [hadv]; simp) (by rw [hdata]; simp) (by rw [hdata]; push_cast; simp)
    (by rw [hdata]; simp) (by rw [hdata]; exact h.bounded)
  rw [← h.next] at hsent
  exact hsent.sending_sent h.started h.faithful

theorem emit_downloading {e : Effect} (he : ∀ packet, e ≠ .onPacketReadyForClient packet) :
    Java.Keeps (Sending isnr R A F n) (TCPController.emit e) :=
  Java.Keeps.modify fun _ h => h.emit he

theorem makeAndSend_downloading {data : Option Bytes} (hdata : data.getD [] = []) {flag : TCPFlag}
    (hsyn : flag.SYN ≠ 1) (hfin : flag.FIN ≠ 1) (option : Option TCPOption) :
    Java.Keeps (Sending isnr R A F n) (makeAndSend data flag option) :=
  makeAndSend_keeps (fun _ h => h.of_view rfl) fun _ h => h.sendQuiet hdata hsyn hfin option

theorem sendSacks_downloading (sacks : List SACK) : Java.Keeps (Sending isnr R A F n) (sendSacks sacks) :=
  Java.Keeps.bind (Java.Keeps.lift _) fun _ => makeAndSend_downloading rfl (by decide) (by decide) _

theorem putToQueue_downloading (w : TCPPacketWrapper Segment) :
    Java.Keeps (Sending isnr R A F n) (putToQueue w) := by
  refine Java.Keeps.bind (Java.Keeps.modify fun _ h => h.of_view rfl) fun _ =>
    Java.Keeps.bind (emit_downloading ?_) fun _ => Java.Keeps.modify fun _ h => h.of_view rfl
  intro packet he
  cases he

/-! ## The senders -/

/-- A packet without options and with a payload that fits is sent. -/
theorem create_fits (c : TCPController) (data : Option Bytes) (hlen : (data.getD []).length ≤ 32728)
    (flag : TCPFlag) :
    PacketV4.create c.nextHeader (.tcp (c.makeTcp flag none)) data = .ok (c.nextPacket data flag none) := by
  have hip : c.nextHeader.getHeaderLength = 20 := rfl
  have htcp : (TransmissionProtocol.tcp (c.makeTcp flag none)).getHeaderLength = .ok 20 := rfl
  have hdata : (data.map List.length).getD 0 = (data.getD []).length := by cases data <;> rfl
  simp only [PacketV4.create, htcp, hip, hdata, bind, Except.bind, MAX_SIZE]
  rw [if_neg (by omega)]
  rfl

/-- A keep-alive byte is always sent. -/
theorem tick_eq (c : TCPController) : c.step .tick =
    { c with mRemoteSeqNumber := c.mRemoteSeqNumber - 1 }.sent (some [0]) TCPFlag.ACKOnly none := by
  change (Java.exec sendKeepAlivePacket c).2 = _
  simp only [sendKeepAlivePacket, Java.exec_bind, Java.exec_modify]
  rw [makeAndSend_exec, create_fits _ (some [0]) (by simp)]

/-- **A chunk is sent iff it fits into a packet.** -/
theorem sendDataToClient_exec (c : TCPController) (data : Bytes) (push : Bool) :
    Java.exec (sendDataToClient data push) c = if data.length ≤ 32728
      then (.ok (), c.sent (some data) (if push then TCPFlag.ACKOnly else TCPFlag.PSH_ACK) none)
      else (.error .illegalArgument, c.identified) := by
  change Java.exec (makeAndSend (some data) _ none) c = _
  rw [makeAndSend_exec]
  by_cases hfits : data.length ≤ 32728
  · rw [if_pos hfits, create_fits c (some data) hfits]
  · have hip : c.nextHeader.getHeaderLength = 20 := rfl
    have htcp : ∀ flag, (TransmissionProtocol.tcp (c.makeTcp flag none)).getHeaderLength = .ok 20 := fun _ => rfl
    rw [if_neg hfits]
    simp only [PacketV4.create, htcp, hip, bind, Except.bind, Option.map_some, Option.getD_some]
    rw [if_pos (by unfold MAX_SIZE; omega)]
    rfl

/-- The step of a chunk: it is sent, or is too large and is not. -/
theorem packetFromRemote_cases (c : TCPController) (data : Bytes) (push : Bool) :
    ∃ flag : TCPFlag, flag.SYN ≠ 1 ∧ flag.FIN ≠ 1 ∧ (c.step (.packetFromRemote data push) = c.identified ∨
      (data.length ≤ 32728 ∧ c.step (.packetFromRemote data push) = c.sent (some data) flag none)) := by
  have hstep : c.step (.packetFromRemote data push) = (Java.exec (sendDataToClient data push) c).2 := rfl
  refine ⟨if push then TCPFlag.ACKOnly else TCPFlag.PSH_ACK, by split <;> decide, by split <;> decide, ?_⟩
  rw [hstep, sendDataToClient_exec]
  by_cases hfits : data.length ≤ 32728
  · rw [if_pos hfits]
    exact .inr ⟨hfits, rfl⟩
  · rw [if_neg hfits]
    exact .inl rfl

theorem Downloading.chunk (h : Downloading isnr R A F c) {d : Bytes} (hd : d ≠ [] → F = 0)
    (hbound : buffered c.mClientPackets + d.length + F < 2 ^ 31) {flag : TCPFlag} (hsyn : flag.SYN ≠ 1)
    (hfin : flag.FIN ≠ 1) :
    Downloading isnr (R ++ d) A F (c.sent (some d) flag none) := by
  have hadv : advance flag (some d) = BitVec.ofNat 32 d.length := by
    rw [advance, if_neg (by rintro (h1 | h1) <;> contradiction)]
    rfl
  have hsent : Downloading isnr (R ++ d) A F _ := h.sent (some d) flag none (R.length + F : ℕ) le_rfl
    (List.prefix_append R d) (by simp) ?_ ?_ ?_ ?_ hbound
  · rw [← h.next] at hsent
    exact hsent
  · rw [hadv, Serial.position_add, List.length_append]
    congr 1
    push_cast
    ring
  · simp only [Option.getD_some, List.length_append]
    push_cast
    omega
  · simp only [Option.getD_some, List.length_append]
    push_cast
    omega
  · intro i b hb
    have hi := (List.getElem?_eq_some_iff.1 hb).1
    have hfins : F = 0 := hd (List.ne_nil_of_length_pos (by simp at hi; omega))
    refine .inr ?_
    rw [hfins, show ((R.length + 0 : ℕ) + (i : ℤ)).toNat = R.length + i by omega,
      List.getElem?_append_right (by omega), Nat.add_sub_cancel_left]
    exact hb

/-- A keep-alive packet repeats the last byte. -/
theorem Downloading.keepAlive (h : Downloading isnr R A F c) (hbound : buffered c.mClientPackets + 1 + F < 2 ^ 31)
    (hlast : A = R.length + F ∨ (F = 0 ∧ R.getLast? = some 0)) :
    Downloading isnr R A F
      ({ c with mRemoteSeqNumber := c.mRemoteSeqNumber - 1 }.sent (some [0]) TCPFlag.ACKOnly none) := by
  have hsent := h.sent (some [0]) TCPFlag.ACKOnly none ((R.length + F : ℕ) - 1) le_rfl
    (List.prefix_refl R) (by simp) ?_ ?_ ?_ ?_ hbound
  · rwa [h.next, Serial.position_sub_one]
  · rw [show advance TCPFlag.ACKOnly (some [0]) = BitVec.ofNat 32 1 from rfl, Serial.position_add]
    congr 1
    push_cast
    ring
  · simp
  · simp
  · intro i b hb
    obtain ⟨rfl, rfl⟩ : i = 0 ∧ b = 0 := by
      rcases i with _ | i
      · exact ⟨rfl, by simpa using hb.symm⟩
      · simp at hb
    rcases hlast with hall | ⟨hfins, hzero⟩
    · exact .inl (by omega)
    · refine .inr ?_
      have hne : R ≠ [] := by rintro rfl; cases hzero
      have hpos := List.length_pos_of_ne_nil hne
      rw [hfins, show (((R.length + 0 : ℕ) : ℤ) - 1 + (0 : ℕ)).toNat = R.length - 1 by omega,
        ← List.getLast?_eq_getElem?]
      exact hzero

/-- A FIN without payload. -/
theorem Sending.sendFin (h : Sending isnr R A F n c) {data : Option Bytes} (hdata : data.getD [] = [])
    {flag : TCPFlag} (hfin : flag.FIN = 1) (hbound : buffered c.mClientPackets + (F + 1) < 2 ^ 31) :
    Sending isnr R A (F + 1) n (c.sent data flag none) := by
  have hadv : advance flag data = BitVec.ofNat 32 1 := if_pos (.inr hfin)
  have hsent := h.toDownloading.sent data flag none (R.length + F : ℕ) (Nat.le_succ F)
    (List.prefix_refl R) (by omega) ?_ ?_ ?_ (by rw [hdata]; simp) (by rw [hdata]; exact hbound)
  · rw [← h.next] at hsent
    exact hsent.sending_sent h.started h.faithful
  · rw [hadv, Serial.position_add]
    congr 1
  · rw [hdata]
    push_cast
    simp
  · rw [hdata]
    push_cast
    simp

/-- A FIN or a RST carries the last payload again. -/
theorem sendClosing_exec (c : TCPController) (flag : TCPFlag) :
    ∃ data flag', data.getD [] = c.lastPayload ∧ flag'.SYN = flag.SYN ∧ flag'.FIN = flag.FIN ∧
      flag'.RST = flag.RST ∧ Java.exec (sendClosing flag) c = Java.exec (makeAndSend data flag' none) c := by
  simp only [lastPayload, sendClosing, Java.exec_bind, Java.exec_get]
  cases c.lastData with
  | none => exact ⟨none, flag, rfl, rfl, rfl, rfl, rfl⟩
  | some data => exact ⟨data, { flag with PSH := 1 }, rfl, rfl, rfl, rfl, rfl⟩

theorem Sending.sendReset (h : Sending isnr R A F n c) (hlast : c.lastPayload = []) :
    Sending isnr R A F n (Java.exec sendCloseConnectionToClient c).2 := by
  obtain ⟨data, flag, hdata, hsyn, hfin, -, hexec⟩ := sendClosing_exec c TCPFlag.RST_ACK
  rw [hlast] at hdata
  rw [sendCloseConnectionToClient, hexec]
  exact makeAndSend_downloading hdata (by rw [hsyn]; decide) (by rw [hfin]; decide) _ c h

theorem Sending.terminate (h : Sending isnr R A F n c) (hlast : c.lastPayload = []) :
    Sending isnr R A F n (Java.exec TCPController.terminate c).2 := by
  have hreset := h.sendReset hlast
  unfold TCPController.terminate
  rw [Java.exec_bind]
  rcases hr : Java.exec sendCloseConnectionToClient c with ⟨_ | _, c'⟩
  · rw [hr] at hreset
    exact hreset
  · rw [hr] at hreset
    exact hreset.of_view rfl

theorem Sending.sendFINPacket (h : Sending isnr R A F n c) (hlast : c.lastPayload = [])
    (hbound : buffered c.mClientPackets + (F + 1) < 2 ^ 31) :
    Sending isnr R A (F + 1) n (Java.exec TCPController.sendFINPacket c).2 := by
  simp only [TCPController.sendFINPacket, Java.exec_bind, Java.exec_get, setState, Java.exec_modify]
  set c₁ : TCPController := { c with mState := if c.mState = .ESTABLISHED then .FIN_WAIT_1 else .LAST_ACK }
    with hc₁
  have h₁ : Sending isnr R A F n c₁ := h.of_view rfl
  obtain ⟨data, flag, hdata, -, hfin, -, hexec⟩ := sendClosing_exec c₁ TCPFlag.FIN_ACK
  rw [show c₁.lastPayload = [] from hlast] at hdata
  rw [hexec, makeAndSend_exec, create_fits c₁ data (by rw [hdata]; simp) flag]
  exact h₁.sendFin hdata hfin hbound

/-! ## The client's segments -/

theorem outOfSequence_downloading {pk : Segment} (hpk : pk.Plain) :
    Java.Keeps (Sending isnr R A F n) (outOfSequence pk) :=
  outOfSequence_keeps (fun _ hrst => absurd hrst hpk.not_rst) sendSacks_downloading (putToQueue_downloading _)

/-- The right edges of SACK blocks. -/
def rightEdges (sacks : List (Option SACK)) : List (BitVec 32) := sacks.filterMap fun b => b.map SACK.rightEdge

/-- The numbers that a segment with SACK blocks asks for: the one it acknowledges and those behind its blocks. -/
def askedFor (pk : Segment) : List (BitVec 32) :=
  match pk.option.map TCPOption.getSelectiveAcknowledgmentIntValues with
  | some (.ok (some sacks)) => pk.acknowledgmentNumber :: rightEdges sacks
  | _ => []

theorem findLossPacket_mem {sacks : List (Option SACK)} {ws lost : List (TCPPacketWrapper PacketV4)} {i : ℕ}
    {ack : BitVec 32} (h : findLossPacket sacks ws i ack = .ok lost) :
    ∀ w ∈ lost, w ∈ ws ∧ (w.sequenceNumber = ack ∨ w.sequenceNumber ∈ rightEdges sacks) := by
  induction ws generalizing lost i ack with
  | nil =>
    obtain rfl := Except.ok.inj h
    intro w hw
    cases hw
  | cons v ws ih =>
    have hcons : ∀ {t : BitVec 32}, (t = ack ∨ t ∈ rightEdges sacks) → v.sequenceNumber = ack →
        ∀ rest : List (TCPPacketWrapper PacketV4),
        (∀ w ∈ rest, w ∈ ws ∧ (w.sequenceNumber = t ∨ w.sequenceNumber ∈ rightEdges sacks)) →
        ∀ w ∈ v :: rest, w ∈ v :: ws ∧ (w.sequenceNumber = ack ∨ w.sequenceNumber ∈ rightEdges sacks) := by
      intro t ht hseq rest hrest w hw
      rcases List.mem_cons.1 hw with rfl | hw
      · exact ⟨List.mem_cons_self, .inl hseq⟩
      · obtain ⟨hin, hw | hw⟩ := hrest w hw
        · exact ⟨List.mem_cons_of_mem _ hin, by rw [hw]; exact ht⟩
        · exact ⟨List.mem_cons_of_mem _ hin, .inr hw⟩
    rw [findLossPacket] at h
    split at h
    · cases h
    · rename_i block hblock
      split at h
      · rename_i hseq
        cases block with
        | none => cases h
        | some sack =>
          have hedge : sack.rightEdge ∈ rightEdges sacks :=
            List.mem_filterMap.2 ⟨some sack, List.mem_of_getElem? hblock, rfl⟩
          simp only [deref_some, bind, Except.bind, pure, Except.pure] at h
          split at h
          · split at h
            · obtain rfl := Except.ok.inj h
              exact hcons (.inl rfl) hseq [] fun w hw => by cases hw
            · split at h
              · cases h
              · rename_i rest hrest
                obtain rfl := Except.ok.inj h
                exact hcons (.inr hedge) hseq _ (ih hrest)
          · split at h
            · cases h
            · rename_i rest hrest
              obtain rfl := Except.ok.inj h
              exact hcons (.inl rfl) hseq _ (ih hrest)
      · intro w hw
        obtain ⟨hin, hnumber⟩ := ih h w hw
        exact ⟨List.mem_cons_of_mem _ hin, hnumber⟩

/-- What is sent again was kept. -/
theorem lossPackets_mem {sacks : List (Option SACK)} {ack : BitVec 32} {lost : List PacketV4}
    (h : c.lossPackets sacks ack = .ok lost) : ∀ p ∈ lost, ∃ w ∈ c.mClientPackets,
      w.mPacket = some p ∧ (w.sequenceNumber = ack ∨ w.sequenceNumber ∈ rightEdges sacks) := by
  simp only [lossPackets, bind, Except.bind, pure, Except.pure] at h
  split at h
  · cases h
  rename_i wrappers hfind
  obtain rfl := Except.ok.inj h
  intro p hp
  obtain ⟨w, hw, hpk⟩ := List.mem_filterMap.1 hp
  obtain ⟨hin, hnumber⟩ := findLossPacket_mem hfind w hw
  exact ⟨w, hin, hpk, hnumber⟩

/-- What the acknowledgment of a segment makes the controller send again was kept, at a number that the
segment asks for. -/
theorem resent_asked {pk : Segment} {lost : List PacketV4}
    (h : lost = [] ∨ ∃ option sacks, pk.option = some option ∧
      option.getSelectiveAcknowledgmentIntValues = .ok (some sacks) ∧
      c.lossPackets sacks pk.acknowledgmentNumber = .ok lost) :
    ∀ p ∈ lost, ∃ w ∈ c.mClientPackets, w.mPacket = some p ∧ w.sequenceNumber ∈ askedFor pk := by
  rcases h with rfl | ⟨option, sacks, hoption, hsacks, hlost⟩
  · intro p hp
    cases hp
  · intro p hp
    obtain ⟨w, hw, hpk, hnumber⟩ := lossPackets_mem hlost p hp
    refine ⟨w, hw, hpk, ?_⟩
    simp only [askedFor, hoption, Option.map_some, hsacks]
    exact List.mem_cons.2 hnumber

theorem resent_kept {pk : Segment} {lost : List PacketV4}
    (h : lost = [] ∨ ∃ option sacks, pk.option = some option ∧
      option.getSelectiveAcknowledgmentIntValues = .ok (some sacks) ∧
      c.lossPackets sacks pk.acknowledgmentNumber = .ok lost) :
    ∀ p ∈ lost, ∃ w ∈ c.mClientPackets, w.mPacket = some p := by
  intro p hp
  obtain ⟨w, hw, hpk, -⟩ := resent_asked h p hp
  exact ⟨w, hw, hpk⟩

/-- Packets that are kept are sent again. -/
theorem Sending.resend (h : Sending isnr R A F n c) {lost : List PacketV4}
    (hkept : ∀ p ∈ lost, ∃ w ∈ c.mClientPackets, w.mPacket = some p) :
    Sending isnr R A F n { c with log := c.log ++ lost.map .onPacketReadyForClient } := by
  refine h.log_append ?_
  intro effect heff
  obtain ⟨packet, hpacket, rfl⟩ := List.mem_map.1 heff
  obtain ⟨w, hw, hpk⟩ := hkept packet hpacket
  exact h.faithful_of_mem hw hpk

/-- What the acknowledgment removes is acknowledged. -/
theorem Sending.remove (h : Sending isnr R A F n c) (ack : BitVec 32)
    (hack : ∀ e : ℤ, ack = Serial.position (isnr + 1) e → e ≤ (R.length + F : ℕ) → e ≤ A) :
    Sending isnr R A F n (Java.exec (removeAcknowledgedPackets ack) c).2 := by
  simp only [removeAcknowledgedPackets, Java.exec_modify]
  cases hfind : c.mClientPackets.findIdx? fun w => w.nextSequenceNumber == ack with
  | none => exact h.of_view rfl
  | some i =>
    obtain ⟨e, he, hle, hreach⟩ := h.kept.removed hfind
    have hdrop := buffered_drop_le c.mClientPackets (i + 1)
    have hA := hack e he hle
    have hb := h.bounded
    refine ⟨⟨h.next, h.acked, ?_, h.kept.drop _, ?_⟩, h.started, h.faithful⟩
    · simp only
      omega
    · simp only
      omega

/-- **The acknowledgment of a segment.** -/
theorem Sending.acknowledge (h : Sending isnr R A F n c) {pk : Segment}
    (hack : ∀ e : ℤ, pk.acknowledgmentNumber = Serial.position (isnr + 1) e →
      e ≤ (R.length + F : ℕ) → e ≤ A)
    (hlast : c.mState = .LAST_ACK → c.lastPayload = []) :
    Sending isnr R A F n (Java.exec (TCPController.acknowledge pk) c).2 := by
  have hcases := acknowledge_cases c pk
  generalize (Java.exec (TCPController.acknowledge pk) c).2 = c' at hcases ⊢
  cases hcases with
  | removed _ _ => exact h.remove _ hack
  | resent lost _ _ hlost => exact h.resend (resent_kept hlost)
  | finAcknowledged _ => exact h.of_view rfl
  | terminated hstate =>
    have hemit : Sending isnr R A F n { c with log := c.log ++ [.onTermination] } :=
      h.emit fun packet he => by cases he
    exact hemit.terminate (hlast hstate)
  | established _ =>
    have hemit : Sending isnr R A F n { c with log := c.log ++ [.onConnectionEstablished] } :=
      h.emit fun packet he => by cases he
    exact hemit.of_view rfl
  | ignored _ _ _ _ => exact h

/-- A plain segment of a client that has acknowledged what it acknowledges. -/
theorem Sending.process (h : Sending isnr R A F n c) {pk : Segment} (hpk : pk.Plain)
    (hack : ∀ e : ℤ, pk.acknowledgmentNumber = Serial.position (isnr + 1) e →
      e ≤ (R.length + F : ℕ) → e ≤ A)
    (hlast : pk.sequenceNumber = c.mClientNexSeqNumber → pk.data = none → pk.flag.PSH ≠ 1 →
      c.mState = .LAST_ACK → c.lastPayload = []) :
    Sending isnr R A F n (Java.exec (TCPController.process pk) c).2 := by
  have h₁ : Sending isnr R A F n { c with mClientWindowSize := pk.windowSize } := h.of_view rfl
  rw [process_exec hpk.not_syn]
  by_cases hseq : pk.sequenceNumber = c.mClientNexSeqNumber
  · rw [if_neg (not_not.2 hseq), inSequence_exec hpk]
    by_cases hqueue : pk.flag.PSH = 1 ∨ pk.data.isSome
    · rw [if_pos hqueue]
      have hkeeps : Java.Keeps (Sending isnr R A F n) (queueInSequence pk (pk.flag.PSH = 1)) :=
        Java.Keeps.bind (putToQueue_downloading _) fun _ => Java.Keeps.modify fun _ h => h.of_view rfl
      exact hkeeps _ h₁
    · rw [if_neg hqueue]
      have hnone : pk.data = none := by
        cases hd : pk.data with
        | none => rfl
        | some d => exact absurd (.inr (by rw [hd]; rfl)) hqueue
      exact h₁.acknowledge hack (hlast hseq hnone fun hpsh => hqueue (.inl hpsh))
  · rw [if_pos hseq]
    exact outOfSequence_downloading hpk _ h₁

end Invariant

namespace Transfer

variable {isnr : BitVec 32} {s : Transfer} {e : Event}

/-- The invariant of a transfer. -/
def Inv (isnr : BitVec 32) (s : Transfer) : Prop :=
  Downloading isnr s.received s.acknowledged s.fins s.controller

theorem Inv.sending (h : s.Inv isnr) :
    Sending isnr s.received s.acknowledged s.fins s.controller.log.length s.controller :=
  ⟨h, le_rfl, allFaithful_fresh _⟩

/-- An acknowledgment of a packet that was sent reaches its end. -/
theorem acknowledgedBy_spec (h : s.Inv isnr) (ack : BitVec 32) :
    s.acknowledged ≤ s.acknowledgedBy isnr ack ∧ s.acknowledgedBy isnr ack ≤ s.sentEnd ∧
      ∀ e : ℤ, ack = Serial.position (isnr + 1) e → e ≤ s.sentEnd → e ≤ s.acknowledgedBy isnr ack := by
  have hb := h.bounded
  have hr := h.reaches
  have ha := h.acked
  unfold acknowledgedBy
  dsimp only
  refine ⟨by split <;> omega, ?_, ?_⟩
  · split
    · assumption
    · exact ha
  · intro e he hle
    by_cases hbehind : e ≤ s.acknowledged
    · split <;> omega
    · -- the offset is told by the number, which is near
      unfold sentEnd at hle
      have hd := Serial.distance_of_le (isnr + 1) (not_le.1 hbehind).le
        (show e - (s.acknowledged : ℤ) < 2 ^ 32 by omega)
      rw [he, ← Serial.position_natCast]
      change e ≤ ((if s.acknowledged + Serial.distance _ _ ≤ _ then s.acknowledged + Serial.distance _ _
        else _ : ℕ) : ℤ)
      rw [hd, if_pos (by unfold sentEnd; omega)]
      omega

/-- **A clear step keeps the invariant, and sends faithful packets.** -/
theorem Inv.step (h : s.Inv isnr) (ht : Transfers e) (hc : s.Clear e) :
    Sending isnr (s.step isnr e).received (s.step isnr e).acknowledged (s.step isnr e).fins
      s.controller.log.length (s.step isnr e).controller := by
  have hs := h.sending
  cases e with
  | connected => exact absurd ht id
  | client pk =>
    obtain ⟨hA, hle, hack⟩ := acknowledgedBy_spec h pk.acknowledgmentNumber
    have hs' : Sending isnr s.received (s.acknowledgedBy isnr pk.acknowledgmentNumber) s.fins
        s.controller.log.length s.controller :=
      ⟨h.acknowledge hA hle, le_rfl, allFaithful_fresh _⟩
    exact packetFromClient_keeps (fun _ h => h.of_view rfl) s.controller (fun _ => hs')
      fun hopen => hs'.process ht hack (hc hopen)
  | poll =>
    change Sending _ _ _ _ _ (pollQueue s.controller)
    unfold pollQueue
    split
    · exact hs
    · rename_i w queue hpoll
      have hemit : Sending isnr s.received s.acknowledged s.fins s.controller.log.length
          { s.controller with log := s.controller.log ++ [.polled w] } := hs.emit fun packet he => nomatch he
      exact hemit.of_view rfl
  | packetFromRemote data push =>
    obtain ⟨hfins, hfits, hbound⟩ := hc
    unfold outstanding at hbound
    have hflag : ∀ flag : TCPFlag, flag.SYN ≠ 1 → flag.FIN ≠ 1 →
        Sending isnr (s.received ++ data) s.acknowledged s.fins s.controller.log.length
          (Java.exec (makeAndSend (some data) flag none) s.controller).2 := by
      intro flag hsyn hfin
      rw [makeAndSend_exec, create_fits _ (some data) hfits]
      exact (Downloading.chunk h hfins (by omega) hsyn hfin).sending_sent le_rfl (allFaithful_fresh _)
    change Sending _ _ _ _ _ (Java.exec (makeAndSend (some data) _ none) s.controller).2
    split
    · exact hflag _ (by decide) (by decide)
    · exact hflag _ (by decide) (by decide)
  | tick =>
    obtain ⟨hlast, hbound⟩ := hc
    unfold outstanding at hbound
    change Sending _ _ _ _ _ (s.controller.step .tick)
    rw [tick_eq]
    exact (Downloading.keepAlive h (by omega) hlast).sending_sent le_rfl (allFaithful_fresh _)
  | close =>
    obtain ⟨hlast, hbound⟩ := hc
    exact hs.sendFINPacket hlast hbound
  | remoteClosed =>
    obtain ⟨hlast, hbound⟩ := hc
    exact hs.sendFINPacket hlast hbound
  | terminate => exact hs.terminate hc

end Transfer

/-- A packet with the options of the server and without payload is sent. -/
theorem create_serverOption (c : TCPController) (flag : TCPFlag) :
    PacketV4.create c.nextHeader (.tcp (c.makeTcp flag (some (serverOption {})))) none =
      .ok (c.nextPacket none flag (some (serverOption {}))) := by
  have htcp : (TransmissionProtocol.tcp (c.makeTcp flag (some (serverOption {})))).getHeaderLength = .ok 32 := rfl
  have hip : c.nextHeader.getHeaderLength = 20 := rfl
  simp only [PacketV4.create, htcp, hip, bind, Except.bind, MAX_SIZE]
  rfl

/-- A controller after its handshake. -/
theorem handshake_exec (c : TCPController) : ∃ option,
    c.step .connected = { c with mState := .SYN_RECEIVED }.sent none TCPFlag.SYN_ACK option := by
  refine ⟨some (serverOption {}), ?_⟩
  change (Java.exec handshake c).2 = _
  simp only [handshake, setState, Java.exec_bind, Java.exec_modify]
  rw [makeAndSend_exec, create_serverOption]

/-- After the handshake the next number is the one after the SYN, and nothing is kept. -/
theorem connected_eq {header : IPV4Header} {tcp : TCP} {random : BitVec 32} {ident : BitVec 16}
    {c : TCPController} (hnew : TCPController.new header tcp random ident = .ok c) :
    (c.step .connected).mRemoteSeqNumber = random + 1 ∧ (c.step .connected).mClientPackets = [] := by
  obtain ⟨-, -, -, -, -, hseq, hpackets⟩ := new_eq hnew
  obtain ⟨option, hshake⟩ := handshake_exec c
  rw [hshake, TCPController.sent]
  refine ⟨?_, by simp [hpackets]⟩
  change c.mRemoteSeqNumber + 1 = _
  rw [hseq]

/-- **What reaches the client is what the remote sent.** In every run after the handshake on chunks of
the remote, acknowledgments of the client, keep-alive ticks and closing, in any order, whose steps are
`Clear`, every byte sent at a position that is not acknowledged is the byte received there. -/
theorem sent_faithful {header : IPV4Header} {tcp : TCP} {random : BitVec 32} {ident : BitVec 16}
    {c : TCPController} (hnew : TCPController.new header tcp random ident = .ok c) (es : List Event)
    (hes : ∀ e ∈ es, Transfer.Transfers e)
    (hclear : Run.Always (Transfer.step random) Transfer.Clear ⟨c.step .connected, [], 0, 0⟩ es) :
    Run.Always (Transfer.step random) (Transfer.SendsFaithful random) ⟨c.step .connected, [], 0, 0⟩ es := by
  obtain ⟨hnext, hkept⟩ := connected_eq hnew
  have hstart : Transfer.Inv random ⟨c.step .connected, [], 0, 0⟩ := by
    change Downloading random [] 0 0 (c.step .connected)
    refine ⟨?_, le_rfl, Nat.zero_le _, ?_, ?_⟩
    · rw [hnext, Serial.position_natCast]
      simp
    · rw [hkept]
      trivial
    · rw [hkept]
      decide
  refine Run.Always.of_invariant (I := Transfer.Inv random) ?_ hstart (hclear.with_events hes)
  intro s e hs he
  have hstep := hs.step he.1 he.2
  exact ⟨hstep.faithful, hstep.toDownloading⟩

/-- An acknowledgment of the client after `isn` 1000. -/
def acknowledgment (acknowledgmentNumber : BitVec 32) : Event :=
  .client { sequenceNumber := 1001, acknowledgmentNumber := acknowledgmentNumber, flag := TCPFlag.ACKOnly }

/-- Two chunks, the first acknowledged in two parts; a keep-alive when all is acknowledged; and a FIN. -/
def page : List Event :=
  [acknowledgment 5001, .packetFromRemote [72, 84, 84, 80] true, .packetFromRemote [47, 49] false,
    acknowledgment 5003, acknowledgment 5007, .tick, acknowledgment 5007, .remoteClosed]

theorem page_faithful :
    Run.Always (Transfer.step 5000) (Transfer.SendsFaithful 5000)
      ⟨(accepting 1000 5000).step .connected, [], 0, 0⟩ page ∧
    (Run.run (Transfer.step 5000) ⟨(accepting 1000 5000).step .connected, [], 0, 0⟩ page).acknowledged = 6 := by
  refine ⟨sent_faithful (new_clientSyn 1000 5000) page ?_ (by decide +kernel), by decide +kernel⟩
  have hack : ∀ ack, Transfer.Transfers (acknowledgment ack) := fun ack => ⟨rfl, rfl, rfl, rfl⟩
  simp only [page, List.forall_mem_cons]
  exact ⟨hack _, trivial, trivial, hack _, hack _, trivial, hack _, trivial, by simp⟩

/-- **The FIN repeats the last chunk**, at the position after it. -/
theorem fin_not_faithful : ¬ ∀ (isn random : BitVec 32) (es : List Event), (∀ e ∈ es, Transfer.Transfers e) →
    Run.Always (Transfer.step random) (Transfer.SendsFaithful random)
      ⟨(accepting isn random).step .connected, [], 0, 0⟩ es := by
  intro h
  have := h 1000 5000 [.packetFromRemote [72] true, .close] (by simp [Transfer.Transfers])
  revert this
  decide +kernel

end TCPController

end SmartTunnel
