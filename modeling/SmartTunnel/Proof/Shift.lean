import SmartTunnel.Proof.Upload

/-!
# Shifting the client's sequence numbers

`shift k c` is the controller `c` for a client whose numbers are all `k` larger: its SYN, its queued
packets, the numbers the controller keeps of it, and the acknowledgment numbers and SACK edges of the
packets sent to it. Every method but the signed comparisons commutes with it; a step whose comparisons
come out the same does too (`step_shift`), and so does a run of them (`translation_invariant`).
-/

namespace SmartTunnel

open Jvm ByteUtil BigEndian

/-! ## What is shifted -/

/-- A number in its four bytes, shifted. -/
def shiftNumber (k : BitVec 32) (bs : Bytes) : Bytes := getByteFromInt (BitVec.ofNat 32 (beNat bs) + k) 4

/-- Numbers one after the other, shifted. -/
def shiftNumbers (k : BitVec 32) : Bytes → Bytes
  | a :: b :: c :: d :: rest => shiftNumber k [a, b, c, d] ++ shiftNumbers k rest
  | rest => rest

/-- The SACK edges of an option, shifted. -/
def TCPOption.shift (k : BitVec 32) (op : TCPOption) : TCPOption :=
  { op with selectiveAcknowledgment := op.selectiveAcknowledgment.map (shiftNumbers k) }

/-- The sequence number of a client's header, shifted. -/
def TCP.shiftSequence (k : BitVec 32) (t : TCP) : TCP :=
  { t with mSequenceNumber := t.mSequenceNumber.map (shiftNumber k) }

/-- The acknowledgment number and the SACK edges of a header to the client, shifted. -/
def TCP.shiftAcknowledgment (k : BitVec 32) (t : TCP) : TCP :=
  { t with
    mAcknowledgmentNumber := t.mAcknowledgmentNumber.map (shiftNumber k)
    mTCPOption := t.mTCPOption.map (TCPOption.shift k) }

def PacketV4.shift (k : BitVec 32) (p : PacketV4) : PacketV4 :=
  { p with mTransmissionProtocol := match p.mTransmissionProtocol with
    | .tcp t => .tcp (t.shiftAcknowledgment k)
    | .udp u => .udp u }

def SACK.shift (k : BitVec 32) (sack : SACK) : SACK := ⟨sack.leftEdge + k, sack.rightEdge + k⟩

def Segment.shift (k : BitVec 32) (pk : Segment) : Segment := { pk with sequenceNumber := pk.sequenceNumber + k }

/-- A wrapper of a client's packet; a placeholder has no next number. -/
def TCPPacketWrapper.shiftSegment (k : BitVec 32) (w : TCPPacketWrapper Segment) : TCPPacketWrapper Segment :=
  { w with
    mPacket := w.mPacket.map (Segment.shift k)
    sequenceNumber := w.sequenceNumber + k
    nextSequenceNumber := if w.mPacket.isSome then w.nextSequenceNumber + k else w.nextSequenceNumber }

/-- A wrapper of a packet kept for retransmission. -/
def TCPPacketWrapper.shiftPacket (k : BitVec 32) (w : TCPPacketWrapper PacketV4) : TCPPacketWrapper PacketV4 :=
  { w with
    mPacket := w.mPacket.map (PacketV4.shift k)
    acknowledgeNumber := w.acknowledgeNumber + k }

def Effect.shift (k : BitVec 32) : Effect → Effect
  | .queued w => .queued (w.shiftSegment k)
  | .polled w => .polled (w.shiftSegment k)
  | .onPacketReadyForClient packet => .onPacketReadyForClient (packet.shift k)
  | e => e

namespace TCPController

def shift (k : BitVec 32) (c : TCPController) : TCPController :=
  { c with
    mInitialTCP := c.mInitialTCP.shiftSequence k
    mRemotePacketQueue := c.mRemotePacketQueue.map (TCPPacketWrapper.shiftSegment k)
    mClientPackets := c.mClientPackets.map (TCPPacketWrapper.shiftPacket k)
    mClientSeqNumber := c.mClientSeqNumber + k
    mClientNexSeqNumber := c.mClientNexSeqNumber + k
    log := c.log.map (Effect.shift k) }

def Event.shift (k : BitVec 32) : Event → Event
  | .client pk => .client (pk.shift k)
  | e => e

/-! ## Runs -/

/-- Adding `k` keeps the signed order of the numbers. -/
def KeepsOrder (k : BitVec 32) (numbers : List (BitVec 32)) : Prop :=
  ∀ a ∈ numbers, ∀ b ∈ numbers, (a + k).toInt ≤ (b + k).toInt ↔ a.toInt ≤ b.toInt

instance (k : BitVec 32) (numbers : List (BitVec 32)) : Decidable (KeepsOrder k numbers) :=
  decidable_of_iff ((numbers.all fun a => numbers.all fun b =>
    decide ((a + k).toInt ≤ (b + k).toInt ↔ a.toInt ≤ b.toInt)) = true) (by simp [KeepsOrder])

/-- The numbers that are compared when a segment goes into the queue. -/
def comparedNumbers (c : TCPController) (pk : Segment) : List (BitVec 32) :=
  pk.sequenceNumber :: (pk.sequenceNumber + BitVec.ofNat 32 pk.dataLength) ::
    c.mRemotePacketQueue.map TCPPacketWrapper.sequenceNumber

/-- The queue after a segment went into it. -/
def queueWith (c : TCPController) (pk : Segment) : List (TCPPacketWrapper Segment) :=
  (Java.exec (putToQueue (wrapperOf pk (pk.flag.PSH = 1))) c).2.mRemotePacketQueue

/-- What a shift by `k` asks of a segment at `mClientNexSeqNumber`: if it goes into the queue, the numbers
compared there keep their order. -/
def UnmovedNext (k : BitVec 32) (c : TCPController) (pk : Segment) : Prop :=
  pk.flag.PSH = 1 ∨ (pk.flag.ACK = 1 ∧ pk.flag.FIN = 0 ∧ pk.flag.RST = 0 ∧ pk.data.isSome) →
    KeepsOrder k (c.comparedNumbers pk)

/-- What it asks of another segment with payload, a keep-alive apart: it stays on its side of that number,
and if it is ahead, the numbers compared in the queue keep their order and there is at most one SACK block
to report. -/
def UnmovedAhead (k : BitVec 32) (c : TCPController) (pk : Segment) : Prop :=
  pk.data.isSome → pk.sequenceNumber ≠ c.mClientNexSeqNumber - 1 →
    KeepsOrder k [c.mClientNexSeqNumber, pk.sequenceNumber] ∧
    (c.mClientNexSeqNumber.toInt < pk.sequenceNumber.toInt →
      KeepsOrder k (c.comparedNumbers pk) ∧ (generateSacks (c.queueWith pk)).length ≤ 1)

instance (k : BitVec 32) (c : TCPController) (pk : Segment) : Decidable (UnmovedNext k c pk) :=
  inferInstanceAs (Decidable (_ → _))

instance (k : BitVec 32) (c : TCPController) (pk : Segment) : Decidable (UnmovedAhead k c pk) :=
  inferInstanceAs (Decidable (_ → _ → _))

def Unmoved (k : BitVec 32) (c : TCPController) : Event → Prop
  | .client pk => c.processorEnded = false → ¬ (pk.flag.SYN = 1 ∧ pk.flag.ACK = 0) →
    (pk.sequenceNumber = c.mClientNexSeqNumber → UnmovedNext k c pk) ∧
    (pk.sequenceNumber ≠ c.mClientNexSeqNumber → UnmovedAhead k c pk)
  | _ => True

instance (k : BitVec 32) (c : TCPController) : ∀ e, Decidable (Unmoved k c e)
  | .client _ => inferInstanceAs (Decidable (_ → _ → _ ∧ _))
  | .connected | .poll | .packetFromRemote _ _ | .tick | .close | .remoteClosed | .terminate =>
    inferInstanceAs (Decidable True)

/-! ## Packets to the client -/

section Packets

variable {k : BitVec 32} {c : TCPController}

theorem shiftNumber_getByteFromInt (k v : BitVec 32) : shiftNumber k (getByteFromInt v 4) = getByteFromInt (v + k) 4 := by
  rw [shiftNumber, beNat_getByteFromInt]
  simp

theorem shiftNumber_length (k : BitVec 32) (bs : Bytes) : (shiftNumber k bs).length = 4 :=
  getByteFromInt_four_length _

theorem shiftNumbers_length (k : BitVec 32) (bs : Bytes) : (shiftNumbers k bs).length = bs.length := by
  fun_induction shiftNumbers k bs with
  | case1 a b c d rest ih =>
    rw [List.length_append, shiftNumber_length, ih]
    simp only [List.length_cons]
    omega
  | case2 rest => rfl

/-- A number in front of others. -/
theorem shiftNumbers_append (k v : BitVec 32) (rest : Bytes) :
    shiftNumbers k (getByteFromInt v 4 ++ rest) = getByteFromInt (v + k) 4 ++ shiftNumbers k rest := by
  obtain ⟨a, b, c, d, hv⟩ : ∃ a b c d, getByteFromInt v 4 = [a, b, c, d] := by
    rw [getByteFromInt_four]
    exact ⟨_, _, _, _, rfl⟩
  rw [← shiftNumber_getByteFromInt, hv]
  rfl

/-- A shifted option has as many bytes. -/
theorem getBytes_shift_length (op : TCPOption) :
    (op.shift k).getBytes.map List.length = op.getBytes.map List.length := by
  have hite : ∀ s s' : Bytes, s'.length = s.length →
      (if s'.length = 0 then none else some s').map List.length =
        (if s.length = 0 then none else some s).map List.length := by
    intro s s' h
    rw [h]
    split
    · rfl
    · simp [h]
  cases ho : op.options with
  | some options => simp only [TCPOption.getBytes, TCPOption.shift, ho]
  | none =>
    simp only [TCPOption.getBytes, TCPOption.shift, ho, TCPOption.generateOptions]
    refine hite _ _ ?_
    cases op.selectiveAcknowledgment with
    | none => rfl
    | some sa => simp only [Option.map_some, List.length_append, List.length_cons, shiftNumbers_length]

theorem getHeaderLength_shift (t : TCP) : (t.shiftAcknowledgment k).getHeaderLength = t.getHeaderLength := by
  cases ho : t.mTCPOption with
  | none => simp only [TCP.getHeaderLength, TCP.optionBytes, TCP.shiftAcknowledgment, ho, Option.map_none]
  | some op =>
    have hlen := getBytes_shift_length (k := k) op
    simp only [TCP.getHeaderLength, TCP.optionBytes, TCP.shiftAcknowledgment, ho, Option.map_some]
    cases h₁ : op.getBytes with
    | none =>
      rw [h₁, Option.map_none, Option.map_eq_none_iff] at hlen
      rw [hlen]
    | some bs =>
      rw [h₁, Option.map_some, Option.map_eq_some_iff] at hlen
      obtain ⟨bs', h₂, hl⟩ := hlen
      simp only [h₂, deref_some, bind, Except.bind, hl]

/-- What the window advertised depends on. -/
theorem totalRemainingPacketDataSize_shift (q : List (TCPPacketWrapper Segment)) :
    totalRemainingPacketDataSize (q.map (TCPPacketWrapper.shiftSegment k)) = totalRemainingPacketDataSize q := by
  have hpeek : peekLength (q.map (TCPPacketWrapper.shiftSegment k)) = peekLength q := by
    cases q with
    | nil => rfl
    | cons w q =>
      simp only [List.map_cons, peekLength, TCPPacketWrapper.shiftSegment]
      cases w.mPacket <;> rfl
  simp only [totalRemainingPacketDataSize, hpeek, List.map_map]
  rfl

theorem makeTcp_shift (c : TCPController) (flag : TCPFlag) (option : Option TCPOption) :
    (c.shift k).makeTcp flag (option.map (TCPOption.shift k)) = (c.makeTcp flag option).shiftAcknowledgment k := by
  have hwindow : (c.shift k).advertisedWindow = c.advertisedWindow := by
    simp only [advertisedWindow, TCPController.shift, totalRemainingPacketDataSize_shift]
  have hack : getByteFromInt (c.mClientNexSeqNumber + k) 4 = shiftNumber k (getByteFromInt c.mClientNexSeqNumber 4) :=
    (shiftNumber_getByteFromInt k _).symm
  unfold makeTcp
  rw [hwindow]
  simp only [TCP.setAcknowledgmentNumber, TCP.setSequenceNumber, TCP.setWindowSize, TCP.setUrgentPointer,
    TCP.shiftAcknowledgment, TCPController.shift, TCP.shiftSequence, hack, Option.map_some]

theorem create_shift (header : IPV4Header) (t : TCP) (data : Option Bytes) :
    PacketV4.create header (.tcp (t.shiftAcknowledgment k)) data =
      (PacketV4.create header (.tcp t) data).map (PacketV4.shift k) := by
  simp only [PacketV4.create, TransmissionProtocol.getHeaderLength, getHeaderLength_shift, bind, Except.bind]
  cases t.getHeaderLength with
  | error e => rfl
  | ok length =>
    dsimp only
    split <;> rfl

theorem sent_shift (c : TCPController) (data : Option Bytes) (flag : TCPFlag) (option : Option TCPOption) :
    (c.shift k).sent data flag (option.map (TCPOption.shift k)) = (c.sent data flag option).shift k := by
  have hpacket : (c.shift k).nextPacket data flag (option.map (TCPOption.shift k)) =
      (c.nextPacket data flag option).shift k := by
    simp only [nextPacket, makeTcp_shift]
    rfl
  unfold sent
  rw [hpacket]
  cases data <;> simp [TCPController.shift, Effect.shift, TCPPacketWrapper.shiftPacket]

/-- **The packet sent to a shifted client is the shifted packet.** -/
theorem makeAndSend_shift (c : TCPController) (data : Option Bytes) (flag : TCPFlag)
    (option : Option TCPOption) :
    Java.Simulates (shift k) id (makeAndSend data flag option)
      (makeAndSend data flag (option.map (TCPOption.shift k))) c := by
  have hheader : (c.shift k).nextHeader = c.nextHeader := rfl
  unfold Java.Simulates
  rw [makeAndSend_exec, makeAndSend_exec, makeTcp_shift, hheader, create_shift]
  cases PacketV4.create c.nextHeader (.tcp (c.makeTcp flag option)) data with
  | error e => rfl
  | ok p =>
    change (Except.ok (), _) = (Except.ok (), _)
    rw [sent_shift]

theorem emit_shift (c : TCPController) (e : Effect) :
    Java.Simulates (shift k) id (emit e) (emit (e.shift k)) c := by
  refine Java.Simulates.modify ?_
  simp [TCPController.shift]

theorem setState_shift (c : TCPController) (state : State) :
    Java.Simulates (shift k) id (setState state) (setState state) c :=
  Java.Simulates.modify rfl

theorem sendACKToClient_shift (c : TCPController) (option : Option TCPOption) :
    Java.Simulates (shift k) id (sendACKToClient option) (sendACKToClient (option.map (TCPOption.shift k))) c :=
  makeAndSend_shift c none TCPFlag.ACKOnly option

theorem lastData_shift (c : TCPController) : (c.shift k).lastData = c.lastData := by
  simp only [lastData, TCPController.shift, List.getLast?_map, Option.map_map]
  congr 1
  funext w
  simp only [Function.comp, TCPPacketWrapper.shiftPacket]
  cases w.mPacket <;> rfl

theorem sendClosing_shift (c : TCPController) (flag : TCPFlag) :
    Java.Simulates (shift k) id (sendClosing flag) (sendClosing flag) c := by
  refine Java.Simulates.bind (Java.Simulates.get (shift k) c) fun a c' h => ?_
  obtain ⟨rfl, rfl⟩ : a = c ∧ c' = c := Java.exec_get_ok.1 h
  rw [lastData_shift]
  cases c'.lastData with
  | none => exact makeAndSend_shift c' none flag none
  | some data => exact makeAndSend_shift c' data { flag with PSH := 1 } none

theorem sendFINPacket_shift (c : TCPController) :
    Java.Simulates (shift k) id sendFINPacket sendFINPacket c := by
  refine Java.Simulates.bind (Java.Simulates.get (shift k) c) fun a c' h => ?_
  obtain ⟨rfl, rfl⟩ : a = c ∧ c' = c := Java.exec_get_ok.1 h
  exact Java.Simulates.bind (setState_shift c' _) fun _ c' _ => sendClosing_shift c' _

theorem handshake_shift (c : TCPController) : Java.Simulates (shift k) id handshake handshake c :=
  Java.Simulates.bind (setState_shift c _) fun _ c' _ =>
    makeAndSend_shift c' none TCPFlag.SYN_ACK (some (serverOption {}))

theorem sendKeepAlivePacket_shift (c : TCPController) :
    Java.Simulates (shift k) id sendKeepAlivePacket sendKeepAlivePacket c :=
  Java.Simulates.bind (Java.Simulates.modify rfl) fun _ c' _ =>
    makeAndSend_shift c' (some [0]) TCPFlag.ACKOnly none

theorem sendDataToClient_shift (c : TCPController) (data : Bytes) (push : Bool) :
    Java.Simulates (shift k) id (sendDataToClient data push) (sendDataToClient data push) c :=
  makeAndSend_shift c (some data) _ none

theorem terminate_shift (c : TCPController) : Java.Simulates (shift k) id terminate terminate c :=
  Java.Simulates.bind (sendClosing_shift c _) fun _ _ _ => Java.Simulates.modify rfl

theorem onTermination_shift (c : TCPController) : Java.Simulates (shift k) id onTermination onTermination c :=
  Java.Simulates.bind (emit_shift c .onTermination) fun _ c' _ => terminate_shift c'

/-- One SACK block is written whole; of two, the second overwrites a half of the first. -/
theorem setSelectiveAcknowledgment_shift {sacks : List SACK} (h : sacks.length ≤ 1) :
    TCPOption.setSelectiveAcknowledgment {} (sacks.map (SACK.shift k)) =
      (TCPOption.setSelectiveAcknowledgment {} sacks).map (TCPOption.shift k) := by
  have hone : ∀ sack : SACK, TCPOption.setSelectiveAcknowledgment {} [sack] =
      .ok { selectiveAcknowledgment := some (getByteFromInt sack.leftEdge 4 ++ getByteFromInt sack.rightEdge 4) } := by
    intro sack
    rw [getByteFromInt_four, getByteFromInt_four]
    simp only [TCPOption.setSelectiveAcknowledgment, List.foldlM_cons, List.foldlM_nil, TCPOption.writeBlock,
      getByteFromInt_four]
    rfl
  rcases sacks with _ | ⟨sack, _ | ⟨_, _⟩⟩
  · rfl
  · rw [List.map_singleton, hone, hone]
    have hedges : shiftNumbers k (getByteFromInt sack.leftEdge 4 ++ getByteFromInt sack.rightEdge 4) =
        getByteFromInt (sack.leftEdge + k) 4 ++ getByteFromInt (sack.rightEdge + k) 4 := by
      rw [shiftNumbers_append, ← List.append_nil (getByteFromInt sack.rightEdge 4), shiftNumbers_append]
      simp [shiftNumbers]
    simp only [Except.map, TCPOption.shift, Option.map_some, hedges, SACK.shift]
  · simp at h

theorem sendSacks_shift (c : TCPController) {sacks : List SACK} (h : sacks.length ≤ 1) :
    Java.Simulates (shift k) id (sendSacks sacks) (sendSacks (sacks.map (SACK.shift k))) c :=
  Java.Simulates.bind (Java.Simulates.lift (setSelectiveAcknowledgment_shift h) _ _) fun option c' _ =>
    sendACKToClient_shift c' (some option)

end Packets

/-! ## The queue -/

section Queue

variable {k : BitVec 32} {c : TCPController} {q : List (TCPPacketWrapper Segment)} {w : TCPPacketWrapper Segment}
  {pk : Segment}

theorem mem_of_mem_put {a : TCPPacketWrapper Segment} (h : a ∈ TCPPacketQueue.put w q) : a = w ∨ a ∈ q := by
  unfold TCPPacketQueue.put at h
  have hmem := (List.mem_insertionSort _).1 h
  cases hi : TCPPacketQueue.indexOf q w with
  | some pos =>
    rw [hi] at hmem
    exact (List.mem_or_eq_of_mem_set hmem).symm
  | none =>
    rw [hi] at hmem
    rcases List.mem_append.1 hmem with hq | hw
    · exact .inr hq
    · exact .inl (List.mem_singleton.1 hw)

/-- **`put` commutes with a shift that keeps the order of the numbers.** -/
theorem put_shift (h : KeepsOrder k (w.sequenceNumber :: q.map TCPPacketWrapper.sequenceNumber)) :
    TCPPacketQueue.put (w.shiftSegment k) (q.map (TCPPacketWrapper.shiftSegment k)) =
      (TCPPacketQueue.put w q).map (TCPPacketWrapper.shiftSegment k) := by
  have hindex : TCPPacketQueue.indexOf (q.map (TCPPacketWrapper.shiftSegment k)) (w.shiftSegment k) =
      TCPPacketQueue.indexOf q w := by
    unfold TCPPacketQueue.indexOf
    rw [List.findIdx?_map]
    congr 1
    funext v
    simp only [Function.comp, TCPPacketWrapper.shiftSegment]
    rw [Bool.eq_iff_iff, beq_iff_eq, beq_iff_eq]
    exact add_left_inj k
  have hkeys : ∀ l : List (TCPPacketWrapper Segment), (∀ a ∈ l, a = w ∨ a ∈ q) →
      TCPPacketQueue.sort (l.map (TCPPacketWrapper.shiftSegment k)) =
        (TCPPacketQueue.sort l).map (TCPPacketWrapper.shiftSegment k) := by
    intro l hl
    have hnumber : ∀ a ∈ l, a.sequenceNumber ∈ w.sequenceNumber :: q.map TCPPacketWrapper.sequenceNumber := by
      intro a ha
      rcases hl a ha with rfl | hq
      · exact List.mem_cons_self
      · exact List.mem_cons_of_mem _ (List.mem_map_of_mem hq)
    exact Keyed.insertionSort_map fun a ha b hb => h _ (hnumber a ha) _ (hnumber b hb)
  unfold TCPPacketQueue.put
  rw [hindex]
  cases hi : TCPPacketQueue.indexOf q w with
  | some pos =>
    simp only
    rw [← List.map_set]
    exact hkeys _ fun a ha => (List.mem_or_eq_of_mem_set ha).symm
  | none =>
    simp only
    rw [← List.map_singleton, ← List.map_append]
    refine hkeys _ fun a ha => ?_
    rcases List.mem_append.1 ha with hq | hw
    · exact .inr hq
    · exact .inl (List.mem_singleton.1 hw)

theorem wrapperOf_shift (pk : Segment) (push : Bool) :
    wrapperOf (pk.shift k) push = (wrapperOf pk push).shiftSegment k := by
  simp only [wrapperOf, createPacketWrapper, TCPPacketWrapper.shiftSegment, Option.map_some, Option.isSome_some,
    if_true, Segment.shift, Segment.dataLength, TCPPacketWrapper.mk.injEq, true_and, and_true]
  ring

/-- A packet and its placeholder. -/
theorem putToQueue_shift (c : TCPController) (push : Bool) (h : KeepsOrder k (c.comparedNumbers pk)) :
    Java.Simulates (shift k) id (putToQueue (wrapperOf pk push)) (putToQueue (wrapperOf (pk.shift k) push)) c := by
  set w := wrapperOf pk push with hw
  set ph := createPacketWrapper none w.nextSequenceNumber 0 0 false with hph
  have hsub : ∀ {ns ms : List (BitVec 32)}, KeepsOrder k ms → (∀ n ∈ ns, n ∈ ms) → KeepsOrder k ns :=
    fun hms hns a ha b hb => hms a (hns a ha) b (hns b hb)
  have hput : TCPPacketQueue.put (w.shiftSegment k) (c.mRemotePacketQueue.map (TCPPacketWrapper.shiftSegment k)) =
      (TCPPacketQueue.put w c.mRemotePacketQueue).map (TCPPacketWrapper.shiftSegment k) := by
    refine put_shift (hsub h ?_)
    intro n hn
    rcases List.mem_cons.1 hn with rfl | hn
    · exact List.mem_cons_self
    · exact List.mem_cons_of_mem _ (List.mem_cons_of_mem _ hn)
  have hnext : createPacketWrapper none (w.shiftSegment k).nextSequenceNumber 0 0 false = ph.shiftSegment k := by
    simp [hph, hw, createPacketWrapper, wrapperOf, TCPPacketWrapper.shiftSegment]
  have hput' : TCPPacketQueue.put (ph.shiftSegment k)
      ((TCPPacketQueue.put w c.mRemotePacketQueue).map (TCPPacketWrapper.shiftSegment k)) =
        (TCPPacketQueue.put ph (TCPPacketQueue.put w c.mRemotePacketQueue)).map
          (TCPPacketWrapper.shiftSegment k) := by
    refine put_shift (hsub h ?_)
    intro n hn
    rcases List.mem_cons.1 hn with rfl | hn
    · exact List.mem_cons_of_mem _ List.mem_cons_self
    · obtain ⟨a, ha, rfl⟩ := List.mem_map.1 hn
      rcases mem_of_mem_put ha with rfl | hq
      · exact List.mem_cons_self
      · exact List.mem_cons_of_mem _ (List.mem_cons_of_mem _ (List.mem_map_of_mem hq))
  unfold Java.Simulates
  rw [wrapperOf_shift, putToQueue_exec, putToQueue_exec, ← hw, hnext]
  simp only [TCPController.shift, hput, hput', List.map_append, List.map_singleton, Effect.shift]
  rfl

/-- The scans of a queue and of the shifted queue: the edges are looked at only in a block. -/
structure ScanShift (k : BitVec 32) (s s' : SackScan) : Prop where
  left : s'.findLeftEdge = s.findLeftEdge
  right : s'.findRightEdge = s.findRightEdge
  sacks : s'.sacks = s.sacks.map (SACK.shift k)
  inside : s.findRightEdge = true → s.findLeftEdge = true
  edges : s.findRightEdge = true → s'.leftEdge = s.leftEdge + k ∧ s'.previousNext = s.previousNext + k

theorem ScanShift.round {s s' : SackScan} (h : ScanShift k s s') (w : TCPPacketWrapper Segment) :
    ScanShift k (s.round w) (s'.round (w.shiftSegment k)) := by
  obtain ⟨fl, fr, le, pn, sacks⟩ := s
  obtain ⟨fl', fr', le', pn', sacks'⟩ := s'
  obtain ⟨hl, hr, hs, hin, he⟩ := h
  dsimp only at hl hr hs hin he
  subst hl hr hs
  cases hp : w.mPacket with
  | none =>
    have hnext : (w.shiftSegment k).nextSequenceNumber = w.nextSequenceNumber := by
      simp [TCPPacketWrapper.shiftSegment, hp]
    have hnone : (w.shiftSegment k).mPacket.isNone = true := by simp [TCPPacketWrapper.shiftSegment, hp]
    cases fl' with
    | false =>
      cases fr' with
      | false => constructor <;> simp [SackScan.round, hp, hnone]
      | true => exact absurd (hin rfl) (by decide)
    | true =>
      cases fr' with
      | false => constructor <;> simp [SackScan.round, hp, hnone]
      | true =>
        obtain ⟨rfl, rfl⟩ := he rfl
        constructor <;> simp [SackScan.round, hp, hnone, SACK.shift]
  | some pk =>
    have hnext : (w.shiftSegment k).nextSequenceNumber = w.nextSequenceNumber + k := by
      simp [TCPPacketWrapper.shiftSegment, hp]
    have hsome : (w.shiftSegment k).mPacket.isNone = false := by simp [TCPPacketWrapper.shiftSegment, hp]
    cases fl' with
    | false =>
      cases fr' with
      | false => constructor <;> simp [SackScan.round, hp, hsome]
      | true => exact absurd (hin rfl) (by decide)
    | true => constructor <;> simp [SackScan.round, hp, hsome, hnext]

theorem generateSacks_shift (q : List (TCPPacketWrapper Segment)) :
    generateSacks (q.map (TCPPacketWrapper.shiftSegment k)) = (generateSacks q).map (SACK.shift k) := by
  have hfold : ∀ (q : List (TCPPacketWrapper Segment)) {s s' : SackScan}, ScanShift k s s' →
      ScanShift k (q.foldl SackScan.round s) ((q.map (TCPPacketWrapper.shiftSegment k)).foldl SackScan.round s') := by
    intro q
    induction q with
    | nil => intro s s' h; exact h
    | cons w q ih => intro s s' h; exact ih (h.round w)
  have hstart : ScanShift k {} {} := ⟨rfl, rfl, rfl, by simp, by simp⟩
  exact (hfold q hstart).sacks

/-- A segment that is not at `mClientNexSeqNumber`. -/
theorem outOfSequence_shift (c : TCPController) (h : UnmovedAhead k c pk) :
    Java.Simulates (shift k) id (outOfSequence pk) (outOfSequence (pk.shift k)) c := by
  refine Java.Simulates.bind (Java.Simulates.get (shift k) c) fun a c' hget => ?_
  obtain ⟨rfl, rfl⟩ : a = c ∧ c' = c := Java.exec_get_ok.1 hget
  cases hd : pk.data with
  | none =>
    have hd' : (pk.shift k).data = none := hd
    simp only [hd']
    exact Java.Simulates.ite Iff.rfl (fun _ => onTermination_shift c') fun _ => Java.Simulates.pure _ id () _
  | some data =>
    have hd' : (pk.shift k).data = some data := hd
    simp only [hd']
    have hkeep : (pk.shift k).sequenceNumber = (c'.shift k).mClientNexSeqNumber - 1 ↔
        pk.sequenceNumber = c'.mClientNexSeqNumber - 1 := by
      change pk.sequenceNumber + k = c'.mClientNexSeqNumber + k - 1 ↔ _
      rw [show c'.mClientNexSeqNumber + k - 1 = c'.mClientNexSeqNumber - 1 + k by ring]
      exact add_left_inj k
    refine Java.Simulates.ite hkeep (fun _ => ?_) fun hne => ?_
    · have hsack : [(⟨(pk.shift k).sequenceNumber,
          (pk.shift k).sequenceNumber + BitVec.ofNat 32 data.length⟩ : SACK)] =
            [(⟨pk.sequenceNumber, pk.sequenceNumber + BitVec.ofNat 32 data.length⟩ : SACK)].map (SACK.shift k) := by
        simp only [List.map_singleton, SACK.shift, Segment.shift, List.cons.injEq, SACK.mk.injEq, true_and, and_true]
        ring
      rw [hsack]
      exact sendSacks_shift c' (by simp)
    · obtain ⟨hside, hahead⟩ := h (by rw [hd]; rfl) hne
      have hlt : (c'.shift k).mClientNexSeqNumber.toInt < (pk.shift k).sequenceNumber.toInt ↔
          c'.mClientNexSeqNumber.toInt < pk.sequenceNumber.toInt := by
        rw [← not_le, ← not_le]
        exact not_congr (hside _ (by simp) _ (by simp))
      refine Java.Simulates.ite hlt (fun hl => ?_) fun _ => Java.Simulates.pure _ id () _
      obtain ⟨horder, hone⟩ := hahead hl
      refine Java.Simulates.bind (putToQueue_shift c' _ horder) fun _ c₁ hput =>
        Java.Simulates.bind (Java.Simulates.get (shift k) c₁) fun a c₂ hget => ?_
      obtain ⟨rfl, rfl⟩ : a = c₁ ∧ c₂ = c₁ := Java.exec_get_ok.1 hget
      have hqueue : generateSacks (c₂.shift k).mRemotePacketQueue =
          (generateSacks c₂.mRemotePacketQueue).map (SACK.shift k) := generateSacks_shift _
      rw [hqueue]
      refine sendSacks_shift c₂ ?_
      rw [queueWith, hput] at hone
      exact hone

end Queue

/-! ## The processor -/

section Processor

variable {k : BitVec 32} {c : TCPController} {pk : Segment}

theorem next_shift (pk : Segment) : (pk.shift k).next = pk.next + k := by
  unfold Segment.next
  exact add_right_comm _ _ _

theorem updateClientSeqNumber_shift (c : TCPController) (pk : Segment) :
    Java.Simulates (shift k) id (updateClientSeqNumber pk) (updateClientSeqNumber (pk.shift k)) c := by
  unfold Java.Simulates
  rw [updateClientSeqNumber_exec, updateClientSeqNumber_exec, next_shift]
  rfl

theorem queueInSequence_shift (c : TCPController) (push : Bool) (h : KeepsOrder k (c.comparedNumbers pk)) :
    Java.Simulates (shift k) id (queueInSequence pk push) (queueInSequence (pk.shift k) push) c :=
  Java.Simulates.bind (putToQueue_shift c push h) fun _ c' _ => updateClientSeqNumber_shift c' pk

theorem acceptSynAck_shift (c : TCPController) (pk : Segment) :
    Java.Simulates (shift k) id (acceptSynAck pk) (acceptSynAck (pk.shift k)) c :=
  Java.Simulates.bind (updateClientSeqNumber_shift c pk) fun _ c' _ =>
    sendACKToClient_shift c' (some (serverOption {}))

theorem acceptFin_shift (c : TCPController) (pk : Segment) :
    Java.Simulates (shift k) id (acceptFin pk) (acceptFin (pk.shift k)) c := by
  refine Java.Simulates.bind (updateClientSeqNumber_shift c pk) fun _ c₁ _ =>
    Java.Simulates.bind (emit_shift c₁ .finAccepted) fun _ c₂ _ =>
      Java.Simulates.bind (Java.Simulates.get (shift k) c₂) fun a c₃ hget => ?_
  obtain ⟨rfl, rfl⟩ : a = c₂ ∧ c₃ = c₂ := Java.exec_get_ok.1 hget
  refine Java.Simulates.ite Iff.rfl (fun _ => ?_) fun _ => ?_
  · exact Java.Simulates.bind (setState_shift c₃ _) fun _ c₄ _ =>
      Java.Simulates.bind (sendACKToClient_shift c₄ none) fun _ c₅ _ =>
        Java.Simulates.bind (setState_shift c₅ _) fun _ c₆ _ => sendFINPacket_shift c₆
  · exact Java.Simulates.bind (setState_shift c₃ _) fun _ c₄ _ => sendACKToClient_shift c₄ none

theorem removeAcknowledgedPackets_shift (c : TCPController) (ack : BitVec 32) :
    Java.Simulates (shift k) id (removeAcknowledgedPackets ack) (removeAcknowledgedPackets ack) c := by
  refine Java.Simulates.modify ?_
  have hfind : (c.mClientPackets.map (TCPPacketWrapper.shiftPacket k)).findIdx?
      (fun w => w.nextSequenceNumber == ack) =
        c.mClientPackets.findIdx? fun w => w.nextSequenceNumber == ack := by
    rw [List.findIdx?_map]
    rfl
  simp only [TCPController.shift, hfind]
  cases c.mClientPackets.findIdx? fun w => w.nextSequenceNumber == ack with
  | none => rfl
  | some i => simp only [List.map_drop]

theorem findLossPacket_shift (sacks : List (Option SACK)) (ws : List (TCPPacketWrapper PacketV4)) (i : ℕ)
    (ack : BitVec 32) :
    findLossPacket sacks (ws.map (TCPPacketWrapper.shiftPacket k)) i ack =
      (findLossPacket sacks ws i ack).map (List.map (TCPPacketWrapper.shiftPacket k)) := by
  induction ws generalizing i ack with
  | nil => rfl
  | cons w ws ih =>
    have hseq : (w.shiftPacket k).sequenceNumber = w.sequenceNumber := rfl
    have hnext : (w.shiftPacket k).nextSequenceNumber = w.nextSequenceNumber := rfl
    -- a packet in front of what the rest gives
    have hcons : ∀ j a, (do return w.shiftPacket k ::
        (← findLossPacket sacks (ws.map (TCPPacketWrapper.shiftPacket k)) j a)) =
          (do return w :: (← findLossPacket sacks ws j a) : Except JavaException _).map
            (List.map (TCPPacketWrapper.shiftPacket k)) := by
      intro j a
      rw [ih]
      cases findLossPacket sacks ws j a <;> rfl
    simp only [List.map_cons, findLossPacket, hseq, hnext]
    cases sacks[i]? with
    | none => rfl
    | some sack =>
      simp only
      split
      · cases sack with
        | none => rfl
        | some sack =>
          simp only [deref_some, bind, Except.bind]
          split
          · split
            · rfl
            · exact hcons _ _
          · exact hcons _ _
      · exact ih _ _

theorem resendPacketsToClient_shift (c : TCPController) (sacks : List (Option SACK)) (ack : BitVec 32) :
    Java.Simulates (shift k) id (resendPacketsToClient sacks ack) (resendPacketsToClient sacks ack) c := by
  have hlost : (c.shift k).lossPackets sacks ack =
      (c.lossPackets sacks ack).map (List.map (PacketV4.shift k)) := by
    simp only [lossPackets, TCPController.shift, findLossPacket_shift, bind, Except.bind, pure, Except.pure]
    cases findLossPacket sacks c.mClientPackets 0 ack with
    | error e => rfl
    | ok ws =>
      simp only [Except.map, Except.ok.injEq, List.filterMap_map, List.map_filterMap]
      rfl
  refine Java.Simulates.bind (Java.Simulates.get (shift k) c) fun a c' hget => ?_
  obtain ⟨rfl, rfl⟩ : a = c ∧ c' = c := Java.exec_get_ok.1 hget
  refine Java.Simulates.bind (Java.Simulates.lift hlost _ _) fun packets c₁ _ => Java.Simulates.modify ?_
  simp only [TCPController.shift, List.map_append, List.map_map]
  rfl

theorem acknowledge_shift (c : TCPController) (pk : Segment) :
    Java.Simulates (shift k) id (acknowledge pk) (acknowledge (pk.shift k)) c := by
  refine Java.Simulates.bind (Java.Simulates.get (shift k) c) fun a c' hget => ?_
  obtain ⟨rfl, rfl⟩ : a = c ∧ c' = c := Java.exec_get_ok.1 hget
  have hstate : (c'.shift k).mState = c'.mState := rfl
  have hoption : (pk.shift k).option = pk.option := rfl
  rw [hstate]
  cases c'.mState with
  | ESTABLISHED =>
    simp only [hoption]
    cases pk.option with
    | none => exact removeAcknowledgedPackets_shift c' _
    | some option =>
      refine Java.Simulates.bind (g := id) (Java.Simulates.lift ?_ _ _) fun sacks c₁ _ => ?_
      · cases option.getSelectiveAcknowledgmentIntValues <;> rfl
      · cases sacks with
        | none => exact Java.Simulates.pure _ id () _
        | some sacks => exact resendPacketsToClient_shift c₁ sacks _
  | FIN_WAIT_1 => exact Java.Simulates.bind (setState_shift c' _) fun _ _ _ => Java.Simulates.modify rfl
  | LAST_ACK => exact onTermination_shift c'
  | SYN_RECEIVED =>
    exact Java.Simulates.bind (emit_shift c' .onConnectionEstablished) fun _ c₁ _ => setState_shift c₁ _
  | _ => exact Java.Simulates.pure _ id () _

/-- The queue does not change before the payload is taken. -/
theorem acceptSynAck_queue (pk : Segment) (q : List (TCPPacketWrapper Segment)) :
    Java.Keeps (fun c => c.mRemotePacketQueue = q) (acceptSynAck pk) := by
  have hstable : SendStable (fun c => c.mRemotePacketQueue = q) :=
    ⟨fun _ h => h, fun _ _ _ _ h => h, fun _ _ h => h, fun _ _ h => h, fun _ h => h, fun _ h => h⟩
  exact Java.Keeps.bind (Java.Keeps.modify fun _ h => h) fun _ => hstable.sendACKToClient _

/-- A segment at `mClientNexSeqNumber`. -/
theorem inSequence_shift (c : TCPController) (h : UnmovedNext k c pk) :
    Java.Simulates (shift k) id (inSequence pk) (inSequence (pk.shift k)) c := by
  have hflag : (pk.shift k).flag = pk.flag := rfl
  have hdata : (pk.shift k).data = pk.data := rfl
  rw [inSequence_eq, inSequence_eq, hflag]
  refine Java.Simulates.bind (g := id) (Java.Simulates.ite Iff.rfl (fun _ => acceptSynAck_shift c pk)
    fun _ => Java.Simulates.pure _ id () _) fun _ c₁ hfirst => ?_
  -- so the numbers that will be compared are still those of `c`
  have hq : c₁.mRemotePacketQueue = c.mRemotePacketQueue := by
    have := Java.Keeps.ite (c := pk.flag.SYN = 1 ∧ pk.flag.ACK = 1) (acceptSynAck_queue pk c.mRemotePacketQueue)
      (Java.Keeps.pure ()) c rfl
    rwa [hfirst] at this
  have h₁ : UnmovedNext k c₁ pk := by
    unfold UnmovedNext comparedNumbers at h ⊢
    rwa [hq]
  refine Java.Simulates.bind (g := id) ?_ fun _ c₂ _ => ?_
  · unfold takePayload
    rw [hflag, hdata]
    refine Java.Simulates.ite Iff.rfl (fun hpsh => queueInSequence_shift c₁ _ (h₁ (.inl hpsh))) fun _ => ?_
    refine Java.Simulates.ite Iff.rfl (fun hack => ?_) fun _ => Java.Simulates.pure _ id () _
    refine Java.Simulates.ite Iff.rfl (fun hsome => ?_) fun _ => acknowledge_shift c₁ pk
    exact queueInSequence_shift c₁ _ (h₁ (.inr ⟨hack.1, hack.2.1, hack.2.2, hsome⟩))
  · unfold takeEnd
    rw [hflag]
    exact Java.Simulates.bind (g := id) (Java.Simulates.ite Iff.rfl (fun _ => onTermination_shift c₂)
      fun _ => Java.Simulates.pure _ id () _) fun _ c₃ _ =>
        Java.Simulates.ite Iff.rfl (fun _ => acceptFin_shift c₃ pk) fun _ => Java.Simulates.pure _ id () _

theorem process_shift (c : TCPController) (h : ¬ (pk.flag.SYN = 1 ∧ pk.flag.ACK = 0) →
    (pk.sequenceNumber = c.mClientNexSeqNumber → UnmovedNext k c pk) ∧
    (pk.sequenceNumber ≠ c.mClientNexSeqNumber → UnmovedAhead k c pk)) :
    Java.Simulates (shift k) id (process pk) (process (pk.shift k)) c := by
  refine Java.Simulates.ite Iff.rfl (fun _ => Java.Simulates.pure _ id () _) fun hsyn => ?_
  obtain ⟨hnext, hahead⟩ := h hsyn
  refine Java.Simulates.bind (g := id) (Java.Simulates.modify rfl) fun _ c₁ hmod => ?_
  obtain rfl := Java.exec_modify_ok.1 hmod
  refine Java.Simulates.bind (Java.Simulates.get (shift k) _) fun a c₂ hget => ?_
  obtain ⟨rfl, rfl⟩ := Java.exec_get_ok.1 hget
  have hseq : (pk.shift k).sequenceNumber ≠ (c.shift k).mClientNexSeqNumber ↔
      pk.sequenceNumber ≠ c.mClientNexSeqNumber := not_congr (add_left_inj k)
  exact Java.Simulates.ite hseq (fun hne => outOfSequence_shift _ (hahead hne))
    fun heq => inSequence_shift _ (hnext (not_not.1 heq))

end Processor

theorem poll_shift {k : BitVec 32} (q : List (TCPPacketWrapper Segment)) :
    TCPPacketQueue.poll (q.map (TCPPacketWrapper.shiftSegment k)) = (TCPPacketQueue.poll q).map
      fun r => (r.1.shiftSegment k, r.2.map (TCPPacketWrapper.shiftSegment k)) := by
  cases q with
  | nil => rfl
  | cons w q =>
    have hreal : (w.shiftSegment k).mPacket.isSome = w.mPacket.isSome := Option.isSome_map
    simp only [List.map_cons, TCPPacketQueue.poll, hreal]
    split <;> rfl

/-- **A step whose comparisons come out the same commutes with the shift.** -/
theorem step_shift {k : BitVec 32} {c : TCPController} {e : Event} (h : Unmoved k c e) :
    (c.shift k).step (e.shift k) = (c.step e).shift k := by
  have hsnd : ∀ {x y : Java TCPController Unit}, Java.Simulates (shift k) id x y c →
      (Java.exec y (c.shift k)).2 = (Java.exec x c).2.shift k := by
    intro x y hxy
    rw [hxy]
  cases e with
  | connected => exact hsnd (handshake_shift c)
  | client pk =>
    change packetFromClient (pk.shift k) (c.shift k) = (packetFromClient pk c).shift k
    have hended : (c.shift k).processorEnded = c.processorEnded := rfl
    unfold packetFromClient
    rw [hended]
    by_cases hopen : c.processorEnded = true
    · rw [if_pos hopen, if_pos hopen]
    rw [if_neg hopen, if_neg hopen]
    have hproc : Java.exec (process (pk.shift k)) (c.shift k) = _ := process_shift c (h (by simpa using hopen))
    rw [hproc]
    rcases Java.exec (process pk) c with ⟨_ | _, c'⟩ <;> rfl
  | poll =>
    change pollQueue (c.shift k) = (pollQueue c).shift k
    unfold pollQueue
    have hpoll : TCPPacketQueue.poll (c.shift k).mRemotePacketQueue = _ := poll_shift c.mRemotePacketQueue
    rw [hpoll]
    cases TCPPacketQueue.poll c.mRemotePacketQueue with
    | none => rfl
    | some r => simp [TCPController.shift, Effect.shift]
  | packetFromRemote data push => exact hsnd (sendDataToClient_shift c data push)
  | tick => exact hsnd (sendKeepAlivePacket_shift c)
  | close => exact hsnd (sendFINPacket_shift c)
  | remoteClosed => exact hsnd (sendFINPacket_shift c)
  | terminate => exact hsnd (terminate_shift c)

theorem polledBytes_shift (k : BitVec 32) (log : List Effect) :
    polledBytes (log.map (Effect.shift k)) = polledBytes log := by
  have hwritten : ∀ e : Effect, written (e.shift k) = written e := by
    intro e
    cases e with
    | polled w =>
      simp only [Effect.shift, written, payload, TCPPacketWrapper.shiftSegment]
      cases w.mPacket <;> rfl
    | _ => rfl
  simp only [polledBytes, List.flatMap_map, hwritten]

/-- The controller of a shifted SYN. -/
theorem new_shift {header : IPV4Header} {tcp : TCP} {random : BitVec 32} {ident : BitVec 16} {c : TCPController}
    (hnew : TCPController.new header tcp random ident = .ok c) (k : BitVec 32) :
    TCPController.new header (tcp.shiftSequence k) random ident = .ok (c.shift k) := by
  have hseq : ∀ isn, tcp.getSequenceNumberIntValue = .ok isn →
      (tcp.shiftSequence k).getSequenceNumberIntValue = .ok (isn + k) := by
    intro isn hisn
    unfold TCP.getSequenceNumberIntValue TCP.shiftSequence at *
    cases hb : tcp.mSequenceNumber with
    | none => rw [hb] at hisn; cases hisn
    | some b =>
      rw [hb] at hisn
      change getIntValue b = .ok isn at hisn
      have hlen : b.length ≤ 4 := by
        by_contra hlong
        rw [getIntValue, if_pos (by omega)] at hisn
        cases hisn
      rw [getIntValue_eq hlen] at hisn
      obtain rfl := Except.ok.inj hisn
      exact getIntValue_getByteFromInt _
  obtain ⟨isn, hisn, -⟩ := new_eq hnew
  have hwindow : (tcp.shiftSequence k).getWindowSize = tcp.getWindowSize := rfl
  have hoption : (tcp.shiftSequence k).mTCPOption = tcp.mTCPOption := rfl
  simp only [TCPController.new, hseq isn hisn, hisn, hwindow, hoption, bind, Except.bind, pure, Except.pure]
    at hnew ⊢
  have hnext : isn + k + 1 = isn + 1 + k := add_right_comm _ _ _
  cases hw : tcp.getWindowSize with
  | error e => rw [hw] at hnew; cases hnew
  | ok window =>
    rw [hw] at hnew
    dsimp only at hnew ⊢
    split at hnew
    · obtain rfl := Except.ok.inj hnew
      simp only [TCPController.shift, hnext, List.map_nil]
    · split at hnew
      · cases hnew
      · obtain rfl := Except.ok.inj hnew
        simp only [TCPController.shift, hnext, List.map_nil]

/-- **Shifting the client's numbers shifts what it sees and nothing else.** In every run of a controller
whose steps are `Unmoved` by `k`, the run with every sequence number of the client `k` larger has the same
effects in the same order, with the numbers shifted, and polls the same payloads. -/
theorem translation_invariant {header : IPV4Header} {tcp : TCP} {random : BitVec 32} {ident : BitVec 16}
    {c : TCPController} (hnew : TCPController.new header tcp random ident = .ok c) (k : BitVec 32)
    (es : List Event) (hun : Run.Always step (Unmoved k) c es) :
    ∃ c', TCPController.new header (tcp.shiftSequence k) random ident = .ok c' ∧
      (Run.run step c' (es.map (Event.shift k))).log = (Run.run step c es).log.map (Effect.shift k) ∧
      polledBytes (Run.run step c' (es.map (Event.shift k))).log = polledBytes (Run.run step c es).log := by
  refine ⟨c.shift k, new_shift hnew k, ?_⟩
  have hrun : Run.run step (c.shift k) (es.map (Event.shift k)) = (Run.run step c es).shift k :=
    Run.run_map (fun _ _ h => step_shift h) hun
  have hlog : (Run.run step (c.shift k) (es.map (Event.shift k))).log =
      (Run.run step c es).log.map (Effect.shift k) := by
    rw [hrun]
    rfl
  refine ⟨hlog, ?_⟩
  rw [hlog, polledBytes_shift]

/-- A segment of a client, at an offset from the number after its SYN. -/
def dataSegment (isn : BitVec 32) (offset : ℕ) (data : Bytes) : Event :=
  .client { sequenceNumber := isn + 1 + BitVec.ofNat 32 offset, flag := TCPFlag.PSH_ACK, data := some data }

/-- A segment, an early one, the one between them, and polls. -/
def exchange (isn : BitVec 32) : List Event :=
  [.connected, dataSegment isn 0 [71, 69], .poll, dataSegment isn 4 [47], dataSegment isn 2 [84, 32], .poll,
    .packetFromRemote [72] true]

theorem exchange_translated : ∃ c', TCPController.new clientHeader ((clientSyn 1000).shiftSequence 70000) 5000 1 = .ok c' ∧
    (Run.run step c' ((exchange 1000).map (Event.shift 70000))).log =
      (Run.run step (accepting 1000 5000) (exchange 1000)).log.map (Effect.shift 70000) ∧
    polledBytes (Run.run step c' ((exchange 1000).map (Event.shift 70000))).log =
      polledBytes (Run.run step (accepting 1000 5000) (exchange 1000)).log :=
  translation_invariant (new_clientSyn 1000 5000) 70000 (exchange 1000) (by decide +kernel)

/-- **At the signed boundary a segment that is ahead is taken for a duplicate.** -/
theorem boundary_not_translated : ¬ ∀ (isn random k : BitVec 32) (es : List Event),
    ∃ c', TCPController.new clientHeader ((clientSyn isn).shiftSequence k) random 1 = .ok c' ∧
      (Run.run step c' (es.map (Event.shift k))).log =
        (Run.run step (accepting isn random) es).log.map (Effect.shift k) ∧
      polledBytes (Run.run step c' (es.map (Event.shift k))).log =
        polledBytes (Run.run step (accepting isn random) es).log := by
  intro h
  obtain ⟨c', hc, hlog, -⟩ := h 1000 5000 0x7FFFFC16 [dataSegment 1000 2 [84]]
  obtain rfl := Except.ok.inj ((new_shift (new_clientSyn 1000 5000) 0x7FFFFC16).symm.trans hc)
  revert hlog
  decide +kernel

end TCPController

end SmartTunnel
