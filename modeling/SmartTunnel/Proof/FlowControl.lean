import SmartTunnel.Model.ChannelV4TCP
import SmartTunnel.Proof.Retransmission

/-!
# Flow control toward the client

`ChannelReader` waits while the last window of the client is zero, and looks at nothing else: not at
the bytes that are in flight, nor at the window scale; a window that is closed while it waits for the remote
goes unseen, and what a SACK asks for is sent again whatever the window. `window_kept`: what is sent, first or
again, stays in the client's window in every run whose chunks, acknowledgments and SACK blocks leave
room (`HasRoom`). The books (`Flow`) are kept on what comes from the two sides.
-/

namespace SmartTunnel

open Jvm Serial TCPController

/-- The bytes of a segment, counted from the first byte of the remote. -/
structure Span where
  start : ℤ
  stop : ℕ
  deriving DecidableEq, Repr

/-- A reader, with the books on what the remote and the client sent. -/
structure Flow where
  reader : ChannelReader
  isnr : BitVec 32
  /-- The bytes of the chunks that were passed on. -/
  passed : ℕ := 0
  /-- How many of them the client has acknowledged. -/
  acked : ℕ := 0
  /-- The window of the last segment that was processed. -/
  window : ℕ
  /-- This segment closed the window when the reader had done waiting. -/
  closed : Bool := false
  /-- The chunks and the keep-alive bytes, each of which repeats the last byte. -/
  spans : List Span := []

namespace Flow

/-- The processor takes the segment. -/
def Processes (c : TCPController) (pk : Segment) : Prop :=
  c.processorEnded = false ∧ ¬ (pk.flag.SYN = 1 ∧ pk.flag.ACK = 0)

instance Processes.decidable (c : TCPController) (pk : Segment) : Decidable (Processes c pk) :=
  inferInstanceAs (Decidable (_ ∧ _))

/-- The highest number that the client acknowledged. -/
def acknowledged (s : Flow) : BitVec 32 := position (s.isnr + 1) s.acked

/-- The segment acknowledges bytes in flight. -/
def Advances (s : Flow) (pk : Segment) : Prop :=
  pk.flag.ACK = 1 ∧ distance s.acknowledged pk.acknowledgmentNumber ≤ s.passed - s.acked

instance Advances.decidable (s : Flow) (pk : Segment) : Decidable (s.Advances pk) :=
  inferInstanceAs (Decidable (_ ∧ _))

/-- A segment of the client is processed. -/
def processed (s : Flow) (pk : Segment) : Flow :=
  if Processes s.reader.mTCPController pk then
    { s with
      acked := if s.Advances pk then s.acked + distance s.acknowledged pk.acknowledgmentNumber else s.acked
      window := pk.windowSize.toNat
      closed := s.reader.reading ∧ pk.windowSize = 0 }
  else s

/-- A chunk that is read is sent; one that is longer does not fit into a packet. -/
def Sends (s : Flow) (data : Bytes) : Prop := s.reader.passes data = true ∧ data.length ≤ 32728

instance Sends.decidable (s : Flow) (data : Bytes) : Decidable (s.Sends data) :=
  inferInstanceAs (Decidable (_ ∧ _))

/-- A chunk is passed on. -/
def passedOn (s : Flow) (data : Bytes) : Flow :=
  if s.Sends data then
    { s with
      passed := s.passed + data.length
      spans := s.spans ++ [⟨s.passed, s.passed + data.length⟩] }
  else s

def step (s : Flow) (e : ChannelReader.Event) : Flow :=
  { (match e with
      | .other (.client pk) => s.processed pk
      | .other .tick => { s with spans := s.spans ++ [Span.mk (s.passed - 1) s.passed] }
      | .read data _ => s.passedOn data
      | _ => s) with
    reader := s.reader.step e }

/-- The packets that a step hands to the client. -/
def handedBy (s : ChannelReader) (e : ChannelReader.Event) : List PacketV4 :=
  ((s.step e).mTCPController.log.drop s.mTCPController.log.length).filterMap handedPacket

/-- The packet ends in the window, shifted by the client's scale. -/
def EndsIn (scale : ℕ) (s : Flow) (packet : PacketV4) : Prop :=
  (sequenceOf packet).any fun seq =>
    distance s.acknowledged (seq + BitVec.ofNat 32 (bytesOf packet).length) ≤ s.window * 2 ^ scale

instance EndsIn.decidable (scale : ℕ) (s : Flow) (packet : PacketV4) : Decidable (s.EndsIn scale packet) :=
  inferInstanceAs (Decidable (_ = true))

/-- The data that a step sends stays in the window: a chunk in the one before the step, and what a segment
makes the controller send again in the window of that segment. -/
def InWindow (scale : ℕ) (s : Flow) : ChannelReader.Event → Prop
  | .read data available => ∀ packet ∈ handedBy s.reader (.read data available), s.EndsIn scale packet
  | .other (.client pk) => ∀ packet ∈ handedBy s.reader (.other (.client pk)), bytesOf packet ≠ [] →
    (s.processed pk).EndsIn scale packet
  | _ => True

instance InWindow.decidable (scale : ℕ) (s : Flow) : ∀ e, Decidable (s.InWindow scale e)
  | .read _ _ => inferInstanceAs (Decidable (∀ packet ∈ _, _))
  | .other (.client _) => inferInstanceAs (Decidable (∀ packet ∈ _, _))
  | .other .connected | .other .poll | .other (.packetFromRemote _ _) | .other .tick | .other .close
  | .other .remoteClosed | .other .terminate | .proceeds => inferInstanceAs (Decidable True)

/-- A reader that feeds a controller; the client acknowledges. -/
def Feeds : ChannelReader.Event → Prop
  | .other (.client pk) => pk.Plain
  | .other .tick | .other .poll | .proceeds | .read _ _ => True
  | .other _ => False

/-- What a pure acknowledgment in sequence makes an established connection look for. -/
def LooksFor (c : TCPController) (pk : Segment) : Prop :=
  Takes c pk ∧ c.mState = .ESTABLISHED ∧ pk.data = none ∧ pk.flag.PSH ≠ 1

instance LooksFor.decidable (c : TCPController) (pk : Segment) : Decidable (LooksFor c pk) :=
  inferInstanceAs (Decidable (_ ∧ _ ∧ _ ∧ _))

/-- The number at which a segment starts. -/
def startNumber (s : Flow) (x : Span) : BitVec 32 := position (s.isnr + 1) x.start

/-- What the code asks of the two sides. The window was not closed after the wait, and a window that is not zero has
room for the chunks so far and the one that is read. What SACK blocks ask for, if it is still kept, was not
acknowledged before, and lies in the window that comes with them. -/
def HasRoom (scale : ℕ) (s : Flow) : ChannelReader.Event → Prop
  | .read data _ => s.Sends data →
    s.closed = false ∧ (s.window ≠ 0 → s.passed + data.length ≤ s.acked + s.window * 2 ^ scale)
  | .other (.client pk) => LooksFor s.reader.mTCPController pk → ∀ x ∈ s.spans, s.startNumber x ∈ askedFor pk →
    (∃ w ∈ s.reader.mTCPController.mClientPackets, w.sequenceNumber = s.startNumber x) →
      (s.processed pk).acked ≤ x.stop ∧ x.stop ≤ (s.processed pk).acked + pk.windowSize.toNat * 2 ^ scale
  | _ => True

instance HasRoom.decidable (scale : ℕ) (s : Flow) : ∀ e, Decidable (s.HasRoom scale e)
  | .read _ _ => inferInstanceAs (Decidable (_ → _ ∧ (_ → _)))
  | .other (.client _) => inferInstanceAs (Decidable (_ → ∀ x ∈ _, _ → (∃ w ∈ _, _) → _ ∧ _))
  | .other .connected | .other .poll | .other (.packetFromRemote _ _) | .other .tick | .other .close
  | .other .remoteClosed | .other .terminate | .proceeds => inferInstanceAs (Decidable True)

/-- The packet of a wrapper is one of the segments in the books. -/
def Booked (s : Flow) (w : TCPPacketWrapper PacketV4) : Prop :=
  ∀ packet, w.mPacket = some packet → ∃ x ∈ s.spans, w.sequenceNumber = s.startNumber x ∧
    ∃ seq, sequenceOf packet = some seq ∧
      seq + BitVec.ofNat 32 (bytesOf packet).length = position (s.isnr + 1) x.stop

/-- The books agree with the controller. -/
structure Balanced (s : Flow) : Prop where
  next : s.reader.mTCPController.mRemoteSeqNumber = position (s.isnr + 1) s.passed
  acked : s.acked ≤ s.passed
  window : s.reader.mTCPController.mClientWindowSize.toNat = s.window
  /-- `waitIfWindowIsFull` returned when the window was not zero. -/
  waited : s.reader.reading = true → s.closed = false → s.window ≠ 0
  kept : ∀ w ∈ s.reader.mTCPController.mClientPackets, s.Booked w
  isOpen : Outbox.Open s.reader.mTCPController

section Steps

variable {s : Flow} {scale : ℕ} {pk : Segment} {c : TCPController}

theorem windowSize_stable (v : BitVec 32) : SendStable fun c => c.mClientWindowSize = v where
  identified _ h := h
  sent _ _ _ _ h := h
  state _ _ h := h
  remoteSeq _ _ h := h
  ended _ h := h
  terminated _ h := h

theorem removeAcknowledgedPackets_subset (ack : BitVec 32) (c : TCPController) :
    (Java.exec (removeAcknowledgedPackets ack) c).2.mClientPackets ⊆ c.mClientPackets := by
  simp only [removeAcknowledgedPackets, Java.exec_modify]
  split
  · exact List.drop_subset _ _
  · exact List.Subset.refl _

/-- What a plain segment does to an open connection: the next number stays, packets are only dropped, and
the window is that of the segment. -/
theorem packetFromClient_view (hpk : pk.Plain) (hopen : Outbox.Open c) :
    (packetFromClient pk c).mRemoteSeqNumber = c.mRemoteSeqNumber ∧
      (packetFromClient pk c).mClientPackets ⊆ c.mClientPackets ∧
      (packetFromClient pk c).mClientWindowSize = if Processes c pk then pk.windowSize else c.mClientWindowSize := by
  refine packetFromClient_keeps (I := fun c' : TCPController => c'.mRemoteSeqNumber = c.mRemoteSeqNumber ∧
    c'.mClientPackets ⊆ c.mClientPackets ∧
      c'.mClientWindowSize = if Processes c pk then pk.windowSize else c.mClientWindowSize)
    (fun _ h => h) c (fun hended => ⟨rfl, List.Subset.refl _, ?_⟩) fun hrun => ?_
  · rw [if_neg fun h => by rw [h.1] at hended; cases hended]
  rw [if_pos ⟨hrun, hpk.not_syn⟩, process_exec hpk.not_syn]
  split
  · have hview := Outbox.outOfSequence_outView pk { c with mClientWindowSize := pk.windowSize } fun _ hrst =>
      absurd hrst hpk.not_rst
    have hwindow : Java.Keeps (fun c' : TCPController => c'.mClientWindowSize = pk.windowSize) (outOfSequence pk) :=
      outOfSequence_keeps (fun _ hrst => absurd hrst hpk.not_rst) (windowSize_stable _).sendSacks fun _ h => h
    simp only [Outbox.outView, Prod.mk.injEq] at hview
    exact ⟨hview.1, fun _ hw => by rwa [hview.2] at hw, hwindow { c with mClientWindowSize := pk.windowSize } rfl⟩
  · rw [inSequence_exec hpk]
    split
    · exact ⟨rfl, List.Subset.refl _, rfl⟩
    · have hcases := acknowledge_cases { c with mClientWindowSize := pk.windowSize } pk
      generalize (Java.exec (acknowledge pk) { c with mClientWindowSize := pk.windowSize }).2 = c' at hcases ⊢
      cases hcases with
      | terminated hstate => rcases hopen with h | h <;> exact absurd (h.symm.trans hstate) (by decide)
      | removed _ _ => exact ⟨rfl, removeAcknowledgedPackets_subset _ _, rfl⟩
      | _ => exact ⟨rfl, List.Subset.refl _, rfl⟩

/-- Without a FIN an open connection stays open. -/
theorem packetFromClient_open (hpk : pk.Plain) (hopen : Outbox.Open c) : Outbox.Open (packetFromClient pk c) := by
  rcases packetFromClient_phases c pk with hphase | ⟨-, hphases⟩
  · exact (Outbox.open_iff_of_phase hphase).2 hopen
  · generalize hv : (packetFromClient pk c).phase = v at hphases
    cases hphases with
    | same => exact (Outbox.open_iff_of_phase hv).2 hopen
    | established _ => exact (Outbox.open_iff_of_phase hv).2 (.inr rfl)
    | finAcknowledged hstate =>
      rcases hopen with h | h <;> exact absurd (h.symm.trans hstate) (by decide)
    | finFirst _ hset _ _ => exact absurd hset hpk.not_fin
    | finOther hset _ => exact absurd hset hpk.not_fin

/-- A segment of the client is booked. -/
theorem Balanced.processed (h : Balanced s) (hpk : pk.Plain) : Balanced (s.step (.other (.client pk))) := by
  obtain ⟨hseq, hsub, hwindow⟩ := packetFromClient_view hpk h.isOpen
  have hsame : (s.processed pk).isnr = s.isnr ∧ (s.processed pk).passed = s.passed ∧
      (s.processed pk).spans = s.spans := by
    unfold Flow.processed
    split <;> exact ⟨rfl, rfl, rfl⟩
  obtain ⟨hisnr, hpassed, hspans⟩ := hsame
  refine ⟨?_, ?_, ?_, ?_, ?_, packetFromClient_open hpk h.isOpen⟩
  · change (packetFromClient pk s.reader.mTCPController).mRemoteSeqNumber =
      position ((s.processed pk).isnr + 1) (s.processed pk).passed
    rw [hseq, hisnr, hpassed]
    exact h.next
  · change (s.processed pk).acked ≤ (s.processed pk).passed
    rw [hpassed]
    have hacked := h.acked
    unfold Flow.processed
    split_ifs with hproc hadv
    · have hle := hadv.2
      simp only
      omega
    · exact hacked
    · exact hacked
  · change (packetFromClient pk s.reader.mTCPController).mClientWindowSize.toNat = (s.processed pk).window
    rw [hwindow, Flow.processed]
    by_cases hproc : Processes s.reader.mTCPController pk
    · rw [if_pos hproc, if_pos hproc]
    · rw [if_neg hproc, if_neg hproc]
      exact h.window
  · change s.reader.reading = true → (s.processed pk).closed = false → (s.processed pk).window ≠ 0
    intro hreading
    rw [Flow.processed]
    by_cases hproc : Processes s.reader.mTCPController pk
    · rw [if_pos hproc]
      -- a window of zero is seen to be closed
      intro hclosed hzero
      have hz : pk.windowSize = 0 := BitVec.eq_of_toNat_eq hzero
      simp [hreading, hz] at hclosed
    · rw [if_neg hproc]
      exact h.waited hreading
  · intro w hw packet hpacket
    have hbooked := h.kept w (hsub hw) packet hpacket
    simp only [startNumber] at hbooked ⊢
    change ∃ x ∈ (s.processed pk).spans, w.sequenceNumber = position ((s.processed pk).isnr + 1) x.start ∧
      ∃ seq, sequenceOf packet = some seq ∧
        seq + BitVec.ofNat 32 (bytesOf packet).length = position ((s.processed pk).isnr + 1) x.stop
    rw [hspans, hisnr]
    exact hbooked

/-! ### What a segment of the client makes the controller send -/

/-- The packets handed to the client between `c` and `c'` are in `P`. -/
def Hands (c : TCPController) (P : PacketV4 → Prop) (c' : TCPController) : Prop :=
  ∃ effects, c'.log = c.log ++ effects ∧ ∀ packet ∈ effects.filterMap handedPacket, P packet

section Hands

variable {P : PacketV4 → Prop} {c' c'' : TCPController}

theorem Hands.refl (P : PacketV4 → Prop) (h : c'.log = c.log) : Hands c P c' :=
  ⟨[], by rw [h, List.append_nil], fun packet hp => by cases hp⟩

theorem Hands.append (h : Hands c P c') {effects : List Effect} (hlog : c''.log = c'.log ++ effects)
    (hP : ∀ packet ∈ effects.filterMap handedPacket, P packet) : Hands c P c'' := by
  obtain ⟨before, hbefore, hall⟩ := h
  refine ⟨before ++ effects, by rw [hlog, hbefore, List.append_assoc], ?_⟩
  intro packet hp
  rw [List.filterMap_append, List.mem_append] at hp
  exact hp.elim (hall packet) (hP packet)

/-- An acknowledgment carries no data. -/
theorem sendACKToClient_hands (hP : ∀ packet, bytesOf packet = [] → P packet) (option : Option TCPOption) :
    Java.Keeps (Hands c P) (sendACKToClient option) := by
  refine makeAndSend_keeps (fun c' h => h) fun c' h => h.append rfl ?_
  intro packet hp
  obtain rfl := List.mem_singleton.1 hp
  exact hP _ rfl

theorem sendSacks_hands (hP : ∀ packet, bytesOf packet = [] → P packet) (sacks : List SACK) :
    Java.Keeps (Hands c P) (sendSacks sacks) :=
  Java.Keeps.bind (Java.Keeps.lift _) fun _ => sendACKToClient_hands hP _

theorem putToQueue_hands (w : TCPPacketWrapper Segment) : Java.Keeps (Hands c P) (putToQueue w) := by
  intro c' h
  exact h.append rfl fun packet hp => by cases hp

theorem outOfSequence_hands (hpk : pk.Plain) (hP : ∀ packet, bytesOf packet = [] → P packet) :
    Java.Keeps (Hands c P) (outOfSequence pk) :=
  outOfSequence_keeps (fun _ hrst => absurd hrst hpk.not_rst) (sendSacks_hands hP) (putToQueue_hands _)

/-- **What a plain segment makes the controller send**: packets without data, and packets that were kept at
a number that it asks for. -/
theorem packetFromClient_hands (hpk : pk.Plain) (hopen : Outbox.Open c) :
    Hands c (fun packet => bytesOf packet = [] ∨ (LooksFor c pk ∧ ∃ w ∈ c.mClientPackets,
      w.sequenceNumber ∈ askedFor pk ∧ w.mPacket = some packet)) (packetFromClient pk c) := by
  refine packetFromClient_keeps (fun _ h => h) c (fun _ => .refl _ rfl) fun hrun => ?_
  rw [process_exec hpk.not_syn]
  by_cases hseq : pk.sequenceNumber = c.mClientNexSeqNumber
  · rw [if_neg (not_not.2 hseq), inSequence_exec hpk]
    by_cases hqueue : pk.flag.PSH = 1 ∨ pk.data.isSome
    · rw [if_pos hqueue, queueInSequence_exec]
      exact (Hands.refl _ rfl).append rfl fun packet hp => by cases hp
    · rw [if_neg hqueue]
      obtain ⟨hpsh, hdata⟩ := not_or.1 hqueue
      have hcases := acknowledge_cases { c with mClientWindowSize := pk.windowSize } pk
      generalize (Java.exec (acknowledge pk) { c with mClientWindowSize := pk.windowSize }).2 = c' at hcases ⊢
      cases hcases with
      | removed _ _ => exact .refl _ rfl
      | resent lost hstate _ hlost =>
        refine (Hands.refl _ rfl).append rfl ?_
        intro packet hp
        rw [List.filterMap_map, show handedPacket ∘ Effect.onPacketReadyForClient = some from rfl,
          List.filterMap_some] at hp
        obtain ⟨w, hw, hpacket, hasked⟩ := resent_asked hlost packet hp
        exact .inr ⟨⟨⟨hrun, hpk.not_syn, hseq⟩, hstate, by simpa using hdata, hpsh⟩, w, hw, hasked, hpacket⟩
      | finAcknowledged _ => exact .refl _ rfl
      | terminated hstate => rcases hopen with h | h <;> exact absurd (h.symm.trans hstate) (by decide)
      | established _ => exact (Hands.refl _ rfl).append rfl fun packet hp => by cases hp
      | ignored _ _ _ _ => exact .refl _ rfl
  · rw [if_pos hseq]
    exact outOfSequence_hands hpk (fun packet h => .inl h) _ (.refl _ rfl)

end Hands

/-- **A segment in the books ends in the window** that has room for it. -/
theorem endsIn_of_span {packet : PacketV4} {seq : BitVec 32} {stop : ℕ} (hseq : sequenceOf packet = some seq)
    (hend : seq + BitVec.ofNat 32 (bytesOf packet).length = position (s.isnr + 1) stop) (hle : s.acked ≤ stop)
    (hroom : stop ≤ s.acked + s.window * 2 ^ scale) : s.EndsIn scale packet := by
  have hdistance : distance s.acknowledged (position (s.isnr + 1) stop) ≤ stop - s.acked := by
    rw [acknowledged, distance_position]
    omega
  simp only [EndsIn, hseq, Option.any_some, hend, decide_eq_true_eq]
  omega

/-- **What is sent again stays in the window**, if what the segment asks for does. -/
theorem Balanced.inWindow_client (h : Balanced s) (hpk : pk.Plain)
    (hroom : s.HasRoom scale (.other (.client pk))) : s.InWindow scale (.other (.client pk)) := by
  obtain ⟨effects, hlog, hall⟩ := packetFromClient_hands hpk h.isOpen
  intro packet hp hdata
  have hp' : packet ∈ effects.filterMap handedPacket := by
    have hstep : (s.reader.step (.other (.client pk))).mTCPController.log = s.reader.mTCPController.log ++ effects := hlog
    rwa [handedBy, hstep, List.drop_left] at hp
  rcases hall packet hp' with hnone | ⟨hlooks, w, hw, hasked, hpacket⟩
  · exact absurd hnone hdata
  · obtain ⟨x, hx, hstart, seq, hseq, hend⟩ := h.kept w hw packet hpacket
    obtain ⟨hle, hstop⟩ := hroom hlooks x hx (hstart ▸ hasked) ⟨w, hw, hstart⟩
    have hproc : Processes s.reader.mTCPController pk := ⟨hlooks.1.1, hpk.not_syn⟩
    have hwindow : (s.processed pk).window = pk.windowSize.toNat := by rw [Flow.processed, if_pos hproc]
    have hisnr : (s.processed pk).isnr = s.isnr := by rw [Flow.processed, if_pos hproc]
    exact endsIn_of_span hseq (by rw [hisnr, hend]) hle (by rw [hwindow]; exact hstop)

/-! ### Steps -/

theorem Booked.mono {s' : Flow} {w : TCPPacketWrapper PacketV4} (h : s.Booked w) (hisnr : s'.isnr = s.isnr)
    (hspans : s.spans ⊆ s'.spans) : s'.Booked w := by
  intro packet hpacket
  obtain ⟨x, hx, hstart, seq, hseq, hend⟩ := h packet hpacket
  simp only [startNumber] at hstart ⊢
  exact ⟨x, hspans hx, by rw [hisnr, hstart], seq, hseq, by rw [hisnr, hend]⟩

/-- A packet sent with the bytes of a span is booked. -/
theorem booked_sent {data : Bytes} {flag : TCPFlag} {x : Span} (hx : x ∈ s.spans)
    (hstart : c.mRemoteSeqNumber = s.startNumber x)
    (hstop : c.mRemoteSeqNumber + BitVec.ofNat 32 data.length = position (s.isnr + 1) x.stop)
    (hkept : ∀ w ∈ c.mClientPackets, s.Booked w) : ∀ w ∈ (c.sent (some data) flag none).mClientPackets, s.Booked w := by
  intro w hw
  rcases List.mem_append.1 hw with hw | hw
  · exact hkept w hw
  · obtain rfl := List.mem_singleton.1 hw
    rintro packet ⟨⟩
    exact ⟨x, hx, hstart, _, sequenceOf_nextPacket _ _ _, hstop⟩

/-- A chunk that fits is sent, and the reader waits again. -/
theorem read_sends {data : Bytes} (available : ℕ) (h : s.Sends data) : ∃ flag : TCPFlag, flag.SYN ≠ 1 ∧ flag.FIN ≠ 1 ∧
    s.reader.step (.read data available) = ⟨s.reader.mTCPController.sent (some data) flag none, false⟩ := by
  set psh := decide (data.length < s.reader.bufferLength ∨ (data.length = s.reader.bufferLength ∧ available = 0))
  refine ⟨if psh = true then TCPFlag.ACKOnly else TCPFlag.PSH_ACK, by split <;> decide, by split <;> decide, ?_⟩
  have hstep : s.reader.step (.read data available) =
      ⟨(Java.exec (sendDataToClient data psh) s.reader.mTCPController).2, false⟩ := by
    simp only [ChannelReader.step, h.1, if_true]
    rfl
  rw [hstep, sendDataToClient_exec, if_pos h.2]

/-- Anything else sends nothing. -/
theorem read_idle {data : Bytes} (available : ℕ) (h : ¬ s.Sends data) :
    ((s.reader.step (.read data available)).mTCPController = s.reader.mTCPController ∨
      (s.reader.step (.read data available)).mTCPController = s.reader.mTCPController.identified) ∧
    ((s.reader.step (.read data available)).reading = true → s.reader.reading = true) := by
  by_cases hpass : s.reader.passes data = true
  · have hlong : ¬ data.length ≤ 32728 := fun hfits => h ⟨hpass, hfits⟩
    have hstep : s.reader.step (.read data available) = ⟨(Java.exec (sendDataToClient data
        (data.length < s.reader.bufferLength ∨ (data.length = s.reader.bufferLength ∧ available = 0)))
        s.reader.mTCPController).2, false⟩ := by
      simp only [ChannelReader.step, hpass, if_true]
      rfl
    rw [hstep, sendDataToClient_exec, if_neg hlong]
    exact ⟨.inr rfl, fun hr => by cases hr⟩
  · have hstep : s.reader.step (.read data available) = s.reader := by
      simp only [ChannelReader.step, hpass, if_false, Bool.false_eq_true]
    rw [hstep]
    exact ⟨.inl rfl, id⟩

/-- A step that sends nothing hands over nothing. -/
theorem handedBy_idle {r : ChannelReader} {e : ChannelReader.Event}
    (h : (r.step e).mTCPController.log = r.mTCPController.log) : handedBy r e = [] := by
  rw [handedBy, h, List.drop_length, List.filterMap_nil]

/-- **A chunk that the window has room for stays in the window.** -/
theorem Balanced.inWindow_read (h : Balanced s) {data : Bytes} {available : ℕ}
    (hroom : s.HasRoom scale (.read data available)) : s.InWindow scale (.read data available) := by
  intro packet hp
  by_cases hsends : s.Sends data
  · obtain ⟨flag, -, -, hstep⟩ := read_sends available hsends
    have hone : handedBy s.reader (.read data available) = [s.reader.mTCPController.nextPacket (some data) flag none] := by
      rw [handedBy, hstep, sent, List.drop_left]
      rfl
    rw [hone] at hp
    obtain rfl := List.mem_singleton.1 hp
    obtain ⟨hclosed, hfits⟩ := hroom hsends
    have hreading : s.reader.reading = true := by
      have hpass := hsends.1
      simp only [ChannelReader.passes, decide_eq_true_eq] at hpass
      exact hpass.1
    -- the wait has returned, and the window was not closed since
    have hopen : s.window ≠ 0 := h.waited hreading hclosed
    have hend : s.reader.mTCPController.mRemoteSeqNumber + BitVec.ofNat 32 data.length =
        position (s.isnr + 1) ((s.passed + data.length : ℕ) : ℤ) := by
      rw [h.next, position_add]
      push_cast
      rfl
    exact endsIn_of_span (sequenceOf_nextPacket _ _ _) hend (h.acked.trans (Nat.le_add_right _ _)) (hfits hopen)
  · obtain ⟨hidle, -⟩ := read_idle available hsends
    have hlog : (s.reader.step (.read data available)).mTCPController.log = s.reader.mTCPController.log := by
      rcases hidle with hsame | hsame <;> rw [hsame]
      rfl
    rw [handedBy_idle hlog] at hp
    cases hp

/-- A read is booked. -/
theorem Balanced.read (h : Balanced s) (data : Bytes) (available : ℕ) :
    Balanced (s.step (.read data available)) := by
  by_cases hsends : s.Sends data
  · obtain ⟨flag, hsyn, hfin, hstep⟩ := read_sends available hsends
    have hbooks : s.step (.read data available) = { s with
        reader := ⟨s.reader.mTCPController.sent (some data) flag none, false⟩
        passed := s.passed + data.length
        spans := s.spans ++ [⟨s.passed, s.passed + data.length⟩] } := by
      simp only [Flow.step, passedOn, if_pos hsends, hstep]
    have hadv : advance flag (some data) = BitVec.ofNat 32 data.length := if_neg (not_or.2 ⟨hsyn, hfin⟩)
    have hend : s.reader.mTCPController.mRemoteSeqNumber + BitVec.ofNat 32 data.length =
        position (s.isnr + 1) (s.passed + data.length : ℕ) := by
      rw [h.next, position_add]
      push_cast
      rfl
    rw [hbooks]
    refine ⟨?_, h.acked.trans (Nat.le_add_right _ _), h.window, (fun hr => nomatch hr), ?_, h.isOpen⟩
    · change s.reader.mTCPController.mRemoteSeqNumber + advance flag (some data) = _
      rw [hadv, hend]
    · refine booked_sent (x := ⟨s.passed, s.passed + data.length⟩) (by simp) h.next hend fun w hw => ?_
      exact (h.kept w hw).mono rfl (List.subset_append_left _ _)
  · obtain ⟨hidle, hreading⟩ := read_idle available hsends
    have hbooks : s.step (.read data available) = { s with reader := s.reader.step (.read data available) } := by
      simp only [Flow.step, passedOn, if_neg hsends]
    rw [hbooks]
    refine ⟨?_, h.acked, ?_, fun hr => h.waited (hreading hr), ?_, ?_⟩
    all_goals
      rcases hidle with hsame | hsame <;> simp only [hsame]
    · exact h.next
    · exact h.next
    · exact h.window
    · exact h.window
    · exact h.kept
    · exact h.kept
    · exact h.isOpen
    · exact h.isOpen

/-- A keep-alive byte is booked. -/
theorem Balanced.tick (h : Balanced s) : Balanced (s.step (.other .tick)) := by
  have hnumber : s.reader.mTCPController.mRemoteSeqNumber - 1 = position (s.isnr + 1) ((s.passed : ℤ) - 1) := by
    rw [h.next, position_sub_one]
  have hback : s.reader.mTCPController.mRemoteSeqNumber - 1 + BitVec.ofNat 32 1 = position (s.isnr + 1) s.passed := by
    rw [← h.next]
    exact BitVec.sub_add_cancel _ _
  have hbooks : s.step (.other .tick) = { s with
      reader := { s.reader with mTCPController := { s.reader.mTCPController with
        mRemoteSeqNumber := s.reader.mTCPController.mRemoteSeqNumber - 1 }.sent (some [0]) TCPFlag.ACKOnly none }
      spans := s.spans ++ [⟨s.passed - 1, s.passed⟩] } := by
    rw [← tick_eq]
    rfl
  rw [hbooks]
  refine ⟨?_, h.acked, h.window, h.waited, ?_, h.isOpen⟩
  · change s.reader.mTCPController.mRemoteSeqNumber - 1 + advance TCPFlag.ACKOnly (some [0]) = _
    exact hback
  · refine booked_sent (x := ⟨s.passed - 1, s.passed⟩) (by simp) hnumber hback fun w hw => ?_
    exact (h.kept w hw).mono rfl (List.subset_append_left _ _)

/-- A step of the reader or of the writer that sends nothing. -/
theorem Balanced.of_reader (h : Balanced s) {r : ChannelReader}
    (hout : Outbox.outView r.mTCPController = Outbox.outView s.reader.mTCPController)
    (hwindow : r.mTCPController.mClientWindowSize = s.reader.mTCPController.mClientWindowSize)
    (hstate : r.mTCPController.mState = s.reader.mTCPController.mState)
    (hreading : r.reading = true → s.reader.reading = true ∨ s.window ≠ 0) : Balanced { s with reader := r } := by
  simp only [Outbox.outView, Prod.mk.injEq] at hout
  refine ⟨hout.1.trans h.next, h.acked, (congrArg BitVec.toNat hwindow).trans h.window, fun hr hclosed => ?_, ?_, ?_⟩
  · rcases hreading hr with hr | hopen
    · exact h.waited hr hclosed
    · exact hopen
  · rw [hout.2]
    exact h.kept
  · rw [Outbox.Open, hstate]
    exact h.isOpen

theorem Balanced.step {e : ChannelReader.Event} (h : Balanced s) (he : Feeds e) (hroom : s.HasRoom scale e) :
    s.InWindow scale e ∧ Balanced (s.step e) := by
  cases e with
  | proceeds =>
    refine ⟨trivial, ?_⟩
    have hbooks : s.step .proceeds = { s with reader := s.reader.step .proceeds } := rfl
    rw [hbooks, ChannelReader.step]
    split
    · -- the wait returns when the window is not zero
      rename_i hwaits
      refine h.of_reader rfl rfl rfl fun _ => .inr ?_
      rw [← h.window]
      intro hzero
      have hz : s.reader.mTCPController.mClientWindowSize = 0 := BitVec.eq_of_toNat_eq hzero
      simp [windowIsFull, hz] at hwaits
    · exact h
  | read data available => exact ⟨h.inWindow_read hroom, h.read data available⟩
  | other e =>
    cases e with
    | client pk => exact ⟨h.inWindow_client he hroom, h.processed he⟩
    | tick => exact ⟨trivial, h.tick⟩
    | poll =>
      refine ⟨trivial, h.of_reader (r := s.reader.step (.other .poll)) ?_ ?_ ?_ .inl⟩ <;>
      · simp only [ChannelReader.step, TCPController.step, pollQueue]
        split <;> rfl
    | connected => exact absurd he id
    | packetFromRemote data push => exact absurd he id
    | close => exact absurd he id
    | remoteClosed => exact absurd he id
    | terminate => exact absurd he id

end Steps

/-- The scale of the window in a client's SYN. -/
def windowScale (tcp : TCP) : ℕ := ((tcp.mTCPOption.map TCPOption.windowScale).getD 0).toNat

/-- A controller after its handshake, and its reader. -/
def start (random : BitVec 32) (c : TCPController) : Flow where
  reader := ⟨c.step .connected, false⟩
  isnr := random
  window := c.mClientWindowSize.toNat

/-- A SYN with a maximum segment size of 1460 and a window scale of 2. -/
def scaledSyn : TCP :=
  { clientSyn 1000 with
    mTCPOption := some { maximumSegmentSizeByte := some [5, 180], windowScale := 2 } }

/-- The controller of that SYN. -/
def scaled : TCPController :=
  { accepting 1000 5000 with
    mInitialTCP := scaledSyn
    mMaxSegmentSize := 1460
    mClientWindowSizeScale := 4 }

theorem new_scaledSyn : TCPController.new clientHeader scaledSyn 5000 1 = .ok scaled := by decide +kernel

/-- An acknowledgment with a window. -/
def opens (acknowledgmentNumber windowSize : BitVec 32) : ChannelReader.Event :=
  .other (.client {
    sequenceNumber := 1001
    acknowledgmentNumber := acknowledgmentNumber
    windowSize := windowSize
    flag := TCPFlag.ACKOnly })

theorem opens_feeds (acknowledgmentNumber windowSize : BitVec 32) : Feeds (opens acknowledgmentNumber windowSize) :=
  ⟨rfl, rfl, rfl, rfl⟩

/-- A block from 5003 to 5005, with the window open. -/
def asksAgain : ChannelReader.Event :=
  .other (.client {
    sequenceNumber := 1001
    acknowledgmentNumber := 5001
    windowSize := 1
    flag := TCPFlag.ACKOnly
    option := some { selectiveAcknowledgment := some [0, 0, 19, 139, 0, 0, 19, 141] } })

/-- A window of 4 bytes is filled with two chunks, the first is asked for again, and the reader waits while the
window is closed. -/
def fillsWindow : List ChannelReader.Event :=
  [opens 5001 1, .proceeds, .read [72, 84] 2, .proceeds, .read [84, 80] 0, .other .tick, asksAgain, opens 5005 0,
    .proceeds, .read [47, 49] 0, opens 5005 1, .proceeds, .read [47, 49] 0]

end Flow

end SmartTunnel
