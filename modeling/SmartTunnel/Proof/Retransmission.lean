import SmartTunnel.Proof.Download
import SmartTunnel.Proof.Phases

/-!
# What is kept and sent again

`mClientPackets` should hold the data segments that the client has not acknowledged. A segment is
removed only by a bare acknowledgment of exactly its end, and a keep-alive byte and the payload of a
RST are kept like data; `retransmission_exact` holds in every run whose steps are `Tidy`.
-/

namespace SmartTunnel

open Jvm Serial

namespace TCPController

/-! ## What is kept -/

/-- A data segment made from a chunk; `start` bytes were sent before it. -/
structure SentSegment where
  start : ℕ
  packet : PacketV4
  deriving DecidableEq, Repr

/-- The position of the byte after the segment. -/
def SentSegment.stop (x : SentSegment) : ℕ := x.start + (bytesOf x.packet).length

/-- A controller with the data segments made from chunks, and the highest position that an in-sequence
segment of the client acknowledged. -/
structure Outbox where
  controller : TCPController
  segments : List SentSegment := []
  acknowledged : ℕ := 0

namespace Outbox

/-- How many bytes were sent. -/
def sentEnd (segments : List SentSegment) : ℕ := (segments.map fun x => (bytesOf x.packet).length).sum

/-- The acknowledged position after an acknowledgment, which counts if it is of something sent. -/
def acknowledgedBy (isnr : BitVec 32) (s : Outbox) (acknowledgmentNumber : BitVec 32) : ℕ :=
  let stop := s.acknowledged + distance (position (isnr + 1) s.acknowledged) acknowledgmentNumber
  if stop ≤ sentEnd s.segments then stop else s.acknowledged

/-- The packets that a step hands to the client. -/
def handedBy (c : TCPController) (e : Event) : List PacketV4 :=
  ((c.step e).log.drop c.log.length).filterMap handedPacket

def step (isnr : BitVec 32) (s : Outbox) (e : Event) : Outbox where
  controller := s.controller.step e
  segments := match e with
    | .packetFromRemote _ _ =>
      s.segments ++ (handedBy s.controller e).map fun packet => ⟨sentEnd s.segments, packet⟩
    | _ => s.segments
  acknowledged := match e with
    | .client pk =>
      if Takes s.controller pk ∧ pk.flag.ACK = 1 then s.acknowledgedBy isnr pk.acknowledgmentNumber
      else s.acknowledged
    | _ => s.acknowledged

/-- The data segments of which the client has not acknowledged the last byte. -/
def unacknowledged (s : Outbox) : List SentSegment := s.segments.filter fun x => s.acknowledged < x.stop

/-- The packet, the number and the next number of a wrapper. -/
def entry (w : TCPPacketWrapper PacketV4) : Option PacketV4 × BitVec 32 × BitVec 32 :=
  (w.mPacket, w.sequenceNumber, w.nextSequenceNumber)

/-- The same of a data segment. -/
def trueEntry (isnr : BitVec 32) (x : SentSegment) : Option PacketV4 × BitVec 32 × BitVec 32 :=
  (some x.packet, position (isnr + 1) x.start, position (isnr + 1) x.stop)

/-- `mClientPackets` holds exactly the unacknowledged data segments. -/
def Exact (isnr : BitVec 32) (s : Outbox) : Prop :=
  s.controller.mClientPackets.map entry = s.unacknowledged.map (trueEntry isnr)

instance Exact.decidable (isnr : BitVec 32) (s : Outbox) : Decidable (s.Exact isnr) :=
  inferInstanceAs (Decidable (_ = _))

/-- The steps of a connection after its handshake; `ChannelReader` passes on no empty chunk. -/
def Serves : Event → Prop
  | .connected => False
  | .packetFromRemote data _ => data ≠ []
  | _ => True

/-- The connection is not closing. -/
def Open (c : TCPController) : Prop := c.mState = .SYN_RECEIVED ∨ c.mState = .ESTABLISHED

instance Open.decidable (c : TCPController) : Decidable (Open c) := inferInstanceAs (Decidable (_ ∨ _))

/-- What the code asks of an acknowledgment: if it covers a segment that is kept, it comes alone and without
options, and is of the end of a segment. -/
def TidyAck (isnr : BitVec 32) (s : Outbox) (pk : Segment) : Prop :=
  (∃ x ∈ s.unacknowledged, x.stop ≤ s.acknowledgedBy isnr pk.acknowledgmentNumber) →
    (s.controller.mState = .ESTABLISHED ∧ pk.flag.PSH ≠ 1 ∧ pk.flag.FIN = 0 ∧ pk.flag.RST = 0 ∧
      pk.data = none ∧ pk.option = none) ∧
    ∃ x ∈ s.unacknowledged, x.stop = s.acknowledgedBy isnr pk.acknowledgmentNumber

instance TidyAck.decidable (isnr : BitVec 32) (s : Outbox) (pk : Segment) : Decidable (TidyAck isnr s pk) :=
  inferInstanceAs (Decidable (_ → _ ∧ _))

/-- What the code asks of a step while the connection is not closing. Less than `2 ^ 32` bytes are
unacknowledged; no keep-alive is due; when a RST comes, nothing is kept; and acknowledgments are tidy. -/
def Tidy (isnr : BitVec 32) (s : Outbox) : Event → Prop
  | .packetFromRemote data _ => sentEnd s.segments + data.length < s.acknowledged + 2 ^ 32
  | .tick => ¬ Open s.controller
  | .terminate => Open s.controller → s.controller.mClientPackets = []
  | .client pk => Open s.controller → s.controller.processorEnded = false →
    ¬ (pk.flag.SYN = 1 ∧ pk.flag.ACK = 0) →
    (pk.sequenceNumber ≠ s.controller.mClientNexSeqNumber → pk.data = none → pk.flag.RST = 1 →
      s.controller.mClientPackets = []) ∧
    (pk.sequenceNumber = s.controller.mClientNexSeqNumber → pk.flag.FIN ≠ 1 →
      (pk.flag.RST = 1 → s.controller.mClientPackets = []) ∧ (pk.flag.ACK = 1 → TidyAck isnr s pk))
  | _ => True

instance Tidy.decidable (isnr : BitVec 32) (s : Outbox) : ∀ e, Decidable (s.Tidy isnr e)
  | .packetFromRemote _ _ => inferInstanceAs (Decidable (_ < _))
  | .tick => inferInstanceAs (Decidable (¬ _))
  | .terminate => inferInstanceAs (Decidable (_ → _))
  | .client _ => inferInstanceAs (Decidable (_ → _ → _ → _ ∧ _))
  | .connected | .poll | .close | .remoteClosed => inferInstanceAs (Decidable True)

/-- What `mClientPackets` depends on. -/
def outView (c : TCPController) : BitVec 32 × List (TCPPacketWrapper PacketV4) := (c.mRemoteSeqNumber, c.mClientPackets)

/-- The controller when `segs` were made from chunks and the client has acknowledged them up to `A`. -/
structure Retaining (isnr : BitVec 32) (segs : List SentSegment) (A : ℕ) (c : TCPController) : Prop where
  next : c.mRemoteSeqNumber = position (isnr + 1) (sentEnd segs)
  exact : c.mClientPackets.map entry = (segs.filter fun x => A < x.stop).map (trueEntry isnr)
  ascending : Keyed.Ascending SentSegment.stop segs
  stops : ∀ x ∈ segs, x.stop ≤ sentEnd segs
  acked : A ≤ sentEnd segs
  near : sentEnd segs < A + 2 ^ 32
  small : ∀ x ∈ segs, (bytesOf x.packet).length ≤ 32728

section Retaining

variable {isnr : BitVec 32} {segs : List SentSegment} {A A' : ℕ} {c c' : TCPController} {pk : Segment} {s : Outbox}
  {e : Event}

theorem Retaining.of_view (h : Retaining isnr segs A c) (hv : outView c' = outView c) : Retaining isnr segs A c' := by
  simp only [outView, Prod.mk.injEq] at hv
  obtain ⟨hnext, hkept⟩ := hv
  refine ⟨?_, ?_, h.ascending, h.stops, h.acked, h.near, h.small⟩
  · rw [hnext]
    exact h.next
  · rw [hkept]
    exact h.exact

theorem sentEnd_append (segs : List SentSegment) (x : SentSegment) :
    sentEnd (segs ++ [x]) = sentEnd segs + (bytesOf x.packet).length := by
  simp [sentEnd]

/-- A chunk is sent. -/
theorem Retaining.chunk (h : Retaining isnr segs A c) {data : Bytes} (hdata : data ≠ [])
    (hsmall : data.length ≤ 32728) (hnear : sentEnd segs + data.length < A + 2 ^ 32) {flag : TCPFlag}
    (hsyn : flag.SYN ≠ 1) (hfin : flag.FIN ≠ 1) :
    Retaining isnr (segs ++ [⟨sentEnd segs, c.nextPacket (some data) flag none⟩]) A
      (c.sent (some data) flag none) := by
  have hpos := List.length_pos_of_ne_nil hdata
  have hadv : advance flag (some data) = BitVec.ofNat 32 data.length := by
    rw [advance, if_neg (not_or.2 ⟨hsyn, hfin⟩)]
    rfl
  set x : SentSegment := ⟨sentEnd segs, c.nextPacket (some data) flag none⟩ with hx
  have hstop : x.stop = sentEnd segs + data.length := rfl
  have hend : sentEnd (segs ++ [x]) = sentEnd segs + data.length := sentEnd_append segs x
  have hnext : c.mRemoteSeqNumber + advance flag (some data) = position (isnr + 1) x.stop := by
    rw [h.next, hadv, position_add, hstop]
    norm_cast
  have hacked := h.acked
  refine ⟨?_, ?_, ?_, ?_, ?_, ?_, ?_⟩
  · rw [hend, ← hstop]
    exact hnext
  · have hin : A < x.stop := by omega
    rw [List.filter_append, List.filter_cons_of_pos (by simpa using hin), List.filter_nil, List.map_append, ← h.exact]
    simp only [sent, Option.isSome_some, if_true, List.map_append, List.map_cons, List.map_nil]
    congr 2
    simp only [entry, trueEntry]
    rw [hnext, h.next]
  · refine List.pairwise_append.2 ⟨h.ascending, List.pairwise_singleton _ _, fun a ha b hb => ?_⟩
    obtain rfl := List.mem_singleton.1 hb
    have := h.stops a ha
    omega
  · intro y hy
    rcases List.mem_append.1 hy with hy | hy
    · have := h.stops y hy
      omega
    · obtain rfl := List.mem_singleton.1 hy
      omega
  · omega
  · omega
  · intro y hy
    rcases List.mem_append.1 hy with hy | hy
    · exact h.small y hy
    · obtain rfl := List.mem_singleton.1 hy
      exact hsmall

/-- An acknowledgment that covers no segment that is kept. -/
theorem Retaining.advance (h : Retaining isnr segs A c) (hA : A ≤ A') (hle : A' ≤ sentEnd segs)
    (hnone : ∀ x ∈ segs, A < x.stop → A' < x.stop) : Retaining isnr segs A' c := by
  have hnear := h.near
  refine ⟨h.next, ?_, h.ascending, h.stops, hle, by omega, h.small⟩
  rw [h.exact]
  congr 1
  refine List.filter_congr fun x hx => ?_
  have := hnone x hx
  by_cases hlt : A < x.stop
  · simp [hlt, this hlt]
  · have hlt' : ¬ A' < x.stop := by omega
    simp [hlt, hlt']

/-- The number of an acknowledgment tells its position. -/
theorem acknowledgedBy_spec (h : Retaining isnr s.segments s.acknowledged c) (ack : BitVec 32) :
    s.acknowledged ≤ s.acknowledgedBy isnr ack ∧ s.acknowledgedBy isnr ack ≤ sentEnd s.segments ∧
      ∀ x ∈ s.unacknowledged, position (isnr + 1) x.stop = ack ↔ x.stop = s.acknowledgedBy isnr ack := by
  have hacked := h.acked
  have hnear := h.near
  unfold acknowledgedBy
  dsimp only
  refine ⟨by split <;> omega, by split <;> omega, fun x hx => ?_⟩
  obtain ⟨hmem, hlt⟩ := List.mem_filter.1 hx
  have hlt : s.acknowledged < x.stop := by simpa using hlt
  have hstop := h.stops x hmem
  constructor
  · rintro rfl
    have hd := distance_of_le (isnr + 1) (a := s.acknowledged) (b := x.stop) (by omega) (by omega)
    rw [hd, if_pos (by omega)]
    omega
  · split
    · intro heq
      rw [heq, position_distance]
    · intro heq
      omega

/-- **A bare acknowledgment removes what it covers**, when it is of the end of a segment. -/
theorem Retaining.remove (h : Retaining isnr s.segments s.acknowledged c) (ack : BitVec 32)
    (hexact : (∃ x ∈ s.unacknowledged, x.stop ≤ s.acknowledgedBy isnr ack) →
      ∃ x ∈ s.unacknowledged, x.stop = s.acknowledgedBy isnr ack) :
    Retaining isnr s.segments (s.acknowledgedBy isnr ack) (Java.exec (removeAcknowledgedPackets ack) c).2 := by
  obtain ⟨hA, hle, hspec⟩ := acknowledgedBy_spec h ack
  have hfind : c.mClientPackets.findIdx? (fun w => w.nextSequenceNumber == ack) =
      s.unacknowledged.findIdx? fun x => position (isnr + 1) x.stop == ack := by
    have h1 := List.findIdx?_map (p := fun v : Option PacketV4 × BitVec 32 × BitVec 32 => v.2.2 == ack)
      (f := entry) (l := c.mClientPackets)
    rw [h.exact, List.findIdx?_map] at h1
    exact h1.symm
  have hp : ∀ x ∈ s.unacknowledged, (position (isnr + 1) x.stop == ack) = true ↔ x.stop = s.acknowledgedBy isnr ack := by
    intro x hx
    rw [beq_iff_eq]
    exact hspec x hx
  simp only [removeAcknowledgedPackets, Java.exec_modify]
  rw [hfind]
  cases hi : s.unacknowledged.findIdx? fun x => position (isnr + 1) x.stop == ack with
  | none =>
    -- no segment ends there, so none is covered
    have hnot : ∀ x ∈ s.unacknowledged, x.stop ≠ s.acknowledgedBy isnr ack := by
      intro x hx heq
      have := List.findIdx?_eq_none_iff.1 hi x hx
      rw [(hp x hx).2 heq] at this
      cases this
    refine h.advance hA hle fun x hx hlt => ?_
    by_contra hcov
    have hx : x ∈ s.unacknowledged := List.mem_filter.2 ⟨hx, by simpa using hlt⟩
    obtain ⟨y, hy, heq⟩ := hexact ⟨x, hx, not_lt.1 hcov⟩
    exact hnot y hy heq
  | some i =>
    have hnear := h.near
    refine ⟨h.next, ?_, h.ascending, h.stops, hle, by omega, h.small⟩
    have hasc : Keyed.Ascending SentSegment.stop s.unacknowledged := h.ascending.filter _
    simp only
    rw [List.map_drop, h.exact, ← List.map_drop]
    congr 1
    change s.unacknowledged.drop (i + 1) = _
    rw [Keyed.drop_findIdx_eq_above hasc hp hi, Keyed.above, unacknowledged, List.filter_filter]
    refine List.filter_congr fun x _ => ?_
    by_cases hlt : s.acknowledgedBy isnr ack < x.stop
    · have : s.acknowledged < x.stop := by omega
      simp [hlt, this]
    · simp [hlt]

/-! ### What leaves the kept segments alone -/

variable {v : BitVec 32 × List (TCPPacketWrapper PacketV4)}

theorem outView_sent (c : TCPController) {flag : TCPFlag} (hsyn : flag.SYN ≠ 1) (hfin : flag.FIN ≠ 1)
    (option : Option TCPOption) : outView (c.sent none flag option) = outView c := by
  have hadv : TCPController.advance flag none = 0 := if_neg (not_or.2 ⟨hsyn, hfin⟩)
  simp [outView, sent, hadv]

theorem makeAndSend_outView {flag : TCPFlag} (hsyn : flag.SYN ≠ 1) (hfin : flag.FIN ≠ 1) (option : Option TCPOption) :
    Java.Keeps (fun c => outView c = v) (makeAndSend none flag option) :=
  makeAndSend_keeps (fun _ h => h) fun c h => (outView_sent c hsyn hfin option).trans h

theorem sendSacks_outView (sacks : List SACK) : Java.Keeps (fun c => outView c = v) (sendSacks sacks) :=
  Java.Keeps.bind (Java.Keeps.lift _) fun _ => makeAndSend_outView (by decide) (by decide) _

/-- A RST has no payload when nothing is kept. -/
theorem terminate_outView {n : BitVec 32} : Java.Keeps (fun c => outView c = (n, [])) TCPController.terminate := by
  refine Java.Keeps.bind (fun c hc => ?_) fun _ => Java.Keeps.modify fun _ h => h
  have hlast : c.lastData = none := by
    rw [lastData, show c.mClientPackets = [] from congrArg Prod.snd hc]
    rfl
  have hsend : Java.Keeps (fun c => outView c = (n, [])) (makeAndSend none TCPFlag.RST_ACK none) :=
    makeAndSend_outView (by decide) (by decide) none
  simp only [sendCloseConnectionToClient, sendClosing, Java.exec_bind, Java.exec_get, hlast]
  exact hsend c hc

theorem onTermination_outView {n : BitVec 32} : Java.Keeps (fun c => outView c = (n, [])) onTermination :=
  Java.Keeps.bind (Java.Keeps.modify fun _ h => h) fun _ => terminate_outView

theorem outOfSequence_outView (pk : Segment) (c : TCPController)
    (hrst : pk.data = none → pk.flag.RST = 1 → c.mClientPackets = []) :
    outView (Java.exec (outOfSequence pk) c).2 = outView c := by
  have hkeeps : Java.Keeps (fun c' => outView c' = outView c) (outOfSequence pk) := by
    refine outOfSequence_keeps (fun hd hset => ?_) sendSacks_outView fun _ h => h
    -- a RST that comes when nothing is kept leaves nothing
    have hv : outView c = (c.mRemoteSeqNumber, []) := by rw [outView, hrst hd hset]
    rw [hv]
    exact onTermination_outView
  exact hkeeps c rfl

/-! ### The segments of the client -/

/-- The answer to a SYN with ACK. -/
theorem acceptSynAck_exec (pk : Segment) (c : TCPController) : ∃ c', Java.exec (acceptSynAck pk) c = (.ok (), c') ∧
    outView c' = outView c ∧ c'.mState = c.mState := by
  simp only [acceptSynAck, Java.exec_bind, updateClientSeqNumber_exec, sendACKToClient]
  rw [makeAndSend_exec, create_serverOption]
  exact ⟨_, rfl, outView_sent _ (by decide) (by decide) _, rfl⟩

/-- The first stage of a segment in sequence. -/
theorem acceptSyn_exec (pk : Segment) (c : TCPController) : ∃ c',
    Java.exec (if pk.flag.SYN = 1 ∧ pk.flag.ACK = 1 then acceptSynAck pk else pure ()) c = (.ok (), c') ∧
    outView c' = outView c ∧ c'.mState = c.mState := by
  split
  · exact acceptSynAck_exec pk c
  · exact ⟨c, rfl, rfl, rfl⟩

/-- What is kept fits into a packet again. -/
theorem Retaining.lastPayload_le (h : Retaining isnr segs A c) : c.lastPayload.length ≤ 32728 := by
  unfold lastPayload lastData
  cases hlast : c.mClientPackets.getLast? with
  | none => exact Nat.zero_le _
  | some w =>
    have hw : entry w ∈ c.mClientPackets.map entry := List.mem_map_of_mem (List.mem_of_getLast? hlast)
    rw [h.exact] at hw
    obtain ⟨x, hx, hentry⟩ := List.mem_map.1 hw
    have hpacket : w.mPacket = some x.packet := (congrArg Prod.fst hentry).symm
    simp only [Option.map_some, hpacket, Option.bind_some, Option.getD_some]
    exact h.small x (List.mem_of_mem_filter hx)

theorem onTermination_returns (hsmall : c.lastPayload.length ≤ 32728) :
    ∃ c', Java.exec onTermination c = (.ok (), c') := by
  set c₁ : TCPController := { c with log := c.log ++ [.onTermination] } with hc₁
  obtain ⟨data, flag, hdata, -, -, -, hexec⟩ := sendClosing_exec c₁ TCPFlag.RST_ACK
  rw [show c₁.lastPayload = c.lastPayload from rfl] at hdata
  simp only [onTermination, emit, TCPController.terminate, sendCloseConnectionToClient, Java.exec_bind,
    Java.exec_modify]
  rw [hexec, makeAndSend_exec, create_fits c₁ data (by rw [hdata]; exact hsmall)]
  exact ⟨_, rfl⟩

theorem acceptFin_closes (pk : Segment) (c : TCPController) : ¬ Open (Java.exec (acceptFin pk) c).2 := by
  rw [acceptFin_exec]
  obtain ⟨state, hphase, hestablished, hother⟩ := answerFin_phase { c with
    mClientSeqNumber := pk.sequenceNumber
    mClientNexSeqNumber := pk.next
    log := c.log ++ [.finAccepted] }
  have hstate := congrArg Prod.fst hphase
  simp only [phase] at hstate
  rw [Open, hstate]
  by_cases hest : c.mState = .ESTABLISHED
  · rcases hestablished hest with rfl | rfl <;> decide
  · obtain rfl := hother hest
    decide

/-- **A FIN of the client closes the connection.** -/
theorem Retaining.fin (h : Retaining isnr segs A c) (hfin : pk.flag.FIN = 1) :
    ¬ Open (Java.exec (inSequence pk) c).2 := by
  obtain ⟨c₁, hsyn, hv₁, -⟩ := acceptSyn_exec pk c
  have h₁ : Retaining isnr segs A c₁ := h.of_view hv₁
  -- the payload is queued, and a FIN acknowledges nothing
  obtain ⟨c₂, hpayload, hv₂⟩ : ∃ c₂, Java.exec (takePayload pk) c₁ = (.ok (), c₂) ∧ outView c₂ = outView c₁ := by
    have hne : ¬ (pk.flag.ACK = 1 ∧ pk.flag.FIN = 0 ∧ pk.flag.RST = 0) := by
      rw [hfin]
      simp
    rw [takePayload, if_neg hne]
    split
    · exact ⟨_, queueInSequence_exec pk true c₁, rfl⟩
    · exact ⟨c₁, rfl, rfl⟩
  obtain ⟨c₃, hrst⟩ : ∃ c₃, Java.exec (if pk.flag.RST = 1 then onTermination else pure ()) c₂ = (.ok (), c₃) := by
    split
    · exact onTermination_returns (h₁.of_view hv₂).lastPayload_le
    · exact ⟨c₂, rfl⟩
  rw [inSequence_eq, Java.exec_bind, hsyn]
  simp only [Java.exec_bind, hpayload, takeEnd, hrst, if_pos hfin]
  exact acceptFin_closes pk c₃

theorem Retaining.acknowledge (h : Retaining isnr s.segments s.acknowledged c) (hopen : Open c)
    (hack : (∃ x ∈ s.unacknowledged, x.stop ≤ s.acknowledgedBy isnr pk.acknowledgmentNumber) →
      (c.mState = .ESTABLISHED ∧ pk.option = none) ∧
      ∃ x ∈ s.unacknowledged, x.stop = s.acknowledgedBy isnr pk.acknowledgmentNumber) :
    Retaining isnr s.segments (s.acknowledgedBy isnr pk.acknowledgmentNumber)
      (Java.exec (TCPController.acknowledge pk) c).2 := by
  obtain ⟨hA, hle, -⟩ := acknowledgedBy_spec h pk.acknowledgmentNumber
  -- when nothing is covered nothing has to be removed
  have hquiet : (¬ (c.mState = .ESTABLISHED ∧ pk.option = none)) →
      Retaining isnr s.segments (s.acknowledgedBy isnr pk.acknowledgmentNumber) c := by
    intro hnot
    refine h.advance hA hle fun x hx hlt => ?_
    by_contra hcov
    have hx : x ∈ s.unacknowledged := List.mem_filter.2 ⟨hx, by simpa using hlt⟩
    exact hnot (hack ⟨x, hx, not_lt.1 hcov⟩).1
  have hcases := acknowledge_cases c pk
  generalize (Java.exec (TCPController.acknowledge pk) c).2 = c' at hcases ⊢
  cases hcases with
  | removed _ _ => exact h.remove _ fun hcov => (hack hcov).2
  | resent lost _ hoption _ => exact (hquiet fun h' => hoption h'.2).of_view rfl
  | finAcknowledged hstate => rcases hopen with h' | h' <;> exact absurd (h'.symm.trans hstate) (by decide)
  | terminated hstate => rcases hopen with h' | h' <;> exact absurd (h'.symm.trans hstate) (by decide)
  | established hstate => exact (hquiet (by simp [hstate])).of_view rfl
  | ignored hest hsyn _ _ => exact absurd hopen (not_or.2 ⟨hsyn, hest⟩)

/-- The payload of a segment in sequence without FIN. -/
theorem Retaining.takePayload (pk : Segment) (h : Retaining isnr s.segments s.acknowledged c) (hopen : Open c)
    (hkept : pk.flag.RST = 1 → c.mClientPackets = [])
    (hack : pk.flag.ACK = 1 →
      (∃ x ∈ s.unacknowledged, x.stop ≤ s.acknowledgedBy isnr pk.acknowledgmentNumber) →
      (c.mState = .ESTABLISHED ∧ pk.flag.PSH ≠ 1 ∧ pk.flag.FIN = 0 ∧ pk.flag.RST = 0 ∧
        pk.data = none ∧ pk.option = none) ∧
      ∃ x ∈ s.unacknowledged, x.stop = s.acknowledgedBy isnr pk.acknowledgmentNumber) :
    Retaining isnr s.segments
      (if pk.flag.ACK = 1 then s.acknowledgedBy isnr pk.acknowledgmentNumber else s.acknowledged)
      (Java.exec (TCPController.takePayload pk) c).2 ∧
    (pk.flag.RST = 1 → (Java.exec (TCPController.takePayload pk) c).2.mClientPackets = []) := by
  set A₁ := if pk.flag.ACK = 1 then s.acknowledgedBy isnr pk.acknowledgmentNumber else s.acknowledged with hA₁
  -- a segment that is not a bare acknowledgment covers nothing
  have hquiet : ¬ (pk.flag.PSH ≠ 1 ∧ pk.flag.FIN = 0 ∧ pk.flag.RST = 0 ∧ pk.data = none) ∨ pk.flag.ACK ≠ 1 →
      Retaining isnr s.segments A₁ c := by
    intro hnot
    by_cases hset : pk.flag.ACK = 1
    · obtain ⟨hA, hle, -⟩ := acknowledgedBy_spec h pk.acknowledgmentNumber
      rw [hA₁, if_pos hset]
      refine h.advance hA hle fun x hx hlt => ?_
      by_contra hcov
      have hx : x ∈ s.unacknowledged := List.mem_filter.2 ⟨hx, by simpa using hlt⟩
      obtain ⟨-, hpsh, hfin, hrst, hdata, -⟩ := (hack hset ⟨x, hx, not_lt.1 hcov⟩).1
      exact hnot.elim (fun h' => h' ⟨hpsh, hfin, hrst, hdata⟩) fun h' => h' hset
    · rw [hA₁, if_neg hset]
      exact h
  unfold TCPController.takePayload
  simp only [Java.exec_ite]
  split_ifs with hpsh hbare hdata
  · exact ⟨(hquiet (.inl fun h' => h'.1 hpsh)).of_view rfl, hkept⟩
  · refine ⟨(hquiet (.inl fun h' => ?_)).of_view rfl, hkept⟩
    rw [h'.2.2.2] at hdata
    cases hdata
  · obtain ⟨hset, hfin, hrst⟩ := hbare
    rw [hA₁, if_pos hset]
    refine ⟨h.acknowledge hopen fun hcov => ?_, fun hset' => ?_⟩
    · obtain ⟨⟨hstate, -, -, -, -, hoption⟩, hend⟩ := hack hset hcov
      exact ⟨⟨hstate, hoption⟩, hend⟩
    · rw [hrst] at hset'
      exact absurd hset' (by decide)
  · refine ⟨hquiet ?_, hkept⟩
    by_cases hset : pk.flag.ACK = 1
    · exact .inl fun h' => hbare ⟨hset, h'.2.1, h'.2.2.1⟩
    · exact .inr hset

/-- A segment in sequence. -/
theorem Retaining.inSequence (h : Retaining isnr s.segments s.acknowledged c) (hopen : Open c)
    (htidy : pk.flag.FIN ≠ 1 → (pk.flag.RST = 1 → c.mClientPackets = []) ∧ (pk.flag.ACK = 1 →
      (∃ x ∈ s.unacknowledged, x.stop ≤ s.acknowledgedBy isnr pk.acknowledgmentNumber) →
      (c.mState = .ESTABLISHED ∧ pk.flag.PSH ≠ 1 ∧ pk.flag.FIN = 0 ∧ pk.flag.RST = 0 ∧
        pk.data = none ∧ pk.option = none) ∧
      ∃ x ∈ s.unacknowledged, x.stop = s.acknowledgedBy isnr pk.acknowledgmentNumber))
    (hstill : Open (Java.exec (TCPController.inSequence pk) c).2) :
    Retaining isnr s.segments
      (if pk.flag.ACK = 1 then s.acknowledgedBy isnr pk.acknowledgmentNumber else s.acknowledged)
      (Java.exec (TCPController.inSequence pk) c).2 := by
  by_cases hfin : pk.flag.FIN = 1
  · exact absurd hstill (h.fin hfin)
  obtain ⟨hkept, hack⟩ := htidy hfin
  obtain ⟨c₁, hsyn, hv₁, hstate₁⟩ := acceptSyn_exec pk c
  have hpackets : c₁.mClientPackets = c.mClientPackets := congrArg Prod.snd hv₁
  have hpayload := (h.of_view hv₁).takePayload (s := s) pk (by rw [Open, hstate₁]; exact hopen)
    (by rw [hpackets]; exact hkept) (by rw [hstate₁]; exact hack)
  rw [inSequence_eq, Java.exec_bind, hsyn]
  simp only
  set A₁ := if pk.flag.ACK = 1 then s.acknowledgedBy isnr pk.acknowledgmentNumber else s.acknowledged
  refine (Java.Keeps.after (I := fun c => Retaining isnr s.segments A₁ c ∧
    (pk.flag.RST = 1 → c.mClientPackets = [])) hpayload fun _ c₂ h₂ => ?_).1
  unfold takeEnd
  rw [if_neg hfin]
  refine Java.Keeps.after (I := fun c => Retaining isnr s.segments A₁ c ∧
    (pk.flag.RST = 1 → c.mClientPackets = [])) ?_ fun _ => Java.Keeps.pure _
  split
  · rename_i hrst
    have hv : outView c₂ = (c₂.mRemoteSeqNumber, []) := by rw [outView, h₂.2 hrst]
    have hafter := onTermination_outView c₂ hv
    exact ⟨h₂.1.of_view (hafter.trans hv.symm), fun _ => congrArg Prod.snd hafter⟩
  · exact h₂

/-! ### Runs -/

theorem open_iff_of_phase {state : State} {v : Bool × ℕ} (hphase : c.phase = (state, v)) :
    Open c ↔ state = .SYN_RECEIVED ∨ state = .ESTABLISHED := by
  rw [Open, show c.mState = state from congrArg Prod.fst hphase]

/-- A connection that closes does not open again. -/
theorem open_of_step (he : e ≠ .connected) (hopen : Open (c.step e)) : Open c := by
  have hsame {state : State} {v : Bool × ℕ} (hphase : (c.step e).phase = (state, v)) :=
    (open_iff_of_phase hphase).1 hopen
  by_cases hclient : ∃ pk, e = .client pk
  · obtain ⟨pk, rfl⟩ := hclient
    rcases packetFromClient_phases c pk with hphase | ⟨-, hphases⟩
    · exact hsame hphase
    · change Phases c pk (c.step (.client pk)).phase at hphases
      generalize hv : (c.step (.client pk)).phase = v at hphases
      cases hphases with
      | same => exact hsame hv
      | established hstate => exact .inl hstate
      | finAcknowledged _ => exact absurd (hsame hv) (by decide)
      | finFirst state _ hstate _ => exact .inr hstate
      | finOther _ _ => exact absurd (hsame hv) (by decide)
  · rcases step_phase_other he (fun pk heq => hclient ⟨pk, heq⟩) c with hphase | hphase | hphase
    · exact hsame hphase
    · exact absurd (hsame hphase) (by decide)
    · exact absurd (hsame hphase) (by decide)

/-- The chunk that is sent is the segment that is made. -/
theorem Retaining.packetFromRemote (h : Retaining isnr segs A c) {data : Bytes} (hdata : data ≠ []) (push : Bool)
    (hnear : sentEnd segs + data.length < A + 2 ^ 32) :
    Retaining isnr (segs ++ (handedBy c (.packetFromRemote data push)).map fun packet => ⟨sentEnd segs, packet⟩) A
      (c.step (.packetFromRemote data push)) := by
  obtain ⟨flag, hsyn, hfin, hsame | ⟨hsmall, hsent⟩⟩ := packetFromRemote_cases c data push
  · have hnone : handedBy c (.packetFromRemote data push) = [] := by
      rw [handedBy, hsame, show c.identified.log = c.log from rfl, List.drop_length, List.filterMap_nil]
    rw [hnone, hsame, List.map_nil, List.append_nil]
    exact h.of_view rfl
  · have hone : handedBy c (.packetFromRemote data push) = [c.nextPacket (some data) flag none] := by
      rw [handedBy, hsent, sent, List.drop_left]
      rfl
    rw [hone, hsent]
    exact h.chunk hdata hsmall hnear hsyn hfin

/-- The invariant of a connection. -/
def Inv (isnr : BitVec 32) (s : Outbox) : Prop :=
  Open s.controller → Retaining isnr s.segments s.acknowledged s.controller

theorem Inv.client (h : s.Inv isnr) (htidy : s.Tidy isnr (.client pk)) : (s.step isnr (.client pk)).Inv isnr := by
  intro hstill
  have hopen : Open s.controller := open_of_step (by simp) hstill
  have hr := h hopen
  change Retaining isnr s.segments (if Takes s.controller pk ∧ pk.flag.ACK = 1
    then s.acknowledgedBy isnr pk.acknowledgmentNumber else s.acknowledged) (packetFromClient pk s.controller)
  set A₁ := if Takes s.controller pk ∧ pk.flag.ACK = 1 then s.acknowledgedBy isnr pk.acknowledgmentNumber
    else s.acknowledged with hA₁
  have hskipped : ¬ Takes s.controller pk → A₁ = s.acknowledged := fun hnot => if_neg fun h' => hnot h'.1
  refine packetFromClient_keeps (I := fun c => Open c → Retaining isnr s.segments A₁ c)
    (fun _ hc ho => (hc ho).of_view rfl) s.controller (fun hended _ => ?_) (fun hrun => ?_) hstill
  · rw [hskipped fun h' => by rw [h'.1] at hended; cases hended]
    exact hr
  by_cases hsyn : pk.flag.SYN = 1 ∧ pk.flag.ACK = 0
  · rw [process_syn hsyn, hskipped fun h' => h'.2.1 hsyn]
    exact fun _ => hr
  obtain ⟨hout, hin⟩ := htidy hopen hrun hsyn
  have hr₁ : Retaining isnr s.segments s.acknowledged { s.controller with mClientWindowSize := pk.windowSize } :=
    hr.of_view rfl
  rw [process_exec hsyn]
  by_cases hseq : pk.sequenceNumber = s.controller.mClientNexSeqNumber
  · rw [if_neg (not_not.2 hseq)]
    intro hstill
    have htakes : Takes s.controller pk := ⟨hrun, hsyn, hseq⟩
    simp only [hA₁, htakes, true_and]
    exact hr₁.inSequence hopen (hin hseq) hstill
  · rw [if_pos hseq, hskipped fun h' => hseq h'.2.2]
    exact fun _ => hr₁.of_view (outOfSequence_outView _ _ (hout hseq))

theorem sendFINPacket_closes (c : TCPController) : ¬ Open (Java.exec sendFINPacket c).2 := by
  have hstate := congrArg Prod.fst (sendFINPacket_phase c)
  simp only [phase] at hstate
  rw [Open, hstate]
  split <;> decide

theorem Inv.step (h : s.Inv isnr) (he : Serves e) (htidy : s.Tidy isnr e) : (s.step isnr e).Inv isnr := by
  cases e with
  | connected => exact absurd he id
  | client pk => exact h.client htidy
  | poll =>
    intro hstill
    refine (h (open_of_step (by simp) hstill)).of_view ?_
    change outView s.controller.pollQueue = _
    unfold pollQueue
    split <;> rfl
  | packetFromRemote data push =>
    intro hstill
    exact (h (open_of_step (by simp) hstill)).packetFromRemote he push htidy
  | tick => exact fun hstill => absurd (open_of_step (by simp) hstill) htidy
  | close => exact fun hstill => absurd hstill (sendFINPacket_closes s.controller)
  | remoteClosed => exact fun hstill => absurd hstill (sendFINPacket_closes s.controller)
  | terminate =>
    intro hstill
    have hopen : Open s.controller := open_of_step (by simp) hstill
    have hv : outView s.controller = (s.controller.mRemoteSeqNumber, []) := by rw [outView, htidy hopen]
    exact (h hopen).of_view ((terminate_outView s.controller hv).trans hv.symm)

end Retaining

end Outbox

/-- **What is kept is what is not acknowledged.** In every run after the handshake on chunks of the remote,
segments of the client, keep-alive ticks and closing, in any order, whose steps are `Tidy`, the controller
keeps exactly the data segments that are not acknowledged while the connection is established. -/
theorem retransmission_exact {header : IPV4Header} {tcp : TCP} {random : BitVec 32} {ident : BitVec 16}
    {c : TCPController} (hnew : TCPController.new header tcp random ident = .ok c) (es : List Event)
    (hes : ∀ e ∈ es, Outbox.Serves e)
    (htidy : Run.Always (Outbox.step random) (Outbox.Tidy random) ⟨c.step .connected, [], 0⟩ es)
    (hstate : (Run.run (Outbox.step random) ⟨c.step .connected, [], 0⟩ es).controller.mState = .ESTABLISHED) :
    (Run.run (Outbox.step random) ⟨c.step .connected, [], 0⟩ es).Exact random := by
  obtain ⟨hnext, hkept⟩ := connected_eq hnew
  have hstart : Outbox.Inv random ⟨c.step .connected, [], 0⟩ := by
    intro _
    have hnone : ∀ x : SentSegment, x ∉ [] := fun x => List.not_mem_nil
    change Outbox.Retaining random [] 0 (c.step .connected)
    refine ⟨?_, ?_, List.Pairwise.nil, fun x hx => absurd hx (hnone x), Nat.zero_le _, ?_,
      fun x hx => absurd hx (hnone x)⟩
    · rw [hnext, Serial.position_natCast]
      simp [Outbox.sentEnd]
    · rw [hkept]
      rfl
    · simp [Outbox.sentEnd]
  have hrun := Run.invariant_run (I := Outbox.Inv random) (fun s e hs he => hs.step he.1 he.2) hstart
    (htidy.with_events hes)
  exact (hrun (.inr hstate)).exact

/-- Three chunks, the first two acknowledged together. -/
def threeChunks : List Event :=
  [acknowledgment 5001, .packetFromRemote [72, 84] false, .packetFromRemote [84] false,
    .packetFromRemote [80, 47] true, acknowledgment 5002, acknowledgment 5004]

theorem threeChunks_exact :
    (Run.run (Outbox.step 5000) ⟨(accepting 1000 5000).step .connected, [], 0⟩ threeChunks).unacknowledged.length = 1 ∧
    (Run.run (Outbox.step 5000) ⟨(accepting 1000 5000).step .connected, [], 0⟩ threeChunks).Exact 5000 := by
  refine ⟨by decide +kernel, retransmission_exact (new_clientSyn 1000 5000) threeChunks ?_ (by decide +kernel)
    (by decide +kernel)⟩
  simp [threeChunks, acknowledgment, Outbox.Serves]

/-- **An acknowledgment that comes with payload removes nothing.** -/
theorem payload_acknowledges_nothing : ¬ ∀ (isn random : BitVec 32) (es : List Event), (∀ e ∈ es, Outbox.Serves e) →
    (Run.run (Outbox.step random) ⟨(accepting isn random).step .connected, [], 0⟩ es).controller.mState = .ESTABLISHED →
    (Run.run (Outbox.step random) ⟨(accepting isn random).step .connected, [], 0⟩ es).Exact random := by
  intro h
  have := h 1000 5000 [acknowledgment 5001, .packetFromRemote [72] false, .client {
    sequenceNumber := 1001
    acknowledgmentNumber := 5002
    flag := TCPFlag.ACKOnly
    data := some [71] }] (by simp [acknowledgment, Outbox.Serves]) (by decide +kernel)
  revert this
  decide +kernel

end TCPController

end SmartTunnel
