import SmartTunnel.Base.Run
import SmartTunnel.Proof.Process

/-!
# The acknowledgments to the client

`ledger isn log` books the payload bytes that were put into `mRemotePacketQueue`, by their offset in
the client's stream, and whether its FIN was consumed. The acknowledgment number of a packet is right if
it is the `next` number of the ledger when the packet is sent (`Acknowledges`). Sending never moves
`mClientNexSeqNumber`, so only the processor matters: `acknowledgments_sound` holds in every run
whose segments are `Booked`.
-/

namespace SmartTunnel

open Jvm

/-! ## The ledger -/

/-- The first offset that is not covered. -/
def inOrder (covered : List ℕ) : ℕ :=
  ((List.range (covered.length + 1)).find? fun o => o ∉ covered).getD 0

/-- The offsets of the payload bytes put into the queue, and 1 when the FIN was consumed. -/
structure Ledger where
  covered : List ℕ := []
  fin : ℕ := 0
  deriving DecidableEq, Repr

namespace Ledger

/-- The length of the in-order part of the stream. -/
def bytes (l : Ledger) : ℕ := inOrder l.covered

/-- The sequence number after the in-order part of the stream and the FIN. -/
def next (isn : BitVec 32) (l : Ledger) : BitVec 32 := isn + 1 + BitVec.ofNat 32 l.bytes + BitVec.ofNat 32 l.fin

/-- The offsets of a packet's bytes, read off its sequence number as near to `next` as it can be. -/
def offsets (isn : BitVec 32) (l : Ledger) (w : TCPPacketWrapper Segment) : List ℕ :=
  (List.range ((w.mPacket.map Segment.dataLength).getD 0)).filterMap fun (i : ℕ) =>
    let offset := (l.bytes : ℤ) + l.fin + (w.sequenceNumber - l.next isn).toInt + i
    if 0 ≤ offset then some offset.toNat else none

def record (isn : BitVec 32) (l : Ledger) : Effect → Ledger
  | .queued w => { l with covered := l.covered ++ l.offsets isn w }
  | .finAccepted => { l with fin := 1 }
  | _ => l

end Ledger

def ledger (isn : BitVec 32) (log : List Effect) : Ledger := log.foldl (Ledger.record isn) {}

section Ledger

variable {isn : BitVec 32} {covered : List ℕ} {n : ℕ} {l : Ledger} {log : List Effect}

theorem inOrder_eq (hn : n ∉ covered) (hlt : ∀ o < n, o ∈ covered) : inOrder covered = n := by
  -- `n` different offsets are covered, so the search is long enough
  have hlen : n ≤ covered.length := by
    have hsub : List.range n ⊆ covered := fun o ho => hlt o (List.mem_range.1 ho)
    have := (List.nodup_range.subperm hsub).length_le
    rwa [List.length_range] at this
  have hfind : (List.range (covered.length + 1)).find? (fun o => decide (o ∉ covered)) = some n := by
    rw [List.find?_range_eq_some]
    refine ⟨by simpa using hn, List.mem_range.2 (by omega), ?_⟩
    intro o ho
    simpa using hlt o ho
  unfold inOrder
  rw [hfind]
  rfl

theorem inOrder_spec (covered : List ℕ) : inOrder covered ∉ covered ∧ ∀ o < inOrder covered, o ∈ covered := by
  -- more offsets than covered ones: some is not covered
  have hex : ∃ o, o ∉ covered ∧ ∀ o' < o, o' ∈ covered := by
    by_contra hall
    push Not at hall
    have hmem : ∀ o, o ∈ covered := by
      intro o
      induction o using Nat.strong_induction_on with
      | _ o ih =>
        by_contra ho
        obtain ⟨o', hlt, hne⟩ := hall o ho
        exact hne (ih o' hlt)
    have hsub : List.range (covered.length + 1) ⊆ covered := fun o _ => hmem o
    have := (List.nodup_range.subperm hsub).length_le
    rw [List.length_range] at this
    omega
  obtain ⟨o, hn, hlt⟩ := hex
  rw [inOrder_eq hn hlt]
  exact ⟨hn, hlt⟩

theorem Ledger.mem_offsets {w : TCPPacketWrapper Segment} {o : ℕ} :
    o ∈ l.offsets isn w ↔ ∃ i < (w.mPacket.map Segment.dataLength).getD 0,
      (o : ℤ) = l.bytes + l.fin + (w.sequenceNumber - l.next isn).toInt + i := by
  simp only [offsets, List.mem_filterMap, List.mem_range]
  constructor
  · rintro ⟨i, hi, ho⟩
    refine ⟨i, hi, ?_⟩
    split at ho
    · have := Option.some.inj ho
      omega
    · cases ho
  · rintro ⟨i, hi, ho⟩
    refine ⟨i, hi, ?_⟩
    rw [if_pos (by omega)]
    congr 1
    omega

/-- A packet at `next` extends the in-order part, to the next byte that is not queued. -/
theorem Ledger.record_next {w : TCPPacketWrapper Segment} {len : ℕ}
    (hlen : (w.mPacket.map Segment.dataLength).getD 0 = len) (hseq : w.sequenceNumber = l.next isn)
    (hfree : len ≠ 0 → l.fin = 0 ∧ l.bytes + len ∉ l.covered) :
    (l.record isn (.queued w)).bytes = l.bytes + len := by
  obtain ⟨hn, hlt⟩ := inOrder_spec l.covered
  have hmem : ∀ o, o ∈ l.offsets isn w ↔ ∃ i < len, o = l.bytes + l.fin + i := by
    intro o
    rw [Ledger.mem_offsets, hlen, hseq]
    simp only [BitVec.sub_self, BitVec.toInt_zero, add_zero]
    norm_cast
  refine inOrder_eq ?_ ?_
  · intro hcov
    rcases List.mem_append.1 hcov with hold | hnew
    · by_cases h0 : len = 0
      · rw [h0] at hold
        exact hn hold
      · exact (hfree h0).2 hold
    · obtain ⟨i, hi, ho⟩ := (hmem _).1 hnew
      have := (hfree (by omega)).1
      omega
  · intro o ho
    by_cases hold : o < l.bytes
    · exact List.mem_append_left _ (hlt o hold)
    · have hfin := (hfree (by omega)).1
      exact List.mem_append_right _ ((hmem o).2 ⟨o - l.bytes, by omega, by omega⟩)

/-- A packet that does not hold the next byte leaves the in-order part as it is. -/
theorem Ledger.record_ahead {w : TCPPacketWrapper Segment}
    (h : (w.mPacket.map Segment.dataLength).getD 0 ≤
      (l.next isn - BitVec.ofNat 32 l.fin - w.sequenceNumber).toNat) :
    (l.record isn (.queued w)).bytes = l.bytes := by
  obtain ⟨hn, hlt⟩ := inOrder_spec l.covered
  refine inOrder_eq ?_ fun o ho => List.mem_append_left _ (hlt o ho)
  intro hcov
  rcases List.mem_append.1 hcov with hold | hnew
  · exact hn hold
  · obtain ⟨i, hi, ho⟩ := Ledger.mem_offsets.1 hnew
    -- the byte is `i` after the packet's number, and then the packet is not that short
    have hdiff : (w.sequenceNumber - l.next isn).toInt = -((i + l.fin : ℕ) : ℤ) := by
      change ((l.bytes : ℕ) : ℤ) = _ at ho
      push_cast
      omega
    have hw : w.sequenceNumber - l.next isn = -BitVec.ofNat 32 (i + l.fin) := by
      rw [← BitVec.ofInt_toInt (x := w.sequenceNumber - l.next isn), hdiff, BitVec.ofInt_neg,
        BitVec.ofInt_natCast]
    have heq : l.next isn - BitVec.ofNat 32 l.fin - w.sequenceNumber = BitVec.ofNat 32 i := by
      rw [BitVec.ofNat_add] at hw
      linear_combination (-1 : BitVec 32) * hw
    rw [heq, BitVec.toNat_ofNat] at h
    have := Nat.mod_le i (2 ^ 32)
    omega

/-- A packet without payload is not booked. -/
theorem Ledger.record_empty {pk : Segment} (hlen : pk.dataLength = 0) {push : Bool} :
    l.record isn (.queued (TCPController.wrapperOf pk push)) = l := by
  have hoff : l.offsets isn (TCPController.wrapperOf pk push) = [] := by
    unfold Ledger.offsets
    rw [show ((TCPController.wrapperOf pk push).mPacket.map Segment.dataLength).getD 0 = 0 from hlen]
    rfl
  rw [Ledger.record, hoff, List.append_nil]

theorem Ledger.next_of_bytes {l' : Ledger} (hb : l'.bytes = l.bytes) (hf : l'.fin = l.fin) :
    l'.next isn = l.next isn := by
  rw [Ledger.next, Ledger.next, hb, hf]

theorem Ledger.record_queued_fin (isn : BitVec 32) (l : Ledger) (w : TCPPacketWrapper Segment) :
    (l.record isn (.queued w)).fin = l.fin := rfl

@[simp] theorem ledger_append (log : List Effect) (e : Effect) :
    ledger isn (log ++ [e]) = (ledger isn log).record isn e := by
  simp [ledger]

end Ledger

namespace TCPController

/-- The acknowledgment number of a TCP packet. -/
def acknowledgmentOf (packet : PacketV4) : Option (BitVec 32) :=
  match packet.mTransmissionProtocol with
  | .tcp tcp => tcp.getAcknowledgmentNumberIntValue.toOption
  | .udp _ => none

/-- Every packet in the log acknowledges what was booked before it. -/
def Acknowledges (isn : BitVec 32) (log : List Effect) : Prop :=
  ∀ i packet, log[i]? = some (.onPacketReadyForClient packet) →
    acknowledgmentOf packet = some ((ledger isn (log.take i)).next isn)

/-! ## Runs -/

/-- The packets that the SACK of a segment makes the controller send again. -/
def resentPackets (c : TCPController) (pk : Segment) : List PacketV4 :=
  match pk.option.map TCPOption.getSelectiveAcknowledgmentIntValues with
  | some (.ok (some sacks)) => (c.lossPackets sacks pk.acknowledgmentNumber).toOption.getD []
  | _ => []

/-- What the code asks of a segment at `mClientNexSeqNumber`. A SYN carries an empty payload; a
FIN comes once, without payload, and not with PSH and RST; payload that is queued comes before the FIN
and ends at a byte that is not queued yet; and what a SACK makes the controller send again was made with
the current number. -/
structure BookedNext (isn : BitVec 32) (c : TCPController) (pk : Segment) : Prop where
  syn : pk.flag.SYN = 1 → pk.data = some []
  fin : pk.flag.FIN = 1 → pk.data = none ∧ (ledger isn c.log).fin = 0 ∧ (pk.flag.PSH = 1 → pk.flag.RST ≠ 1)
  payload : pk.dataLength ≠ 0 → (pk.flag.PSH = 1 ∨ (pk.flag.ACK = 1 ∧ pk.flag.FIN = 0 ∧ pk.flag.RST = 0)) →
    (ledger isn c.log).fin = 0 ∧ (ledger isn c.log).bytes + pk.dataLength ∉ (ledger isn c.log).covered
  resent : c.mState = .ESTABLISHED → pk.data = none → pk.flag.PSH ≠ 1 →
    ∀ packet ∈ c.resentPackets pk, acknowledgmentOf packet = some c.mClientNexSeqNumber

instance (isn : BitVec 32) (c : TCPController) (pk : Segment) : Decidable (BookedNext isn c pk) :=
  decidable_of_iff (_ ∧ _ ∧ _ ∧ _) ⟨fun h => ⟨h.1, h.2.1, h.2.2.1, h.2.2.2⟩, fun h => ⟨h.1, h.2, h.3, h.4⟩⟩

/-- What the code asks of a segment ahead of `mClientNexSeqNumber`: the next byte is not inside it. -/
def BookedAhead (isn : BitVec 32) (c : TCPController) (pk : Segment) : Prop :=
  pk.sequenceNumber ≠ c.mClientNexSeqNumber - 1 → c.mClientNexSeqNumber.toInt < pk.sequenceNumber.toInt →
    pk.dataLength ≤ (c.mClientNexSeqNumber - BitVec.ofNat 32 (ledger isn c.log).fin - pk.sequenceNumber).toNat

def Booked (isn : BitVec 32) (c : TCPController) : Event → Prop
  | .client pk => c.processorEnded = false → ¬ (pk.flag.SYN = 1 ∧ pk.flag.ACK = 0) →
    (pk.sequenceNumber = c.mClientNexSeqNumber → BookedNext isn c pk) ∧
    (pk.sequenceNumber ≠ c.mClientNexSeqNumber → BookedAhead isn c pk)
  | _ => True

instance (isn : BitVec 32) (c : TCPController) (pk : Segment) : Decidable (BookedAhead isn c pk) :=
  inferInstanceAs (Decidable (_ → _))

instance (isn : BitVec 32) (c : TCPController) : ∀ e, Decidable (Booked isn c e)
  | .client _ => inferInstanceAs (Decidable (_ → _ → _ ∧ _))
  | .connected | .poll | .packetFromRemote _ _ | .tick | .close | .remoteClosed | .terminate =>
    inferInstanceAs (Decidable True)

/-! ## The invariant -/

/-- The packets sent are right, and the next one will be. -/
structure Accounted (isn : BitVec 32) (c : TCPController) : Prop where
  next : c.mClientNexSeqNumber = (ledger isn c.log).next isn
  sound : Acknowledges isn c.log

section Invariant

variable {isn : BitVec 32} {c c' : TCPController} {log : List Effect} {e : Effect} {w : TCPPacketWrapper Segment}
  {pk : Segment}

/-- An effect at the end of the log. -/
theorem Acknowledges.concat (h : Acknowledges isn log)
    (he : ∀ packet, e = .onPacketReadyForClient packet →
      acknowledgmentOf packet = some ((ledger isn log).next isn)) : Acknowledges isn (log ++ [e]) := by
  intro i packet hi
  rcases Nat.lt_trichotomy i log.length with hlt | rfl | hgt
  · rw [List.getElem?_append_left hlt] at hi
    rw [List.take_append_of_le_length hlt.le]
    exact h i packet hi
  · rw [List.getElem?_concat_length] at hi
    rw [List.take_left']
    · exact he packet (Option.some.inj hi)
    · rfl
  · rw [List.getElem?_eq_none (by simp; omega)] at hi
    cases hi

/-- Packets that are sent leave the ledger as it is. -/
theorem ledger_packets (log : List Effect) (packets : List PacketV4) :
    ledger isn (log ++ packets.map .onPacketReadyForClient) = ledger isn log := by
  induction packets generalizing log with
  | nil => simp
  | cons packet packets ih =>
    have := ih (log ++ [.onPacketReadyForClient packet])
    rw [ledger_append] at this
    simpa [Ledger.record] using this

theorem Acknowledges.packets (h : Acknowledges isn log) {packets : List PacketV4}
    (hp : ∀ packet ∈ packets, acknowledgmentOf packet = some ((ledger isn log).next isn)) :
    Acknowledges isn (log ++ packets.map .onPacketReadyForClient) := by
  induction packets generalizing log with
  | nil => simpa using h
  | cons packet packets ih =>
    have hone := h.concat (e := .onPacketReadyForClient packet) fun p hp' => by
      cases hp'
      exact hp packet List.mem_cons_self
    have hled : ledger isn (log ++ [.onPacketReadyForClient packet]) = ledger isn log := by
      rw [ledger_append]; rfl
    have := ih hone fun p hp' => by
      rw [hled]
      exact hp p (List.mem_cons_of_mem _ hp')
    simpa using this

/-- An effect that is not a packet, with the number that it makes the next. -/
theorem Accounted.record (h : Accounted isn c) (hlog : c'.log = c.log ++ [e])
    (he : ∀ packet, e ≠ .onPacketReadyForClient packet)
    (hnext : c'.mClientNexSeqNumber = ((ledger isn c.log).record isn e).next isn) :
    Accounted isn c' := by
  refine ⟨?_, ?_⟩
  · rw [hlog, ledger_append]
    exact hnext
  · rw [hlog]
    exact h.sound.concat fun packet hp => absurd hp (he packet)

/-- **Whatever is sent acknowledges `mClientNexSeqNumber`.** -/
theorem accounted_stable (isn : BitVec 32) : SendStable (Accounted isn) := by
  refine ⟨fun c h => ⟨h.next, h.sound⟩, ?_, fun c state h => ⟨h.next, h.sound⟩, fun c seq h => ⟨h.next, h.sound⟩,
    fun c h => ⟨h.next, h.sound⟩, fun c h => h.record rfl (fun packet he => nomatch he) h.next⟩
  intro c data flag option h
  have hack : acknowledgmentOf (c.nextPacket data flag option) = some c.mClientNexSeqNumber := by
    simp only [acknowledgmentOf, nextPacket, makeTcp_ack]
    rfl
  refine ⟨?_, ?_⟩
  · change c.mClientNexSeqNumber = (ledger isn (c.log ++ [_])).next isn
    rw [ledger_append]
    exact h.next
  · refine h.sound.concat fun packet hp => ?_
    obtain rfl := Effect.onPacketReadyForClient.inj hp
    rw [hack, h.next]

theorem ledger_stable (v : BitVec 32 × Ledger) :
    SendStable (fun c => (c.mClientNexSeqNumber, ledger isn c.log) = v) := by
  refine ⟨fun c h => h, ?_, fun c state h => h, fun c seq h => h, fun c h => h, ?_⟩
  · rintro c data flag option rfl
    simp only [sent, ledger_append]
    rfl
  · rintro c rfl
    simp only [ledger_append]
    rfl

/-! ## The processor -/

/-- A packet that leaves the in-order part as it is goes into the queue. -/
theorem Accounted.putToQueue (h : Accounted isn c)
    (hb : ((ledger isn c.log).record isn (.queued w)).bytes = (ledger isn c.log).bytes) :
    Accounted isn (Java.exec (TCPController.putToQueue w) c).2 := by
  rw [putToQueue_exec]
  refine h.record rfl (fun packet he => nomatch he) ?_
  rw [Ledger.next_of_bytes hb rfl]
  exact h.next

theorem Accounted.outOfSequence (h : Accounted isn c) (hbook : BookedAhead isn c pk) :
    Accounted isn (Java.exec (TCPController.outOfSequence pk) c).2 := by
  have hs := accounted_stable isn
  unfold TCPController.outOfSequence
  simp only [Java.exec_bind, Java.exec_get]
  cases hd : pk.data with
  | none =>
    simp only [Java.exec_ite]
    split
    · exact hs.onTermination c h
    · exact h
  | some data =>
    simp only [Java.exec_ite]
    by_cases hkeep : pk.sequenceNumber = c.mClientNexSeqNumber - 1
    · rw [if_pos hkeep]
      exact hs.sendSacks _ c h
    rw [if_neg hkeep]
    by_cases hlt : c.mClientNexSeqNumber.toInt < pk.sequenceNumber.toInt
    · rw [if_pos hlt]
      refine Java.Keeps.after ?_ fun _ => Java.Keeps.bind Java.Keeps.get fun _ => hs.sendSacks _
      refine h.putToQueue (Ledger.record_ahead ?_)
      have hlen := hbook hkeep hlt
      rw [h.next] at hlen
      exact hlen
    · rw [if_neg hlt]
      exact h

/-- Payload at `next`, or none. -/
theorem Accounted.queueInSequence (h : Accounted isn c) (hseq : pk.sequenceNumber = c.mClientNexSeqNumber)
    (hflags : pk.data = none → pk.flag.SYN ≠ 1 ∧ pk.flag.FIN ≠ 1)
    (hfree : pk.dataLength ≠ 0 → (ledger isn c.log).fin = 0 ∧
      (ledger isn c.log).bytes + pk.dataLength ∉ (ledger isn c.log).covered) (push : Bool) :
    Accounted isn (Java.exec (TCPController.queueInSequence pk push) c).2 := by
  have hrec : ((ledger isn c.log).record isn (.queued (wrapperOf pk push))).bytes =
      (ledger isn c.log).bytes + pk.dataLength := by
    refine Ledger.record_next rfl ?_ hfree
    rw [← h.next]
    exact hseq
  rw [queueInSequence_exec]
  refine h.record rfl (fun packet he => nomatch he) ?_
  change pk.next = _
  rw [Segment.next_payload hflags, hseq, h.next, Ledger.next, Ledger.next, hrec, BitVec.ofNat_add,
    Ledger.record_queued_fin isn (ledger isn c.log) (wrapperOf pk push)]
  ring

/-- A pure acknowledgment. -/
theorem Accounted.acknowledge (h : Accounted isn c)
    (hresent : c.mState = .ESTABLISHED →
      ∀ packet ∈ c.resentPackets pk, acknowledgmentOf packet = some c.mClientNexSeqNumber) :
    Accounted isn (Java.exec (TCPController.acknowledge pk) c).2 := by
  have hs := accounted_stable isn
  have hcases := acknowledge_cases c pk
  generalize (Java.exec (TCPController.acknowledge pk) c).2 = c' at hcases ⊢
  cases hcases with
  | removed _ _ => exact ⟨h.next, h.sound⟩
  | resent lost hstate _ hlost =>
    have hmem : ∀ packet ∈ lost, packet ∈ c.resentPackets pk := by
      intro packet hp
      rcases hlost with rfl | ⟨option, sacks, hop, hsacks, hlost⟩
      · cases hp
      · simp only [resentPackets, hop, Option.map_some, hsacks, hlost]
        exact hp
    refine ⟨?_, h.sound.packets ?_⟩
    · change c.mClientNexSeqNumber = (ledger isn (c.log ++ lost.map _)).next isn
      rw [ledger_packets]
      exact h.next
    · intro packet hp
      rw [← h.next]
      exact hresent hstate packet (hmem packet hp)
  | finAcknowledged _ => exact ⟨h.next, h.sound⟩
  | terminated _ => exact hs.onTermination c h
  | established _ =>
    exact h.record (e := .onConnectionEstablished) rfl (fun packet he => by cases he) h.next
  | ignored _ _ _ _ => exact h

/-- **A FIN is accepted.** Before, `next` is its number; `mClientNexSeqNumber` does not matter. -/
theorem acceptFin_accounted (hd : pk.data = none) (hf : pk.flag.FIN = 1)
    (hnext : (ledger isn c.log).next isn = pk.sequenceNumber) (hfin : (ledger isn c.log).fin = 0)
    (hsound : Acknowledges isn c.log) : Accounted isn (Java.exec (acceptFin pk) c).2 := by
  have hs := accounted_stable isn
  set c₁ : TCPController := { c with
    mClientSeqNumber := pk.sequenceNumber
    mClientNexSeqNumber := pk.sequenceNumber + 1
    log := c.log ++ [.finAccepted] } with hc₁
  have h₁ : Accounted isn c₁ := by
    have h₀ : Accounted isn { c with mClientNexSeqNumber := (ledger isn c.log).next isn } := ⟨rfl, hsound⟩
    refine h₀.record rfl (fun packet he => nomatch he) ?_
    have hrec : ((ledger isn c.log).record isn .finAccepted).next isn =
        isn + 1 + BitVec.ofNat 32 (ledger isn c.log).bytes + BitVec.ofNat 32 1 := rfl
    change pk.sequenceNumber + 1 = ((ledger isn c.log).record isn .finAccepted).next isn
    rw [hrec, ← hnext, Ledger.next, hfin]
    simp
  rw [acceptFin_exec, Segment.next_fin hd hf]
  refine Java.Keeps.bind Java.Keeps.get (fun c₂ => Java.Keeps.ite ?_ ?_) c₁ h₁
  · exact Java.Keeps.bind (hs.setState _) fun _ => Java.Keeps.bind (hs.sendACKToClient _) fun _ =>
      Java.Keeps.bind (hs.setState _) fun _ => hs.sendFINPacket
  · exact Java.Keeps.bind (hs.setState _) fun _ => hs.sendACKToClient _

/-- A segment with an empty payload moves nothing. -/
theorem inSequence_accounted_empty (h : Accounted isn c) (hseq : pk.sequenceNumber = c.mClientNexSeqNumber)
    (hd : pk.data = some []) (hf : pk.flag.FIN ≠ 1) : Accounted isn (Java.exec (inSequence pk) c).2 := by
  have hs := accounted_stable isn
  -- the number stays, so every stage starts as the first does
  set I : TCPController → Prop := fun c => Accounted isn c ∧ c.mClientNexSeqNumber = pk.sequenceNumber with hI
  have hstable : SendStable I := by
    refine ⟨fun c h => ⟨hs.identified c h.1, h.2⟩, fun c data flag option h => ⟨hs.sent c data flag option h.1, h.2⟩,
      fun c state h => ⟨hs.state c state h.1, h.2⟩, fun c seq h => ⟨hs.remoteSeq c seq h.1, h.2⟩,
      fun c h => ⟨hs.ended c h.1, h.2⟩, fun c h => ⟨hs.terminated c h.1, h.2⟩⟩
  have hlen : pk.dataLength = 0 := by rw [pk.dataLength_eq, hd]; rfl
  have hnone : pk.data = none → pk.flag.SYN ≠ 1 ∧ pk.flag.FIN ≠ 1 := by
    intro hn
    rw [hd] at hn
    cases hn
  have hzero : pk.next = pk.sequenceNumber := by
    rw [Segment.next_payload hnone, hlen]
    simp
  have hqueue : ∀ push, Java.Keeps I (queueInSequence pk push) := by
    intro push c₁ h₁
    exact ⟨h₁.1.queueInSequence h₁.2.symm hnone (fun h0 => absurd hlen h0) push, hzero⟩
  have hsynack : Java.Keeps I (acceptSynAck pk) := by
    refine Java.Keeps.bind ?_ fun _ => hstable.sendACKToClient _
    intro c₁ h₁
    rw [updateClientSeqNumber_exec, hzero]
    exact ⟨⟨h₁.2.symm.trans h₁.1.next, h₁.1.sound⟩, rfl⟩
  have hpayload : Java.Keeps I (takePayload pk) := by
    unfold takePayload
    rw [hd]
    exact Java.Keeps.ite (hqueue _) (Java.Keeps.ite (hqueue _) (Java.Keeps.pure _))
  have hend : Java.Keeps I (takeEnd pk) := by
    unfold takeEnd
    rw [if_neg hf]
    exact Java.Keeps.bind (Java.Keeps.ite hstable.onTermination (Java.Keeps.pure _)) fun _ => Java.Keeps.pure _
  rw [inSequence_eq]
  exact (Java.Keeps.bind (Java.Keeps.ite hsynack (Java.Keeps.pure _)) (fun _ =>
    Java.Keeps.bind hpayload fun _ => hend) c ⟨h, hseq.symm⟩).1

/-- **A segment at `next`.** -/
theorem inSequence_accounted (h : Accounted isn c) (hseq : pk.sequenceNumber = c.mClientNexSeqNumber)
    (hbook : BookedNext isn c pk) : Accounted isn (Java.exec (inSequence pk) c).2 := by
  have hs := accounted_stable isn
  by_cases hsyn : pk.flag.SYN = 1
  · have hd := hbook.syn hsyn
    refine inSequence_accounted_empty h hseq hd fun hf => ?_
    have := (hbook.fin hf).1
    rw [hd] at this
    cases this
  rw [inSequence_eq, if_neg (fun hsa => hsyn hsa.1), pure_bind]
  by_cases hf : pk.flag.FIN = 1
  · -- with a FIN there is no payload, so what comes before it leaves the ledger as it is
    obtain ⟨hd, hfin, hrst⟩ := hbook.fin hf
    have hlen : pk.dataLength = 0 := by rw [pk.dataLength_eq, hd]; rfl
    have hnext : (ledger isn c.log).next isn = pk.sequenceNumber := (hseq.trans h.next).symm
    by_cases hpsh : pk.flag.PSH = 1
    · have hled : ledger isn (c.log ++ [.queued (wrapperOf pk true)]) = ledger isn c.log := by
        rw [ledger_append, Ledger.record_empty hlen]
      unfold takePayload takeEnd
      rw [if_pos hpsh, if_neg (hrst hpsh), if_pos hf, pure_bind, Java.exec_bind, queueInSequence_exec]
      refine acceptFin_accounted hd hf ?_ ?_ (h.sound.concat fun packet hp => nomatch hp)
      · rw [hled]
        exact hnext
      · rw [hled]
        exact hfin
    · unfold takePayload takeEnd
      rw [if_neg hpsh, if_neg (by rw [hf]; rintro ⟨-, h0, -⟩; cases h0), pure_bind, if_pos hf, Java.exec_bind]
      -- a RST before it is sent, and leaves number and ledger as they are
      have hr : Accounted isn (Java.exec (if pk.flag.RST = 1 then onTermination else pure ()) c).2 :=
        Java.Keeps.ite hs.onTermination (Java.Keeps.pure _) c h
      have hv : ledger isn (Java.exec (if pk.flag.RST = 1 then onTermination else pure ()) c).2.log =
          ledger isn c.log :=
        congrArg Prod.snd (Java.Keeps.ite (ledger_stable _).onTermination (Java.Keeps.pure _) c rfl)
      rcases hx : Java.exec (if pk.flag.RST = 1 then onTermination else pure ()) c with ⟨_ | _, c₁⟩
      · rw [hx] at hr
        exact hr
      · rw [hx] at hr hv
        exact acceptFin_accounted hd hf (by rw [hv]; exact hnext) (by rw [hv]; exact hfin) hr.sound
  · have hflags : pk.data = none → pk.flag.SYN ≠ 1 ∧ pk.flag.FIN ≠ 1 := fun _ => ⟨hsyn, hf⟩
    refine Java.Keeps.after ?_ fun _ => ?_
    · unfold takePayload
      simp only [Java.exec_ite]
      by_cases hpsh : pk.flag.PSH = 1
      · rw [if_pos hpsh]
        exact h.queueInSequence hseq hflags (fun h0 => hbook.payload h0 (.inl hpsh)) _
      rw [if_neg hpsh]
      by_cases hack : pk.flag.ACK = 1 ∧ pk.flag.FIN = 0 ∧ pk.flag.RST = 0
      · rw [if_pos hack]
        split
        · exact h.queueInSequence hseq hflags (fun h0 => hbook.payload h0 (.inr hack)) _
        · rename_i hnone
          exact h.acknowledge fun hstate => hbook.resent hstate (by simpa using hnone) hpsh
      · rw [if_neg hack]
        exact h
    · unfold takeEnd
      rw [if_neg hf]
      exact Java.Keeps.bind (Java.Keeps.ite hs.onTermination (Java.Keeps.pure _)) fun _ => Java.Keeps.pure _

end Invariant

/-- **A booked step keeps the ledger right.** -/
theorem Accounted.step {isn : BitVec 32} {c : TCPController} {e : Event} (h : Accounted isn c)
    (hbook : Booked isn c e) : Accounted isn (c.step e) := by
  have hs := accounted_stable isn
  cases e with
  | connected => exact hs.handshake c h
  | client pk =>
    refine packetFromClient_keeps hs.ended c (fun _ => h) fun hopen => ?_
    by_cases hsyn : pk.flag.SYN = 1 ∧ pk.flag.ACK = 0
    · rw [process_syn hsyn]
      exact h
    rw [process_exec hsyn]
    obtain ⟨hnext, hahead⟩ := hbook hopen hsyn
    have h₁ : Accounted isn { c with mClientWindowSize := pk.windowSize } := ⟨h.next, h.sound⟩
    by_cases hseq : pk.sequenceNumber = c.mClientNexSeqNumber
    · rw [if_neg (not_not.2 hseq)]
      have hb := hnext hseq
      exact inSequence_accounted h₁ hseq ⟨hb.syn, hb.fin, hb.payload, hb.resent⟩
    · rw [if_pos hseq]
      exact h₁.outOfSequence (hahead hseq)
  | poll =>
    change Accounted isn (pollQueue c)
    unfold pollQueue
    split
    · exact h
    · exact h.record rfl (fun packet he => nomatch he) h.next
  | packetFromRemote data push => exact hs.sendDataToClient data push c h
  | tick => exact hs.sendKeepAlivePacket c h
  | close => exact hs.sendFINPacket c h
  | remoteClosed => exact hs.sendFINPacket c h
  | terminate => exact hs.terminate c h

/-- A segment of a client after `isn` 1000. -/
def clientSegment (offset : ℕ) (flag : TCPFlag) (data : Option Bytes) : Event :=
  .client { sequenceNumber := 1001 + BitVec.ofNat 32 offset, flag := flag, data := data }

/-- Two requests, the second of which comes early and is sent again, and a FIN without payload. -/
def requests : List Event :=
  [.connected, clientSegment 0 TCPFlag.ACKOnly none, clientSegment 0 TCPFlag.PSH_ACK (some [71, 69, 84]),
    .packetFromRemote [72] true, clientSegment 5 TCPFlag.PSH_ACK (some [10]),
    clientSegment 3 TCPFlag.PSH_ACK (some [13]), clientSegment 4 TCPFlag.ACKOnly none,
    clientSegment 4 TCPFlag.FIN_ACK none]

end TCPController

end SmartTunnel
