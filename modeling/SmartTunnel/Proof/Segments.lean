import SmartTunnel.Model.ChannelV4TCP
import SmartTunnel.Proof.Identification

/-!
# The window and the segments

The window that a packet advertises is what the queue leaves of `mServerWindowSize * mServerWindowSizeScale`
bytes, except that the loop of `makeTcpPacket` counts the first entry again and again (`window_iff`).

`ChannelReader.run` reads what the remote sends into a buffer of the size that the client has announced.
Without an announcement the buffer is empty and the loop ends at once; a chunk that is larger than a packet
raises (`segments_iff`).
-/

namespace SmartTunnel

open Jvm BigEndian ByteUtil

/-! ## The advertised window -/

namespace TCPController

/-- The payload of all the packets in the queue. -/
def queuedBytes (queue : List (TCPPacketWrapper Segment)) : ℕ :=
  (queue.map fun w => (w.mPacket.map Segment.dataLength).getD 0).sum

/-- The window field of a packet has two bytes, with this value. -/
def AdvertisesWindow (packet : PacketV4) (value : ℤ) : Prop :=
  ∃ tcp window, packet.mTransmissionProtocol = .tcp tcp ∧ tcp.mWindowSize = some window ∧ window.length = 2 ∧
    (beNat window : ℤ) = value

/-- The payload of the first packet, times the number of entries, takes as many units of eight bytes as the
payload of all the packets. Up to the size of the window the units of the first are rounded up, then down; the
window is an `int`, and zero when the payload of all the packets fills it. -/
def FirstStandsForAll (queue : List (TCPPacketWrapper Segment)) : Prop :=
  let counted := queue.length * peekLength queue
  (if counted ≤ 65535 * 8 then (counted + 7) / 8 else counted / 8) % 2 ^ 32 = min ((queuedBytes queue + 7) / 8) 65535

instance (queue : List (TCPPacketWrapper Segment)) : Decidable (FirstStandsForAll queue) := by
  unfold FirstStandsForAll
  infer_instance

theorem totalRemainingPacketDataSize_eq (queue : List (TCPPacketWrapper Segment)) :
    totalRemainingPacketDataSize queue = queue.length * peekLength queue := by
  unfold totalRemainingPacketDataSize
  rw [List.map_const', List.sum_replicate, smul_eq_mul]

/-- The window in units of eight bytes: what is left is divided toward zero. -/
theorem advertisedWindow_toNat (c : TCPController) :
    let counted := c.mRemotePacketQueue.length * peekLength c.mRemotePacketQueue
    (c.advertisedWindow.toNat : ℤ) =
      (65535 - ((if counted ≤ 65535 * 8 then (counted + 7) / 8 else counted / 8 : ℕ) : ℤ)) % 2 ^ 32 := by
  intro counted
  have hwindow : c.advertisedWindow = BitVec.ofInt 32 ((65535 * 8 - (counted : ℤ)).tdiv 8) := by
    unfold advertisedWindow
    rw [totalRemainingPacketDataSize_eq]
    rfl
  have hquotient : (65535 * 8 - (counted : ℤ)).tdiv 8 =
      65535 - ((if counted ≤ 65535 * 8 then (counted + 7) / 8 else counted / 8 : ℕ) : ℤ) := by
    split
    · rw [Int.tdiv_eq_ediv_of_nonneg (by omega)]
      omega
    · rw [show 65535 * 8 - (counted : ℤ) = -((counted : ℤ) - 65535 * 8) by omega, Int.neg_tdiv,
        Int.tdiv_eq_ediv_of_nonneg (by omega)]
      omega
  rw [hwindow, hquotient, BitVec.toNat_ofInt, Int.toNat_of_nonneg (Int.emod_nonneg _ (by decide))]
  rfl

/-- **The window that a packet advertises** is what all the packets in the queue leave of it iff the first
stands for all. -/
theorem window_iff {c c' : TCPController} {data : Option Bytes} {flag : TCPFlag} {option : Option TCPOption}
    {packet : PacketV4} (h : Java.exec (makeTcpPacket data flag option) c = (.ok packet, c')) :
    AdvertisesWindow packet (max 0 ((65535 * 8 - (queuedBytes c.mRemotePacketQueue : ℤ)) / 8)) ↔
      FirstStandsForAll c.mRemotePacketQueue := by
  have hpacket : packet = c.nextPacket data flag option := by
    rw [makeTcpPacket_exec] at h
    split at h
    · cases h
    · exact (Except.ok.inj (Prod.mk.inj h).1).symm
  have hvalue := c.advertisedWindow_toNat
  have hlength := getByteFromInt_length_le c.advertisedWindow (n := 2) (k := 2) le_rfl (by decide)
  have hmin := two_le_getByteFromInt_length c.advertisedWindow
  have hfield : AdvertisesWindow packet (max 0 ((65535 * 8 - (queuedBytes c.mRemotePacketQueue : ℤ)) / 8)) ↔
      (getByteFromInt c.advertisedWindow 2).length = 2 ∧
        (c.advertisedWindow.toNat : ℤ) = max 0 ((65535 * 8 - (queuedBytes c.mRemotePacketQueue : ℤ)) / 8) := by
    rw [hpacket, ← beNat_getByteFromInt c.advertisedWindow 2]
    constructor
    · rintro ⟨tcp, window, ⟨⟩, ⟨⟩, hlen, hval⟩
      exact ⟨hlen, hval⟩
    · rintro ⟨hlen, hval⟩
      exact ⟨_, _, rfl, rfl, hlen, hval⟩
  rw [hfield]
  unfold FirstStandsForAll
  simp only at hvalue ⊢
  generalize (if c.mRemotePacketQueue.length * peekLength c.mRemotePacketQueue ≤ 65535 * 8 then _ else _ : ℕ) = units at hvalue ⊢
  generalize (getByteFromInt c.advertisedWindow 2).length = len at hlength hmin ⊢
  generalize c.advertisedWindow.toNat = window at hvalue hlength ⊢
  generalize queuedBytes c.mRemotePacketQueue = queued
  omega

/-- A connection with a segment of that payload in its queue, and the placeholder behind it. -/
def holding (payload : Bytes) : TCPController :=
  { accepting 1000 7 with
    mRemotePacketQueue := [
      wrapperOf { sequenceNumber := 1001, flag := TCPFlag.PSH_ACK, data := some payload } true,
      createPacketWrapper none (1001 + BitVec.ofNat 32 payload.length) 0 0 false] }

/-- With one byte in the queue the window is what the byte leaves. -/
theorem window_oneByte : AdvertisesWindow ((holding [1]).nextPacket none TCPFlag.ACKOnly none) 65534 :=
  (window_iff (show Java.exec (makeTcpPacket none TCPFlag.ACKOnly none) (holding [1]) =
    (.ok ((holding [1]).nextPacket none TCPFlag.ACKOnly none), (holding [1]).identified) from rfl)).2 (by decide)

/-- **With eight bytes it is not**: the placeholder counts as eight more. -/
theorem window_eightBytes : ∃ packet c', Java.exec (makeTcpPacket none TCPFlag.ACKOnly none) (holding [1, 2, 3, 4, 5, 6, 7, 8]) =
      (.ok packet, c') ∧
    ¬ AdvertisesWindow packet
      (max 0 ((65535 * 8 - (queuedBytes (holding [1, 2, 3, 4, 5, 6, 7, 8]).mRemotePacketQueue : ℤ)) / 8)) := by
  refine ⟨_, _, rfl, ?_⟩
  rintro ⟨tcp, window, htcp, hwindow, -, hvalue⟩
  obtain rfl := TransmissionProtocol.tcp.inj htcp
  obtain rfl : ([255, 253] : Bytes) = window := Option.some.inj hwindow
  exact absurd hvalue (by decide)

end TCPController

/-! ## The loop of `ChannelReader` -/

/-- The maximum segment size of a SYN, zero if there is none. -/
def TCP.announced (tcp : TCP) : ℕ := ((tcp.mTCPOption.bind TCPOption.maximumSegmentSizeByte).map beNat).getD 0

namespace TCPController

/-- The size of the buffer is what the SYN has announced. -/
theorem new_mMaxSegmentSize {header : IPV4Header} {tcp : TCP} {random : BitVec 32} {ident : BitVec 16} {c : TCPController}
    (hnew : TCPController.new header tcp random ident = .ok c)
    (hmss : ∀ mss, tcp.mTCPOption.bind TCPOption.maximumSegmentSizeByte = some mss → mss.length ≤ 4) :
    c.mMaxSegmentSize.toNat = tcp.announced := by
  unfold TCPController.new at hnew
  obtain ⟨isn, -, hnew⟩ := bind_ok_iff.1 hnew
  obtain ⟨window, -, hnew⟩ := bind_ok_iff.1 hnew
  unfold TCP.announced
  cases ho : tcp.mTCPOption with
  | none =>
    rw [ho] at hnew
    rw [← Except.ok.inj hnew]
    rfl
  | some option =>
    rw [ho] at hnew hmss
    obtain ⟨maxSegmentSize, hmax, hnew⟩ := bind_ok_iff.1 hnew
    rw [← Except.ok.inj hnew]
    change maxSegmentSize.toNat = (option.maximumSegmentSizeByte.map beNat).getD 0
    unfold TCPOption.getMaximumSegmentSize at hmax
    cases hbytes : option.maximumSegmentSizeByte with
    | none =>
      rw [hbytes] at hmax
      rw [← Except.ok.inj hmax]
      rfl
    | some mss =>
      rw [hbytes] at hmax
      have hlen := hmss mss hbytes
      have hlt := beNat_lt mss
      have hpow : 256 ^ mss.length ≤ 256 ^ 4 := Nat.pow_le_pow_right (by decide) hlen
      have hvalue : getIntValue mss = .ok maxSegmentSize := hmax
      rw [getIntValue_eq hlen] at hvalue
      rw [← Except.ok.inj hvalue, BitVec.toNat_ofNat]
      exact Nat.mod_eq_of_lt (by omega)

/-- No thread changes it. -/
theorem run_mMaxSegmentSize (c : TCPController) (events : List Event) :
    (Run.run step c events).mMaxSegmentSize = c.mMaxSegmentSize := by
  have hsteady : Steady fun c' => c'.mMaxSegmentSize = c.mMaxSegmentSize :=
    ⟨fun _ h => h, fun _ _ _ _ h => h, fun _ _ _ _ hmss _ _ h => hmss.trans h⟩
  exact hsteady.run c events rfl

/-- Right after a chunk was sent, the FIN that carries it again is sent as well. -/
theorem sendFINPacket_sent (c : TCPController) {data : Bytes} (hfits : data.length ≤ 32728) (flag : TCPFlag) :
    ∃ c', Java.exec sendFINPacket (c.sent (some data) flag none) = (.ok (), c') := by
  set c₁ : TCPController := { c.sent (some data) flag none with
    mState := if (c.sent (some data) flag none).mState = .ESTABLISHED then .FIN_WAIT_1 else .LAST_ACK } with hc₁
  obtain ⟨data', flag', hdata, -, -, -, hexec⟩ := sendClosing_exec c₁ TCPFlag.FIN_ACK
  have hlast : c₁.lastPayload = data := by
    unfold lastPayload lastData
    rw [hc₁]
    simp [sent, nextPacket]
  unfold sendFINPacket setState
  simp only [Java.exec_bind, Java.exec_get, Java.exec_modify]
  rw [hexec, makeAndSend_exec, create_fits c₁ data' (by rw [hdata, hlast]; exact hfits)]
  exact ⟨_, rfl⟩

end TCPController

namespace ChannelReader

/-- The largest chunk for a client that has announced the size, or none: it has to fit into a packet. -/
def segmentLimit (announced : ℕ) : ℕ := min (if announced = 0 then 536 else announced) (MAX_SIZE - 40)

/-- What is asked of the loop at any time, on all that the remote sends. -/
structure Segmented (limit : ℕ) (stream : Bytes) (s : Loop) : Prop where
  sizes : ∀ chunk ∈ s.chunks, 1 ≤ chunk.length ∧ chunk.length ≤ limit
  inOrder : s.chunks.flatten <+: stream
  whole : s.ended = some .endOfStream → s.chunks.flatten = stream
  ends : ∀ ending, s.ended = some ending → ending = .endOfStream ∨ ending = .readError ∨ ending = .notConnected

/-- The remote is there, and reading it does not raise. -/
structure Undisturbed (r : Round) : Prop where
  connected : r.connected = true
  arrived : r.arrived ≠ none
  available : r.available ≠ none
  availableAfter : r.availableAfter ≠ none

/-- **What is asked of `run`**, for every way in which the bytes arrive and whatever other threads do: chunks of
the right size in every round, and all of the stream if nothing disturbs the reader. -/
structure Delivers (limit : ℕ) (c : TCPController) (stream : Bytes) : Prop where
  segmented : ∀ connected rounds, Segmented limit stream (run connected c stream rounds)
  completes : ∀ rounds, (∀ r ∈ rounds, Undisturbed r) → stream.length < rounds.length →
    (run true c stream rounds).ended = some .endOfStream

/-- What a round can do when the buffer is not empty and what is read fits into a packet. -/
inductive Outcome (bufferLength : ℕ) (s : Loop) (r : Round) : Loop → Prop
  | chunk (c : TCPController) (data rest : Bytes) : data ≠ [] → data.length ≤ bufferLength → data.length ≤ 32728 →
      s.stream = data ++ rest → Outcome bufferLength s r ⟨c, rest, s.chunks ++ [data], none⟩
  | endOfStream (c : TCPController) : s.stream = [] → Outcome bufferLength s r ⟨c, [], s.chunks, some .endOfStream⟩
  | disturbed (s' : Loop) (ending : Ending) : ¬ Undisturbed r → ending = .readError ∨ ending = .notConnected →
      s'.ended = some ending →
      (s'.chunks = s.chunks ∨ ∃ data rest, data ≠ [] ∧ data.length ≤ bufferLength ∧ data.length ≤ 32728 ∧
        s.stream = data ++ rest ∧ s'.chunks = s.chunks ++ [data]) → Outcome bufferLength s r s'

/-- A `read` into a buffer returns the end of the stream, or the first bytes of it. -/
theorem read_cases (stream : Bytes) {bufferLength : ℕ} (hbuffer : 1 ≤ bufferLength) (arrived : ℕ) :
    (stream = [] ∧ read stream bufferLength arrived = none) ∨
      ∃ data rest, data ≠ [] ∧ data.length ≤ bufferLength ∧ stream = data ++ rest ∧
        read stream bufferLength arrived = some data := by
  unfold read
  rw [if_neg (by omega)]
  by_cases hstream : stream = []
  · exact .inl ⟨hstream, if_pos hstream⟩
  · rw [if_neg hstream]
    have hpos := List.length_pos_iff.2 hstream
    have hlen := List.length_take (i := max 1 (min arrived bufferLength)) (l := stream)
    refine .inr ⟨_, stream.drop (max 1 (min arrived bufferLength)), ?_, ?_, (List.take_append_drop _ _).symm, rfl⟩
    · exact List.length_pos_iff.1 (by omega)
    · omega

/-- A chunk that fits into a packet is passed on. -/
theorem packetFromRemote_outcome {s : Loop} {data : Bytes} (hfits : data.length ≤ 32728) (psh : Bool) (r : Round) :
    (∃ c, s.packetFromRemote data psh r = { s with mTCPController := c, chunks := s.chunks ++ [data] }) ∨
      (r.availableAfter = none ∧ ∃ c, s.packetFromRemote data psh r =
        { s with mTCPController := c, chunks := s.chunks ++ [data], ended := some .readError }) := by
  unfold Loop.packetFromRemote
  rw [TCPController.sendDataToClient_exec, if_pos hfits]
  simp only [Loop.afterChunk]
  cases hafter : r.availableAfter with
  | none => exact .inr ⟨rfl, _, rfl⟩
  | some available =>
    left
    simp only
    split
    · obtain ⟨c', hfin⟩ := TCPController.sendFINPacket_sent s.mTCPController hfits
        (if psh then TCPFlag.ACKOnly else TCPFlag.PSH_ACK)
      rw [hfin]
      exact ⟨c', rfl⟩
    · exact ⟨_, rfl⟩

/-- **What a round does.** -/
theorem round_outcome {bufferLength : ℕ} {s : Loop} (hbuffer : 1 ≤ bufferLength) (hopen : s.ended = none)
    (hfits : bufferLength ≤ 32728 ∨ s.stream.length ≤ 32728) (r : Round) :
    Outcome bufferLength s r (s.round bufferLength r) := by
  unfold Loop.round
  rw [if_neg (by rw [hopen]; decide)]
  by_cases hconnected : r.connected = false
  · rw [if_pos hconnected]
    refine .disturbed _ .notConnected ?_ (.inr rfl) rfl (.inl rfl)
    intro hr
    rw [hr.connected] at hconnected
    cases hconnected
  rw [if_neg hconnected]
  cases harrived : r.arrived with
  | none => exact .disturbed _ .readError (fun hr => hr.arrived harrived) (.inl rfl) rfl (.inl rfl)
  | some arrived =>
  simp only
  rcases read_cases s.stream hbuffer arrived with ⟨hstream, hread⟩ | ⟨data, rest, hne, hle, hstream, hread⟩
  · rw [hread, hstream]
    exact .endOfStream _ hstream
  · rw [hread]
    obtain ⟨b, bs, rfl⟩ := List.exists_cons_of_ne_nil hne
    have hsmall : (b :: bs).length ≤ 32728 := by
      have hlen := congrArg List.length hstream
      rw [List.length_append] at hlen
      omega
    have hrest : s.stream.drop (b :: bs).length = rest := by rw [hstream, List.drop_left]
    simp only [Loop.pass, hrest]
    -- the chunk goes to the controller unless asking for what is available raises
    have hpass : ∀ psh, Outcome bufferLength s r (Loop.packetFromRemote
        ⟨Run.run TCPController.step s.mTCPController r.others, rest, s.chunks, s.ended⟩ (b :: bs) psh r) := by
      intro psh
      rcases packetFromRemote_outcome hsmall psh r with ⟨c, hexec⟩ | ⟨hafter, c, hexec⟩
      · rw [hexec, hopen]
        exact .chunk c (b :: bs) rest hne hle hsmall hstream
      · rw [hexec]
        exact .disturbed _ .readError (fun hr => hr.availableAfter hafter) (.inl rfl) rfl
          (.inr ⟨b :: bs, rest, hne, hle, hsmall, hstream, rfl⟩)
    split
    · exact hpass true
    · cases havailable : r.available with
      | none => exact .disturbed _ .readError (fun hr => hr.available havailable) (.inl rfl) rfl (.inl rfl)
      | some available => exact hpass _

/-- **The invariant of the loop**: what was passed on and what is left make the stream. -/
structure LoopInv (bufferLength : ℕ) (stream : Bytes) (s : Loop) : Prop where
  segmented : Segmented (min bufferLength 32728) stream s
  rest : s.ended = none → s.chunks.flatten ++ s.stream = stream

theorem round_of_ended {bufferLength : ℕ} {s : Loop} (h : s.ended ≠ none) (r : Round) : s.round bufferLength r = s := by
  unfold Loop.round
  rw [if_pos (Option.isSome_iff_ne_none.2 h)]

section Loop

variable {bufferLength : ℕ} {stream : Bytes} {s : Loop}

theorem LoopInv.fits (h : LoopInv bufferLength stream s) (hfits : bufferLength ≤ 32728 ∨ stream.length ≤ 32728)
    (hopen : s.ended = none) : bufferLength ≤ 32728 ∨ s.stream.length ≤ 32728 := by
  have hlen := congrArg List.length (h.rest hopen)
  rw [List.length_append] at hlen
  omega

/-- One more chunk is within the limit, and still in order. -/
theorem LoopInv.extend (h : LoopInv bufferLength stream s) (hopen : s.ended = none) {data rest : Bytes} (hne : data ≠ [])
    (hle : data.length ≤ bufferLength) (hsmall : data.length ≤ 32728) (hstream : s.stream = data ++ rest) :
    (∀ chunk ∈ s.chunks ++ [data], 1 ≤ chunk.length ∧ chunk.length ≤ min bufferLength 32728) ∧
      (s.chunks ++ [data]).flatten ++ rest = stream := by
  refine ⟨?_, ?_⟩
  · intro chunk hchunk
    rcases List.mem_append.1 hchunk with hchunk | hchunk
    · exact h.segmented.sizes chunk hchunk
    · rw [List.mem_singleton.1 hchunk]
      exact ⟨List.length_pos_iff.2 hne, le_min hle hsmall⟩
  · rw [← h.rest hopen, hstream]
    simp

/-- **A round keeps the invariant.** -/
theorem LoopInv.round (h : LoopInv bufferLength stream s) (hbuffer : 1 ≤ bufferLength)
    (hfits : bufferLength ≤ 32728 ∨ stream.length ≤ 32728) (r : Round) : LoopInv bufferLength stream (s.round bufferLength r) := by
  by_cases hended : s.ended = none
  · have hround := round_outcome hbuffer hended (h.fits hfits hended) r
    generalize s.round bufferLength r = s' at hround
    cases hround with
    | chunk c data rest hne hle hsmall hstream =>
      obtain ⟨hsizes, hwhole⟩ := h.extend hended hne hle hsmall hstream
      exact ⟨⟨hsizes, ⟨rest, hwhole⟩, by simp, by simp⟩, fun _ => hwhole⟩
    | endOfStream c hstream =>
      have hwhole : s.chunks.flatten = stream := by
        rw [← h.rest hended, hstream, List.append_nil]
      exact ⟨⟨h.segmented.sizes, h.segmented.inOrder, fun _ => hwhole, by rintro _ ⟨⟩; exact .inl rfl⟩, by simp⟩
    | disturbed s' ending _ hending hs' hchunks =>
      have hends : ∀ ending', s'.ended = some ending' →
          ending' = .endOfStream ∨ ending' = .readError ∨ ending' = .notConnected := by
        intro ending' h'
        obtain rfl := Option.some.inj (hs'.symm.trans h')
        exact .inr hending
      have hnot : s'.ended ≠ some .endOfStream := by
        rw [hs']
        rcases hending with rfl | rfl <;> simp
      rcases hchunks with heq | ⟨data, rest, hne, hle, hsmall, hstream, heq⟩
      · refine ⟨⟨?_, ?_, fun hend => absurd hend hnot, hends⟩, by simp [hs']⟩
        · rw [heq]
          exact h.segmented.sizes
        · rw [heq]
          exact h.segmented.inOrder
      · obtain ⟨hsizes, hwhole⟩ := h.extend hended hne hle hsmall hstream
        refine ⟨⟨?_, ?_, fun hend => absurd hend hnot, hends⟩, by simp [hs']⟩
        · rw [heq]
          exact hsizes
        · rw [heq]
          exact ⟨rest, hwhole⟩
  · rw [round_of_ended hended]
    exact h

theorem LoopInv.run (h : LoopInv bufferLength stream s) (hbuffer : 1 ≤ bufferLength)
    (hfits : bufferLength ≤ 32728 ∨ stream.length ≤ 32728) (rounds : List Round) :
    LoopInv bufferLength stream (Run.run (Loop.round bufferLength) s rounds) := by
  induction rounds generalizing s with
  | nil => exact h
  | cons r rounds ih => exact ih (h.round hbuffer hfits r)

/-- An undisturbed loop comes to the end of the stream: each round takes a byte of it or finds its end. -/
theorem LoopInv.completes (h : LoopInv bufferLength stream s) (hbuffer : 1 ≤ bufferLength)
    (hfits : bufferLength ≤ 32728 ∨ stream.length ≤ 32728) {rounds : List Round} (hrounds : ∀ r ∈ rounds, Undisturbed r)
    (hs : s.ended = some .endOfStream ∨ (s.ended = none ∧ s.stream.length < rounds.length)) :
    (Run.run (Loop.round bufferLength) s rounds).ended = some .endOfStream := by
  induction rounds generalizing s with
  | nil =>
    rcases hs with hs | ⟨-, hlt⟩
    · exact hs
    · cases hlt
  | cons r rounds ih =>
    refine ih (h.round hbuffer hfits r) (fun r' hr' => hrounds r' (List.mem_cons_of_mem r hr')) ?_
    rcases hs with hs | ⟨hopen, hlt⟩
    · rw [round_of_ended (by rw [hs]; simp)]
      exact .inl hs
    · have hround := round_outcome hbuffer hopen (h.fits hfits hopen) r
      generalize s.round bufferLength r = s' at hround
      cases hround with
      | chunk c data rest hne hle hsmall hstream =>
        have hpos := List.length_pos_iff.2 hne
        rw [hstream, List.length_append, List.length_cons] at hlt
        exact .inr ⟨rfl, by simp only; omega⟩
      | endOfStream c hstream => exact .inl rfl
      | disturbed s' ending hdisturbed => exact absurd (hrounds r List.mem_cons_self) hdisturbed

end Loop

/-- An empty buffer ends the loop in its first round. -/
theorem run_empty {c : TCPController} (hbuffer : c.mMaxSegmentSize.toNat = 0) (stream : Bytes) :
    (run true c stream [{ arrived := some 0 }]).ended = some .emptyRead := by
  unfold run Loop.round read
  simp [hbuffer]

/-- What does not fit into a packet is passed on and raises. -/
theorem run_tooLarge {c : TCPController} {stream : Bytes} (hbuffer : 32728 < c.mMaxSegmentSize.toNat)
    (hstream : 32728 < stream.length) :
    ∃ chunk ∈ (run true c stream [{ arrived := some stream.length }]).chunks, 32728 < chunk.length := by
  have hread : read stream c.mMaxSegmentSize.toNat stream.length =
      some (stream.take (max 1 (min stream.length c.mMaxSegmentSize.toNat))) := by
    unfold read
    rw [if_neg (by omega), if_neg (by rintro rfl; simp at hstream)]
  have hlen := List.length_take (i := max 1 (min stream.length c.mMaxSegmentSize.toNat)) (l := stream)
  generalize stream.take (max 1 (min stream.length c.mMaxSegmentSize.toNat)) = data at hread hlen
  have hlarge : 32728 < data.length := by omega
  obtain ⟨b, bs, rfl⟩ := List.exists_cons_of_length_pos (by omega : 0 < data.length)
  refine ⟨b :: bs, ?_, hlarge⟩
  have hraise : ∀ (s : Loop) psh r, b :: bs ∈ (s.packetFromRemote (b :: bs) psh r).chunks := by
    intro s psh r
    unfold Loop.packetFromRemote
    rw [TCPController.sendDataToClient_exec, if_neg (not_le.2 hlarge)]
    simp
  simp only [run, if_true, Run.run_cons, Run.run_nil, Loop.round, Option.isSome_none, Bool.false_eq_true, if_false,
    Bool.true_eq_false, hread, Loop.pass]
  split
  · exact hraise _ _ _
  · exact hraise _ _ _

/-- **The clients and streams that the loop is right for**: the client has announced a size, and it or the
stream fits into a packet. -/
theorem segments_iff {header : IPV4Header} {tcp : TCP} {random : BitVec 32} {ident : BitVec 16} {c : TCPController}
    (hnew : TCPController.new header tcp random ident = .ok c)
    (hmss : ∀ mss, tcp.mTCPOption.bind TCPOption.maximumSegmentSizeByte = some mss → mss.length ≤ 4 ∧ beNat mss ≤ 65535)
    (events : List TCPController.Event) (stream : Bytes) :
    Delivers (segmentLimit tcp.announced) (Run.run TCPController.step c events) stream ↔
      1 ≤ tcp.announced ∧ (tcp.announced ≤ 32728 ∨ stream.length ≤ 32728) := by
  have hbuffer : (Run.run TCPController.step c events).mMaxSegmentSize.toNat = tcp.announced := by
    rw [TCPController.run_mMaxSegmentSize]
    exact TCPController.new_mMaxSegmentSize hnew fun mss h => (hmss mss h).1
  generalize Run.run TCPController.step c events = c₁ at hbuffer
  have hmax : MAX_SIZE - 40 = 32728 := rfl
  constructor
  · intro h
    by_contra hnot
    rcases Nat.eq_zero_or_pos tcp.announced with hzero | hpos
    · have hends := (h.segmented true [{ arrived := some 0 }]).ends .emptyRead
        (run_empty (hbuffer.trans hzero) stream)
      simp at hends
    · have hbig : 32728 < c₁.mMaxSegmentSize.toNat := by omega
      have hlong : 32728 < stream.length := by omega
      obtain ⟨chunk, hchunk, hlarge⟩ := run_tooLarge hbig hlong
      have hsize := ((h.segmented true _).sizes chunk hchunk).2
      unfold segmentLimit at hsize
      omega
  · rintro ⟨hpos, hfits⟩
    have hlimit : segmentLimit tcp.announced = min tcp.announced 32728 := by
      unfold segmentLimit
      rw [if_neg (by omega), hmax]
    have hstart : LoopInv tcp.announced stream { mTCPController := c₁, stream := stream } :=
      ⟨⟨by simp, List.nil_prefix, by simp, by simp⟩, fun _ => rfl⟩
    rw [hlimit]
    constructor
    · intro connected rounds
      unfold run
      cases connected with
      | true =>
        rw [hbuffer]
        exact (hstart.run hpos hfits rounds).segmented
      | false => exact ⟨by simp [Loop.closed], List.nil_prefix, by simp [Loop.closed], by simp [Loop.closed]⟩
    · intro rounds hrounds hlt
      unfold run
      rw [hbuffer]
      exact hstart.completes hpos hfits hrounds (.inr ⟨rfl, hlt⟩)

/-- A SYN that announces a maximum segment size of 1460. -/
def ethernetSyn : TCP :=
  { TCPController.clientSyn 1000 with mTCPOption := some { maximumSegmentSizeByte := some [5, 180] } }

/-- Its controller. -/
def ethernet : TCPController :=
  { TCPController.accepting 1000 7 with mInitialTCP := ethernetSyn, mMaxSegmentSize := 1460 }

/-- A client that announces 1460 gets what the remote sends. -/
theorem ethernet_delivers : Delivers (segmentLimit ethernetSyn.announced) ethernet [1, 2, 3] := by
  have hnew : TCPController.new TCPController.clientHeader ethernetSyn 7 1 = .ok ethernet := by decide +kernel
  refine (segments_iff hnew ?_ [] [1, 2, 3]).2 (by decide)
  rintro _ ⟨⟩
  decide

/-- **A client that announces nothing does not**: the first read returns no byte. -/
theorem noOptions_not_delivered :
    TCPController.new TCPController.clientHeader (TCPController.clientSyn 1000) 7 1 = .ok (TCPController.accepting 1000 7) ∧
      ¬ Delivers (segmentLimit (TCPController.clientSyn 1000).announced) (TCPController.accepting 1000 7) [1, 2, 3] := by
  refine ⟨TCPController.new_clientSyn 1000 7, ?_⟩
  intro h
  have hends := (h.segmented true [{ arrived := some 0 }]).ends .emptyRead (run_empty rfl [1, 2, 3])
  simp at hends

end ChannelReader

end SmartTunnel
