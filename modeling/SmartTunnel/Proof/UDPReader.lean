import SmartTunnel.Proof.UDPDemux

/-!
# The reader and the frames of the stream

`ReaderThread.run` takes every `read` for one frame and keeps nothing between two reads.
`readerThread_delivers`: on a stream that is cut at the frame boundaries it delivers what
the frames alone give, if each of them gives a packet; over all cuts it does so for the
empty stream only.
-/

namespace SmartTunnel

open Jvm

namespace UDPChannel

/-- The packets that the frames give, each handed to `createUDPPacket` alone and in order. -/
def framePackets : List Frame → UDPChannel → Option (List PacketV4)
  | [], _ => some []
  | f :: frames, ch => match Java.exec (createUDPPacket f.encode) ch with
    | (.ok (some packet), ch') => (framePackets frames ch').map (packet :: ·)
    | _ => none

/-- The results of `read` on the stream of the frames. -/
structure Cut (frames : List Frame) (reads : List Bytes) : Prop where
  stream : reads.flatten = (frames.map Frame.encode).flatten
  nonempty : ∀ read ∈ reads, read ≠ []
  size : ∀ read ∈ reads, read.length ≤ MAX_SIZE

/-- The reader hands over one packet for each frame, in order, equal to that of the frame alone. -/
def Delivers (ch : UDPChannel) (frames : List Frame) (reads : List Bytes) : Prop :=
  framePackets frames ch = some (readerThread reads ch).1

/-- A frame from the remote endpoint of a table entry. -/
def ForTable (ch : UDPChannel) (f : Frame) : Prop := ∃ client, entry ch f = some client ∧ FromEndpoint client f

/-- The frames that `createUDPPacket` answers when they are alone. -/
def Answered (f : Frame) : Prop := f.Readable ∧ f.id.toNat < 128

variable {ch ch' : UDPChannel} {frames : List Frame} {reads : List Bytes} {f : Frame} {packet : PacketV4}
  {read : Bytes} {e : JavaException}

/-! ## One frame, one read -/

theorem framePackets_cons (hexec : Java.exec (createUDPPacket f.encode) ch = (.ok (some packet), ch')) :
    framePackets (f :: frames) ch = (framePackets frames ch').map (packet :: ·) := by
  conv_lhs => unfold framePackets
  rw [hexec]

theorem framePackets_cons_error (hexec : Java.exec (createUDPPacket f.encode) ch = (.error e, ch')) :
    framePackets (f :: frames) ch = none := by
  unfold framePackets
  rw [hexec]

/-- **What frames that give a packet each have given.** -/
theorem framePackets_cons_eq_some {packets : List PacketV4} (h : framePackets (f :: frames) ch = some packets) :
    ∃ packet ch' rest, Java.exec (createUDPPacket f.encode) ch = (.ok (some packet), ch') ∧
      framePackets frames ch' = some rest ∧ packets = packet :: rest := by
  unfold framePackets at h
  split at h
  · rename_i packet ch' hexec
    obtain ⟨rest, hrest, rfl⟩ := Option.map_eq_some_iff.1 h
    exact ⟨packet, ch', rest, hexec, hrest, rfl⟩
  · cases h

theorem readerThread_cons (hopen : ch.mClosed = false)
    (hexec : Java.exec (createUDPPacket read) ch = (.ok (some packet), ch')) :
    (readerThread (read :: reads) ch).1 = packet :: (readerThread reads ch').1 := by
  conv_lhs => unfold readerThread
  rw [hopen, hexec]
  rfl

/-- An exception ends the reader. -/
theorem readerThread_error (hexec : Java.exec (createUDPPacket read) ch = (.error e, ch')) :
    (readerThread (read :: reads) ch).1 = [] := by
  unfold readerThread
  rw [hexec]
  split <;> rfl

/-! ## The stream -/

theorem bumpId_forTable (i : ℕ) (h : ForTable ch f) : ForTable (bumpId i ch) f := by
  obtain ⟨client, he, hfrom⟩ := h
  unfold entry at he
  unfold ForTable entry bumpId
  simp only [List.getElem?_modify, he]
  by_cases hi : i = f.id.toNat
  · exact ⟨{ client with id := client.id + 1 }, by simp [hi], hfrom.addr, hfrom.port⟩
  · exact ⟨client, by simp [hi], hfrom⟩

theorem createUDPPacket_answered (hfor : ForTable ch f) (h : Answered f) :
    ∃ pk, Java.exec (createUDPPacket f.encode) ch = (.ok (some pk), bumpId f.id.toNat ch) := by
  obtain ⟨client, he, hfrom⟩ := hfor
  exact ⟨_, createUDPPacket_returns_iff.2 ⟨h.1, h.2, client, he, .inl hfrom.addr, rfl, rfl⟩⟩

theorem createUDPPacket_unanswered (ch : UDPChannel) (h : ¬ Answered f) :
    ∃ e, Java.exec (createUDPPacket f.encode) ch = (.error e, ch) := by
  rw [createUDPPacket_encode]
  by_cases hread : f.Readable
  · have hid : ¬ f.id.toNat < 128 := fun hid => h ⟨hread, hid⟩
    exact ⟨_, by rw [if_pos hread, if_neg hid]⟩
  · exact ⟨_, by rw [if_neg hread]⟩

/-- The frames give a packet each iff each of them can be answered. -/
theorem framePackets_isSome_iff (hfor : ∀ f ∈ frames, ForTable ch f) :
    (framePackets frames ch).isSome ↔ ∀ f ∈ frames, Answered f := by
  induction frames generalizing ch with
  | nil => exact iff_of_true rfl (by simp)
  | cons f frames ih =>
    have hrest : ∀ g ∈ frames, ForTable (bumpId f.id.toNat ch) g := fun g hg =>
      bumpId_forTable _ (hfor g (List.mem_cons_of_mem _ hg))
    rw [List.forall_mem_cons]
    by_cases ha : Answered f
    · obtain ⟨pk, hpk⟩ := createUDPPacket_answered (hfor f List.mem_cons_self) ha
      rw [framePackets_cons hpk, Option.isSome_map, ih hrest]
      simp [ha]
    · obtain ⟨e, he⟩ := createUDPPacket_unanswered ch ha
      rw [framePackets_cons_error he]
      simp [ha]

theorem framePackets_length {packets : List PacketV4} (h : framePackets frames ch = some packets) :
    packets.length = frames.length := by
  induction frames generalizing ch packets with
  | nil => obtain rfl := Option.some.inj h; rfl
  | cons f frames ih =>
    obtain ⟨packet, ch', rest, -, hrest, rfl⟩ := framePackets_cons_eq_some h
    simp [ih hrest]

/-- There is at most one packet for each read. -/
theorem readerThread_length (reads : List Bytes) (ch : UDPChannel) :
    (readerThread reads ch).1.length ≤ reads.length := by
  induction reads generalizing ch with
  | nil => exact Nat.le_refl 0
  | cons read reads ih =>
    unfold readerThread
    split
    · simp
    · split
      · rename_i ch' _
        have := ih ch'
        simp only [List.length_cons]; omega
      · rename_i ch' _
        have := ih ch'
        simp only [List.length_cons]; omega
      · simp

/-- Cut at the frame boundaries, the reader gives the packets of the frames. -/
theorem readerThread_frames (hopen : ch.mClosed = false) {packets : List PacketV4}
    (h : framePackets frames ch = some packets) :
    (readerThread (frames.map Frame.encode) ch).1 = packets := by
  induction frames generalizing ch packets with
  | nil => obtain rfl := Option.some.inj h; rfl
  | cons f frames ih =>
    obtain ⟨packet, ch', rest, hexec, hrest, rfl⟩ := framePackets_cons_eq_some h
    have hopen' : ch'.mClosed = false := by
      have hstate := createUDPPacket_state f.encode ch
      rw [hexec] at hstate
      rcases hstate with rfl | ⟨i, rfl⟩ <;> exact hopen
    rw [List.map_cons, readerThread_cons hopen hexec, ih hopen' hrest]

/-- A read of one byte raises. -/
theorem createUDPPacket_byte (b : Byte) (ch : UDPChannel) :
    ∃ e, Java.exec (createUDPPacket [b]) ch = (.error e, ch) := by
  have hread : ∃ e, readFields [b] = .error e := by
    have h0 : copyOfRange [b] 0 2 = .ok [b, 0] := rfl
    have hl : payloadLength [b, 0] = .ok b.toInt := by
      change Except.ok ((0 : Byte).toInt * 256 + b.toInt) = _
      simp
    have hp : ∃ e, copyOfRange [b] 2 (b.toInt + 2) = .error e := by
      unfold copyOfRange
      by_cases hb : b.toInt < 0
      · exact ⟨_, by rw [if_pos (by omega)]⟩
      · exact ⟨_, by rw [if_neg (by omega), if_pos (by simp)]⟩
    obtain ⟨e, hp⟩ := hp
    refine ⟨e, ?_⟩
    simp only [readFields, h0, bind, Except.bind, hl, hp]
  obtain ⟨e, he⟩ := hread
  refine ⟨e, ?_⟩
  simp only [createUDPPacket, Java.exec_bind, Java.exec_lift, he]

/-- Cut into single bytes, the reader delivers nothing. -/
theorem readerThread_bytes (stream : Bytes) (ch : UDPChannel) :
    (readerThread (stream.map fun b => [b]) ch).1 = [] := by
  cases stream with
  | nil => rfl
  | cons b stream =>
    obtain ⟨e, he⟩ := createUDPPacket_byte b ch
    exact readerThread_error he

theorem cut_bytes (frames : List Frame) :
    Cut frames ((frames.map Frame.encode).flatten.map fun b => [b]) := by
  refine ⟨?_, ?_, ?_⟩
  · induction (frames.map Frame.encode).flatten with
    | nil => rfl
    | cons b bs ih => simp only [List.map_cons, List.flatten_cons, ih]; rfl
  · intro read hread
    obtain ⟨b, -, rfl⟩ := List.mem_map.1 hread
    simp
  · intro read hread
    obtain ⟨b, -, rfl⟩ := List.mem_map.1 hread
    exact (by decide : 1 ≤ MAX_SIZE)

/-- **When the reader delivers the frames of the stream.** If every read is one frame, iff each
frame can be answered; a cut that delivers them has as many reads as frames; and no stream but
the empty one is delivered whatever the cut. -/
theorem readerThread_delivers (hopen : ch.mClosed = false)
    (hfor : ∀ f ∈ frames, ForTable ch f) :
    (Delivers ch frames (frames.map Frame.encode) ↔ ∀ f ∈ frames, Answered f) ∧
      (∀ reads, Delivers ch frames reads → (∀ f ∈ frames, Answered f) ∧ frames.length ≤ reads.length) ∧
      ((∀ reads, Cut frames reads → Delivers ch frames reads) ↔ frames = []) := by
  have hiff := framePackets_isSome_iff hfor
  have hnec : ∀ reads, Delivers ch frames reads →
      (∀ f ∈ frames, Answered f) ∧ frames.length ≤ reads.length := by
    intro reads h
    refine ⟨hiff.1 (by rw [h]; rfl), ?_⟩
    rw [← framePackets_length h]
    exact readerThread_length reads ch
  refine ⟨⟨fun h => (hnec _ h).1, ?_⟩, hnec, ?_, ?_⟩
  · intro h
    obtain ⟨packets, hp⟩ := Option.isSome_iff_exists.1 (hiff.2 h)
    rw [Delivers, readerThread_frames hopen hp, hp]
  · intro h
    have hdel := h _ (cut_bytes frames)
    rw [Delivers, readerThread_bytes] at hdel
    have := framePackets_length hdel
    exact List.eq_nil_of_length_eq_zero this.symm
  · rintro rfl reads hcut
    obtain rfl : reads = [] := by
      rcases reads with _ | ⟨read, reads⟩
      · rfl
      · have hs := hcut.stream
        simp only [List.map_nil, List.flatten_nil, List.flatten_cons, List.append_eq_nil_iff] at hs
        exact absurd hs.1 (hcut.nonempty read List.mem_cons_self)
    rfl

theorem reply_forTable : ForTable queried (reply 0 53) := by
  refine ⟨{ id := 7, localPort := 51201, localAddress := [10, 0, 0, 2], remotePort := 53,
            remoteAddress := [8, 8, 8, 8] }, by decide +kernel, rfl, by decide +kernel⟩

theorem replies_delivered :
    let frames := [reply 0 53, reply 0 53]
    Cut frames (frames.map Frame.encode) ∧ Delivers queried frames (frames.map Frame.encode) := by
  intro frames
  refine ⟨⟨rfl, by decide, by decide⟩, ?_⟩
  have hfor : ∀ f ∈ frames, ForTable queried f := by
    intro f hf
    obtain rfl : f = reply 0 53 := by simpa [frames] using hf
    exact reply_forTable
  refine (readerThread_delivers rfl hfor).1.2 ?_
  intro f hf
  obtain rfl : f = reply 0 53 := by simpa [frames] using hf
  exact ⟨by decide, by decide⟩

/-- Two frames that arrive in one read: the second is lost. -/
theorem coalesced_not_delivered :
    let frames := [reply 0 53, reply 0 53]
    let reads := [(reply 0 53).encode ++ (reply 0 53).encode]
    Reachable queried ∧ queried.mClosed = false ∧ (∀ f ∈ frames, ForTable queried f) ∧
      Cut frames reads ∧ ¬ Delivers queried frames reads := by
  intro frames reads
  refine ⟨queried_reachable, rfl, ?_, ⟨rfl, by decide, by decide⟩, fun h => ?_⟩
  · intro f hf
    obtain rfl : f = reply 0 53 := by simpa [frames] using hf
    exact reply_forTable
  · have h2 : (readerThread reads queried).1.length = 2 := framePackets_length h
    have h1 : (readerThread reads queried).1.length ≤ 1 := readerThread_length reads queried
    omega

end UDPChannel

end SmartTunnel
