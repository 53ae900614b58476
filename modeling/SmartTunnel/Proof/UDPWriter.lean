import SmartTunnel.Base.Run
import SmartTunnel.Model.UDPWriter
import SmartTunnel.Proof.Udpgw

/-!
# The writer of a `UDPChannel` loses nothing

The permits say little about the queue: the constructor adds a packet without one, `poll` takes packets without
one, and permits of packets that were polled long ago are still there. What keeps the writer from sleeping over
a packet is that it has seen the queue empty on its way to `acquire`: what is in the queue now was added since,
and each of these packets has a call of `onNewPacket` still to release, or a permit that nobody else takes
(`Waits`).

* `forgetIds`: the frames do not depend on the identifications, so neither the reader nor the random numbers
  change them.
* `Carries`: packets with data are written, in the writer's hands or in the queue, in this order.
* `writer_delivers`: **both, over every interleaving.**
-/

namespace SmartTunnel

open Jvm UDPChannel

/-! ## The table without identifications -/

def UDPClient.forgetId (client : UDPClient) : UDPClient := { client with id := 0 }

namespace UDPChannel

def forgetIds (ch : UDPChannel) : UDPChannel :=
  { ch with mUDPClients := ch.mUDPClients.map UDPClient.forgetId }

variable {ch : UDPChannel} {random : Fin SHORT_MAX_VALUE}

theorem addClient_forgetIds (client : UDPClient) (ch : UDPChannel) :
    addClient client.forgetId ch.forgetIds = (addClient client ch).forgetIds := by
  unfold addClient forgetIds
  by_cases hlt : ch.mClientIdCounter < ch.mUDPClients.length
  · simp [hlt, List.map_set]
  · simp [hlt]

theorem bumpId_forgetIds (i : ℕ) (ch : UDPChannel) : (bumpId i ch).forgetIds = ch.forgetIds := by
  unfold bumpId forgetIds
  congr 1
  apply List.ext_getElem?
  intro j
  rw [List.getElem?_map, List.getElem?_map, List.getElem?_modify]
  by_cases hij : i = j
  · cases ch.mUDPClients[j]? <;> simp [hij, UDPClient.forgetId]
  · simp [hij]

theorem assignId_forgetIds (random : Fin SHORT_MAX_VALUE) (client : UDPClient) (ch : UDPChannel) :
    Java.Simulates forgetIds id (assignId random client) (assignId 0 client) ch := by
  have hfind : ch.forgetIds.mUDPClients.findIdx? client.equals = ch.mUDPClients.findIdx? client.equals := by
    unfold forgetIds
    rw [List.findIdx?_map]
    rfl
  unfold Java.Simulates
  rw [assignId_exec, assignId_exec]
  unfold assigned
  rw [hfind]
  cases ch.mUDPClients.findIdx? client.equals with
  | some i => rfl
  | none => exact congrArg (Prod.mk _) (addClient_forgetIds { client with id := BitVec.ofNat 16 random } ch)

/-- **Frames do not depend on the identifications.** -/
theorem generateUdpgwPacket_forgetIds (random : Fin SHORT_MAX_VALUE) (packet : PacketV4) (ch : UDPChannel) :
    Java.Simulates forgetIds id (generateUdpgwPacket random (some packet)) (generateUdpgwPacket 0 (some packet)) ch := by
  have hlift {α : Type} (x : Except JavaException α) (ch : UDPChannel) :
      Java.Simulates forgetIds id (Java.lift x) (Java.lift x) ch := by
    refine Java.Simulates.lift ?_ _ _
    cases x <;> rfl
  unfold generateUdpgwPacket
  refine (hlift _ _).bind fun localPort ch _ => (hlift _ _).bind fun remotePort ch _ => ?_
  refine (assignId_forgetIds random _ ch).bind fun assigned ch _ => ?_
  refine (hlift _ _).bind fun data ch _ => (hlift _ _).bind fun payload ch _ => ?_
  exact Java.Simulates.pure _ _ _ _

theorem generateUdpgwPacket_mClosed (random : Fin SHORT_MAX_VALUE) (packet : Option PacketV4) (ch : UDPChannel) :
    (Java.exec (generateUdpgwPacket random packet) ch).2.mClosed = ch.mClosed := by
  have hassign (client : UDPClient) : Java.Keeps (fun c : UDPChannel => c.mClosed = ch.mClosed) (assignId random client) := by
    unfold assignId
    refine Java.Keeps.bind .get fun c => ?_
    split
    · exact .pure _
    · exact Java.Keeps.bind (.modify fun c hc => hc) fun _ => .pure _
  have hkeeps : Java.Keeps (fun c : UDPChannel => c.mClosed = ch.mClosed) (generateUdpgwPacket random packet) := by
    cases packet with
    | none => exact Java.Keeps.bind (.lift _) fun payload => .pure _
    | some packet =>
      unfold generateUdpgwPacket
      refine Java.Keeps.bind (.lift _) fun localPort => Java.Keeps.bind (.lift _) fun remotePort => ?_
      refine Java.Keeps.bind (hassign _) fun assigned => ?_
      exact Java.Keeps.bind (.lift _) fun data => Java.Keeps.bind (.lift _) fun payload => .pure _
  exact hkeeps ch rfl

/-- The reader changes identifications only. -/
theorem createUDPPacket_forgetIds (data : Bytes) (ch : UDPChannel) :
    (Java.exec (createUDPPacket data) ch).2.forgetIds = ch.forgetIds := by
  have hkeeps : Java.Keeps (fun c : UDPChannel => c.forgetIds = ch.forgetIds) (createUDPPacket data) := by
    unfold createUDPPacket
    refine Java.Keeps.bind (.lift _) fun fields => Java.Keeps.bind (.lift _) fun flag => Java.Keeps.bind .get fun c => ?_
    refine Java.Keeps.bind (.lift _) fun client => Java.Keeps.ite (.pure _) ?_
    refine Java.Keeps.bind (.lift _) fun udpData => Java.Keeps.bind (.modify ?_) fun _ => ?_
    · intro c hc
      exact (bumpId_forgetIds _ c).trans hc
    · exact Java.Keeps.bind (.lift _) fun packet => .pure _
  exact hkeeps ch rfl

end UDPChannel

/-! ## Where the packets are -/

/-- The packet that `run` has polled and not written yet. -/
@[simp] def WriterAt.inHand : WriterAt → List PacketV4
  | .framing packet | .writing packet _ => [packet]
  | _ => []

namespace UDPWriter

def hasData (packet : PacketV4) : Bool := packet.data.isSome

/-- The frames of packets that were written. -/
def frames (s : UDPWriter) : List Bytes :=
  s.out.filterMap fun
    | .packet frame => some frame
    | .keepAlive _ => none

/-- The packets that are still to be written. -/
def left (s : UDPWriter) : List PacketV4 := s.writer.inHand ++ s.mPacketQueue.filter hasData

/-- The frames of packets, one after the other; the numbers drawn for new clients are not in them. -/
def framesOf (packets : List PacketV4) : Java UDPChannel (List Bytes) :=
  packets.mapM fun packet => generateUdpgwPacket 0 (some packet)

/-- The table is `ch`, or what a frame that is not written yet has made of it. -/
def Table (s : UDPWriter) (ch : UDPChannel) : Prop :=
  match s.writer with
  | .writing packet frame => Java.exec (generateUdpgwPacket 0 (some packet)) ch = (.ok frame, s.channel.forgetIds)
  | _ => ch = s.channel.forgetIds

/-- **The packets with data are written or still to be written, in their order.** -/
structure Carries (packets : List PacketV4) (s : UDPWriter) (sent : List PacketV4) (ch : UDPChannel) : Prop where
  split : packets.filter hasData = sent ++ s.left
  frames : Java.exec (framesOf sent) {} = (.ok s.frames, ch)
  table : s.Table ch

/-- A writer that waits has seen the queue empty. -/
def Waits (s : UDPWriter) : Prop := s.writer = .acquiring → s.mPacketQueue ≠ [] → 0 < s.permits + s.pending

/-- **The invariant**, of a channel that is not closed. -/
structure Inv (packets : List PacketV4) (s : UDPWriter) : Prop where
  carries : ∃ sent ch, Carries packets s sent ch
  waits : s.Waits

def Event.added : Event → Option PacketV4
  | .add packet => some packet
  | _ => none

/-! ## One step -/

variable {packets sent : List PacketV4} {s : UDPWriter} {ch : UDPChannel}

theorem Inv.create (packet : PacketV4) : Inv [packet] (create packet) :=
  ⟨⟨[], {}, rfl, rfl, rfl⟩, fun h => by cases h⟩

theorem Inv.add (h : Inv packets s) (packet : PacketV4) : Inv (packets ++ [packet]) (s.step (.add packet)) := by
  obtain ⟨⟨sent, ch, hc⟩, -⟩ := h
  refine ⟨⟨sent, ch, ?_, hc.frames, hc.table⟩, fun _ _ => ?_⟩
  · rw [List.filter_append, hc.split]
    simp [left, step]
  · simp only [step]
    omega

theorem Inv.release (h : Inv packets s) : Inv packets s.release := by
  unfold UDPWriter.release
  split
  · exact h
  · obtain ⟨⟨sent, ch, hc⟩, -⟩ := h
    refine ⟨⟨sent, ch, hc.split, hc.frames, hc.table⟩, fun _ _ => ?_⟩
    have hmax : 0 < MAX_PERMITS := by decide
    simp only
    split <;> omega

/-- Where no frame waits to be written, the table is the one of the frames. -/
theorem table_iff (hw : ∀ packet frame, s.writer ≠ .writing packet frame) : s.Table ch ↔ ch = s.channel.forgetIds := by
  unfold Table
  split
  · rename_i heq
    exact absurd heq (hw _ _)
  · rfl

/-- Steps that move no packet and write nothing. -/
theorem Carries.goesOn {s' : UDPWriter} (h : Carries packets s sent ch)
    (hw : ∀ packet frame, s.writer ≠ .writing packet frame) (hw' : ∀ packet frame, s'.writer ≠ .writing packet frame)
    (hleft : s'.left = s.left) (hout : s'.out = s.out) (hch : s'.channel = s.channel) : Carries packets s' sent ch := by
  refine ⟨by rw [hleft]; exact h.split, ?_, ?_⟩
  · have hframes : s'.frames = s.frames := by
      unfold UDPWriter.frames
      rw [hout]
    rw [hframes]
    exact h.frames
  · rw [table_iff hw', hch]
    exact (table_iff hw).1 h.table

/-- A polled packet with data is in the writer's hands, one without is done with. -/
theorem left_polled (packet : PacketV4) (rest : List PacketV4) :
    (if packet.data.isNone then WriterAt.checking else .framing packet).inHand ++ rest.filter hasData =
      (packet :: rest).filter hasData := by
  cases hdata : packet.data with
  | none => simp [hasData, hdata]
  | some data => simp [hasData, hdata]

theorem Inv.polls (h : Inv packets s) (hw : s.writer = .polling) (random : Fin SHORT_MAX_VALUE) :
    Inv packets (s.writerStep random) := by
  obtain ⟨⟨sent, ch, hc⟩, -⟩ := h
  have hnot : ∀ packet frame, s.writer ≠ .writing packet frame := by simp [hw]
  unfold UDPWriter.writerStep
  rw [hw]
  cases hq : s.mPacketQueue with
  | nil =>
    -- it has seen the queue empty
    refine ⟨⟨sent, ch, hc.goesOn hnot (by simp) (by simp [left, hw, hq]) rfl rfl⟩, fun _ hne => ?_⟩
    exact absurd rfl hne
  | cons packet rest =>
    have hnot' : ∀ p frame, (if packet.data.isNone then WriterAt.checking else .framing packet) ≠ .writing p frame := by
      intro p frame
      split <;> simp
    refine ⟨⟨sent, ch, hc.goesOn hnot hnot' ?_ rfl rfl⟩, fun h => ?_⟩
    · simpa [left, hw, hq] using left_polled packet rest
    · simp only at h
      split at h <;> cases h

theorem Inv.writerStep (h : Inv packets s) (random : Fin SHORT_MAX_VALUE)
    (hopen : (s.writerStep random).channel.mClosed = false) : Inv packets (s.writerStep random) := by
  obtain ⟨⟨sent, ch, hc⟩, hwaits⟩ := id h
  cases hw : s.writer with
  | starting =>
    simp only [UDPWriter.writerStep, hw]
    exact ⟨⟨sent, ch, hc.goesOn (by simp [hw]) (by simp) (by simp [left, hw]) rfl rfl⟩, fun h => by cases h⟩
  | checking =>
    simp only [UDPWriter.writerStep, hw] at hopen ⊢
    split
    · rw [if_pos ‹_›] at hopen
      cases hopen
    · exact ⟨⟨sent, ch, hc.goesOn (by simp [hw]) (by simp) (by simp [left, hw]) rfl rfl⟩, fun h => by cases h⟩
  | polling => exact h.polls hw random
  | acquiring =>
    simp only [UDPWriter.writerStep, hw]
    split
    · exact h
    · exact ⟨⟨sent, ch, hc.goesOn (by simp [hw]) (by simp) (by simp [left, hw]) rfl rfl⟩, fun h => by cases h⟩
  -- whatever number is drawn, the table stays the one of the frames
  | framing packet =>
    obtain rfl := (table_iff (by simp [hw])).1 hc.table
    have hsim := generateUdpgwPacket_forgetIds random packet s.channel
    simp only [UDPWriter.writerStep, hw] at hopen ⊢
    rcases hexec : Java.exec (generateUdpgwPacket random (some packet)) s.channel with ⟨e | frame, ch'⟩
    · rw [hexec] at hopen
      cases hopen
    · rw [Java.Simulates, hexec] at hsim
      exact ⟨⟨sent, _, by simpa [left, hw] using hc.split, hc.frames, hsim⟩, fun h => by cases h⟩
  -- from the writer's hands to what is sent
  | writing packet frame =>
    have hframe : Java.exec (generateUdpgwPacket 0 (some packet)) ch = (.ok frame, s.channel.forgetIds) := by
      simpa [Table, hw] using hc.table
    simp only [UDPWriter.writerStep, hw]
    refine ⟨⟨sent ++ [packet], s.channel.forgetIds, ?_, ?_, rfl⟩, fun h => by cases h⟩
    · simpa [left, hw] using hc.split
    · have hout : s.frames ++ [frame] = UDPWriter.frames { s with out := s.out ++ [.packet frame] } := by
        simp [UDPWriter.frames]
      have hall := Java.exec_mapM_concat hc.frames hframe
      rw [hout] at hall
      exact hall
  | ended =>
    simp only [UDPWriter.writerStep, hw]
    exact h

/-- What only appends keep-alive frames and changes identifications carries the packets on. -/
theorem Inv.others {s' : UDPWriter} (h : Inv packets s) (hwriter : s'.writer = s.writer)
    (hqueue : s'.mPacketQueue = s.mPacketQueue) (hframes : s'.frames = s.frames)
    (hch : s'.channel.forgetIds = s.channel.forgetIds) (hpermits : s'.permits = s.permits)
    (hpending : s'.pending = s.pending) : Inv packets s' := by
  obtain ⟨⟨sent, ch, hc⟩, hwaits⟩ := h
  refine ⟨⟨sent, ch, ?_, ?_, ?_⟩, ?_⟩
  · have hleft : s'.left = s.left := by rw [left, left, hwriter, hqueue]
    rw [hleft]
    exact hc.split
  · rw [hframes]
    exact hc.frames
  · have htable := hc.table
    rw [Table] at htable ⊢
    rw [hwriter, hch]
    exact htable
  · unfold Waits at hwaits ⊢
    rwa [hwriter, hqueue, hpermits, hpending]

theorem Inv.keepAlive (h : Inv packets s) : Inv packets s.keepAlive := by
  unfold UDPWriter.keepAlive
  split
  · split
    · exact h.others rfl rfl (by simp [frames]) rfl rfl rfl
    · exact h
  · exact h

theorem Inv.read (h : Inv packets s) (data : Bytes) (hopen : (s.read data).channel.mClosed = false) :
    Inv packets (s.read data) := by
  have hids := createUDPPacket_forgetIds data s.channel
  unfold UDPWriter.read at hopen ⊢
  split
  · rcases hexec : Java.exec (createUDPPacket data) s.channel with ⟨e | packet, ch⟩
    · rw [if_pos ‹_›, hexec] at hopen
      cases hopen
    · rw [hexec] at hids
      exact h.others rfl rfl rfl hids rfl rfl
  · exact h

theorem Inv.raise (h : Inv packets s) (hopen : s.raise.channel.mClosed = false) : Inv packets s.raise := by
  unfold UDPWriter.raise at hopen ⊢
  split
  iterate 3
    · rw [‹s.writer = _›] at hopen
      cases hopen
  · exact h

theorem Inv.notConnected (h : Inv packets s) : Inv packets (s.step .notConnected) := by
  simp only [step]
  split
  · obtain ⟨⟨sent, ch, hc⟩, -⟩ := h
    rename_i hw
    exact ⟨⟨sent, ch, hc.goesOn (by simp [hw]) (by simp) (by simp [left, hw]) rfl rfl⟩, fun h => by cases h⟩
  · exact h

/-! ## Every interleaving -/

/-- **Every step keeps the invariant**, as long as the channel is open. -/
theorem Inv.step (h : Inv packets s) (e : Event) (hopen : (s.step e).channel.mClosed = false) :
    Inv (packets ++ e.added.toList) (s.step e) := by
  cases e with
  | add packet => exact h.add packet
  | release => simpa [Event.added, UDPWriter.step] using h.release
  | writer random => simpa [Event.added, UDPWriter.step] using h.writerStep random hopen
  | raise => simpa [Event.added, UDPWriter.step] using h.raise hopen
  | notConnected => simpa [Event.added, UDPWriter.step] using h.notConnected
  | keepAlive => simpa [Event.added, UDPWriter.step] using h.keepAlive
  | read data => simpa [Event.added, UDPWriter.step] using h.read data hopen
  | close => cases hopen

theorem closed_stays (e : Event) (hclosed : s.channel.mClosed = true) : (s.step e).channel.mClosed = true := by
  cases e with
  | add packet => exact hclosed
  | release =>
    simp only [UDPWriter.step, UDPWriter.release]
    split <;> exact hclosed
  | writer random =>
    simp only [UDPWriter.step, UDPWriter.writerStep]
    split
    · exact hclosed
    · rw [if_pos hclosed]
      rfl
    · split <;> exact hclosed
    · split <;> exact hclosed
    · rename_i packet _
      have hkeeps := generateUdpgwPacket_mClosed random (some packet) s.channel
      split
      · rename_i hexec
        rw [hexec] at hkeeps
        exact hkeeps.trans hclosed
      · rfl
    · exact hclosed
    · exact hclosed
  | raise =>
    simp only [UDPWriter.step, UDPWriter.raise]
    split
    · rfl
    · rfl
    · rfl
    · exact hclosed
  | notConnected =>
    simp only [UDPWriter.step]
    split <;> exact hclosed
  | keepAlive =>
    simp only [UDPWriter.step, UDPWriter.keepAlive]
    split
    · split <;> exact hclosed
    · exact hclosed
  | read data =>
    have hids := createUDPPacket_forgetIds data s.channel
    simp only [UDPWriter.step, UDPWriter.read]
    split
    · split
      · rename_i hexec
        rw [hexec] at hids
        exact (congrArg UDPChannel.mClosed hids).trans hclosed
      · rfl
    · exact hclosed
  | close => rfl

theorem Inv.run (h : s.channel.mClosed = false → Inv packets s) (es : List Event)
    (hopen : (Run.run UDPWriter.step s es).channel.mClosed = false) :
    Inv (packets ++ es.filterMap Event.added) (Run.run UDPWriter.step s es) := by
  induction es generalizing s packets with
  | nil => simpa using h hopen
  | cons e es ih =>
    have hnext : (s.step e).channel.mClosed = false → Inv (packets ++ e.added.toList) (s.step e) := by
      intro hopen'
      -- no step opens a channel again
      have hs : s.channel.mClosed = false := by
        by_contra hclosed
        rw [closed_stays e (by simpa using hclosed)] at hopen'
        cases hopen'
      exact (h hs).step e hopen'
    have hrest := ih hnext hopen
    have hadded : (e :: es).filterMap Event.added = e.added.toList ++ es.filterMap Event.added := by
      cases hadd : e.added with
      | none => rw [List.filterMap_cons_none hadd]; rfl
      | some packet => rw [List.filterMap_cons_some hadd]; rfl
    rw [hadded, ← List.append_assoc]
    exact hrest

/-- The writer waits, no call of `onNewPacket` is going to wake it, and there is something to write. -/
def Stuck (s : UDPWriter) : Prop :=
  s.pending = 0 ∧ s.writer = .acquiring ∧ s.permits = 0 ∧ s.mPacketQueue ≠ []

/-- **The writer delivers every packet once, in order.** In every state of every interleaving in which the channel is
open: the frames written are those of the packets with data, from the first on, up to those that are still to be
written; and the writer is not stuck. -/
theorem writer_delivers (packet : PacketV4) (es : List Event) :
    let s := Run.run UDPWriter.step (create packet) es
    s.channel.mClosed = false →
      (∃ sent ch, (packet :: es.filterMap Event.added).filter hasData = sent ++ s.left ∧
        Java.exec (framesOf sent) {} = (.ok s.frames, ch)) ∧ ¬ s.Stuck := by
  intro s hopen
  have hinv : Inv (packet :: es.filterMap Event.added) s := Inv.run (fun _ => Inv.create packet) es hopen
  obtain ⟨⟨sent, ch, hc⟩, hwaits⟩ := hinv
  refine ⟨⟨sent, ch, hc.split, hc.frames⟩, ?_⟩
  rintro ⟨hpending, hw, hpermits, hne⟩
  have hpos := hwaits hw hne
  omega

/-- A second query comes in while the frame of the first is made, and the keep-alive thread writes in between. -/
def twoQueries : List Event :=
  [.writer 0, .writer 0, .writer 0, .add (dnsQuery [2]), .writer 7, .keepAlive, .writer 0, .release, .writer 0,
    .writer 0, .writer 8, .writer 0]

theorem writer_delivers_twoQueries :
    let s := Run.run UDPWriter.step (create (dnsQuery [1])) twoQueries
    s.frames.length = 2 ∧
      (∃ sent ch, [dnsQuery [1], dnsQuery [2]].filter hasData = sent ++ s.left ∧
        Java.exec (framesOf sent) {} = (.ok s.frames, ch)) ∧ ¬ s.Stuck :=
  ⟨by decide, writer_delivers (dnsQuery [1]) twoQueries (by decide)⟩

end UDPWriter

end SmartTunnel
