import SmartTunnel.Model.Senders
import SmartTunnel.Proof.Download

/-!
# Sequence numbers under interleaving

Only the reader sends chunks, so no chunk is sent between the two steps of another one: a chunk
lies behind all earlier ones as long as the number never stood below the end of one of them. A
packet of another thread is different: a chunk may be sent between its two steps, and then it
moves the number back. `allocated_once_iff`: the numbers are allocated once in exactly the
interleavings where no packet is overtaken in this way and no keep-alive decrements the number
where a chunk ends.
-/

namespace SmartTunnel

open Jvm

namespace TCPController

/-! ## Making a packet and sending it are the atomic methods -/

/-- The method that makes and sends a packet at once; the keep-alive has decremented before. -/
def Outgoing.atomically : Outgoing → Java TCPController Unit
  | .chunk data push => sendDataToClient data push
  | .ack option => sendACKToClient option
  | .handshake => TCPController.handshake
  | .fin => sendFINPacket
  | .rst => sendCloseConnectionToClient
  | .keepAlive => makeAndSend (some [0]) TCPFlag.ACKOnly none

theorem sendClosing_eq (flag : TCPFlag) : sendClosing flag = (do
    let (data, flag, option) := Outgoing.closing (← get) flag
    sendToLocal (← makeTcpPacket data flag option)) := by
  unfold sendClosing Outgoing.closing
  congr
  funext c
  cases c.lastData with
  | none => rfl
  | some data => rfl

theorem Outgoing.atomically_eq (o : Outgoing) : o.atomically = (do sendToLocal (← o.make)) := by
  cases o with
  | fin =>
    rw [atomically, sendFINPacket, sendClosing_eq]
    rfl
  | rst =>
    rw [atomically, sendCloseConnectionToClient, sendClosing_eq]
    rfl
  | _ => rfl

namespace Senders

variable {base : BitVec 32} {s : Senders} {t : Sender} {m : Made} {e : Event}

/-- What a made packet is: numbers are read where `mRemoteSeqNumber` stands. -/
structure MadeFrom (c : TCPController) (o : Outgoing) (packet : PacketV4) (c' : TCPController) : Prop where
  remoteSeq : c'.mRemoteSeqNumber = c.mRemoteSeqNumber
  sequence : sequenceOf packet = some c.mRemoteSeqNumber
  next : nextSeqNumber packet = .ok (c.mRemoteSeqNumber + BitVec.ofNat 32 (packetCount packet))
  chunk : ∀ data push, o = .chunk data push → packetCount packet = packet.dataLength

theorem prepare_exec (o : Outgoing) (c : TCPController) :
    ∃ state, Java.exec o.prepare c = (.ok (), { c with mState := state }) := by
  cases o with
  | handshake => exact ⟨_, rfl⟩
  | fin => exact ⟨_, rfl⟩
  | chunk data push => exact ⟨c.mState, rfl⟩
  | ack option => exact ⟨c.mState, rfl⟩
  | rst => exact ⟨c.mState, rfl⟩
  | keepAlive => exact ⟨c.mState, rfl⟩

theorem packetCount_nextPacket (c : TCPController) (data : Option Bytes) (flag : TCPFlag)
    (option : Option TCPOption) : BitVec.ofNat 32 (packetCount (c.nextPacket data flag option)) = advance flag data := by
  simp only [packetCount, nextPacket, makeTcp_mFlag, advance]
  split_ifs <;> rfl

/-- A packet is made, or it is too large. -/
theorem make_exec (o : Outgoing) (c : TCPController) :
    (∃ packet c', Java.exec o.make c = (.ok packet, c') ∧ MadeFrom c o packet c') ∨
      ∃ exception c', Java.exec o.make c = (.error exception, c') ∧ c'.mRemoteSeqNumber = c.mRemoteSeqNumber := by
  obtain ⟨state, hprepare⟩ := prepare_exec o c
  set c₀ : TCPController := { c with mState := state } with hc₀
  obtain ⟨data, flag, option, harg⟩ : ∃ data flag option, o.arguments c₀ = (data, flag, option) := ⟨_, _, _, rfl⟩
  have hmake : Java.exec o.make c = Java.exec (makeTcpPacket data flag option) c₀ := by
    rw [Outgoing.make, Java.exec_bind, hprepare]
    simp only [Java.exec_bind, Java.exec_get, harg]
  rw [hmake, makeTcpPacket_exec]
  cases PacketV4.create c₀.nextHeader (.tcp (c₀.makeTcp flag option)) data with
  | error exception => exact .inr ⟨exception, _, rfl, rfl⟩
  | ok _ =>
    refine .inl ⟨_, _, rfl, rfl, sequenceOf_nextPacket data flag option, ?_, ?_⟩
    · rw [nextSeqNumber_nextPacket, packetCount_nextPacket]
    · rintro d push rfl
      -- the flags of a chunk are ACK or PSH and ACK
      obtain ⟨rfl, hf, -⟩ : some d = data ∧ (if push then TCPFlag.ACKOnly else TCPFlag.PSH_ACK) = flag ∧ none = option := by
        simpa [Outgoing.arguments] using harg
      subst hf
      cases push <;> rfl

/-- **A packet that is sent right after it was made is sent as by the atomic method.** -/
theorem make_send_controller {o : Outgoing} (hcan : s.canMake t o = true) :
    ((s.step (.make t o)).step (.send t)).controller = (Java.exec o.atomically s.controller).2 := by
  have hidle : s.made t = none := by
    simp only [canMake, decide_eq_true_eq] at hcan
    exact hcan.1
  rw [Outgoing.atomically_eq, Java.exec_bind]
  set s₁ : Senders := if o = .keepAlive then { s with decremented := false } else s with hs₁
  have hc : s₁.controller = s.controller := by
    rw [hs₁]
    split <;> rfl
  have hmade : s₁.made = s.made := by
    rw [hs₁]
    split <;> rfl
  rcases hexec : Java.exec o.make s.controller with ⟨e | packet, c⟩
  · -- a packet that could not be made is not sent
    have hmake : s.step (.make t o) = { s₁ with controller := c } := by
      simp only [step, if_pos hcan, ← hs₁, hc, hexec]
    rw [hmake]
    simp only [step, hmade, hidle]
  · have hmake : s.step (.make t o) = { s₁ with
        controller := c
        made := Function.update s₁.made t (some ⟨o, packet, s₁.position, s₁.segments.length⟩) } := by
      simp only [step, if_pos hcan, ← hs₁, hc, hexec]
    rw [hmake]
    simp only [step, Function.update_self]
    rcases Java.exec (sendToLocal packet) c with ⟨_ | _, c'⟩ <;> rfl

/-! ## The invariant -/

/-- **Sequence numbers are allocated once**: `mRemoteSeqNumber` is the number of its position, which
is not before the end of a chunk that was sent, and the chunks do not overlap. -/
structure AllocatedOnce (base : BitVec 32) (s : Senders) : Prop where
  counter : s.controller.mRemoteSeqNumber = Serial.position base s.position
  numbered : ∀ segment ∈ s.segments, sequenceOf segment.packet = some (Serial.position base segment.position)
  bounded : ∀ segment ∈ s.segments, segment.finish ≤ s.position
  disjoint : s.segments.Pairwise fun a b => a.finish ≤ b.position ∨ b.finish ≤ a.position

/-- A packet between its two steps. -/
structure MadeAt (base : BitVec 32) (s : Senders) (t : Sender) (m : Made) : Prop where
  sequence : sequenceOf m.packet = some (Serial.position base m.position)
  next : nextSeqNumber m.packet = .ok (Serial.position base (m.position + packetCount m.packet))
  seen : m.seen ≤ s.segments.length
  behind : ∀ segment ∈ s.segments.take m.seen, segment.finish ≤ m.position
  chunk : ∀ data push, m.outgoing = .chunk data push →
    t = .reader ∧ m.seen = s.segments.length ∧ packetCount m.packet = m.packet.dataLength

structure Inv (base : BitVec 32) (s : Senders) : Prop extends AllocatedOnce base s where
  made : ∀ t m, s.made t = some m → MadeAt base s t m

/-- No chunk that was sent between the two steps of another packet ends behind that packet, and
no chunk ends where the keep-alive decrements the number. -/
def Timely (s : Senders) : Event → Prop
  | .decrement => s.made .keepAlive = none → s.decremented = false →
      ∀ segment ∈ s.segments, segment.finish ≠ s.position
  | .make _ _ => True
  | .send t => ∀ m, s.made t = some m → (∀ data push, m.outgoing ≠ .chunk data push) →
      ∀ segment ∈ s.segments.drop m.seen, segment.finish ≤ m.position + packetCount m.packet

theorem Inv.decrement (h : Inv base s) (hg : Timely s .decrement) : Inv base (s.step .decrement) := by
  simp only [step]
  split_ifs with hidle
  · refine ⟨⟨?_, h.numbered, ?_, h.disjoint⟩, ?_⟩
    · change s.controller.mRemoteSeqNumber - 1 = _
      rw [h.counter, Serial.position_sub_one]
    · intro segment hmem
      have hle := h.bounded segment hmem
      have hne := hg hidle.1 hidle.2 segment hmem
      change segment.finish ≤ s.position - 1
      omega
    · intro t m hm
      obtain ⟨h1, h2, h3, h4, h5⟩ := h.made t m hm
      exact ⟨h1, h2, h3, h4, h5⟩
  · exact h

/-- Fields that the invariant does not read. -/
theorem Inv.congr {s' : Senders} (h : Inv base s)
    (hcounter : s'.controller.mRemoteSeqNumber = s.controller.mRemoteSeqNumber) (hposition : s'.position = s.position)
    (hsegments : s'.segments = s.segments)
    (hmade : ∀ t m, s'.made t = some m → s.made t = some m ∨ MadeAt base s t m) : Inv base s' := by
  refine ⟨⟨?_, ?_, ?_, ?_⟩, ?_⟩
  · rw [hcounter, hposition]
    exact h.counter
  · rw [hsegments]
    exact h.numbered
  · rw [hsegments, hposition]
    exact h.bounded
  · rw [hsegments]
    exact h.disjoint
  · intro t m hm
    obtain ⟨h1, h2, h3, h4, h5⟩ : MadeAt base s t m := (hmade t m hm).elim (h.made t m) id
    rw [← hsegments] at h3 h4 h5
    exact ⟨h1, h2, h3, h4, h5⟩

/-- A packet that was just made is not behind any chunk. -/
theorem Inv.madeAt (h : Inv base s) {o : Outgoing} {packet : PacketV4} {c' : TCPController}
    (ho : o.madeBy t = true) (hm : MadeFrom s.controller o packet c') :
    MadeAt base s t { outgoing := o, packet := packet, position := s.position, seen := s.segments.length } where
  sequence := by rw [hm.sequence, h.counter]
  next := by rw [hm.next, h.counter, Serial.position_add]
  seen := le_refl _
  behind := by
    rw [List.take_length]
    exact h.bounded
  chunk := by
    rintro data push rfl
    exact ⟨by simpa [Outgoing.madeBy] using ho, rfl, hm.chunk data push rfl⟩

theorem Inv.make (h : Inv base s) (t : Sender) (o : Outgoing) : Inv base (s.step (.make t o)) := by
  simp only [step]
  split_ifs with hcan hkeep
  all_goals try exact h
  -- the keep-alive packet also clears the mark of its decrement, which the invariant does not read
  all_goals
    have hby : o.madeBy t = true := by
      simp only [canMake, decide_eq_true_eq] at hcan
      exact hcan.2.1
    rcases make_exec o s.controller with ⟨packet, c', hexec, hmade⟩ | ⟨exception, c', hexec, hseq⟩
    · simp only [hexec]
      refine h.congr hmade.remoteSeq rfl rfl ?_
      intro t' m hm
      by_cases ht : t' = t
      · subst ht
        simp only [Function.update_self, Option.some.injEq] at hm
        subst hm
        exact .inr (h.madeAt hby hmade)
      · simp only [Function.update_of_ne ht] at hm
        exact .inl hm
    · simp only [hexec]
      exact h.congr hseq rfl rfl fun t' m hm => .inl hm

/-! ## Sending -/

/-- The state after a packet was sent. -/
theorem step_send (h : Inv base s) (hm : s.made t = some m) :
    s.step (.send t) = { s with
      controller := s.controller.handed m.packet (Serial.position base (m.position + packetCount m.packet))
      made := Function.update s.made t none
      position := m.position + packetCount m.packet
      segments := s.segmentsAfter m } := by
  simp only [step, hm, sendToLocal_exec (h.made t m hm).next, segmentsAfter]

theorem made_of_update {t' : Sender} {m' : Made} (hm' : Function.update s.made t none t' = some m') :
    t' ≠ t ∧ s.made t' = some m' := by
  by_cases ht : t' = t
  · subst ht
    rw [Function.update_self] at hm'
    cases hm'
  · rw [Function.update_of_ne ht] at hm'
    exact ⟨ht, hm'⟩

/-- A chunk is sent: it was made behind all earlier ones. -/
theorem Inv.sendChunk (h : Inv base s) (hm : s.made t = some m) {data : Bytes} {push : Bool}
    (ho : m.outgoing = .chunk data push) : Inv base (s.step (.send t)) := by
  have hat := h.made t m hm
  obtain ⟨ht, hseen, hcount⟩ := hat.chunk data push ho
  have hbehind : ∀ segment ∈ s.segments, segment.finish ≤ m.position := by
    have := hat.behind
    rwa [hseen, List.take_length] at this
  have hsegments : s.segmentsAfter m = s.segments ++ [⟨m.position, m.packet⟩] := by rw [segmentsAfter, ho]
  rw [step_send h hm, hsegments]
  refine ⟨⟨rfl, ?_, ?_, ?_⟩, ?_⟩
  · intro segment hmem
    rcases List.mem_append.1 hmem with hmem | hmem
    · exact h.numbered segment hmem
    · obtain rfl := List.mem_singleton.1 hmem
      exact hat.sequence
  · intro segment hmem
    change segment.finish ≤ m.position + packetCount m.packet
    rcases List.mem_append.1 hmem with hmem | hmem
    · have := hbehind segment hmem
      omega
    · obtain rfl := List.mem_singleton.1 hmem
      rw [hcount]
      exact le_refl _
  · -- the chunk starts where or after the others end
    refine List.pairwise_append.2 ⟨h.disjoint, List.pairwise_singleton _ _, ?_⟩
    intro a ha b hb
    obtain rfl := List.mem_singleton.1 hb
    exact .inl (hbehind a ha)
  · intro t' m' hm'
    obtain ⟨hne, hm'⟩ := made_of_update hm'
    have hat' := h.made t' m' hm'
    refine ⟨hat'.sequence, hat'.next, ?_, ?_, ?_⟩
    · rw [List.length_append]
      exact hat'.seen.trans (Nat.le_add_right _ _)
    · rw [List.take_append_of_le_length hat'.seen]
      exact hat'.behind
    · -- only the reader makes chunks
      intro data' push' ho'
      exact absurd ((hat'.chunk data' push' ho').1.trans ht.symm) hne

theorem step_send_other (h : Inv base s) (hm : s.made t = some m)
    (ho : ∀ data push, m.outgoing ≠ .chunk data push) :
    (s.step (.send t)).position = m.position + packetCount m.packet ∧ (s.step (.send t)).segments = s.segments := by
  rw [step_send h hm]
  refine ⟨rfl, ?_⟩
  change s.segmentsAfter m = s.segments
  unfold segmentsAfter
  split
  · rename_i data push hchunk
    exact absurd hchunk (ho data push)
  · rfl

/-- Another packet is sent: no chunk that ends behind it may have come between. -/
theorem Inv.sendOther (h : Inv base s) (hm : s.made t = some m) (ho : ∀ data push, m.outgoing ≠ .chunk data push)
    (hg : ∀ segment ∈ s.segments.drop m.seen, segment.finish ≤ m.position + packetCount m.packet) :
    Inv base (s.step (.send t)) := by
  have hat := h.made t m hm
  obtain ⟨hposition, hsegments⟩ := step_send_other h hm ho
  refine ⟨⟨?_, ?_, ?_, ?_⟩, ?_⟩
  · rw [hposition, step_send h hm]
    exact rfl
  · rw [hsegments]
    exact h.numbered
  · rw [hsegments, hposition]
    intro segment hmem
    -- a chunk was sent before the packet was made, or between its two steps
    rw [← List.take_append_drop m.seen s.segments] at hmem
    rcases List.mem_append.1 hmem with hmem | hmem
    · have := hat.behind segment hmem
      omega
    · exact hg segment hmem
  · rw [hsegments]
    exact h.disjoint
  · intro t' m' hm'
    rw [step_send h hm] at hm'
    obtain ⟨h1, h2, h3, h4, h5⟩ := h.made t' m' (made_of_update hm').2
    rw [← hsegments] at h3 h4 h5
    exact ⟨h1, h2, h3, h4, h5⟩

/-- **A timely step keeps the invariant.** -/
theorem Inv.step (h : Inv base s) (hg : Timely s e) : Inv base (s.step e) := by
  cases e with
  | decrement => exact h.decrement hg
  | make t o => exact h.make t o
  | send t =>
    cases hm : s.made t with
    | none =>
      simp only [Senders.step, hm]
      exact h
    | some m =>
      by_cases ho : ∃ data push, m.outgoing = .chunk data push
      · obtain ⟨data, push, ho⟩ := ho
        exact h.sendChunk hm ho
      · have ho : ∀ data push, m.outgoing ≠ .chunk data push := fun data push hchunk => ho ⟨data, push, hchunk⟩
        exact h.sendOther hm ho (hg m hm ho)

/-- A step that is not timely moves the number back below the end of a chunk. -/
theorem Inv.timely (h : Inv base s) (ha : AllocatedOnce base (s.step e)) : Timely s e := by
  cases e with
  | decrement =>
    intro hmade hdec segment hmem heq
    have hle := ha.bounded
    simp only [Senders.step, if_pos (And.intro hmade hdec)] at hle
    have := hle segment hmem
    omega
  | make t o => trivial
  | send t =>
    intro m hm ho segment hmem
    obtain ⟨hposition, hsegments⟩ := step_send_other h hm ho
    rw [← hposition]
    apply ha.bounded
    rw [hsegments]
    exact List.mem_of_mem_drop hmem

/-- **In every interleaving the numbers are allocated once in all the states exactly if all the
steps are timely.** -/
theorem allocated_once_iff (c : TCPController) (es : List Event) :
    Run.Always Senders.step (fun s e => AllocatedOnce c.mRemoteSeqNumber (s.step e)) { controller := c } es ↔
      Run.Always Senders.step Timely { controller := c } es := by
  refine Run.Always.iff_of_invariant ?_ ?_ (I := Inv c.mRemoteSeqNumber) ?_
  · intro s e h hg
    have hnext := h.step hg
    exact ⟨hnext.toAllocatedOnce, hnext⟩
  · intro s e h ha
    exact h.timely ha
  · refine ⟨⟨?_, ?_, ?_, List.Pairwise.nil⟩, ?_⟩
    · simp [Serial.position]
    · intro segment hmem
      cases hmem
    · intro segment hmem
      cases hmem
    · intro t m hm
      cases hm

/-- The processor makes an acknowledgment while a chunk is between its two steps, and the next
chunk is sent over the first. -/
theorem acknowledgment_overtaken :
    ¬ Run.Always Senders.step (fun s e => AllocatedOnce 5000 (s.step e)) { controller := accepting 1000 5000 }
      [.make .writer .handshake, .send .writer, .make .reader (.chunk [1, 2] true), .make .processor (.ack none),
        .send .reader, .send .processor, .make .reader (.chunk [3, 4] true), .send .reader] := by
  intro h
  have hlast := h.2.2.2.2.2.2.2.1.disjoint
  exact absurd hlast (by decide +kernel)

end Senders

end TCPController

end SmartTunnel
