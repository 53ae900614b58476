import SmartTunnel.Model.TCPController

/-!
# The packet processor, put by put

`putToQueue` takes the lock of `mRemotePacketQueue` once for the packet and once for the placeholder
behind it, so the writer thread can poll between the two. `PacketProcessor` cuts a round of
`PacketProcessor.run` at the two puts. `take_resume_resume`: without a step of another thread in
between the parts make up the round.
-/

namespace SmartTunnel

open Jvm

namespace TCPController

/-- Where a round of the packet processor is left. -/
inductive Phase
  /-- The next packet can be taken. -/
  | idle
  /-- The wrapper of `pk` is in the queue, the placeholder is not. `ahead` tells a packet ahead of
  `mClientNexSeqNumber` from one at it. -/
  | between (pk : Segment) (ahead : Bool)
  /-- Both are in the queue. -/
  | behind (pk : Segment) (ahead : Bool)
  deriving DecidableEq, Repr

/-- The packet in sequence whose placeholder is still to be put. -/
def Phase.pending : Phase → Option Segment
  | between pk false => some pk
  | _ => none

/-- The first put of `putToQueue`. -/
def putWrapper (pk : Segment) (push ahead : Bool) : Java TCPController Phase := do
  modify fun c => { c with mRemotePacketQueue := TCPPacketQueue.put (wrapperOf pk push) c.mRemotePacketQueue }
  emit (.queued (wrapperOf pk push))
  return .between pk ahead

/-- The placeholder of a client packet. -/
def placeholderOf (pk : Segment) : TCPPacketWrapper Segment :=
  createPacketWrapper none (pk.sequenceNumber + BitVec.ofNat 32 pk.dataLength) 0 0 false

/-- The second put of `putToQueue`. -/
def putPlaceholder (pk : Segment) : Java TCPController Unit :=
  modify fun c => { c with mRemotePacketQueue := TCPPacketQueue.put (placeholderOf pk) c.mRemotePacketQueue }

/-- The payload or the acknowledgment of a segment in sequence. -/
def takePayload (pk : Segment) : Java TCPController Unit :=
  if pk.flag.PSH = 1 then queueInSequence pk true
  else if pk.flag.ACK = 1 ∧ pk.flag.FIN = 0 ∧ pk.flag.RST = 0 then
    if pk.data.isSome then queueInSequence pk false else acknowledge pk
  else pure ()

/-- The end of the connection that a segment in sequence asks for. -/
def takeEnd (pk : Segment) : Java TCPController Unit := do
  (if pk.flag.RST = 1 then onTermination else pure ())
  (if pk.flag.FIN = 1 then acceptFin pk else pure ())

/-- **A segment in sequence goes through three stages.** -/
theorem inSequence_eq (pk : Segment) : inSequence pk = (do
    (if pk.flag.SYN = 1 ∧ pk.flag.ACK = 1 then acceptSynAck pk else pure ())
    takePayload pk
    takeEnd pk) := by
  unfold inSequence takePayload takeEnd
  by_cases hsyn : pk.flag.SYN = 1 ∧ pk.flag.ACK = 1 <;> by_cases hrst : pk.flag.RST = 1 <;>
    simp only [hsyn, hrst, if_true, if_false, pure_bind] <;> split_ifs <;> simp only [pure_bind]

/-- `outOfSequence` up to the first put. -/
def takeOutOfSequence (pk : Segment) : Java TCPController Phase := do
  let next := (← get).mClientNexSeqNumber
  if pk.data.isSome ∧ pk.sequenceNumber ≠ next - 1 ∧ next.toInt < pk.sequenceNumber.toInt then
    putWrapper pk (pk.flag.PSH = 1) true
  else
    outOfSequence pk
    return .idle

/-- `inSequence` up to the first put. -/
def takeInSequence (pk : Segment) : Java TCPController Phase := do
  if pk.flag.SYN = 1 ∧ pk.flag.ACK = 1 then acceptSynAck pk
  if pk.flag.PSH = 1 then putWrapper pk true false
  else if pk.flag.ACK = 1 ∧ pk.flag.FIN = 0 ∧ pk.flag.RST = 0 ∧ pk.data.isSome then putWrapper pk false false
  else
    if pk.flag.ACK = 1 ∧ pk.flag.FIN = 0 ∧ pk.flag.RST = 0 then acknowledge pk
    takeEnd pk
    return .idle

/-- A round up to the first put, or to its end if it puts nothing. -/
def takePacket (pk : Segment) : Java TCPController Phase := do
  if pk.flag.SYN = 1 ∧ pk.flag.ACK = 0 then return .idle
  else
    modify fun c => { c with mClientWindowSize := pk.windowSize }
    if pk.sequenceNumber ≠ (← get).mClientNexSeqNumber then takeOutOfSequence pk
    else takeInSequence pk

/-- The next part of a round: the second put, then what follows it. -/
def resume : Phase → Java TCPController Phase
  | .idle => return .idle
  | .between pk ahead => do
    putPlaceholder pk
    return .behind pk ahead
  | .behind _ true => do
    sendSacks (generateSacks (← get).mRemotePacketQueue)
    return .idle
  | .behind pk false => do
    updateClientSeqNumber pk
    takeEnd pk
    return .idle

end TCPController

open TCPController

/-- A controller, and where its packet processor stands. -/
structure PacketProcessor where
  controller : TCPController
  phase : Phase := .idle
  deriving DecidableEq, Repr

namespace PacketProcessor

inductive Event
  /-- The packet processor takes a client packet, which it does between two rounds only. -/
  | take (pk : Segment)
  /-- The packet processor goes on with its round. -/
  | resume
  /-- A step of another thread. -/
  | other (e : TCPController.Event)

/-- A part of a round; an exception ends the processor. -/
def advance (p : PacketProcessor) (x : Java TCPController Phase) : PacketProcessor :=
  match Java.exec x p.controller with
  | (.ok phase, c) => ⟨c, phase⟩
  | (.error _, c) => ⟨{ c with processorEnded := true }, .idle⟩

/-- An interrupt lets the processor finish its round. -/
def step (p : PacketProcessor) : Event → PacketProcessor
  | .take pk => if p.phase = .idle ∧ p.controller.processorEnded = false then p.advance (takePacket pk) else p
  | .resume => p.advance (TCPController.resume p.phase)
  | .other e => { p with controller := p.controller.step e }

/-! ## The parts make up the round -/

/-- Out of sequence only a packet ahead is put. -/
theorem outOfSequence_parts (pk : Segment) :
    takeOutOfSequence pk >>= TCPController.resume >>= TCPController.resume =
      (outOfSequence pk >>= fun _ => pure .idle) := by
  refine Java.ext fun c => ?_
  unfold takeOutOfSequence
  rw [bind_assoc, bind_assoc, Java.exec_get_bind]
  by_cases hahead : pk.data.isSome ∧ pk.sequenceNumber ≠ c.mClientNexSeqNumber - 1 ∧
      c.mClientNexSeqNumber.toInt < pk.sequenceNumber.toInt
  · obtain ⟨data, hd⟩ := Option.isSome_iff_exists.1 hahead.1
    simp only [if_pos hahead]
    unfold outOfSequence
    rw [bind_assoc, Java.exec_get_bind]
    simp only [hd, if_neg hahead.2.1, if_pos hahead.2.2]
    rfl
  · simp only [if_neg hahead, bind_assoc, pure_bind, TCPController.resume]

/-- In sequence a packet with PSH or with payload is put. -/
theorem inSequence_parts (pk : Segment) :
    takeInSequence pk >>= TCPController.resume >>= TCPController.resume =
      (inSequence pk >>= fun _ => pure .idle) := by
  have hput : ∀ push : Bool, (putWrapper pk push false >>= fun p => TCPController.resume p >>= TCPController.resume) =
      (queueInSequence pk push >>= fun _ => takeEnd pk >>= fun _ => pure .idle) := fun _ => rfl
  rw [inSequence_eq]
  unfold takeInSequence takePayload
  by_cases hpsh : pk.flag.PSH = 1
  · simp only [if_pos hpsh, bind_assoc]
    split <;> simp [hput]
  by_cases hdata : pk.flag.ACK = 1 ∧ pk.flag.FIN = 0 ∧ pk.flag.RST = 0 ∧ pk.data.isSome
  · have hack : pk.flag.ACK = 1 ∧ pk.flag.FIN = 0 ∧ pk.flag.RST = 0 := ⟨hdata.1, hdata.2.1, hdata.2.2.1⟩
    simp only [if_neg hpsh, if_pos hdata, if_pos hack, if_pos hdata.2.2.2, bind_assoc]
    split <;> simp [hput]
  · simp only [if_neg hpsh, if_neg hdata, bind_assoc]
    by_cases hack : pk.flag.ACK = 1 ∧ pk.flag.FIN = 0 ∧ pk.flag.RST = 0
    · have hnone : ¬ pk.data.isSome := fun h => hdata ⟨hack.1, hack.2.1, hack.2.2, h⟩
      simp only [if_pos hack, if_neg hnone]
      split <;> simp [TCPController.resume]
    · simp only [if_neg hack]
      split <;> simp [TCPController.resume]

theorem takePacket_parts (pk : Segment) :
    takePacket pk >>= TCPController.resume >>= TCPController.resume = (process pk >>= fun _ => pure .idle) := by
  unfold takePacket process
  by_cases hsyn : pk.flag.SYN = 1 ∧ pk.flag.ACK = 0
  · simp only [if_pos hsyn, pure_bind, TCPController.resume]
  simp only [if_neg hsyn, bind_assoc]
  refine bind_congr fun _ => bind_congr fun c => ?_
  by_cases hseq : pk.sequenceNumber ≠ c.mClientNexSeqNumber
  · simp only [if_pos hseq, ← bind_assoc]
    exact outOfSequence_parts pk
  · simp only [if_neg hseq, ← bind_assoc]
    exact inSequence_parts pk

/-- The parts in order, with nothing in between, are one part. -/
theorem advance_resume (p : PacketProcessor) (x : Java TCPController Phase) :
    (p.advance x).step .resume = p.advance (x >>= TCPController.resume) := by
  simp only [step, advance, Java.exec_bind]
  rcases Java.exec x p.controller with ⟨_ | phase, c⟩
  · simp [TCPController.resume]
  · rfl

/-- **Without a step of another thread in between** the parts do what the round does. -/
theorem take_resume_resume (pk : Segment) (c : TCPController) :
    (((⟨c, .idle⟩ : PacketProcessor).step (.take pk)).step .resume).step .resume = ⟨packetFromClient pk c, .idle⟩ := by
  unfold packetFromClient
  by_cases hended : c.processorEnded = true
  · have htake : (⟨c, .idle⟩ : PacketProcessor).step (.take pk) = ⟨c, .idle⟩ :=
      if_neg fun h => by simp [hended] at h
    rw [htake, if_pos hended]
    rfl
  · have htake : (⟨c, .idle⟩ : PacketProcessor).step (.take pk) = (⟨c, .idle⟩ : PacketProcessor).advance (takePacket pk) :=
      if_pos ⟨rfl, by simpa using hended⟩
    rw [htake, advance_resume, advance_resume, takePacket_parts, if_neg hended]
    simp only [advance, Java.exec_bind]
    rcases Java.exec (process pk) c with ⟨_ | _, c'⟩ <;> rfl

end PacketProcessor

end SmartTunnel
