import SmartTunnel.Model.PacketProcessor
import SmartTunnel.Proof.Send

/-!
# What the processor does with a segment

A segment with ACK and without SYN, FIN and RST (`Plain`) is queued when it carries payload or
PSH and acknowledges otherwise (`inSequence_exec`). An exception ends the processor and changes
nothing else, so what processing keeps, the thread keeps (`packetFromClient_keeps`).
-/

namespace SmartTunnel

open Jvm

/-- A segment with ACK and without SYN, FIN and RST. -/
structure Segment.Plain (pk : Segment) : Prop where
  ack : pk.flag.ACK = 1
  syn : pk.flag.SYN = 0
  fin : pk.flag.FIN = 0
  rst : pk.flag.RST = 0

theorem Segment.Plain.not_syn {pk : Segment} (hpk : pk.Plain) : ¬ (pk.flag.SYN = 1 ∧ pk.flag.ACK = 0) := by
  rw [hpk.syn]
  rintro ⟨h0, -⟩
  cases h0

theorem Segment.Plain.not_rst {pk : Segment} (hpk : pk.Plain) : ¬ pk.flag.RST = 1 := by
  rw [hpk.rst]
  decide

theorem Segment.Plain.not_fin {pk : Segment} (hpk : pk.Plain) : ¬ pk.flag.FIN = 1 := by
  rw [hpk.fin]
  decide

theorem Segment.dataLength_eq (pk : Segment) : pk.dataLength = (pk.data.getD []).length := by
  unfold Segment.dataLength
  cases pk.data <;> rfl

/-- The number after a segment, as `updateClientSeqNumber` counts it. -/
def Segment.next (pk : Segment) : BitVec 32 :=
  pk.sequenceNumber + (match pk.data with
    | some data => BitVec.ofNat 32 data.length
    | none => if pk.flag.SYN = 1 ∨ pk.flag.FIN = 1 then 1 else 0)

theorem Segment.next_payload {pk : Segment} (h : pk.data = none → pk.flag.SYN ≠ 1 ∧ pk.flag.FIN ≠ 1) :
    pk.next = pk.sequenceNumber + BitVec.ofNat 32 pk.dataLength := by
  unfold Segment.next Segment.dataLength
  cases hd : pk.data with
  | none =>
    simp only [if_neg (not_or.2 (h hd))]
    rfl
  | some data => rfl

theorem Segment.next_fin {pk : Segment} (hd : pk.data = none) (hf : pk.flag.FIN = 1) :
    pk.next = pk.sequenceNumber + 1 := by
  simp only [Segment.next, hd, hf, or_true, if_true]

namespace TCPController

variable {pk : Segment} {I : TCPController → Prop}

theorem updateClientSeqNumber_exec (pk : Segment) (c : TCPController) :
    Java.exec (updateClientSeqNumber pk) c =
      (.ok (), { c with mClientSeqNumber := pk.sequenceNumber, mClientNexSeqNumber := pk.next }) := rfl

theorem putToQueue_exec (w : TCPPacketWrapper Segment) (c : TCPController) :
    Java.exec (putToQueue w) c = (.ok (), { c with
      mRemotePacketQueue := TCPPacketQueue.put (createPacketWrapper none w.nextSequenceNumber 0 0 false)
        (TCPPacketQueue.put w c.mRemotePacketQueue)
      log := c.log ++ [.queued w] }) := rfl

theorem queueInSequence_exec (pk : Segment) (push : Bool) (c : TCPController) :
    Java.exec (queueInSequence pk push) c = (.ok (), { c with
      mRemotePacketQueue := TCPPacketQueue.put
        (createPacketWrapper none (wrapperOf pk push).nextSequenceNumber 0 0 false)
        (TCPPacketQueue.put (wrapperOf pk push) c.mRemotePacketQueue)
      log := c.log ++ [.queued (wrapperOf pk push)]
      mClientSeqNumber := pk.sequenceNumber
      mClientNexSeqNumber := pk.next }) := rfl

/-- **A segment out of sequence** is answered with SACK blocks, perhaps after it was queued, or ends the
connection with its RST. -/
theorem outOfSequence_keeps (hrst : pk.data = none → pk.flag.RST = 1 → Java.Keeps I onTermination)
    (hsacks : ∀ sacks, Java.Keeps I (sendSacks sacks))
    (hput : Java.Keeps I (putToQueue (wrapperOf pk (pk.flag.PSH = 1)))) : Java.Keeps I (outOfSequence pk) := by
  refine Java.Keeps.bind Java.Keeps.get fun c => ?_
  cases hd : pk.data with
  | none =>
    simp only
    split
    · rename_i hset
      exact hrst hd hset
    · exact Java.Keeps.pure _
  | some data =>
    refine Java.Keeps.ite (hsacks _) (Java.Keeps.ite ?_ (Java.Keeps.pure _))
    exact Java.Keeps.bind hput fun _ => Java.Keeps.bind Java.Keeps.get fun _ => hsacks _

/-- A plain segment in sequence. -/
theorem inSequence_exec (hpk : pk.Plain) (c : TCPController) :
    Java.exec (inSequence pk) c =
      if pk.flag.PSH = 1 ∨ pk.data.isSome then Java.exec (queueInSequence pk (pk.flag.PSH = 1)) c
      else Java.exec (acknowledge pk) c := by
  have h01 : ¬ (0 : Byte) = 1 := by decide
  -- nothing follows: neither RST nor FIN is set
  have hend : ∀ x : Java TCPController Unit, Java.exec (x >>= fun _ => pure ()) c = Java.exec x c := by
    intro x
    rw [Java.exec_bind]
    rcases Java.exec x c with ⟨_ | _, _⟩ <;> rfl
  by_cases hpsh : pk.flag.PSH = 1
  · simp only [inSequence, hpk.syn, hpk.rst, hpk.fin, h01, hpsh, false_and, if_false, if_true, true_or,
      decide_true, hend]
  · cases hd : pk.data with
    | none =>
      simp only [inSequence, hpk.syn, hpk.rst, hpk.fin, hpk.ack, h01, hpsh, hd, false_and, if_false, if_true,
        and_self, Option.isSome_none, Bool.false_eq_true, or_self, hend]
    | some d =>
      simp only [inSequence, hpk.syn, hpk.rst, hpk.fin, hpk.ack, h01, hpsh, hd, false_and, if_false, if_true,
        and_self, Option.isSome_some, or_true, decide_false, hend]

theorem process_syn (hsyn : pk.flag.SYN = 1 ∧ pk.flag.ACK = 0) (c : TCPController) :
    Java.exec (process pk) c = (.ok (), c) := by
  simp only [process, if_pos hsyn, Java.exec_pure]

/-- Any other segment is processed by its sequence number. -/
theorem process_exec (hsyn : ¬ (pk.flag.SYN = 1 ∧ pk.flag.ACK = 0)) (c : TCPController) :
    Java.exec (process pk) c = if pk.sequenceNumber ≠ c.mClientNexSeqNumber
      then Java.exec (outOfSequence pk) { c with mClientWindowSize := pk.windowSize }
      else Java.exec (inSequence pk) { c with mClientWindowSize := pk.windowSize } := by
  simp only [process, if_neg hsyn, Java.exec_bind, Java.exec_modify, Java.exec_get, Java.exec_ite]

/-- What an acknowledgment leads to. -/
inductive Acknowledged (c : TCPController) (pk : Segment) : TCPController → Prop
  /-- What is acknowledged is dropped. -/
  | removed : c.mState = .ESTABLISHED → pk.option = none →
      Acknowledged c pk (Java.exec (removeAcknowledgedPackets pk.acknowledgmentNumber) c).2
  /-- What is missing is sent again; an exception is as good as nothing missing. -/
  | resent (lost : List PacketV4) : c.mState = .ESTABLISHED → pk.option ≠ none →
      (lost = [] ∨ ∃ option sacks, pk.option = some option ∧
        option.getSelectiveAcknowledgmentIntValues = .ok (some sacks) ∧
        c.lossPackets sacks pk.acknowledgmentNumber = .ok lost) →
      Acknowledged c pk { c with log := c.log ++ lost.map .onPacketReadyForClient }
  | finAcknowledged : c.mState = .FIN_WAIT_1 →
      Acknowledged c pk { c with mState := .FIN_WAIT_2, mTimerThread := true }
  | terminated : c.mState = .LAST_ACK → Acknowledged c pk (Java.exec onTermination c).2
  | established : c.mState = .SYN_RECEIVED →
      Acknowledged c pk { c with log := c.log ++ [.onConnectionEstablished], mState := .ESTABLISHED }
  | ignored : c.mState ≠ .ESTABLISHED → c.mState ≠ .SYN_RECEIVED → c.mState ≠ .FIN_WAIT_1 →
      c.mState ≠ .LAST_ACK → Acknowledged c pk c

/-- **What `acknowledge` does.** -/
theorem acknowledge_cases (c : TCPController) (pk : Segment) :
    Acknowledged c pk (Java.exec (acknowledge pk) c).2 := by
  simp only [acknowledge, Java.exec_bind, Java.exec_get]
  cases hstate : c.mState with
  | ESTABLISHED =>
    cases hoption : pk.option with
    | none => exact .removed hstate hoption
    | some option =>
      have hnothing : Acknowledged c pk c := by
        have hnone : Acknowledged c pk { c with log := c.log ++ ([] : List PacketV4).map .onPacketReadyForClient } :=
          .resent [] hstate (by simp [hoption]) (.inl rfl)
        simpa using hnone
      simp only [Java.exec_bind, Java.exec_lift]
      rcases hsacks : option.getSelectiveAcknowledgmentIntValues with e | sacks
      · exact hnothing
      · cases sacks with
        | none => exact hnothing
        | some sacks =>
          simp only [resendPacketsToClient, Java.exec_bind, Java.exec_get, Java.exec_lift]
          cases hlost : c.lossPackets sacks pk.acknowledgmentNumber with
          | error e => exact hnothing
          | ok lost =>
            exact .resent lost hstate (by simp [hoption]) (.inr ⟨option, sacks, hoption, hsacks, hlost⟩)
  | FIN_WAIT_1 => exact .finAcknowledged hstate
  | LAST_ACK => exact .terminated hstate
  | SYN_RECEIVED => exact .established hstate
  | _ => exact .ignored (by simp [hstate]) (by simp [hstate]) (by simp [hstate]) (by simp [hstate])

/-- The answer to the FIN of a client. -/
def answerFin : Java TCPController Unit := do
  if (← get).mState = .ESTABLISHED then
    setState .CLOSE_WAIT
    sendACKToClient none
    setState .LAST_ACK
    sendFINPacket
  else
    setState .TIME_WAIT
    sendACKToClient none

/-- A FIN is counted and then answered. -/
theorem acceptFin_exec (pk : Segment) (c : TCPController) :
    Java.exec (acceptFin pk) c = Java.exec answerFin { c with
      mClientSeqNumber := pk.sequenceNumber
      mClientNexSeqNumber := pk.next
      log := c.log ++ [.finAccepted] } := by
  simp only [acceptFin, answerFin, Java.exec_bind, updateClientSeqNumber_exec, emit, Java.exec_modify]

/-- **What processing gives, the thread gives**, unless it depends on the end of the processor. -/
theorem packetFromClient_keeps (hended : ∀ c, I c → I { c with processorEnded := true }) (c : TCPController)
    (hidle : c.processorEnded = true → I c)
    (hproc : c.processorEnded = false → I (Java.exec (process pk) c).2) : I (packetFromClient pk c) := by
  unfold packetFromClient
  by_cases hopen : c.processorEnded = true
  · rw [if_pos hopen]
    exact hidle hopen
  rw [if_neg hopen]
  have h := hproc (by simpa using hopen)
  rcases hr : Java.exec (process pk) c with ⟨_ | _, c'⟩
  · rw [hr] at h
    exact hended c' h
  · rw [hr] at h
    exact h

end TCPController

end SmartTunnel
