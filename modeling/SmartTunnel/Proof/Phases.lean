import SmartTunnel.Base.Run
import SmartTunnel.Proof.Process

/-!
# The states of a connection

What a step does to `mState`, to the close timer and to the number of FINs accepted is said once
(`packetFromClient_phases`, `step_phase_other`): a segment establishes the connection, acknowledges
the FIN of the controller or brings the FIN of the client, and nothing else that the processor does
changes them. The timer is started where the FIN is acknowledged only, so it runs in `FIN_WAIT_2`
and `TIME_WAIT` as long as no FIN of the client comes in another state than the comment of the code
names (`timer_of_closing`).
-/

namespace SmartTunnel

open Jvm

namespace TCPController

/-- `mState`, whether the close timer was started, and how many FINs were accepted. -/
def phase (c : TCPController) : State × Bool × ℕ := (c.mState, c.mTimerThread, c.log.count .finAccepted)

section Unchanged

variable {v : State × Bool × ℕ}

theorem phase_append {c : TCPController} (effects : List Effect) (h : .finAccepted ∉ effects) :
    phase { c with log := c.log ++ effects } = c.phase := by
  simp only [phase, List.count_append, List.count_eq_zero.2 h, Nat.add_zero]

theorem makeAndSend_phase (data : Option Bytes) (flag : TCPFlag) (option : Option TCPOption) :
    Java.Keeps (fun c => c.phase = v) (makeAndSend data flag option) := by
  refine makeAndSend_keeps (fun c h => h) fun c h => ?_
  rw [← h]
  exact phase_append (c := c) _ (by simp)

theorem sendSacks_phase (sacks : List SACK) : Java.Keeps (fun c => c.phase = v) (sendSacks sacks) :=
  Java.Keeps.bind (Java.Keeps.lift _) fun _ => makeAndSend_phase _ _ _

theorem sendClosing_phase (flag : TCPFlag) : Java.Keeps (fun c => c.phase = v) (sendClosing flag) := by
  refine Java.Keeps.bind Java.Keeps.get fun c => ?_
  cases c.lastData with
  | none => exact makeAndSend_phase _ _ _
  | some data => exact makeAndSend_phase _ _ _

theorem terminate_phase : Java.Keeps (fun c => c.phase = v) terminate :=
  Java.Keeps.bind (sendClosing_phase _) fun _ => Java.Keeps.modify fun _ h => h

theorem emit_phase {e : Effect} (he : e ≠ .finAccepted) : Java.Keeps (fun c => c.phase = v) (emit e) := by
  refine Java.Keeps.modify fun c h => ?_
  rw [← h]
  exact phase_append (c := c) _ (by simpa using he.symm)

theorem onTermination_phase : Java.Keeps (fun c => c.phase = v) onTermination :=
  Java.Keeps.bind (emit_phase (by simp)) fun _ => terminate_phase

theorem putToQueue_phase (w : TCPPacketWrapper Segment) : Java.Keeps (fun c => c.phase = v) (putToQueue w) :=
  Java.Keeps.bind (Java.Keeps.modify fun _ h => h) fun _ => Java.Keeps.bind (emit_phase (by simp)) fun _ =>
    Java.Keeps.modify fun _ h => h

theorem updateClientSeqNumber_phase (pk : Segment) :
    Java.Keeps (fun c => c.phase = v) (updateClientSeqNumber pk) := Java.Keeps.modify fun _ h => h

theorem queueInSequence_phase (pk : Segment) (push : Bool) :
    Java.Keeps (fun c => c.phase = v) (queueInSequence pk push) :=
  Java.Keeps.bind (putToQueue_phase _) fun _ => updateClientSeqNumber_phase pk

theorem outOfSequence_phase (pk : Segment) : Java.Keeps (fun c => c.phase = v) (outOfSequence pk) :=
  outOfSequence_keeps (fun _ _ => onTermination_phase) sendSacks_phase (putToQueue_phase _)

end Unchanged

/-- The processor takes the segment, and it starts at `mClientNexSeqNumber`. -/
def Takes (c : TCPController) (pk : Segment) : Prop :=
  c.processorEnded = false ∧ ¬ (pk.flag.SYN = 1 ∧ pk.flag.ACK = 0) ∧ pk.sequenceNumber = c.mClientNexSeqNumber

instance Takes.decidable (c : TCPController) (pk : Segment) : Decidable (Takes c pk) :=
  inferInstanceAs (Decidable (_ ∧ _ ∧ _))

/-- What a segment in sequence may do to the phase. -/
inductive Phases (c : TCPController) (pk : Segment) : State × Bool × ℕ → Prop
  | same : Phases c pk c.phase
  | established : c.mState = .SYN_RECEIVED →
      Phases c pk (.ESTABLISHED, c.mTimerThread, c.log.count .finAccepted)
  | finAcknowledged : c.mState = .FIN_WAIT_1 → Phases c pk (.FIN_WAIT_2, true, c.log.count .finAccepted)
  /-- The FIN of the client comes first. -/
  | finFirst (state : State) : pk.flag.FIN = 1 → c.mState = .ESTABLISHED →
      state = .CLOSE_WAIT ∨ state = .LAST_ACK →
      Phases c pk (state, c.mTimerThread, c.log.count .finAccepted + 1)
  /-- The else branch. -/
  | finOther : pk.flag.FIN = 1 → c.mState ≠ .ESTABLISHED →
      Phases c pk (.TIME_WAIT, c.mTimerThread, c.log.count .finAccepted + 1)

section Step

variable {c : TCPController} {pk : Segment}

theorem sendFINPacket_phase (c : TCPController) :
    (Java.exec sendFINPacket c).2.phase =
      (if c.mState = .ESTABLISHED then .FIN_WAIT_1 else .LAST_ACK, c.mTimerThread, c.log.count .finAccepted) := by
  simp only [sendFINPacket, Java.exec_bind, Java.exec_get, setState, Java.exec_modify]
  exact sendClosing_phase _ _ rfl

theorem acknowledge_phases (c : TCPController) (pk : Segment) :
    Phases c pk (Java.exec (acknowledge pk) c).2.phase := by
  have hcases := acknowledge_cases c pk
  generalize (Java.exec (acknowledge pk) c).2 = c' at hcases ⊢
  cases hcases with
  | removed _ _ => exact .same
  | resent lost _ _ _ =>
    -- what is sent again is not a FIN of the client
    rw [phase_append _ (by simp)]
    exact .same
  | finAcknowledged hstate => exact .finAcknowledged hstate
  | terminated _ =>
    rw [onTermination_phase c rfl]
    exact .same
  | established hstate =>
    have hcount : (c.log ++ [Effect.onConnectionEstablished]).count .finAccepted = c.log.count .finAccepted :=
      congrArg (fun v => v.2.2) (phase_append (c := c) [.onConnectionEstablished] (by simp))
    rw [phase, hcount]
    exact .established hstate
  | ignored _ _ _ _ => exact .same

theorem answerFin_phase (c : TCPController) :
    ∃ state, (Java.exec answerFin c).2.phase = (state, c.mTimerThread, c.log.count .finAccepted) ∧
      (c.mState = .ESTABLISHED → state = .CLOSE_WAIT ∨ state = .LAST_ACK) ∧
      (c.mState ≠ .ESTABLISHED → state = .TIME_WAIT) := by
  rw [answerFin, Java.exec_bind, Java.exec_get]
  simp only [Java.exec_ite]
  by_cases hstate : c.mState = .ESTABLISHED
  · rw [if_pos hstate]
    simp only [setState, Java.exec_bind, Java.exec_modify]
    have hack : (Java.exec (sendACKToClient none) { c with mState := .CLOSE_WAIT }).2.phase =
        (.CLOSE_WAIT, c.mTimerThread, c.log.count .finAccepted) := makeAndSend_phase _ _ _ _ rfl
    rcases hr : Java.exec (sendACKToClient none) { c with mState := .CLOSE_WAIT } with ⟨_ | _, c'⟩
    · rw [hr] at hack
      exact ⟨.CLOSE_WAIT, hack, fun _ => .inl rfl, fun hne => absurd hstate hne⟩
    · rw [hr] at hack
      simp only [phase, Prod.mk.injEq] at hack
      refine ⟨.LAST_ACK, ?_, fun _ => .inr rfl, fun hne => absurd hstate hne⟩
      simp only
      rw [sendFINPacket_phase]
      simp only [hack.2.1, hack.2.2]
      rfl
  · rw [if_neg hstate]
    simp only [setState, Java.exec_bind, Java.exec_modify]
    exact ⟨.TIME_WAIT, makeAndSend_phase _ _ _ _ rfl, fun heq => absurd heq hstate, fun _ => rfl⟩

theorem Phases.congr {c' : TCPController} {v : State × Bool × ℕ} (h : Phases c' pk v) (hc : c'.phase = c.phase) :
    Phases c pk v := by
  simp only [phase, Prod.mk.injEq] at hc
  obtain ⟨hstate, htimer, hcount⟩ := hc
  cases h with
  | same =>
    rw [phase, hstate, htimer, hcount]
    exact .same
  | established h1 =>
    rw [htimer, hcount]
    exact .established (hstate ▸ h1)
  | finAcknowledged h1 =>
    rw [hcount]
    exact .finAcknowledged (hstate ▸ h1)
  | finFirst state hfin h1 hs =>
    rw [htimer, hcount]
    exact .finFirst state hfin (hstate ▸ h1) hs
  | finOther hfin h1 =>
    rw [htimer, hcount]
    exact .finOther hfin (hstate ▸ h1)

theorem Phases.of_same {c' : TCPController} (hc : c'.phase = c.phase) : Phases c pk c'.phase := by
  rw [hc]
  exact .same

theorem acceptFin_phases (hfin : pk.flag.FIN = 1) (c : TCPController) :
    Phases c pk (Java.exec (acceptFin pk) c).2.phase := by
  rw [acceptFin_exec]
  obtain ⟨state, hphase, hestablished, hother⟩ := answerFin_phase { c with
    mClientSeqNumber := pk.sequenceNumber
    mClientNexSeqNumber := pk.next
    log := c.log ++ [.finAccepted] }
  rw [hphase]
  simp only [List.count_append, List.count_singleton_self]
  by_cases hstate : c.mState = .ESTABLISHED
  · exact .finFirst state hfin hstate (hestablished hstate)
  · obtain rfl := hother hstate
    exact .finOther hfin hstate

theorem takePayload_phases (c : TCPController) (pk : Segment) :
    Phases c pk (Java.exec (takePayload pk) c).2.phase := by
  unfold takePayload
  simp only [Java.exec_ite]
  split_ifs
  · exact .of_same (queueInSequence_phase pk true c rfl)
  · exact .of_same (queueInSequence_phase pk false c rfl)
  · exact acknowledge_phases c pk
  · exact .same

/-- A segment with FIN acknowledges nothing. -/
theorem takePayload_fin_phase {v : State × Bool × ℕ} (hfin : pk.flag.FIN = 1) :
    Java.Keeps (fun c => c.phase = v) (takePayload pk) := by
  have hne : ¬ (pk.flag.ACK = 1 ∧ pk.flag.FIN = 0 ∧ pk.flag.RST = 0) := by
    rw [hfin]
    simp
  unfold takePayload
  rw [if_neg hne]
  exact Java.Keeps.ite (queueInSequence_phase pk true) (Java.Keeps.pure _)

theorem inSequence_phases (c : TCPController) (pk : Segment) :
    Phases c pk (Java.exec (inSequence pk) c).2.phase := by
  have hraise : ∀ s : TCPController, s.phase = c.phase → Phases c pk s.phase := fun s => .of_same
  have hsyn : Java.Keeps (fun s => s.phase = c.phase)
      (if pk.flag.SYN = 1 ∧ pk.flag.ACK = 1 then acceptSynAck pk else pure ()) :=
    Java.Keeps.ite (Java.Keeps.bind (updateClientSeqNumber_phase pk) fun _ => makeAndSend_phase _ _ _)
      (Java.Keeps.pure _)
  rw [inSequence_eq]
  refine hsyn.leads hraise (fun _ s hs => ?_) c rfl
  by_cases hfin : pk.flag.FIN = 1
  · refine (takePayload_fin_phase hfin).leads hraise (fun _ s hs => ?_) s hs
    have hrst : Java.Keeps (fun s => s.phase = c.phase) (if pk.flag.RST = 1 then onTermination else pure ()) :=
      Java.Keeps.ite onTermination_phase (Java.Keeps.pure _)
    refine hrst.leads hraise (fun _ s hs => ?_) s hs
    rw [if_pos hfin]
    exact (acceptFin_phases hfin s).congr hs
  · -- without FIN nothing follows but a RST
    refine Java.Keeps.after (I := fun s : TCPController => Phases c pk s.phase)
      ((takePayload_phases s pk).congr hs) fun _ s hs => ?_
    unfold takeEnd
    rw [if_neg hfin]
    have hrst : Java.Keeps (fun s' => s'.phase = s.phase) (do
        (if pk.flag.RST = 1 then onTermination else pure ())
        pure ()) :=
      Java.Keeps.bind (Java.Keeps.ite onTermination_phase (Java.Keeps.pure _)) fun _ => Java.Keeps.pure _
    have hsame := hrst s rfl
    simp only at hsame ⊢
    rw [hsame]
    exact hs

/-- **What a segment does to the phase.** -/
theorem packetFromClient_phases (c : TCPController) (pk : Segment) :
    (packetFromClient pk c).phase = c.phase ∨ (Takes c pk ∧ Phases c pk (packetFromClient pk c).phase) := by
  refine packetFromClient_keeps (I := fun s : TCPController => s.phase = c.phase ∨ (Takes c pk ∧ Phases c pk s.phase))
    (fun _ h => h) c (fun _ => .inl rfl) fun hopen => ?_
  by_cases hsyn : pk.flag.SYN = 1 ∧ pk.flag.ACK = 0
  · rw [process_syn hsyn]
    exact .inl rfl
  · rw [process_exec hsyn]
    by_cases hseq : pk.sequenceNumber = c.mClientNexSeqNumber
    · rw [if_neg (not_not.2 hseq)]
      exact .inr ⟨⟨hopen, hsyn, hseq⟩, (inSequence_phases _ pk).congr rfl⟩
    · rw [if_pos hseq]
      exact .inl (outOfSequence_phase pk _ rfl)

theorem handshake_phase (c : TCPController) :
    (c.step .connected).phase = (.SYN_RECEIVED, c.mTimerThread, c.log.count .finAccepted) := by
  change (Java.exec handshake c).2.phase = _
  simp only [handshake, Java.exec_bind, setState, Java.exec_modify]
  exact makeAndSend_phase _ _ _ _ rfl

theorem step_phase_other {e : Event} (hconnected : e ≠ .connected) (hclient : ∀ pk, e ≠ .client pk)
    (c : TCPController) :
    (c.step e).phase = c.phase ∨ (c.step e).phase = (.FIN_WAIT_1, c.mTimerThread, c.log.count .finAccepted) ∨
      (c.step e).phase = (.LAST_ACK, c.mTimerThread, c.log.count .finAccepted) := by
  have hfin : (Java.exec sendFINPacket c).2.phase = (.FIN_WAIT_1, c.mTimerThread, c.log.count .finAccepted) ∨
      (Java.exec sendFINPacket c).2.phase = (.LAST_ACK, c.mTimerThread, c.log.count .finAccepted) := by
    rw [sendFINPacket_phase]
    split
    · exact .inl rfl
    · exact .inr rfl
  cases e with
  | connected => exact absurd rfl hconnected
  | client pk => exact absurd rfl (hclient pk)
  | poll =>
    refine .inl ?_
    change c.pollQueue.phase = c.phase
    unfold pollQueue
    split
    · rfl
    · rename_i w q _
      exact phase_append (c := { c with mRemotePacketQueue := q }) [.polled w] (by simp)
  | packetFromRemote data push => exact .inl (makeAndSend_phase _ _ _ c rfl)
  | tick =>
    have hkeeps : Java.Keeps (fun s => s.phase = c.phase) sendKeepAlivePacket :=
      Java.Keeps.bind (Java.Keeps.modify fun _ h => h) fun _ => makeAndSend_phase _ _ _
    exact .inl (hkeeps c rfl)
  | close => exact .inr hfin
  | remoteClosed => exact .inr hfin
  | terminate => exact .inl (terminate_phase c rfl)

end Step

/-! ## The close timer -/

/-- The close timer was started if the connection waits for its end. -/
def Timed (c : TCPController) : Prop :=
  c.mState = .FIN_WAIT_2 ∨ c.mState = .TIME_WAIT → c.mTimerThread = true

instance Timed.decidable (c : TCPController) : Decidable (Timed c) := inferInstanceAs (Decidable (_ → _))

/-- The FIN handling goes into its else branch, when a step accepts a FIN and the state is not `ESTABLISHED`,
only in `FIN_WAIT_2` and `TIME_WAIT`. -/
def FinExpected (c : TCPController) (e : Event) : Prop :=
  c.log.count .finAccepted < (c.step e).log.count .finAccepted → c.mState ≠ .ESTABLISHED →
    c.mState = .FIN_WAIT_2 ∨ c.mState = .TIME_WAIT

instance FinExpected.decidable (c : TCPController) (e : Event) : Decidable (FinExpected c e) :=
  inferInstanceAs (Decidable (_ → _ → _))

/-- What the code asks of a segment: one with FIN is taken in `ESTABLISHED`, `FIN_WAIT_2` and `TIME_WAIT` only. -/
def FinInTime (c : TCPController) : Event → Prop
  | .client pk => Takes c pk → pk.flag.FIN = 1 →
    c.mState = .ESTABLISHED ∨ c.mState = .FIN_WAIT_2 ∨ c.mState = .TIME_WAIT
  | _ => True

instance FinInTime.decidable (c : TCPController) : ∀ e, Decidable (FinInTime c e)
  | .client _ => inferInstanceAs (Decidable (_ → _ → _))
  | .connected | .poll | .packetFromRemote _ _ | .tick | .close | .remoteClosed | .terminate =>
    inferInstanceAs (Decidable True)

section Timer

variable {c : TCPController} {e : Event}

theorem Timed.of_phase {c' : TCPController} {v : State × Bool × ℕ} (hphase : c'.phase = v)
    (h : v.1 = .FIN_WAIT_2 ∨ v.1 = .TIME_WAIT → v.2.1 = true) : Timed c' := by
  subst hphase
  exact h

/-- A FIN that comes in time finds the timer started. -/
theorem Phases.timed {pk : Segment} {v : State × Bool × ℕ} (hphases : Phases c pk v) (h : Timed c)
    (hfin : pk.flag.FIN = 1 → c.mState = .ESTABLISHED ∨ c.mState = .FIN_WAIT_2 ∨ c.mState = .TIME_WAIT) :
    v.1 = .FIN_WAIT_2 ∨ v.1 = .TIME_WAIT → v.2.1 = true := by
  cases hphases with
  | same => exact h
  | established _ => simp
  | finAcknowledged _ => exact fun _ => rfl
  | finFirst state _ _ hs =>
    rintro (hv | hv) <;> rcases hs with hs | hs <;> exact absurd (hs.symm.trans hv) (by decide)
  | finOther hset hne =>
    intro _
    rcases hfin hset with hstate | hstate
    · exact absurd hstate hne
    · exact h hstate

theorem Timed.step (h : Timed c) (he : FinInTime c e) : Timed (c.step e) := by
  by_cases hconnected : e = .connected
  · subst hconnected
    exact .of_phase (handshake_phase c) (by simp)
  by_cases hclient : ∃ pk, e = .client pk
  · obtain ⟨pk, rfl⟩ := hclient
    rcases packetFromClient_phases c pk with hsame | ⟨htakes, hphases⟩
    · exact .of_phase hsame h
    · exact .of_phase rfl (hphases.timed h (he htakes))
  · rcases step_phase_other hconnected (fun pk heq => hclient ⟨pk, heq⟩) c with hsame | hfin | hfin
    · exact .of_phase hsame h
    · exact .of_phase hfin (by simp)
    · exact .of_phase hfin (by simp)

theorem Phases.fins_le {pk : Segment} {v : State × Bool × ℕ} (hphases : Phases c pk v) (hfin : ¬ pk.flag.FIN = 1) :
    v.2.2 ≤ c.log.count .finAccepted := by
  cases hphases with
  | finFirst state hset _ _ => exact absurd hset hfin
  | finOther hset _ => exact absurd hset hfin
  | _ => exact le_rfl

/-- Only a segment that is taken brings a FIN. -/
theorem finExpected_of_inTime (he : FinInTime c e) : FinExpected c e := by
  intro hmore hne
  have hfewer : ∀ {v : State × Bool × ℕ}, (c.step e).phase = v → v.2.2 ≤ c.log.count .finAccepted → False := by
    rintro v rfl hle
    exact absurd hmore (not_lt.2 hle)
  by_cases hconnected : e = .connected
  · subst hconnected
    exact (hfewer (handshake_phase c) le_rfl).elim
  by_cases hclient : ∃ pk, e = .client pk
  · obtain ⟨pk, rfl⟩ := hclient
    rcases packetFromClient_phases c pk with hsame | ⟨htakes, hphases⟩
    · exact (hfewer hsame le_rfl).elim
    · by_cases hfin : pk.flag.FIN = 1
      · exact (he htakes hfin).resolve_left hne
      · exact (hfewer rfl (hphases.fins_le hfin)).elim
  · rcases step_phase_other hconnected (fun pk heq => hclient ⟨pk, heq⟩) c with hsame | hfin | hfin
    · exact (hfewer hsame le_rfl).elim
    · exact (hfewer hfin le_rfl).elim
    · exact (hfewer hfin le_rfl).elim

end Timer

/-- **A closing connection has its timer.** In every run of a controller whose segments with FIN come in
time, the close timer was started in `FIN_WAIT_2` and `TIME_WAIT`, and the else branch of the FIN handling
is entered in these states only. -/
theorem timer_of_closing {header : IPV4Header} {tcp : TCP} {random : BitVec 32} {ident : BitVec 16}
    {c : TCPController} (hnew : TCPController.new header tcp random ident = .ok c) (es : List Event)
    (hes : Run.Always step FinInTime c es) :
    Timed (Run.run step c es) ∧ Run.Always step FinExpected c es := by
  have hstart : Timed c := by
    obtain ⟨-, -, -, -, -, rfl⟩ := new_ok hnew
    simp [Timed]
  refine ⟨Run.invariant_run (fun _ _ hc he => hc.step he) hstart hes, ?_⟩
  exact Run.Always.of_invariant (I := fun _ => True) (fun _ _ _ he => ⟨finExpected_of_inTime he, trivial⟩)
    trivial hes

/-- A segment of the client without payload, after `isn` 1000. -/
def control (offset acknowledgmentNumber : BitVec 32) (fin : Byte) : Event :=
  .client {
    sequenceNumber := 1001 + offset
    acknowledgmentNumber := acknowledgmentNumber
    flag := { ACK := 1, FIN := fin } }

/-- The remote closes, the client acknowledges the FIN and sends its own. -/
def closesInOrder : List Event :=
  [.connected, control 0 5001 0, .remoteClosed, control 0 5002 0, control 0 5002 1]

theorem closesInOrder_timed : (Run.run step (accepting 1000 5000) closesInOrder).mState = .TIME_WAIT ∧
    Timed (Run.run step (accepting 1000 5000) closesInOrder) ∧
    Run.Always step FinExpected (accepting 1000 5000) closesInOrder := by
  refine ⟨by decide +kernel, ?_⟩
  exact timer_of_closing (new_clientSyn 1000 5000) closesInOrder (by decide +kernel)

/-- **When both sides close at once there is no timer**: the FIN of the client comes in `FIN_WAIT_1`. -/
theorem simultaneous_close_untimed : ¬ ∀ (isn random : BitVec 32) (es : List Event),
    Timed (Run.run step (accepting isn random) es) ∧ Run.Always step FinExpected (accepting isn random) es := by
  intro h
  have := (h 1000 5000 [.connected, control 0 5001 0, .remoteClosed, control 0 5001 1]).1
  revert this
  decide +kernel

end TCPController

end SmartTunnel
