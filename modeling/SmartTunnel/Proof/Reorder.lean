import SmartTunnel.Proof.Upload

/-!
# Segments that arrive out of order

`putToQueue` puts a wrapper and then a placeholder at the number after it. The placeholder takes
the place of whatever has that number, so a segment that arrived before the one in front of it is
discarded (`putToQueue_keeps_iff`). What is left has no cycle: the packet last put into the queue is
followed by a placeholder (`Reachable.ranked`). That is why the empty blocks of `generateSacks`
never are the blocks of what is queued (`generateSacks_eq_iff`).
-/

namespace SmartTunnel

open Jvm Keyed

namespace TCPController

/-- The contents of `mRemotePacketQueue` that `putToQueue` and `poll` lead to. -/
inductive Reachable : List (TCPPacketWrapper Segment) → Prop
  | empty : Reachable []
  | putToQueue {c : TCPController} (pk : Segment) (push : Bool) : Reachable c.mRemotePacketQueue →
      Reachable (Java.exec (TCPController.putToQueue (wrapperOf pk push)) c).2.mRemotePacketQueue
  | poll {c : TCPController} : Reachable c.mRemotePacketQueue → Reachable c.pollQueue.mRemotePacketQueue

/-! ## Every run of a controller -/

theorem reachable_stable : SendStable fun c => Reachable c.mRemotePacketQueue :=
  ⟨fun _ h => h, fun _ _ _ _ h => h, fun _ _ h => h, fun _ _ h => h, fun _ h => h, fun _ h => h⟩

theorem putToQueue_reachable (pk : Segment) (push : Bool) :
    Java.Keeps (fun c => Reachable c.mRemotePacketQueue) (putToQueue (wrapperOf pk push)) :=
  fun _ hc => hc.putToQueue pk push

theorem updateClientSeqNumber_reachable (pk : Segment) :
    Java.Keeps (fun c => Reachable c.mRemotePacketQueue) (updateClientSeqNumber pk) :=
  Java.Keeps.modify fun _ hc => hc

theorem queueInSequence_reachable (pk : Segment) (push : Bool) :
    Java.Keeps (fun c => Reachable c.mRemotePacketQueue) (queueInSequence pk push) :=
  Java.Keeps.bind (putToQueue_reachable pk push) fun _ => updateClientSeqNumber_reachable pk

theorem acknowledge_reachable (pk : Segment) :
    Java.Keeps (fun c => Reachable c.mRemotePacketQueue) (acknowledge pk) := by
  intro c hc
  have hview := acknowledge_uploadView pk _ c rfl
  have hq : (Java.exec (acknowledge pk) c).2.mRemotePacketQueue = c.mRemotePacketQueue :=
    congrArg Prod.fst hview
  rw [hq]
  exact hc

theorem acceptFin_reachable (pk : Segment) :
    Java.Keeps (fun c => Reachable c.mRemotePacketQueue) (acceptFin pk) := by
  have hs := reachable_stable
  refine Java.Keeps.bind (updateClientSeqNumber_reachable pk) fun _ =>
    Java.Keeps.bind (Java.Keeps.modify fun _ hc => hc) fun _ => Java.Keeps.bind Java.Keeps.get fun _ => ?_
  apply Java.Keeps.ite
  · exact Java.Keeps.bind (hs.setState _) fun _ => Java.Keeps.bind (hs.sendACKToClient _) fun _ =>
      Java.Keeps.bind (hs.setState _) fun _ => hs.sendFINPacket
  · exact Java.Keeps.bind (hs.setState _) fun _ => hs.sendACKToClient _

theorem inSequence_reachable (pk : Segment) :
    Java.Keeps (fun c => Reachable c.mRemotePacketQueue) (inSequence pk) := by
  have hs := reachable_stable
  rw [inSequence_eq]
  refine Java.Keeps.bind (Java.Keeps.ite ?_ (Java.Keeps.pure _)) fun _ => Java.Keeps.bind ?_ fun _ => ?_
  · exact Java.Keeps.bind (updateClientSeqNumber_reachable pk) fun _ => hs.sendACKToClient _
  · refine Java.Keeps.ite (queueInSequence_reachable pk _) (Java.Keeps.ite ?_ (Java.Keeps.pure _))
    exact Java.Keeps.ite (queueInSequence_reachable pk _) (acknowledge_reachable pk)
  · exact Java.Keeps.bind (Java.Keeps.ite hs.onTermination (Java.Keeps.pure _)) fun _ =>
      Java.Keeps.ite (acceptFin_reachable pk) (Java.Keeps.pure _)

theorem outOfSequence_reachable (pk : Segment) :
    Java.Keeps (fun c => Reachable c.mRemotePacketQueue) (outOfSequence pk) := by
  have hs := reachable_stable
  exact outOfSequence_keeps (fun _ _ => hs.onTermination) hs.sendSacks (putToQueue_reachable pk _)

theorem step_reachable {c : TCPController} (h : Reachable c.mRemotePacketQueue) (e : Event) :
    Reachable (c.step e).mRemotePacketQueue := by
  have hs := reachable_stable
  cases e with
  | client pk =>
    refine packetFromClient_keeps (I := fun c => Reachable c.mRemotePacketQueue) (fun _ hc => hc) c (fun _ => h)
      fun _ => ?_
    by_cases hsyn : pk.flag.SYN = 1 ∧ pk.flag.ACK = 0
    · rw [process_syn hsyn]
      exact h
    · rw [process_exec hsyn]
      split
      · exact outOfSequence_reachable pk _ h
      · exact inSequence_reachable pk _ h
  | poll => exact h.poll
  | connected => exact hs.handshake c h
  | packetFromRemote data push => exact hs.sendDataToClient data push c h
  | tick => exact hs.sendKeepAlivePacket c h
  | close => exact hs.sendFINPacket c h
  | remoteClosed => exact hs.sendFINPacket c h
  | terminate => exact hs.terminate c h

/-- **The queue of a controller is reachable in every run.** -/
theorem run_reachable {c : TCPController} (h : c.mRemotePacketQueue = []) (es : List Event) :
    Reachable (Run.run step c es).mRemotePacketQueue := by
  have hany : Run.Always step (fun _ _ => True) c es := Run.Always.of_events (Q := fun _ => True) fun _ _ => trivial
  have hstart : Reachable c.mRemotePacketQueue := by
    rw [h]
    exact .empty
  exact Run.invariant_run (I := fun c : TCPController => Reachable c.mRemotePacketQueue)
    (fun _ e hc _ => step_reachable hc e) hstart hany

/-! ## Queued packets -/

section Queued

variable {c : TCPController} {q : List (TCPPacketWrapper Segment)} {w a : TCPPacketWrapper Segment}

/-- `poll` takes from the front. -/
theorem pollQueue_suffix (c : TCPController) : c.pollQueue.mRemotePacketQueue <:+ c.mRemotePacketQueue := by
  unfold pollQueue
  split
  · exact List.suffix_rfl
  · rename_i w q' hpoll
    cases hq : c.mRemotePacketQueue with
    | nil =>
      rw [hq] at hpoll
      cases hpoll
    | cons v q =>
      rw [hq] at hpoll
      simp only [TCPPacketQueue.poll] at hpoll
      split_ifs at hpoll
      obtain ⟨-, rfl⟩ := Prod.mk.inj (Option.some.inj hpoll)
      exact List.suffix_cons v q

theorem Reachable.sorted (h : Reachable q) : Sorted q := by
  induction h with
  | empty => exact List.Pairwise.nil
  | putToQueue pk push _ ih => exact TCPPacketQueue.put_sorted (TCPPacketQueue.put_sorted ih _) _
  | poll _ ih => exact ih.sublist (pollQueue_suffix _).sublist

/-- The placeholder that `putToQueue` puts after a wrapper. -/
def placeholder (w : TCPPacketWrapper Segment) : TCPPacketWrapper Segment :=
  createPacketWrapper none w.nextSequenceNumber 0 0 false

/-- What is in the queue after `putToQueue`. -/
theorem mem_putToQueue (h : Sorted c.mRemotePacketQueue) :
    a ∈ (Java.exec (putToQueue w) c).2.mRemotePacketQueue ↔
      a = placeholder w ∨ ((a = w ∨ (a ∈ c.mRemotePacketQueue ∧ a.sequenceNumber ≠ w.sequenceNumber)) ∧
        a.sequenceNumber ≠ w.nextSequenceNumber) := by
  rw [putToQueue_exec]
  simp only
  rw [TCPPacketQueue.mem_put (TCPPacketQueue.put_sorted h w), TCPPacketQueue.mem_put h]
  rfl

/-- A packet is in the queue after `putToQueue` unless the placeholder or the new packet has its number. -/
theorem packet_mem_putToQueue (h : Sorted c.mRemotePacketQueue) (ha : a.mPacket.isSome) :
    a ∈ (Java.exec (putToQueue w) c).2.mRemotePacketQueue ↔
      (a = w ∨ (a ∈ c.mRemotePacketQueue ∧ a.sequenceNumber ≠ w.sequenceNumber)) ∧
        a.sequenceNumber ≠ w.nextSequenceNumber := by
  rw [mem_putToQueue h, or_iff_right]
  rintro rfl
  cases ha

/-- The packet of `w` is in the queue, at its number. -/
def Holds (q : List (TCPPacketWrapper Segment)) (w : TCPPacketWrapper Segment) : Prop :=
  ∃ b ∈ q, b.sequenceNumber = w.sequenceNumber ∧ b.mPacket = w.mPacket

instance Holds.decidable : Decidable (Holds q w) := inferInstanceAs (Decidable (∃ b ∈ q, _ ∧ _))

theorem putToQueue_holds_self (h : Sorted c.mRemotePacketQueue) (hw : w.mPacket.isSome) :
    Holds (Java.exec (putToQueue w) c).2.mRemotePacketQueue w ↔ w.nextSequenceNumber ≠ w.sequenceNumber := by
  constructor
  · rintro ⟨b, hb, hseq, hpk⟩ hnext
    rw [packet_mem_putToQueue h (by rw [hpk]; exact hw)] at hb
    exact hb.2 (hseq.trans hnext.symm)
  · intro hnext
    exact ⟨w, (packet_mem_putToQueue h hw).2 ⟨.inl rfl, hnext.symm⟩, rfl, rfl⟩

theorem putToQueue_holds_other (h : Sorted c.mRemotePacketQueue) (ha : a.mPacket.isSome)
    (hne : w.sequenceNumber ≠ a.sequenceNumber) :
    Holds (Java.exec (putToQueue w) c).2.mRemotePacketQueue a ↔
      Holds c.mRemotePacketQueue a ∧ w.nextSequenceNumber ≠ a.sequenceNumber := by
  constructor
  · rintro ⟨b, hb, hseq, hpk⟩
    rw [packet_mem_putToQueue h (by rw [hpk]; exact ha)] at hb
    obtain ⟨rfl | ⟨hb, -⟩, hnext⟩ := hb
    · exact absurd hseq hne
    · exact ⟨⟨b, hb, hseq, hpk⟩, fun heq => hnext (hseq.trans heq.symm)⟩
  · rintro ⟨⟨b, hb, hseq, hpk⟩, hnext⟩
    refine ⟨b, (packet_mem_putToQueue h (by rw [hpk]; exact ha)).2 ⟨.inr ⟨hb, ?_⟩, ?_⟩, hseq, hpk⟩
    · rw [hseq]
      exact hne.symm
    · rw [hseq]
      exact hnext.symm

/-- Queueing `w` keeps the other packets and queues its own. -/
def DiscardsNothing (c : TCPController) (w : TCPPacketWrapper Segment) : Prop :=
  (∀ a ∈ c.mRemotePacketQueue, a.mPacket.isSome → a.sequenceNumber ≠ w.sequenceNumber →
    Holds (Java.exec (putToQueue w) c).2.mRemotePacketQueue a) ∧
  Holds (Java.exec (putToQueue w) c).2.mRemotePacketQueue w

instance DiscardsNothing.decidable (c : TCPController) (w : TCPPacketWrapper Segment) :
    Decidable (DiscardsNothing c w) := inferInstanceAs (Decidable ((∀ a ∈ c.mRemotePacketQueue, _) ∧ _))

theorem discardsNothing_iff (h : Sorted c.mRemotePacketQueue) (hw : w.mPacket.isSome) :
    DiscardsNothing c w ↔ w.nextSequenceNumber ≠ w.sequenceNumber ∧
      ∀ a ∈ c.mRemotePacketQueue, a.sequenceNumber = w.nextSequenceNumber → a.mPacket = none := by
  unfold DiscardsNothing
  rw [putToQueue_holds_self h hw]
  constructor
  · rintro ⟨hothers, hself⟩
    refine ⟨hself, fun a ha hseq => ?_⟩
    -- a packet at the number of the placeholder is not there afterwards
    by_contra hnone
    have hpk : a.mPacket.isSome := Option.isSome_iff_ne_none.2 hnone
    have hne : a.sequenceNumber ≠ w.sequenceNumber := fun heq => hself (hseq.symm.trans heq)
    exact ((putToQueue_holds_other h hpk hne.symm).1 (hothers a ha hpk hne)).2 hseq.symm
  · rintro ⟨hself, hclear⟩
    refine ⟨fun a ha hpk hne => (putToQueue_holds_other h hpk hne.symm).2 ⟨⟨a, ha, rfl, rfl⟩, ?_⟩, hself⟩
    intro heq
    rw [hclear a ha heq.symm] at hpk
    cases hpk

/-- `putToQueue` of one wrapper after the other. -/
def putAllToQueue (ws : List (TCPPacketWrapper Segment)) : Java TCPController Unit := ws.forM putToQueue

theorem putAllToQueue_cons (v : TCPPacketWrapper Segment) (ws : List (TCPPacketWrapper Segment))
    (c : TCPController) : Java.exec (putAllToQueue (v :: ws)) c =
      Java.exec (putAllToQueue ws) (Java.exec (putToQueue v) c).2 := by
  change Java.exec (putToQueue v >>= fun _ => putAllToQueue ws) c = _
  rw [Java.exec_bind, putToQueue_exec]

/-- A queued packet stays as long as no later segment ends where it starts. -/
theorem putAllToQueue_holds {ws : List (TCPPacketWrapper Segment)} (h : Sorted c.mRemotePacketQueue)
    (ha : a.mPacket.isSome) (hne : ∀ v ∈ ws, v.sequenceNumber ≠ a.sequenceNumber) :
    Holds (Java.exec (putAllToQueue ws) c).2.mRemotePacketQueue a ↔
      Holds c.mRemotePacketQueue a ∧ ∀ v ∈ ws, v.nextSequenceNumber ≠ a.sequenceNumber := by
  induction ws generalizing c with
  | nil => simp [putAllToQueue]
  | cons v ws ih =>
    rw [List.forall_mem_cons] at hne
    rw [putAllToQueue_cons, ih (TCPPacketQueue.put_sorted (TCPPacketQueue.put_sorted h v) _) hne.2,
      putToQueue_holds_other h ha hne.1, List.forall_mem_cons, and_assoc]

/-- **When queueing a segment discards nothing**: exactly when it is not empty and no packet is queued
at its end. Over any calls that follow, its packet stays queued exactly when none of them ends where it
starts. -/
theorem putToQueue_keeps_iff (h : Reachable c.mRemotePacketQueue) (hw : w.mPacket.isSome) :
    (DiscardsNothing c w ↔ w.nextSequenceNumber ≠ w.sequenceNumber ∧
      ∀ a ∈ c.mRemotePacketQueue, a.sequenceNumber = w.nextSequenceNumber → a.mPacket = none) ∧
    ∀ ws : List (TCPPacketWrapper Segment), (∀ v ∈ ws, v.sequenceNumber ≠ w.sequenceNumber) →
      (Holds (Java.exec (putAllToQueue (w :: ws)) c).2.mRemotePacketQueue w ↔
        ∀ v ∈ w :: ws, v.nextSequenceNumber ≠ w.sequenceNumber) := by
  refine ⟨discardsNothing_iff h.sorted hw, fun ws hne => ?_⟩
  have hsorted : Sorted (Java.exec (putToQueue w) c).2.mRemotePacketQueue :=
    TCPPacketQueue.put_sorted (TCPPacketQueue.put_sorted h.sorted w) _
  rw [putAllToQueue_cons, putAllToQueue_holds hsorted hw hne, putToQueue_holds_self h.sorted hw,
    List.forall_mem_cons]

end Queued

/-- A segment of the client with payload. -/
def payloadSegment (sequenceNumber : BitVec 32) (data : Bytes) : Segment where
  sequenceNumber := sequenceNumber
  flag := TCPFlag.PSH_ACK
  data := some data

/-- A connection whose first bytes are late: the segment at 1003 is queued, 1001 is expected. -/
def lateFirst : TCPController :=
  Run.run step (accepting 1000 5000) [.connected, .client (payloadSegment 1003 [84, 32])]

/-- Segments behind the gap and away from its end are kept. -/
theorem lateFirst_keeps : DiscardsNothing lateFirst (wrapperOf (payloadSegment 1010 [47]) true) ∧
    Holds (Java.exec (putAllToQueue [wrapperOf (payloadSegment 1010 [47]) true,
      wrapperOf (payloadSegment 1020 [47]) true]) lateFirst).2.mRemotePacketQueue
      (wrapperOf (payloadSegment 1010 [47]) true) := by
  have h := putToQueue_keeps_iff (c := lateFirst) (w := wrapperOf (payloadSegment 1010 [47]) true)
    (run_reachable rfl _) rfl
  exact ⟨h.1.2 (by decide +kernel), (h.2 [wrapperOf (payloadSegment 1020 [47]) true] (by decide +kernel)).2
    (by decide +kernel)⟩

/-- **The segment that fills a gap discards the one behind it.** -/
theorem gap_filled_discards : ¬ ∀ (c : TCPController) (w : TCPPacketWrapper Segment),
    Reachable c.mRemotePacketQueue → w.mPacket.isSome → DiscardsNothing c w := by
  intro h
  have := h lateFirst (wrapperOf (payloadSegment 1001 [71, 69]) true) (run_reachable rfl _) rfl
  revert this
  decide +kernel

/-! ## SACK blocks -/

section Sacks

variable {c : TCPController} {q : List (TCPPacketWrapper Segment)}

/-- `b` is the packet that follows the packet `a`. -/
def contiguous (a b : TCPPacketWrapper Segment) : Bool :=
  a.mPacket.isSome && b.mPacket.isSome && a.nextSequenceNumber == b.sequenceNumber

/-- The queue from its first placeholder on. -/
def beyondGap (q : List (TCPPacketWrapper Segment)) : List (TCPPacketWrapper Segment) :=
  q.dropWhile fun w => w.mPacket.isSome

/-- The maximal runs of contiguous packets behind the first placeholder. -/
def queuedRuns (q : List (TCPPacketWrapper Segment)) : List (List (TCPPacketWrapper Segment)) :=
  ((beyondGap q).splitBy contiguous).filter fun r => r.all fun w => w.mPacket.isSome

/-- From the number of the first packet of a run to the number after the last. -/
def block (r : List (TCPPacketWrapper Segment)) : SACK :=
  ⟨(r.head?.map TCPPacketWrapper.sequenceNumber).getD 0,
    (r.getLast?.map TCPPacketWrapper.nextSequenceNumber).getD 0⟩

/-- The blocks that tell what is queued behind the gap. -/
def queuedBlocks (q : List (TCPPacketWrapper Segment)) : List SACK := (queuedRuns q).map block

/-- The packets can be ranked such that each comes before the one that follows it. -/
def Ranked (q : List (TCPPacketWrapper Segment)) : Prop :=
  ∃ rank : BitVec 32 → ℕ, ∀ a ∈ q, ∀ b ∈ q, contiguous a b = true →
    rank a.sequenceNumber < rank b.sequenceNumber

theorem Ranked.sublist {q' : List (TCPPacketWrapper Segment)} (h : Ranked q) (hsub : q'.Sublist q) : Ranked q' := by
  obtain ⟨rank, hrank⟩ := h
  exact ⟨rank, fun a ha b hb => hrank a (hsub.subset ha) b (hsub.subset hb)⟩

theorem contiguous_iff {a b : TCPPacketWrapper Segment} : contiguous a b = true ↔
    a.mPacket.isSome ∧ b.mPacket.isSome ∧ a.nextSequenceNumber = b.sequenceNumber := by
  simp [contiguous, and_assoc]

/-- The new packet gets the highest rank: the placeholder after it is the only wrapper at its end. -/
theorem Ranked.putToQueue (h : Ranked c.mRemotePacketQueue) (hs : Sorted c.mRemotePacketQueue)
    (w : TCPPacketWrapper Segment) : Ranked (Java.exec (TCPController.putToQueue w) c).2.mRemotePacketQueue := by
  obtain ⟨rank, hrank⟩ := h
  set top := (c.mRemotePacketQueue.map fun a => rank a.sequenceNumber).sum with htop
  have hle : ∀ a ∈ c.mRemotePacketQueue, rank a.sequenceNumber ≤ top := fun a ha =>
    List.le_sum_of_mem (List.mem_map_of_mem ha)
  refine ⟨Function.update rank w.sequenceNumber (top + 1), fun a ha b hb hab => ?_⟩
  obtain ⟨hpa, hpb, hnext⟩ := contiguous_iff.1 hab
  obtain ⟨hbnew, hbend⟩ := (packet_mem_putToQueue hs hpb).1 hb
  obtain ⟨rfl | ⟨haq, hane⟩, -⟩ := (packet_mem_putToQueue hs hpa).1 ha
  · exact absurd hnext.symm hbend
  · rw [Function.update_of_ne hane]
    rcases hbnew with rfl | ⟨hbq, hbne⟩
    · rw [Function.update_self]
      exact Nat.lt_succ_of_le (hle a haq)
    · rw [Function.update_of_ne hbne]
      exact hrank a haq b hbq hab

/-- **No packets follow each other in a circle.** -/
theorem Reachable.ranked (h : Reachable q) : Ranked q := by
  induction h with
  | empty => exact ⟨fun _ => 0, fun a ha => nomatch ha⟩
  | putToQueue pk push hc ih => exact ih.putToQueue hc.sorted _
  | poll _ ih => exact ih.sublist (pollQueue_suffix _).sublist

/-- The block of a run is not empty. -/
theorem block_edges_ne {r : List (TCPPacketWrapper Segment)} (h : Ranked r) (hne : r ≠ [])
    (hall : ∀ w ∈ r, w.mPacket.isSome) (hchain : r.IsChain fun a b => contiguous a b = true) :
    (block r).leftEdge ≠ (block r).rightEdge := by
  obtain ⟨rank, hrank⟩ := h
  have hasc : (r.map fun w => rank w.sequenceNumber).Pairwise (· < ·) := by
    apply List.IsChain.pairwise
    rw [List.isChain_map]
    exact hchain.imp_of_mem_imp fun a b ha hb hab => hrank a ha b hb hab
  cases r with
  | nil => exact absurd rfl hne
  | cons a t =>
    set last := (a :: t).getLast hne with hlast
    have hmem : last ∈ a :: t := List.getLast_mem hne
    -- the last packet is not ranked below the first, so it is not followed by it
    have hup : rank a.sequenceNumber ≤ rank last.sequenceNumber := by
      rcases List.mem_cons.1 hmem with heq | ht
      · rw [heq]
      · exact ((List.pairwise_cons.1 hasc).1 _ (List.mem_map_of_mem ht)).le
    intro hedges
    have hblock : block (a :: t) = ⟨a.sequenceNumber, last.nextSequenceNumber⟩ := by
      simp only [block, List.head?_cons, Option.map_some, Option.getD_some, List.getLast?_eq_some_getLast hne,
        hlast]
    rw [hblock] at hedges
    have hback : contiguous last a = true :=
      contiguous_iff.2 ⟨hall last hmem, hall a List.mem_cons_self, hedges.symm⟩
    exact absurd (hrank last hmem a List.mem_cons_self hback) (not_lt.2 hup)

/-- A left edge is the number after the wrapper before, so every block is empty. -/
structure SackScan.Degenerate (s : SackScan) : Prop where
  order : s.findRightEdge = true → s.findLeftEdge = true
  left : s.findRightEdge = true → s.leftEdge = s.previousNext
  blocks : ∀ b ∈ s.sacks, b.leftEdge = b.rightEdge

theorem SackScan.Degenerate.round {s : SackScan} (h : s.Degenerate) (tw : TCPPacketWrapper Segment) :
    (s.round tw).Degenerate := by
  unfold SackScan.round
  by_cases hnone : tw.mPacket.isNone
  · rw [if_pos hnone]
    by_cases hl : s.findLeftEdge = true
    · rw [if_neg (not_not.2 hl)]
      by_cases hr : s.findRightEdge = true
      · -- the block that ends here
        rw [if_pos hr]
        refine ⟨nofun, nofun, fun b hb => ?_⟩
        rcases List.mem_append.1 hb with hb | hb
        · exact h.blocks b hb
        · obtain rfl := List.mem_singleton.1 hb
          exact h.left hr
      · rw [if_neg hr]
        exact ⟨h.order, fun hright => absurd hright hr, h.blocks⟩
    · rw [if_pos hl]
      exact ⟨fun _ => rfl, fun hright => absurd (h.order hright) hl, h.blocks⟩
  · rw [if_neg hnone]
    by_cases hl : s.findLeftEdge = true
    · rw [if_pos hl]
      exact ⟨fun _ => hl, fun _ => rfl, h.blocks⟩
    · rw [if_neg hl]
      exact ⟨h.order, fun hright => absurd (h.order hright) hl, h.blocks⟩

theorem SackScan.Degenerate.scan {s : SackScan} (h : s.Degenerate) : (q.foldl SackScan.round s).Degenerate := by
  induction q generalizing s with
  | nil => exact h
  | cons tw q ih => exact ih (h.round tw)

theorem SackScan.Degenerate.start : SackScan.Degenerate {} := ⟨nofun, nofun, nofun⟩

/-- **Every block that is generated is empty.** -/
theorem generateSacks_degenerate (q : List (TCPPacketWrapper Segment)) :
    ∀ b ∈ generateSacks q, b.leftEdge = b.rightEdge :=
  (SackScan.Degenerate.start.scan (q := q)).blocks

/-- Packets before the first placeholder leave no trace. -/
theorem scan_packets {s : SackScan} (hl : s.findLeftEdge = false) (h : ∀ w ∈ q, w.mPacket.isSome) :
    (q.foldl SackScan.round s).findLeftEdge = false ∧ (q.foldl SackScan.round s).sacks = s.sacks := by
  induction q generalizing s with
  | nil => exact ⟨hl, rfl⟩
  | cons tw q ih =>
    rw [List.forall_mem_cons] at h
    have hround : (s.round tw).findLeftEdge = false ∧ (s.round tw).sacks = s.sacks := by
      simp only [SackScan.round, Option.isNone_iff_eq_none, Option.isSome_iff_ne_none.1 h.1, hl, if_false,
        Bool.false_eq_true, and_self]
    obtain ⟨h1, h2⟩ := ih hround.1 h.2
    exact ⟨h1, h2.trans hround.2⟩

/-- Placeholders end no block when none was begun. -/
theorem scan_placeholders {s : SackScan} (hr : s.findRightEdge = false) (h : ∀ w ∈ q, w.mPacket = none) :
    (q.foldl SackScan.round s).sacks = s.sacks := by
  induction q generalizing s with
  | nil => rfl
  | cons tw q ih =>
    rw [List.forall_mem_cons] at h
    have hround : (s.round tw).findRightEdge = false ∧ (s.round tw).sacks = s.sacks := by
      simp only [SackScan.round, h.1, Option.isNone_none, if_true, hr, Bool.false_eq_true, if_false]
      split_ifs
      · exact ⟨hr, rfl⟩
      · exact ⟨rfl, rfl⟩
    exact (ih hround.1 h.2).trans hround.2

/-- Nothing queued behind the gap: nothing is generated, and nothing is to be told. -/
theorem sacks_of_placeholders (h : ∀ w ∈ beyondGap q, w.mPacket = none) :
    generateSacks q = [] ∧ queuedBlocks q = [] := by
  constructor
  · have hfront : ∀ w ∈ q.takeWhile (fun w => w.mPacket.isSome), w.mPacket.isSome := by
      intro w hw
      exact List.mem_takeWhile_imp (p := fun w : TCPPacketWrapper Segment => w.mPacket.isSome) hw
    obtain ⟨hl, hsacks⟩ := scan_packets (s := {}) rfl hfront
    have hr : ((q.takeWhile fun w => w.mPacket.isSome).foldl SackScan.round {}).findRightEdge = false := by
      rw [← Bool.not_eq_true]
      intro hright
      rw [SackScan.Degenerate.start.scan.order hright] at hl
      cases hl
    unfold generateSacks
    rw [← List.takeWhile_append_dropWhile (p := fun w => w.mPacket.isSome) (l := q), List.foldl_append]
    exact (scan_placeholders hr h).trans hsacks
  · unfold queuedBlocks queuedRuns
    rw [List.map_eq_nil_iff, List.filter_eq_nil_iff]
    intro r hr hall
    obtain ⟨w, hw⟩ := List.exists_mem_of_ne_nil r (List.ne_nil_of_mem_splitBy hr)
    have hmem : w ∈ beyondGap q := by
      rw [← List.flatten_splitBy contiguous (beyondGap q)]
      exact List.mem_flatten_of_mem hr hw
    have hsome := List.all_eq_true.1 hall w hw
    rw [h w hmem] at hsome
    cases hsome

/-- A chain with a packet holds no placeholder. -/
theorem all_packets_of_chain {r : List (TCPPacketWrapper Segment)} {w : TCPPacketWrapper Segment}
    (hchain : r.IsChain fun a b => contiguous a b = true) (hw : w ∈ r) (hpk : w.mPacket.isSome) :
    ∀ v ∈ r, v.mPacket.isSome := by
  induction r generalizing w with
  | nil => cases hw
  | cons a t ih =>
    cases t with
    | nil =>
      obtain rfl := List.mem_singleton.1 hw
      exact fun v hv => List.mem_singleton.1 hv ▸ hpk
    | cons b t =>
      obtain ⟨hab, htail⟩ := List.isChain_cons_cons.1 hchain
      obtain ⟨hpa, hpb, -⟩ := contiguous_iff.1 hab
      exact List.forall_mem_cons.2 ⟨hpa, ih htail List.mem_cons_self hpb⟩

/-- A packet behind the gap is in a run of packets. -/
theorem exists_queuedRun {w : TCPPacketWrapper Segment} (hw : w ∈ beyondGap q) (hpk : w.mPacket.isSome) :
    ∃ r ∈ queuedRuns q, w ∈ r := by
  rw [← List.flatten_splitBy contiguous (beyondGap q)] at hw
  obtain ⟨r, hr, hwr⟩ := List.mem_flatten.1 hw
  refine ⟨r, List.mem_filter.2 ⟨hr, List.all_eq_true.2 ?_⟩, hwr⟩
  exact all_packets_of_chain (List.isChain_of_mem_splitBy hr) hwr hpk

/-- **The blocks that are generated are right only when there is nothing to tell.** -/
theorem generateSacks_eq_iff (h : Reachable q) :
    generateSacks q = queuedBlocks q ↔ ∀ w ∈ beyondGap q, w.mPacket = none := by
  constructor
  · intro heq w hw
    by_contra hpk
    obtain ⟨r, hr, hwr⟩ := exists_queuedRun hw (Option.isSome_iff_ne_none.2 hpk)
    have hsplit := (List.mem_filter.1 hr).1
    have hall : ∀ v ∈ r, v.mPacket.isSome := List.all_eq_true.1 (List.mem_filter.1 hr).2
    have hsub : r.Sublist q :=
      (List.sublist_flatten_of_mem hsplit).trans (by
        rw [List.flatten_splitBy]
        exact List.dropWhile_sublist _)
    refine block_edges_ne (h.ranked.sublist hsub) (List.ne_nil_of_mem hwr) hall
      (List.isChain_of_mem_splitBy hsplit) (generateSacks_degenerate q _ ?_)
    rw [heq]
    exact List.mem_map_of_mem hr
  · intro hnone
    obtain ⟨h1, h2⟩ := sacks_of_placeholders hnone
    rw [h1, h2]

end Sacks

/-- Two bytes in sequence, at 1001. -/
def firstBytes : TCPController :=
  Run.run step (accepting 1000 5000) [.connected, .client (payloadSegment 1001 [71, 69])]

/-- Then the segment at 1003 is late. -/
def lateSecond : TCPController := firstBytes.step (.client (payloadSegment 1005 [47, 32]))

theorem firstBytes_sacks : generateSacks firstBytes.mRemotePacketQueue = queuedBlocks firstBytes.mRemotePacketQueue :=
  (generateSacks_eq_iff (run_reachable rfl _)).2 (by decide +kernel)

/-- **The block of a queued segment is generated as an empty one**: 1007 to 1007 in place of 1005 to 1007. -/
theorem lateSecond_sacks : ¬ ∀ c : TCPController, Reachable c.mRemotePacketQueue →
    (c.mRemotePacketQueue.find? fun w => w.mPacket.isNone).map TCPPacketWrapper.sequenceNumber =
      some c.mClientNexSeqNumber →
    generateSacks c.mRemotePacketQueue = queuedBlocks c.mRemotePacketQueue := by
  intro h
  have hreach : Reachable lateSecond.mRemotePacketQueue := step_reachable (run_reachable rfl _) _
  have := h lateSecond hreach (by decide +kernel)
  revert this
  decide +kernel

end TCPController

end SmartTunnel
