import SmartTunnel.Base.Run
import SmartTunnel.Proof.Queue

/-!
# Two threads at the queue

`poll` looks at the head in one block and takes the head in another. It takes what it looked at
exactly if nothing lower was put between the two and what was last put in the place of the head is a
packet (`takes_head_iff`). It tests the head under one lock and waits under another, so the
notification of a `put` can come before the wait: no packet is left waiting exactly if `wait` is
called in time (`no_lost_wakeup_iff`).
-/

namespace SmartTunnel

open Jvm Keyed

namespace SharedQueue

variable {π : Type}

/-! ## What `poll` takes -/

/-- The head that `poll` looked at and is about to take. -/
def inspected : Poll π → Option (TCPPacketWrapper π)
  | .takes w => some w
  | _ => none

/-- What `poll` returns is a packet, with the number of the head that it looked at. -/
def TakesHead (s : SharedQueue π) (e : Event π) : Prop :=
  e = .take → s.notifies = false → ∀ w ∈ inspected s.poll,
    ∃ h ∈ s.mPackets.head?, h.mPacket.isSome ∧ h.sequenceNumber = w.sequenceNumber

/-- The wrapper in the place of `w` after the puts. -/
def latest (w : TCPPacketWrapper π) (puts : List (TCPPacketWrapper π)) : TCPPacketWrapper π :=
  puts.foldl (fun current v => if v.sequenceNumber = w.sequenceNumber then v else current) w

/-- Nothing lower than the head was put since `poll` looked at it, and its place holds a packet. -/
def Undisturbed (s : SharedQueue π) (e : Event π) : Prop :=
  e = .take → s.notifies = false → ∀ w ∈ inspected s.poll,
    (∀ v ∈ s.putSince, w.order ≤ v.order) ∧ (latest w s.putSince).mPacket.isSome

instance TakesHead.decidable [DecidableEq π] (s : SharedQueue π) (e : Event π) : Decidable (TakesHead s e) :=
  inferInstanceAs (Decidable (_ → _ → ∀ w ∈ inspected s.poll, _))

/-- The queue after `puts` came to a queue with the head `w`. -/
structure Since (w : TCPPacketWrapper π) (puts q : List (TCPPacketWrapper π)) : Prop where
  head : latest w puts ∈ q
  lower : ∀ a ∈ q, a.order < w.order → ∃ v ∈ puts, v.order = a.order
  there : ∀ v ∈ puts, ∃ a ∈ q, a.order = v.order

section Since

variable {w v : TCPPacketWrapper π} {puts q : List (TCPPacketWrapper π)} {s : SharedQueue π} {e : Event π}

theorem latest_append (w v : TCPPacketWrapper π) (puts : List (TCPPacketWrapper π)) :
    latest w (puts ++ [v]) = if v.sequenceNumber = w.sequenceNumber then v else latest w puts := by
  rw [latest, List.foldl_append]
  rfl

theorem latest_sequenceNumber (w : TCPPacketWrapper π) (puts : List (TCPPacketWrapper π)) :
    (latest w puts).sequenceNumber = w.sequenceNumber := by
  induction puts using List.reverseRecOn with
  | nil => rfl
  | append_singleton puts v ih =>
    rw [latest_append]
    split
    · assumption
    · exact ih

theorem latest_order (w : TCPPacketWrapper π) (puts : List (TCPPacketWrapper π)) :
    (latest w puts).order = w.order := by
  rw [TCPPacketWrapper.order, latest_sequenceNumber]
  rfl

theorem Since.start (h : Sorted (w :: q)) : Since w [] (w :: q) := by
  refine ⟨List.mem_cons_self, fun a ha hlt => ?_, nofun⟩
  rcases List.mem_cons.1 ha with rfl | ha
  · exact absurd hlt (lt_irrefl _)
  · exact absurd ((List.pairwise_cons.1 h).1 a ha) (not_lt.2 hlt.le)

theorem Since.put (h : Since w puts q) (hs : Sorted q) (v : TCPPacketWrapper π) :
    Since w (puts ++ [v]) (TCPPacketQueue.put v q) := by
  have hmem := fun a => TCPPacketQueue.mem_put (w := v) (a := a) hs
  refine ⟨?_, ?_, ?_⟩
  · rw [latest_append]
    split
    · exact (hmem v).2 (.inl rfl)
    · rename_i hne
      refine (hmem _).2 (.inr ⟨h.head, ?_⟩)
      rw [latest_sequenceNumber]
      exact fun heq => hne heq.symm
  · intro a ha hlt
    rcases (hmem a).1 ha with rfl | ⟨ha, -⟩
    · exact ⟨a, by simp, rfl⟩
    · obtain ⟨u, hu, horder⟩ := h.lower a ha hlt
      exact ⟨u, List.mem_append_left _ hu, horder⟩
  · intro u hu
    rcases List.mem_append.1 hu with hu | hu
    · obtain ⟨a, ha, horder⟩ := h.there u hu
      by_cases heq : a.sequenceNumber = v.sequenceNumber
      · exact ⟨v, (hmem v).2 (.inl rfl), by rw [← horder, TCPPacketWrapper.order, TCPPacketWrapper.order, heq]⟩
      · exact ⟨a, (hmem a).2 (.inr ⟨ha, heq⟩), horder⟩
    · obtain rfl := List.mem_singleton.1 hu
      exact ⟨u, (hmem u).2 (.inl rfl), rfl⟩

/-- **The head is what was looked at exactly if nothing lower was put.** -/
theorem Since.head_iff (h : Since w puts q) (hs : Sorted q) :
    (∃ a ∈ q.head?, a.mPacket.isSome ∧ a.sequenceNumber = w.sequenceNumber) ↔
      (∀ v ∈ puts, w.order ≤ v.order) ∧ (latest w puts).mPacket.isSome := by
  cases q with
  | nil => exact absurd h.head List.not_mem_nil
  | cons a t =>
    have hfirst : ∀ b ∈ a :: t, a.order ≤ b.order := by
      intro b hb
      rcases List.mem_cons.1 hb with rfl | hb
      · exact le_rfl
      · exact ((List.pairwise_cons.1 hs).1 b hb).le
    -- two wrappers with one number are one
    have hone : a.order = w.order → a = latest w puts := by
      intro heq
      rcases List.mem_cons.1 h.head with hl | hl
      · exact hl.symm
      · have := (List.pairwise_cons.1 hs).1 _ hl
        rw [latest_order, heq] at this
        exact absurd this (lt_irrefl _)
    constructor
    · rintro ⟨b, hb, hpk, hseq⟩
      obtain rfl : a = b := by simpa using hb
      have heq : a.order = w.order := by rw [TCPPacketWrapper.order, hseq]; rfl
      refine ⟨fun v hv => ?_, hone heq ▸ hpk⟩
      obtain ⟨c, hc, horder⟩ := h.there v hv
      rw [← heq, ← horder]
      exact hfirst c hc
    · rintro ⟨hlow, hpk⟩
      have heq : a.order = w.order := by
        refine le_antisymm ?_ (not_lt.1 fun hlt => ?_)
        · rw [← latest_order w puts]
          exact hfirst _ h.head
        · obtain ⟨v, hv, horder⟩ := h.lower a List.mem_cons_self hlt
          exact absurd (hlow v hv) (not_le.2 (horder ▸ hlt))
      exact ⟨a, rfl, hone heq ▸ hpk, BitVec.toInt_inj.1 heq⟩

end Since

/-- The queue is sorted, and what was put since the head was looked at is known. -/
structure Watched (s : SharedQueue π) : Prop where
  sorted : Sorted s.mPackets
  since : ∀ w ∈ inspected s.poll, Since w s.putSince s.mPackets

theorem Watched.step {s : SharedQueue π} (h : Watched s) (e : Event π) : Watched (s.step e) := by
  cases e with
  | put v =>
    by_cases hlock : s.notifies = true
    · simp only [SharedQueue.step, hlock, if_true]
      exact h
    · simp only [SharedQueue.step, hlock, if_false, Bool.false_eq_true]
      exact ⟨TCPPacketQueue.put_sorted h.sorted v, fun w hw => (h.since w hw).put h.sorted v⟩
  | notify =>
    by_cases hlock : s.notifies = true
    · simp only [SharedQueue.step, hlock, if_true]
      refine ⟨h.sorted, fun w hw => h.since w ?_⟩
      cases hp : s.poll <;> rw [hp] at hw <;> exact hw
    · simp only [SharedQueue.step, hlock, if_false, Bool.false_eq_true]
      exact h
  | inspect =>
    cases hp : s.poll with
    | inspects =>
      by_cases hlock : s.notifies = true
      · simp only [SharedQueue.step, hp, hlock, if_true]
        exact h
      · simp only [SharedQueue.step, hp, hlock, if_false, Bool.false_eq_true]
        refine ⟨h.sorted, fun w hw => ?_⟩
        have hsorted := h.sorted
        cases hq : s.mPackets with
        | nil =>
          rw [hq] at hw
          cases hw
        | cons a t =>
          rw [hq] at hw hsorted
          simp only [afterPeek] at hw
          split at hw
          · obtain rfl : a = w := by simpa [inspected] using hw
            exact Since.start hsorted
          · cases hw
    | _ => simpa only [SharedQueue.step, hp] using h
  | startWait =>
    cases hp : s.poll with
    | leaves =>
      simp only [SharedQueue.step, hp]
      exact ⟨h.sorted, nofun⟩
    | _ => simpa only [SharedQueue.step, hp] using h
  | take =>
    cases hp : s.poll with
    | takes w =>
      by_cases hlock : s.notifies = true
      · simp only [SharedQueue.step, hp, hlock, if_true]
        exact h
      · simp only [SharedQueue.step, hp, hlock, if_false, Bool.false_eq_true]
        exact ⟨h.sorted.sublist (List.tail_sublist _), nofun⟩
    | _ => simpa only [SharedQueue.step, hp] using h

/-- **When `poll` takes what it looked at.** In every interleaving of any puts with the polls of one thread,
every `poll` returns a packet with the number of the head it looked at exactly if the head is undisturbed
whenever it is taken. -/
theorem takes_head_iff (es : List (Event π)) :
    Run.Always step TakesHead {} es ↔ Run.Always step Undisturbed ({} : SharedQueue π) es := by
  have hiff : ∀ (s : SharedQueue π) (e : Event π), Watched s → (TakesHead s e ↔ Undisturbed s e) := by
    intro s e hs
    refine forall_congr' fun _ => forall_congr' fun _ => forall_congr' fun w => forall_congr' fun hw => ?_
    exact (hs.since w hw).head_iff hs.sorted
  refine Run.Always.iff_of_invariant (I := Watched) (fun s e hs he => ⟨(hiff s e hs).2 he, hs.step e⟩)
    (fun s e hs he => (hiff s e hs).1 he) ⟨List.Pairwise.nil, nofun⟩

/-! ## When `poll` waits -/

/-- No `put` is in progress, the thread is in `wait`, and the head holds a packet. -/
def Stalled (s : SharedQueue π) : Prop := s.notifies = false ∧ s.poll = .waits ∧ headReady s.mPackets = true

instance Stalled.decidable [DecidableEq π] (s : SharedQueue π) : Decidable (Stalled s) :=
  inferInstanceAs (Decidable (_ ∧ _ ∧ _))

/-- `wait` is called before the head holds a packet, or before the notification of the put that brought it. -/
def WaitsInTime (s : SharedQueue π) (e : Event π) : Prop :=
  e = .startWait → s.poll = .leaves → headReady s.mPackets = true → s.notifies = true

theorem not_stalled_step {s : SharedQueue π} {e : Event π} (h : ¬ Stalled s) (he : WaitsInTime s e) :
    ¬ Stalled (s.step e) := by
  cases e with
  | put v =>
    by_cases hlock : s.notifies = true
    · simpa only [SharedQueue.step, hlock, if_true] using h
    · -- a packet at the head is notified
      simp only [SharedQueue.step, hlock, if_false, Bool.false_eq_true]
      rintro ⟨hnotified, -, hready⟩
      rw [hready] at hnotified
      cases hnotified
  | notify =>
    by_cases hlock : s.notifies = true
    · simp only [SharedQueue.step, hlock, if_true]
      rintro ⟨-, hwaits, -⟩
      cases hp : s.poll <;> rw [hp] at hwaits <;> cases hwaits
    · simpa only [SharedQueue.step, hlock, if_false, Bool.false_eq_true] using h
  | inspect =>
    cases hp : s.poll with
    | inspects =>
      by_cases hlock : s.notifies = true
      · simpa only [SharedQueue.step, hp, hlock, if_true] using h
      · simp only [SharedQueue.step, hp, hlock, if_false, Bool.false_eq_true]
        rintro ⟨-, hwaits, -⟩
        cases hq : s.mPackets with
        | nil =>
          rw [hq] at hwaits
          cases hwaits
        | cons a t =>
          rw [hq] at hwaits
          simp only [afterPeek] at hwaits
          split at hwaits <;> cases hwaits
    | _ => simpa only [SharedQueue.step, hp] using h
  | startWait =>
    cases hp : s.poll with
    | leaves =>
      simp only [SharedQueue.step, hp]
      rintro ⟨hidle, -, hready⟩
      rw [he rfl hp hready] at hidle
      cases hidle
    | _ => simpa only [SharedQueue.step, hp] using h
  | take =>
    cases hp : s.poll with
    | takes w =>
      by_cases hlock : s.notifies = true
      · simpa only [SharedQueue.step, hp, hlock, if_true] using h
      · simp only [SharedQueue.step, hp, hlock, if_false, Bool.false_eq_true]
        rintro ⟨-, hwaits, -⟩
        cases hwaits
    | _ => simpa only [SharedQueue.step, hp] using h

/-- **When no wakeup is lost.** -/
theorem no_lost_wakeup_iff (es : List (Event π)) :
    Run.Always step (fun s e => ¬ Stalled (s.step e)) {} es ↔ Run.Always step WaitsInTime ({} : SharedQueue π) es := by
  refine Run.Always.iff_of_invariant (I := fun s => ¬ Stalled s)
    (fun s e hs he => ⟨not_stalled_step hs he, not_stalled_step hs he⟩) (fun s e _ hnot => ?_) ?_
  · rintro rfl hleaves hready
    by_contra hidle
    refine hnot ⟨?_, ?_, ?_⟩
    · simpa [SharedQueue.step, hleaves] using hidle
    · simp [SharedQueue.step, hleaves]
    · simpa [SharedQueue.step, hleaves] using hready
  · rintro ⟨-, hwaits, -⟩
    cases hwaits

/-! ## The packet processor and the writer thread -/

/-- The two puts of `putToQueue`. -/
def putToQueue (pk : Segment) : List (Event Segment) :=
  [.put (TCPController.wrapperOf pk true), .notify,
    .put (TCPController.createPacketWrapper none (TCPController.wrapperOf pk true).nextSequenceNumber 0 0 false), .notify]

/-- Two bytes at a number. -/
def twoBytes (sequenceNumber : BitVec 32) : Segment where
  sequenceNumber := sequenceNumber
  flag := TCPFlag.PSH_ACK
  data := some [71, 69]

/-- **At the signed boundary a placeholder comes first**: it is put between the two blocks of `poll`, and
taken. -/
theorem boundary_takes_placeholder : ¬ ∀ es : List (Event Segment), Run.Always step TakesHead {} es := by
  intro h
  have := h (putToQueue (twoBytes 0x7FFFFFFC) ++ [.inspect] ++ putToQueue (twoBytes 0x7FFFFFFE) ++ [.take])
  revert this
  decide +kernel

/-- **The notification of a put between the test and the wait is lost.** -/
theorem put_before_wait_stalls : ¬ ∀ es : List (Event Segment), ¬ Stalled (Run.run step {} es) := by
  intro h
  have := h ([.inspect] ++ putToQueue (twoBytes 1001) ++ [.startWait])
  revert this
  decide +kernel

end SharedQueue

end SmartTunnel
