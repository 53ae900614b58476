import SmartTunnel.Base.Run
import SmartTunnel.Model.PacketProcessor
import SmartTunnel.Proof.Process

/-!
# The bytes that reach the remote

A client sends slices of a stream; `ChannelV4TCP.run` writes what it polls, also between the two puts
of a packet. The invariant splits the queue at the next number: the packets before it are the
accepted part of the stream that is not written yet, and a placeholder at it keeps what lies behind
from being polled (`Received`). Between the puts this is so of the queue as it will be (`Uploading`).
`polledBytes_of_stream`: the bytes polled are a prefix of the stream in every run whose steps meet `Orderly`.
-/

namespace SmartTunnel

open Jvm Keyed

namespace TCPController

/-- The payload of a wrapper. -/
def payload (w : TCPPacketWrapper Segment) : Bytes := (w.mPacket.bind Segment.data).getD []

theorem payload_placeholder {w : TCPPacketWrapper Segment} (h : w.mPacket = none) : payload w = [] := by
  simp [payload, h]

/-- The bytes that an effect writes to the remote. -/
def written : Effect → Bytes
  | .polled w => payload w
  | _ => []

/-- The bytes that were polled, in order. -/
def polledBytes (log : List Effect) : Bytes := log.flatMap written

/-- The payloads up to the first placeholder. -/
def ready : List (TCPPacketWrapper Segment) → Bytes
  | [] => []
  | w :: q => if w.mPacket.isSome then payload w ++ ready q else []

section Ready

variable {q q' : List (TCPPacketWrapper Segment)}

theorem ready_append_real (h : ∀ w ∈ q, w.mPacket.isSome) : ready (q ++ q') = ready q ++ ready q' := by
  induction q with
  | nil => rfl
  | cons w q ih =>
    have hw := h w List.mem_cons_self
    simp only [List.cons_append, ready, hw, if_true, List.append_assoc]
    rw [ih fun v hv => h v (List.mem_cons_of_mem _ hv)]

/-- Behind a placeholder nothing is ready. -/
theorem ready_append_blocked (h : ¬ ∀ w ∈ q, w.mPacket.isSome) : ready (q ++ q') = ready q := by
  induction q with
  | nil => exact absurd (fun _ hw => nomatch hw) h
  | cons w q ih =>
    simp only [List.cons_append, ready]
    by_cases hw : w.mPacket.isSome
    · rw [if_pos hw, if_pos hw, ih]
      intro hall
      refine h fun v hv => ?_
      rcases List.mem_cons.1 hv with rfl | hv
      · exact hw
      · exact hall v hv
    · rw [if_neg hw, if_neg hw]

theorem ready_le_append (q q' : List (TCPPacketWrapper Segment)) : ready q <+: ready (q ++ q') := by
  by_cases h : ∀ w ∈ q, w.mPacket.isSome
  · rw [ready_append_real h]
    exact List.prefix_append _ _
  · rw [ready_append_blocked h]

theorem ready_placeholders (h : ∀ w ∈ q, w.mPacket = none) : ready q = [] := by
  cases q with
  | nil => rfl
  | cons w q => simp [ready, h w List.mem_cons_self]

end Ready

/-! ## What does not concern the upload -/

/-- What the upload depends on. -/
def uploadView (c : TCPController) : List (TCPPacketWrapper Segment) × BitVec 32 × Bytes :=
  (c.mRemotePacketQueue, c.mClientNexSeqNumber, polledBytes c.log)

theorem polledBytes_append (log log' : List Effect) :
    polledBytes (log ++ log') = polledBytes log ++ polledBytes log' := by
  simp [polledBytes]

theorem uploadView_stable (v : List (TCPPacketWrapper Segment) × BitVec 32 × Bytes) :
    SendStable (fun c => c.uploadView = v) := by
  have hlog : ∀ log e, written e = [] → polledBytes (log ++ [e]) = polledBytes log := by
    intro log e he
    rw [polledBytes_append]
    simp [polledBytes, he]
  refine ⟨fun c h => h, ?_, fun c state h => h, fun c seq h => h, fun c h => h, ?_⟩
  · rintro c data flag option rfl
    simp only [uploadView, sent]
    rw [hlog]
    rfl
  · rintro c rfl
    simp only [uploadView]
    rw [hlog]
    rfl

theorem acknowledge_uploadView (pk : Segment) (v : List (TCPPacketWrapper Segment) × BitVec 32 × Bytes) :
    Java.Keeps (fun c => c.uploadView = v) (acknowledge pk) := by
  have hs := uploadView_stable v
  intro c hc
  have hcases := acknowledge_cases c pk
  generalize (Java.exec (acknowledge pk) c).2 = c' at hcases ⊢
  cases hcases with
  | removed _ _ => exact hc
  | resent lost _ _ _ =>
    have hnone : polledBytes (lost.map Effect.onPacketReadyForClient) = [] := by
      simp [polledBytes, written]
    rw [← hc]
    simp only [uploadView, polledBytes_append, hnone, List.append_nil]
  | finAcknowledged _ => exact hc
  | terminated _ => exact hs.onTermination c hc
  | established _ =>
    rw [← hc]
    simp only [uploadView, polledBytes_append]
    simp [polledBytes, written]
  | ignored _ _ _ _ => exact hc

/-! ## The invariant -/

/-- The queue `q` and the polled bytes `P` when the first `n` bytes of the stream `S` have been
accepted in order, and `N` is the next sequence number. -/
structure Received (isn : BitVec 32) (S : Bytes) (n : ℕ) (q : List (TCPPacketWrapper Segment))
    (N : BitVec 32) (P : Bytes) : Prop where
  sorted : Sorted q
  next : N = isn + 1 + BitVec.ofNat 32 n
  /-- The accepted bytes did not cross the signed boundary. -/
  unwrapped : N.toInt = (isn + 1).toInt + n
  /-- What was polled and what can be polled is a part of the stream. -/
  delivered : P ++ ready (below TCPPacketWrapper.order N.toInt q) <+: S
  /-- Without a placeholder before `N`, it is all that was accepted. -/
  complete : (∀ w ∈ below TCPPacketWrapper.order N.toInt q, w.mPacket.isSome) →
    P ++ ready (below TCPPacketWrapper.order N.toInt q) = S.take n
  atNext : ∀ w ∈ q, w.sequenceNumber = N → w.mPacket = none
  /-- Payload behind `N` is behind a placeholder. -/
  blocked : (∃ w ∈ q, payload w ≠ [] ∧ N.toInt < w.order) → ∃ w ∈ q, w.sequenceNumber = N

section Received

variable {isn N : BitVec 32} {S P : Bytes} {n : ℕ} {q : List (TCPPacketWrapper Segment)}
  {w h : TCPPacketWrapper Segment}

/-- **A placeholder does not make more of the front ready**, and where the front has none it is not in it. -/
theorem below_put_placeholder (hasc : Ascending TCPPacketWrapper.order q) (hh : h.mPacket = none) (n : ℤ) :
    ready (below TCPPacketWrapper.order n (TCPPacketQueue.put h q)) <+: ready (below TCPPacketWrapper.order n q) ∧
      ((∀ w ∈ below TCPPacketWrapper.order n (TCPPacketQueue.put h q), w.mPacket.isSome) →
        below TCPPacketWrapper.order n (TCPPacketQueue.put h q) = below TCPPacketWrapper.order n q) := by
  rw [TCPPacketQueue.put_eq_upsert hasc]
  rcases le_or_gt n h.order with hle | hlt
  · rw [below_upsert_of_le hle]
    exact ⟨List.prefix_rfl, fun _ => rfl⟩
  · rw [below_upsert_of_lt hlt]
    refine ⟨?_, fun hall => ?_⟩
    · -- up to `h` nothing changes, and at `h` the ready part ends
      have hready : ready (below TCPPacketWrapper.order h.order q ++
          h :: below TCPPacketWrapper.order n (above TCPPacketWrapper.order h.order q)) =
            ready (below TCPPacketWrapper.order h.order q) := by
        by_cases hreal : ∀ v ∈ below TCPPacketWrapper.order h.order q, v.mPacket.isSome
        · rw [ready_append_real hreal]
          simp [ready, hh]
        · exact ready_append_blocked hreal
      rw [hready, below_eq_append hasc hlt.le]
      exact ready_le_append _ _
    · have hreal := hall h (by simp)
      rw [hh] at hreal
      cases hreal

/-- A placeholder anywhere keeps the invariant; before `N` it blocks what is behind it. -/
theorem Received.putPlaceholder (ha : Received isn S n q N P) (hh : h.mPacket = none) :
    Received isn S n (TCPPacketQueue.put h q) N P := by
  have hmem := fun a => TCPPacketQueue.mem_put (w := h) (a := a) ha.sorted
  obtain ⟨hfront, hcomplete⟩ := below_put_placeholder ha.sorted hh N.toInt
  refine ⟨TCPPacketQueue.put_sorted ha.sorted h, ha.next, ha.unwrapped, ?_, ?_, ?_, ?_⟩
  · exact List.IsPrefix.trans (List.prefix_append_right_inj P |>.2 hfront) ha.delivered
  · intro hall
    have heq := hcomplete hall
    rw [heq] at hall ⊢
    exact ha.complete hall
  · intro a hmema hseq
    rcases (hmem a).1 hmema with rfl | ⟨hq, -⟩
    · exact hh
    · exact ha.atNext a hq hseq
  · rintro ⟨a, hmema, hreal, hlt⟩
    rcases (hmem a).1 hmema with rfl | ⟨hq, -⟩
    · exact absurd (payload_placeholder hh) hreal
    · obtain ⟨v, hv, hseq⟩ := ha.blocked ⟨a, hq, hreal, hlt⟩
      by_cases hvh : v.sequenceNumber = h.sequenceNumber
      · exact ⟨h, (hmem h).2 (.inl rfl), hvh.symm.trans hseq⟩
      · exact ⟨v, (hmem v).2 (.inr ⟨hv, hvh⟩), hseq⟩

/-- A packet behind `N`, which a placeholder at `N` holds back if it has payload. -/
theorem Received.putBehind (ha : Received isn S n q N P) (hlt : N.toInt < w.order)
    (hblock : payload w ≠ [] → ∃ v ∈ q, v.sequenceNumber = N) : Received isn S n (TCPPacketQueue.put w q) N P := by
  have hmem := fun a => TCPPacketQueue.mem_put (w := w) (a := a) ha.sorted
  have hbelow : below TCPPacketWrapper.order N.toInt (TCPPacketQueue.put w q) =
      below TCPPacketWrapper.order N.toInt q := by
    rw [TCPPacketQueue.put_eq_upsert ha.sorted, below_upsert_of_le hlt.le]
  have hne : w.sequenceNumber ≠ N := by
    intro heq
    rw [TCPPacketWrapper.order, heq] at hlt
    exact lt_irrefl _ hlt
  refine ⟨TCPPacketQueue.put_sorted ha.sorted w, ha.next, ha.unwrapped, ?_, ?_, ?_, ?_⟩
  · rw [hbelow]; exact ha.delivered
  · rw [hbelow]; exact ha.complete
  · intro a hmema hseq
    rcases (hmem a).1 hmema with rfl | ⟨hq, -⟩
    · exact absurd hseq hne
    · exact ha.atNext a hq hseq
  · rintro ⟨a, hmema, hpay, hgt⟩
    obtain ⟨v, hv, hseq⟩ : ∃ v ∈ q, v.sequenceNumber = N := by
      rcases (hmem a).1 hmema with rfl | ⟨hq, -⟩
      · exact hblock hpay
      · exact ha.blocked ⟨a, hq, hpay, hgt⟩
    refine ⟨v, (hmem v).2 (.inr ⟨hv, ?_⟩), hseq⟩
    rw [hseq]
    exact hne.symm

/-- A number with a length below the signed boundary. -/
theorem toInt_add_length {N : BitVec 32} {len : ℕ} (h : N.toInt + len < 2 ^ 31) :
    (N + BitVec.ofNat 32 len).toInt = N.toInt + len := by
  have h1 := BitVec.le_two_mul_toInt (x := N)
  have h2 := BitVec.two_mul_toInt_lt (x := N)
  have hl : len < 2 ^ 32 := by omega
  rw [BitVec.toInt_add, BitVec.toInt_ofNat']
  norm_num [Int.bmod_def] at *
  omega

/-- **A packet at `N` is accepted**: with no packet queued inside it, the accepted part of the
stream grows by its payload. -/
theorem Received.putNext (ha : Received isn S n q N P) (hw : w.sequenceNumber = N)
    (hreal : w.mPacket.isSome) (hstream : payload w <+: S.drop n) (hpos : 0 < (payload w).length)
    (hsmall : N.toInt + (payload w).length < 2 ^ 31)
    (hinside : ∀ v ∈ q, N.toInt < v.order → v.order < N.toInt + (payload w).length → v.mPacket = none)
    (hh : h.mPacket = none) (hseq : h.sequenceNumber = N + BitVec.ofNat 32 (payload w).length) :
    Received isn S (n + (payload w).length) (TCPPacketQueue.put h (TCPPacketQueue.put w q))
      (N + BitVec.ofNat 32 (payload w).length) P := by
  set len := (payload w).length with hlen
  have hN' : (N + BitVec.ofNat 32 len).toInt = N.toInt + len := toInt_add_length hsmall
  have hwo : w.order = N.toInt := by rw [TCPPacketWrapper.order, hw]
  have hho : h.order = N.toInt + len := by rw [TCPPacketWrapper.order, hseq, hN']
  have hsw := TCPPacketQueue.put_sorted ha.sorted w
  have hmem := fun a => TCPPacketQueue.mem_put (w := h) (a := a) hsw
  -- before the new `N`: what was before the old one, the packet, and placeholders inside it
  set mid := below TCPPacketWrapper.order (N.toInt + len) (above TCPPacketWrapper.order N.toInt q) with hmid
  have hbelow : below TCPPacketWrapper.order (N.toInt + len) (TCPPacketQueue.put h (TCPPacketQueue.put w q)) =
      below TCPPacketWrapper.order N.toInt q ++ w :: mid := by
    rw [TCPPacketQueue.put_eq_upsert hsw, below_upsert_of_le hho.ge, TCPPacketQueue.put_eq_upsert ha.sorted,
      below_upsert_of_lt (by omega), hwo]
  have hmidnone : ready mid = [] := by
    refine ready_placeholders fun v hv => ?_
    simp only [hmid, mem_below, mem_above] at hv
    exact hinside v hv.1.1 hv.1.2 hv.2
  have hgrow : S.take n ++ payload w = S.take (n + len) := by
    obtain ⟨t, ht⟩ := hstream
    rw [List.take_add, ← ht, List.take_left' rfl]
  have hall : (∀ v ∈ below TCPPacketWrapper.order N.toInt q, v.mPacket.isSome) →
      P ++ ready (below TCPPacketWrapper.order N.toInt q ++ w :: mid) = S.take (n + len) := by
    intro hall
    rw [ready_append_real hall, ready, if_pos hreal, hmidnone, List.append_nil, ← List.append_assoc,
      ha.complete hall, hgrow]
  refine ⟨TCPPacketQueue.put_sorted hsw h, ?_, ?_, ?_, ?_, ?_, ?_⟩
  · rw [ha.next, BitVec.add_assoc, BitVec.ofNat_add]
  · rw [hN', ha.unwrapped]; push_cast; ring
  · rw [hN', hbelow]
    by_cases hreals : ∀ v ∈ below TCPPacketWrapper.order N.toInt q, v.mPacket.isSome
    · rw [hall hreals]
      exact List.take_prefix _ _
    · rw [ready_append_blocked hreals]
      exact ha.delivered
  · rw [hN', hbelow]
    intro hreals
    exact hall fun v hv => hreals v (List.mem_append_left _ hv)
  · intro a hmema haseq
    rcases (hmem a).1 hmema with rfl | ⟨-, hne⟩
    · exact hh
    · exact absurd (haseq.trans hseq.symm) hne
  · intro _
    exact ⟨h, (hmem h).2 (.inl rfl), hseq⟩

/-- A packet without payload at the head, behind `N`. -/
theorem Received.dropEmpty (ha : Received isn S n (w :: q) N P) (hempty : payload w = []) (hgt : N.toInt < w.order) :
    Received isn S n q N P := by
  have hfirst := (List.pairwise_cons.1 ha.sorted).1
  -- nothing of the queue is before `N`, or at it
  have hnil : ∀ l : List (TCPPacketWrapper Segment), (∀ v ∈ l, N.toInt < v.order) →
      below TCPPacketWrapper.order N.toInt l = [] := by
    intro l hl
    rw [below, List.filter_eq_nil_iff]
    intro v hv
    simpa using (hl v hv).le
  have hbehind : ∀ v ∈ w :: q, N.toInt < v.order := by
    intro v hv
    rcases List.mem_cons.1 hv with rfl | hv
    · exact hgt
    · exact hgt.trans (hfirst v hv)
  have hsame : below TCPPacketWrapper.order N.toInt q = below TCPPacketWrapper.order N.toInt (w :: q) := by
    rw [hnil _ hbehind, hnil _ fun v hv => hbehind v (List.mem_cons_of_mem _ hv)]
  refine ⟨Ascending.tail ha.sorted, ha.next, ha.unwrapped, ?_, ?_, ?_, ?_⟩
  · rw [hsame]
    exact ha.delivered
  · rw [hsame]
    exact ha.complete
  · exact fun a hmema => ha.atNext a (List.mem_cons_of_mem _ hmema)
  · rintro ⟨a, hmema, hpay, hga⟩
    obtain ⟨u, hu, hseq⟩ := ha.blocked ⟨a, List.mem_cons_of_mem _ hmema, hpay, hga⟩
    have := hbehind u hu
    rw [TCPPacketWrapper.order, hseq] at this
    exact absurd this (lt_irrefl _)

/-- **`poll` delivers the next bytes of the stream.** -/
theorem Received.poll (ha : Received isn S n (w :: q) N P) (hreal : w.mPacket.isSome) :
    Received isn S n q N (P ++ payload w) := by
  have hfirst := (List.pairwise_cons.1 ha.sorted).1
  rcases lt_trichotomy w.order N.toInt with hlt | heq | hgt
  · have hbelow : below TCPPacketWrapper.order N.toInt (w :: q) =
        w :: below TCPPacketWrapper.order N.toInt q := List.filter_cons_of_pos (by simpa using hlt)
    have hready : ready (w :: below TCPPacketWrapper.order N.toInt q) =
        payload w ++ ready (below TCPPacketWrapper.order N.toInt q) := by rw [ready, if_pos hreal]
    refine ⟨Ascending.tail ha.sorted, ha.next, ha.unwrapped, ?_, ?_, ?_, ?_⟩
    · have := ha.delivered
      rwa [hbelow, hready, ← List.append_assoc] at this
    · intro hall
      have := ha.complete
      rw [hbelow, hready, ← List.append_assoc] at this
      refine this fun u hu => ?_
      rcases List.mem_cons.1 hu with rfl | hu
      · exact hreal
      · exact hall u hu
    · exact fun a hmema => ha.atNext a (List.mem_cons_of_mem _ hmema)
    · rintro ⟨a, hmema, hpay, hga⟩
      obtain ⟨u, hu, hseq⟩ := ha.blocked ⟨a, List.mem_cons_of_mem _ hmema, hpay, hga⟩
      rcases List.mem_cons.1 hu with rfl | hu
      · rw [TCPPacketWrapper.order, hseq] at hlt
        exact absurd hlt (lt_irrefl _)
      · exact ⟨u, hu, hseq⟩
  · rw [ha.atNext w List.mem_cons_self (BitVec.toInt_inj.1 heq)] at hreal
    cases hreal
  · -- payload behind `N` is not at the head
    have hempty : payload w = [] := by
      by_contra hpay
      obtain ⟨u, hu, hseq⟩ := ha.blocked ⟨w, List.mem_cons_self, hpay, hgt⟩
      have huo : u.order = N.toInt := by rw [TCPPacketWrapper.order, hseq]
      rcases List.mem_cons.1 hu with rfl | hu
      · omega
      · have := hfirst u hu
        omega
    rw [hempty, List.append_nil]
    exact ha.dropEmpty hempty hgt

/-- **A poll while a placeholder is still to be put.** The queue will be right if the head is before the
placeholder, or without payload in its place. -/
theorem Received.pollBefore (ha : Received isn S n (TCPPacketQueue.put h (w :: q)) N P) (hasc : Sorted (w :: q))
    (hreal : w.mPacket.isSome) (hbefore : w.order < h.order ∨ (w.order = h.order ∧ payload w = [])) :
    Received isn S n (TCPPacketQueue.put h q) N (P ++ payload w) := by
  have htail : Sorted q := Ascending.tail hasc
  rcases hbefore with hlt | ⟨heq, hempty⟩
  · have hput : TCPPacketQueue.put h (w :: q) = w :: TCPPacketQueue.put h q := by
      rw [TCPPacketQueue.put_eq_upsert hasc, TCPPacketQueue.put_eq_upsert htail]
      exact upsert_cons_of_lt hlt
    rw [hput] at ha
    exact ha.poll hreal
  · have hput : TCPPacketQueue.put h (w :: q) = TCPPacketQueue.put h q := by
      rw [TCPPacketQueue.put_eq_upsert hasc, TCPPacketQueue.put_eq_upsert htail]
      exact upsert_cons_of_eq heq
    rw [hput] at ha
    rwa [hempty, List.append_nil]

end Received

end TCPController

open TCPController

/-! ## Runs -/

/-- What happens while a client uploads: the processor takes a data segment, labelled with the offset of
its slice of the stream, or goes on with its round; a poll; something else. -/
inductive UploadEvent
  | segment (offset : ℕ) (pk : Segment)
  | resume
  | poll
  | other (e : TCPController.Event)

/-- A data segment carries a slice of the stream `S` at its offset, with ACK and without SYN,
FIN and RST. -/
structure Carries (isn : BitVec 32) (S : Bytes) (offset : ℕ) (pk : Segment) : Prop extends pk.Plain where
  seq : pk.sequenceNumber = isn + 1 + BitVec.ofNat 32 offset
  data : pk.data.getD [] <+: S.drop offset

namespace UploadEvent

def toEvent : UploadEvent → PacketProcessor.Event
  | segment _ pk => .take pk
  | resume => .resume
  | poll => .other .poll
  | other e => .other e

/-- The events of an upload of `S`; other events come neither from the client nor from the
writer thread. -/
def Of (isn : BitVec 32) (S : Bytes) : UploadEvent → Prop
  | segment offset pk => Carries isn S offset pk
  | other e => (∀ pk, e ≠ .client pk) ∧ e ≠ .poll
  | _ => True

end UploadEvent

namespace PacketProcessor

def uploadStep (p : PacketProcessor) (e : UploadEvent) : PacketProcessor := p.step e.toEvent

/-- What the code asks of a segment with payload, when it is taken, and of a poll. In sequence, the segment is
among the first `2 ^ 32` bytes, ends below the signed boundary, and no packet is queued inside it. Ahead of the
sequence, the queue has a wrapper at `mClientNexSeqNumber`. Until the placeholder of a packet in sequence is put,
no packet behind it is polled. -/
def Orderly (p : PacketProcessor) : UploadEvent → Prop
  | .segment offset pk => p.phase = .idle → p.controller.processorEnded = false → pk.data.getD [] ≠ [] →
    (pk.sequenceNumber = p.controller.mClientNexSeqNumber → offset < 2 ^ 32 ∧
      pk.sequenceNumber.toInt + (pk.data.getD []).length < 2 ^ 31 ∧
      ∀ w ∈ p.controller.mRemotePacketQueue, pk.sequenceNumber.toInt < w.order →
        w.order < pk.sequenceNumber.toInt + (pk.data.getD []).length → w.mPacket = none) ∧
    (pk.sequenceNumber ≠ p.controller.mClientNexSeqNumber - 1 →
      p.controller.mClientNexSeqNumber.toInt < pk.sequenceNumber.toInt →
      ∃ w ∈ p.controller.mRemotePacketQueue, w.sequenceNumber = p.controller.mClientNexSeqNumber)
  | .poll => ∀ pk ∈ p.phase.pending, ∀ w ∈ p.controller.mRemotePacketQueue.head?,
    w.mPacket.isSome → w.order ≤ pk.sequenceNumber.toInt
  | _ => True

instance (p : PacketProcessor) : ∀ e, Decidable (Orderly p e)
  | .segment _ _ => inferInstanceAs (Decidable (_ → _ → _ → _ ∧ _))
  | .poll => inferInstanceAs (Decidable (∀ pk ∈ p.phase.pending, ∀ w ∈ p.controller.mRemotePacketQueue.head?, _))
  | .resume => inferInstanceAs (Decidable True)
  | .other _ => inferInstanceAs (Decidable True)

/-- The queue, with the placeholder that is still to be put behind a packet in sequence. -/
def queueAhead (p : PacketProcessor) : List (TCPPacketWrapper Segment) :=
  match p.phase.pending with
  | some pk => TCPPacketQueue.put (placeholderOf pk) p.controller.mRemotePacketQueue
  | none => p.controller.mRemotePacketQueue

/-- `mClientNexSeqNumber` at the end of the round. -/
def nextAhead (p : PacketProcessor) : BitVec 32 :=
  match p.phase with
  | .between pk false | .behind pk false => pk.next
  | _ => p.controller.mClientNexSeqNumber

/-- A packet in sequence is in the queue without its placeholder. -/
structure Pending (pk : Segment) (q : List (TCPPacketWrapper Segment)) : Prop where
  sorted : Sorted q
  next : pk.next = (placeholderOf pk).sequenceNumber
  order : (placeholderOf pk).order = pk.sequenceNumber.toInt + (pk.data.getD []).length
  payload : ∀ w ∈ q, w.sequenceNumber = pk.sequenceNumber → TCPController.payload w = pk.data.getD []

/-- The invariant of an upload. -/
structure Uploading (isn : BitVec 32) (S : Bytes) (p : PacketProcessor) : Prop where
  received : ∃ n, Received isn S n p.queueAhead p.nextAhead (polledBytes p.controller.log)
  pending : ∀ pk ∈ p.phase.pending, Pending pk p.controller.mRemotePacketQueue
  plain : ∀ pk, p.phase = .behind pk false ∨ p.phase = .between pk false → pk.Plain

section Steps

variable {isn : BitVec 32} {S : Bytes} {p : PacketProcessor} {c c' : TCPController} {pk : Segment} {phase : Phase}
  {offset : ℕ}

/-- Nothing is ahead of the controller in a phase that is not of a packet in sequence. -/
theorem uploading_iff (hphase : phase = .idle ∨ (∃ pk, phase = .between pk true) ∨ ∃ pk, phase = .behind pk true) :
    Uploading isn S ⟨c, phase⟩ ↔
      ∃ n, Received isn S n c.mRemotePacketQueue c.mClientNexSeqNumber (polledBytes c.log) := by
  constructor
  · rintro ⟨h, -, -⟩
    rcases hphase with rfl | ⟨pk, rfl⟩ | ⟨pk, rfl⟩ <;> exact h
  · intro h
    rcases hphase with rfl | ⟨pk, rfl⟩ | ⟨pk, rfl⟩ <;>
      exact ⟨h, (fun _ hpk => nomatch hpk), fun _ hpk => by simp at hpk⟩

theorem Uploading.of_view (h : Uploading isn S p) (hv : c'.uploadView = p.controller.uploadView) :
    Uploading isn S { p with controller := c' } := by
  simp only [uploadView, Prod.mk.injEq] at hv
  have hahead : queueAhead { p with controller := c' } = p.queueAhead := by
    unfold queueAhead
    rw [hv.1]
  have hnext : nextAhead { p with controller := c' } = p.nextAhead := by
    unfold nextAhead
    rw [hv.2.1]
  refine ⟨?_, ?_, h.plain⟩
  · rw [hahead, hnext, hv.2.2]
    exact h.received
  · simp only [hv.1]
    exact h.pending

theorem polledBytes_queued (log : List Effect) (w : TCPPacketWrapper Segment) :
    polledBytes (log ++ [.queued w]) = polledBytes log := by
  rw [polledBytes_append]
  simp [polledBytes, written]

theorem putWrapper_exec (pk : Segment) (push ahead : Bool) (c : TCPController) :
    Java.exec (putWrapper pk push ahead) c = (.ok (.between pk ahead), { c with
      mRemotePacketQueue := TCPPacketQueue.put (wrapperOf pk push) c.mRemotePacketQueue
      log := c.log ++ [.queued (wrapperOf pk push)] }) := rfl

/-- A segment in sequence that ends below the boundary lies at the byte that is accepted next. -/
theorem offset_eq_received {n : ℕ} {q : List (TCPPacketWrapper Segment)} {N : BitVec 32} {P : Bytes}
    (ha : Received isn S n q N P) (hpk : Carries isn S offset pk) (hseq : pk.sequenceNumber = N) (hoff : offset < 2 ^ 32)
    (hpos : 0 < (pk.data.getD []).length) (hsmall : N.toInt + (pk.data.getD []).length < 2 ^ 31) : offset = n := by
  have h1 := ha.unwrapped
  have h2 := BitVec.le_two_mul_toInt (x := isn + 1)
  have hlt : n < 2 ^ 32 := by omega
  have heq : BitVec.ofNat 32 offset = BitVec.ofNat 32 n := add_left_cancel ((hpk.seq.symm.trans hseq).trans ha.next)
  have := congrArg BitVec.toNat heq
  rwa [BitVec.toNat_ofNat, BitVec.toNat_ofNat, Nat.mod_eq_of_lt hoff, Nat.mod_eq_of_lt hlt] at this

/-- **Both puts of a segment in sequence** accept its bytes. -/
theorem received_putBoth (push : Bool) {n : ℕ} {P : Bytes} (ha : Received isn S n c.mRemotePacketQueue c.mClientNexSeqNumber P)
    (hpk : Carries isn S offset pk) (hseq : pk.sequenceNumber = c.mClientNexSeqNumber) (hopen : c.processorEnded = false)
    (hord : Orderly ⟨c, .idle⟩ (.segment offset pk)) :
    (placeholderOf pk).order = pk.sequenceNumber.toInt + (pk.data.getD []).length ∧
      ∃ n, Received isn S n (TCPPacketQueue.put (placeholderOf pk) (TCPPacketQueue.put (wrapperOf pk push)
        c.mRemotePacketQueue)) (placeholderOf pk).sequenceNumber P := by
  set d := pk.data.getD [] with hd
  set w := wrapperOf pk push with hw
  set ph := placeholderOf pk with hph
  have hlen : pk.dataLength = d.length := pk.dataLength_eq
  have hphseq : ph.sequenceNumber = c.mClientNexSeqNumber + BitVec.ofNat 32 d.length := by
    rw [← hseq, ← hlen]
    rfl
  by_cases hempty : d = []
  · -- an empty packet is replaced by its own placeholder
    have h0 : ph.sequenceNumber = c.mClientNexSeqNumber := by
      rw [hphseq, hempty]
      simp
    have hsame : TCPPacketQueue.put ph (TCPPacketQueue.put w c.mRemotePacketQueue) =
        TCPPacketQueue.put ph c.mRemotePacketQueue := by
      rw [TCPPacketQueue.put_eq_upsert (TCPPacketQueue.put_sorted ha.sorted w), TCPPacketQueue.put_eq_upsert ha.sorted,
        TCPPacketQueue.put_eq_upsert ha.sorted]
      refine upsert_upsert_same ?_
      rw [TCPPacketWrapper.order, TCPPacketWrapper.order, h0, ← hseq]
      rfl
    refine ⟨?_, n, ?_⟩
    · rw [TCPPacketWrapper.order, h0, ← hseq, hempty]
      simp
    · rw [hsame, h0]
      exact ha.putPlaceholder rfl
  · obtain ⟨hoff, hsmall, hinside⟩ := (hord rfl hopen hempty).1 hseq
    have hpos := List.length_pos_of_ne_nil hempty
    rw [hseq] at hsmall hinside
    have hn : offset = n := offset_eq_received ha hpk hseq hoff hpos hsmall
    refine ⟨?_, n + d.length, ?_⟩
    · rw [TCPPacketWrapper.order, hphseq, hseq]
      exact toInt_add_length hsmall
    · rw [hphseq]
      exact ha.putNext (w := w) (h := ph) (by rw [← hseq]; rfl) rfl (by rw [← hn]; exact hpk.data) hpos hsmall hinside rfl
        hphseq

/-- **The first put of a segment in sequence.** -/
theorem Uploading.putInSequence (h : Uploading isn S ⟨c, .idle⟩) (hpk : Carries isn S offset pk)
    (hseq : pk.sequenceNumber = c.mClientNexSeqNumber) (hopen : c.processorEnded = false)
    (hord : Orderly ⟨c, .idle⟩ (.segment offset pk)) (push : Bool) :
    Uploading isn S ((⟨c, .idle⟩ : PacketProcessor).advance (putWrapper pk push false)) := by
  obtain ⟨n, ha⟩ := (uploading_iff (.inl rfl)).1 h
  obtain ⟨horder, hreceived⟩ := received_putBoth push ha hpk hseq hopen hord
  have hnext : pk.next = (placeholderOf pk).sequenceNumber := Segment.next_payload fun _ => by simp [hpk.syn, hpk.fin]
  simp only [advance, putWrapper_exec]
  refine ⟨?_, ?_, ?_⟩
  · rw [polledBytes_queued]
    simp only [nextAhead, hnext]
    exact hreceived
  · rintro _ ⟨⟩
    refine ⟨TCPPacketQueue.put_sorted ha.sorted _, hnext, horder, fun v hv hvseq => ?_⟩
    rcases (TCPPacketQueue.mem_put ha.sorted).1 hv with rfl | ⟨-, hne⟩
    · rfl
    · exact absurd hvseq hne
  · rintro pk' (h | h)
    · cases h
    · cases h
      exact hpk.toPlain

/-- The end of a round that does not concern the upload. -/
theorem Uploading.advance_idle (h : Uploading isn S ⟨c, .idle⟩) (x : Java TCPController Unit)
    (hx : ∀ v, Java.Keeps (fun c => c.uploadView = v) x) :
    Uploading isn S (advance ⟨c, .idle⟩ (x >>= fun _ => pure .idle)) := by
  have hview := hx c.uploadView c rfl
  unfold advance
  rw [Java.exec_bind]
  rcases hr : Java.exec x c with ⟨_ | _, c'⟩ <;> rw [hr] at hview <;> exact h.of_view hview

/-- A segment out of sequence. -/
theorem Uploading.takeOutOfSequence (h : Uploading isn S ⟨c, .idle⟩) (hpk : Carries isn S offset pk)
    (hopen : c.processorEnded = false) (hord : Orderly ⟨c, .idle⟩ (.segment offset pk)) :
    Uploading isn S (advance ⟨c, .idle⟩ (takeOutOfSequence pk)) := by
  obtain ⟨n, ha⟩ := (uploading_iff (.inl rfl)).1 h
  by_cases hahead : pk.data.isSome ∧ pk.sequenceNumber ≠ c.mClientNexSeqNumber - 1 ∧
      c.mClientNexSeqNumber.toInt < pk.sequenceNumber.toInt
  · have hexec : Java.exec (TCPController.takeOutOfSequence pk) c =
        Java.exec (putWrapper pk (pk.flag.PSH = 1) true) c := by
      unfold TCPController.takeOutOfSequence
      rw [Java.exec_get_bind]
      simp only [if_pos hahead]
    simp only [advance, hexec, putWrapper_exec]
    refine (uploading_iff (.inr (.inl ⟨_, rfl⟩))).2 ⟨n, ?_⟩
    rw [polledBytes_queued]
    exact ha.putBehind hahead.2.2 fun hpay => (hord rfl hopen hpay).2 hahead.2.1 hahead.2.2
  · -- a keep-alive is answered, anything else is discarded
    have hexec : Java.exec (TCPController.takeOutOfSequence pk) c = Java.exec ((if pk.data.isSome ∧
        pk.sequenceNumber = c.mClientNexSeqNumber - 1 then
          sendSacks [⟨pk.sequenceNumber, pk.sequenceNumber + BitVec.ofNat 32 pk.dataLength⟩] else pure ()) >>=
        fun _ => pure .idle) c := by
      unfold TCPController.takeOutOfSequence outOfSequence
      rw [Java.exec_get_bind]
      simp only [if_neg hahead]
      rw [bind_assoc, Java.exec_get_bind]
      cases hd : pk.data with
      | none => simp only [if_neg hpk.not_rst, Option.isSome_none, Bool.false_eq_true, false_and, if_false]
      | some data =>
        simp only [hd, Option.isSome_some, true_and, not_and] at hahead ⊢
        by_cases hkeep : pk.sequenceNumber = c.mClientNexSeqNumber - 1
        · simp only [if_pos hkeep, Segment.dataLength, hd, Option.map_some, Option.getD_some]
        · simp only [if_neg hkeep, if_neg (hahead hkeep)]
    have hidle := h.advance_idle (if pk.data.isSome ∧ pk.sequenceNumber = c.mClientNexSeqNumber - 1 then
      sendSacks [⟨pk.sequenceNumber, pk.sequenceNumber + BitVec.ofNat 32 pk.dataLength⟩] else pure ())
      fun v => Java.Keeps.ite ((uploadView_stable v).sendSacks _) (Java.Keeps.pure _)
    simp only [advance, hexec]
    exact hidle

/-- A segment in sequence. -/
theorem Uploading.takeInSequence (h : Uploading isn S ⟨c, .idle⟩) (hpk : Carries isn S offset pk)
    (hseq : pk.sequenceNumber = c.mClientNexSeqNumber) (hopen : c.processorEnded = false)
    (hord : Orderly ⟨c, .idle⟩ (.segment offset pk)) :
    Uploading isn S (advance ⟨c, .idle⟩ (takeInSequence pk)) := by
  have h01 : ¬ (0 : Byte) = 1 := by decide
  unfold TCPController.takeInSequence
  simp only [hpk.syn, hpk.ack, hpk.fin, hpk.rst, h01, false_and, true_and, if_false, if_true]
  by_cases hpsh : pk.flag.PSH = 1
  · rw [if_pos hpsh]
    exact h.putInSequence hpk hseq hopen hord true
  rw [if_neg hpsh]
  by_cases hdata : pk.data.isSome
  · rw [if_pos hdata]
    exact h.putInSequence hpk hseq hopen hord false
  · have hend : takeEnd pk = pure () := by
      simp only [takeEnd, if_neg hpk.not_rst, if_neg hpk.not_fin]
      rfl
    rw [if_neg hdata, hend]
    exact h.advance_idle _ fun v => acknowledge_uploadView pk v

/-- **Taking a segment keeps the invariant.** -/
theorem Uploading.take (h : Uploading isn S p) (hpk : Carries isn S offset pk)
    (hord : Orderly p (.segment offset pk)) : Uploading isn S (p.step (.take pk)) := by
  obtain ⟨c, phase⟩ := p
  simp only [PacketProcessor.step]
  by_cases hidle : phase = .idle ∧ c.processorEnded = false
  · obtain ⟨rfl, hopen⟩ := hidle
    have h₁ : Uploading isn S ⟨{ c with mClientWindowSize := pk.windowSize }, .idle⟩ :=
      h.of_view rfl
    rw [if_pos ⟨rfl, hopen⟩]
    have hexec : Java.exec (takePacket pk) c = if pk.sequenceNumber ≠ c.mClientNexSeqNumber
        then Java.exec (TCPController.takeOutOfSequence pk) { c with mClientWindowSize := pk.windowSize }
        else Java.exec (TCPController.takeInSequence pk) { c with mClientWindowSize := pk.windowSize } := by
      simp only [takePacket, if_neg hpk.not_syn, Java.exec_bind, Java.exec_modify, Java.exec_get, Java.exec_ite]
    unfold advance
    simp only [hexec]
    by_cases hseq : pk.sequenceNumber = c.mClientNexSeqNumber
    · rw [if_neg (not_not.2 hseq)]
      exact h₁.takeInSequence hpk hseq hopen hord
    · rw [if_pos hseq]
      exact h₁.takeOutOfSequence hpk hopen hord
  · rw [if_neg hidle]
    exact h

/-- **Going on with a round keeps the invariant.** -/
theorem Uploading.resume (h : Uploading isn S p) : Uploading isn S (p.step .resume) := by
  obtain ⟨c, phase⟩ := p
  cases phase with
  | idle => exact h
  | between pk ahead =>
    have hexec : Java.exec (TCPController.resume (.between pk ahead)) c = (.ok (.behind pk ahead), { c with
        mRemotePacketQueue := TCPPacketQueue.put (placeholderOf pk) c.mRemotePacketQueue }) := rfl
    simp only [PacketProcessor.step, advance, hexec]
    cases ahead with
    | false => exact ⟨h.received, (fun _ hpk => by cases hpk), fun pk' hpk' => h.plain pk' (by simpa using hpk')⟩
    | true =>
      obtain ⟨n, ha⟩ := (uploading_iff (.inr (.inl ⟨_, rfl⟩))).1 h
      exact (uploading_iff (.inr (.inr ⟨_, rfl⟩))).2 ⟨n, ha.putPlaceholder rfl⟩
  | behind pk ahead =>
    cases ahead with
    | false =>
      have hpk := h.plain pk (.inl rfl)
      have hend : takeEnd pk = pure () := by
        simp only [takeEnd, if_neg hpk.not_rst, if_neg hpk.not_fin]
        rfl
      have hexec : Java.exec (TCPController.resume (.behind pk false)) c = (.ok .idle, { c with
          mClientSeqNumber := pk.sequenceNumber, mClientNexSeqNumber := pk.next }) := by
        simp only [TCPController.resume, hend]
        rfl
      simp only [PacketProcessor.step, advance, hexec]
      exact (uploading_iff (.inl rfl)).2 h.received
    | true =>
      have h₁ : Uploading isn S ⟨c, .idle⟩ := (uploading_iff (.inl rfl)).2 ((uploading_iff (.inr (.inr ⟨_, rfl⟩))).1 h)
      exact h₁.advance_idle (do sendSacks (generateSacks (← get).mRemotePacketQueue))
        fun v => Java.Keeps.bind Java.Keeps.get fun _ => (uploadView_stable v).sendSacks _

/-- **A poll keeps the invariant.** -/
theorem Uploading.poll (h : Uploading isn S p) (hord : Orderly p .poll) : Uploading isn S (p.step (.other .poll)) := by
  obtain ⟨c, phase⟩ := p
  obtain ⟨n, ha⟩ := h.received
  simp only [PacketProcessor.step, TCPController.step, pollQueue]
  cases hq : c.mRemotePacketQueue with
  | nil => exact h
  | cons w q =>
    by_cases hreal : w.mPacket.isSome
    · have hlog : polledBytes (c.log ++ [.polled w]) = polledBytes c.log ++ payload w := by
        rw [polledBytes_append]
        simp [polledBytes, written]
      have hpolled : TCPPacketQueue.poll (w :: q) = some (w, q) := by simp only [TCPPacketQueue.poll, if_pos hreal]
      simp only [hpolled]
      refine ⟨?_, ?_, h.plain⟩
      · refine ⟨n, ?_⟩
        simp only [hlog]
        cases hpending : phase.pending with
        | none =>
          simp only [queueAhead, nextAhead, hpending, hq] at ha ⊢
          exact ha.poll hreal
        | some pk =>
          have hp := h.pending pk hpending
          simp only [queueAhead, nextAhead, hpending, hq] at ha ⊢
          refine ha.pollBefore (hq ▸ hp.sorted) hreal ?_
          have hle := hord pk hpending w (by simp [hq]) hreal
          rw [hp.order]
          rcases lt_or_eq_of_le (hle.trans (le_add_of_nonneg_right (Int.natCast_nonneg _))) with hlt | heq
          · exact .inl hlt
          · -- only a packet without payload is followed by a placeholder in its own place
            have hlen : (pk.data.getD []).length = 0 := by omega
            have hseq : w.sequenceNumber = pk.sequenceNumber := BitVec.toInt_inj.1 (by
              rw [TCPPacketWrapper.order] at heq
              omega)
            refine .inr ⟨heq, ?_⟩
            rw [hp.payload w (by simp [hq]) hseq]
            exact List.eq_nil_of_length_eq_zero hlen
      · intro pk hpk
        have hp := h.pending pk hpk
        simp only [hq] at hp
        exact ⟨Ascending.tail hp.sorted, hp.next, hp.order, fun v hv => hp.payload v (List.mem_cons_of_mem _ hv)⟩
    · simp only [TCPPacketQueue.poll, if_neg hreal]
      exact h

/-- **An orderly step keeps the invariant.** -/
theorem Uploading.step {e : UploadEvent} (h : Uploading isn S p) (he : e.Of isn S) (hord : Orderly p e) :
    Uploading isn S (p.uploadStep e) := by
  cases e with
  | segment offset pk => exact h.take he hord
  | resume => exact h.resume
  | poll => exact h.poll hord
  | other e =>
    obtain ⟨hclient, hpoll⟩ := he
    have hview : ∀ x : Java TCPController Unit,
        (∀ v, SendStable (fun c => c.uploadView = v) → Java.Keeps (fun c => c.uploadView = v) x) →
        Uploading isn S { p with controller := (Java.exec x p.controller).2 } :=
      fun x hx => h.of_view (hx _ (uploadView_stable _) _ rfl)
    cases e with
    | connected => exact hview _ fun _ hs => hs.handshake
    | client pk => exact absurd rfl (hclient pk)
    | poll => exact absurd rfl hpoll
    | packetFromRemote data push => exact hview _ fun _ hs => hs.sendDataToClient data push
    | tick => exact hview _ fun _ hs => hs.sendKeepAlivePacket
    | close => exact hview _ fun _ hs => hs.sendFINPacket
    | remoteClosed => exact hview _ fun _ hs => hs.sendFINPacket
    | terminate => exact hview _ fun _ hs => hs.terminate

theorem Uploading.start (S : Bytes) (hnext : c.mClientNexSeqNumber = isn + 1) (hq : c.mRemotePacketQueue = [])
    (hlog : c.log = []) : Uploading isn S ⟨c, .idle⟩ := by
  refine (uploading_iff (.inl rfl)).2 ⟨0, ?_⟩
  rw [hnext, hq, hlog]
  refine ⟨List.Pairwise.nil, by simp, by simp, ?_, fun _ => rfl, ?_, ?_⟩
  · exact List.nil_prefix
  · intro w hw; cases hw
  · rintro ⟨w, hw, -⟩; cases hw

end Steps

/-- **What reaches the remote is the client's stream.** In every run of a controller on data segments of a
stream and polls, in any order and also between the two puts of a packet, whose steps are `Orderly`, the bytes
polled are a prefix of the stream. -/
theorem polledBytes_of_stream {header : IPV4Header} {tcp : TCP} {random : BitVec 32} {ident : BitVec 16}
    {c : TCPController} {isn : BitVec 32} (hnew : TCPController.new header tcp random ident = .ok c)
    (hisn : tcp.getSequenceNumberIntValue = .ok isn) (S : Bytes) (es : List UploadEvent)
    (hes : ∀ e ∈ es, e.Of isn S) (hord : Run.Always uploadStep Orderly ⟨c, .idle⟩ es) :
    polledBytes (Run.run uploadStep ⟨c, .idle⟩ es).controller.log <+: S := by
  obtain ⟨isn', h1, h2, h3, h4, -⟩ := new_eq hnew
  obtain rfl := Except.ok.inj (h1.symm.trans hisn)
  have hstart : Uploading isn' S ⟨c, .idle⟩ := Uploading.start S h2 h3 h4
  have hrun : Uploading isn' S (Run.run uploadStep ⟨c, .idle⟩ es) :=
    Run.invariant_run (fun _ _ hp he => hp.step he.1 he.2) hstart (hord.with_events hes)
  obtain ⟨n, ha⟩ := hrun.received
  exact (List.prefix_append _ _).trans ha.delivered

/-- A client's segment of an upload after `isn` 1000. -/
def uploadSegment (offset : ℕ) (data : Bytes) : UploadEvent :=
  .segment offset {
    sequenceNumber := 1001 + BitVec.ofNat 32 offset
    flag := TCPFlag.PSH_ACK
    data := some data }

/-- The second segment is lost, the third is early, and the second and the third are sent again; a poll comes
between the puts of the second. -/
def retransmission : List UploadEvent :=
  [.other .connected, uploadSegment 0 [71, 69], .resume, .resume, uploadSegment 4 [47], .poll, .resume, .resume,
    .poll, uploadSegment 2 [84, 32], .poll, .resume, .resume, uploadSegment 4 [47], .poll, .resume, .resume, .poll]

theorem retransmission_polled :
    polledBytes (Run.run uploadStep ⟨accepting 1000 5000, .idle⟩ retransmission).controller.log =
      [71, 69, 84, 32, 47] ∧
    polledBytes (Run.run uploadStep ⟨accepting 1000 5000, .idle⟩ retransmission).controller.log <+:
      [71, 69, 84, 32, 47, 13] := by
  refine ⟨by decide +kernel, polledBytes_of_stream (new_clientSyn 1000 5000) (clientSyn_sequenceNumber 1000)
    [71, 69, 84, 32, 47, 13] retransmission ?_ (by decide +kernel)⟩
  have hseg : ∀ offset data, data <+: List.drop offset [71, 69, 84, 32, 47, 13] →
      (uploadSegment offset data).Of 1000 [71, 69, 84, 32, 47, 13] :=
    fun offset data h => ⟨⟨rfl, rfl, rfl, rfl⟩, rfl, h⟩
  simp only [retransmission, List.forall_mem_cons]
  exact ⟨⟨by simp, by simp⟩, hseg 0 _ (by decide), trivial, trivial, hseg 4 _ (by decide), trivial, trivial, trivial,
    trivial, hseg 2 _ (by decide), trivial, trivial, trivial, hseg 4 _ (by decide), trivial, trivial, trivial, trivial,
    by simp⟩

/-- **Before the first segment in sequence nothing holds back an early one**: it is polled at once. -/
theorem early_polled : ¬ ∀ (isn random : BitVec 32) (S : Bytes) (es : List UploadEvent), (∀ e ∈ es, e.Of isn S) →
    polledBytes (Run.run uploadStep ⟨accepting isn random, .idle⟩ es).controller.log <+: S := by
  intro h
  have := h 1000 5000 [71, 69] [uploadSegment 1 [69], .resume, .resume, .poll] (by
    simp only [List.forall_mem_cons, UploadEvent.Of]
    exact ⟨⟨⟨rfl, rfl, rfl, rfl⟩, rfl, by decide⟩, trivial, trivial, trivial, by simp⟩)
  revert this
  decide +kernel

/-- Between the two puts nothing holds back a packet behind a lost one. -/
example : polledBytes (Run.run uploadStep ⟨accepting 1000 5000, .idle⟩
    [uploadSegment 0 [88], .resume, .resume, .poll, uploadSegment 3 [99], .resume, .resume,
      uploadSegment 1 [97], .poll, .poll]).controller.log = [88, 97, 99] := by
  decide +kernel

end PacketProcessor

end SmartTunnel
